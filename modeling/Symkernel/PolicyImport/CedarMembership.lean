import Symkernel.PolicyImport.CedarDecision

/-!
# Membership in scopes and in conditions
-/

namespace Symkernel.PolicyImport.Cedar

open Library Library.Cel

inductive Binding where
  | plain
  | resolved
  deriving DecidableEq

def uidTexts (isPrint : Char → Bool) (es : List EntityUID) : Cel.Value EntityUID :=
  .list (es.map fun e => .string (uidText isPrint e))

namespace Request

variable (req : Request) (isPrint : Char → Bool)

def ancestorsOf (text : String) : List EntityUID :=
  ((req.entities.find? fun p => uidText isPrint p.1 = text).map fun p => p.2.ancestors).getD []

def membershipHost (binding : Binding) : Host EntityUID where
  vars := (req.host isPrint).vars
  text := uidText isPrint
  field e f := if f = Cedar.ancestors then some (uidTexts isPrint (req.ancestors e))
    else req.celField e f
  rounding := (req.host isPrint).rounding
  textField text f := if binding = .resolved ∧ f = Cedar.ancestors then
      some (uidTexts isPrint (req.ancestorsOf isPrint text))
    else none

def entityOf : Variable → EntityUID
  | .principal => req.principal
  | .action => req.action
  | .resource | .context => req.resource

end Request

def scopeIn (isPrint : Char → Bool) (x : Variable) (e : EntityUID) : Except UnsupportedError String :=
  if x = .action then actionScope isPrint (.isIn e) else scope isPrint x.name (.isIn e)

def conditionIn (isPrint : Char → Bool) (x : Variable) (e : EntityUID) :
    Except UnsupportedError String :=
  node isPrint (.isIn (.variable x) (.value (.entityUID e)))

def Evaluates (h : Host EntityUID) (text : Except UnsupportedError String) (b : Bool) : Prop :=
  ∃ s e, text = .ok s ∧ parse s = some e ∧ eval h e = .ok (.bool b)

variable {req : Request} {isPrint : Char → Bool} {binding : Binding}

lemma parse_of_reads {s : String} {e : Expr} (h : Reads s.toList (.member e)) :
    parse s = some e := by
  have hparse := h.parse .nil
  rw [chainText, List.append_nil] at hparse
  exact hparse

variable {h : Host EntityUID}

lemma evaluates_iff {s : String} {e : Expr} (hread : Reads s.toList (.member e)) (b : Bool) :
    Evaluates h (.ok s) b ↔ eval h e = .ok (.bool b) := by
  have hparse := parse_of_reads hread
  constructor
  · rintro ⟨s', e', hs, hparse', heval⟩
    cases hs
    rw [hparse] at hparse'
    cases hparse'
    exact heval
  · intro heval
    exact ⟨s, e, rfl, hparse, heval⟩

lemma scopeIn_evaluates (x : Variable) (e : EntityUID) (b : Bool) :
    Evaluates h (scopeIn isPrint x e) b ↔ eval h (inTree isPrint x e) = .ok (.bool b) := by
  unfold scopeIn
  split
  · rename_i hx
    subst hx
    apply evaluates_iff
    simpa [Variable.name] using reads_in .action e
  · exact evaluates_iff (reads_in x e) b

/-- The literal stands where the hierarchy of the variable should. -/
def conditionInTree (isPrint : Char → Bool) (x : Variable) (e : EntityUID) : Expr :=
  .bin .or (.bin .eq (.ident x.name) (uidTree isPrint e))
    (.bin .isIn (.ident x.name) (.select (uidTree isPrint e) ancestors))

lemma conditionIn_evaluates (x : Variable) (e : EntityUID) (b : Bool) :
    Evaluates h (conditionIn isPrint x e) b ↔
      eval h (conditionInTree isPrint x e) = .ok (.bool b) := by
  have hexpr := (nodeSpine_expr_iff isPrint (.isIn (.variable x) (.value (.entityUID e)))).mpr rfl
  obtain ⟨s, hs⟩ : ∃ s, conditionIn isPrint x e = .ok s := ⟨_, rfl⟩
  have hread := node_reads _ s hs rfl
  rw [nodeSpine] at hread hexpr
  rw [Spine.expr] at hexpr
  rw [hs]
  exact evaluates_iff hread b

lemma actionInSet_evaluates (es : List EntityUID) :
    Evaluates h (actionScope isPrint (.inSet es)) true ↔
      ∃ e ∈ es, eval h (.bin .eq (.ident Variable.action.name) (uidTree isPrint e)) =
        .ok (.bool true) := by
  have htree : Evaluates h (actionScope isPrint (.inSet es)) true ↔
      eval h (Expr.join .or (.lit (.bool false))
        (es.map fun e => .bin .eq (.ident "action") (uidTree isPrint e))) = .ok (.bool true) := by
    rw [actionScope]
    simp only [List.length_map, List.length_eq_zero_iff]
    split
    · rename_i hnil
      subst hnil
      exact evaluates_iff reads_false true
    · rename_i hne
      exact evaluates_iff (actionSet_reads hne) true
  rw [htree, eval_join_or]
  simp only [List.mem_map, exists_exists_and_eq_and]
  rfl

lemma any_uidTexts (isPrint : Char → Bool) (e : EntityUID) (es : List EntityUID) :
    (es.map fun e' => Cel.Value.string (uidText isPrint e')).any
        (fun w => (Cel.Value.string (uidText isPrint e)).equal (uidText isPrint) w) =
      decide (e ∈ es) := by
  rw [Bool.eq_iff_iff, List.any_eq_true, decide_eq_true_eq]
  constructor
  · rintro ⟨w, hw, hequal⟩
    obtain ⟨e', he', rfl⟩ := List.mem_map.mp hw
    rw [equal_string, decide_eq_true_eq] at hequal
    rw [uidText_inj hequal]
    exact he'
  · intro he
    exact ⟨_, List.mem_map_of_mem he, by rw [equal_string, decide_eq_true_eq]⟩

lemma ancestorsOf_uidText (isPrint : Char → Bool) (e : EntityUID) :
    req.ancestorsOf isPrint (uidText isPrint e) = req.ancestors e := by
  unfold Request.ancestorsOf Request.ancestors
  induction req.entities with
  | nil => rfl
  | cons p ps ih =>
    rw [List.find?_cons, List.lookup_cons]
    by_cases heq : e = p.1
    · rw [heq, decide_eq_true rfl, beq_self_eq_true]
      rfl
    · have htext : ¬uidText isPrint p.1 = uidText isPrint e := fun h => heq (uidText_inj h).symm
      rw [decide_eq_false htext, beq_eq_false_iff_ne.mpr heq]
      exact ih

section Values

variable {x : Variable} (hx : x ≠ .context)

include hx

lemma eval_variable :
    eval (req.membershipHost isPrint binding) (.ident x.name) = .ok (.object (req.entityOf x)) := by
  cases x with
  | principal | action | resource => rfl
  | context => exact absurd rfl hx

lemma eval_isEntity (e : EntityUID) :
    eval (req.membershipHost isPrint binding) (.bin .eq (.ident x.name) (uidTree isPrint e)) =
      .ok (.bool (decide (req.entityOf x = e))) := by
  have hequal : (Cel.Value.object (req.entityOf x)).equal (uidText isPrint)
      (.string (uidText isPrint e)) = decide (req.entityOf x = e) :=
    equal_of_shows (v := .entityUID (req.entityOf x)) (.inl rfl) (.inr ⟨e, rfl, rfl⟩) rfl
  rw [eval_strict_ok rfl (eval_variable hx) rfl, ← hequal]
  rfl

lemma eval_scopeIn (e : EntityUID) :
    eval (req.membershipHost isPrint binding) (inTree isPrint x e) =
      .ok (.bool (req.isIn (req.entityOf x) e)) := by
  have hselect : eval (req.membershipHost isPrint binding) (.select (.ident x.name) ancestors) =
      .ok (uidTexts isPrint (req.ancestors (req.entityOf x))) := by
    rw [eval, eval_variable hx]
    rfl
  have hin : eval (req.membershipHost isPrint binding) (.bin .isIn (uidTree isPrint e)
      (.select (.ident x.name) ancestors)) =
        .ok (.bool (decide (e ∈ req.ancestors (req.entityOf x)))) := by
    rw [eval_strict_ok rfl rfl hselect, ← any_uidTexts isPrint]
    rfl
  rw [inTree, eval, eval_isEntity hx, hin, decided_or, Request.isIn]

lemma eval_conditionIn_resolved (e : EntityUID) :
    eval (req.membershipHost isPrint .resolved) (conditionInTree isPrint x e) =
      .ok (.bool (decide (req.entityOf x = e) || decide (req.entityOf x ∈ req.ancestors e))) := by
  have hselect : eval (req.membershipHost isPrint .resolved)
      (.select (uidTree isPrint e) ancestors) = .ok (uidTexts isPrint (req.ancestors e)) := by
    rw [← ancestorsOf_uidText isPrint e]
    rfl
  have hin : eval (req.membershipHost isPrint .resolved) (.bin .isIn (.ident x.name)
      (.select (uidTree isPrint e) ancestors)) =
        .ok (.bool (decide (req.entityOf x ∈ req.ancestors e))) := by
    rw [eval_strict_ok rfl (eval_variable hx) hselect, ← any_uidTexts isPrint]
    rfl
  rw [conditionInTree, eval, eval_isEntity hx, hin, decided_or]

lemma eval_conditionIn_plain (e : EntityUID) (b : Bool) :
    eval (req.membershipHost isPrint .plain) (conditionInTree isPrint x e) = .ok (.bool b) ↔
      req.entityOf x = e ∧ b = true := by
  have hin : ∃ err, eval (req.membershipHost isPrint .plain) (.bin .isIn (.ident x.name)
      (.select (uidTree isPrint e) ancestors)) = .error err :=
    eval_strict_error rfl (.inr ⟨_, rfl⟩)
  obtain ⟨err, hin⟩ := hin
  rw [conditionInTree, eval, eval_isEntity hx, hin]
  by_cases heq : req.entityOf x = e
  · rw [decide_eq_true heq]
    cases b with
    | true => exact iff_of_true rfl ⟨heq, rfl⟩
    | false => exact iff_of_false (fun h => by cases h) fun h => by cases h.2
  · rw [decide_eq_false heq]
    exact iff_of_false (fun h => by cases h) fun h => heq h.1

end Values

variable (req isPrint binding)

/-- The texts for the scope and for the condition evaluate to the same boolean. -/
def SameInCondition (x : Variable) (e : EntityUID) : Prop :=
  ∃ b, Evaluates (req.membershipHost isPrint binding) (scopeIn isPrint x e) b ∧
    Evaluates (req.membershipHost isPrint binding) (conditionIn isPrint x e) b

def SetAsUnion (es : List EntityUID) : Prop :=
  Evaluates (req.membershipHost isPrint binding) (actionScope isPrint (.inSet es)) true ↔
    ∃ e ∈ es, Evaluates (req.membershipHost isPrint binding) (scopeIn isPrint .action e) true

variable {req isPrint binding}

/-- The variable stands for the entity itself or, with the literals resolved, each of the two is
above the other or neither is. -/
def SameSides (req : Request) (binding : Binding) (x : Variable) (e : EntityUID) : Prop :=
  req.entityOf x = e ∨
    binding = .resolved ∧ (e ∈ req.ancestors (req.entityOf x) ↔ req.entityOf x ∈ req.ancestors e)

/-- An action that is below an entity of the list is in the list. -/
def Listed (req : Request) (es : List EntityUID) : Prop :=
  (∃ e ∈ es, e ∈ req.ancestors req.action) → req.action ∈ es

lemma isIn_iff {a e : EntityUID} : req.isIn a e = true ↔ a = e ∨ e ∈ req.ancestors a := by
  rw [Request.isIn, Bool.or_eq_true, decide_eq_true_eq, decide_eq_true_eq]

lemma sameInCondition_iff {x : Variable} (hx : x ≠ .context) (e : EntityUID) :
    SameInCondition req isPrint binding x e ↔ SameSides req binding x e := by
  unfold SameInCondition SameSides
  simp only [scopeIn_evaluates, conditionIn_evaluates, eval_scopeIn hx]
  cases binding with
  | plain =>
    simp only [eval_conditionIn_plain hx]
    constructor
    · rintro ⟨b, -, heq, -⟩
      exact .inl heq
    · rintro (heq | ⟨hne, -⟩)
      · refine ⟨true, ?_, heq, rfl⟩
        rw [isIn_iff.mpr (.inl heq)]
      · cases hne
  | resolved =>
    rw [eval_conditionIn_resolved hx]
    have hsame : ∀ a b : Bool, (∃ c, (Except.ok (.bool a) : Except Cel.Error (Cel.Value EntityUID)) =
        .ok (.bool c) ∧ (Except.ok (.bool b) : Except Cel.Error (Cel.Value EntityUID)) =
          .ok (.bool c)) ↔ a = b := by
      intro a b
      constructor
      · rintro ⟨c, ha, hb⟩
        cases ha
        cases hb
        rfl
      · rintro rfl
        exact ⟨a, rfl, rfl⟩
    rw [hsame, Request.isIn, Bool.eq_iff_iff, Bool.or_eq_true, Bool.or_eq_true, decide_eq_true_eq,
      decide_eq_true_eq, decide_eq_true_eq]
    by_cases heq : req.entityOf x = e
    · exact iff_of_true (iff_of_true (.inl heq) (.inl heq)) (.inl heq)
    · simp only [heq, false_or, true_and]

lemma setAsUnion_iff (es : List EntityUID) : SetAsUnion req isPrint binding es ↔ Listed req es := by
  have haction : Variable.action ≠ .context := by decide
  have htrue : ∀ a : Bool, (Except.ok (.bool a) : Except Cel.Error (Cel.Value EntityUID)) =
      .ok (.bool true) ↔ a = true := fun a => by cases a <;> simp
  unfold SetAsUnion Listed
  rw [actionInSet_evaluates]
  simp only [scopeIn_evaluates, eval_scopeIn haction, eval_isEntity haction, htrue, isIn_iff,
    decide_eq_true_eq]
  rw [exists_eq_right']
  constructor
  · rintro hiff ⟨e, he, hup⟩
    exact hiff.mpr ⟨e, he, .inr hup⟩
  · intro hlisted
    constructor
    · exact fun hmem => ⟨req.action, hmem, .inl rfl⟩
    · rintro ⟨e, he, rfl | hup⟩
      · exact he
      · exact hlisted ⟨e, he, hup⟩

/-- Membership means the same in the scope and in a condition, and a list the same as its
entities, exactly if the variable stands for the entity itself (or, with the literals resolved, the
hierarchy is the same both ways) and an action below an entity of the list is listed itself. -/
theorem membership_alike_iff (req : Request) (isPrint : Char → Bool) (binding : Binding)
    {x : Variable} (hx : x ≠ .context) (e : EntityUID) (es : List EntityUID) :
    SameInCondition req isPrint binding x e ∧ SetAsUnion req isPrint binding es ↔
      SameSides req binding x e ∧ Listed req es :=
  and_congr (sameInCondition_iff hx e) (setAsUnion_iff es)

theorem same_entity_alike :
    SameInCondition ownerRequest (fun _ => true) .plain .principal ⟨"User", "ann"⟩ ∧
      SetAsUnion ownerRequest (fun _ => true) .plain [⟨"Action", "read"⟩] :=
  (membership_alike_iff ownerRequest (fun _ => true) .plain (x := .principal) (by decide) _ _).mpr
    ⟨.inl rfl, fun _ => List.mem_cons_self⟩

/-- An action below `Action::"read"`: the condition has no value or the value false, and the list
leaves the action out. -/
theorem membership_differs :
    ¬SameInCondition nestedRequest (fun _ => true) .plain .action ⟨"Action", "read"⟩ ∧
      ¬SameInCondition nestedRequest (fun _ => true) .resolved .action ⟨"Action", "read"⟩ ∧
      ¬SetAsUnion nestedRequest (fun _ => true) .plain [⟨"Action", "read"⟩] := by
  have haction : Variable.action ≠ .context := by decide
  have hup : ⟨"Action", "read"⟩ ∈ nestedRequest.ancestors nestedRequest.action := by decide
  have hother : nestedRequest.action ≠ ⟨"Action", "read"⟩ := by decide
  rw [sameInCondition_iff haction, sameInCondition_iff haction, setAsUnion_iff]
  refine ⟨?_, ?_, ?_⟩
  · rintro (heq | ⟨hplain, -⟩)
    · exact hother heq
    · cases hplain
  · rintro (heq | ⟨-, hiff⟩)
    · exact hother heq
    · exact absurd (hiff.mp hup) (by decide)
  · intro hlisted
    exact hother (List.mem_singleton.mp (hlisted ⟨_, List.mem_cons_self, hup⟩))

end Symkernel.PolicyImport.Cedar
