import Symkernel.PolicyImport.CedarValues

/-!
# Decisions of translated Cedar policies

Both languages are compared at every node that is evaluated.
-/

namespace Symkernel.PolicyImport.Cedar

open Library Library.Cel List

namespace Request

variable (req : Request) (isPrint : Char → Bool)

def comesOut (n : Node) (b : Bool) : Bool :=
  match req.eval n with
  | .ok (.boolean c) => b == c
  | _ => false

def comparableAt (left right : Node) : Bool :=
  match req.eval left, req.eval right with
  | .ok v, .ok w => comparable isPrint v w
  | _, _ => true

/-- `left in right` does not depend on which of two entities is above the other. -/
def levelAt (left right : Node) : Bool :=
  match req.eval left, req.eval right with
  | .ok (.entityUID a), .ok (.entityUID b) =>
    decide (a = b) || (decide (b ∈ req.ancestors a) == decide (a ∈ req.ancestors b))
  | .ok _, .ok _ => false
  | _, _ => true

end Request

def isScalar : Value → Bool
  | .boolean _ | .long _ | .string _ => true
  | _ => false

def isEntityLiteral : Node → Bool
  | .value (.entityUID _) => true
  | _ => false

section

variable (req : Request) (isPrint : Char → Bool)

mutual

/-- Nothing that is evaluated on the request means something else in CEL. Literals of entities
stand only next to `==`, `!=` and `in`. -/
def agrees : Node → Bool
  | .value v => isScalar v
  | .variable _ => true
  | .access arg attr => agrees arg && isAttribute attr
  | .has arg attr => agrees arg && isAttribute attr
  | .binary .and left right => agrees left && (!req.comesOut left true || agrees right)
  | .binary .or left right => agrees left && (!req.comesOut left false || agrees right)
  | .binary .equals left right =>
    (isEntityLiteral left || agrees left) && (isEntityLiteral right || agrees right) &&
      req.comparableAt isPrint left right
  | .binary .notEquals left right =>
    (isEntityLiteral left || agrees left) && (isEntityLiteral right || agrees right) &&
      req.comparableAt isPrint left right
  | .binary _ left right => agrees left && agrees right
  | .not arg => agrees arg
  | .negate arg => agrees arg
  | .isIn left right =>
    (isEntityLiteral left || agrees left) && agrees right && req.levelAt left right
  | .method .. => false
  | .ifThenElse c t e =>
    agrees c && (!req.comesOut c true || agrees t) && (!req.comesOut c false || agrees e)
  | .set elements => agreesAll elements
  | .record elements => decide (elements.map Prod.fst).Nodup && agreesFields elements
  | .is left _ => agrees left
  | _ => true

def agreesAll : List Node → Bool
  | [] => true
  | n :: ns => agrees n && agreesAll ns

def agreesFields : List (String × Node) → Bool
  | [] => true
  | (_, n) :: ns => agrees n && agreesFields ns

end

/-- An action that is below a listed one is listed itself. -/
def actionAgrees : Scope → Bool
  | .inSet entities =>
    entities.all (fun e => !decide (e ∈ req.ancestors req.action) || decide (req.action ∈ entities))
  | _ => true

/-- The condition under which the decision on a request is kept. -/
def decisionKept (p : Policy) : Bool :=
  faithful p && actionAgrees req p.action && p.conditions.all (fun c => agrees req isPrint c.body)

end

variable {req : Request} {isPrint : Char → Bool}

variable {n left right : Node}

lemma comesOut_iff {b : Bool} : req.comesOut n b = true ↔ req.truth n = .ok b := by
  rw [Request.truth_eq_ok, Request.comesOut]
  split
  · rename_i c hc
    rw [hc, beq_iff_eq, Except.ok.injEq, Value.boolean.injEq]
    exact eq_comm
  · rename_i hne
    constructor
    · intro h
      cases h
    · intro h
      exact absurd h (hne b)

lemma read_variable (x : Variable) :
    (req.host isPrint).read x.name = .ok (celValue (req.var x)) := by
  cases x <;> rfl

/-! ### Expressions -/

lemma operand_shows {v : Value} (heval : req.eval n = .ok v) (h : isEntityLiteral n = true ∨
      Cel.eval (req.host isPrint) (nodeTree isPrint n) = .ok (celValue v)) :
    ∃ u, Cel.eval (req.host isPrint) (nodeTree isPrint n) = .ok u ∧ Shows isPrint v u := by
  obtain hlit | hcel := h
  · unfold isEntityLiteral at hlit
    split at hlit
    · rename_i e
      cases heval
      exact ⟨_, rfl, .inr ⟨e, rfl, rfl⟩⟩
    · cases hlit
  · exact ⟨_, hcel, .inl rfl⟩

lemma any_ancestors {v : Value} {a b : EntityUID} {u : Cel.Value EntityUID}
    (hv : v = .entityUID a) (hu : Shows isPrint v u) :
    ((req.ancestors b).map Cel.Value.object).any (fun w => u.equal (uidText isPrint) w) =
      decide (a ∈ req.ancestors b) := by
  subst hv
  rw [Bool.eq_iff_iff, any_eq_true, decide_eq_true_eq]
  have hequal : ∀ e : EntityUID, u.equal (uidText isPrint) (.object e) = decide (a = e) :=
    fun e => equal_of_shows (w := .entityUID e) hu (.inl rfl) rfl
  constructor
  · rintro ⟨w, hw, heq⟩
    obtain ⟨e, he, rfl⟩ := List.mem_map.mp hw
    rw [hequal, decide_eq_true_eq] at heq
    rwa [heq]
  · intro ha
    exact ⟨.object a, mem_map_of_mem ha, by rw [hequal, decide_eq_true_eq]⟩

lemma eval_logicalTree {op : Operator} {g : Bool} (hop : op.goesOn = some g) (left right : Node) :
    Cel.eval (req.host isPrint) (nodeTree isPrint (.binary op left right)) =
      decided (!g) (Cel.eval (req.host isPrint) (nodeTree isPrint left))
        (Cel.eval (req.host isPrint) (nodeTree isPrint right)) := by
  cases op <;> cases hop <;> rfl

section Operators

variable {left right : Node} {v : Value}
  (hleft : ∀ u, req.eval left = .ok u →
    Cel.eval (req.host isPrint) (nodeTree isPrint left) = .ok (celValue u))

include hleft

lemma logical_agrees {op : Operator} {g : Bool} (hop : op.goesOn = some g)
    (hright : req.truth left = .ok g → ∀ u, req.eval right = .ok u →
      Cel.eval (req.host isPrint) (nodeTree isPrint right) = .ok (celValue u))
    (h : req.eval (.binary op left right) = .ok v) :
    Cel.eval (req.host isPrint) (nodeTree isPrint (.binary op left right)) = .ok (celValue v) := by
  rw [Request.eval_logical hop] at h
  obtain ⟨b, hb, h⟩ := bind_eq_ok.mp h
  have hl := hleft _ (Request.truth_eq_ok.mp hb)
  rw [eval_logicalTree hop]
  by_cases hg : b = g
  · subst hg
    rw [if_pos rfl] at h
    obtain ⟨c, hc, h⟩ := bind_eq_ok.mp h
    cases h
    rw [hl, hright hb _ (Request.truth_eq_ok.mp hc)]
    exact decided_not_left b c
  · obtain rfl : b = !g := Bool.eq_not.mpr hg
    rw [if_neg hg] at h
    cases h
    exact decided_of_decides (.inl hl)

lemma numeric_agrees {op : Operator} (hop : op.isNumeric = true)
    (hright : ∀ u, req.eval right = .ok u →
      Cel.eval (req.host isPrint) (nodeTree isPrint right) = .ok (celValue u))
    (h : req.eval (.binary op left right) = .ok v) :
    Cel.eval (req.host isPrint) (nodeTree isPrint (.binary op left right)) = .ok (celValue v) := by
  rw [Request.eval_numeric hop] at h
  obtain ⟨u, hu, h⟩ := bind_eq_ok.mp h
  obtain ⟨w, hw, h⟩ := bind_eq_ok.mp h
  obtain ⟨a, ha, h⟩ := bind_eq_ok.mp h
  obtain ⟨b, hb, h⟩ := bind_eq_ok.mp h
  rw [asLong_eq_ok] at ha hb
  subst ha hb
  rw [nodeTree, eval_strict_ok (isLogical_celOp hop) (hleft _ hu) (hright _ hw)]
  exact (same_onLongs hop a.val b.val).eval_ok h

end Operators

lemma equal_agrees {v w : Value} (hl : req.eval left = .ok v) (hr : req.eval right = .ok w)
    (hleft : isEntityLiteral left = true ∨
      Cel.eval (req.host isPrint) (nodeTree isPrint left) = .ok (celValue v))
    (hright : isEntityLiteral right = true ∨
      Cel.eval (req.host isPrint) (nodeTree isPrint right) = .ok (celValue w))
    (hc : req.comparableAt isPrint left right = true) :
    ∃ a b, Cel.eval (req.host isPrint) (nodeTree isPrint left) = .ok a ∧
      Cel.eval (req.host isPrint) (nodeTree isPrint right) = .ok b ∧
      a.equal (uidText isPrint) b = v.equal w := by
  rw [Request.comparableAt, hl, hr] at hc
  obtain ⟨a, ha, hshowa⟩ := operand_shows hl hleft
  obtain ⟨b, hb, hshowb⟩ := operand_shows hr hright
  exact ⟨a, b, ha, hb, equal_of_shows hshowa hshowb hc⟩

lemma in_agrees {v w u : Value} (hl : req.eval left = .ok v) (hr : req.eval right = .ok w)
    (hleft : isEntityLiteral left = true ∨
      Cel.eval (req.host isPrint) (nodeTree isPrint left) = .ok (celValue v))
    (hright : Cel.eval (req.host isPrint) (nodeTree isPrint right) = .ok (celValue w))
    (hlevel : req.levelAt left right = true) (h : req.member v w = .ok u) :
    Cel.eval (req.host isPrint) (nodeTree isPrint (.isIn left right)) = .ok (celValue u) := by
  obtain ⟨a, ha, h⟩ := bind_eq_ok.mp h
  rw [asEntity_eq_ok] at ha
  subst ha
  rw [Request.levelAt, hl, hr] at hlevel
  cases w with
  | entityUID b =>
    cases h
    obtain ⟨x, hx, hshow⟩ := operand_shows hl hleft
    have hequal : x.equal (uidText isPrint) (.object b) = decide (a = b) :=
      equal_of_shows (w := .entityUID b) hshow (.inl rfl) rfl
    have heq : Cel.eval (req.host isPrint) (.bin .eq (nodeTree isPrint left)
        (nodeTree isPrint right)) = .ok (.bool (decide (a = b))) := by
      rw [eval_strict_ok rfl hx hright, ← hequal]
      rfl
    have hin : Cel.eval (req.host isPrint) (.bin .isIn (nodeTree isPrint left)
        (.select (nodeTree isPrint right) ancestors)) =
          .ok (.bool (decide (a ∈ req.ancestors b))) := by
      have hselect : Cel.eval (req.host isPrint) (.select (nodeTree isPrint right) ancestors) =
          .ok (.list ((req.ancestors b).map .object)) := by
        rw [Cel.eval, hright]
        rfl
      rw [eval_strict_ok rfl hx hselect, ← any_ancestors rfl hshow]
      rfl
    rw [nodeTree, Cel.eval, heq, hin, decided_or, celValue, Request.isIn]
    by_cases hab : a = b
    · simp [hab]
    · have hsame : decide (b ∈ req.ancestors a) = decide (a ∈ req.ancestors b) := by
        simpa [hab] using hlevel
      rw [hsame]
  | _ => cases hlevel

lemma zip_celFields (fields : List (String × Value)) :
    (fields.map Prod.fst).zip (fields.map (fun f => celValue f.2)) = celFields fields := by
  induction fields with
  | nil => rfl
  | cons f fields ih =>
    rw [map_cons, map_cons, zip_cons_cons, ih]
    rfl

mutual

/-- A node on which both languages agree has the same value in CEL. -/
theorem eval_agrees : ∀ (n : Node) (v : Value), agrees req isPrint n = true →
    req.eval n = .ok v → Cel.eval (req.host isPrint) (nodeTree isPrint n) = .ok (celValue v)
  | .value v, w, hok, h => by
    cases h
    cases v <;> first | rfl | cases hok
  | .variable x, v, _, h => by
    cases h
    exact read_variable x
  | .access arg attr, v, hok, h => by
    rw [agrees, Bool.and_eq_true] at hok
    obtain ⟨u, hu, h⟩ := bind_eq_ok.mp h
    rw [nodeTree, Cel.eval, eval_agrees arg u hok.1 hu]
    exact (same_access hok.2 u).eval_ok h
  | .has arg attr, v, hok, h => by
    rw [agrees, Bool.and_eq_true] at hok
    obtain ⟨u, hu, h⟩ := bind_eq_ok.mp h
    rw [nodeTree, Cel.eval, eval_agrees arg u hok.1 hu]
    exact (same_has hok.2 u).eval_ok h
  | .binary op left right, v, hok, h => by
    cases op with
    | and | or =>
      rw [agrees, Bool.and_eq_true] at hok
      refine logical_agrees (fun u => eval_agrees left u hok.1) rfl (fun hg u => ?_) h
      rw [comesOut_iff.mpr hg] at hok
      exact eval_agrees right u hok.2
    | equals | notEquals =>
      rw [agrees, Bool.and_eq_true, Bool.and_eq_true, Bool.or_eq_true, Bool.or_eq_true] at hok
      obtain ⟨u, hu, h⟩ := bind_eq_ok.mp h
      obtain ⟨w, hw, h⟩ := bind_eq_ok.mp h
      cases h
      obtain ⟨a, b, ha, hb, hequal⟩ := equal_agrees hu hw
        (hok.1.1.imp_right (fun hl => eval_agrees left u hl hu))
        (hok.1.2.imp_right (fun hr => eval_agrees right w hr hw)) hok.2
      rw [nodeTree, eval_strict_ok rfl ha hb, ← hequal]
      rfl
    | _ =>
      rw [agrees, Bool.and_eq_true] at hok
      · exact numeric_agrees (fun u => eval_agrees left u hok.1) rfl
          (fun u => eval_agrees right u hok.2) h
      all_goals exact fun hne => by cases hne
  | .not arg, v, hok, h => by
    rw [Request.eval_not] at h
    obtain ⟨b, hb, h⟩ := bind_eq_ok.mp h
    cases h
    rw [nodeTree, Cel.eval, eval_agrees arg _ hok (Request.truth_eq_ok.mp hb)]
    rfl
  | .negate arg, v, hok, h => by
    obtain ⟨u, hu, h⟩ := bind_eq_ok.mp h
    obtain ⟨n, hn, h⟩ := bind_eq_ok.mp h
    rw [asLong_eq_ok] at hn
    subst hn
    rw [nodeTree, Cel.eval, eval_agrees arg _ hok hu]
    exact (same_long (-n.val)).eval_ok h
  | .isIn left right, v, hok, h => by
    rw [agrees, Bool.and_eq_true, Bool.and_eq_true, Bool.or_eq_true] at hok
    obtain ⟨u, hu, h⟩ := bind_eq_ok.mp h
    obtain ⟨w, hw, h⟩ := bind_eq_ok.mp h
    exact in_agrees hu hw (hok.1.1.imp_right (fun hl => eval_agrees left u hl hu))
      (eval_agrees right w hok.1.2 hw) hok.2 h
  | .method .., v, hok, _ => by cases hok
  | .ifThenElse c t e, v, hok, h => by
    rw [agrees, Bool.and_eq_true, Bool.and_eq_true] at hok
    rw [Request.eval_ifThenElse] at h
    obtain ⟨b, hb, h⟩ := bind_eq_ok.mp h
    rw [nodeTree, Cel.eval, eval_agrees c _ hok.1.1 (Request.truth_eq_ok.mp hb)]
    cases b with
    | true =>
      rw [comesOut_iff.mpr hb] at hok
      exact eval_agrees t v hok.1.2 h
    | false =>
      rw [comesOut_iff.mpr hb] at hok
      exact eval_agrees e v hok.2 h
  | .set elements, v, hok, h => by
    obtain ⟨vs, hvs, h⟩ := bind_eq_ok.mp h
    cases h
    rw [nodeTree, Cel.eval, evalAll_agrees elements vs hok hvs]
    rfl
  | .record elements, v, hok, h => by
    rw [agrees, Bool.and_eq_true, decide_eq_true_eq] at hok
    obtain ⟨fields, hfields, h⟩ := bind_eq_ok.mp h
    cases h
    obtain ⟨hvalues, hnames⟩ := evalFields_agrees elements fields hok.2 hfields
    have hkeys : elements.map (fun f => Expr.lit (.string f.1)) =
        (fields.map Prod.fst).map (fun f => .lit (.string f)) := by
      rw [hnames, map_map]
      rfl
    rw [nodeTree, hkeys, Cel.eval, evalAll_strings, hvalues]
    rw [← hnames] at hok
    exact (mapOf_strings hok.1 _).trans (by rw [zip_celFields, celValue])
  | .is left type, v, hok, h => by
    obtain ⟨u, hu, h⟩ := bind_eq_ok.mp h
    obtain ⟨e, he, h⟩ := bind_eq_ok.mp h
    rw [asEntity_eq_ok] at he
    subst he
    cases h
    have hselect : Cel.eval (req.host isPrint) (.select (nodeTree isPrint left) entityType) =
        .ok (.string e.type) := by
      rw [Cel.eval, eval_agrees left _ hok hu]
      rfl
    rw [nodeTree, eval_strict_ok rfl hselect rfl]
    simp [Host.strict, Host.literal, celValue]
  | .like, v, _, h => by cases h
  | .isInType, v, _, h => by cases h
  | .tag, v, _, h => by cases h
  | .isEmpty, v, _, h => by cases h
  | .extensionCall _, v, _, h => by cases h
  | .other _, v, _, h => by cases h

lemma evalAll_agrees : ∀ (ns : List Node) (vs : List Value), agreesAll req isPrint ns = true →
    req.evalAll ns = .ok vs →
    Cel.evalAll (req.host isPrint) (nodeTrees isPrint ns) = .ok (celValues vs)
  | [], vs, _, h => by
    cases h
    rfl
  | n :: ns, vs, hok, h => by
    rw [agreesAll, Bool.and_eq_true] at hok
    obtain ⟨v, hv, h⟩ := bind_eq_ok.mp h
    obtain ⟨rest, hrest, h⟩ := bind_eq_ok.mp h
    cases h
    rw [nodeTrees, Cel.evalAll, eval_agrees n v hok.1 hv, evalAll_agrees ns rest hok.2 hrest]
    rfl

lemma evalFields_agrees : ∀ (ns : List (String × Node)) (fields : List (String × Value)),
    agreesFields req isPrint ns = true → req.evalFields ns = .ok fields →
    Cel.evalAll (req.host isPrint) (nodeFieldTrees isPrint ns) =
        .ok (fields.map (fun f => celValue f.2)) ∧
      fields.map Prod.fst = ns.map Prod.fst
  | [], fields, _, h => by
    cases h
    exact ⟨rfl, rfl⟩
  | (f, n) :: ns, fields, hok, h => by
    rw [agreesFields, Bool.and_eq_true] at hok
    obtain ⟨v, hv, h⟩ := bind_eq_ok.mp h
    obtain ⟨rest, hrest, h⟩ := bind_eq_ok.mp h
    cases h
    obtain ⟨hvalues, hnames⟩ := evalFields_agrees ns rest hok.2 hrest
    constructor
    · rw [nodeFieldTrees, Cel.evalAll, eval_agrees n v hok.1 hv, hvalues]
      rfl
    · rw [List.map_cons, List.map_cons, hnames]

end

/-! ### Scopes -/

section Scopes

variable {x : Variable} {a : EntityUID} (hx : req.var x = .entityUID a)

include hx

lemma eval_entity : Cel.eval (req.host isPrint) (.ident x.name) = .ok (.object a) := by
  rw [Cel.eval, read_variable, hx, celValue]

lemma eval_eqTree (e : EntityUID) :
    Cel.eval (req.host isPrint) (.bin .eq (.ident x.name) (uidTree isPrint e)) =
      .ok (.bool (decide (a = e))) := by
  have hequal : (Cel.Value.object a).equal (uidText isPrint) (.string (uidText isPrint e)) =
      decide (a = e) :=
    equal_of_shows (v := .entityUID a) (.inl rfl) (.inr ⟨e, rfl, rfl⟩) rfl
  rw [eval_strict_ok rfl (eval_entity hx) rfl, ← hequal]
  rfl

lemma eval_inTree (e : EntityUID) :
    Cel.eval (req.host isPrint) (inTree isPrint x e) = .ok (.bool (req.isIn a e)) := by
  have hselect : Cel.eval (req.host isPrint) (.select (.ident x.name) ancestors) =
      .ok (.list ((req.ancestors a).map .object)) := by
    rw [Cel.eval, eval_entity hx]
    rfl
  have hin : Cel.eval (req.host isPrint) (.bin .isIn (uidTree isPrint e)
      (.select (.ident x.name) ancestors)) = .ok (.bool (decide (e ∈ req.ancestors a))) := by
    rw [eval_strict_ok rfl rfl hselect, ← any_ancestors rfl (.inr ⟨e, rfl, rfl⟩)]
    rfl
  rw [inTree, Cel.eval, eval_eqTree hx, hin, decided_or, Request.isIn]

lemma eval_isTree (type : String) :
    Cel.eval (req.host isPrint) (isTree x type) = .ok (.bool (decide (a.type = type))) := by
  have hselect : Cel.eval (req.host isPrint) (.select (.ident x.name) entityType) =
      .ok (.string a.type) := by
    rw [Cel.eval, eval_entity hx]
    rfl
  rw [isTree, eval_strict_ok rfl hselect rfl]
  simp [Host.strict, Host.literal]

lemma scopeTree_true {s : Scope} {t : String} (h : scope isPrint x.name s = .ok t) :
    (∀ e ∈ scopeTree isPrint x s, Cel.eval (req.host isPrint) e = .ok (.bool true)) ↔
      req.scope a s = true := by
  cases s with
  | all => simp [scopeTree, Request.scope]
  | eq entity => simp [scopeTree, eval_eqTree hx, Request.scope]
  | isIn entity => simp [scopeTree, eval_inTree hx, Request.scope]
  | inSet => cases h
  | is type => simp [scopeTree, eval_isTree hx, Request.scope]
  | isInType type entity =>
    simp [scopeTree, eval_and_true, eval_isTree hx, eval_inTree hx, Request.scope]

end Scopes

lemma actionTree_true {s : Scope} {t : String} (h : actionScope isPrint s = .ok t)
    (hok : actionAgrees req s = true) :
    (∀ e ∈ actionTree isPrint s, Cel.eval (req.host isPrint) e = .ok (.bool true)) ↔
      req.scope req.action s = true := by
  have haction : req.var .action = .entityUID req.action := rfl
  have heq : ∀ e : EntityUID,
      Cel.eval (req.host isPrint) (.bin .eq (.ident "action") (uidTree isPrint e)) =
        .ok (.bool (decide (req.action = e))) := eval_eqTree haction
  cases s with
  | all => simp [actionTree, Request.scope]
  | eq entity => simp [actionTree, heq, Request.scope]
  | isIn entity => simp [actionTree, eval_inTree haction, Request.scope]
  | inSet entities =>
    have hlisted : (∃ e ∈ entities, req.action = e) ↔
        ∃ e ∈ entities, req.isIn req.action e = true := by
      constructor
      · rintro ⟨e, he, heq⟩
        exact ⟨e, he, by simp [Request.isIn, heq]⟩
      · rintro ⟨e, he, hin⟩
        rw [Request.isIn, Bool.or_eq_true, decide_eq_true_eq] at hin
        obtain heq | hup := hin
        · exact ⟨e, he, heq⟩
        · rw [actionAgrees, all_eq_true] at hok
          have hmem : req.action ∈ entities := by simpa [hup] using hok e he
          exact ⟨req.action, hmem, rfl⟩
    simpa [actionTree, eval_join_or, heq, Request.scope] using hlisted
  | is => cases h
  | isInType => cases h

/-! ### Policies -/

lemma conditionTree_true {c : Condition} {b : Bool} (hb : req.condition c = .ok b)
    (hok : agrees req isPrint c.body = true) :
    Cel.eval (req.host isPrint) (conditionTree isPrint c) = .ok (.bool true) ↔
      req.condition c = .ok true := by
  obtain ⟨t, ht, hkind⟩ := bind_eq_ok.mp hb
  have hcel := eval_agrees c.body _ hok (Request.truth_eq_ok.mp ht)
  obtain ⟨kind, body⟩ := c
  rw [hb]
  cases kind
  · cases hkind
    rw [conditionTree, hcel]
    simp [celValue]
  · cases hkind
    rw [conditionTree, eval_not_iff, hcel]
    simp [celValue]

/-- `permit (principal == User::"ann", action, resource)
when { resource.owner == principal && context.mfa }`. -/
def ownerPolicy : Policy :=
  { effect := .permit, principal := .eq ⟨"User", "ann"⟩, action := .all, resource := .all
    conditions := [⟨.when, .binary .and
      (.binary .equals (.access (.variable .resource) "owner") (.variable .principal))
      (.access (.variable .context) "mfa")⟩] }

def ownerRequest : Request :=
  { principal := ⟨"User", "ann"⟩, action := ⟨"Action", "read"⟩, resource := ⟨"File", "f"⟩
    context := [("mfa", .boolean true)]
    entities := [(⟨"File", "f"⟩, ⟨[("owner", .entityUID ⟨"User", "ann"⟩)], []⟩)] }

/-- `permit (principal, action in [Action::"read"], resource)`. -/
def groupPolicy : Policy :=
  { effect := .permit, principal := .all, action := .inSet [⟨"Action", "read"⟩], resource := .all
    conditions := [] }

/-- `permit (principal, action, resource) when { principal in resource }`. -/
def memberPolicy : Policy :=
  { effect := .permit, principal := .all, action := .all, resource := .all
    conditions := [⟨.when, .isIn (.variable .principal) (.variable .resource)⟩] }

/-- The action is below `Action::"read"`, and the resource below the principal. -/
def nestedRequest : Request :=
  { principal := ⟨"Group", "g"⟩, action := ⟨"Action", "view"⟩, resource := ⟨"User", "ann"⟩
    context := []
    entities := [(⟨"Action", "view"⟩, ⟨[], [⟨"Action", "read"⟩]⟩),
      (⟨"User", "ann"⟩, ⟨[], [⟨"Group", "g"⟩]⟩)] }

end Symkernel.PolicyImport.Cedar
