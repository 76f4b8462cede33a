import Symkernel.PolicyImport.CedarGrouping

/-!
# The text of a Cedar policy
-/

namespace Symkernel.PolicyImport.Cedar

open Library Library.Cel List

variable (isPrint : Char → Bool)

def uidTree (e : EntityUID) : Expr :=
  .lit (.string (uidText isPrint e))

def inTree (x : Variable) (e : EntityUID) : Expr :=
  .bin .or (.bin .eq (.ident x.name) (uidTree isPrint e))
    (.bin .isIn (uidTree isPrint e) (.select (.ident x.name) ancestors))

def isTree (x : Variable) (type : String) : Expr :=
  .bin .eq (.select (.ident x.name) entityType) (.lit (.string type))

/-- The term of a scope; `all` has none, and the others are not accepted. -/
def scopeTree (x : Variable) : Scope → List Expr
  | .eq e => [.bin .eq (.ident x.name) (uidTree isPrint e)]
  | .isIn e => [inTree isPrint x e]
  | .is type => [isTree x type]
  | .isInType type e => [.bin .and (isTree x type) (inTree isPrint x e)]
  | _ => []

def actionTree : Scope → List Expr
  | .eq e => [.bin .eq (.ident "action") (uidTree isPrint e)]
  | .isIn e => [inTree isPrint .action e]
  | .inSet entities =>
    [Expr.join .or (.lit (.bool false))
      (entities.map (fun e => .bin .eq (.ident "action") (uidTree isPrint e)))]
  | _ => []

def conditionTree (c : Condition) : Expr :=
  match c.kind with
  | .when => nodeTree isPrint c.body
  | .unless => .not (nodeTree isPrint c.body)

def scopeTrees (p : Policy) : List Expr :=
  scopeTree isPrint .principal p.principal ++ actionTree isPrint p.action ++
    scopeTree isPrint .resource p.resource

def policyTree (p : Policy) : Expr :=
  Expr.join .and (.lit (.bool true)) (scopeTrees isPrint p ++ p.conditions.map (conditionTree isPrint))

def conditionSpine (c : Condition) : Spine :=
  match c.kind with
  | .when => nodeSpine isPrint c.body
  | .unless => .unary false (nodeSpine isPrint c.body).expr

/-- The conditions of the policy keep their structure in the text. -/
def faithful (p : Policy) : Bool :=
  p.conditions.all (fun c => namesOk c.body && grouped c.body)

lemma reads_uid (e : EntityUID) :
    Reads (celEntityUID isPrint e).toList (.member (uidTree isPrint e)) :=
  reads_celString _

variable {isPrint}

lemma reads_eq (x : Variable) (e : EntityUID) :
    Reads (x.name ++ " == " ++ celEntityUID isPrint e).toList
      (.relation (.ident x.name) [] (uidTree isPrint e)) := by
  have hread := (reads_variable x).equate (reads_uid isPrint e)
  simpa [Spine.equate, Spine.expr] using hread

lemma reads_belongs {x u anc : List Char} {ex eu ea : Expr} (hx : Reads x (.member ex))
    (hu : Reads u (.member eu)) (hanc : Reads anc (.member ea)) :
    Reads ('(' :: (x ++ (chainText [(.eq, u), (.or, u), (.isIn, anc)] ++ [')'])))
      (.member (.bin .or (.bin .eq ex eu) (.bin .isIn eu ea))) := by
  have hmore : List.Forall₂ (fun (t : BinOp × List Char) (sp : BinOp × Spine) =>
      t.1 = sp.1 ∧ Reads t.2 sp.2) [(.eq, u), (.or, u), (.isIn, anc)]
      [(.eq, .member eu), (.or, .member eu), (.isIn, .member ea)] :=
    .cons ⟨rfl, hu⟩ (.cons ⟨rfl, hu⟩ (.cons ⟨rfl, hanc⟩ .nil))
  exact hx.chain hmore

lemma reads_in (x : Variable) (e : EntityUID) :
    Reads ("(" ++ x.name ++ " == " ++ celEntityUID isPrint e ++ " || " ++ celEntityUID isPrint e ++
      " in " ++ x.name ++ ".ancestors)").toList (.member (inTree isPrint x e)) := by
  have hanc := (reads_variable x).select (f := ancestors) (by decide)
  have hread := reads_belongs (reads_variable x) (reads_uid isPrint e) hanc
  simpa [chainText, BinOp.symbol, ancestors, inTree] using hread

lemma reads_is (x : Variable) (type : String) :
    Reads (x.name ++ ".__entity_type == " ++ celString type).toList
      (.relation (.select (.ident x.name) entityType) [] (.lit (.string type))) := by
  have hselect := (reads_variable x).select (f := entityType) (by decide)
  have hread := hselect.equate (reads_celString type)
  simpa [entityType, Spine.extend, Spine.equate, Spine.expr] using hread

lemma reads_isIn (x : Variable) (type : String) (e : EntityUID) :
    Reads ("(" ++ x.name ++ ".__entity_type == " ++ celString type ++ " && (" ++ x.name ++
      " == " ++ celEntityUID isPrint e ++ " || " ++ celEntityUID isPrint e ++ " in " ++ x.name ++
      ".ancestors))").toList (.member (.bin .and (isTree x type) (inTree isPrint x e))) := by
  have hmore : List.Forall₂ (fun (t : BinOp × List Char) (sp : BinOp × Spine) =>
      t.1 = sp.1 ∧ Reads t.2 sp.2)
      [(.and, ("(" ++ x.name ++ " == " ++ celEntityUID isPrint e ++ " || " ++
        celEntityUID isPrint e ++ " in " ++ x.name ++ ".ancestors)").toList)]
      [(.and, .member (inTree isPrint x e))] :=
    .cons ⟨rfl, reads_in x e⟩ .nil
  have hchain := (reads_is x type).chain hmore
  have htree : (Spine.relation (.select (.ident x.name) entityType) [] (.lit (.string type))).chain
      [(.and, .member (inTree isPrint x e))] = .bin .and (isTree x type) (inTree isPrint x e) :=
    (chain_single_eq_iff (by simp)).mpr ⟨rfl, rfl, rfl⟩
  rw [htree] at hchain
  simpa [chainText, BinOp.symbol] using hchain

variable {t : String}

lemma ne_empty_of_reads {sp : Spine} (h : Reads t.toList sp) : t ≠ "" := by
  rintro rfl
  have hparse := h.parse .nil
  cases hparse

/-- The text of a scope is empty just if it has no term. -/
def ScopeReads (t : String) (trees : List Expr) : Prop :=
  (t = "" ∧ trees = []) ∨ ∃ sp : Spine, Reads t.toList sp ∧ trees = [sp.expr]

lemma scope_reads {x : Variable} {s : Scope} (h : scope isPrint x.name s = .ok t) :
    ScopeReads t (scopeTree isPrint x s) := by
  cases s with
  | all =>
    cases h
    exact .inl ⟨rfl, rfl⟩
  | eq e =>
    cases h
    exact .inr ⟨_, reads_eq x e, rfl⟩
  | isIn e =>
    cases h
    exact .inr ⟨_, reads_in x e, rfl⟩
  | inSet => cases h
  | is type =>
    cases h
    exact .inr ⟨_, reads_is x type, rfl⟩
  | isInType type e =>
    cases h
    exact .inr ⟨_, reads_isIn x type e, rfl⟩

lemma actionSet_reads {entities : List EntityUID} (hne : entities ≠ []) :
    Reads ("(" ++ String.intercalate " || "
        (entities.map (fun e => "action == " ++ celEntityUID isPrint e)) ++ ")").toList
      (.member (Expr.join .or (.lit (.bool false))
        (entities.map (fun e => .bin .eq (.ident "action") (uidTree isPrint e))))) := by
  have hreads : List.Forall₂ (fun (t : String) sp => Reads t.toList sp)
      (entities.map (fun e => "action == " ++ celEntityUID isPrint e))
      (entities.map (fun e => .relation (.ident "action") [] (uidTree isPrint e))) := by
    refine forall₂_map (fun e _ => ?_)
    simpa [Variable.name] using reads_eq .action e
  have hsep : " || ".toList = ' ' :: (BinOp.or.symbol ++ [' ']) := rfl
  have hjoined := reads_joined (by decide) hsep (by simpa using hne) hreads (.lit (.bool false))
  have hexpr : (Spine.expr ∘ fun e => .relation (.ident "action") [] (uidTree isPrint e)) =
      fun e => .bin .eq (.ident "action") (uidTree isPrint e) := rfl
  rw [map_map, hexpr] at hjoined
  simpa using hjoined

lemma actionScope_reads {s : Scope} (h : actionScope isPrint s = .ok t) :
    ScopeReads t (actionTree isPrint s) := by
  cases s with
  | all =>
    cases h
    exact .inl ⟨rfl, rfl⟩
  | eq e =>
    cases h
    refine .inr ⟨.relation (.ident "action") [] (uidTree isPrint e), ?_, rfl⟩
    simpa [Variable.name] using reads_eq .action e
  | isIn e =>
    cases h
    refine .inr ⟨.member (inTree isPrint .action e), ?_, rfl⟩
    simpa [Variable.name] using reads_in .action e
  | inSet entities =>
    cases h
    simp only [length_map, length_eq_zero_iff]
    split
    · rename_i hnil
      cases hnil
      exact .inr ⟨_, reads_false, rfl⟩
    · rename_i hne
      exact .inr ⟨_, actionSet_reads hne, rfl⟩
  | is => cases h
  | isInType => cases h

lemma scopes_read {texts : List String} {trees : List (List Expr)}
    (h : List.Forall₂ ScopeReads texts trees) : ∃ sps : List Spine,
      List.Forall₂ (fun t sp => Reads t.toList sp) (texts.filter (fun s => s ≠ "")) sps ∧
        sps.map Spine.expr = trees.flatten := by
  induction h with
  | nil => exact ⟨[], .nil, rfl⟩
  | @cons t tree texts trees hfirst _ ih =>
    obtain ⟨sps, hreads, htrees⟩ := ih
    obtain ⟨rfl, rfl⟩ | ⟨sp, hread, rfl⟩ := hfirst
    · exact ⟨sps, hreads, htrees⟩
    · have hne := ne_empty_of_reads hread
      refine ⟨sp :: sps, ?_, by simp [htrees]⟩
      rw [filter_cons_of_pos (by simpa using hne)]
      exact .cons hread hreads

lemma conditionTerm_reads {c : Condition} (h : conditionTerm isPrint c = .ok t)
    (hok : namesOk c.body = true) : Reads t.toList (conditionSpine isPrint c) := by
  obtain ⟨body, hbody, h⟩ := bind_eq_ok.mp h
  have hread := node_reads c.body body hbody hok
  obtain ⟨kind, n⟩ := c
  cases kind
  · cases h
    exact hread
  · cases h
    simpa [conditionSpine] using hread.not

lemma conditionTerms_read {cs : List Condition} {ts : List String}
    (h : conditionTerms isPrint cs = .ok ts) (hok : ∀ c ∈ cs, namesOk c.body = true) :
    List.Forall₂ (fun t sp => Reads t.toList sp) ts (cs.map (conditionSpine isPrint)) := by
  induction cs generalizing ts with
  | nil =>
    cases h
    exact .nil
  | cons c cs ih =>
    obtain ⟨t, ht, h⟩ := bind_eq_ok.mp h
    obtain ⟨rest, hrest, h⟩ := bind_eq_ok.mp h
    cases h
    exact .cons (conditionTerm_reads ht (hok c (by simp)))
      (ih hrest (fun c' hc' => hok c' (by simp [hc'])))

lemma conditionSpine_expr_iff (c : Condition) :
    (conditionSpine isPrint c).expr = conditionTree isPrint c ↔ grouped c.body = true := by
  obtain ⟨kind, n⟩ := c
  cases kind
  · exact nodeSpine_expr_iff isPrint n
  · simpa [conditionSpine, conditionTree, Spine.expr] using nodeSpine_expr_iff isPrint n

/-- What the parser makes of the text of a policy whose attributes are selectors. -/
theorem policy_parse {p : Policy} {s : String} (h : policy isPrint p = .ok s)
    (hok : ∀ c ∈ p.conditions, namesOk c.body = true) :
    parse s = some (Expr.join .and (.lit (.bool true))
      (scopeTrees isPrint p ++ p.conditions.map (fun c => (conditionSpine isPrint c).expr))) := by
  obtain ⟨principal, hprincipal, h⟩ := bind_eq_ok.mp h
  obtain ⟨action, haction, h⟩ := bind_eq_ok.mp h
  obtain ⟨resource, hresource, h⟩ := bind_eq_ok.mp h
  obtain ⟨conditions, hconditions, h⟩ := bind_eq_ok.mp h
  have hscopes : List.Forall₂ ScopeReads [principal, action, resource]
      [scopeTree isPrint .principal p.principal, actionTree isPrint p.action,
        scopeTree isPrint .resource p.resource] :=
    .cons (scope_reads (x := .principal) hprincipal) (.cons (actionScope_reads haction)
      (.cons (scope_reads (x := .resource) hresource) .nil))
  obtain ⟨sps, hreads, htrees⟩ := scopes_read hscopes
  have hterms := rel_append hreads (conditionTerms_read hconditions hok)
  dsimp only at hterms
  have hflat : sps.map Spine.expr = scopeTrees isPrint p := by
    rw [htrees]
    simp [scopeTrees]
  have hexprs : (sps ++ p.conditions.map (conditionSpine isPrint)).map Spine.expr =
      scopeTrees isPrint p ++ p.conditions.map (fun c => (conditionSpine isPrint c).expr) := by
    simp [hflat]
  rw [← hexprs]
  dsimp only at h
  split at h
  · rename_i hlen
    cases h
    rw [length_eq_zero_iff] at hlen
    rw [hlen, forall₂_nil_left_iff] at hterms
    rw [hterms]
    exact parse_true
  · rename_i hlen
    cases h
    have hsep : " && ".toList = ' ' :: (BinOp.and.symbol ++ [' ']) := rfl
    have hparse := parse_joined (by decide) hsep (by simpa [wrap] using hlen) (reads_wrap hterms)
      (.lit (.bool true))
    rw [hparse, map_map]
    rfl

lemma namesOk_of_parse {p : Policy} {s : String} (h : parse s = some (policyTree isPrint p))
    {c : Condition} (hc : c ∈ p.conditions) : namesOk c.body = true := by
  have hrange := parse_inRange h
  rw [policyTree, inRange_join rfl, all_append, Bool.and_eq_true, all_map] at hrange
  have hcond : (conditionTree isPrint c).inRange = true := List.all_eq_true.mp hrange.2 c hc
  apply namesOk_of_inRange isPrint
  obtain ⟨kind, n⟩ := c
  cases kind
  · exact hcond
  · simpa [conditionTree, Expr.inRange] using hcond

/-- The text of a policy is read as its tree just if its conditions keep their structure. -/
theorem policy_parse_iff {p : Policy} {s : String} (h : policy isPrint p = .ok s) :
    parse s = some (policyTree isPrint p) ↔ faithful p = true := by
  have hlists : ∀ c : Condition, (conditionSpine isPrint c).expr = conditionTree isPrint c ↔
      grouped c.body = true := conditionSpine_expr_iff
  rw [faithful, all_eq_true]
  constructor
  · intro hparse c hc
    have hnames := fun c' hc' => namesOk_of_parse hparse (c := c') hc'
    have htrees := Option.some.inj ((policy_parse h hnames).symm.trans hparse)
    rw [policyTree, join_inj (by simp), append_cancel_left_eq, map_inj_left] at htrees
    rw [hnames c hc, (hlists c).mp (htrees c hc)]
    rfl
  · intro hok
    have hnames : ∀ c ∈ p.conditions, namesOk c.body = true :=
      fun c hc => (Bool.and_eq_true _ _ ▸ hok c hc).1
    have hgrouped : ∀ c ∈ p.conditions, grouped c.body = true :=
      fun c hc => (Bool.and_eq_true _ _ ▸ hok c hc).2
    rw [policy_parse h hnames, policyTree,
      map_congr_left (fun c hc => (hlists c).mpr (hgrouped c hc))]

end Symkernel.PolicyImport.Cedar
