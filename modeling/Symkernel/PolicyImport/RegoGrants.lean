import Symkernel.PolicyImport.RegoStructure
import Symkernel.PolicyImport.RegoValues

/-!
# What the texts of Rego rules grant
-/

namespace Symkernel.PolicyImport.Rego

open Library Library.Cel List Bool

section

variable (rounding : Rounding)

mutual

/-- No part is a set, and the integers are doubles. -/
def plain : Term → Bool
  | .number n => !n.isInteger || decide (rounding.round n.value = n.value)
  | .array elements => plainAll elements
  | .set _ => false
  | _ => true

def plainAll : List Term → Bool
  | [] => true
  | t :: ts => plain t && plainAll ts

end

def Terms.plain : Terms → Bool
  | .call _ operands => plainAll rounding operands
  | .term t => Rego.plain rounding t
  | _ => true

end

mutual

def termNumbers : Term → List Rat
  | .number n => [n.value]
  | .array elements => termNumbersAll elements
  | .set elements => termNumbersAll elements
  | _ => []

def termNumbersAll : List Term → List Rat
  | [] => []
  | t :: ts => termNumbers t ++ termNumbersAll ts

end

def Terms.numbers : Terms → List Rat
  | .call _ operands => termNumbersAll operands
  | .term t => termNumbers t
  | _ => []

def rulesNumbers (ruleName : String) (rules : List Rule) : List Rat :=
  (chosen ruleName rules).flatMap (fun r => r.body.flatMap (fun e => e.terms.numbers))

def Operator.answers (op : Operator) (v w : Value) : Bool :=
  match op with
  | .equal | .notEqual => true
  | .less | .lessEqual | .greater | .greaterEqual => v.ordered w
  | .plus | .minus => false

/-- CEL has a boolean for the expression: its operands are defined and of types that the operator
takes, and a bare term is a boolean. -/
def Document.answers (doc : Document) : Terms → Bool
  | .call operator operands =>
    match operator.bind operatorOf, operands with
    | some op, [left, right] =>
      match doc.term left, doc.term right with
      | some v, some w => op.answers v w
      | _, _ => false
    | _, _ => false
  | .term t =>
    match doc.term t with
    | some (.bool _) => true
    | _ => false
  | _ => false

variable {rounding : Rounding} {numbers : List Rat} {doc : Document}
  {isPrint : Char → Bool} {isBuiltin : String → Bool}

/-! ### Documents -/

mutual

lemma stands_celValue : ∀ v : Value, v.isJson = true → Stands rounding v (celValue rounding v)
  | .null, _ => rfl
  | .bool _, _ => rfl
  | .number _, _ => rfl
  | .string _, _ => rfl
  | .array vs, h => stands_celValues vs h
  | .object fs, h => by
    rw [Value.isJson, Bool.and_eq_true] at h
    exact stands_celFields fs h.2
  | .set _, h => by cases h

lemma stands_celValues : ∀ vs : List Value, Value.isJsonAll vs = true →
    StandsAll rounding vs (celValues rounding vs)
  | [], _ => trivial
  | v :: vs, h => by
    rw [Value.isJsonAll, Bool.and_eq_true] at h
    exact ⟨stands_celValue v h.1, stands_celValues vs h.2⟩

lemma stands_celFields : ∀ fs : List (String × Value), Value.isJsonFields fs = true →
    StandsFields rounding fs (celFields rounding fs)
  | [], _ => trivial
  | (f, v) :: fs, h => by
    rw [Value.isJsonFields, Bool.and_eq_true] at h
    exact ⟨rfl, stands_celValue v h.1, stands_celFields fs h.2⟩

end

/-- An undefined term is an error, and a value stands for the other. -/
inductive Gives (rounding : Rounding) (numbers : List Rat) :
    Option Value → Except Cel.Error (Cel.Value Empty) → Prop
  | value {v : Value} {u : Cel.Value Empty} (hv : v.Within numbers) (hu : Stands rounding v u) :
      Gives rounding numbers (some v) (.ok u)
  | undefined (e : Cel.Error) : Gives rounding numbers none (.error e)

lemma lookup_gives (f : String) : ∀ {fs : List (String × Value)}
    {gs : List (String × Cel.Value Empty)}, StandsFields rounding fs gs →
    Value.isJsonFields fs = true → Value.numbersFields fs ⊆ numbers →
    (fs.lookup f = none ∧ gs.lookup f = none) ∨
      ∃ v u, fs.lookup f = some v ∧ gs.lookup f = some u ∧ v.Within numbers ∧ Stands rounding v u
  | [], [], _, _, _ => .inl ⟨rfl, rfl⟩
  | (g, v) :: fs, (g', u) :: gs, h, hjson, hamong => by
    obtain ⟨rfl, hu, hrest⟩ := h
    rw [Value.isJsonFields, Bool.and_eq_true] at hjson
    rw [Value.numbersFields, List.append_subset] at hamong
    rw [List.lookup_cons, List.lookup_cons]
    cases f == g with
    | true => exact .inr ⟨v, u, rfl, rfl, ⟨hjson.1, hamong.1⟩, hu⟩
    | false => exact lookup_gives f hrest hjson.2 hamong.2

lemma select_error {h : Host Empty} {e : Cel.Expr} {x : Cel.Error} (he : eval h e = .error x)
    (rest : List Term) : eval h (segmentsTree e rest) = .error x := by
  induction rest generalizing e with
  | nil => exact he
  | cons t rest ih =>
    cases t with
    | string s =>
      apply ih
      rw [eval, he]
      rfl
    | _ => exact ih he

variable {u : Cel.Value Empty}

lemma select_scalar {v : Value} (hu : Stands rounding v u) (hv : ∀ fs, v ≠ .object fs)
    (f : String) : (doc.host rounding).select u f = .error .noSuchOverload := by
  cases u with
  | map gs => cases v <;> first | exact absurd rfl (hv _) | cases hu
  | object key => exact key.elim
  | _ => rfl

lemma follow_gives {rest : List Term} {path : String} (h : segments rest = .ok path) {v : Value}
    {e : Cel.Expr} (he : eval (doc.host rounding) e = .ok u) (hv : v.Within numbers)
    (hu : Stands rounding v u) :
    Gives rounding numbers (follow v rest) (eval (doc.host rounding) (segmentsTree e rest)) := by
  induction rest generalizing path v e u with
  | nil =>
    rw [segmentsTree, he]
    exact .value hv hu
  | cons t rest ih =>
    cases t with
    | string s =>
      obtain ⟨path', hpath, -⟩ := bind_eq_ok.mp h
      have hselect : eval (doc.host rounding) (.select e s) = (doc.host rounding).select u s := by
        rw [eval, he]
        rfl
      cases v with
      | object fs =>
        obtain ⟨gs, rfl, hgs⟩ := hu.of_object
        rw [follow, segmentsTree]
        obtain ⟨hf, hg⟩ | ⟨w, u, hf, hg, hw, hu⟩ := lookup_gives s hgs hv.of_object.2 hv.among
        · have herr : eval (doc.host rounding) (.select e s) = .error (.noSuchField s) := by
            rw [hselect, Host.select, Host.field?, hg]
            rfl
          rw [hf, select_error herr]
          exact .undefined _
        · have hok : eval (doc.host rounding) (.select e s) = .ok u := by
            rw [hselect, Host.select, Host.field?, hg]
            rfl
          rw [hf]
          exact ih hpath hok hw hu
      | _ =>
        rw [follow, segmentsTree,
          select_error (hselect.trans (select_scalar hu (fun fs heq => by cases heq) s))]
        · exact .undefined _
        · intro fs name hobject
          cases hobject
    | _ => cases h

/-! ### Terms -/

inductive GivesAll (rounding : Rounding) (numbers : List Rat) :
    Option (List Value) → Except Cel.Error (List (Cel.Value Empty)) → Prop
  | values {vs : List Value} {us : List (Cel.Value Empty)} (hjson : Value.isJsonAll vs = true)
      (hamong : Value.numbersAll vs ⊆ numbers) (hus : StandsAll rounding vs us) :
      GivesAll rounding numbers (some vs) (.ok us)
  | undefined (e : Cel.Error) : GivesAll rounding numbers none (.error e)

lemma GivesAll.array {o : Option (List Value)} {es : List Cel.Expr}
    (h : GivesAll rounding numbers o (evalAll (doc.host rounding) es)) :
    Gives rounding numbers (o.bind fun vs => some (.array vs)) (eval (doc.host rounding) (.list es)) := by
  rw [eval]
  generalize evalAll (doc.host rounding) es = r at h
  cases h with
  | values hjson hamong hus => exact .value ⟨hjson, hamong⟩ hus
  | undefined e => exact .undefined e

lemma Gives.cons {v : Option Value} {vs : Option (List Value)} {e : Cel.Expr} {es : List Cel.Expr}
    (h : Gives rounding numbers v (eval (doc.host rounding) e))
    (hs : GivesAll rounding numbers vs (evalAll (doc.host rounding) es)) :
    GivesAll rounding numbers (v.bind fun v => vs.bind fun vs => some (v :: vs))
      (evalAll (doc.host rounding) (e :: es)) := by
  rw [evalAll]
  generalize eval (doc.host rounding) e = r at h
  generalize evalAll (doc.host rounding) es = rs at hs
  cases h with
  | undefined e => exact .undefined e
  | value hv hu =>
    cases hs with
    | undefined e => exact .undefined e
    | values hjson hamong hus =>
      refine .values ?_ ?_ ⟨hu, hus⟩
      · rw [Value.isJsonAll, hv.json, hjson]
        rfl
      · exact List.append_subset.mpr ⟨hv.among, hamong⟩

lemma number_gives {n : Numeral} (hplain : plain rounding (.number n) = true)
    (hamong : n.value ∈ numbers) :
    Gives rounding numbers (some (.number n.value)) (eval (doc.host rounding) (numberTree n)) := by
  have hwithin : (Value.number n.value).Within numbers :=
    ⟨rfl, by simpa [Value.numbers] using hamong⟩
  unfold numberTree
  by_cases hint : n.isInteger = true
  · have hround : rounding.round n.value = n.value := by simpa [plain, hint] using hplain
    rw [if_pos hint]
    refine .value hwithin ?_
    rw [Stands, hround, Numeral.value_of_isInteger hint]
    rfl
  · rw [if_neg hint]
    refine .value hwithin ?_
    rw [Stands, Host.literal, Cel.Value.number?, Numeral.text, String.toList_ofList]
    rfl

variable {s ruleName : String}

lemma ref_gives {r : List Term} (h : ref isPrint r = .ok s) (hdoc : doc.value.numbers ⊆ numbers) :
    Gives rounding numbers (doc.ref r)
      (eval (doc.host rounding) (segmentsTree (.ident "input") r.tail)) := by
  unfold ref at h
  split at h
  · cases h
  · split_ifs at h with hroot
    · cases h
    · obtain ⟨path, hpath, -⟩ := bind_eq_ok.mp h
      rw [Document.ref, if_pos (not_not.mp hroot)]
      exact follow_gives hpath rfl ⟨doc.json, hdoc⟩ (stands_celValue doc.value doc.json)
  · cases h

mutual

/-- Terms without sets have values that stand for one another. -/
theorem term_gives (hdoc : doc.value.numbers ⊆ numbers) : ∀ (t : Term) (s : String),
    term isPrint t = .ok s → plain rounding t = true → termNumbers t ⊆ numbers →
    Gives rounding numbers (doc.term t) (eval (doc.host rounding) (termTree isPrint numberTree t))
  | .boolean _, _, _, _, _ => .value ⟨rfl, nofun⟩ rfl
  | .number n, _, _, hplain, hamong => number_gives hplain (by simpa [termNumbers] using hamong)
  | .string _, _, _, _, _ => .value ⟨rfl, nofun⟩ rfl
  | .null, _, _, _, _ => .value ⟨rfl, nofun⟩ rfl
  | .ref r, s, h, _, _ => by
    exact ref_gives h hdoc
  | .call _, _, h, _, _ => by cases h
  | .var _, _, h, _, _ => by cases h
  | .array elements, _, h, hplain, hamong => by
    obtain ⟨parts, hparts, -⟩ := bind_eq_ok.mp h
    exact (terms_give hdoc elements parts hparts hplain hamong).array
  | .set _, _, _, hplain, _ => by cases hplain
  | .other _, _, h, _, _ => by cases h

lemma terms_give (hdoc : doc.value.numbers ⊆ numbers) : ∀ (ts : List Term) (parts : List String),
    termList isPrint ts = .ok parts → plainAll rounding ts = true → termNumbersAll ts ⊆ numbers →
    GivesAll rounding numbers (doc.terms ts)
      (evalAll (doc.host rounding) ((termTrees isPrint numberTree ts).map Prod.snd))
  | [], _, _, _, _ => .values rfl nofun trivial
  | t :: ts, _, h, hplain, hamong => by
    obtain ⟨s, hs, h⟩ := bind_eq_ok.mp h
    obtain ⟨rest, hrest, -⟩ := bind_eq_ok.mp h
    rw [plainAll, Bool.and_eq_true] at hplain
    rw [termNumbersAll, List.append_subset] at hamong
    exact (term_gives hdoc t s hs hplain.1 hamong.1).cons
      (terms_give hdoc ts rest hrest hplain.2 hamong.2)

end

/-! ### Expressions -/

lemma add_ne_bool (h : Host Empty) (a b : Cel.Value Empty) (c : Bool) :
    h.add a b ≠ .ok (.bool c) := by
  unfold Host.add int64 Host.double
  split <;> (try split) <;> nofun

lemma sub_ne_bool (h : Host Empty) (a b : Cel.Value Empty) (c : Bool) :
    h.sub a b ≠ .ok (.bool c) := by
  unfold Host.sub int64 Host.double
  split <;> (try split) <;> nofun

section Operators

variable (hapart : Apart rounding numbers) {v w : Value} {a b : Cel.Value Empty}
  (ha : Stands rounding v a) (hb : Stands rounding w b) (hv : v.Within numbers)
  (hw : w.Within numbers)

include hapart ha hb hv hw

lemma equal_stands : a.equal Empty.elim b = (v.compare w).isEq := by
  rw [Bool.eq_iff_iff, equal_iff hapart v w a b ha hb hv hw, Ordering.isEq_iff_eq_eq]

lemma ordered_stands (holds : Ordering → Bool) (c : Bool) :
    a.ordered holds b = .ok (.bool c) ↔ v.ordered w = true ∧ holds (v.compare w) = c := by
  rw [Cel.Value.ordered, order_stands hapart ha hb hv hw]
  cases v.ordered w <;> simp

/-- An operator of CEL gives a boolean just where it answers, and then it is that of Rego. -/
lemma strict_stands (op : Operator) (c : Bool) :
    (doc.host rounding).strict op.celOp a b = .ok (.bool c) ↔
      op.answers v w = true ∧ op.apply v w = some (.bool c) := by
  have hordered := ordered_stands hapart ha hb hv hw
  have hequal := equal_stands hapart ha hb hv hw
  cases op with
  | equal | notEqual =>
    simp [Operator.celOp, Host.strict, Document.host, hequal, Operator.answers, Operator.apply]
  | less | lessEqual | greater | greaterEqual =>
    simp [Operator.celOp, Host.strict, hordered, Operator.answers, Operator.apply]
  | plus => exact iff_of_false (add_ne_bool _ a b c) fun h => by cases h.1
  | minus => exact iff_of_false (sub_ne_bool _ a b c) fun h => by cases h.1

end Operators

lemma Stands.bool_iff {v : Value} (h : Stands rounding v u) (c : Bool) :
    u = .bool c ↔ v = .bool c := by
  constructor
  · rintro rfl
    cases v <;> cases h
    rfl
  · rintro rfl
    exact h

lemma isLogical_celOp (op : Operator) : op.celOp.isLogical = false := by
  cases op <;> rfl

lemma answers_operation (op : Operator) (left right : Term) :
    doc.answers (.call (some op.name) [left, right]) =
      match doc.term left, doc.term right with
      | some v, some w => op.answers v w
      | _, _ => false := by
  simp only [Document.answers, Option.bind_some, operatorOf_name]

lemma result_operation (op : Operator) (left right : Term) :
    doc.result (.call (some op.name) [left, right]) =
      (doc.term left).bind fun v => (doc.term right).bind fun w => op.apply v w := by
  simp only [Document.result, Option.bind_some, operatorOf_name]
  rfl

/-- An expression is a boolean in CEL just where it answers, and then it is that of Rego. -/
lemma termsTree_bool (hapart : Apart rounding numbers) (hdoc : doc.value.numbers ⊆ numbers)
    {ts : Terms} (h : Accepted isPrint ts s) (hplain : ts.plain rounding = true)
    (hamong : ts.numbers ⊆ numbers) (c : Bool) :
    eval (doc.host rounding) (termsTree isPrint numberTree ts) = .ok (.bool c) ↔
      doc.answers ts = true ∧ doc.result ts = some (.bool c) := by
  cases h with
  | @operation op left right l r hl hr =>
    simp only [Terms.plain, plainAll, Bool.and_true, and_eq_true] at hplain
    simp only [Terms.numbers, termNumbersAll, append_nil, append_subset] at hamong
    have hleft := term_gives hdoc left l hl hplain.1 hamong.1
    have hright := term_gives hdoc right r hr hplain.2 hamong.2
    rw [termsTree_operation, eval_strict (isLogical_celOp op), answers_operation, result_operation]
    generalize eval (doc.host rounding) (termTree isPrint numberTree left) = x at hleft
    generalize eval (doc.host rounding) (termTree isPrint numberTree right) = y at hright
    generalize doc.term left = v at hleft
    generalize doc.term right = w at hright
    cases hleft with
    | undefined => exact iff_of_false (fun h => by cases h) fun h => by cases h.1
    | value hv ha =>
      cases hright with
      | undefined => exact iff_of_false (fun h => by cases h) fun h => by cases h.1
      | value hw hb => exact strict_stands hapart ha hb hv hw op c
  | @term t s h =>
    have hterm := term_gives hdoc t s h hplain hamong
    rw [termsTree, Document.answers, Document.result]
    generalize eval (doc.host rounding) (termTree isPrint numberTree t) = x at hterm
    generalize doc.term t = v at hterm
    cases hterm with
    | undefined => exact iff_of_false (fun h => by cases h) fun h => by cases h.1
    | @value v u hv hu =>
      rw [Except.ok.injEq, hu.bool_iff, Option.some_inj, iff_and_self]
      rintro rfl
      rfl

lemma Operator.apply_of_answers {op : Operator} {v w : Value} (h : op.answers v w = true) :
    ∃ b, op.apply v w = some (.bool b) := by
  cases op <;> first | exact ⟨_, rfl⟩ | cases h

lemma result_of_answers {ts : Terms} (h : doc.answers ts = true) :
    ∃ b, doc.result ts = some (.bool b) := by
  unfold Document.answers at h
  split at h
  · split at h
    · rename_i op left right hop
      split at h
      · rename_i v w hv hw
        obtain ⟨b, hb⟩ := Operator.apply_of_answers h
        exact ⟨b, by simp [Document.result, hop, hv, hw, hb]⟩
      · cases h
    · cases h
  · split at h
    · rename_i b hb
      exact ⟨b, hb⟩
    · cases h
  · cases h

lemma exprTree_true (hapart : Apart rounding numbers) (hdoc : doc.value.numbers ⊆ numbers)
    {e : Expr} (h : expr isPrint isBuiltin e = .ok s) (hplain : e.terms.plain rounding = true)
    (hamong : e.terms.numbers ⊆ numbers) :
    eval (doc.host rounding) (exprTree isPrint numberTree e) = .ok (.bool true) ↔
      doc.answers e.terms = true ∧ doc.holds e = true := by
  obtain ⟨u, hu, -⟩ := expr_accepted h
  have hbool := termsTree_bool hapart hdoc hu hplain hamong
  have hholds : ∀ b, doc.answers e.terms = true ∧
      doc.result e.terms = some (.bool (e.negated ^^ b)) ↔
        doc.answers e.terms = true ∧ doc.holds e = b := by
    intro b
    refine and_congr_right (fun hanswers => ?_)
    obtain ⟨c, hc⟩ := result_of_answers hanswers
    rw [Document.holds, hc, Document.satisfied, Option.some_inj, Value.bool.injEq]
    cases e.negated <;> cases b <;> cases c <;> decide
  rw [← hholds, ← hbool]
  unfold exprTree
  cases e.negated with
  | false => rfl
  | true => exact eval_not_iff

/-! ### Rules -/

/-- The emitted text can be read as the rule, its rules have no sets, and no two numbers of the
document and the rules are one double. -/
structure Plain (rounding : Rounding) (doc : Document) (ruleName : String) (rules : List Rule) :
    Prop where
  readable : rulesOk numeralOk isSelector ruleName rules = true
  plain : ∀ r ∈ chosen ruleName rules, ∀ e ∈ r.body, e.terms.plain rounding = true
  apart : Apart rounding (doc.value.numbers ++ rulesNumbers ruleName rules)

variable {rules : List Rule}

lemma subset_rulesNumbers {r : Rule} {e : Expr} (hr : r ∈ chosen ruleName rules) (he : e ∈ r.body) :
    e.terms.numbers ⊆ rulesNumbers ruleName rules := by
  intro q hq
  exact List.mem_flatMap.mpr ⟨r, hr, List.mem_flatMap.mpr ⟨e, he, hq⟩⟩

lemma ruleStep_value {found found' : Found} {rule : Rule}
    (h : ruleStep isPrint isBuiltin ruleName found rule = .ok found')
    (hchosen : rule ∈ chosen ruleName [rule]) :
    ∃ head, rule.head = some head ∧ head.name = ruleName ∧ boolTermValue head.value = some true := by
  rw [chosen] at hchosen
  unfold ruleStep at h
  split at h
  · rename_i hhead
    simp [hhead] at hchosen
  · rename_i head hhead
    split_ifs at h with hname hargs hkey hdefault helse hvalue
    · simp [hhead, hname] at hchosen
    · cases h
    · cases h
    · simp [hdefault] at hchosen
    · cases h
    · cases h
    · exact ⟨head, hhead, not_not.mp hname, not_not.mp hvalue⟩

lemma chosen_value {found found' : Found}
    (h : rules.foldlM (ruleStep isPrint isBuiltin ruleName) found = .ok found') {r : Rule}
    (hr : r ∈ chosen ruleName rules) :
    ∃ head, r.head = some head ∧ head.name = ruleName ∧ boolTermValue head.value = some true := by
  induction rules generalizing found with
  | nil => cases hr
  | cons rule rules ih =>
    obtain ⟨mid, hmid, h⟩ := bind_eq_ok.mp h
    rw [chosen_cons, mem_append] at hr
    obtain hr | hr := hr
    · obtain rfl := List.mem_singleton.mp (mem_of_mem_filter hr)
      exact ruleStep_value hmid hr
    · exact ih h hr

lemma allows_iff {res : Result}
    (h : translateRego isPrint isBuiltin (some rules) ruleName = .ok res) :
    doc.allows (decisionName ruleName) rules = true ↔
      ∃ r ∈ chosen (decisionName ruleName) rules, ∀ e ∈ r.body, doc.holds e = true := by
  obtain ⟨found, hfound, -⟩ := bind_eq_ok.mp h
  rw [Document.allows, any_eq_true]
  constructor
  · rintro ⟨r, hr, hfires⟩
    rw [Document.fires, and_eq_true, and_eq_true, all_eq_true] at hfires
    refine ⟨r, ?_, hfires.2⟩
    obtain ⟨⟨hhead, hdefault⟩, -⟩ := hfires
    rw [Option.any_eq_true] at hhead
    obtain ⟨head, hhead, hname⟩ := hhead
    rw [and_eq_true] at hname
    rw [chosen, mem_filter, and_eq_true]
    exact ⟨hr, by simpa [hhead] using hname.1, hdefault⟩
  · rintro ⟨r, hr, hbody⟩
    obtain ⟨head, hhead, hname, hvalue⟩ := chosen_value hfound hr
    rw [chosen, mem_filter, and_eq_true] at hr
    refine ⟨r, hr.1, ?_⟩
    rw [Document.fires, and_eq_true, and_eq_true, all_eq_true]
    exact ⟨⟨by simp [hhead, hname, hvalue], hr.2.2⟩, hbody⟩

/-- The text of a module grants a document just if every expression of one of its rules holds
and answers. -/
theorem grants_iff_answers {rules : List Rule} {ruleName : String} {res : Result}
    (h : translateRego isPrint isBuiltin (some rules) ruleName = .ok res)
    (hplain : Plain rounding doc (decisionName ruleName) rules) :
    (doc.host rounding).Grants res.cel ↔ ∃ r ∈ chosen (decisionName ruleName) rules,
      ∀ e ∈ r.body, doc.answers e.terms = true ∧ doc.holds e = true := by
  have hparse := (translateRego_parse_iff h).mpr hplain.readable
  obtain ⟨rules', texts, hmod, -, -, hbodies⟩ := translateRego_ok h
  cases hmod
  rw [Host.grants_iff hparse, rulesTree, eval_join_or]
  simp only [mem_map, exists_exists_and_eq_and, bodyTree, eval_join_and, forall_exists_index,
    and_imp, forall_apply_eq_imp_iff₂]
  refine exists_congr (fun r => and_congr_right (fun hr => forall₂_congr (fun e he => ?_)))
  obtain ⟨t, ht⟩ := exists_of_forall₂ hbodies hr
  obtain ⟨s, hs⟩ := body_accepted ht e he
  refine exprTree_true hplain.apart (subset_append_left _ _) hs (hplain.plain r hr e he) ?_
  exact subset_append_of_subset_right _ (subset_rulesNumbers hr he)

def allowRule (body : List Expr) : Rule :=
  { head := some ⟨"allow", 0, false, some (.boolean true)⟩, isDefault := false, hasElse := false
    body := body }

def inputField (f : String) : Term :=
  .ref [.var "input", .string f]

def exactRounding : Rounding :=
  ⟨id, monotone_id⟩

/-- `allow { input.role == "admin" }`. -/
def adminRules : List Rule :=
  [allowRule [⟨0, false, .call (some "equal") [inputField "role", .string "admin"]⟩]]

def adminDocument : Document :=
  ⟨.object [("role", .string "admin")], by decide⟩

lemma admin_plain : Plain exactRounding adminDocument "allow" adminRules where
  readable := by decide
  plain := by decide
  apart := by
    intro x hx
    cases hx

lemma admin_answers : ∃ r ∈ chosen "allow" adminRules,
    ∀ e ∈ r.body, adminDocument.answers e.terms = true ∧ adminDocument.holds e = true :=
  ⟨_, List.mem_singleton.mpr rfl, by decide⟩

/-- `allow { input.tags == {"a"} }`. -/
def setRules : List Rule :=
  [allowRule [⟨0, false, .call (some "equal") [inputField "tags", .set [.string "a"]]⟩]]

def tagsDocument : Document :=
  ⟨.object [("tags", .array [.string "a"])], by decide⟩

/-- `allow { input["x || true"] }`. -/
def spliceRules : List Rule :=
  [allowRule [⟨0, false, .term (inputField "x || true")⟩]]

def emptyDocument : Document :=
  ⟨.object [], rfl⟩

/-- `allow { not input.banned }`. -/
def bannedRules : List Rule :=
  [allowRule [⟨0, true, .term (inputField "banned")⟩]]

/-- `allow { input.role }`. -/
def roleRules : List Rule :=
  [allowRule [⟨0, false, .term (inputField "role")⟩]]

end Symkernel.PolicyImport.Rego
