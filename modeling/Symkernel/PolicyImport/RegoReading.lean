import Symkernel.PolicyImport.RegoTree

/-!
# Reading the texts of Rego rules
-/

namespace Symkernel.PolicyImport.Rego

open Library Library.Cel List

def intOk (n : Numeral) : Bool :=
  !n.isInteger || parsesInt n

/-- A number that is not written as a string. -/
def numeric (n : Numeral) : Bool :=
  parsesInt n || parsesFloat n

lemma numeralOk_eq (n : Numeral) : numeralOk n = (intOk n && numeric n) := by
  unfold numeralOk intOk numeric
  cases hn : n.isInteger with
  | true => cases hp : parsesInt n <;> simp
  | false =>
    have hp : parsesInt n = false := by simp [parsesInt, hn]
    simp [hp]

lemma number_reads {n : Numeral} (h : intOk n = true) :
    Reads (celNumber n).toList (.member (numberExpr n)) := by
  unfold celNumber numberExpr
  by_cases hp : parsesInt n = true
  · have hrange := hp
    simp only [parsesInt, Bool.and_eq_true, decide_eq_true_eq] at hrange
    simp only [hp, if_true, numberTree, hrange.1.1, Numeral.text, String.toList_ofList]
    exact Reads.integer hrange.1.1 hrange.1.2 hrange.2
  · have hint : n.isInteger = false := by simpa [intOk, hp] using h
    by_cases hf : parsesFloat n = true
    · simp only [hp, hf, numberTree, hint]
      have hread := Reads.float hint
      rwa [← String.toList_ofList (l := n.chars)] at hread
    · simp only [hp, hf]
      exact reads_celString n.text

lemma numberExpr_eq_iff (n : Numeral) : numberExpr n = numberTree n ↔ numeric n = true := by
  unfold numberExpr numeric
  split
  · simp [*]
  · rename_i hn
    unfold numberTree
    split <;> simp [hn]

variable {isPrint : Char → Bool} {isBuiltin : String → Bool}

lemma segments_read {rest : List Term} {path : String} (h : segments rest = .ok path)
    (hok : segmentsOk isSelector rest = true) {text : List Char} {e : Cel.Expr}
    (he : Reads text (.member e)) :
    Reads (text ++ path.toList) (.member (segmentsTree e rest)) := by
  induction rest generalizing path text e with
  | nil =>
    cases h
    simpa [segmentsTree] using he
  | cons t rest ih =>
    cases t with
    | string s =>
      obtain ⟨path', hpath, h⟩ := bind_eq_ok.mp h
      cases h
      rw [segmentsOk, Bool.and_eq_true] at hok
      have hselect := ih hpath hok.2 (he.select hok.1)
      simpa [segmentsTree] using hselect
    | _ => cases h

lemma reads_input : Reads "input".toList (.member (.ident "input")) :=
  Reads.word rfl rfl rfl

lemma reads_null : Reads "null".toList (.member (.lit .null)) :=
  Reads.word rfl rfl rfl

variable {s form name ruleName : String}

lemma ref_reads {r : List Term} (h : ref isPrint r = .ok s)
    (hok : segmentsOk isSelector r.tail = true) :
    Reads s.toList (.member (segmentsTree (.ident "input") r.tail)) := by
  unfold ref at h
  split at h
  · cases h
  · split at h
    · cases h
    · obtain ⟨path, hpath, h⟩ := bind_eq_ok.mp h
      cases h
      rw [String.toList_append]
      exact segments_read hpath hok reads_input
  · cases h

mutual

lemma term_reads : ∀ (t : Term) (s : String), term isPrint t = .ok s →
    termOk intOk isSelector t = true → Reads s.toList (.member (termTree isPrint numberExpr t))
  | .boolean b, s, h, _ => by
    cases h
    cases b
    · exact reads_false
    · exact reads_true
  | .number n, s, h, hok => by
    cases h
    exact number_reads hok
  | .string t, s, h, _ => by
    cases h
    exact reads_celString t
  | .null, s, h, _ => by
    cases h
    exact reads_null
  | .ref r, s, h, hok => by
    exact ref_reads h hok
  | .call _, s, h, _ => by cases h
  | .var _, s, h, _ => by cases h
  | .array elements, s, h, hok => by
    obtain ⟨parts, hparts, h⟩ := bind_eq_ok.mp h
    cases h
    obtain ⟨rfl, hreads⟩ := termList_reads elements parts hparts hok
    have hlist := Reads.list (forall₂_map hreads)
    rw [termTree]
    simpa [Function.comp_def, Spine.expr] using hlist
  | .set elements, s, h, hok => by
    obtain ⟨parts, hparts, h⟩ := bind_eq_ok.mp h
    cases h
    obtain ⟨rfl, hreads⟩ := termList_reads elements parts hparts hok
    exact reads_sorted_list hreads
  | .other _, s, h, _ => by cases h

lemma termList_reads : ∀ (ts : List Term) (parts : List String), termList isPrint ts = .ok parts →
    termOkAll intOk isSelector ts = true → parts = (termTrees isPrint numberExpr ts).map Prod.fst ∧
      ∀ q ∈ termTrees isPrint numberExpr ts, Reads q.1.toList (.member q.2)
  | [], parts, h, _ => by
    cases h
    exact ⟨rfl, by simp [termTrees]⟩
  | t :: ts, parts, h, hok => by
    rw [termOkAll, Bool.and_eq_true] at hok
    obtain ⟨s, hs, h⟩ := bind_eq_ok.mp h
    obtain ⟨rest, hrest, h⟩ := bind_eq_ok.mp h
    cases h
    obtain ⟨rfl, hreads⟩ := termList_reads ts rest hrest hok.2
    have htext : (term isPrint t).toOption.getD "" = s := by
      rw [hs]
      rfl
    refine ⟨by rw [termTrees, map_cons, htext], ?_⟩
    intro q hq
    rw [termTrees, mem_cons, htext] at hq
    obtain rfl | hq := hq
    · exact term_reads t s hs hok.1
    · exact hreads q hq

end

lemma mem_of_lookup {l : List (String × String)} (h : l.lookup name = some form) :
    (name, form) ∈ l := by
  obtain ⟨l₁, l₂, rfl, -⟩ := List.lookup_eq_some_iff.mp h
  simp

lemma operator_of_infix {celOp : String} (h : builtinMap isBuiltin name = some form)
    (hcel : regoInfixToCEL.lookup form = some celOp) :
    ∃ op : Operator, name = op.name ∧ celOp = String.ofList op.celOp.symbol := by
  unfold builtinMap at h
  split at h
  · rename_i form' hform
    cases h
    have hmem := mem_of_lookup hform
    simp only [infixes, mem_cons, not_mem_nil, or_false] at hmem
    obtain ⟨rfl, rfl⟩ | ⟨rfl, rfl⟩ | ⟨rfl, rfl⟩ | ⟨rfl, rfl⟩ | ⟨rfl, rfl⟩ | ⟨rfl, rfl⟩ |
      ⟨rfl, rfl⟩ | ⟨rfl, rfl⟩ | ⟨rfl, rfl⟩ | ⟨rfl, rfl⟩ | ⟨rfl, rfl⟩ | ⟨rfl, rfl⟩ | ⟨rfl, rfl⟩ |
      ⟨rfl, rfl⟩ | ⟨rfl, rfl⟩ | ⟨rfl, rfl⟩ | ⟨rfl, rfl⟩ := hmem <;> cases hcel
    · exact ⟨.equal, rfl, rfl⟩
    · exact ⟨.notEqual, rfl, rfl⟩
    · exact ⟨.less, rfl, rfl⟩
    · exact ⟨.lessEqual, rfl, rfl⟩
    · exact ⟨.greater, rfl, rfl⟩
    · exact ⟨.greaterEqual, rfl, rfl⟩
    · exact ⟨.plus, rfl, rfl⟩
    · exact ⟨.minus, rfl, rfl⟩
  · split at h
    · cases h
      cases hcel
    · cases h

lemma operatorOf_name (op : Operator) : operatorOf op.name = some op := by
  cases op <;> rfl

def operationText (op : Operator) (l r : String) : String :=
  "(" ++ l ++ " " ++ String.ofList op.celOp.symbol ++ " " ++ r ++ ")"

inductive Accepted (isPrint : Char → Bool) : Terms → String → Prop
  | operation {op : Operator} {left right : Term} {l r : String}
      (hl : term isPrint left = .ok l) (hr : term isPrint right = .ok r) :
      Accepted isPrint (.call (some op.name) [left, right]) (operationText op l r)
  | term {t : Term} {s : String} (h : term isPrint t = .ok s) : Accepted isPrint (.term t) s

lemma call_accepted {operator : Option String} {operands : List Term}
    (h : call isPrint isBuiltin operator operands = .ok s) :
    Accepted isPrint (.call operator operands) s := by
  unfold call at h
  split at h
  · cases h
  · split at h
    · cases h
    · rename_i form hform
      split at h
      · cases h
      · rename_i celOp hcel
        split at h
        · obtain ⟨op, rfl, rfl⟩ := operator_of_infix hform hcel
          obtain ⟨l, hl, h⟩ := bind_eq_ok.mp h
          obtain ⟨r, hr, h⟩ := bind_eq_ok.mp h
          cases h
          exact .operation hl hr
        · cases h

lemma expr_accepted {e : Expr} (h : expr isPrint isBuiltin e = .ok s) :
    ∃ u, Accepted isPrint e.terms u ∧ s = negate e.negated u := by
  unfold expr at h
  split at h
  · cases h
  · split at h
    · rename_i hterms
      obtain ⟨u, hu, h⟩ := bind_eq_ok.mp h
      cases h
      rw [hterms]
      exact ⟨u, call_accepted hu, rfl⟩
    · cases h
    · cases h
    · rename_i hterms
      obtain ⟨u, hu, h⟩ := bind_eq_ok.mp h
      cases h
      rw [hterms]
      exact ⟨u, .term hu, rfl⟩
    · cases h

lemma termsTree_operation (number : Numeral → Cel.Expr) (op : Operator) (left right : Term) :
    termsTree isPrint number (.call (some op.name) [left, right]) =
      .bin op.celOp (termTree isPrint number left) (termTree isPrint number right) := by
  simp only [termsTree, Option.bind_some, operatorOf_name]

lemma terms_read {ts : Terms} (h : Accepted isPrint ts s)
    (hok : termsOk intOk isSelector ts = true) :
    Reads s.toList (.member (termsTree isPrint numberExpr ts)) := by
  cases h with
  | @operation op left right l r hl hr =>
    simp only [termsOk, termOkAll, Bool.and_true, Bool.and_eq_true] at hok
    have hmore : List.Forall₂ (fun (t : BinOp × List Char) (sp : BinOp × Spine) =>
        t.1 = sp.1 ∧ Reads t.2 sp.2) [(op.celOp, r.toList)]
        [(op.celOp, .member (termTree isPrint numberExpr right))] :=
      .cons ⟨rfl, term_reads right r hr hok.2⟩ .nil
    have hchain := (term_reads left l hl hok.1).chain hmore
    have htree : (Spine.member (termTree isPrint numberExpr left)).chain
        [(op.celOp, .member (termTree isPrint numberExpr right))] =
        .bin op.celOp (termTree isPrint numberExpr left) (termTree isPrint numberExpr right) :=
      rfl
    rw [htree] at hchain
    rw [termsTree_operation]
    simpa [operationText, chainText] using hchain
  | term h => exact term_reads _ _ h hok

lemma expr_reads {e : Expr} (h : expr isPrint isBuiltin e = .ok s)
    (hok : termsOk intOk isSelector e.terms = true) :
    ∃ sp : Spine, Reads s.toList sp ∧ sp.expr = exprTree isPrint numberExpr e := by
  obtain ⟨u, hu, rfl⟩ := expr_accepted h
  have hread := terms_read hu hok
  unfold negate exprTree
  cases e.negated with
  | false => exact ⟨_, hread, rfl⟩
  | true => exact ⟨_, by simpa using hread.not, rfl⟩

lemma exprs_read {b : List Expr} {ts : List String} (h : exprs isPrint isBuiltin b = .ok ts)
    (hok : bodyOk intOk isSelector b = true) :
    ∃ sps : List Spine, List.Forall₂ (fun t sp => Reads t.toList sp) ts sps ∧
      sps.map Spine.expr = b.map (exprTree isPrint numberExpr) := by
  induction b generalizing ts with
  | nil =>
    cases h
    exact ⟨[], .nil, rfl⟩
  | cons e b ih =>
    obtain ⟨s, hs, h⟩ := bind_eq_ok.mp h
    obtain ⟨rest, hrest, h⟩ := bind_eq_ok.mp h
    cases h
    rw [bodyOk, all_cons, Bool.and_eq_true] at hok
    obtain ⟨sp, hread, htree⟩ := expr_reads hs hok.1
    obtain ⟨sps, hreads, htrees⟩ := ih hrest hok.2
    exact ⟨sp :: sps, .cons hread hreads, by rw [map_cons, htree, htrees, map_cons]⟩

lemma body_reads {b : List Expr} (h : body isPrint isBuiltin b = .ok s)
    (hok : bodyOk intOk isSelector b = true) : parse s = some (bodyTree isPrint numberExpr b) ∧
      Reads ('(' :: (s.toList ++ [')'])) (.member (bodyTree isPrint numberExpr b)) := by
  unfold body at h
  split at h
  · rename_i hlen
    cases h
    rw [length_eq_zero_iff] at hlen
    rw [hlen]
    exact ⟨parse_true, reads_true.paren⟩
  · rename_i hlen
    obtain ⟨terms, hterms, h⟩ := bind_eq_ok.mp h
    cases h
    obtain ⟨sps, hreads, htrees⟩ := exprs_read hterms hok
    have hne : wrap terms ≠ [] := by
      rintro hnil
      rw [wrap, map_eq_nil_iff] at hnil
      rw [hnil, forall₂_nil_left_iff] at hreads
      rw [hreads] at htrees
      exact hlen (by simpa using htrees.symm)
    have hsep : " && ".toList = ' ' :: (BinOp.and.symbol ++ [' ']) := rfl
    have hexprs : (sps.map (fun sp => Spine.member sp.expr)).map Spine.expr =
        b.map (exprTree isPrint numberExpr) := by
      rw [map_map, ← htrees]
      rfl
    have hparse := parse_joined (by decide) hsep hne (reads_wrap hreads) (.lit (.bool true))
    have hread := reads_joined (by decide) hsep hne (reads_wrap hreads) (.lit (.bool true))
    rw [hexprs] at hparse hread
    exact ⟨hparse, hread⟩

lemma ruleStep_found {found found' : Found} {rule : Rule}
    (h : ruleStep isPrint isBuiltin ruleName found rule = .ok found') :
    (chosen ruleName [rule] = [] ∧ found'.disjuncts = found.disjuncts ∧
      found'.sawRule = found.sawRule) ∨
    (chosen ruleName [rule] = [rule] ∧ ∃ t, body isPrint isBuiltin rule.body = .ok t ∧
      found'.disjuncts = found.disjuncts ++ [t] ∧ found'.sawRule = true) := by
  unfold ruleStep at h
  split at h
  · rename_i hhead
    cases h
    exact .inl ⟨by simp [chosen, hhead], rfl, rfl⟩
  · rename_i head hhead
    split_ifs at h with hname hargs hkey hdefault helse hvalue
    · cases h
      exact .inl ⟨by simp [chosen, hhead, hname], rfl, rfl⟩
    · cases h
    · cases h
    · split at h <;> cases h <;> exact .inl ⟨by simp [chosen, hdefault], rfl, rfl⟩
    · cases h
    · cases h
    · obtain ⟨t, ht, h⟩ := bind_eq_ok.mp h
      cases h
      refine .inr ⟨?_, t, ht, rfl, rfl⟩
      simp only [not_not] at hname
      simp [chosen, hhead, hname, hdefault]

lemma chosen_cons (ruleName : String) (rule : Rule) (rules : List Rule) :
    chosen ruleName (rule :: rules) = chosen ruleName [rule] ++ chosen ruleName rules :=
  filter_append [rule] rules

lemma rules_found {rules : List Rule} {found found' : Found}
    (h : rules.foldlM (ruleStep isPrint isBuiltin ruleName) found = .ok found') :
    ∃ texts : List String, found'.disjuncts = found.disjuncts ++ texts ∧
      List.Forall₂ (fun (r : Rule) t => body isPrint isBuiltin r.body = .ok t)
        (chosen ruleName rules) texts ∧
      (found'.sawRule = true ↔ found.sawRule = true ∨ texts ≠ []) := by
  induction rules generalizing found with
  | nil =>
    cases h
    exact ⟨[], by simp, .nil, by simp⟩
  | cons rule rules ih =>
    obtain ⟨mid, hmid, h⟩ := bind_eq_ok.mp h
    obtain ⟨texts, hdisjuncts, hbodies, hsaw⟩ := ih h
    rw [chosen_cons]
    obtain ⟨hnone, hsame, hseen⟩ | ⟨hsome, t, ht, hadd, hseen⟩ := ruleStep_found hmid
    · refine ⟨texts, by rw [hdisjuncts, hsame], by rwa [hnone], by rw [hsaw, hseen]⟩
    · refine ⟨t :: texts, by rw [hdisjuncts, hadd, append_assoc]; rfl, ?_, ?_⟩
      · rw [hsome]
        exact .cons ht hbodies
      · rw [hsaw, hseen]
        simp

lemma translateRego_ok {mod : Option (List Rule)} {res : Result}
    (h : translateRego isPrint isBuiltin mod ruleName = .ok res) :
    ∃ rules texts, mod = some rules ∧ texts ≠ [] ∧
      res.cel = String.intercalate " || " (wrap texts) ∧
      List.Forall₂ (fun (r : Rule) t => body isPrint isBuiltin r.body = .ok t)
        (chosen (decisionName ruleName) rules) texts := by
  unfold translateRego at h
  split at h
  · cases h
  · rename_i rules
    obtain ⟨found, hfound, h⟩ := bind_eq_ok.mp h
    obtain ⟨texts, hdisjuncts, hbodies, hsaw⟩ := rules_found hfound
    rw [nil_append] at hdisjuncts
    split at h
    · cases h
    · rename_i hseen
      cases h
      refine ⟨rules, texts, rfl, ?_, by rw [hdisjuncts], hbodies⟩
      simpa [hsaw] using hseen

lemma rules_parse {rules : List Rule} {texts : List String} (hne : texts ≠ [])
    (h : List.Forall₂ (fun (r : Rule) t => body isPrint isBuiltin r.body = .ok t)
      (chosen ruleName rules) texts) (hok : rulesOk intOk isSelector ruleName rules = true) :
    parse (String.intercalate " || " (wrap texts)) =
      some (rulesTree isPrint numberExpr ruleName rules) := by
  have hsep : " || ".toList = ' ' :: (BinOp.or.symbol ++ [' ']) := rfl
  have hreads : List.Forall₂ (fun (t : String) sp => Reads t.toList sp) (wrap texts)
      ((chosen ruleName rules).map (fun r => .member (bodyTree isPrint numberExpr r.body))) := by
    rw [rulesOk, all_eq_true] at hok
    rw [wrap, forall₂_map_left_iff, forall₂_map_right_iff]
    refine List.Forall₂.flip (((forall₂_and_left _ _).mpr ⟨hok, h⟩).imp ?_)
    rintro r t ⟨hr, ht⟩
    simpa [flip] using (body_reads ht hr).2
  have hparse := parse_joined (by decide) hsep (by simpa [wrap] using hne) hreads
    (.lit (.bool false))
  rw [hparse, map_map]
  rfl

end Symkernel.PolicyImport.Rego
