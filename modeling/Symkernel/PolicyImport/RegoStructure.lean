import Symkernel.PolicyImport.RegoReading

/-!
# When the text of a Rego rule means what the rule means
-/

namespace Symkernel.PolicyImport.Rego

open Library Library.Cel List

variable {isPrint : Char → Bool} {isBuiltin : String → Bool}

lemma segmentsOk_true (rest : List Term) : segmentsOk (fun _ => true) rest = true := by
  induction rest with
  | nil => rfl
  | cons t rest ih => cases t <;> simp [segmentsOk, ih]

section Sorted

variable {α : Type} {text : α → String} {f g : α → Cel.Expr} {l : List α}

lemma sorted_eq_iff :
    ((l.map (fun a => (text a, f a))).mergeSort (fun a b => decide (a.1 ≤ b.1))).map Prod.snd =
        ((l.map (fun a => (text a, g a))).mergeSort (fun a b => decide (a.1 ≤ b.1))).map Prod.snd ↔
      ∀ a ∈ l, f a = g a := by
  have hf := mergeSort_map (fun a => (text a, f a)) (fun a b => decide (a.1 ≤ b.1)) l
  have hg := mergeSort_map (fun a => (text a, g a)) (fun a b => decide (a.1 ≤ b.1)) l
  rw [hf, hg, map_map, map_map, map_inj_left]
  simp only [mem_mergeSort, Function.comp_apply]

end Sorted

lemma termTrees_eq_map (number : Numeral → Cel.Expr) (ts : List Term) :
    termTrees isPrint number ts =
      ts.map (fun t => ((term isPrint t).toOption.getD "", termTree isPrint number t)) := by
  induction ts with
  | nil => rfl
  | cons t ts ih => rw [termTrees, ih, map_cons]

mutual

/-- The text of a term is that of its tree just if none of its numbers is written as a string. -/
lemma termTree_eq_iff (t : Term) : termTree isPrint numberExpr t = termTree isPrint numberTree t ↔
      termOk numeric (fun _ => true) t = true := by
  cases t with
  | number n => exact numberExpr_eq_iff n
  | ref r => simp [termTree, termOk, segmentsOk_true]
  | array elements =>
    rw [termTree, termTree, termOk, Cel.Expr.list.injEq, termTrees_eq_map, termTrees_eq_map,
      map_map, map_map, map_inj_left]
    exact termTrees_eq_iff elements
  | set elements =>
    rw [termTree, termTree, termOk, Cel.Expr.list.injEq, termTrees_eq_map, termTrees_eq_map,
      sorted_eq_iff]
    exact termTrees_eq_iff elements
  | _ => simp [termTree, termOk]

lemma termTrees_eq_iff (ts : List Term) :
    (∀ t ∈ ts, termTree isPrint numberExpr t = termTree isPrint numberTree t) ↔
      termOkAll numeric (fun _ => true) ts = true := by
  cases ts with
  | nil => simp [termOkAll]
  | cons t ts =>
    rw [forall_mem_cons, termTree_eq_iff t, termTrees_eq_iff ts, termOkAll, Bool.and_eq_true]

end

variable {s : String}

lemma termsTree_eq_iff {ts : Terms} (h : Accepted isPrint ts s) :
    termsTree isPrint numberExpr ts = termsTree isPrint numberTree ts ↔
      termsOk numeric (fun _ => true) ts = true := by
  cases h with
  | operation hl hr =>
    rw [termsTree_operation, termsTree_operation, Cel.Expr.bin.injEq, termTree_eq_iff,
      termTree_eq_iff]
    simp [termsOk, termOkAll]
  | term h => exact termTree_eq_iff _

lemma exprTree_eq_iff {e : Expr} (h : expr isPrint isBuiltin e = .ok s) :
    exprTree isPrint numberExpr e = exprTree isPrint numberTree e ↔
      termsOk numeric (fun _ => true) e.terms = true := by
  obtain ⟨u, hu, -⟩ := expr_accepted h
  rw [← termsTree_eq_iff hu]
  unfold exprTree
  split <;> simp

variable {b : List Expr}

lemma exprs_accepted {ts : List String} (h : exprs isPrint isBuiltin b = .ok ts) :
    ∀ e ∈ b, ∃ s, expr isPrint isBuiltin e = .ok s := by
  induction b generalizing ts with
  | nil => simp
  | cons e b ih =>
    obtain ⟨s, hs, h⟩ := bind_eq_ok.mp h
    obtain ⟨rest, hrest, h⟩ := bind_eq_ok.mp h
    exact List.forall_mem_cons.mpr ⟨⟨s, hs⟩, ih hrest⟩

lemma body_accepted (h : body isPrint isBuiltin b = .ok s) :
    ∀ e ∈ b, ∃ s, expr isPrint isBuiltin e = .ok s := by
  unfold body at h
  split at h
  · rename_i hlen
    rw [length_eq_zero_iff] at hlen
    simp [hlen]
  · obtain ⟨terms, hterms, -⟩ := bind_eq_ok.mp h
    exact exprs_accepted hterms

lemma bodyTree_eq_iff (h : body isPrint isBuiltin b = .ok s) :
    bodyTree isPrint numberExpr b = bodyTree isPrint numberTree b ↔
      bodyOk numeric (fun _ => true) b = true := by
  rw [bodyTree, bodyTree, join_inj (by simp), map_inj_left, bodyOk, all_eq_true]
  refine forall₂_congr (fun e he => ?_)
  obtain ⟨u, hu⟩ := body_accepted h e he
  exact exprTree_eq_iff hu

mutual

lemma termOk_and (segment : String → Bool) (t : Term) : termOk numeralOk segment t =
      (termOk intOk segment t && termOk numeric (fun _ => true) t) := by
  cases t with
  | number n => exact numeralOk_eq n
  | ref r => simp [termOk, segmentsOk_true]
  | array elements => exact termOkAll_and segment elements
  | set elements => exact termOkAll_and segment elements
  | _ => rfl

lemma termOkAll_and (segment : String → Bool) (ts : List Term) : termOkAll numeralOk segment ts =
      (termOkAll intOk segment ts && termOkAll numeric (fun _ => true) ts) := by
  cases ts with
  | nil => rfl
  | cons t ts =>
    rw [termOkAll, termOkAll, termOkAll, termOk_and segment t, termOkAll_and segment ts]
    cases termOk intOk segment t <;> cases termOk numeric (fun _ => true) t <;>
      cases termOkAll intOk segment ts <;> rfl

end

lemma termsOk_and (segment : String → Bool) (ts : Terms) : termsOk numeralOk segment ts =
      (termsOk intOk segment ts && termsOk numeric (fun _ => true) ts) := by
  cases ts with
  | call operator operands => exact termOkAll_and segment operands
  | term t => exact termOk_and segment t
  | _ => rfl

lemma bodyOk_and (segment : String → Bool) (b : List Expr) : bodyOk numeralOk segment b = true ↔
      bodyOk intOk segment b = true ∧ bodyOk numeric (fun _ => true) b = true := by
  simp only [bodyOk, all_eq_true, termsOk_and, Bool.and_eq_true, ← forall₂_and]

lemma segmentsOk_of_inRange {rest : List Term} {e : Cel.Expr}
    (h : (segmentsTree e rest).inRange = true) :
    e.inRange = true ∧ segmentsOk isSelector rest = true := by
  induction rest generalizing e with
  | nil => exact ⟨h, rfl⟩
  | cons t rest ih =>
    cases t with
    | string s =>
      obtain ⟨hselect, hrest⟩ := ih h
      rw [Cel.Expr.inRange, Bool.and_eq_true] at hselect
      exact ⟨hselect.1, by rw [segmentsOk, hselect.2, hrest]; rfl⟩
    | _ => exact ih h

lemma intOk_of_inRange {n : Numeral} (h : (numberTree n).inRange = true) : intOk n = true := by
  unfold numberTree at h
  split at h
  · rename_i hn
    rw [Cel.Expr.inRange, Literal.inRange, Bool.and_eq_true] at h
    rw [intOk, parsesInt, hn, h.1, h.2]
    rfl
  · rename_i hn
    simp [intOk, hn]

lemma inRangeAll_iff (es : List Cel.Expr) : inRangeAll es = true ↔ ∀ e ∈ es, e.inRange = true := by
  induction es with
  | nil => simp [inRangeAll]
  | cons e es ih => simp [inRangeAll, ih]

mutual

lemma termOk_of_inRange (t : Term) (h : (termTree isPrint numberTree t).inRange = true) :
    termOk intOk isSelector t = true := by
  cases t with
  | number n => exact intOk_of_inRange h
  | ref r => exact (segmentsOk_of_inRange h).2
  | array elements =>
    rw [termTree, Cel.Expr.inRange, inRangeAll_iff, termTrees_eq_map] at h
    refine termOkAll_of_inRange elements (fun t ht => h _ ?_)
    simp only [map_map, mem_map]
    exact ⟨t, ht, rfl⟩
  | set elements =>
    rw [termTree, Cel.Expr.inRange, inRangeAll_iff, termTrees_eq_map] at h
    refine termOkAll_of_inRange elements (fun t ht => h _ ?_)
    rw [mem_map]
    exact ⟨_, List.mem_mergeSort.mpr (mem_map_of_mem ht), rfl⟩
  | _ => rfl

lemma termOkAll_of_inRange (ts : List Term)
    (h : ∀ t ∈ ts, (termTree isPrint numberTree t).inRange = true) :
    termOkAll intOk isSelector ts = true := by
  cases ts with
  | nil => rfl
  | cons t ts =>
    rw [forall_mem_cons] at h
    rw [termOkAll, termOk_of_inRange t h.1, termOkAll_of_inRange ts h.2]
    rfl

end

lemma termsOk_of_inRange {ts : Terms} (hts : Accepted isPrint ts s)
    (h : (termsTree isPrint numberTree ts).inRange = true) :
    termsOk intOk isSelector ts = true := by
  cases hts with
  | operation hl hr =>
    rw [termsTree_operation, Cel.Expr.inRange, Bool.and_eq_true] at h
    simp [termsOk, termOkAll, termOk_of_inRange _ h.1, termOk_of_inRange _ h.2]
  | term ht => exact termOk_of_inRange _ h

lemma bodyOk_of_inRange (hb : body isPrint isBuiltin b = .ok s)
    (h : (bodyTree isPrint numberTree b).inRange = true) : bodyOk intOk isSelector b = true := by
  rw [bodyTree, inRange_join rfl, all_map, all_eq_true] at h
  rw [bodyOk, all_eq_true]
  intro e he
  obtain ⟨u, hu⟩ := body_accepted hb e he
  obtain ⟨v, hv, -⟩ := expr_accepted hu
  have htree : (exprTree isPrint numberTree e).inRange = true := h e he
  refine termsOk_of_inRange hv ?_
  unfold exprTree at htree
  split at htree
  · simpa [Cel.Expr.inRange] using htree
  · exact htree

/-- The text of a body is read as its tree just if its segments are selectors and its numbers
are in range. -/
theorem body_parse_iff {b : List Expr} {s : String} (h : body isPrint isBuiltin b = .ok s) :
    parse s = some (bodyTree isPrint numberTree b) ↔ bodyOk numeralOk isSelector b = true := by
  rw [bodyOk_and]
  constructor
  · intro hparse
    have hok := bodyOk_of_inRange h (parse_inRange hparse)
    have htrees := Option.some.inj ((body_reads h hok).1.symm.trans hparse)
    exact ⟨hok, (bodyTree_eq_iff h).mp htrees⟩
  · rintro ⟨hok, hnumeric⟩
    rw [(body_reads h hok).1, (bodyTree_eq_iff h).mpr hnumeric]

/-- The same for the text of a module. -/
theorem translateRego_parse_iff {rules : List Rule} {ruleName : String} {res : Result}
    (h : translateRego isPrint isBuiltin (some rules) ruleName = .ok res) :
    parse res.cel = some (rulesTree isPrint numberTree (decisionName ruleName) rules) ↔
      rulesOk numeralOk isSelector (decisionName ruleName) rules = true := by
  obtain ⟨rules', texts, hmod, hne, htext, hbodies⟩ := translateRego_ok h
  cases hmod
  have haccepted : ∀ r ∈ chosen (decisionName ruleName) rules,
      ∃ t, body isPrint isBuiltin r.body = .ok t := fun r hr => exists_of_forall₂ hbodies hr
  rw [htext, rulesOk, all_eq_true]
  constructor
  · intro hparse r hr
    have hrange := parse_inRange hparse
    rw [rulesTree, inRange_join rfl, all_map, all_eq_true] at hrange
    have hok : rulesOk intOk isSelector (decisionName ruleName) rules = true := by
      rw [rulesOk, all_eq_true]
      intro r hr
      obtain ⟨t, ht⟩ := haccepted r hr
      exact bodyOk_of_inRange ht (hrange r hr)
    have htrees := Option.some.inj ((rules_parse hne hbodies hok).symm.trans hparse)
    rw [rulesTree, rulesTree, join_inj (by simp), map_inj_left] at htrees
    obtain ⟨t, ht⟩ := haccepted r hr
    rw [rulesOk, all_eq_true] at hok
    exact (bodyOk_and isSelector r.body).mpr ⟨hok r hr, (bodyTree_eq_iff ht).mp (htrees r hr)⟩
  · intro hok
    have hreadable : rulesOk intOk isSelector (decisionName ruleName) rules = true := by
      rw [rulesOk, all_eq_true]
      exact fun r hr => ((bodyOk_and isSelector r.body).mp (hok r hr)).1
    rw [rules_parse hne hbodies hreadable, rulesTree]
    congr 2
    refine map_congr_left (fun r hr => ?_)
    obtain ⟨t, ht⟩ := haccepted r hr
    exact (bodyTree_eq_iff ht).mpr ((bodyOk_and isSelector r.body).mp (hok r hr)).2

end Symkernel.PolicyImport.Rego
