import Symkernel.Solver.Output

/-!
# The three readers of Z3's output
-/

namespace Symkernel.Solver

open Library List

def Z3.reading (output : Text) : Option (Status × Option Model) :=
  (Z3.parseOutput output).toOption.map fun s => (s.sat, s.model)

def Smt.reading (output : Text) : Option (Status × Option Model) :=
  (Smt.parseOutput output).toOption.map fun s => (s.sat, s.model)

def Verify.reading (output : Text) : Option (Status × Option Model) :=
  (Verify.parseOutput output).toOption.map fun r => (r.sat, r.model)

def FrontEndsAgree (output : Text) : Prop :=
  Z3.reading output = Smt.reading output ∧ Smt.reading output = Verify.reading output

def bindAll (m : Model) (lines : List Text) : Model :=
  lines.foldl (fun m line => bindCompact m (Text.trimSpace line)) m

variable {line name value : Text}

lemma compactBinding_skipped (h : skipsCompact line = true) : compactBinding line = none := by
  simp only [skipsCompact, mem_cons, not_mem_nil, or_false, decide_eq_true_eq] at h
  obtain rfl | rfl | rfl := h <;> decide

lemma bindCompact_of_none (m : Model) (h : compactBinding line = none) :
    bindCompact m line = m := by
  simp [bindCompact, h]

lemma compactModel_eq (lines : List Text) : compactModel lines = nonempty (bindAll ∅ lines) := by
  have hstep : (fun (m : Model) line => let line := Text.trimSpace line
      if skipsCompact line then m else bindCompact m line) =
      fun m line => bindCompact m (Text.trimSpace line) := by
    funext m line
    simp only
    split
    · rename_i hskip
      rw [bindCompact_of_none m (compactBinding_skipped hskip)]
    · rfl
  rw [compactModel, hstep]
  rfl

lemma mem_bindCompact {m : Model} (h : name ∈ m) : name ∈ bindCompact m line := by
  unfold bindCompact
  split
  · exact Finmap.mem_insert.mpr (Or.inr h)
  · exact h

variable {lines : List Text}

lemma mem_bindAll {m : Model} (h : name ∈ m) : name ∈ bindAll m lines := by
  induction lines generalizing m with
  | nil => exact h
  | cons line lines ih => exact ih (mem_bindCompact h)

lemma mem_bindAll_of_binding (hline : line ∈ lines)
    (h : compactBinding (Text.trimSpace line) = some (name, value)) (m : Model) :
    name ∈ bindAll m lines := by
  induction lines generalizing m with
  | nil => cases hline
  | cons first lines ih =>
    obtain rfl | hline := List.mem_cons.mp hline
    · have hhead : name ∈ bindCompact m (Text.trimSpace line) := by
        rw [bindCompact, h]
        exact Finmap.mem_insert.mpr (Or.inl rfl)
      rw [bindAll, foldl_cons]
      exact mem_bindAll hhead
    · exact ih hline _

lemma bindAll_of_none (h : ∀ line ∈ lines, compactBinding (Text.trimSpace line) = none)
    (m : Model) : bindAll m lines = m := by
  induction lines generalizing m with
  | nil => rfl
  | cons line lines ih =>
    have hhead := bindCompact_of_none m (h line mem_cons_self)
    rw [bindAll, foldl_cons, hhead]
    exact ih (fun l hl => h l (mem_cons_of_mem line hl)) m

def entryBody (line : Text) : Text :=
  Text.trimSuffix ')' (line.drop "(define-fun ".length)

def entryKeyword (line : Text) : Text :=
  if line.getLast? = some ')' then "define-fun".toList else "(define-fun".toList

lemma stripParens_entry (h : Z3.isEntry line = true) :
    stripParens line = entryKeyword line ++ ' ' :: entryBody line := by
  obtain ⟨rest, rfl⟩ := List.isPrefixOf_iff_prefix.mp h
  have hdrop : ("(define-fun ".toList ++ rest).drop "(define-fun ".length = rest := rfl
  rw [entryBody, hdrop, entryKeyword]
  cases hlast : rest.getLast? with
  | none =>
    rw [List.getLast?_eq_none_iff.mp hlast]
    decide
  | some c =>
    have hline : ("(define-fun ".toList ++ rest).getLast? = some c := by
      rw [List.getLast?_append, hlast]
      rfl
    have htail : ("define-fun ".toList ++ rest).getLast? = some c := by
      rw [List.getLast?_append, hlast]
      rfl
    have hcons : "(define-fun ".toList ++ rest = '(' :: ("define-fun ".toList ++ rest) := rfl
    rw [hline, Text.trimSuffix, hlast]
    by_cases hc : some c = some ')'
    · have hpair : stripPair ("(define-fun ".toList ++ rest) =
          some ("define-fun ".toList ++ rest).dropLast := by
        rw [hcons, stripPair_cons, htail, if_pos hc]
      have hne : rest ≠ [] := fun hnil => by
        rw [hnil] at hlast
        cases hlast
      rw [stripParens_of_some hpair, if_pos hc, if_pos hc, dropLast_append_of_ne_nil hne]
      exact stripParens_of_none rfl
    · have hpair : stripPair ("(define-fun ".toList ++ rest) = none := by
        rw [hcons, stripPair_cons, htail, if_neg hc]
      rw [stripParens_of_none hpair, if_neg hc, if_neg hc]
      rfl

lemma fields_entry (h : Z3.isEntry line = true) :
    Text.fields (stripParens line) = entryKeyword line :: Text.fields (entryBody line) := by
  have hword : Text.fields (entryKeyword line) = [entryKeyword line] := by
    unfold entryKeyword
    split <;> decide
  rw [stripParens_entry h, Text.fields, fieldsBy_append_cons _ _ (by decide), ← Text.fields, hword]
  rfl

lemma readEntry_of_none (h : Z3.isEntry line = true) (hnone : compactBinding line = none)
    (m : Model) : Z3.readEntry m line = ⟨m, []⟩ := by
  have hbody : Text.fields (entryBody line) = [] := by
    unfold compactBinding at hnone
    rw [fields_entry h] at hnone
    cases hf : Text.fields (entryBody line) with
    | nil => rfl
    | cons value values =>
      rw [hf] at hnone
      cases hnone
  unfold Z3.readEntry
  simp only
  rw [← entryBody, hbody]

lemma compactBinding_entry (h : Z3.isEntry line = true)
    (hsome : compactBinding line = some (name, value)) :
    name = "define-fun".toList ∨ name = "(define-fun".toList := by
  unfold compactBinding at hsome
  rw [fields_entry h] at hsome
  have hname : name = entryKeyword line := by
    cases hf : Text.fields (entryBody line) with
    | nil =>
      rw [hf] at hsome
      cases hsome
    | cons first values =>
      rw [hf] at hsome
      cases hsome
      rfl
  rw [hname, entryKeyword]
  split
  · exact Or.inl rfl
  · exact Or.inr rfl

lemma isError_of_skips (h : Z3.skipsModel line = true) : Z3.isError line = false := by
  simp only [Z3.skipsModel, mem_cons, not_mem_nil, or_false, decide_eq_true_eq] at h
  obtain rfl | rfl | rfl | rfl | rfl | rfl := h <;> decide

lemma compactBinding_skips (h : Z3.skipsModel line = true) : compactBinding line = none := by
  simp only [Z3.skipsModel, mem_cons, not_mem_nil, or_false, decide_eq_true_eq] at h
  obtain rfl | rfl | rfl | rfl | rfl | rfl := h <;> decide

lemma readLine_error (h : Z3.isError (Text.trimSpace line) = true) (s : Z3.Reading) :
    Z3.readLine s line = none := by
  have hskip : Z3.skipsModel (Text.trimSpace line) ≠ true := fun hskip => by
    rw [isError_of_skips hskip] at h
    cases h
  simp only [Z3.readLine, if_neg hskip, if_pos h]

lemma readLine_compact (herror : Z3.isError (Text.trimSpace line) = false)
    (hentry : Z3.isEntry (Text.trimSpace line) = true →
      compactBinding (Text.trimSpace line) = none) (m : Model) :
    Z3.readLine ⟨m, []⟩ line = some ⟨bindCompact m (Text.trimSpace line), []⟩ := by
  simp only [Z3.readLine, herror, if_neg Bool.false_ne_true]
  split
  · rename_i hskip
    rw [bindCompact_of_none m (compactBinding_skips hskip)]
  · split
    · rename_i hisEntry
      have hnone := hentry hisEntry
      rw [readEntry_of_none hisEntry hnone, bindCompact_of_none m hnone]
    · rfl

lemma foldlM_readLine_error (hline : line ∈ lines) (h : Z3.isError (Text.trimSpace line) = true)
    (s : Z3.Reading) : lines.foldlM Z3.readLine s = none := by
  induction lines generalizing s with
  | nil => cases hline
  | cons first lines ih =>
    rw [foldlM_cons]
    obtain rfl | hline := List.mem_cons.mp hline
    · rw [readLine_error h]
      rfl
    · cases hfirst : Z3.readLine s first with
      | none => rfl
      | some s' => exact ih hline s'

lemma foldlM_readLine_compact (herror : ∀ line ∈ lines, Z3.isError (Text.trimSpace line) = false)
    (hentry : ∀ line ∈ lines, Z3.isEntry (Text.trimSpace line) = true →
      compactBinding (Text.trimSpace line) = none) (m : Model) :
    lines.foldlM Z3.readLine ⟨m, []⟩ = some ⟨bindAll m lines, []⟩ := by
  induction lines generalizing m with
  | nil => rfl
  | cons line lines ih =>
    rw [foldlM_cons, readLine_compact (herror line mem_cons_self) (hentry line mem_cons_self)]
    exact ih (fun l hl => herror l (mem_cons_of_mem line hl))
      (fun l hl => hentry l (mem_cons_of_mem line hl)) _

/-- The lines of a model that the three readers take alike: no line has a binding if one is an
error line, and no entry has one otherwise. -/
def PlainModel (lines : List Text) : Prop :=
  if ∃ line ∈ lines, Z3.isError (Text.trimSpace line) = true then
    ∀ line ∈ lines, compactBinding (Text.trimSpace line) = none
  else
    ∀ line ∈ lines, Z3.isEntry (Text.trimSpace line) = true →
      compactBinding (Text.trimSpace line) = none

lemma parseModel_of_plain (h : PlainModel lines) : Z3.parseModel lines = compactModel lines := by
  unfold PlainModel at h
  rw [compactModel_eq, Z3.parseModel]
  split at h
  · rename_i herror
    obtain ⟨line, hline, herror⟩ := herror
    rw [foldlM_readLine_error hline herror, bindAll_of_none h]
    rfl
  · rename_i herror
    rw [foldlM_readLine_compact (fun line hline => ?_) h]
    · rfl
    · exact Bool.eq_false_iff.mpr fun hl => herror ⟨line, hline, hl⟩

/-- The reserved word is bound like a name. -/
def NamesKeyword (m : Option Model) : Prop :=
  ∃ m' ∈ m, "define-fun".toList ∈ m' ∨ "(define-fun".toList ∈ m'

lemma nonempty_of_mem {m : Model} (h : name ∈ m) : nonempty m = some m := by
  unfold nonempty
  rw [if_neg]
  rintro rfl
  exact Finmap.notMem_empty h

lemma plain_of_parseModel (h : Z3.parseModel lines = compactModel lines) :
    PlainModel lines ∨ NamesKeyword (Z3.parseModel lines) := by
  rw [compactModel_eq] at h
  by_cases herror : ∃ line ∈ lines, Z3.isError (Text.trimSpace line) = true
  · left
    rw [PlainModel, if_pos herror]
    obtain ⟨line, hline, herror⟩ := herror
    rw [Z3.parseModel, foldlM_readLine_error hline herror] at h
    intro l hl
    cases hbind : compactBinding (Text.trimSpace l) with
    | none => rfl
    | some binding =>
      rw [nonempty_of_mem (mem_bindAll_of_binding hl hbind ∅)] at h
      cases h
  · rw [PlainModel, if_neg herror]
    by_cases hentry : ∀ line ∈ lines, Z3.isEntry (Text.trimSpace line) = true →
        compactBinding (Text.trimSpace line) = none
    · exact Or.inl hentry
    · right
      push Not at hentry
      obtain ⟨line, hline, hisEntry, hbind⟩ := hentry
      obtain ⟨⟨name, value⟩, hbind⟩ := Option.ne_none_iff_exists'.mp hbind
      have hmem := mem_bindAll_of_binding hline hbind ∅
      rw [nonempty_of_mem hmem] at h
      refine ⟨bindAll ∅ lines, h, ?_⟩
      obtain rfl | rfl := compactBinding_entry hisEntry hbind
      · exact Or.inl hmem
      · exact Or.inr hmem

lemma smt_reading_eq_verify (output : Text) : Smt.reading output = Verify.reading output := by
  unfold Smt.reading Verify.reading Smt.parseOutput Verify.parseOutput
  split
  · rfl
  · split_ifs <;> rfl

lemma z3_reading_eq_smt_iff (output : Text) : Z3.reading output = Smt.reading output ↔
    ∀ lines, Text.split '\n' (Text.trimSpace output) = "sat".toList :: lines →
      Z3.parseModel lines = compactModel lines := by
  unfold Z3.reading Smt.reading Z3.parseOutput Smt.parseOutput
  cases Text.split '\n' (Text.trimSpace output) with
  | nil => exact iff_of_true rfl fun lines h => by cases h
  | cons first lines =>
    by_cases hfirst : first = "sat".toList
    · subst hfirst
      have hne : ¬("sat".toList = [] ∧ lines = []) := fun h => absurd h.1 (by decide)
      simp only [if_neg hne, if_true, Except.toOption, Option.map_some, Option.some_inj,
        Prod.mk.injEq, true_and]
      constructor
      · rintro h lines' hlines
        cases hlines
        exact h
      · exact fun h => h lines rfl
    · refine iff_of_true ?_ fun lines' h => absurd (List.cons.inj h).1 hfirst
      by_cases hempty : first = [] ∧ lines = []
      · obtain ⟨rfl, rfl⟩ := hempty
        rfl
      · simp only [if_neg hfirst]
        split_ifs <;> rfl

def PlainOutput (output : Text) : Prop :=
  ∀ lines, Text.split '\n' (Text.trimSpace output) = "sat".toList :: lines → PlainModel lines

/-- The reader of `internal/z3` finds a name that is spelled like the keyword of an entry. -/
def KeywordBound (output : Text) : Prop :=
  ∃ lines, Text.split '\n' (Text.trimSpace output) = "sat".toList :: lines ∧
    NamesKeyword (Z3.parseModel lines)

/-- Plain outputs are read alike. No others are, unless the keyword of an entry is also a name
in the model. -/
theorem front_ends_agree_iff_plain (output : Text) : (PlainOutput output → FrontEndsAgree output) ∧
      (¬KeywordBound output → (FrontEndsAgree output ↔ PlainOutput output)) := by
  have hplain : PlainOutput output → FrontEndsAgree output := fun h =>
    ⟨(z3_reading_eq_smt_iff output).mpr fun lines hlines => parseModel_of_plain (h lines hlines),
      smt_reading_eq_verify output⟩
  refine ⟨hplain, fun hkeyword => ⟨fun hagree lines hlines => ?_, hplain⟩⟩
  have hmodel := (z3_reading_eq_smt_iff output).mp hagree.1 lines hlines
  exact (plain_of_parseModel hmodel).resolve_right fun h => hkeyword ⟨lines, hlines, h⟩

theorem define_fun_read_differently : ¬FrontEndsAgree "sat\n(define-fun x () Int 6)".toList ∧
      Z3.reading "sat\n(define-fun x () Int 6)".toList =
        some (.sat, some (Finmap.singleton "x".toList "6".toList)) ∧
      Smt.reading "sat\n(define-fun x () Int 6)".toList =
        some (.sat, some (Finmap.singleton "define-fun".toList "x".toList)) := by
  have hz3 : Z3.reading "sat\n(define-fun x () Int 6)".toList =
      some (.sat, some (Finmap.singleton "x".toList "6".toList)) := by decide
  have hsmt : Smt.reading "sat\n(define-fun x () Int 6)".toList =
      some (.sat, some (Finmap.singleton "define-fun".toList "x".toList)) := by decide
  refine ⟨fun h => ?_, hz3, hsmt⟩
  have heq := h.1
  rw [hz3, hsmt] at heq
  revert heq
  decide

end Symkernel.Solver
