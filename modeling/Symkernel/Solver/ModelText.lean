import Symkernel.Library.SmtLib.Terms
import Symkernel.Solver.Output

/-!
# Printed models

The three layouts that the comment on `parseModel` of `internal/z3/z3.go` describes, and which
entries printed in them are read back.
-/

namespace Symkernel.Solver

open Library Library.SmtLib Library.Text List

structure Entry where
  name : Symbol
  sort : SmtSort
  value : Value sort

inductive Layout where
  | compact
  | singleLine
  | twoLine
  deriving DecidableEq, Repr

inductive Envelope where
  | absent
  | bare
  | named
  deriving DecidableEq, Repr

def Envelope.opening : Envelope → List Text
  | absent => []
  | bare => ["(".toList]
  | named => ["(model".toList]

def Envelope.closing : Envelope → List Text
  | absent => []
  | bare | named => [")".toList]

def indented (indent : Nat) (line : Text) : Text :=
  List.replicate indent ' ' ++ line

namespace Entry

/-- `((x 6))`. -/
def compactLine (e : Entry) : Text :=
  parens [parens [e.name.text, e.value.text]]

/-- `(define-fun x () Int 6)`. -/
def singleLine (e : Entry) : Text :=
  parens ["define-fun".toList, e.name.text, "()".toList, e.sort.text, e.value.text]

/-- `(define-fun x () Int`. -/
def headerLine (e : Entry) : Text :=
  '(' :: join ["define-fun".toList, e.name.text, "()".toList, e.sort.text]

/-- `6)`. -/
def valueLine (e : Entry) : Text :=
  e.value.text ++ [')']

def lines (indent : Nat) (e : Entry) : Layout → List Text
  | .compact => [indented indent e.compactLine]
  | .singleLine => [indented indent e.singleLine]
  | .twoLine => [indented indent e.headerLine, indented (indent + 2) e.valueLine]

end Entry

def printedModel (envelope : Envelope) (indent : Nat) (layout : Layout) (entries : List Entry) :
    List Text :=
  envelope.opening ++ entries.flatMap (fun e => e.lines indent layout) ++ envelope.closing

def printed (envelope : Envelope) (indent : Nat) (layout : Layout) (entries : List Entry) : Text :=
  ("sat".toList :: printedModel envelope indent layout entries).flatMap (· ++ ['\n'])

/-! ### The lines are taken apart -/

namespace Z3

lemma isEntry_append (rest : Text) : isEntry ("(define-fun ".toList ++ rest) = true :=
  List.isPrefixOf_iff_prefix.mpr (prefix_append _ _)

lemma readLine_entry (s : Reading) (indent : Nat) {rest : Text}
    (hspaced : Spaced ("(define-fun ".toList ++ rest)) :
    readLine s (indented indent ("(define-fun ".toList ++ rest)) =
      some (readEntry s.m ("(define-fun ".toList ++ rest)) := by
  have hskip : ¬skipsModel ("(define-fun ".toList ++ rest) = true := by
    intro h
    simp only [skipsModel, mem_cons, not_mem_nil, or_false, decide_eq_true_eq] at h
    have hentry := isEntry_append rest
    obtain h | h | h | h | h | h := h <;> rw [h] at hentry <;> exact absurd hentry (by decide)
  have herror : ¬isError ("(define-fun ".toList ++ rest) = true := by
    intro h
    cases h
  simp only [readLine, indented, hspaced.trimSpace_indented, if_neg hskip, if_neg herror,
    if_pos (isEntry_append rest)]

lemma readEntry_value (m : Model) {rest name f w : Text} {ws : List Text}
    (h : fields (trimSuffix ')' rest) = name :: "()".toList :: f :: w :: ws) :
    readEntry m ("(define-fun ".toList ++ rest) = ⟨m.insert name (join (w :: ws)), []⟩ := by
  have hdrop : ("(define-fun ".toList ++ rest).drop "(define-fun ".length = rest := rfl
  unfold readEntry
  simp only [hdrop, h, if_true]

lemma readEntry_header (m : Model) {rest name f : Text}
    (h : fields (trimSuffix ')' rest) = [name, "()".toList, f]) :
    readEntry m ("(define-fun ".toList ++ rest) = ⟨m, name⟩ := by
  have hdrop : ("(define-fun ".toList ++ rest).drop "(define-fun ".length = rest := rfl
  unfold readEntry
  simp only [hdrop, h, if_true]

structure Plain (line : Text) : Prop where
  spaced : Spaced line
  closed : line.getLast? = some ')'
  long : 2 ≤ line.length
  second : ∀ c rest, line = '(' :: c :: rest → c ≠ 'e' ∧ c ≠ 'd'

namespace Plain

variable {line : Text}

lemma skipsModel (h : Plain line) : ¬skipsModel line = true := by
  intro hskip
  simp only [Z3.skipsModel, mem_cons, not_mem_nil, or_false, decide_eq_true_eq] at hskip
  have hclosed := h.closed
  have hlong := h.long
  obtain rfl | rfl | rfl | rfl | rfl | rfl := hskip
  · exact absurd hlong (by decide)
  · exact absurd hclosed (by decide)
  · exact absurd hlong (by decide)
  · exact absurd hlong (by decide)
  · exact absurd hclosed (by decide)
  · exact absurd hclosed (by decide)

lemma isError (h : Plain line) : ¬isError line = true := by
  intro herror
  obtain ⟨rest, rfl⟩ := List.isPrefixOf_iff_prefix.mp herror
  exact (h.second 'e' _ rfl).1 rfl

lemma isEntry (h : Plain line) : ¬isEntry line = true := by
  intro hentry
  obtain ⟨rest, rfl⟩ := List.isPrefixOf_iff_prefix.mp hentry
  exact (h.second 'd' _ rfl).2 rfl

lemma readLine_compact (h : Plain line) (m : Model) (indent : Nat) :
    readLine ⟨m, []⟩ (indented indent line) = some ⟨bindCompact m line, []⟩ := by
  simp only [readLine, indented, h.spaced.trimSpace_indented, if_neg h.skipsModel,
    if_neg h.isError, if_neg h.isEntry]
  rfl

lemma readLine_value (h : Plain line) {s : Reading} (hs : s.pendingName ≠ []) (indent : Nat) :
    readLine s (indented indent line) = some (readValue s line) := by
  simp only [readLine, indented, h.spaced.trimSpace_indented, if_neg h.skipsModel,
    if_neg h.isError, if_neg h.isEntry, if_pos hs]

end Plain

end Z3

lemma stripPair_wrapped (t : Text) : stripPair ('(' :: (t ++ [')'])) = some t := by
  rw [stripPair_cons, List.getLast?_concat, if_pos rfl, dropLast_concat]

lemma stripPair_parens (items : List Text) : stripPair (parens items) = some (join items) :=
  stripPair_wrapped (join items)

lemma stripPair_of_head {line : Text} (h : line.head? ≠ some '(') : stripPair line = none := by
  unfold stripPair
  split
  · exact absurd rfl h
  · rfl

/-! ### What is read of one entry -/

/-- Texts that no value has: the rest of a sort, a text cut at a parenthesis, or the word that
follows `as` in a constant array. -/
def Broken (t : Text) : Prop :=
  (∃ w x xs, fields t = w :: x :: xs ∧ w ∈ SmtSort.heads) ∨ ¬Matched t ∨ t = "const".toList

lemma not_broken {s : SmtSort} (v : Value s) : ¬Broken v.text := by
  rintro (⟨w, x, xs, hfields, hhead⟩ | hunmatched | hconst)
  · cases hv : v.isAtomic with
    | true =>
      rw [(v.isAtom_text hv).1.fields] at hfields
      cases hfields
    | false =>
      obtain ⟨w', x', xs', hfields', hhead'⟩ := v.fields_text_parens hv
      rw [hfields'] at hfields
      cases hfields
      have hdisjoint : ∀ w ∈ Value.heads, ('(' :: w) ∉ SmtSort.heads := by decide
      exact hdisjoint w' hhead' hhead
  · exact hunmatched v.matched_text
  · cases v with
    | numeral n =>
      have hc : 'c' ∈ Nat.toDigits 10 n := by
        rw [show Nat.toDigits 10 n = "const".toList from hconst]
        decide
      exact absurd (Nat.isDigit_of_mem_toDigits (by omega) (by omega) hc) (by decide)
    | boolean b => cases b <;> exact absurd hconst (by decide)
    | decimal whole digit digits =>
      have hdot : '.' ∈ "const".toList := by
        rw [← hconst]
        exact mem_append_right _ mem_cons_self
      exact absurd hdot (by decide)
    | hex digit digits => cases hconst
    | binary bit bits => cases hconst
    | negative n => cases hconst
    | minus v => cases hconst
    | quotient v w => cases hconst
    | constant v => cases hconst
    | store a i v => cases hconst

lemma broken_head {w : Text} (h : w ∈ Value.heads) : Broken ('(' :: w) := by
  have hunmatched : ∀ w ∈ Value.heads, ¬Matched ('(' :: w) := by
    unfold Matched
    decide
  exact Or.inr (Or.inl (hunmatched w h))

lemma broken_join {w x : Text} {xs : List Text} (hwords : ∀ v ∈ w :: x :: xs, IsWord v)
    (h : w ∈ SmtSort.heads) : Broken (join (w :: x :: xs)) :=
  Or.inl ⟨w, x, xs, fields_join hwords, h⟩

def Spoils (m m' : Model) : Prop :=
  ∀ k t, m'.lookup k = some t → m.lookup k = some t ∨ Broken t

lemma spoils_insert (m : Model) (k : Text) {t : Text} (h : Broken t) : Spoils m (m.insert k t) := by
  intro k' t' hlookup
  by_cases hk : k' = k
  · rw [hk, Finmap.lookup_insert] at hlookup
    cases hlookup
    exact Or.inr h
  · rw [Finmap.lookup_insert_of_ne _ hk] at hlookup
    exact Or.inl hlookup

namespace Entry

variable (e : Entry)

def readable : Layout → Bool
  | .compact => e.value.isAtomic
  | .singleLine => e.sort.isSymbol
  | .twoLine => e.sort.isSymbol && e.value.isAtomic

lemma name_head : e.name.text.head? ≠ some '(' := by
  intro h
  exact e.name.isAtom.2.1 (List.mem_of_mem_head? h)

lemma plain_compactLine : Z3.Plain e.compactLine where
  spaced := spaced_parens (spaced_parens ⟨e.name.isAtom.spaced, e.value.spaced_text⟩)
  closed := List.getLast?_concat
  long := by simp [compactLine, parens]
  second c rest h := by
    cases h
    decide

lemma read_compact (m : Model) (indent : Nat) {w : Text} {ws : List Text}
    (hw : fields e.value.text = w :: ws) :
    (e.lines indent .compact).foldlM Z3.readLine ⟨m, []⟩ = some ⟨m.insert e.name.text w, []⟩ := by
  have hstrip : stripParens e.compactLine = join [e.name.text, e.value.text] := by
    have hnone : stripPair (join [e.name.text, e.value.text]) = none := by
      refine stripPair_of_head ?_
      rw [join_cons _ (cons_ne_nil _ _), List.head?_append_of_ne_nil _ e.name.isAtom.1.ne_nil]
      exact e.name_head
    rw [compactLine, stripParens_of_some (stripPair_parens _), join_singleton,
      stripParens_of_some (stripPair_parens _), stripParens_of_none hnone]
  have hbinding : compactBinding e.compactLine = some (e.name.text, w) := by
    refine compactBinding_of_fields (show fields (stripParens e.compactLine) = _ :: w :: ws from ?_)
    rw [hstrip, fields_join_eq_flatMap]
    simp [e.name.isAtom.1.fields, hw]
  rw [lines, foldlM_cons, e.plain_compactLine.readLine_compact, bindCompact, hbinding]
  rfl

lemma spaced_keyword : Spaced "define-fun".toList :=
  (isAtom_of_chars (by decide) rfl).spaced

lemma fields_args : fields "()".toList = ["()".toList] := by
  decide

lemma spaced_args : Spaced "()".toList :=
  Spaced.of_word ⟨by decide, List.forall_iff_forall_mem.mp ⟨rfl, rfl⟩⟩

lemma singleLine_eq : e.singleLine = "(define-fun ".toList ++
    (join [e.name.text, "()".toList, e.sort.text, e.value.text] ++ [')']) := by
  rw [singleLine, parens, join_cons _ (cons_ne_nil _ _)]
  simp

lemma headerLine_eq : e.headerLine =
    "(define-fun ".toList ++ join [e.name.text, "()".toList, e.sort.text] := by
  rw [headerLine, join_cons _ (cons_ne_nil _ _)]
  simp

lemma spaced_singleLine : Spaced e.singleLine :=
  spaced_parens ⟨spaced_keyword, e.name.isAtom.spaced, spaced_args, e.sort.spaced_text,
    e.value.spaced_text⟩

lemma spaced_headerLine : Spaced e.headerLine := by
  have hjoin : Spaced (join ["define-fun".toList, e.name.text, "()".toList, e.sort.text]) :=
    Spaced.join (cons_ne_nil _ _) (List.forall_iff_forall_mem.mp
      ⟨spaced_keyword, e.name.isAtom.spaced, spaced_args, e.sort.spaced_text⟩)
  obtain ⟨w, ws, -, -, hspaced⟩ := hjoin.fields_cons (show goIsSpace '(' = false by decide)
  exact hspaced

lemma read_singleLine (m : Model) (indent : Nat) {f w : Text} {ws : List Text}
    (hw : fields e.sort.text ++ fields e.value.text = f :: w :: ws) :
    (e.lines indent .singleLine).foldlM Z3.readLine ⟨m, []⟩ =
      some ⟨m.insert e.name.text (join (w :: ws)), []⟩ := by
  have hfields : fields (trimSuffix ')'
      (join [e.name.text, "()".toList, e.sort.text, e.value.text] ++ [')'])) =
      e.name.text :: "()".toList :: f :: w :: ws := by
    rw [trimSuffix_concat, fields_join_eq_flatMap]
    simp only [flatMap_cons, flatMap_nil, e.name.isAtom.1.fields, fields_args,
      append_nil, singleton_append, hw]
  have hspaced := e.spaced_singleLine
  rw [singleLine_eq] at hspaced
  rw [lines, foldlM_cons, singleLine_eq, Z3.readLine_entry _ _ hspaced,
    Z3.readEntry_value m hfields]
  rfl

/-! ### The layout with two lines -/

lemma plain_valueLine : Z3.Plain e.valueLine where
  spaced := e.value.spaced_text.concat (by decide)
  closed := List.getLast?_concat
  long := by
    obtain ⟨c, rest, htext⟩ := exists_cons_of_ne_nil (show e.value.text ≠ [] by
      intro h
      exact e.value.spaced_text.fields_ne_nil (by rw [h]; rfl))
    simp [valueLine, htext]
  second c rest h := by
    cases hv : e.value.isAtomic with
    | true =>
      obtain ⟨hword, hopen, -⟩ := e.value.isAtom_text hv
      obtain ⟨d, front, htext⟩ := exists_cons_of_ne_nil hword.ne_nil
      rw [valueLine, htext] at h
      rw [htext, (List.cons.inj h).1] at hopen
      exact absurd mem_cons_self hopen
    | false =>
      obtain ⟨w, x, xs, hfields, hhead⟩ := e.value.fields_text_parens hv
      have htext : e.value.text = ('(' :: w) ++ ' ' :: join (x :: xs) := by
        rw [← e.value.spaced_text.join_fields, hfields, join_cons _ (cons_ne_nil _ _)]
      have hsecond : ∀ w ∈ Value.heads, ∃ d ds, w = d :: ds ∧ d ≠ 'e' ∧ d ≠ 'd' := by
        intro w hw
        fin_cases hw
        · exact ⟨_, _, rfl, by decide⟩
        · exact ⟨_, _, rfl, by decide⟩
        · exact ⟨_, _, rfl, by decide⟩
        · exact ⟨_, _, rfl, by decide⟩
      obtain ⟨d, ds, rfl, hd⟩ := hsecond w hhead
      rw [valueLine, htext] at h
      cases h
      exact hd

lemma readLine_header (s : Z3.Reading) (indent : Nat) (h : e.sort.isSymbol = true) :
    Z3.readLine s (indented indent e.headerLine) = some ⟨s.m, e.name.text⟩ := by
  have hsort := SmtSort.isAtom_text h
  have hlast : trimSuffix ')' (join [e.name.text, "()".toList, e.sort.text]) =
      join [e.name.text, "()".toList, e.sort.text] := by
    rw [trimSuffix, if_neg]
    have hjoin : join [e.name.text, "()".toList, e.sort.text] =
        (join [e.name.text, "()".toList] ++ [' ']) ++ e.sort.text := by
      rw [append_assoc, singleton_append, ← join_singleton e.sort.text,
        ← join_append (cons_ne_nil _ _) (cons_ne_nil _ _), join_singleton]
      rfl
    rw [hjoin, List.getLast?_append_of_ne_nil _ hsort.1.ne_nil]
    exact fun hclosed => hsort.2.2 (List.mem_of_getLast? hclosed)
  have hfields : fields (trimSuffix ')' (join [e.name.text, "()".toList, e.sort.text])) =
      [e.name.text, "()".toList, e.sort.text] := by
    rw [hlast, fields_join_eq_flatMap]
    simp only [flatMap_cons, flatMap_nil, e.name.isAtom.1.fields, fields_args,
      hsort.1.fields, singleton_append]
  have hspaced := e.spaced_headerLine
  rw [headerLine_eq] at hspaced
  rw [headerLine_eq, Z3.readLine_entry _ _ hspaced, Z3.readEntry_header s.m hfields]

lemma readLine_header_parens (s : Z3.Reading) (indent : Nat) (h : e.sort.isSymbol = false) :
    ∃ t, Broken t ∧
      Z3.readLine s (indented indent e.headerLine) = some ⟨s.m.insert e.name.text t, []⟩ := by
  obtain ⟨t, htext, f, w, x, xs, hfields, hhead⟩ := SmtSort.text_eq_concat h
  have hjoin : join [e.name.text, "()".toList, e.sort.text] =
      join [e.name.text, "()".toList, t] ++ [')'] := by
    rw [htext]
    exact join_concat [e.name.text, "()".toList] t ')'
  have hparts : fields (trimSuffix ')' (join [e.name.text, "()".toList, e.sort.text])) =
      e.name.text :: "()".toList :: f :: w :: x :: xs := by
    rw [hjoin, trimSuffix_concat, fields_join_eq_flatMap]
    simp only [flatMap_cons, flatMap_nil, e.name.isAtom.1.fields, fields_args, hfields,
      append_nil, singleton_append]
  have hspaced := e.spaced_headerLine
  rw [headerLine_eq] at hspaced
  refine ⟨join (w :: x :: xs), broken_join (fun v hv => ?_) hhead, ?_⟩
  · have hmem : v ∈ fields t := by
      rw [hfields]
      exact mem_cons_of_mem f hv
    exact isWord_of_mem_fields hmem
  · rw [headerLine_eq, Z3.readLine_entry _ _ hspaced, Z3.readEntry_value s.m hparts]

lemma readValue_atomic (s : Z3.Reading) (h : e.value.isAtomic = true) :
    Z3.readValue s e.valueLine = ⟨s.m.insert s.pendingName e.value.text, []⟩ := by
  obtain ⟨hword, -, hclose⟩ := e.value.isAtom_text h
  have htrim : trimRight ')' e.valueLine = e.value.text := by
    rw [trimRight, valueLine, rdropWhile_concat_pos _ _ _ (by decide), rdropWhile_eq_self_iff]
    intro hne hlast
    exact hclose (beq_iff_eq.mp hlast ▸ getLast_mem hne)
  simp only [Z3.readValue, htrim, e.value.spaced_text.trimSpace, if_neg hword.ne_nil]

lemma readValue_parens (s : Z3.Reading) (h : e.value.isAtomic = false) :
    Spoils s.m (Z3.readValue s e.valueLine).m := by
  obtain ⟨f, g, items, htext, -⟩ := e.value.text_eq_parens h
  have htrim : trimRight ')' e.valueLine = trimRight ')' ('(' :: join (f :: g :: items)) := by
    rw [trimRight, valueLine, htext, rdropWhile_concat_pos _ _ _ (by decide), parens,
      rdropWhile_concat_pos _ _ _ (by decide), trimRight]
  have hbroken : Broken (Text.trimSpace (trimRight ')' e.valueLine)) := by
    refine Or.inr (Or.inl ?_)
    have hmatched := e.value.matched_text
    have hopen : (Text.trimSpace (trimRight ')' ('(' :: join (f :: g :: items)))).count '(' =
        ('(' :: join (f :: g :: items)).count '(' := by
      rw [Text.trimSpace, count_trimBy (by decide), trimRight, count_rdropWhile (by decide)]
    have hclose : (Text.trimSpace (trimRight ')' ('(' :: join (f :: g :: items)))).count ')' ≤
        ('(' :: join (f :: g :: items)).count ')' :=
      ((trimBy_sublist _).trans <| IsPrefix.sublist <| rdropWhile_prefix _ _).count_le _
    have hnone : [')'].count '(' = 0 := rfl
    have hone : [')'].count ')' = 1 := rfl
    rw [Matched, htext, parens, count_append, count_append] at hmatched
    rw [Matched, htrim]
    omega
  simp only [Z3.readValue]
  split
  · exact fun k t hlookup => Or.inl hlookup
  · exact spoils_insert s.m s.pendingName hbroken

lemma compactBinding_word {w : Text} (h : IsWord w) (hhead : w.head? ≠ some '(') :
    compactBinding w = none := by
  rw [compactBinding, stripParens_of_none (stripPair_of_head hhead), h.fields]

lemma spoils_bindCompact {m : Model} {line : Text}
    (h : ∀ name value, compactBinding line = some (name, value) → Broken value) :
    Spoils m (bindCompact m line) := by
  unfold bindCompact
  split
  · rename_i name value hbinding
    exact spoils_insert m name (h name value hbinding)
  · exact fun k t hlookup => Or.inl hlookup

lemma spoils_valueLine (h : e.sort.isSymbol = false) (m : Model) :
    Spoils m (bindCompact m e.valueLine) := by
  obtain ⟨name, sort, value⟩ := e
  refine spoils_bindCompact fun key text hbinding => ?_
  have hatomic : ∀ {s : SmtSort} (v : Value s), v.isAtomic = true →
      compactBinding (v.text ++ [')']) = none := by
    intro s v hv
    obtain ⟨hword, hopen, -⟩ := v.isAtom_text hv
    refine compactBinding_word ⟨by simp, fun c hc => ?_⟩ ?_
    · obtain hc | hc := List.mem_append.mp hc
      · exact hword.solid c hc
      · rw [List.mem_singleton.mp hc]
        decide
    · rw [List.head?_append_of_ne_nil _ hword.ne_nil]
      exact fun hhead => hopen (List.mem_of_mem_head? hhead)
  cases value with
  | numeral n => cases h
  | negative n => cases h
  | boolean b => cases h
  | decimal whole digit digits => cases h
  | minus v => cases h
  | quotient v w => cases h
  | hex digit digits =>
    rw [valueLine, hatomic _ rfl] at hbinding
    cases hbinding
  | binary bit bits =>
    rw [valueLine, hatomic _ rfl] at hbinding
    cases hbinding
  | @constant s t v =>
    have hstrip : stripParens (parens [parens ["as".toList, "const".toList,
        (SmtSort.array s t).text], v.text] ++ [')']) =
        "as".toList ++ ' ' :: ("const".toList ++ ' ' ::
          ((SmtSort.array s t).text ++ ')' :: ' ' :: v.text)) := by
      have houter : parens [parens ["as".toList, "const".toList, (SmtSort.array s t).text],
          v.text] ++ [')'] = '(' :: ('(' :: ("as".toList ++ ' ' :: ("const".toList ++ ' ' ::
            ((SmtSort.array s t).text ++ ')' :: ' ' :: v.text)) ++ [')']) ++ [')']) := by
        simp [parens, join_cons]
      rw [houter, stripParens_of_some (stripPair_wrapped _),
        stripParens_of_some (stripPair_wrapped _)]
      exact stripParens_of_none rfl
    have hconst : fields "const".toList = ["const".toList] := by decide
    have has : fields "as".toList = ["as".toList] := by decide
    have hfields := congrArg fields hstrip
    rw [valueLine, Value.text, compactBinding_of_fields hfields] at hbinding
    cases hbinding
    exact Or.inr (Or.inr rfl)
  | store a i v =>
    obtain ⟨w, x, xs, hfields, hhead⟩ := a.fields_text_parens (by cases a <;> rfl)
    have hstrip : stripParens (parens ["store".toList, a.text, i.text, v.text] ++ [')']) =
        "store".toList ++ ' ' :: (a.text ++ ' ' :: (i.text ++ ' ' :: (v.text ++ [')']))) := by
      have houter : parens ["store".toList, a.text, i.text, v.text] ++ [')'] =
          '(' :: ("store".toList ++ ' ' :: (a.text ++ ' ' :: (i.text ++ ' ' ::
            (v.text ++ [')']))) ++ [')']) := by
        simp [parens, join_cons]
      rw [houter, stripParens_of_some (stripPair_wrapped _)]
      exact stripParens_of_none rfl
    have hstore : fields "store".toList = ["store".toList] := by decide
    have hparts := congrArg fields hstrip
    rw [fields_append_blank, fields_append_blank, hstore, hfields] at hparts
    rw [valueLine, Value.text, compactBinding_of_fields hparts] at hbinding
    cases hbinding
    exact broken_head hhead

/-! ### Whole entries and whole models -/

lemma read_readable (m : Model) (indent : Nat) {layout : Layout} (h : e.readable layout = true) :
    (e.lines indent layout).foldlM Z3.readLine ⟨m, []⟩ =
      some ⟨m.insert e.name.text e.value.text, []⟩ := by
  cases layout with
  | compact => exact e.read_compact m indent (e.value.isAtom_text h).1.fields
  | singleLine =>
    obtain ⟨w, ws, hw⟩ := exists_cons_of_ne_nil e.value.spaced_text.fields_ne_nil
    have hfields : fields e.sort.text ++ fields e.value.text = e.sort.text :: w :: ws := by
      rw [(SmtSort.isAtom_text h).1.fields, hw]
      rfl
    rw [e.read_singleLine m indent hfields, ← hw, e.value.spaced_text.join_fields]
  | twoLine =>
    obtain ⟨hsort, hvalue⟩ := Bool.and_eq_true_iff.mp h
    rw [lines, foldlM_cons, e.readLine_header _ _ hsort]
    show ([indented (indent + 2) e.valueLine].foldlM Z3.readLine ⟨m, e.name.text⟩) = _
    rw [foldlM_cons, e.plain_valueLine.readLine_value e.name.isAtom.1.ne_nil,
      e.readValue_atomic _ hvalue]
    rfl

lemma read_unreadable (m : Model) (indent : Nat) {layout : Layout} (h : e.readable layout = false) :
    ∃ m', (e.lines indent layout).foldlM Z3.readLine ⟨m, []⟩ = some ⟨m', []⟩ ∧ Spoils m m' := by
  cases layout with
  | compact =>
    obtain ⟨w, x, xs, hfields, hhead⟩ := e.value.fields_text_parens h
    exact ⟨_, e.read_compact m indent hfields, spoils_insert m _ (broken_head hhead)⟩
  | singleLine =>
    obtain ⟨f, w, x, xs, hsort, hhead⟩ := SmtSort.fields_text_parens h
    have hfields : fields e.sort.text ++ fields e.value.text =
        f :: w :: x :: (xs ++ fields e.value.text) := by
      rw [hsort]
      rfl
    refine ⟨_, e.read_singleLine m indent hfields, spoils_insert m _ ?_⟩
    refine broken_join (fun v hv => ?_) hhead
    have hmem : v ∈ fields e.sort.text ++ fields e.value.text := by
      rw [hfields]
      exact mem_cons_of_mem f hv
    exact (List.mem_append.mp hmem).elim isWord_of_mem_fields isWord_of_mem_fields
  | twoLine =>
    cases hsort : e.sort.isSymbol with
    | true =>
      have hvalue : e.value.isAtomic = false := by
        rw [readable, hsort] at h
        exact h
      refine ⟨(Z3.readValue ⟨m, e.name.text⟩ e.valueLine).m, ?_, e.readValue_parens _ hvalue⟩
      rw [lines, foldlM_cons, e.readLine_header _ _ hsort]
      show ([indented (indent + 2) e.valueLine].foldlM Z3.readLine ⟨m, e.name.text⟩) = _
      rw [foldlM_cons, e.plain_valueLine.readLine_value e.name.isAtom.1.ne_nil]
      rfl
    | false =>
      obtain ⟨t, ht, hheader⟩ := e.readLine_header_parens ⟨m, []⟩ indent hsort
      refine ⟨bindCompact (m.insert e.name.text t) e.valueLine, ?_, ?_⟩
      · rw [lines, foldlM_cons, hheader]
        show ([indented (indent + 2) e.valueLine].foldlM Z3.readLine
          ⟨m.insert e.name.text t, []⟩) = _
        rw [foldlM_cons, e.plain_valueLine.readLine_compact]
        rfl
      · intro k u hlookup
        obtain hlookup | hbroken := e.spoils_valueLine hsort _ k u hlookup
        · exact spoils_insert m e.name.text ht k u hlookup
        · exact Or.inr hbroken

end Entry

def bindEntries (m : Model) (entries : List Entry) : Model :=
  entries.foldl (fun m e => m.insert e.name.text e.value.text) m

lemma keys_bindEntries (m : Model) (entries : List Entry) :
    (bindEntries m entries).keys = m.keys ∪ (entries.map fun e => e.name.text).toFinset := by
  induction entries generalizing m with
  | nil => simp [bindEntries]
  | cons e entries ih =>
    rw [bindEntries, foldl_cons, ← bindEntries, ih, GoMap.keys_insert, map_cons,
      toFinset_cons, Finset.insert_union, Finset.union_insert]

lemma lookup_bindEntries_of_notMem (m : Model) {entries : List Entry} {k : Text}
    (hk : k ∉ entries.map fun e => e.name.text) :
    (bindEntries m entries).lookup k = m.lookup k := by
  induction entries generalizing m with
  | nil => rfl
  | cons e entries ih =>
    rw [map_cons, mem_cons, not_or] at hk
    rw [bindEntries, foldl_cons, ← bindEntries, ih _ hk.2, Finmap.lookup_insert_of_ne _ hk.1]

lemma lookup_bindEntries (m : Model) {entries : List Entry}
    (hnames : (entries.map fun e => e.name.text).Nodup) {e : Entry} (he : e ∈ entries) :
    (bindEntries m entries).lookup e.name.text = some e.value.text := by
  induction entries generalizing m with
  | nil => cases he
  | cons first entries ih =>
    rw [map_cons, nodup_cons] at hnames
    rw [bindEntries, foldl_cons, ← bindEntries]
    obtain rfl | he := List.mem_cons.mp he
    · rw [lookup_bindEntries_of_notMem _ hnames.1, Finmap.lookup_insert]
    · exact ih _ hnames.2 he

/-- Reading the entries always succeeds. What is read comes from a readable entry or is broken. -/
lemma read_entries (m : Model) (indent : Nat) (layout : Layout) (entries : List Entry) :
    ∃ m', (entries.flatMap fun e => e.lines indent layout).foldlM Z3.readLine ⟨m, []⟩ =
        some ⟨m', []⟩ ∧
      ((∀ e ∈ entries, e.readable layout = true) → m' = bindEntries m entries) ∧
      ∀ k t, m'.lookup k = some t → m.lookup k = some t ∨ Broken t ∨
        ∃ e ∈ entries, e.readable layout = true ∧ e.name.text = k ∧ e.value.text = t := by
  induction entries generalizing m with
  | nil => exact ⟨m, rfl, fun _ => rfl, fun k t h => Or.inl h⟩
  | cons e entries ih =>
    cases he : e.readable layout with
    | true =>
      obtain ⟨m', hread, hall, hsource⟩ := ih (m.insert e.name.text e.value.text)
      refine ⟨m', ?_, fun h => hall fun e' he' => h e' (mem_cons_of_mem e he'), ?_⟩
      · rw [flatMap_cons, foldlM_append, e.read_readable m indent he]
        exact hread
      · intro k t hlookup
        obtain hlookup | hbroken | ⟨e', he', hentry⟩ := hsource k t hlookup
        · by_cases hk : k = e.name.text
          · rw [hk, Finmap.lookup_insert] at hlookup
            exact Or.inr (Or.inr ⟨e, mem_cons_self, he, hk.symm, Option.some.inj hlookup⟩)
          · rw [Finmap.lookup_insert_of_ne _ hk] at hlookup
            exact Or.inl hlookup
        · exact Or.inr (Or.inl hbroken)
        · exact Or.inr (Or.inr ⟨e', mem_cons_of_mem e he', hentry⟩)
    | false =>
      obtain ⟨m₁, hfirst, hspoils⟩ := e.read_unreadable m indent he
      obtain ⟨m', hread, -, hsource⟩ := ih m₁
      refine ⟨m', ?_, fun h => ?_, ?_⟩
      · rw [flatMap_cons, foldlM_append, hfirst]
        exact hread
      · rw [h e mem_cons_self] at he
        cases he
      · intro k t hlookup
        obtain hlookup | hbroken | ⟨e', he', hentry⟩ := hsource k t hlookup
        · exact (hspoils k t hlookup).imp id Or.inl
        · exact Or.inr (Or.inl hbroken)
        · exact Or.inr (Or.inr ⟨e', mem_cons_of_mem e he', hentry⟩)

lemma foldlM_opening (envelope : Envelope) (s : Z3.Reading) :
    envelope.opening.foldlM Z3.readLine s = some s := by
  cases envelope <;> rfl

lemma foldlM_closing (envelope : Envelope) (s : Z3.Reading) :
    envelope.closing.foldlM Z3.readLine s = some s := by
  cases envelope <;> rfl

lemma isLine_printedModel (envelope : Envelope) (indent : Nat) (layout : Layout)
    (entries : List Entry) : ∀ l ∈ printedModel envelope indent layout entries, IsLine l := by
  have hword : ∀ w ∈ ["(".toList, "(model".toList, ")".toList], IsLine w := by
    intro w hw
    fin_cases hw
    · exact ⟨by decide, _, rfl, by decide⟩
    · exact ⟨by decide, _, rfl, by decide⟩
    · exact ⟨by decide, _, rfl, by decide⟩
  intro l hl
  obtain hl | hl := List.mem_append.mp hl
  · obtain hl | hl := List.mem_append.mp hl
    · cases envelope <;> simp only [Envelope.opening, mem_singleton] at hl <;>
        exact hword l (by simp [hl])
    · obtain ⟨e, -, hl⟩ := List.mem_flatMap.mp hl
      cases layout with
      | compact =>
        rw [List.mem_singleton.mp hl]
        exact e.plain_compactLine.spaced.isLine indent
      | singleLine =>
        rw [List.mem_singleton.mp hl]
        exact e.spaced_singleLine.isLine indent
      | twoLine =>
        obtain rfl | hl := List.mem_cons.mp hl
        · exact e.spaced_headerLine.isLine indent
        · rw [List.mem_singleton.mp hl]
          exact e.plain_valueLine.spaced.isLine (indent + 2)
  · cases envelope <;> simp only [Envelope.closing, mem_singleton] at hl <;>
      exact hword l (by simp [hl])

lemma parseOutput_printed (envelope : Envelope) (indent : Nat) (layout : Layout)
    (entries : List Entry) : Z3.parseOutput (printed envelope indent layout entries) =
      .ok { sat := .sat, model := Z3.parseModel (printedModel envelope indent layout entries) } := by
  have hsat : IsLine "sat".toList := ⟨by decide, _, rfl, by decide⟩
  have hlines : ∀ l ∈ "sat".toList :: printedModel envelope indent layout entries, IsLine l := by
    intro l hl
    obtain rfl | hl := List.mem_cons.mp hl
    · exact hsat
    · exact isLine_printedModel envelope indent layout entries l hl
  have hhead : ∀ c ∈ "sat".toList.head?, goIsSpace c = false := by
    intro c hc
    cases hc
    decide
  unfold Z3.parseOutput printed
  rw [split_trimSpace hlines hhead]
  rfl

lemma getD_nonempty (m : Model) : (nonempty m).getD ∅ = m := by
  unfold nonempty
  split
  · rename_i h
    exact h.symm
  · rfl

/-- The model has the printed names and texts and nothing else. -/
def ReadsBack (m : Option Model) (entries : List Entry) : Prop :=
  (m.getD ∅).keys = (entries.map fun e => e.name.text).toFinset ∧
    ∀ e ∈ entries, (m.getD ∅).lookup e.name.text = some e.value.text

/-- A printed model is read back exactly when all its entries are readable in the layout. -/
theorem printed_model_read_back_iff (envelope : Envelope) (indent : Nat) (layout : Layout)
    (entries : List Entry) (hnames : (entries.map fun e => e.name.text).Nodup) :
    (∃ m, Z3.parseOutput (printed envelope indent layout entries) =
        .ok { sat := .sat, model := m } ∧ ReadsBack m entries) ↔
      ∀ e ∈ entries, e.readable layout = true := by
  obtain ⟨m, hread, hall, hsource⟩ := read_entries ∅ indent layout entries
  have hmodel : Z3.parseModel (printedModel envelope indent layout entries) = nonempty m := by
    rw [Z3.parseModel, printedModel, foldlM_append, foldlM_append, foldlM_opening]
    show ((((entries.flatMap fun e => e.lines indent layout).foldlM Z3.readLine ⟨∅, []⟩).bind
      fun s => envelope.closing.foldlM Z3.readLine s).bind fun s => nonempty s.m) = nonempty m
    rw [hread, Option.bind_some, foldlM_closing]
    rfl
  rw [parseOutput_printed, hmodel]
  constructor
  · rintro ⟨m', hm', -, hlookup⟩ e he
    cases hm'
    have hvalue := hlookup e he
    rw [getD_nonempty] at hvalue
    obtain hempty | hbroken | ⟨e', he', hreadable, hname, -⟩ := hsource _ _ hvalue
    · cases hempty
    · exact absurd hbroken (not_broken e.value)
    · rwa [← inj_on_of_nodup_map hnames he' he hname]
  · intro hreadable
    refine ⟨nonempty m, rfl, ?_, fun e he => ?_⟩
    · rw [getD_nonempty, hall hreadable, keys_bindEntries, Finmap.keys_empty, Finset.empty_union]
    · rw [getD_nonempty, hall hreadable, lookup_bindEntries _ hnames he]

/-- The model in the comment on `parseModel`. -/
theorem two_line_model_read_back :
    ∃ m, Z3.parseOutput (printed .bare 2 .twoLine [⟨⟨"x".toList, rfl⟩, .int, .numeral 6⟩]) =
      .ok { sat := .sat, model := m } ∧
      ReadsBack m [⟨⟨"x".toList, rfl⟩, .int, .numeral 6⟩] :=
  (printed_model_read_back_iff .bare 2 .twoLine [⟨⟨"x".toList, rfl⟩, .int, .numeral 6⟩]
    (nodup_singleton _)).mpr fun e he => by
      rw [List.mem_singleton.mp he]
      rfl

/-- A negative number on the line below its header loses its closing parenthesis. -/
theorem negative_value_cut :
    let entry : Entry := ⟨⟨"x".toList, rfl⟩, .int, .negative 5⟩
    printed .bare 2 .twoLine [entry] = "sat\n(\n  (define-fun x () Int\n    (- 5))\n)\n".toList ∧
      Z3.parseOutput (printed .bare 2 .twoLine [entry]) =
        .ok ⟨.sat, some (Finmap.singleton "x".toList "(- 5".toList), none⟩ ∧
      ¬ReadsBack (some (Finmap.singleton "x".toList "(- 5".toList)) [entry] := by
  intro entry
  refine ⟨rfl, by decide, fun h => ?_⟩
  have hvalue := h.2 entry mem_cons_self
  revert hvalue
  decide

end Symkernel.Solver
