import Symkernel.Library.GoStrings

/-!
# Symbols, sorts and value terms of SMT-LIB

The texts of simple symbols, of the sorts `Int`, `Bool`, `Real`, `(_ BitVec n)` and `(Array s t)`,
and of the values of these sorts as a solver prints them: one blank between two items.
-/

namespace Symkernel.Library.SmtLib

open Text List Bool

def isSymbolChar (c : Char) : Bool :=
  c.isAlphanum || c ∈ "~!@$%^&*_-+=<>.?/".toList

def reservedWords : List Text :=
  ["!", "_", "as", "BINARY", "DECIMAL", "exists", "HEXADECIMAL", "forall", "let", "match",
    "NUMERAL", "par", "STRING", "assert", "check-sat", "check-sat-assuming", "declare-const",
    "declare-datatype", "declare-datatypes", "declare-fun", "declare-sort", "define-fun",
    "define-fun-rec", "define-funs-rec", "define-sort", "echo", "exit", "get-assertions",
    "get-assignment", "get-info", "get-model", "get-option", "get-proof",
    "get-unsat-assumptions", "get-unsat-core", "get-value", "pop", "push", "reset",
    "reset-assertions", "set-info", "set-logic", "set-option"].map String.toList

def isSimpleSymbol (s : Text) : Bool :=
  s.all isSymbolChar && !(s.head?.all Char.isDigit) && s ∉ reservedWords

structure Symbol where
  text : Text
  simple : isSimpleSymbol text = true

def IsAtom (w : Text) : Prop :=
  IsWord w ∧ '(' ∉ w ∧ ')' ∉ w

lemma isSymbolChar_solid {c : Char} (h : isSymbolChar c = true) :
    goIsSpace c = false ∧ c ≠ '(' ∧ c ≠ ')' := by
  rw [isSymbolChar, or_eq_true, decide_eq_true_iff] at h
  obtain h | h := h
  · simp only [Char.isAlphanum, Char.isAlpha, Char.isUpper, Char.isLower, Char.isDigit,
      or_eq_true, and_eq_true, decide_eq_true_eq] at h
    change ((65 ≤ c.toNat ∧ c.toNat ≤ 90) ∨ (97 ≤ c.toNat ∧ c.toNat ≤ 122)) ∨
      (48 ≤ c.toNat ∧ c.toNat ≤ 57) at h
    refine ⟨?_, ?_, ?_⟩
    · simp only [goIsSpace, decide_eq_false_iff_not]
      omega
    · rintro rfl
      revert h
      decide
    · rintro rfl
      revert h
      decide
  · fin_cases h <;> decide

lemma Symbol.isAtom (x : Symbol) : IsAtom x.text := by
  have h := x.simple
  rw [isSimpleSymbol, and_eq_true, and_eq_true, all_eq_true] at h
  obtain ⟨⟨hchars, hhead⟩, -⟩ := h
  refine ⟨⟨?_, fun c hc => (isSymbolChar_solid (hchars c hc)).1⟩,
    fun hp => (isSymbolChar_solid (hchars _ hp)).2.1 rfl,
    fun hp => (isSymbolChar_solid (hchars _ hp)).2.2 rfl⟩
  intro hnil
  rw [hnil] at hhead
  cases hhead

/-- Items in parentheses, one blank between two of them. -/
def parens (items : List Text) : Text :=
  '(' :: join items ++ [')']

variable {items : List Text}

lemma spaced_parens {item : Text} (h : (item :: items).Forall Spaced) :
    Spaced (parens (item :: items)) := by
  have hjoin := Spaced.join (cons_ne_nil item items) (List.forall_iff_forall_mem.mp h)
  obtain ⟨w, ws, -, -, hcons⟩ := hjoin.fields_cons (show goIsSpace '(' = false by decide)
  exact hcons.concat (by decide)

variable {f w : Text}

lemma fields_parens (hf : Spaced f) (hne : items ≠ []) : ∃ w ws, fields f = w :: ws ∧
      fields (parens (f :: items)) = ('(' :: w) :: ws ++ fields (join items ++ [')']) := by
  obtain ⟨w, ws, hw, hcons, -⟩ := hf.fields_cons (show goIsSpace '(' = false by decide)
  have htext : parens (f :: items) = ('(' :: f) ++ ' ' :: (join items ++ [')']) := by
    rw [parens, join_cons f hne]
    simp
  exact ⟨w, ws, hw, by rw [htext, fields_append_blank, hcons]⟩

lemma fields_parens_word (hf : IsWord f) (hne : items ≠ []) :
    fields (parens (f :: items)) = ('(' :: f) :: fields (join items ++ [')']) := by
  obtain ⟨w, ws, hw, hfields⟩ := fields_parens (Spaced.of_word hf) hne
  rw [hf.fields] at hw
  cases hw
  exact hfields

def Matched (t : Text) : Prop :=
  t.count '(' = t.count ')'

lemma matched_of_isAtom (h : IsAtom w) : Matched w := by
  rw [Matched, List.count_eq_zero.mpr h.2.1, List.count_eq_zero.mpr h.2.2]

lemma matched_parens (h : items.Forall Matched) : Matched (parens items) := by
  have hsum : (items.map fun t => t.count '(') = items.map fun t => t.count ')' :=
    map_congr_left (List.forall_iff_forall_mem.mp h)
  have hopen := count_join (show '(' ≠ ' ' by decide) items
  have hclose := count_join (show ')' ≠ ' ' by decide) items
  rw [hsum] at hopen
  simp [Matched, parens, hopen, hclose]

inductive SmtSort where
  | int
  | bool
  | real
  | bitVec (width : Nat)
  | array (index element : SmtSort)
  deriving DecidableEq, Repr

namespace SmtSort

def text : SmtSort → Text
  | int => "Int".toList
  | bool => "Bool".toList
  | real => "Real".toList
  | bitVec width => parens ["_".toList, "BitVec".toList, Nat.toDigits 10 width]
  | array index element => parens ["Array".toList, index.text, element.text]

def isSymbol : SmtSort → Bool
  | int | bool | real => true
  | bitVec _ | array _ _ => false

end SmtSort

lemma isAtom_of_chars (hne : w ≠ []) (h : (w.all fun c => isSymbolChar c || c == '#') = true) :
    IsAtom w := by
  have hsolid : ∀ c ∈ w, goIsSpace c = false ∧ c ≠ '(' ∧ c ≠ ')' := by
    intro c hc
    have hchar := List.all_eq_true.mp h c hc
    rw [or_eq_true, beq_iff_eq] at hchar
    obtain hchar | rfl := hchar
    · exact isSymbolChar_solid hchar
    · decide
  exact ⟨⟨hne, fun c hc => (hsolid c hc).1⟩, fun hp => (hsolid _ hp).2.1 rfl,
    fun hp => (hsolid _ hp).2.2 rfl⟩

lemma isAtom_digits (n : Nat) : IsAtom (Nat.toDigits 10 n) := by
  refine isAtom_of_chars Nat.toDigits_ne_nil (List.all_eq_true.mpr fun c hc => ?_)
  have hdigit := Nat.isDigit_of_mem_toDigits (by omega) (by omega) hc
  simp [isSymbolChar, Char.isAlphanum, hdigit]

lemma IsAtom.spaced (h : IsAtom w) : Spaced w :=
  Spaced.of_word h.1

namespace SmtSort

variable {s : SmtSort}

lemma isAtom_text (h : s.isSymbol = true) : IsAtom s.text := by
  cases s with
  | int | bool | real => exact isAtom_of_chars (by decide) rfl
  | bitVec width => cases h
  | array index element => cases h

lemma spaced_text (s : SmtSort) : Spaced s.text := by
  induction s with
  | int | bool | real => exact (isAtom_text rfl).spaced
  | bitVec width =>
    exact spaced_parens ⟨(isAtom_of_chars (by decide) rfl).spaced,
      (isAtom_of_chars (by decide) rfl).spaced, (isAtom_digits width).spaced⟩
  | array index element hindex helement =>
    exact spaced_parens ⟨(isAtom_of_chars (by decide) rfl).spaced, hindex, helement⟩

lemma matched_text (s : SmtSort) : Matched s.text := by
  induction s with
  | int | bool | real => exact matched_of_isAtom (isAtom_text rfl)
  | bitVec width => exact matched_parens ⟨rfl, rfl, matched_of_isAtom (isAtom_digits width)⟩
  | array index element hindex helement => exact matched_parens ⟨rfl, hindex, helement⟩

/-- The first word of a sort, and the second one of a sort with parentheses. -/
def heads : List Text :=
  ["Int", "Bool", "Real", "(_", "(Array", "BitVec"].map String.toList

lemma fields_text (s : SmtSort) : ∃ w ws, fields s.text = w :: ws ∧ w ∈ heads := by
  cases s with
  | int | bool | real => exact ⟨_, _, (isAtom_text rfl).1.fields, by decide⟩
  | bitVec width =>
    exact ⟨_, _, fields_parens_word (isAtom_of_chars (show "_".toList ≠ [] by decide) rfl).1
      (cons_ne_nil _ _), by decide⟩
  | array index element =>
    exact ⟨_, _, fields_parens_word (isAtom_of_chars (show "Array".toList ≠ [] by decide) rfl).1
      (cons_ne_nil _ _), by decide⟩

lemma text_eq_parens (h : s.isSymbol = false) :
    ∃ f g k, IsAtom f ∧ Spaced g ∧ Spaced k ∧ s.text = parens [f, g, k] ∧
      ∃ w ws, fields g = w :: ws ∧ w ∈ heads := by
  cases s with
  | int | bool | real => cases h
  | bitVec width =>
    have hword : IsAtom "BitVec".toList := isAtom_of_chars (by decide) rfl
    exact ⟨_, _, _, isAtom_of_chars (by decide) rfl, hword.spaced, (isAtom_digits width).spaced,
      rfl, _, _, hword.1.fields, by decide⟩
  | array index element =>
    exact ⟨_, _, _, isAtom_of_chars (by decide) rfl, index.spaced_text, element.spaced_text, rfl,
      index.fields_text⟩

lemma text_eq_concat (h : s.isSymbol = false) :
    ∃ t, s.text = t ++ [')'] ∧ ∃ f w x xs, fields t = f :: w :: x :: xs ∧ w ∈ heads := by
  obtain ⟨f, g, k, hf, hg, hk, htext, w, ws, hw, hhead⟩ := text_eq_parens h
  have hopen : '(' :: join [f, g, k] = ('(' :: f) ++ ' ' :: join [g, k] := by
    rw [join_cons f (cons_ne_nil _ _), cons_append]
  have hword : fields ('(' :: f) = ['(' :: f] := by
    obtain ⟨w, ws, hfields, hcons, -⟩ := hf.spaced.fields_cons (show goIsSpace '(' = false by decide)
    rw [hf.1.fields] at hfields
    cases hfields
    exact hcons
  obtain ⟨x, xs, hx⟩ := exists_cons_of_ne_nil hk.fields_ne_nil
  have hfields : fields ('(' :: join [f, g, k]) = ('(' :: f) :: w :: (ws ++ x :: xs) := by
    rw [hopen, fields_append_blank, hword, fields_join_eq_flatMap]
    simp [hw, hx]
  refine ⟨'(' :: join [f, g, k], htext, ?_⟩
  cases ws with
  | nil => exact ⟨_, w, x, xs, hfields, hhead⟩
  | cons v ws => exact ⟨_, w, v, ws ++ x :: xs, hfields, hhead⟩

lemma fields_text_parens (h : s.isSymbol = false) :
    ∃ f w x xs, fields s.text = f :: w :: x :: xs ∧ w ∈ heads := by
  obtain ⟨f, g, k, hf, hg, hk, htext, w, ws, hw, hhead⟩ := text_eq_parens h
  have hlast : join [g, k] ++ [')'] = g ++ ' ' :: (k ++ [')']) := by
    rw [join_cons g (cons_ne_nil _ _), join_singleton, append_assoc, cons_append]
  obtain ⟨x, xs, hx⟩ := exists_cons_of_ne_nil (hk.concat (show goIsSpace ')' = false by decide)).fields_ne_nil
  have hfields : fields s.text = ('(' :: f) :: w :: (ws ++ x :: xs) := by
    rw [htext, fields_parens_word hf.1 (cons_ne_nil _ _), hlast, fields_append_blank, hw, hx]
    rfl
  cases ws with
  | nil => exact ⟨_, w, x, xs, hfields, hhead⟩
  | cons v ws => exact ⟨_, w, v, ws ++ x :: xs, hfields, hhead⟩

end SmtSort

inductive Value : SmtSort → Type where
  | numeral (n : Nat) : Value .int
  | negative (n : Nat) : Value .int
  | boolean (b : Bool) : Value .bool
  | decimal (whole : Nat) (digit : Fin 10) (digits : List (Fin 10)) : Value .real
  | minus (v : Value .real) : Value .real
  | quotient (v w : Value .real) : Value .real
  | hex (digit : Fin 16) (digits : List (Fin 16)) : Value (.bitVec (4 * (digits.length + 1)))
  | binary (bit : Fin 2) (bits : List (Fin 2)) : Value (.bitVec (bits.length + 1))
  | constant {s t : SmtSort} (v : Value t) : Value (.array s t)
  | store {s t : SmtSort} (a : Value (.array s t)) (i : Value s) (v : Value t) :
      Value (.array s t)

def digitTexts {n : Nat} (digit : Fin n) (digits : List (Fin n)) : Text :=
  (digit :: digits).map fun d : Fin n => Nat.digitChar d.val

namespace Value

def text : {s : SmtSort} → Value s → Text
  | _, numeral n => Nat.toDigits 10 n
  | _, negative n => parens ["-".toList, Nat.toDigits 10 n]
  | _, boolean b => if b then "true".toList else "false".toList
  | _, decimal whole digit digits => Nat.toDigits 10 whole ++ '.' :: digitTexts digit digits
  | _, minus v => parens ["-".toList, v.text]
  | _, quotient v w => parens ["/".toList, v.text, w.text]
  | _, hex digit digits => '#' :: 'x' :: digitTexts digit digits
  | _, binary bit bits => '#' :: 'b' :: digitTexts bit bits
  | .array s t, constant v =>
    parens [parens ["as".toList, "const".toList, (SmtSort.array s t).text], v.text]
  | _, store a i v => parens ["store".toList, a.text, i.text, v.text]

def isAtomic : {s : SmtSort} → Value s → Bool
  | _, numeral _ | _, boolean _ | _, decimal .. | _, hex .. | _, binary .. => true
  | _, negative _ | _, minus _ | _, quotient .. | _, constant _ | _, store .. => false

lemma isAtom_append_digits (w : Text) (hw : (w.all fun c => isSymbolChar c || c == '#') = true)
    {n : Nat} (hn : n ≤ 16) (digit : Fin n) (digits : List (Fin n)) :
    IsAtom (w ++ digitTexts digit digits) := by
  refine isAtom_of_chars (by simp [digitTexts]) ?_
  rw [all_append, hw, Bool.true_and, all_eq_true]
  intro c hc
  obtain ⟨d, -, rfl⟩ := List.mem_map.mp hc
  have hlt : d.val < 16 := d.isLt.trans_le hn
  have hdigit : ∀ k : Fin 16, (isSymbolChar (Nat.digitChar k) || Nat.digitChar k == '#') = true := by
    intro k
    fin_cases k <;> rfl
  exact hdigit ⟨d, hlt⟩

variable {s : SmtSort}

lemma isAtom_text (v : Value s) (h : v.isAtomic = true) : IsAtom v.text := by
  cases v with
  | numeral n => exact isAtom_digits n
  | boolean b => cases b <;> exact isAtom_of_chars (by decide) rfl
  | decimal whole digit digits =>
    show IsAtom (Nat.toDigits 10 whole ++ (['.'] ++ digitTexts digit digits))
    rw [← append_assoc]
    refine isAtom_append_digits _ ?_ (by omega) digit digits
    rw [all_append, and_eq_true]
    refine ⟨List.all_eq_true.mpr fun c hc => ?_, rfl⟩
    have hdigit := Nat.isDigit_of_mem_toDigits (by omega) (by omega) hc
    simp [isSymbolChar, Char.isAlphanum, hdigit]
  | hex digit digits => exact isAtom_append_digits ['#', 'x'] rfl le_rfl digit digits
  | binary bit bits => exact isAtom_append_digits ['#', 'b'] rfl (by omega) bit bits
  | negative n => cases h
  | minus v => cases h
  | quotient v w => cases h
  | constant v => cases h
  | store a i v => cases h

lemma spaced_text (v : Value s) : Spaced v.text := by
  have hatom : ∀ w : Text, w ≠ [] → (w.all fun c => isSymbolChar c || c == '#') = true →
      Spaced w := fun w hne hw => (isAtom_of_chars hne hw).spaced
  induction v with
  | numeral n => exact (isAtom_text (numeral n) rfl).spaced
  | boolean b => exact (isAtom_text (boolean b) rfl).spaced
  | decimal whole digit digits => exact (isAtom_text (decimal whole digit digits) rfl).spaced
  | hex digit digits => exact (isAtom_text (hex digit digits) rfl).spaced
  | binary bit bits => exact (isAtom_text (binary bit bits) rfl).spaced
  | negative n => exact spaced_parens ⟨hatom _ (by decide) rfl, (isAtom_digits n).spaced⟩
  | minus v hv => exact spaced_parens ⟨hatom _ (by decide) rfl, hv⟩
  | quotient v w hv hw => exact spaced_parens ⟨hatom _ (by decide) rfl, hv, hw⟩
  | @constant s t v hv =>
    exact spaced_parens ⟨spaced_parens ⟨hatom _ (by decide) rfl, hatom _ (by decide) rfl,
      (SmtSort.array s t).spaced_text⟩, hv⟩
  | store a i v ha hi hv => exact spaced_parens ⟨hatom _ (by decide) rfl, ha, hi, hv⟩

lemma matched_text (v : Value s) : Matched v.text := by
  induction v with
  | numeral n => exact matched_of_isAtom (isAtom_text (numeral n) rfl)
  | boolean b => exact matched_of_isAtom (isAtom_text (boolean b) rfl)
  | decimal whole digit digits => exact matched_of_isAtom (isAtom_text (decimal whole digit digits) rfl)
  | hex digit digits => exact matched_of_isAtom (isAtom_text (hex digit digits) rfl)
  | binary bit bits => exact matched_of_isAtom (isAtom_text (binary bit bits) rfl)
  | negative n => exact matched_parens ⟨rfl, matched_of_isAtom (isAtom_digits n)⟩
  | minus v hv => exact matched_parens ⟨rfl, hv⟩
  | quotient v w hv hw => exact matched_parens ⟨rfl, hv, hw⟩
  | @constant s t v hv =>
    exact matched_parens ⟨matched_parens ⟨rfl, rfl, (SmtSort.array s t).matched_text⟩, hv⟩
  | store a i v ha hi hv => exact matched_parens ⟨rfl, ha, hi, hv⟩

/-- The first words of values with parentheses, the outer one left out. -/
def heads : List Text :=
  ["-", "/", "(as", "store"].map String.toList

lemma text_eq_parens (v : Value s) (h : v.isAtomic = false) :
    ∃ f g items, v.text = parens (f :: g :: items) ∧ (f :: g :: items).Forall Spaced ∧
      ∃ w ws, fields f = w :: ws ∧ w ∈ heads := by
  have hatom : ∀ w : Text, w ≠ [] → (w.all fun c => isSymbolChar c || c == '#') = true →
      IsWord w := fun w hne hw => (isAtom_of_chars hne hw).1
  have hminus := hatom "-".toList (by decide) rfl
  have hslash := hatom "/".toList (by decide) rfl
  have has := hatom "as".toList (by decide) rfl
  have hconst := hatom "const".toList (by decide) rfl
  have hstore := hatom "store".toList (by decide) rfl
  cases v with
  | numeral n => cases h
  | boolean b => cases h
  | decimal whole digit digits => cases h
  | hex digit digits => cases h
  | binary bit bits => cases h
  | negative n =>
    exact ⟨_, _, [], rfl, ⟨.of_word hminus, (isAtom_digits n).spaced⟩, _, _, hminus.fields,
      by decide⟩
  | minus v =>
    exact ⟨_, _, [], rfl, ⟨.of_word hminus, v.spaced_text⟩, _, _, hminus.fields, by decide⟩
  | quotient v w =>
    exact ⟨_, _, [w.text], rfl, ⟨.of_word hslash, v.spaced_text, w.spaced_text⟩, _, _,
      hslash.fields, by decide⟩
  | @constant s t v =>
    have hf : Spaced (parens ["as".toList, "const".toList, (SmtSort.array s t).text]) :=
      spaced_parens ⟨.of_word has, .of_word hconst, (SmtSort.array s t).spaced_text⟩
    exact ⟨_, _, [], rfl, ⟨hf, v.spaced_text⟩, _, _,
      fields_parens_word has (cons_ne_nil _ _), by decide⟩
  | store a i v =>
    exact ⟨_, _, [i.text, v.text], rfl,
      ⟨.of_word hstore, a.spaced_text, i.spaced_text, v.spaced_text⟩, _, _, hstore.fields,
      by decide⟩

lemma fields_text_parens (v : Value s) (h : v.isAtomic = false) :
    ∃ w x xs, fields v.text = ('(' :: w) :: x :: xs ∧ w ∈ heads := by
  obtain ⟨f, g, items, htext, hspaced, w, ws, hw, hhead⟩ := v.text_eq_parens h
  rw [forall_iff_forall_mem, forall_mem_cons] at hspaced
  have hjoin := Spaced.join (cons_ne_nil g items) hspaced.2
  obtain ⟨x, xs, hx⟩ := exists_cons_of_ne_nil
    (hjoin.concat (show goIsSpace ')' = false by decide)).fields_ne_nil
  obtain ⟨w', ws', hw', hfields⟩ := fields_parens hspaced.1 (cons_ne_nil g items)
  rw [hw] at hw'
  cases hw'
  rw [hx] at hfields
  rw [htext, hfields]
  cases ws with
  | nil => exact ⟨w, x, xs, rfl, hhead⟩
  | cons v ws => exact ⟨w, v, ws ++ x :: xs, rfl, hhead⟩

end Value

end Symkernel.Library.SmtLib
