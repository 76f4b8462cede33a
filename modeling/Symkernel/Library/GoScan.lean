import Symkernel.Library.GoStrconv
import Symkernel.Library.GoStrings

/-!
# The verb `%d` of `fmt.Sscanf`

A text is given by its runes. `none` is any of the errors.
-/

namespace Symkernel.Library

open List

/-- A line end is an error, also after a carriage return. -/
def skipSpace : Text → Option Text
  | [] => some []
  | c :: s => if c = '\n' then none else if goIsSpace c then skipSpace s else some (c :: s)

def acceptSign : Text → Text × Text
  | '+' :: s => (['+'], s)
  | '-' :: s => (['-'], s)
  | s => ([], s)

def scanInt (s : Text) : Option (Int × Text) :=
  (skipSpace s).bind fun s =>
    let (sign, rest) := acceptSign s
    let digits := rest.takeWhile Char.isDigit
    let value := decimalInt (sign ++ digits)
    if digits ≠ [] ∧ -2 ^ 63 ≤ value ∧ value < 2 ^ 63 then
      some (value, rest.dropWhile Char.isDigit)
    else none

def scanLiteral (c : Char) : Text → Option Text
  | [] => none
  | d :: s => if d = c then some s else none

lemma scanLiteral_eq_some {c : Char} {s rest : Text} :
    scanLiteral c s = some rest ↔ s = c :: rest := by
  cases s with
  | nil => simp [scanLiteral]
  | cons d s => simp [scanLiteral]

structure ScannedInt where
  blanks : Text
  sign : Text
  digits : Text
  blanks_ok : ∀ c ∈ blanks, goIsSpace c = true ∧ c ≠ '\n'
  sign_ok : sign = [] ∨ sign = ['+'] ∨ sign = ['-']
  digits_ne : digits ≠ []
  digits_ok : ∀ d ∈ digits, d.isDigit = true
  fits : -2 ^ 63 ≤ decimalInt (sign ++ digits) ∧ decimalInt (sign ++ digits) < 2 ^ 63

namespace ScannedInt

def text (t : ScannedInt) : Text := t.blanks ++ (t.sign ++ t.digits)

def value (t : ScannedInt) : Int := decimalInt (t.sign ++ t.digits)

def Plain (t : ScannedInt) : Prop :=
  t.blanks = [] ∧ t.sign = [] ∧ t.digits = Nat.toDigits 10 (decimalNat t.digits)

end ScannedInt

def Stops (s : Text) : Prop := ∀ c ∈ s.head?, c.isDigit = false

lemma skipSpace_eq_some {s s' : Text} (h : skipSpace s = some s') :
    ∃ blanks, s = blanks ++ s' ∧ ∀ c ∈ blanks, goIsSpace c = true ∧ c ≠ '\n' := by
  induction s with
  | nil =>
    cases h
    exact ⟨[], rfl, by simp⟩
  | cons c s ih =>
    rw [skipSpace] at h
    split at h
    · cases h
    · rename_i hline
      split at h
      · rename_i hspace
        obtain ⟨blanks, rfl, hblanks⟩ := ih h
        exact ⟨c :: blanks, rfl, forall_mem_cons.mpr ⟨⟨hspace, hline⟩, hblanks⟩⟩
      · cases h
        exact ⟨[], rfl, by simp⟩

lemma skipSpace_append {blanks s : Text} (hblanks : ∀ c ∈ blanks, goIsSpace c = true ∧ c ≠ '\n')
    (hs : ∀ c ∈ s.head?, goIsSpace c = false) : skipSpace (blanks ++ s) = some s := by
  induction blanks with
  | nil =>
    cases s with
    | nil => rfl
    | cons c s =>
      have hc : goIsSpace c = false := hs c rfl
      have hline : c ≠ '\n' := by
        rintro rfl
        cases hc
      rw [nil_append, skipSpace, if_neg hline, hc]
      rfl
  | cons c blanks ih =>
    rw [forall_mem_cons] at hblanks
    rw [cons_append, skipSpace, if_neg hblanks.1.2, if_pos hblanks.1.1]
    exact ih hblanks.2

lemma acceptSign_spec (s : Text) : s = (acceptSign s).1 ++ (acceptSign s).2 ∧
    ((acceptSign s).1 = [] ∨ (acceptSign s).1 = ['+'] ∨ (acceptSign s).1 = ['-']) := by
  unfold acceptSign
  split <;> simp

lemma digit_char {c : Char} (h : c.isDigit = true) : c ≠ '+' ∧ c ≠ '-' ∧ c ≠ '.' ∧
    goIsSpace c = false := by
  have hbounds : 48 ≤ c.toNat ∧ c.toNat ≤ 57 := by
    simp only [Char.isDigit, Bool.and_eq_true, decide_eq_true_eq] at h
    exact h
  refine ⟨?_, ?_, ?_, ?_⟩
  · rintro rfl
    cases h
  · rintro rfl
    cases h
  · rintro rfl
    cases h
  · simp only [goIsSpace, decide_eq_false_iff_not]
    omega

lemma acceptSign_append {sign s : Text} (hsign : sign = [] ∨ sign = ['+'] ∨ sign = ['-'])
    {d : Char} (hd : d.isDigit = true) : acceptSign (sign ++ d :: s) = (sign, d :: s) := by
  obtain ⟨hplus, hminus, -, -⟩ := digit_char hd
  obtain rfl | rfl | rfl := hsign
  · simp [acceptSign, hplus, hminus]
  · rfl
  · rfl

lemma decimalInt_digits {ds : Text} (h : ∀ d ∈ ds, d.isDigit = true) :
    decimalInt ds = decimalNat ds := by
  unfold decimalInt
  split
  · exact absurd rfl (digit_char (h _ mem_cons_self)).2.1
  · exact absurd rfl (digit_char (h _ mem_cons_self)).1
  · rfl

lemma first_separator_inj {sep : Char} {a b c d : Text} (ha : sep ∉ a) (hb : sep ∉ b)
    (h : a ++ sep :: c = b ++ sep :: d) : a = b ∧ c = d := by
  have hrev := congrArg reverse h
  simp only [reverse_append, reverse_cons, append_assoc] at hrev
  obtain ⟨hc, ha⟩ := append_separator_inj (by simpa using ha) (by simpa using hb) hrev
  exact ⟨reverse_injective ha, reverse_injective hc⟩

lemma span_digits {ds rest : Text} (hds : ∀ d ∈ ds, d.isDigit = true) (hrest : Stops rest) :
    (ds ++ rest).takeWhile Char.isDigit = ds ∧ (ds ++ rest).dropWhile Char.isDigit = rest := by
  have hnone : rest.takeWhile Char.isDigit = [] ∧ rest.dropWhile Char.isDigit = rest := by
    cases rest with
    | nil => exact ⟨rfl, rfl⟩
    | cons c rest => simp [hrest c rfl]
  rw [takeWhile_append_of_pos hds, dropWhile_append_of_pos hds, hnone.1, hnone.2, append_nil]
  exact ⟨rfl, rfl⟩

/-- `%d` takes blanks, a sign and digits, as far as there are digits. -/
theorem scanInt_eq_some {s rest : Text} {n : Int} : scanInt s = some (n, rest) ↔
    ∃ t : ScannedInt, s = t.text ++ rest ∧ n = t.value ∧ Stops rest := by
  constructor
  · intro hscan
    obtain ⟨s', hskip, h⟩ := Option.bind_eq_some_iff.mp hscan
    obtain ⟨blanks, rfl, hblanks⟩ := skipSpace_eq_some hskip
    obtain ⟨hsplit, hsign⟩ := acceptSign_spec s'
    generalize acceptSign s' = p at h hsplit hsign
    obtain ⟨sign, tail⟩ := p
    simp only at h hsplit hsign
    split at h
    · rename_i hok
      cases h
      refine ⟨⟨blanks, sign, _, hblanks, hsign, hok.1, fun d hd => mem_takeWhile_imp hd, hok.2⟩,
        ?_, rfl, ?_⟩
      · rw [ScannedInt.text, hsplit, append_assoc, append_assoc, takeWhile_append_dropWhile]
      · intro c hc
        have hhead := head?_dropWhile_not Char.isDigit tail
        rw [hc] at hhead
        exact hhead
    · cases h
  · rintro ⟨⟨blanks, sign, digits, hblanks, hsign, hne, hdigits, hfits⟩, rfl, rfl, hrest⟩
    obtain ⟨d, ds, rfl⟩ := exists_cons_of_ne_nil hne
    have hd := digit_char (hdigits d mem_cons_self)
    have hskip : skipSpace (blanks ++ (sign ++ d :: (ds ++ rest))) =
        some (sign ++ d :: (ds ++ rest)) := by
      apply skipSpace_append hblanks
      obtain rfl | rfl | rfl := hsign
      · exact fun c hc => Option.some.inj hc ▸ hd.2.2.2
      · exact fun c hc => Option.some.inj hc ▸ rfl
      · exact fun c hc => Option.some.inj hc ▸ rfl
    obtain ⟨htake, hdrop⟩ := span_digits hdigits hrest
    rw [cons_append] at htake hdrop
    simp only [scanInt, ScannedInt.text, append_assoc, cons_append, hskip, Option.bind_some,
      acceptSign_append hsign (hdigits d mem_cons_self), htake, hdrop]
    rw [if_pos ⟨hne, hfits⟩]
    rfl

namespace ScannedInt

def ofInt (n : Int) (h0 : 0 ≤ n) (h : n < 2 ^ 63) : ScannedInt where
  blanks := []
  sign := []
  digits := Nat.toDigits 10 n.natAbs
  blanks_ok := by simp
  sign_ok := .inl rfl
  digits_ne := Nat.toDigits_ne_nil
  digits_ok _ hd := isDigit_of_mem_toDigits hd
  fits := by
    have hvalue : decimalNat (Nat.toDigits 10 n.natAbs) = n.natAbs := Nat.ofDigitChars_ten_toDigits
    rw [nil_append, decimalInt_digits fun d hd => isDigit_of_mem_toDigits hd, hvalue]
    omega

variable {n : Int} {t : ScannedInt}

lemma itoaText_of_nonneg (h0 : 0 ≤ n) : itoaText n = Nat.toDigits 10 n.natAbs :=
  if_neg (not_lt.mpr h0)

lemma text_ofInt (h0 : 0 ≤ n) (h : n < 2 ^ 63) : (ofInt n h0 h).text = itoaText n :=
  (itoaText_of_nonneg h0).symm

lemma value_ofInt (h0 : 0 ≤ n) (h : n < 2 ^ 63) : (ofInt n h0 h).value = n := by
  have hvalue : decimalNat (Nat.toDigits 10 n.natAbs) = n.natAbs := Nat.ofDigitChars_ten_toDigits
  rw [value, ofInt, nil_append, decimalInt_digits fun d hd => isDigit_of_mem_toDigits hd]
  omega

lemma dot_notMem_text (t : ScannedInt) : '.' ∉ t.text := by
  intro hdot
  obtain hblank | hdot := mem_append.mp hdot
  · exact absurd (t.blanks_ok _ hblank).1 (by decide)
  · obtain hsign | hdigit := mem_append.mp hdot
    · obtain h | h | h := t.sign_ok <;> simp [h] at hsign
    · exact absurd (t.digits_ok _ hdigit) (by decide)

lemma plain_iff (h0 : 0 ≤ t.value) : t.Plain ↔ t.text = itoaText t.value := by
  rw [itoaText_of_nonneg h0]
  have hvalue : t.sign = [] → t.value.natAbs = decimalNat t.digits := by
    intro hsign
    rw [value, hsign, nil_append, decimalInt_digits t.digits_ok, Int.natAbs_natCast]
  constructor
  · rintro ⟨hblanks, hsign, hdigits⟩
    rw [text, hblanks, hsign, hvalue hsign, ← hdigits]
    rfl
  · intro htext
    have hall : ∀ c ∈ t.text, c.isDigit = true := fun c hc =>
      isDigit_of_mem_toDigits (htext ▸ hc)
    have hblanks : t.blanks = [] := by
      rw [eq_nil_iff_forall_not_mem]
      intro c hc
      have hspace := (digit_char (hall c (mem_append_left _ hc))).2.2.2
      rw [(t.blanks_ok c hc).1] at hspace
      cases hspace
    have hsign : t.sign = [] := by
      obtain h | h | h := t.sign_ok
      · exact h
      · exact absurd (hall '+' (by simp [text, h])) (by decide)
      · exact absurd (hall '-' (by simp [text, h])) (by decide)
    refine ⟨hblanks, hsign, ?_⟩
    rw [← hvalue hsign, ← htext, text, hblanks, hsign]
    rfl

end ScannedInt

end Symkernel.Library
