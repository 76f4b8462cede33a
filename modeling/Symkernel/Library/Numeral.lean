import Mathlib

/-!
# Decimal numerals

The numbers of JSON as they are written: a sign, an integer without leading zeros, a fraction
and an exponent. A numeral keeps its text; its value is the rational number that it denotes.
-/

namespace Symkernel.Library

def decimalNat (ds : List Char) : Nat :=
  Nat.ofDigitChars 10 ds 0

def decimalInt : List Char → Int
  | '-' :: ds => -decimalNat ds
  | '+' :: ds => decimalNat ds
  | ds => decimalNat ds

def isMark (c : Char) : Bool :=
  c == 'e' || c == 'E'

def unsignedValue (cs : List Char) : Rat :=
  let mantissa := cs.takeWhile (!isMark ·)
  let exponent := (cs.dropWhile (!isMark ·)).drop 1
  let whole := mantissa.takeWhile (· != '.')
  let fraction := (mantissa.dropWhile (· != '.')).drop 1
  (decimalNat (whole ++ fraction) : Rat) * 10 ^ (decimalInt exponent - fraction.length)

def decimalValue : List Char → Rat
  | '-' :: cs => -unsignedValue cs
  | cs => unsignedValue cs

structure Exponent where
  mark : Char
  sign : List Char
  digits : List Char
  mark_ok : mark = 'e' ∨ mark = 'E'
  sign_ok : sign = [] ∨ sign = ['+'] ∨ sign = ['-']
  digits_ne : digits ≠ []
  digits_ok : ∀ d ∈ digits, d.isDigit = true
  deriving DecidableEq

/-- A number as JSON writes it; an empty fraction stands for none. -/
structure Numeral where
  negative : Bool
  whole : Nat
  fraction : List Char
  exponent : Option Exponent
  fraction_ok : ∀ d ∈ fraction, d.isDigit = true
  deriving DecidableEq

namespace Numeral

def exponentText (n : Numeral) : List Char :=
  match n.exponent with
  | none => []
  | some e => e.mark :: (e.sign ++ e.digits)

def fractionText (n : Numeral) : List Char :=
  if n.fraction = [] then [] else '.' :: n.fraction

def unsigned (n : Numeral) : List Char :=
  Nat.toDigits 10 n.whole ++ (n.fractionText ++ n.exponentText)

def chars (n : Numeral) : List Char :=
  if n.negative then '-' :: n.unsigned else n.unsigned

def text (n : Numeral) : String :=
  String.ofList n.chars

def value (n : Numeral) : Rat :=
  decimalValue n.chars

def isInteger (n : Numeral) : Bool :=
  n.fraction.isEmpty && n.exponent.isNone

def intValue (n : Numeral) : Int :=
  if n.negative then -n.whole else n.whole

end Numeral

lemma append_separator_inj {α : Type*} {sep : α} {a b c d : List α} (hc : sep ∉ c) (hd : sep ∉ d)
    (h : a ++ sep :: c = b ++ sep :: d) : a = b ∧ c = d := by
  rw [List.append_eq_append_iff] at h
  obtain ⟨e, rfl, he⟩ | ⟨e, rfl, he⟩ := h
  · cases e with
    | nil => simpa using he
    | cons x e =>
      rw [List.cons_append, List.cons.injEq] at he
      exact absurd (by simp [he.2]) hc
  · cases e with
    | nil => simpa using he.symm
    | cons x e =>
      rw [List.cons_append, List.cons.injEq] at he
      exact absurd (by simp [he.2]) hd

lemma isDigit_of_mem_toDigits {n : Nat} {c : Char} (h : c ∈ Nat.toDigits 10 n) : c.isDigit = true :=
  Nat.isDigit_of_mem_toDigits (by decide) (by decide) h

lemma unsignedValue_digits {ds : List Char} (h : ∀ d ∈ ds, d.isDigit = true) :
    unsignedValue ds = decimalNat ds := by
  have hmark : ∀ d ∈ ds, (!isMark d) = true := by
    intro d hd
    rw [Bool.not_eq_true', isMark, Bool.or_eq_false_iff, beq_eq_false_iff_ne, beq_eq_false_iff_ne]
    constructor <;> rintro rfl <;> exact absurd (h _ hd) (by decide)
  have hpoint : ∀ d ∈ ds, (d != '.') = true := by
    intro d hd
    rw [bne_iff_ne]
    rintro rfl
    exact absurd (h _ hd) (by decide)
  have hmantissa : ds.takeWhile (!isMark ·) = ds := List.takeWhile_eq_self_iff.mpr hmark
  have hexponent : ds.dropWhile (!isMark ·) = [] := List.dropWhile_eq_nil_iff.mpr hmark
  have hwhole : ds.takeWhile (· != '.') = ds := List.takeWhile_eq_self_iff.mpr hpoint
  have hfraction : ds.dropWhile (· != '.') = [] := List.dropWhile_eq_nil_iff.mpr hpoint
  simp [unsignedValue, hmantissa, hexponent, hwhole, hfraction, decimalInt, decimalNat]

lemma decimalValue_digits {ds : List Char} (h : ∀ d ∈ ds, d.isDigit = true) :
    decimalValue ds = decimalNat ds := by
  unfold decimalValue
  split
  · exact absurd (h '-' (by simp)) (by decide)
  · exact unsignedValue_digits h

lemma Numeral.value_of_isInteger {n : Numeral} (h : n.isInteger = true) : n.value = n.intValue := by
  rw [Numeral.isInteger, Bool.and_eq_true, List.isEmpty_iff, Option.isNone_iff_eq_none] at h
  have hunsigned : n.unsigned = Nat.toDigits 10 n.whole := by
    simp [Numeral.unsigned, Numeral.fractionText, Numeral.exponentText, h.1, h.2]
  have hdigits : ∀ d ∈ Nat.toDigits 10 n.whole, d.isDigit = true :=
    fun _ hd => isDigit_of_mem_toDigits hd
  have hvalue : decimalNat (Nat.toDigits 10 n.whole) = n.whole := Nat.ofDigitChars_ten_toDigits
  rw [Numeral.value, Numeral.chars, Numeral.intValue, hunsigned]
  cases n.negative with
  | false =>
    simp only [Bool.false_eq_true, if_false]
    rw [decimalValue_digits hdigits, hvalue]
    simp
  | true =>
    simp only [if_true, decimalValue]
    rw [unsignedValue_digits hdigits, hvalue]
    simp

end Symkernel.Library
