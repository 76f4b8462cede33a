import Symkernel.Library.GoJson

/-!
# Decimal numbers as bytes

`strconv.Itoa` and `strconv.ParseInt` for base 10 and 64 bits, on the bytes of their texts.
-/

namespace Symkernel.Library

open List

def charByte (c : Char) : UInt8 := c.toNat.toUInt8

def isDigitByte (b : UInt8) : Bool := 0x30 ≤ b && b ≤ 0x39

def itoaNat (n : Nat) : GoString := (Nat.toDigits 10 n).map charByte

def itoa (n : Int) : GoString :=
  if n < 0 then 0x2d :: itoaNat n.natAbs else itoaNat n.natAbs

def decimalOf (ds : GoString) : Nat :=
  ds.foldl (fun n b => 10 * n + (b.toNat - 0x30)) 0

def parseDigits (s : GoString) : Option Nat :=
  if s ≠ [] ∧ s.all isDigitByte then some (decimalOf s) else none

def parseInt64 (s : GoString) : Option Int :=
  if s.head? = some 0x2d then
    (parseDigits s.tail).bind fun n => if n ≤ 2 ^ 63 then some (-n) else none
  else if s.head? = some 0x2b then
    (parseDigits s.tail).bind fun n => if n < 2 ^ 63 then some n else none
  else (parseDigits s).bind fun n => if n < 2 ^ 63 then some n else none

lemma toNat_charByte {c : Char} (h : c.isDigit = true) : (charByte c).toNat = c.toNat := by
  have hle : c.toNat ≤ 57 := by
    simp only [Char.isDigit, Bool.and_eq_true, decide_eq_true_eq] at h
    exact h.2
  unfold charByte
  rw [Nat.toUInt8, UInt8.toNat_ofNat']
  omega

lemma isDigitByte_charByte {c : Char} (h : c.isDigit = true) : isDigitByte (charByte c) = true := by
  have hbyte := toNat_charByte h
  simp only [Char.isDigit, Bool.and_eq_true, decide_eq_true_eq] at h
  simp only [isDigitByte, Bool.and_eq_true, decide_eq_true_eq, UInt8.le_iff_toNat_le, hbyte]
  exact h

lemma itoaNat_digits (n : Nat) : (itoaNat n).all isDigitByte = true := by
  rw [all_eq_true]
  intro b hb
  obtain ⟨c, hc, rfl⟩ := List.mem_map.mp hb
  exact isDigitByte_charByte (isDigit_of_mem_toDigits hc)

lemma itoaNat_ne_nil (n : Nat) : itoaNat n ≠ [] := by
  unfold itoaNat
  rw [Ne, map_eq_nil_iff]
  exact Nat.toDigits_ne_nil

lemma decimalOf_zeros (zeros : Nat) (ds : GoString) :
    decimalOf (List.replicate zeros 0x30 ++ ds) = decimalOf ds := by
  induction zeros with
  | zero => rfl
  | succ zeros ih => exact ih

lemma decimalOf_itoaNat (n : Nat) : decimalOf (itoaNat n) = n := by
  have hfold : ∀ (cs : List Char) (acc : Nat), (∀ c ∈ cs, c.isDigit = true) →
      (cs.map charByte).foldl (fun n b => 10 * n + (b.toNat - 0x30)) acc =
        Nat.ofDigitChars 10 cs acc := by
    intro cs
    induction cs with
    | nil => exact fun _ _ => rfl
    | cons c cs ih =>
      intro acc hcs
      rw [map_cons, foldl_cons, toNat_charByte (hcs c mem_cons_self),
        ih _ fun d hd => hcs d (mem_cons_of_mem c hd)]
      rfl
  unfold decimalOf itoaNat
  rw [hfold _ 0 fun c hc => isDigit_of_mem_toDigits hc]
  exact Nat.ofDigitChars_toDigits (by decide) (by decide)

/-- The texts that denote `n`: any number of zeros before the shortest. -/
def decimalText (zeros n : Nat) : GoString := List.replicate zeros 0x30 ++ itoaNat n

lemma decimalOf_decimalText (zeros n : Nat) : decimalOf (decimalText zeros n) = n := by
  rw [decimalText, decimalOf_zeros, decimalOf_itoaNat]

lemma decimalText_digits (zeros n : Nat) : (decimalText zeros n).all isDigitByte = true := by
  rw [decimalText, all_append, itoaNat_digits, Bool.and_true, all_eq_true]
  intro b hb
  rw [eq_of_mem_replicate hb]
  decide

lemma parseDigits_decimalText (zeros n : Nat) : parseDigits (decimalText zeros n) = some n := by
  have hne : decimalText zeros n ≠ [] := by
    intro h
    exact itoaNat_ne_nil n (List.append_eq_nil_iff.mp h).2
  unfold parseDigits
  rw [if_pos ⟨hne, decimalText_digits zeros n⟩, decimalOf_decimalText]

variable {b : UInt8}

lemma notMem_decimalText (hb : isDigitByte b = false) (zeros n : Nat) :
    b ∉ decimalText zeros n := by
  intro hmem
  have hdigit := List.all_eq_true.mp (decimalText_digits zeros n) b hmem
  rw [hb] at hdigit
  cases hdigit

lemma parseInt64_decimalText (zeros n : Nat) :
    parseInt64 (decimalText zeros n) = if n < 2 ^ 63 then some (n : Int) else none := by
  have hhead : ∀ b, isDigitByte b = false → (decimalText zeros n).head? ≠ some b :=
    fun b hb h => notMem_decimalText hb zeros n (List.mem_of_mem_head? h)
  unfold parseInt64
  rw [if_neg (hhead 0x2d (by decide)), if_neg (hhead 0x2b (by decide)), parseDigits_decimalText]
  rfl

lemma parseInt64_minus (zeros n : Nat) :
    parseInt64 (0x2d :: decimalText zeros n) = if n ≤ 2 ^ 63 then some (-n : Int) else none := by
  unfold parseInt64
  rw [List.head?_cons, if_pos rfl, tail_cons, parseDigits_decimalText]
  rfl

lemma parseInt64_plus (zeros n : Nat) :
    parseInt64 (0x2b :: decimalText zeros n) = if n < 2 ^ 63 then some (n : Int) else none := by
  unfold parseInt64
  rw [List.head?_cons, if_neg (by decide), if_pos rfl, tail_cons, parseDigits_decimalText]
  rfl

lemma isDigitByte_iff : isDigitByte b = true ↔ 0x30 ≤ b.toNat ∧ b.toNat ≤ 0x39 := by
  rw [isDigitByte, Bool.and_eq_true, decide_eq_true_eq, decide_eq_true_eq]
  rfl

lemma itoaNat_of_digit (h : isDigitByte b = true) : itoaNat (b.toNat - 0x30) = [b] := by
  obtain ⟨hlow, hhigh⟩ := isDigitByte_iff.mp h
  obtain ⟨d, hd⟩ : ∃ d, b.toNat = 0x30 + d := ⟨b.toNat - 0x30, by omega⟩
  have hb : b = UInt8.ofNat (0x30 + d) := by rw [← hd, UInt8.ofNat_toNat]
  have hlt : d < 10 := by omega
  rw [hb]
  clear hb hd
  interval_cases d <;> rfl

lemma itoaNat_append_digit {n : Nat} (hn : 0 < n) (h : isDigitByte b = true) :
    itoaNat n ++ [b] = itoaNat (10 * n + (b.toNat - 0x30)) := by
  have hlt : b.toNat - 0x30 < 10 := by
    have hhigh := (isDigitByte_iff.mp h).2
    omega
  rw [← itoaNat_of_digit h]
  unfold itoaNat
  rw [← map_append, Nat.toDigits_append_toDigits (by decide) hn hlt]

variable {s : GoString}

lemma exists_decimalText (hne : s ≠ []) (h : s.all isDigitByte = true) :
    ∃ zeros n, s = decimalText zeros n := by
  induction s using reverseRecOn with
  | nil => exact absurd rfl hne
  | append_singleton s b ih =>
    rw [all_append, Bool.and_eq_true, all_cons, all_nil, Bool.and_true] at h
    by_cases hs : s = []
    · refine ⟨0, b.toNat - 0x30, ?_⟩
      rw [hs, decimalText, itoaNat_of_digit h.2]
      rfl
    · obtain ⟨zeros, n, hn⟩ := ih hs h.1
      rw [hn]
      by_cases h0 : n = 0
      · refine ⟨zeros + 1, b.toNat - 0x30, ?_⟩
        rw [h0, decimalText, decimalText, itoaNat_of_digit h.2, replicate_succ']
        rfl
      · refine ⟨zeros, 10 * n + (b.toNat - 0x30), ?_⟩
        rw [decimalText, append_assoc, itoaNat_append_digit (by omega) h.2, decimalText]

lemma exists_of_parseDigits {n : Nat} (h : parseDigits s = some n) :
    ∃ zeros, s = decimalText zeros n := by
  unfold parseDigits at h
  split at h
  · rename_i hs
    obtain ⟨zeros, m, rfl⟩ := exists_decimalText hs.1 hs.2
    rw [decimalOf_decimalText] at h
    cases h
    exact ⟨zeros, rfl⟩
  · cases h

variable {n : Int}

lemma parseInt64_cases (h : parseInt64 s = some n) :
    ∃ zeros m : Nat, (s = decimalText zeros m ∧ n = m ∧ m < 2 ^ 63) ∨
      (s = 0x2b :: decimalText zeros m ∧ n = m ∧ m < 2 ^ 63) ∨
      (s = 0x2d :: decimalText zeros m ∧ n = -m ∧ m ≤ 2 ^ 63) := by
  have htail : ∀ {b : UInt8}, s.head? = some b → s = b :: s.tail :=
    fun hb => (List.cons_head?_tail hb).symm
  unfold parseInt64 at h
  split at h
  · rename_i hminus
    obtain ⟨m, hm, hn⟩ := Option.bind_eq_some_iff.mp h
    obtain ⟨zeros, hzeros⟩ := exists_of_parseDigits hm
    split at hn
    · cases hn
      exact ⟨zeros, m, .inr (.inr ⟨hzeros ▸ htail hminus, rfl, by assumption⟩)⟩
    · cases hn
  · split at h
    · rename_i hplus
      obtain ⟨m, hm, hn⟩ := Option.bind_eq_some_iff.mp h
      obtain ⟨zeros, hzeros⟩ := exists_of_parseDigits hm
      split at hn
      · cases hn
        exact ⟨zeros, m, .inr (.inl ⟨hzeros ▸ htail hplus, rfl, by assumption⟩)⟩
      · cases hn
    · obtain ⟨m, hm, hn⟩ := Option.bind_eq_some_iff.mp h
      obtain ⟨zeros, hzeros⟩ := exists_of_parseDigits hm
      split at hn
      · cases hn
        exact ⟨zeros, m, .inl ⟨hzeros, rfl, by assumption⟩⟩
      · cases hn

lemma parseInt64_lt (h : parseInt64 s = some n) : n < 2 ^ 63 := by
  obtain ⟨zeros, m, ⟨-, hn, hm⟩ | ⟨-, hn, hm⟩ | ⟨-, hn, hm⟩⟩ := parseInt64_cases h
  all_goals omega

lemma exists_of_parseInt64_digits (h : parseInt64 s = some n) (hdigits : s.all isDigitByte = true) :
    ∃ zeros m : Nat, s = decimalText zeros m ∧ n = m := by
  obtain ⟨zeros, m, ⟨hs, hn, -⟩ | ⟨hs, -, -⟩ | ⟨hs, -, -⟩⟩ := parseInt64_cases h
  · exact ⟨zeros, m, hs, hn⟩
  all_goals
    rw [hs] at hdigits
    cases hdigits

lemma itoaNat_ascii {n : Nat} : ∀ b ∈ itoaNat n, b < 0x80 := by
  intro b hb
  have hdigit := isDigitByte_iff.mp (List.all_eq_true.mp (itoaNat_digits n) b hb)
  exact lt_of_le_of_lt hdigit.2 (by decide)

lemma itoa_ascii : ∀ b ∈ itoa n, b < 0x80 := by
  intro b hb
  unfold itoa at hb
  split at hb
  · obtain rfl | hb := List.mem_cons.mp hb
    · decide
    · exact itoaNat_ascii b hb
  · exact itoaNat_ascii b hb

lemma itoaNat_injective : Function.Injective itoaNat :=
  Function.LeftInverse.injective decimalOf_itoaNat

lemma itoa_injective : Function.Injective itoa := by
  have hsign : ∀ (ds : GoString) (a : Nat), 0x2d :: ds ≠ itoaNat a := by
    intro ds a h
    have hmem : 0x2d ∈ itoaNat a := h ▸ mem_cons_self
    exact absurd (List.all_eq_true.mp (itoaNat_digits a) _ hmem) (by decide)
  intro m n h
  unfold itoa at h
  split at h <;> split at h
  · have := itoaNat_injective (List.cons.inj h).2
    omega
  · exact absurd h (hsign _ _)
  · exact absurd h.symm (hsign _ _)
  · have := itoaNat_injective h
    omega

def itoaText (n : Int) : List Char :=
  if n < 0 then '-' :: Nat.toDigits 10 n.natAbs else Nat.toDigits 10 n.natAbs

lemma mem_itoaText {c : Char} (h : c ∈ itoaText n) : c = '-' ∨ c.isDigit = true := by
  unfold itoaText at h
  split at h
  · obtain rfl | hc := List.mem_cons.mp h
    · exact .inl rfl
    · exact .inr (isDigit_of_mem_toDigits hc)
  · exact .inr (isDigit_of_mem_toDigits h)

lemma itoaText_injective : Function.Injective itoaText := by
  have hdigits : ∀ a b : Nat, Nat.toDigits 10 a = Nat.toDigits 10 b → a = b := by
    intro a b h
    have hread := congrArg (fun ds => Nat.ofDigitChars 10 ds 0) h
    rwa [Nat.ofDigitChars_toDigits (by decide) (by decide),
      Nat.ofDigitChars_toDigits (by decide) (by decide)] at hread
  have hsign : ∀ (ds : List Char) (a : Nat), '-' :: ds ≠ Nat.toDigits 10 a := by
    intro ds a h
    have hmem : '-' ∈ Nat.toDigits 10 a := h ▸ mem_cons_self
    exact absurd (isDigit_of_mem_toDigits hmem) (by decide)
  intro m n h
  unfold itoaText at h
  split at h <;> split at h
  · have := hdigits _ _ (List.cons.inj h).2
    omega
  · exact absurd h (hsign _ _)
  · exact absurd h.symm (hsign _ _)
  · have := hdigits _ _ h
    omega

end Symkernel.Library
