import Mathlib

/-!
# Narrow integers in a machine word

A `w`-bit integer is kept sign-extended in a word of `v` bits.
-/

namespace Symkernel.Library

open BitVec

section Words

variable {v w : Nat}

@[simp] lemma setWidth_signExtend (a : BitVec w) (h : w ≤ v) : (a.signExtend v).setWidth w = a := by
  ext i hi
  simp only [getElem_setWidth, getLsbD_signExtend, hi, if_true, Bool.and_eq_right_iff_imp,
    getLsbD_eq_getElem]
  intro _
  simp
  omega

lemma signExtend_inj (a b : BitVec w) (h : w ≤ v) : a.signExtend v = b.signExtend v ↔ a = b := by
  constructor
  · intro he
    rw [← setWidth_signExtend a h, he, setWidth_signExtend b h]
  · rintro rfl
    rfl

lemma beq_signExtend (a b : BitVec w) (h : w ≤ v) :
    (a.signExtend v == b.signExtend v) = (a == b) := by
  rw [Bool.eq_iff_iff, beq_iff_eq, beq_iff_eq, signExtend_inj a b h]

lemma slt_signExtend (a b : BitVec w) (h : w ≤ v) :
    (a.signExtend v).slt (b.signExtend v) = a.slt b := by
  simp only [slt_eq_decide, toInt_signExtend_of_le h]

lemma sle_signExtend (a b : BitVec w) (h : w ≤ v) :
    (a.signExtend v).sle (b.signExtend v) = a.sle b := by
  simp only [sle_eq_decide, toInt_signExtend_of_le h]

def lowMask (v w : Nat) : BitVec v :=
  (1#v <<< w) - 1#v

lemma toNat_lowMask (h : w < v) : (lowMask v w).toNat = 2 ^ w - 1 := by
  have hlt : 2 ^ w < 2 ^ v := Nat.pow_lt_pow_right (by omega) h
  have hpos : 0 < 2 ^ w := Nat.two_pow_pos w
  have hone : 1 < 2 ^ v := by omega
  rw [lowMask, toNat_sub, toNat_shiftLeft, toNat_ofNat,
    Nat.mod_eq_of_lt hone, Nat.shiftLeft_eq, Nat.one_mul, Nat.mod_eq_of_lt hlt,
    show 2 ^ v - 1 + 2 ^ w = 2 ^ w - 1 + 2 ^ v by omega, Nat.add_mod_right]
  exact Nat.mod_eq_of_lt (by omega)

lemma toNat_and_lowMask (a : BitVec v) (h : w < v) :
    (a &&& lowMask v w).toNat = (a.setWidth w).toNat := by
  rw [toNat_and, toNat_lowMask h, Nat.and_two_pow_sub_one_eq_mod, toNat_setWidth]

/-- The unsigned reading of a word that holds a `w`-bit integer. -/
def unsignedWord (a : BitVec v) (w : Nat) : BitVec v :=
  if w < v then a &&& lowMask v w else a

lemma toNat_unsignedWord (a : BitVec w) (h : w ≤ v) :
    (unsignedWord (a.signExtend v) w).toNat = a.toNat := by
  unfold unsignedWord
  by_cases hlt : w < v
  · rw [if_pos hlt, toNat_and_lowMask _ hlt, setWidth_signExtend a h]
  · obtain rfl : w = v := by omega
    rw [if_neg hlt, signExtend_eq]

lemma ult_unsignedWord (a b : BitVec w) (h : w ≤ v) :
    (unsignedWord (a.signExtend v) w).ult (unsignedWord (b.signExtend v) w) = a.ult b := by
  simp only [ult_eq_decide, toNat_unsignedWord a h, toNat_unsignedWord b h]

lemma ule_unsignedWord (a b : BitVec w) (h : w ≤ v) :
    (unsignedWord (a.signExtend v) w).ule (unsignedWord (b.signExtend v) w) = a.ule b := by
  simp only [ule_eq_decide, toNat_unsignedWord a h, toNat_unsignedWord b h]

lemma setWidth_sub (a b : BitVec v) (h : w ≤ v) :
    (a - b).setWidth w = a.setWidth w - b.setWidth w := by
  rw [BitVec.sub_eq_add_neg, setWidth_add _ _ h, setWidth_neg_of_le h, ← BitVec.sub_eq_add_neg]

end Words

end Symkernel.Library
