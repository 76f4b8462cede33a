import Symkernel.Library.Words

/-!
# LEB128

The variable-length integers of the WebAssembly binary format: seven bits a byte, the least
significant group first, bit 7 set on every byte but the last. `Unsigned N` and `Signed N`
are the grammar's `uN` and `sN`; encodings need not be the shortest ones.
-/

namespace Symkernel.Library.Leb128

open BitVec

inductive Unsigned : Nat → List UInt8 → Nat → Prop where
  | last {N : Nat} {x : UInt8} : x.toNat < 128 → x.toNat < 2 ^ N → Unsigned N [x] x.toNat
  | more {N : Nat} {x : UInt8} {bs : List UInt8} {n : Nat} : 128 ≤ x.toNat → 7 < N →
      Unsigned (N - 7) bs n → Unsigned N (x :: bs) (x.toNat % 128 + 128 * n)

inductive Signed : Nat → List UInt8 → Int → Prop where
  | nonneg {N : Nat} {x : UInt8} : x.toNat < 64 → x.toNat < 2 ^ (N - 1) → Signed N [x] x.toNat
  | neg {N : Nat} {x : UInt8} : 64 ≤ x.toNat → x.toNat < 128 → 128 ≤ x.toNat + 2 ^ (N - 1) →
      Signed N [x] (x.toNat - 128)
  | more {N : Nat} {x : UInt8} {bs : List UInt8} {n : Int} : 128 ≤ x.toNat → 7 < N →
      Signed (N - 7) bs n → Signed N (x :: bs) (x.toNat % 128 + 128 * n)

variable {N s w : Nat}

lemma Signed.bounds {bs : List UInt8} {n : Int} (h : Signed N bs n) (hpos : 0 < N) :
    -2 ^ (N - 1) ≤ n ∧ n < 2 ^ (N - 1) := by
  induction h with
  | @nonneg N x _ hx =>
    have hcast : (x.toNat : Int) < 2 ^ (N - 1) := by exact_mod_cast hx
    exact ⟨by omega, hcast⟩
  | @neg N x _ hlt hx =>
    have hcast : (128 : Int) ≤ x.toNat + 2 ^ (N - 1) := by exact_mod_cast hx
    exact ⟨by omega, by omega⟩
  | @more N x bs n _ hN _ ih =>
    have hpow : (2 : Int) ^ (N - 1) = 2 ^ (N - 7 - 1) * 128 := by
      rw [show N - 1 = N - 7 - 1 + 7 by omega, pow_add]
      rfl
    obtain ⟨hlo, hhi⟩ := ih (by omega)
    omega

def unsignedValue : List UInt8 → Nat
  | [] => 0
  | x :: bs => x.toNat % 128 + 128 * unsignedValue bs

/-- The value of the last group, its sixth bit taken for the sign. -/
def signedGroup (x : UInt8) : Int :=
  if x.toNat % 128 < 64 then x.toNat % 128 else x.toNat % 128 - 128

def signedValue : List UInt8 → Int
  | [] => 0
  | [x] => signedGroup x
  | x :: bs => x.toNat % 128 + 128 * signedValue bs

lemma unsignedValue_append (bs cs : List UInt8) :
    unsignedValue (bs ++ cs) = unsignedValue bs + 128 ^ bs.length * unsignedValue cs := by
  induction bs with
  | nil => simp [unsignedValue]
  | cons x bs ih =>
    rw [List.cons_append, unsignedValue, unsignedValue, ih, List.length_cons]
    ring

lemma unsignedValue_lt (bs : List UInt8) : unsignedValue bs < 128 ^ bs.length := by
  induction bs with
  | nil => simp [unsignedValue]
  | cons x bs ih =>
    rw [unsignedValue, List.length_cons]
    omega

lemma signedValue_cons (y : UInt8) (bs : List UInt8) (x : UInt8) :
    signedValue (y :: (bs ++ [x])) = y.toNat % 128 + 128 * signedValue (bs ++ [x]) := by
  cases bs <;> rfl

lemma signedValue_append_singleton (bs : List UInt8) (x : UInt8) :
    signedValue (bs ++ [x]) = unsignedValue bs + 128 ^ bs.length * signedGroup x := by
  induction bs with
  | nil => simp [signedValue, unsignedValue]
  | cons y bs ih =>
    rw [List.cons_append, signedValue_cons, ih, unsignedValue, List.length_cons]
    push_cast
    ring

def encodeUnsigned (n : Nat) : List UInt8 :=
  if n < 128 then [UInt8.ofNat n] else UInt8.ofNat (n % 128 + 128) :: encodeUnsigned (n / 128)

def encodeSigned (n : Int) : List UInt8 :=
  if -64 ≤ n ∧ n < 64 then [UInt8.ofNat (n % 128).toNat]
  else UInt8.ofNat ((n % 128).toNat + 128) :: encodeSigned (n / 128)
termination_by n.natAbs
decreasing_by omega

lemma toNat_ofNat_byte {n : Nat} (h : n < 256) : (UInt8.ofNat n).toNat = n := by
  rw [UInt8.toNat_ofNat', Nat.mod_eq_of_lt h]

lemma unsigned_encodeUnsigned {n : Nat} (hN : 0 < N) (hn : n < 2 ^ N) :
    Unsigned N (encodeUnsigned n) n := by
  induction n using Nat.strong_induction_on generalizing N with
  | _ n ih =>
    rw [encodeUnsigned]
    by_cases hsmall : n < 128
    · rw [if_pos hsmall]
      have hbyte := toNat_ofNat_byte (show n < 256 by omega)
      have hlast := Unsigned.last (N := N) (x := UInt8.ofNat n)
      rw [hbyte] at hlast
      exact hlast hsmall hn
    · rw [if_neg hsmall]
      have hmore : 7 < N := by
        by_contra hle
        have hpow : 2 ^ N ≤ 2 ^ 7 := Nat.pow_le_pow_right (by omega) (by omega)
        omega
      have hquot : n / 128 < 2 ^ (N - 7) := by
        rw [Nat.div_lt_iff_lt_mul (by omega), show 128 = 2 ^ 7 by rfl, ← Nat.pow_add,
          show N - 7 + 7 = N by omega]
        exact hn
      have hbyte := toNat_ofNat_byte (show n % 128 + 128 < 256 by omega)
      have hstep := Unsigned.more (x := UInt8.ofNat (n % 128 + 128)) (by rw [hbyte]; omega) hmore
        (ih (n / 128) (by omega) (by omega) hquot)
      have hvalue : (n % 128 + 128) % 128 + 128 * (n / 128) = n := by omega
      rwa [hbyte, hvalue] at hstep

lemma signed_encodeSigned {n : Int} (hN : 0 < N) (hlo : -2 ^ (N - 1) ≤ n) (hhi : n < 2 ^ (N - 1)) :
    Signed N (encodeSigned n) n := by
  induction hm : n.natAbs using Nat.strong_induction_on generalizing N n with
  | _ m ih =>
    have hcast : ((2 ^ (N - 1) : Nat) : Int) = 2 ^ (N - 1) := by push_cast; rfl
    rw [encodeSigned]
    by_cases hsmall : -64 ≤ n ∧ n < 64
    · rw [if_pos hsmall]
      have hbyte := toNat_ofNat_byte (show (n % 128).toNat < 256 by omega)
      by_cases hneg : n < 0
      · have hlast := Signed.neg (N := N) (x := UInt8.ofNat (n % 128).toNat)
        rw [hbyte, show (((n % 128).toNat : Nat) : Int) - 128 = n by omega] at hlast
        exact hlast (by omega) (by omega) (by omega)
      · have hlast := Signed.nonneg (N := N) (x := UInt8.ofNat (n % 128).toNat)
        rw [hbyte, show (((n % 128).toNat : Nat) : Int) = n by omega] at hlast
        exact hlast (by omega) (by omega)
    · rw [if_neg hsmall]
      have hmore : 7 < N := by
        by_contra hle
        have hpow : 2 ^ (N - 1) ≤ 2 ^ 6 := Nat.pow_le_pow_right (by omega) (by omega)
        omega
      have hpow : (2 : Int) ^ (N - 1) = 2 ^ (N - 7 - 1) * 128 := by
        rw [show N - 1 = N - 7 - 1 + 7 by omega, pow_add]
        rfl
      have hbyte := toNat_ofNat_byte (show (n % 128).toNat + 128 < 256 by omega)
      have hstep := Signed.more (x := UInt8.ofNat ((n % 128).toNat + 128)) (by rw [hbyte]; omega)
        hmore (ih (n / 128).natAbs (by omega) (by omega) (by omega) (by omega) rfl)
      rw [hbyte] at hstep
      have hvalue : (((n % 128).toNat + 128 : Nat) : Int) % 128 + 128 * (n / 128) = n := by omega
      rwa [hvalue] at hstep

lemma payload (x : UInt8) : (x &&& 127).toNat = x.toNat % 128 := by
  exact Nat.and_two_pow_sub_one_eq_mod x.toNat 7

lemma last_iff : ∀ x : UInt8, x &&& 128 = 0 ↔ x.toNat < 128 := by
  decide +kernel

lemma sign_iff : ∀ x : UInt8, x &&& 64 = 0 ↔ x.toNat % 128 < 64 := by
  decide +kernel

lemma toNat_or_group (hs : s ≤ w) {acc : BitVec w} (hacc : acc.toNat < 2 ^ s) (x : Nat) :
    (acc ||| (BitVec.ofNat w x <<< s)).toNat = (acc.toNat + x * 2 ^ s) % 2 ^ w := by
  have hw : 2 ^ w = 2 ^ s * 2 ^ (w - s) := by
    rw [← Nat.pow_add, show s + (w - s) = w by omega]
  have hgroup : x * 2 ^ s % 2 ^ w = 2 ^ s * (x % 2 ^ (w - s)) := by
    rw [hw, Nat.mul_comm x, Nat.mul_mod_mul_left]
  have hlt : x % 2 ^ (w - s) < 2 ^ (w - s) := Nat.mod_lt _ (Nat.two_pow_pos _)
  have hsum : acc.toNat + 2 ^ s * (x % 2 ^ (w - s)) < 2 ^ w := by
    have hle : 2 ^ s * (x % 2 ^ (w - s) + 1) ≤ 2 ^ s * 2 ^ (w - s) := Nat.mul_le_mul_left _ hlt
    rw [Nat.mul_add] at hle
    omega
  rw [toNat_or, toNat_shiftLeft, toNat_ofNat, Nat.shiftLeft_eq,
    Nat.mod_mul_mod, hgroup, Nat.or_comm, ← Nat.two_pow_add_eq_or_of_lt hacc, Nat.add_mod,
    hgroup, Nat.mod_eq_of_lt acc.isLt, Nat.mod_eq_of_lt hsum, Nat.add_comm]

lemma or_group (hs : s ≤ w) {acc : BitVec w} (hacc : acc.toNat < 2 ^ s) (x : Nat) :
    acc ||| (BitVec.ofNat w x <<< s) = BitVec.ofInt w (acc.toNat + x * 2 ^ s) := by
  apply eq_of_toNat_eq
  rw [toNat_or_group hs hacc, show ((acc.toNat : Int) + x * 2 ^ s) = ((acc.toNat + x * 2 ^ s : Nat) : Int)
    by push_cast; rfl, ofInt_natCast, toNat_ofNat]

end Symkernel.Library.Leb128
