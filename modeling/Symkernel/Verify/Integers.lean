import Symkernel.Library.Leb128
import Symkernel.Verify.Decode

/-!
# Reading LEB128 integers
-/

namespace Symkernel.Verify

open Library Library.Leb128 List

lemma pow_seven (s : Nat) : 2 ^ (s + 7) = 2 ^ s * 128 := by
  rw [Nat.pow_add]

variable {N k s shift : Nat}

lemma collected_lt {a x : Nat} (ha : a < 2 ^ s) (hx : x < 128) : a + x * 2 ^ s < 2 ^ (s + 7) := by
  have hle : x * 2 ^ s ≤ 127 * 2 ^ s := Nat.mul_le_mul_right _ (by omega)
  rw [pow_seven]
  omega

variable {b bs rest front : List UInt8}

variable {x : UInt8}

structure Groups (b front : List UInt8) (x : UInt8) (rest : List UInt8) : Prop where
  eq : b = front ++ x :: rest
  more : ∀ y ∈ front, 128 ≤ y.toNat
  last : x.toNat < 128

lemma Groups.cons {y : UInt8} (h : Groups b front x rest) (hy : 128 ≤ y.toNat) :
    Groups (y :: b) (y :: front) x rest where
  eq := by rw [h.eq, List.cons_append]
  more := List.forall_mem_cons.mpr ⟨hy, h.more⟩
  last := h.last

lemma not_last_iff (x : UInt8) : ¬x &&& 128 = 0 ↔ 128 ≤ x.toNat := by
  rw [last_iff, not_lt]

lemma groups_of_unsigned {n : Nat} (h : Unsigned N bs n) (hpos : 0 < N) (rest : List UInt8) :
    ∃ front x, Groups (bs ++ rest) front x rest ∧ 7 * front.length < N ∧
      Leb128.unsignedValue (front ++ [x]) = n ∧ n < 2 ^ N := by
  induction h with
  | @last N x hx hxN =>
    refine ⟨[], x, ⟨rfl, by simp, hx⟩, hpos, ?_, hxN⟩
    simp [Leb128.unsignedValue, Nat.mod_eq_of_lt hx]
  | @more N x bs n hx hN _ ih =>
    obtain ⟨front, y, hgroups, hlen, hvalue, hlt⟩ := ih (by omega)
    refine ⟨x :: front, y, hgroups.cons hx, by rw [length_cons]; omega, ?_, ?_⟩
    · rw [cons_append, Leb128.unsignedValue, hvalue]
    · rw [show N = N - 7 + 7 by omega, pow_seven]
      omega

lemma groups_of_signed {n : Int} (h : Signed N bs n) (hpos : 0 < N) (rest : List UInt8) :
    ∃ front x, Groups (bs ++ rest) front x rest ∧ 7 * front.length < N ∧
      signedValue (front ++ [x]) = n := by
  induction h with
  | @nonneg N x hx hxN =>
    refine ⟨[], x, ⟨rfl, by simp, by omega⟩, hpos, ?_⟩
    rw [nil_append, signedValue, signedGroup]
    omega
  | @neg N x hx64 hx hxN =>
    refine ⟨[], x, ⟨rfl, by simp, hx⟩, hpos, ?_⟩
    rw [nil_append, signedValue, signedGroup]
    omega
  | @more N x bs n hx hN _ ih =>
    obtain ⟨front, y, hgroups, hlen, hvalue⟩ := ih (by omega)
    refine ⟨x :: front, y, hgroups.cons hx, by rw [length_cons]; omega, ?_⟩
    rw [cons_append, signedValue_cons, hvalue]

lemma readU32Loop_groups (h : Groups b front x rest) (hlen : front.length < k)
    (hk : shift + 7 * k = 35) {acc : BitVec 32} (hacc : acc.toNat < 2 ^ shift) :
    readU32Loop k shift acc b =
      .ok ((acc.toNat + Leb128.unsignedValue (front ++ [x]) * 2 ^ shift) % 2 ^ 32, rest) := by
  obtain ⟨rfl, hmore, hlast⟩ := h
  induction front generalizing k shift acc with
  | nil =>
    obtain ⟨k, rfl⟩ : ∃ j, k = j + 1 := ⟨k - 1, by simp at hlen; omega⟩
    rw [nil_append, readU32Loop]
    simp only [payload]
    rw [if_pos ((last_iff x).mpr hlast), toNat_or_group (by omega) hacc]
    simp [Leb128.unsignedValue]
  | cons y front ih =>
    rw [forall_mem_cons] at hmore
    rw [length_cons] at hlen
    obtain ⟨k, rfl⟩ : ∃ j, k = j + 1 := ⟨k - 1, by omega⟩
    have hcol := collected_lt hacc (show y.toNat % 128 < 128 from Nat.mod_lt _ (by omega))
    have hpow : 2 ^ (shift + 7) ≤ 2 ^ 32 := Nat.pow_le_pow_right (by omega) (by omega)
    have hnat : (acc ||| (BitVec.ofNat 32 (y.toNat % 128) <<< shift)).toNat =
        acc.toNat + y.toNat % 128 * 2 ^ shift := by
      rw [toNat_or_group (by omega) hacc, Nat.mod_eq_of_lt (by omega)]
    rw [cons_append, readU32Loop]
    simp only [payload]
    rw [if_neg ((not_last_iff y).mpr hmore.1),
      ih (by omega) (by omega) (by rw [hnat]; exact hcol) hmore.2, hnat, cons_append,
      Leb128.unsignedValue]
    congr 3
    ring

lemma readU32Loop_ok {v : Nat} {acc : BitVec 32} (h : readU32Loop k shift acc b = .ok (v, rest)) :
    ∃ front x, Groups b front x rest ∧ front.length < k := by
  induction k generalizing shift acc b with
  | zero => cases h
  | succ k ih =>
    cases b with
    | nil => cases h
    | cons x b =>
      rw [readU32Loop] at h
      by_cases hlast : x &&& 128 = 0
      · rw [if_pos hlast] at h
        cases h
        exact ⟨[], x, ⟨rfl, by simp, (last_iff x).mp hlast⟩, by simp⟩
      · rw [if_neg hlast] at h
        obtain ⟨front, y, hgroups, hlen⟩ := ih h
        exact ⟨x :: front, y, hgroups.cons ((not_last_iff x).mp hlast), by simpa using hlen⟩

lemma readU32_groups (h : Groups b front x rest) (hlen : front.length < 5) :
    readU32 b = .ok (Leb128.unsignedValue (front ++ [x]) % 2 ^ 32, rest) := by
  have hloop := readU32Loop_groups h hlen rfl (show (0 : BitVec 32).toNat < 2 ^ 0 by simp)
  simpa [readU32] using hloop

/-- `readU32` on an encoding of the grammar's `u32`. -/
theorem readU32_unsigned {n : Nat} {bs : List UInt8} (h : Unsigned 32 bs n) (rest : List UInt8) :
    readU32 (bs ++ rest) = .ok (n, rest) := by
  obtain ⟨front, x, hgroups, hlen, hvalue, hlt⟩ := groups_of_unsigned h (by decide) rest
  rw [readU32_groups hgroups (by omega), hvalue, Nat.mod_eq_of_lt hlt]

variable {v acc : BitVec 64}

lemma toNat_ofInt_collected {x : Nat} (hs : s ≤ 64) (hacc : acc.toNat < 2 ^ s)
    (hfit : acc.toNat + x * 2 ^ s < 2 ^ 64) :
    (BitVec.ofInt 64 (acc.toNat + x * 2 ^ s)).toNat = acc.toNat + x * 2 ^ s := by
  rw [← or_group hs hacc, toNat_or_group hs hacc, Nat.mod_eq_of_lt hfit]

lemma or_signBits (hs : s < 64) (hv : v.toNat < 2 ^ s) :
    v ||| (BitVec.allOnes 64 <<< s) = BitVec.ofInt 64 (v.toNat - 2 ^ s) := by
  have hones : (BitVec.allOnes 64) = BitVec.ofNat 64 (2 ^ 64 - 1) := by decide
  rw [hones, or_group (by omega) hv]
  apply BitVec.eq_of_toInt_eq
  rw [BitVec.toInt_ofInt, BitVec.toInt_ofInt]
  have hshift : (v.toNat : Int) + ((2 ^ 64 - 1 : Nat) : Int) * 2 ^ s =
      (v.toNat - 2 ^ s) + 2 ^ s * ((2 ^ 64 : Nat) : Int) := by
    ring
  rw [hshift, Int.add_mul_bmod_self_right]

/-- The last group, at `shift`, with the sign above it where there is room. -/
lemma lastGroup_eq (hs : shift < 64) (hacc : acc.toNat < 2 ^ shift) (hx : x.toNat < 128) :
    (if shift + 7 < 64 ∧ x &&& 64 ≠ 0 then
        (acc ||| (BitVec.ofNat 64 x.toNat <<< shift)) ||| (BitVec.allOnes 64 <<< (shift + 7))
      else acc ||| (BitVec.ofNat 64 x.toNat <<< shift)) =
      BitVec.ofInt 64 (acc.toNat + signedGroup x * 2 ^ shift) := by
  have hcast : ((x.toNat : Int) % 128) = x.toNat := by omega
  rw [or_group (by omega) hacc]
  by_cases hsign : x &&& 64 = 0
  · rw [if_neg (fun h => h.2 hsign), signedGroup, if_pos ((sign_iff x).mp hsign), hcast]
  · have hnot : ¬x.toNat % 128 < 64 := fun h => hsign ((sign_iff x).mpr h)
    rw [signedGroup, if_neg hnot, hcast]
    by_cases hroom : shift + 7 < 64
    · have hcol := collected_lt hacc hx
      have hv := toNat_ofInt_collected (show shift ≤ 64 by omega) hacc
        (Nat.lt_trans hcol (Nat.pow_lt_pow_right (by omega) hroom))
      rw [if_pos ⟨hroom, hsign⟩, or_signBits hroom (by rw [hv]; exact hcol), hv]
      congr 1
      push_cast
      ring
    · rw [if_neg (fun h => hroom h.1)]
      have hover : (acc.toNat : Int) + x.toNat * 2 ^ shift =
          (acc.toNat + (x.toNat - 128) * 2 ^ shift) + 2 ^ (shift - 57) * (2 ^ 64 : Nat) := by
        have hpow : (2 : Int) ^ shift * 128 = 2 ^ (shift - 57) * 2 ^ 64 := by
          rw [← pow_add, show shift - 57 + 64 = shift + 7 by omega, pow_add]
          rfl
        push_cast
        linarith
      apply BitVec.eq_of_toInt_eq
      rw [BitVec.toInt_ofInt, BitVec.toInt_ofInt, hover, Int.add_mul_bmod_self_right]

lemma readS64Loop_last (hs : shift < 64) (hacc : acc.toNat < 2 ^ shift) (hx : x.toNat < 128)
    (rest : List UInt8) : readS64Loop shift acc (x :: rest) =
      .ok (BitVec.ofInt 64 (acc.toNat + signedGroup x * 2 ^ shift), rest) := by
  have hmod : x.toNat % 128 = x.toNat := Nat.mod_eq_of_lt hx
  rw [readS64Loop, if_neg (by omega)]
  simp only [payload, hmod]
  rw [if_pos ((last_iff x).mpr hx), lastGroup_eq hs hacc hx]

lemma readS64Loop_more (hs : shift + 7 < 64) (hacc : acc.toNat < 2 ^ shift) (hx : 128 ≤ x.toNat)
    (b : List UInt8) : ∃ acc' : BitVec 64, acc'.toNat = acc.toNat + x.toNat % 128 * 2 ^ shift ∧
      acc'.toNat < 2 ^ (shift + 7) ∧
      readS64Loop shift acc (x :: b) = readS64Loop (shift + 7) acc' b := by
  have hlast : ¬x &&& 128 = 0 := by
    rw [last_iff]
    omega
  have hcol := collected_lt hacc (show x.toNat % 128 < 128 from Nat.mod_lt _ (by omega))
  have hpow : 2 ^ (shift + 7) < 2 ^ 64 := Nat.pow_lt_pow_right (by omega) hs
  have hnat : (acc ||| (BitVec.ofNat 64 (x.toNat % 128) <<< shift)).toNat =
      acc.toNat + x.toNat % 128 * 2 ^ shift := by
    rw [toNat_or_group (by omega) hacc, Nat.mod_eq_of_lt (by omega)]
  refine ⟨_, hnat, by rw [hnat]; exact hcol, ?_⟩
  rw [readS64Loop, if_neg (by omega)]
  simp only [payload]
  rw [if_neg hlast]

lemma readS64Loop_groups (h : Groups b front x rest) (hlen : shift + 7 * front.length < 64)
    (hacc : acc.toNat < 2 ^ shift) : readS64Loop shift acc b =
      .ok (BitVec.ofInt 64 (acc.toNat + signedValue (front ++ [x]) * 2 ^ shift), rest) := by
  obtain ⟨rfl, hmore, hlast⟩ := h
  induction front generalizing shift acc with
  | nil => exact readS64Loop_last (by simpa using hlen) hacc hlast rest
  | cons y front ih =>
    rw [forall_mem_cons] at hmore
    rw [length_cons] at hlen
    obtain ⟨acc', hnat, hlt, hread⟩ := readS64Loop_more (show shift + 7 < 64 by omega) hacc hmore.1
      (front ++ x :: rest)
    rw [cons_append, hread, ih (by omega) hlt hmore.2, hnat, cons_append, signedValue_cons]
    congr 3
    push_cast
    ring

lemma readS64Loop_ok (h : readS64Loop shift acc b = .ok (v, rest)) :
    ∃ front x, Groups b front x rest ∧ shift + 7 * front.length < 64 := by
  induction b generalizing shift acc with
  | nil => cases h
  | cons x b ih =>
    by_cases hs : 64 ≤ shift
    · rw [readS64Loop, if_pos hs] at h
      cases h
    · rw [readS64Loop, if_neg hs] at h
      by_cases hlast : x &&& 128 = 0
      · rw [if_pos hlast] at h
        cases h
        exact ⟨[], x, ⟨rfl, by simp, (last_iff x).mp hlast⟩, by simpa using hs⟩
      · rw [if_neg hlast] at h
        obtain ⟨front, y, hgroups, hlen⟩ := ih h
        exact ⟨x :: front, y, hgroups.cons ((not_last_iff x).mp hlast), by rw [length_cons]; omega⟩

lemma readS64_groups (h : Groups b front x rest) (hlen : front.length < 10) :
    readS64 b = .ok (BitVec.ofInt 64 (signedValue (front ++ [x])), rest) := by
  have hloop := readS64Loop_groups h (show 0 + 7 * front.length < 64 by omega)
    (show (0 : BitVec 64).toNat < 2 ^ 0 by simp)
  simpa [readS64] using hloop

/-- `readS64` on an encoding of the grammar's `s32` or `s64`. -/
theorem readS64_signed {N : Nat} (hpos : 0 < N) (hN : N ≤ 64) {n : Int} {bs : List UInt8}
    (h : Signed N bs n) (rest : List UInt8) :
    readS64 (bs ++ rest) = .ok (BitVec.ofInt 64 n, rest) := by
  obtain ⟨front, x, hgroups, hlen, hvalue⟩ := groups_of_signed h hpos rest
  rw [readS64_groups hgroups (by omega), hvalue]

/-! ### Exact decoding -/

/-- The byte after `k` bytes with a continuation bit, if it ends the integer. -/
def lastByte (k : Nat) (b : List UInt8) : Option UInt8 :=
  if ∀ y ∈ b.take k, 128 ≤ y.toNat then b[k]?.filter fun x => x.toNat < 128 else none

lemma Groups.lastByte_eq_some (h : Groups b front x rest) : lastByte front.length b = some x := by
  rw [lastByte, h.eq, if_pos, Option.filter_eq_some_iff]
  · exact ⟨by simp, decide_eq_true h.last⟩
  · rw [take_left']
    · exact h.more
    · rfl

lemma exists_groups_of_lastByte (h : lastByte k b = some x) :
    ∃ front rest, Groups b front x rest ∧ front.length = k := by
  rw [lastByte, Option.ite_none_right_eq_some, Option.filter_eq_some_iff, decide_eq_true_eq] at h
  obtain ⟨hfront, hx, hlast⟩ := h
  obtain ⟨hk, hget⟩ := List.getElem?_eq_some_iff.mp hx
  refine ⟨b.take k, b.drop (k + 1), ⟨?_, hfront, hlast⟩, ?_⟩
  · rw [← hget, ← drop_eq_getElem_cons hk, take_append_drop]
  · rw [length_take]
    omega

/-- The value returned is that of the bytes consumed. -/
def U32Exact (b : List UInt8) : Prop :=
  ∀ v bs rest, b = bs ++ rest → readU32 b = .ok (v, rest) → v = unsignedValue bs

def S64Exact (b : List UInt8) : Prop :=
  ∀ v bs rest, b = bs ++ rest → readS64 b = .ok (v, rest) → v.toInt = signedValue bs

lemma Groups.consumed (h : Groups b front x rest) (hb : b = bs ++ rest) : bs = front ++ [x] := by
  have heq := h.eq
  rw [hb, ← singleton_append, ← append_assoc] at heq
  exact append_cancel_right heq

lemma unsignedValue_lt_iff (hlen : front.length < 5) (hx : x.toNat < 128) :
    unsignedValue (front ++ [x]) < 2 ^ 32 ↔ (front.length = 4 → x.toNat < 16) := by
  have hfront := unsignedValue_lt front
  have hvalue : unsignedValue (front ++ [x]) =
      unsignedValue front + 128 ^ front.length * x.toNat := by
    rw [unsignedValue_append, Leb128.unsignedValue, Leb128.unsignedValue, Nat.mod_eq_of_lt hx,
      Nat.mul_zero, Nat.add_zero]
  rw [hvalue]
  generalize front.length = n at hlen hfront
  interval_cases n <;> omega

lemma signedGroup_bounds (x : UInt8) : -64 ≤ signedGroup x ∧ signedGroup x < 64 := by
  rw [signedGroup]
  split <;> omega

lemma signedValue_fits_iff (hlen : front.length < 10) (hx : x.toNat < 128) :
    (-2 ^ 63 ≤ signedValue (front ++ [x]) ∧ signedValue (front ++ [x]) < 2 ^ 63) ↔
      (front.length = 9 → x.toNat = 0 ∨ x.toNat = 127) := by
  have hfront : (unsignedValue front : Int) < 128 ^ front.length := by
    exact_mod_cast unsignedValue_lt front
  have hbounds := signedGroup_bounds x
  have hzero : signedGroup x = 0 ↔ x.toNat = 0 := by
    rw [signedGroup]
    split <;> omega
  have hminus : signedGroup x = -1 ↔ x.toNat = 127 := by
    rw [signedGroup]
    split <;> omega
  rw [signedValue_append_singleton]
  generalize front.length = n at hlen hfront
  interval_cases n <;> omega

/-- A reader of at most `m + 1` groups is exact where a last group that is the last one possible
fits. -/
lemma exact_iff {V : Type} {read : List UInt8 → Except Failure (V × List UInt8)}
    (value : List UInt8 → V) (P : V → List UInt8 → Prop) {Fits : UInt8 → Prop} {m : Nat}
    (hread : ∀ {b front x rest}, Groups b front x rest → front.length ≤ m →
      read b = .ok (value (front ++ [x]), rest)) (hok : ∀ {b v rest}, read b = .ok (v, rest) →
      ∃ front x, Groups b front x rest ∧ front.length ≤ m)
    (hfits : ∀ {front : List UInt8} {x : UInt8}, front.length ≤ m → x.toNat < 128 →
      (P (value (front ++ [x])) (front ++ [x]) ↔ (front.length = m → Fits x))) (b : List UInt8) :
    (∀ v bs rest, b = bs ++ rest → read b = .ok (v, rest) → P v bs) ↔
      ∀ x, lastByte m b = some x → Fits x := by
  constructor
  · intro hexact x hx
    obtain ⟨front, rest, hgroups, hlen⟩ := exists_groups_of_lastByte hx
    have hright := hexact _ (front ++ [x]) rest (by rw [hgroups.eq]; simp) (hread hgroups hlen.le)
    exact (hfits hlen.le hgroups.last).mp hright hlen
  · intro hfit v bs rest hb h
    obtain ⟨front, x, hgroups, hlen⟩ := hok h
    rw [hread hgroups hlen] at h
    cases h
    rw [hgroups.consumed hb, hfits hlen hgroups.last]
    rintro rfl
    exact hfit x hgroups.lastByte_eq_some

lemma u32Exact_iff (b : List UInt8) : U32Exact b ↔ ∀ x, lastByte 4 b = some x → x.toNat < 16 := by
  refine exact_iff (Leb128.unsignedValue · % 2 ^ 32) (fun v bs => v = Leb128.unsignedValue bs)
    (fun h hlen => readU32_groups h (by omega)) ?_ ?_ b
  · intro b v rest h
    obtain ⟨front, x, hgroups, hlen⟩ := readU32Loop_ok h
    exact ⟨front, x, hgroups, by omega⟩
  · intro front x hlen hx
    rw [← unsignedValue_lt_iff (by omega) hx]
    exact ⟨fun h => h ▸ Nat.mod_lt _ (by decide), Nat.mod_eq_of_lt⟩

lemma toInt_ofInt_eq_iff (n : Int) : (BitVec.ofInt 64 n).toInt = n ↔ -2 ^ 63 ≤ n ∧ n < 2 ^ 63 := by
  rw [BitVec.toInt_ofInt]
  constructor
  · intro h
    have hlo := Int.le_bmod (x := n) (m := 2 ^ 64) (by decide)
    have hhi := Int.bmod_lt (x := n) (m := 2 ^ 64) (by decide)
    omega
  · intro h
    exact Int.bmod_eq_of_le (by omega) (by omega)

lemma s64Exact_iff (b : List UInt8) :
    S64Exact b ↔ ∀ x, lastByte 9 b = some x → x.toNat = 0 ∨ x.toNat = 127 := by
  refine exact_iff (fun bs => BitVec.ofInt 64 (signedValue bs))
    (fun v bs => v.toInt = signedValue bs) (fun h hlen => readS64_groups h (by omega)) ?_ ?_ b
  · intro b v rest h
    obtain ⟨front, x, hgroups, hlen⟩ := readS64Loop_ok h
    exact ⟨front, x, hgroups, by omega⟩
  · intro front x hlen hx
    rw [toInt_ofInt_eq_iff, signedValue_fits_iff (by omega) hx]

/-- Decoding is exact where the last byte that is read has no more bits than there is room for,
and on the shortest encodings it is. -/
theorem decoding_exact_iff (b : List UInt8) :
    (U32Exact b ↔ ∀ x, lastByte 4 b = some x → x.toNat < 16) ∧
    (S64Exact b ↔ ∀ x, lastByte 9 b = some x → x.toNat = 0 ∨ x.toNat = 127) ∧
    (∀ n rest, n < 2 ^ 32 → readU32 (encodeUnsigned n ++ rest) = .ok (n, rest)) ∧
    ∀ (n : Int) rest, -2 ^ 63 ≤ n → n < 2 ^ 63 →
      ∃ v : BitVec 64, readS64 (encodeSigned n ++ rest) = .ok (v, rest) ∧ v.toInt = n := by
  refine ⟨u32Exact_iff b, s64Exact_iff b, ?_, ?_⟩
  · intro n rest hn
    exact readU32_unsigned (unsigned_encodeUnsigned (by decide) hn) rest
  · intro n rest hlo hhi
    refine ⟨BitVec.ofInt 64 n, ?_, (toInt_ofInt_eq_iff n).mpr ⟨hlo, hhi⟩⟩
    exact readS64_signed (by decide) le_rfl (signed_encodeSigned (by decide) hlo hhi) rest

/-- Three bits of a fifth byte and six of a tenth are dropped without an error. -/
theorem bits_dropped : readU32 [0xff, 0xff, 0xff, 0xff, 0x7f] = .ok (2 ^ 32 - 1, []) ∧
    unsignedValue [0xff, 0xff, 0xff, 0xff, 0x7f] = 2 ^ 35 - 1 ∧
    readS64 [0x80, 0x80, 0x80, 0x80, 0x80, 0x80, 0x80, 0x80, 0x80, 0x02] = .ok (0, []) ∧
    signedValue [0x80, 0x80, 0x80, 0x80, 0x80, 0x80, 0x80, 0x80, 0x80, 0x02] = 2 ^ 64 := by
  decide +kernel

end Symkernel.Verify
