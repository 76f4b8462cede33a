import Symkernel.Library.GoMap

/-!
# Statistics of a multiset

Counts kept in a map, the least and the greatest element, the parts of a multiset by a key, and
running sums.
-/

namespace Symkernel.Library

section Counts

variable {κ : Type*} [DecidableEq κ]

def bump (m : GoMap κ Nat) (k : κ) (n : Nat) : GoMap κ Nat :=
  m.insert k ((m.lookup k).getD 0 + n)

/-- The map counts the elements of `s`; it has no entry for what does not occur. -/
def Tallies (m : GoMap κ Nat) (s : Multiset κ) : Prop :=
  ∀ k, m.lookup k = if k ∈ s then some (s.count k) else none

lemma tallies_empty : Tallies (∅ : GoMap κ Nat) 0 := by
  intro k
  simp

lemma Tallies.getD {m : GoMap κ Nat} {s : Multiset κ} (h : Tallies m s) (k : κ) :
    (m.lookup k).getD 0 = s.count k := by
  rw [h k]
  split
  · rfl
  · rw [Multiset.count_eq_zero_of_notMem ‹_›]
    rfl

/-- Two maps that count the same are the same. -/
lemma Tallies.unique {m m' : GoMap κ Nat} {s : Multiset κ} (h : Tallies m s)
    (h' : Tallies m' s) : m = m' := by
  apply Finmap.ext_lookup
  intro k
  rw [h k, h' k]

lemma lookup_bump (m : GoMap κ Nat) (k k' : κ) (n : Nat) :
    (bump m k n).lookup k' = if k' = k then some ((m.lookup k).getD 0 + n) else m.lookup k' := by
  split
  · rename_i hk
    subst hk
    exact Finmap.lookup_insert m
  · exact Finmap.lookup_insert_of_ne m ‹_›

lemma Tallies.bump {m : GoMap κ Nat} {s : Multiset κ} (h : Tallies m s) (k : κ) :
    Tallies (bump m k 1) (k ::ₘ s) := by
  intro k'
  rw [lookup_bump, h.getD]
  by_cases hk : k' = k
  · subst hk
    rw [if_pos rfl, if_pos (Multiset.mem_cons_self _ _), Multiset.count_cons_self]
  · rw [if_neg hk, h k']
    simp [hk]

def mergeCounts (order : RangeOrder κ) (dst src : GoMap κ Nat) : GoMap κ Nat :=
  (order.keys src.keys).foldl (fun m k => Library.bump m k ((src.lookup k).getD 0)) dst

lemma Tallies.merge {dst src : GoMap κ Nat} {s t : Multiset κ} (h : Tallies dst s)
    (h' : Tallies src t) (order : RangeOrder κ) : Tallies (mergeCounts order dst src) (s + t) := by
  intro k
  have hmem : k ∈ order.keys src.keys ↔ k ∈ t := by
    rw [order.mem_keys, Finmap.mem_keys, ← Finmap.lookup_isSome, h' k]
    split <;> simp_all
  have hstep : ∀ (m : GoMap κ Nat) (k k' : κ), True →
      (Library.bump m k ((src.lookup k).getD 0)).lookup k' =
        if k' = k then some ((m.lookup k').getD 0 + (src.lookup k).getD 0) else m.lookup k' := by
    intro m k k' _
    rw [lookup_bump]
    split
    · rename_i hk
      rw [hk]
    · rfl
  have hfold := foldl_pointwise (fun m k => Finmap.lookup k m)
    (fun k old => some (old.getD 0 + (src.lookup k).getD 0)) (fun _ => True) (fun _ _ _ => trivial)
    hstep (order.nodup src.keys) (s := dst) trivial k
  rw [mergeCounts, hfold]
  simp only [hmem, h.getD, h'.getD]
  by_cases ht : k ∈ t
  · simp [ht]
  · simp [ht, h k]

/-- The counts add up to the number of elements. -/
lemma Tallies.sum_eq_card {m : GoMap κ Nat} {s : Multiset κ} (h : Tallies m s) :
    ∑ k ∈ m.keys, (m.lookup k).getD 0 = s.card := by
  have hkeys : m.keys = s.toFinset := by
    ext k
    rw [Finmap.mem_keys, ← Finmap.lookup_isSome, h k]
    split <;> simp_all
  rw [hkeys, ← Multiset.toFinset_sum_count_eq]
  exact Finset.sum_congr rfl fun k _ => h.getD k

end Counts

section Extremes

variable {α : Type*} [LinearOrder α] [Zero α]

def least (s : Multiset α) : α :=
  (s.map WithTop.some).inf.untopD 0

omit [Zero α] in
lemma exists_inf_eq {s : Multiset α} (hs : s ≠ 0) : ∃ a : α, (s.map WithTop.some).inf = a := by
  induction s using Multiset.induction with
  | empty => exact absurd rfl hs
  | cons a s ih =>
    rw [Multiset.map_cons, Multiset.inf_cons]
    by_cases hzero : s = 0
    · subst hzero
      exact ⟨a, by simp⟩
    · obtain ⟨b, hb⟩ := ih hzero
      exact ⟨min a b, by rw [hb, WithTop.coe_min]⟩

lemma least_add {s t : Multiset α} (ht : t ≠ 0) :
    least (s + t) = if s.card = 0 ∨ least t < least s then least t else least s := by
  obtain ⟨b, hb⟩ := exists_inf_eq ht
  by_cases hs : s = 0
  · simp [hs]
  · obtain ⟨a, ha⟩ := exists_inf_eq hs
    simp only [least, Multiset.map_add, Multiset.inf_add, ha, hb, Multiset.card_eq_zero, hs,
      false_or]
    split
    · exact min_eq_right (le_of_lt ‹_›)
    · exact min_eq_left (not_lt.mp ‹_›)

lemma least_singleton (a : α) : least {a} = a := by
  simp [least]

def greatest (s : Multiset α) : α := s.fold max 0

lemma greatest_cons (a : α) (s : Multiset α) :
    greatest (a ::ₘ s) = if greatest s < a then a else greatest s := by
  rw [greatest, Multiset.fold_cons_left]
  split
  · exact max_eq_left (le_of_lt ‹_›)
  · exact max_eq_right (not_lt.mp ‹_›)

lemma greatest_add (s t : Multiset α) :
    greatest (s + t) = if greatest s < greatest t then greatest t else greatest s := by
  have hfold := Multiset.fold_add max (0 : α) 0 s t
  rw [max_self] at hfold
  rw [greatest, hfold]
  split
  · exact max_eq_right (le_of_lt ‹_›)
  · exact max_eq_left (not_lt.mp ‹_›)

lemma le_greatest {a : α} {s : Multiset α} (ha : a ∈ s) : a ≤ greatest s := by
  obtain ⟨t, rfl⟩ := Multiset.exists_cons_of_mem ha
  rw [greatest, Multiset.fold_cons_left]
  exact le_max_left _ _

lemma greatest_mem {s : Multiset α} (hs : s ≠ 0) (h0 : ∀ a ∈ s, 0 ≤ a) : greatest s ∈ s := by
  induction s using Multiset.induction with
  | empty => exact absurd rfl hs
  | cons a s ih =>
    rw [greatest_cons]
    split
    · exact Multiset.mem_cons_self a s
    · rename_i hle
      by_cases hzero : s = 0
      · subst hzero
        have ha := le_antisymm (not_lt.mp hle) (h0 a (Multiset.mem_cons_self a 0))
        rw [ha]
        exact Multiset.mem_cons_self _ _
      · exact Multiset.mem_cons_of_mem (ih hzero fun b hb => h0 b (Multiset.mem_cons_of_mem hb))

end Extremes

/-- The parts of a multiset, by the values of a key, make up the multiset. -/
lemma sum_filter_key {α κ : Type*} [DecidableEq κ] (key : α → κ) {ks : List κ} (hnd : ks.Nodup)
    (s : Multiset α) (hs : ∀ a ∈ s, key a ∈ ks) :
    (ks.map fun k => s.filter fun a => key a = k).sum = s := by
  rw [← List.sum_toFinset _ hnd]
  induction s using Multiset.induction with
  | empty => simp
  | cons a s ih =>
    have ha : key a ∈ ks := hs a (Multiset.mem_cons_self a s)
    simp only [Multiset.filter_cons, Finset.sum_add_distrib]
    rw [ih fun b hb => hs b (Multiset.mem_cons_of_mem hb), Finset.sum_ite_eq,
      if_pos (List.mem_toFinset.mpr ha), Multiset.singleton_add]

lemma sum_countP_eq {α : Type*} (f : α → Nat) (s : Multiset α) (k : Nat) :
    ∑ j ∈ Finset.range k, s.countP (fun a => f a = j) = s.countP fun a => f a < k := by
  induction s using Multiset.induction with
  | empty => simp
  | cons a s ih =>
    simp only [Multiset.countP_cons, Finset.sum_add_distrib, ih, Finset.sum_ite_eq,
      Finset.mem_range]

lemma countP_le_countP {α : Type*} {p q : α → Prop} [DecidablePred p] [DecidablePred q]
    (h : ∀ a, p a → q a) (s : Multiset α) : s.countP p ≤ s.countP q := by
  rw [Multiset.countP_eq_card_filter, Multiset.countP_eq_card_filter]
  exact Multiset.card_le_card (Multiset.monotone_filter_right s fun a => h a)

section RunningSums

def runningSums : Nat → List Nat → List Nat
  | _, [] => []
  | c, n :: ns => (c + n) :: runningSums (c + n) ns

/-- A loop that adds up counts and notes every sum. -/
lemma foldl_runningSums {α β : Type*} (note : α → Nat → β) (l : List (α × Nat)) (c : Nat)
    (out : List β) :
    l.foldl (fun (p : Nat × List β) x => (p.1 + x.2, p.2 ++ [note x.1 (p.1 + x.2)])) (c, out) =
      (c + (l.map Prod.snd).sum,
        out ++ List.zipWith note (l.map Prod.fst) (runningSums c (l.map Prod.snd))) := by
  induction l generalizing c out with
  | nil => simp
  | cons x l ih =>
    rw [List.foldl_cons, ih]
    simp [runningSums, Nat.add_assoc]

lemma runningSums_map_range (f : Nat → Nat) (m c : Nat) : runningSums c ((List.range m).map f) =
      (List.range m).map fun k => c + ∑ j ∈ Finset.range (k + 1), f j := by
  induction m generalizing f c with
  | zero => rfl
  | succ m ih =>
    have htail := ih (fun j => f (j + 1)) (c + f 0)
    rw [List.range_succ_eq_map, List.map_cons, List.map_map, runningSums, List.map_cons,
      List.map_map]
    simp only [Function.comp_def] at htail ⊢
    rw [htail]
    congr 1
    apply List.map_congr_left
    intro k _
    rw [Finset.sum_range_succ' f (k + 1)]
    omega

end RunningSums

end Symkernel.Library
