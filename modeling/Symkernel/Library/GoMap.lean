import Mathlib

/-!
# Go maps and loops over them

A map is a finite function. `range` visits the keys that a map has when the loop starts, each
once and in an order that the language leaves open: a `RangeOrder` is one choice of the order
for every key set.
-/

namespace Symkernel.Library

open List

abbrev GoMap (κ v : Type*) := Finmap fun _ : κ => v

structure RangeOrder (κ : Type*) where
  keys : Finset κ → List κ
  nodup : ∀ s, (keys s).Nodup
  mem_keys : ∀ s k, k ∈ keys s ↔ k ∈ s

def RangeOrder.ascending (κ : Type*) [LinearOrder κ] : RangeOrder κ where
  keys s := Quot.liftOn s.val (fun l => l.insertionSort (· ≤ ·)) fun a b h =>
    ((List.perm_insertionSort (· ≤ ·) a).trans (h.trans (List.perm_insertionSort (· ≤ ·) b).symm)).eq_of_pairwise
      (fun _ _ _ _ => le_antisymm) (List.pairwise_insertionSort (· ≤ ·) a)
      (List.pairwise_insertionSort (· ≤ ·) b)
  nodup s := by
    obtain ⟨l, hnd⟩ := s
    induction l using Quot.inductionOn with
    | h l => exact (List.perm_insertionSort (· ≤ ·) l).nodup_iff.mpr hnd
  mem_keys s k := by
    obtain ⟨l, hnd⟩ := s
    induction l using Quot.inductionOn with
    | h l => exact (List.perm_insertionSort (· ≤ ·) l).mem_iff

variable {v κ : Type*}

lemma RangeOrder.ascending_sorted [LinearOrder κ] (s : Finset κ) :
    ((ascending κ).keys s).Pairwise (· ≤ ·) := by
  obtain ⟨l, hnd⟩ := s
  induction l using Quot.inductionOn with
  | h l => exact pairwise_insertionSort (· ≤ ·) l

lemma RangeOrder.ascending_erase [LinearOrder κ] {s t : Finset κ} {k : κ} {front back : List κ}
    (h : (ascending κ).keys s = front ++ k :: back) (ht : ∀ a, a ∈ t ↔ a ≠ k ∧ a ∈ s) :
    (ascending κ).keys t = front ++ back := by
  have hnodup := (ascending κ).nodup s
  have hsorted := ascending_sorted s
  have hmem := (ascending κ).mem_keys s
  rw [h] at hnodup hsorted hmem
  have hsub : List.Sublist (front ++ back) (front ++ k :: back) :=
    List.Sublist.append (List.Sublist.refl _) (sublist_cons_self k back)
  have hk : k ∉ front ++ back := by
    rw [nodup_middle, nodup_cons] at hnodup
    exact hnodup.1
  refine List.Perm.eq_of_pairwise (fun a b _ _ => le_antisymm) (ascending_sorted _)
    (hsorted.sublist hsub) ?_
  rw [perm_ext_iff_of_nodup ((ascending κ).nodup _) (hnodup.sublist hsub)]
  intro a
  rw [(ascending κ).mem_keys, ht, ← hmem]
  constructor
  · rintro ⟨hne, ha⟩
    simp only [mem_append, mem_cons] at ha ⊢
    tauto
  · intro ha
    refine ⟨fun hak => hk (hak ▸ ha), hsub.subset ha⟩

lemma RangeOrder.keys_singleton (order : RangeOrder κ) (k : κ) : order.keys {k} = [k] := by
  rw [← perm_singleton, perm_ext_iff_of_nodup (order.nodup _) (nodup_singleton k)]
  intro a
  rw [order.mem_keys, Finset.mem_singleton, mem_singleton]

lemma GoMap.keys_insert [DecidableEq κ] (m : GoMap κ v) (k : κ) (a : v) :
    (m.insert k a).keys = insert k m.keys := by
  ext k'
  simp only [Finmap.mem_keys, Finmap.mem_insert, Finset.mem_insert]

lemma GoMap.lookup_singleton [DecidableEq κ] (k k' : κ) (a : v) :
    (Finmap.singleton k a : GoMap κ v).lookup k' = if k' = k then some a else none := by
  split
  · rename_i hk
    subst hk
    exact Finmap.lookup_singleton_eq
  · rename_i hk
    rwa [Finmap.lookup_eq_none, Finmap.mem_singleton]

/-- A loop over items with distinct keys whose step keeps `P` and changes what belongs to the
item's key only, by `update`, updates the key of every item once. -/
theorem foldl_keyed {σ ι κ β : Type*} [DecidableEq κ] {step : σ → ι → σ} (key : ι → κ)
    (look : σ → κ → β) (update : ι → β → β) (P : σ → Prop) (hP : ∀ s a, P s → P (step s a))
    (hstep : ∀ s a k, P s →
      look (step s a) k = if k = key a then update a (look s k) else look s k)
    {items : List ι} (hnd : (items.map key).Nodup) {s : σ} (hs : P s) (k : κ) :
    look (items.foldl step s) k =
      ((items.find? fun a => key a = k).elim (look s k) fun a => update a (look s k)) := by
  induction items generalizing s with
  | nil => rfl
  | cons a items ih =>
    rw [map_cons, nodup_cons] at hnd
    rw [foldl_cons, ih hnd.2 (hP s a hs), hstep s a k hs]
    by_cases hk : k = key a
    · have hnone : (items.find? fun b => key b = k) = none := by
        rw [List.find?_eq_none]
        intro b hb heq
        exact hnd.1 (List.mem_map.mpr ⟨b, hb, (of_decide_eq_true heq).trans hk⟩)
      rw [hnone]
      simp [hk]
    · rw [List.find?_cons_of_neg (by simp [Ne.symm hk]), if_neg hk]

/-- The loop over the keys themselves. -/
theorem foldl_pointwise {σ κ β : Type*} [DecidableEq κ] {step : σ → κ → σ} (look : σ → κ → β)
    (update : κ → β → β) (P : σ → Prop) (hP : ∀ s k, P s → P (step s k)) (hstep : ∀ s k k', P s →
      look (step s k) k' = if k' = k then update k (look s k') else look s k')
    {ks : List κ} (hnd : ks.Nodup) {s : σ} (hs : P s) (k : κ) :
    look (ks.foldl step s) k = if k ∈ ks then update k (look s k) else look s k := by
  rw [foldl_keyed id look update P hP hstep (by simpa using hnd) hs]
  by_cases hk : k ∈ ks
  · have hfind : (ks.find? fun a => id a = k) = some k := by
      have hsome : (ks.find? fun a => id a = k).isSome :=
        List.find?_isSome.mpr ⟨k, hk, decide_eq_true rfl⟩
      obtain ⟨b, hb⟩ := Option.isSome_iff_exists.mp hsome
      have heq : b = k := by simpa using List.find?_some hb
      rw [hb, heq]
    rw [hfind, if_pos hk, Option.elim_some]
  · have hfind : (ks.find? fun a => id a = k) = none := by
      rw [List.find?_eq_none]
      intro b hb heq
      exact hk ((of_decide_eq_true heq) ▸ hb)
    rw [hfind, if_neg hk, Option.elim_none]

end Symkernel.Library
