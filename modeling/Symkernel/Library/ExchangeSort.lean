import Mathlib

/-!
# Exchange sort

Two loops over a slice: whatever stands behind a place and is greater is exchanged with it, for
one place after the other. `gt` is the test that the loops use; it compares by a key.
-/

namespace Symkernel.Library

open List

variable {α : Type*} (gt : α → α → Bool)

def exchangePass (x : α) : List α → α × List α
  | [] => (x, [])
  | y :: ys =>
    if gt y x then ((exchangePass y ys).1, x :: (exchangePass y ys).2)
    else ((exchangePass x ys).1, y :: (exchangePass x ys).2)

def exchangeLoop : Nat → List α → List α
  | 0, s => s
  | _ + 1, [] => []
  | n + 1, x :: xs => (exchangePass gt x xs).1 :: exchangeLoop n (exchangePass gt x xs).2

def exchangeSort (s : List α) : List α := exchangeLoop gt (s.length - 1) s

def keepGreatest (best : Option α) (x : α) : Option α :=
  match best with
  | none => some x
  | some b => if gt x b then some x else some b

lemma exchangePass_perm (x : α) (xs : List α) :
    ((exchangePass gt x xs).1 :: (exchangePass gt x xs).2).Perm (x :: xs) := by
  induction xs generalizing x with
  | nil => exact .refl _
  | cons y ys ih =>
    rw [exchangePass]
    split
    · apply (List.Perm.swap x _ _).trans
      exact (ih y).cons x
    · apply (List.Perm.swap y _ _).trans
      apply ((ih x).cons y).trans
      exact .swap x y ys

lemma exchangeLoop_perm (n : Nat) (s : List α) : (exchangeLoop gt n s).Perm s := by
  induction n generalizing s with
  | zero => exact .refl _
  | succ n ih =>
    cases s with
    | nil => exact .refl _
    | cons x xs =>
      apply ((ih _).cons _).trans
      exact exchangePass_perm gt x xs

lemma exchangeSort_perm (s : List α) : (exchangeSort gt s).Perm s := exchangeLoop_perm gt _ s

section Keys

variable {gt} {β : Type*} [LinearOrder β] {key : α → β} (hgt : ∀ a b, gt a b = true ↔ key b < key a)

include hgt

lemma le_exchangePass (x : α) (xs : List α) :
    ∀ y ∈ x :: xs, key y ≤ key (exchangePass gt x xs).1 := by
  induction xs generalizing x with
  | nil => simp [exchangePass]
  | cons z zs ih =>
    rw [exchangePass]
    simp only [forall_mem_cons] at ih ⊢
    split
    · rename_i hz
      rw [hgt] at hz
      exact ⟨hz.le.trans (ih z).1, ih z⟩
    · rename_i hz
      rw [hgt, not_lt] at hz
      exact ⟨(ih x).1, hz.trans (ih x).1, (ih x).2⟩

lemma exchangeLoop_sorted {n : Nat} {s : List α} (hn : s.length ≤ n + 1) :
    (exchangeLoop gt n s).Pairwise fun a b => key b ≤ key a := by
  induction n generalizing s with
  | zero =>
    obtain _ | ⟨x, _ | ⟨y, ys⟩⟩ := s
    · exact .nil
    · exact pairwise_singleton _ x
    · simp at hn
  | succ n ih =>
    cases s with
    | nil => exact .nil
    | cons x xs =>
      have hperm := exchangePass_perm gt x xs
      have hlen := hperm.length_eq
      rw [length_cons, length_cons] at hlen
      rw [length_cons] at hn
      rw [exchangeLoop, pairwise_cons]
      refine ⟨?_, ih (by omega)⟩
      intro y hy
      have hmem : y ∈ (exchangePass gt x xs).2 := (exchangeLoop_perm gt n _).mem_iff.mp hy
      exact le_exchangePass hgt x xs y (hperm.mem_iff.mp (mem_cons_of_mem _ hmem))

lemma exchangeSort_sorted (s : List α) : (exchangeSort gt s).Pairwise fun a b => key b ≤ key a :=
  exchangeLoop_sorted hgt (by omega)

lemma foldl_keepGreatest (l : List α) (best : Option α) :
    (∀ m, l.foldl (keepGreatest gt) best = some m →
      (m ∈ l ∨ best = some m) ∧ (∀ y ∈ l, key y ≤ key m) ∧ ∀ b, best = some b → key b ≤ key m) ∧
    (l.foldl (keepGreatest gt) best = none → l = [] ∧ best = none) := by
  induction l generalizing best with
  | nil =>
    refine ⟨?_, fun h => ⟨rfl, h⟩⟩
    rintro m rfl
    exact ⟨.inr rfl, by simp, fun b hb => by cases hb; exact le_rfl⟩
  | cons x l ih =>
    obtain ⟨c, hc, hxc, hbc, hkept⟩ : ∃ c, keepGreatest gt best x = some c ∧ key x ≤ key c ∧
        (∀ b, best = some b → key b ≤ key c) ∧ (c = x ∨ best = some c) := by
      cases best with
      | none => exact ⟨x, rfl, le_rfl, fun b hb => (by cases hb), .inl rfl⟩
      | some b =>
        by_cases hx : gt x b = true
        · refine ⟨x, if_pos hx, le_rfl, fun b' hb => ?_, .inl rfl⟩
          cases hb
          exact ((hgt x b).mp hx).le
        · refine ⟨b, if_neg hx, ?_, fun b' hb => (by cases hb; exact le_rfl), .inr rfl⟩
          rwa [hgt, not_lt] at hx
    rw [foldl_cons, hc]
    constructor
    · intro m hm
      obtain ⟨hmem, hall, hbest⟩ := (ih (some c)).1 m hm
      have hcm := hbest c rfl
      refine ⟨?_, ?_, fun b hb => (hbc b hb).trans hcm⟩
      · obtain hmem | hmc := hmem
        · exact .inl (mem_cons_of_mem x hmem)
        · cases hmc
          obtain rfl | hb := hkept
          · exact .inl mem_cons_self
          · exact .inr hb
      · rw [forall_mem_cons]
        exact ⟨hxc.trans hcm, hall⟩
    · intro hnone
      cases ((ih (some c)).2 hnone).2

lemma foldl_keepGreatest_eq_head? {l l' : List α} (hperm : l.Perm l')
    (hinj : ∀ a ∈ l, ∀ b ∈ l, key a = key b → a = b) :
    l'.foldl (keepGreatest gt) none = (exchangeSort gt l).head? := by
  have hsort := exchangeSort_perm gt l
  obtain ⟨hsome, hnone⟩ := foldl_keepGreatest hgt l' none
  cases hfold : l'.foldl (keepGreatest gt) none with
  | none =>
    have hnil : l = [] := (hperm.trans (.of_eq (hnone hfold).1)).eq_nil
    rw [hnil]
    rfl
  | some m =>
    obtain ⟨hmem, hmax, -⟩ := hsome m hfold
    have hml : m ∈ l := by
      obtain hmem | hmem := hmem
      · exact hperm.mem_iff.mpr hmem
      · cases hmem
    cases hs : exchangeSort gt l with
    | nil =>
      rw [hs] at hsort
      rw [hsort.symm.eq_nil] at hml
      cases hml
    | cons a s =>
      have hsorted := exchangeSort_sorted hgt l
      rw [hs] at hsort hsorted
      have hal : a ∈ l := hsort.mem_iff.mp mem_cons_self
      have hma : key m ≤ key a := by
        obtain rfl | hmem := List.mem_cons.mp (hsort.mem_iff.mpr hml)
        · exact le_rfl
        · exact (List.pairwise_cons.mp hsorted).1 m hmem
      rw [List.head?_cons, hinj m hml a hal (hma.antisymm (hmax a (hperm.mem_iff.mp hal)))]

end Keys

end Symkernel.Library
