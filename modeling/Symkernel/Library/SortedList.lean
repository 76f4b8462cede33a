import Mathlib

/-!
# Sorting a list and cutting a sorted list

`SliceSort key` is what Go's `sort.Slice` promises when it compares by `key`: nothing is said
about the order of elements with the same key.
-/

namespace Symkernel.Library

open List

variable {α : Type*} [LinearOrder α]

/-- A sorting function for the order of `key`, not necessarily a stable one. -/
structure SliceSort {ι : Type*} (key : ι → α) where
  run : List ι → List ι
  perm : ∀ l, (run l).Perm l
  sorted : ∀ l, (run l).Pairwise fun a b => key a ≤ key b

def SliceSort.insertion {ι : Type*} (key : ι → α) : SliceSort key where
  run l := l.insertionSort fun a b => key a ≤ key b
  perm l := List.perm_insertionSort _ l
  sorted l := by
    have : Std.Total fun a b => key a ≤ key b := ⟨fun a b => le_total (key a) (key b)⟩
    have : IsTrans ι fun a b => key a ≤ key b := ⟨fun _ _ _ => le_trans⟩
    exact List.pairwise_insertionSort _ l

lemma dropWhile_lt_eq_filter {l : List α} (h : l.Pairwise (· ≤ ·)) {c : α} {p q : α → Bool}
    (hp : ∀ a, p a = true ↔ a < c) (hq : ∀ a, q a = true ↔ c ≤ a) : l.dropWhile p = l.filter q := by
  induction l with
  | nil => rfl
  | cons a l ih =>
    rw [pairwise_cons] at h
    by_cases ha : a < c
    · have hqa : ¬ q a = true := by
        rw [hq]
        exact not_le.mpr ha
      rw [dropWhile_cons_of_pos ((hp a).mpr ha), filter_cons_of_neg hqa, ih h.2]
    · have hpa : ¬ p a = true := by rwa [hp]
      have hall : ∀ b ∈ a :: l, q b = true := by
        intro b hb
        rw [hq]
        obtain rfl | hb := List.mem_cons.mp hb
        · exact not_lt.mp ha
        · exact (not_lt.mp ha).trans (h.1 b hb)
      rw [List.filter_eq_self.mpr hall, dropWhile_cons_of_neg hpa]

/-- In a sorted list the elements with a property that goes down come first. -/
lemma getElem_iff_lt_countP {l : List α} (h : l.Pairwise (· ≤ ·)) {p : α → Prop} [DecidablePred p]
    (hp : ∀ a b, a ≤ b → p b → p a) {k : Nat} (hk : k < l.length) : p l[k] ↔ k < l.countP p := by
  induction l generalizing k with
  | nil => cases hk
  | cons a l ih =>
    rw [pairwise_cons] at h
    by_cases ha : p a
    · rw [countP_cons_of_pos (by simpa using ha)]
      cases k with
      | zero => simpa using ha
      | succ k => simpa using ih h.2 (Nat.lt_of_succ_lt_succ hk)
    · have hnone : ∀ b ∈ a :: l, ¬p b := by
        intro b hb hpb
        obtain rfl | hb := List.mem_cons.mp hb
        · exact ha hpb
        · exact ha (hp a b (h.1 b hb) hpb)
      have hzero : (a :: l).countP p = 0 := by
        rw [countP_eq_zero]
        exact fun b hb => by simpa using hnone b hb
      rw [hzero]
      exact iff_of_false (hnone _ (getElem_mem hk)) (Nat.not_lt_zero k)

lemma counts_of_sorted {l : List α} (h : l.Pairwise (· ≤ ·)) {i : Nat} (hi : i < l.length) :
    i < l.countP (· ≤ l[i]) ∧ l.length ≤ i + l.countP (l[i] ≤ ·) := by
  have hbelow : i < l.countP (· ≤ l[i]) :=
    (getElem_iff_lt_countP h (fun _ _ hab hb => hab.trans hb) hi).mp le_rfl
  have hstrict : l.countP (· < l[i]) ≤ i := by
    refine Nat.not_lt.mp (fun hlt => ?_)
    exact lt_irrefl _ ((getElem_iff_lt_countP h (fun _ _ hab hb => hab.trans_lt hb) hi).mpr hlt)
  have hsplit := length_eq_countP_add_countP (· < l[i]) (l := l)
  simp only [decide_eq_true_eq, not_lt] at hsplit
  exact ⟨hbelow, by omega⟩

/-- Sorting forgets the order if elements with the same key are the same. -/
lemma mergeSort_eq_of_perm {ι : Type*} {key : ι → α} {le : ι → ι → Bool}
    (hle : ∀ a b, le a b = true ↔ key a ≤ key b) {l l' : List ι} (h : l.Perm l')
    (hinj : ∀ a ∈ l, ∀ b ∈ l, key a = key b → a = b) : l.mergeSort le = l'.mergeSort le := by
  have hsorted : ∀ l : List ι, (l.mergeSort le).Pairwise fun a b => le a b = true := by
    apply pairwise_mergeSort
    · intro a b c hab hbc
      rw [hle] at hab hbc ⊢
      exact hab.trans hbc
    · intro a b
      rw [Bool.or_eq_true, hle, hle]
      exact le_total _ _
  have hperm := (mergeSort_perm l le).trans (h.trans (mergeSort_perm l' le).symm)
  refine hperm.eq_of_pairwise (fun a b ha hb hab hba => ?_) (hsorted l) (hsorted l')
  rw [hle] at hab hba
  exact hinj a (mem_mergeSort.mp ha) b (h.mem_iff.mpr (mem_mergeSort.mp hb)) (hab.antisymm hba)

variable {β γ : Type*}

variable {as fields : List (α × β)}

lemma lookup_of_pairwise (h : (fields.map Prod.fst).Pairwise (· < ·)) {f : α × β}
    (hf : f ∈ fields) : fields.lookup f.1 = some f.2 := by
  induction fields with
  | nil => cases hf
  | cons g fields ih =>
    rw [map_cons, pairwise_cons] at h
    rw [lookup_cons]
    obtain rfl | hf := List.mem_cons.mp hf
    · simp
    · have hlt := h.1 f.1 (mem_map_of_mem hf)
      have hne : (f.1 == g.1) = false := by simpa using hlt.ne'
      rw [hne]
      exact ih h.2 hf

lemma mem_of_lookup_eq_some {k : α} {b : β} (h : fields.lookup k = some b) : (k, b) ∈ fields := by
  induction fields with
  | nil => cases h
  | cons g fields ih =>
    rw [lookup_cons] at h
    split at h
    · rename_i hk
      cases h
      rw [beq_iff_eq] at hk
      subst hk
      exact mem_cons_self
    · exact mem_cons_of_mem g (ih h)

lemma forall₂_of_lookup {R : β → γ → Prop} {bs : List (α × γ)}
    (has : (as.map Prod.fst).Pairwise (· < ·)) (hbs : (bs.map Prod.fst).Pairwise (· < ·))
    (hlen : as.length = bs.length) (h : ∀ f ∈ as, ∃ b, bs.lookup f.1 = some b ∧ R f.2 b) :
    List.Forall₂ (fun f g => f.1 = g.1 ∧ R f.2 g.2) as bs := by
  have hkeys : as.map Prod.fst = bs.map Prod.fst := by
    have hsub : as.map Prod.fst ⊆ bs.map Prod.fst := by
      intro k hk
      obtain ⟨f, hf, rfl⟩ := List.mem_map.mp hk
      obtain ⟨b, hb, -⟩ := h f hf
      exact mem_map_of_mem (mem_of_lookup_eq_some hb)
    have hperm := (subperm_of_subset (has.imp ne_of_lt) hsub).perm_of_length_le (by simp [hlen])
    exact hperm.eq_of_pairwise (fun _ _ _ _ h h' => absurd h' h.not_gt) has hbs
  have hsame : List.Forall₂ (fun f g => f.1 = g.1) as bs := by
    have hmap : List.Forall₂ Eq (as.map Prod.fst) (bs.map Prod.fst) := by
      rw [forall₂_eq_eq_eq]
      exact hkeys
    rwa [forall₂_map_left_iff, forall₂_map_right_iff] at hmap
  rw [forall₂_iff_zip] at hsame ⊢
  refine ⟨hlen, fun {f g} hfg => ⟨hsame.2 hfg, ?_⟩⟩
  obtain ⟨hf, hg⟩ := of_mem_zip hfg
  obtain ⟨b, hb, hR⟩ := h f hf
  rw [hsame.2 hfg, lookup_of_pairwise hbs hg, Option.some_inj] at hb
  rwa [hb]

lemma lookup_of_forall₂ {R : β → γ → Prop} {bs : List (α × γ)}
    (hbs : (bs.map Prod.fst).Pairwise (· < ·))
    (h : List.Forall₂ (fun f g => f.1 = g.1 ∧ R f.2 g.2) as bs) {f : α × β} (hf : f ∈ as) :
    ∃ b, bs.lookup f.1 = some b ∧ R f.2 b := by
  rw [forall₂_iff_zip] at h
  obtain ⟨i, hi, rfl⟩ := List.mem_iff_getElem.mp hf
  have hi' : i < bs.length := h.1 ▸ hi
  have hzip : (as[i], bs[i]) ∈ as.zip bs := by
    rw [← getElem_zip (h := by simp [hi, hi'])]
    exact getElem_mem _
  obtain ⟨hkey, hR⟩ := h.2 hzip
  exact ⟨bs[i].2, by rw [hkey, lookup_of_pairwise hbs (getElem_mem hi')], hR⟩

end Symkernel.Library
