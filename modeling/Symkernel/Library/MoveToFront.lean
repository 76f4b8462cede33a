import Mathlib

/-!
# Lists ordered by use

A use moves an item to the front.
-/

namespace Symkernel.Library

open List

variable {α : Type*} [DecidableEq α]

def touch (l : List α) (a : α) : List α := a :: l.filter (· ≠ a)

def recency (uses : List α) : List α := uses.foldl touch []

lemma recency_concat (uses : List α) (a : α) : recency (uses ++ [a]) = touch (recency uses) a := by
  rw [recency, foldl_concat, ← recency]

variable {l : List α}

lemma nodup_touch (h : l.Nodup) (a : α) : (touch l a).Nodup := by
  refine List.nodup_cons.mpr ⟨?_, h.filter _⟩
  intro ha
  exact absurd rfl (of_decide_eq_true (List.mem_filter.mp ha).2)

lemma nodup_recency (uses : List α) : (recency uses).Nodup := by
  induction uses using reverseRecOn with
  | nil => exact nodup_nil
  | append_singleton uses a ih =>
    rw [recency_concat]
    exact nodup_touch ih a

variable {a : α}

lemma mem_touch {b : α} : b ∈ touch l a ↔ b = a ∨ b ∈ l := by
  by_cases h : b = a
  · simp [touch, h]
  · simp [touch, h]

lemma mem_recency {uses : List α} : a ∈ recency uses ↔ a ∈ uses := by
  induction uses using reverseRecOn with
  | nil => rfl
  | append_singleton uses b ih =>
    rw [recency_concat, mem_touch, ih, mem_append, mem_singleton, or_comm]

lemma length_touch_of_mem (h : l.Nodup) (ha : a ∈ l) : (touch l a).length = l.length := by
  have hfilter : l.filter (· ≠ a) = l.erase a := by
    rw [h.erase_eq_filter]
    refine filter_congr fun b _ => ?_
    rw [Bool.eq_iff_iff, decide_eq_true_iff, bne_iff_ne]
  rw [touch, length_cons, hfilter, length_erase_of_mem ha]
  exact Nat.sub_add_cancel (length_pos_of_mem ha)

variable {n : Nat}

lemma take_filter_ne_of_mem (h : l.Nodup) (ha : a ∈ l.take (n + 1)) :
    (l.filter (· ≠ a)).take n = (l.take (n + 1)).filter (· ≠ a) := by
  induction l generalizing n with
  | nil => simp at ha
  | cons b l ih =>
    rw [nodup_cons] at h
    rw [take_succ_cons]
    by_cases hb : b = a
    · subst hb
      have hself : ∀ l' : List α, b ∉ l' → l'.filter (· ≠ b) = l' := fun l' hl' =>
        List.filter_eq_self.mpr fun c hc => decide_eq_true (ne_of_mem_of_not_mem hc hl')
      rw [filter_cons_of_neg (by simp), filter_cons_of_neg (by simp), hself l h.1,
        hself _ fun hmem => h.1 (mem_of_mem_take hmem)]
    · have ha' := (List.mem_cons.mp ha).resolve_left (Ne.symm hb)
      rw [filter_cons_of_pos (by simpa using hb), filter_cons_of_pos (by simpa using hb)]
      cases n with
      | zero => simp at ha'
      | succ n => rw [take_succ_cons, ih h.2 ha']

lemma take_filter_ne_of_notMem (ha : a ∉ l.take n) : (l.filter (· ≠ a)).take n = l.take n := by
  induction l generalizing n with
  | nil => rfl
  | cons b l ih =>
    cases n with
    | zero => rfl
    | succ n =>
      rw [take_succ_cons, mem_cons, not_or] at ha
      rw [filter_cons_of_pos (by simpa using Ne.symm ha.1), take_succ_cons, take_succ_cons, ih ha.2]

lemma take_touch_of_mem (h : l.Nodup) (ha : a ∈ l.take n) :
    (touch l a).take n = touch (l.take n) a := by
  cases n with
  | zero => simp at ha
  | succ n => rw [touch, take_succ_cons, take_filter_ne_of_mem h ha, touch]

lemma take_touch_of_notMem (ha : a ∉ l.take (n + 1)) :
    (touch l a).take (n + 1) = a :: l.take n := by
  have hsub : a ∉ l.take n := fun hmem => ha ((take_subset_take_left l n.le_succ) hmem)
  rw [touch, take_succ_cons, take_filter_ne_of_notMem hsub]

/-- An item stands behind those that were used after it. -/
theorem recency_append_cons (front : List α) {a : α} {back : List α} (ha : a ∉ back) :
    ∃ before after, recency (front ++ a :: back) = before ++ a :: after ∧
      before.toFinset = back.toFinset := by
  induction back using reverseRecOn with
  | nil => exact ⟨[], (recency front).filter (· ≠ a), recency_concat front a, rfl⟩
  | append_singleton back b ih =>
    rw [mem_append, mem_singleton, not_or] at ha
    obtain ⟨before, after, hrecency, hset⟩ := ih ha.1
    refine ⟨b :: before.filter (· ≠ b), after.filter (· ≠ b), ?_, ?_⟩
    · rw [← cons_append, ← append_assoc, recency_concat, hrecency, touch,
        filter_append, filter_cons_of_pos (by simpa using ha.2), cons_append]
    · ext c
      have hc := congrArg (c ∈ ·) hset
      simp only [mem_toFinset] at hc
      simp only [mem_toFinset, mem_append, ← hc]
      by_cases hcb : c = b <;> simp [hcb]

/-- The item was used, and fewer than `n` others since. -/
def Recent (n : Nat) (uses : List α) (a : α) : Prop :=
  ∃ front back, uses = front ++ a :: back ∧ a ∉ back ∧ back.toFinset.card < n

omit [DecidableEq α] in
lemma mem_take_append_cons {before after : List α} (ha : a ∉ before) :
    a ∈ (before ++ a :: after).take n ↔ before.length < n := by
  constructor
  · intro hmem
    by_contra hle
    rw [take_append_of_le_length (not_lt.mp hle)] at hmem
    exact ha (mem_of_mem_take hmem)
  · intro hlt
    obtain ⟨k, rfl⟩ := Nat.exists_eq_add_of_lt hlt
    rw [take_append, take_of_length_le (by omega),
      show before.length + k + 1 - before.length = k + 1 by omega]
    exact mem_append_right _ mem_cons_self

/-- The first `n` items are the recent ones. -/
theorem mem_take_recency_iff {n : Nat} {uses : List α} {a : α} :
    a ∈ (recency uses).take n ↔ Recent n uses a := by
  have hsplit : ∀ front back, uses = front ++ a :: back → a ∉ back →
      (a ∈ (recency uses).take n ↔ back.toFinset.card < n) := by
    rintro front back rfl hback
    obtain ⟨before, after, hrecency, hset⟩ := recency_append_cons front hback
    have hnodup := nodup_recency (front ++ a :: back)
    rw [hrecency, nodup_append] at hnodup
    have hbefore : a ∉ before := fun hmem => hnodup.2.2 a hmem a mem_cons_self rfl
    rw [hrecency, mem_take_append_cons hbefore, ← hset, toFinset_card_of_nodup hnodup.1]
  constructor
  · intro hmem
    have huses := mem_recency.mp (mem_of_mem_take hmem)
    obtain ⟨back, front, heq, hback⟩ := eq_append_cons_of_mem (List.mem_reverse.mpr huses)
    have huses : uses = front.reverse ++ a :: back.reverse := by
      rw [← reverse_reverse uses, heq]
      simp
    have hback : a ∉ back.reverse := fun h => hback (List.mem_reverse.mp h)
    exact ⟨_, _, huses, hback, (hsplit _ _ huses hback).mp hmem⟩
  · rintro ⟨front, back, huses, hback, hcard⟩
    exact (hsplit front back huses hback).mpr hcard

end Symkernel.Library
