import Mathlib

/-!
# Editing a slice in place

`append(s[:i], s[i+1:]...)` moves the tail of a slice one place down inside its backing array.
-/

namespace Symkernel.Library

open List

variable {α : Type*}

/-- The places of a backing array `buf` once the slice that starts at its first place has
been rewritten to `visible`. -/
def writeBack (visible buf : List α) : List α :=
  visible ++ buf.drop visible.length

variable {l buf visible : List α}

lemma getElem?_writeBack_of_lt {j : ℕ} (h : j < visible.length) :
    (writeBack visible buf)[j]? = visible[j]? :=
  List.getElem?_append_left h

lemma getElem?_writeBack_of_le {j : ℕ} (h : visible.length ≤ j) :
    (writeBack visible buf)[j]? = buf[j]? := by
  rw [writeBack, List.getElem?_append_right h, List.getElem?_drop]
  congr 1
  omega

lemma mem_take_erase [DecidableEq α] {j : ℕ} {a y : α} (hy : y ∈ l.take j) (ha : a ≠ y) :
    y ∈ (l.erase a).take j := by
  induction l generalizing j with
  | nil => simp at hy
  | cons b l ih =>
    cases j with
    | zero => simp at hy
    | succ j =>
      rw [take_succ_cons, mem_cons] at hy
      by_cases hb : b = a
      · subst hb
        rw [erase_cons_head]
        obtain rfl | hy := hy
        · exact absurd rfl ha
        · exact take_subset_take_left l (Nat.le_succ j) hy
      · rw [erase_cons_tail (by simpa using hb), take_succ_cons, mem_cons]
        exact hy.imp_right ih

lemma getElem?_ne_of_mem_take (hnd : l.Nodup) {j p : ℕ} {y : α} (hy : y ∈ l.take j) (hp : j ≤ p) :
    l[p]? ≠ some y := by
  intro heq
  obtain ⟨i, hi, hget⟩ := List.mem_take_iff_getElem.mp hy
  obtain ⟨hlt, hget'⟩ := List.getElem?_eq_some_iff.mp heq
  have hip : i = p := (List.Nodup.getElem_inj_iff hnd).mp (hget.trans hget'.symm)
  omega

/-- Removing another element in place never brings a passed element back before the reader. -/
lemma writeBack_erase_ne [DecidableEq α] (hnd : visible.Nodup) {j : ℕ} {a y : α}
    (hy : y ∈ visible.take j) (ha : a ≠ y) (hbuf : ∀ p, j ≤ p → buf[p]? ≠ some y) :
    ∀ p, j ≤ p → (writeBack (visible.erase a) buf)[p]? ≠ some y := by
  intro p hp
  by_cases hlt : p < (visible.erase a).length
  · rw [getElem?_writeBack_of_lt hlt]
    exact getElem?_ne_of_mem_take (hnd.erase a) (mem_take_erase hy ha) hp
  · rw [getElem?_writeBack_of_le (Nat.le_of_not_lt hlt)]
    exact hbuf p hp

/-- The loop over `buf` that appends the kept elements to `buf[:0]`: `i` is the place it reads,
`w` the number of elements it has written, the first argument how many places are left. -/
def filterLoop (keep : α → Bool) : ℕ → ℕ → ℕ → List α → List α
  | 0, _, w, buf => buf.take w
  | left + 1, i, w, buf =>
    match buf[i]? with
    | none => buf.take w
    | some x =>
      if keep x then filterLoop keep left (i + 1) (w + 1) (buf.set w x)
      else filterLoop keep left (i + 1) w buf

def filterInPlace (keep : α → Bool) (buf : List α) : List α :=
  filterLoop keep buf.length 0 0 buf

/-- The array is always the kept elements, then places that were already read, then the places
still to be read: a write never reaches these. -/
lemma filterLoop_eq (keep : α → Bool) (written stale rest : List α) :
    filterLoop keep rest.length (written.length + stale.length) written.length
      (written ++ (stale ++ rest)) = written ++ rest.filter keep := by
  induction rest generalizing written stale with
  | nil => simp [filterLoop]
  | cons x rest ih =>
    have hread : (written ++ (stale ++ x :: rest))[written.length + stale.length]? = some x := by
      simp
    rw [length_cons, filterLoop, hread]
    by_cases hx : keep x = true
    · have hlast := ih (written ++ [x])
      rw [filter_cons_of_pos hx]
      simp only [hx, if_true]
      cases stale with
      | nil => simpa using hlast []
      | cons y stale =>
        have := hlast (stale ++ [x])
        simp only [length_append, length_cons, length_nil, append_assoc,
          cons_append, nil_append] at this ⊢
        rw [← this]
        congr 1
        · omega
        · simp
    · rw [filter_cons_of_neg hx]
      simp only [hx]
      simpa [Nat.add_assoc] using ih written (stale ++ [x])

theorem filterInPlace_eq_filter (keep : α → Bool) (buf : List α) :
    filterInPlace keep buf = buf.filter keep := by
  simpa [filterInPlace] using filterLoop_eq keep [] [] buf

end Symkernel.Library
