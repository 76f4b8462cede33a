import Mathlib

/-!
# Binary search

`search n f` is the loop of Go's `sort.Search`: it halves the interval that still can hold the
first index at which `f` is true, and returns `n` when there is none.
-/

namespace Symkernel.Library

/-- The loop of the search, for the half-open interval that starts at `i` and ends before `j`. -/
def searchFrom (f : ℕ → Bool) (i j : ℕ) : ℕ :=
  if i < j then
    let h := (i + j) / 2
    if !f h then searchFrom f (h + 1) j else searchFrom f i h
  else i
termination_by j - i

def search (n : ℕ) (f : ℕ → Bool) : ℕ :=
  searchFrom f 0 n

/-- The invariant of the loop: `f` is false before `i` and true at `j` unless `j` is the end. -/
lemma searchFrom_spec {n : ℕ} {f : ℕ → Bool} (hmono : ∀ a b, a ≤ b → b < n → f a → f b)
    {i j : ℕ} (hij : i ≤ j) (hjn : j ≤ n) (hlow : ∀ k < i, f k = false) (hhigh : j < n → f j) :
    searchFrom f i j ≤ n ∧ (∀ k < searchFrom f i j, f k = false) ∧
      (searchFrom f i j < n → f (searchFrom f i j)) := by
  fun_induction searchFrom f i j with
  | case1 i j hlt h hf ih =>
    have hfalse : f h = false := by simpa using hf
    refine ih (by omega) hjn (fun k hk => ?_) hhigh
    by_contra hk'
    have := hmono k h (by omega) (by omega) (by simpa using hk')
    simp [hfalse] at this
  | case2 i j hlt h hf ih =>
    exact ih (by omega) (by omega) hlow (fun _ => by simpa using hf)
  | case3 i j hlt =>
    have hij' : i = j := by omega
    subst hij'
    exact ⟨hjn, hlow, hhigh⟩

/-- When `f` stays true once it is true, the search returns its first true index. -/
theorem search_spec {n : ℕ} {f : ℕ → Bool} (hmono : ∀ a b, a ≤ b → b < n → f a → f b) :
    search n f ≤ n ∧ (∀ k < search n f, f k = false) ∧ (search n f < n → f (search n f)) :=
  searchFrom_spec hmono (Nat.zero_le n) (Nat.le_refl n) (by simp) (by simp)

end Symkernel.Library
