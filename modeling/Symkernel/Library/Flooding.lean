import Mathlib

/-!
# Flooding a graph with the largest value

Every node of a graph holds a value.
-/

namespace Symkernel.Library

variable {V α : Type*} [Preorder α] {G : SimpleGraph V} {v : ℕ → V → α}

/-- A value travels one edge a round. -/
lemma le_after_walk {n : ℕ} (hedge : ∀ k < n, ∀ a b, G.Adj a b → v k a ≤ v (k + 1) b) {a b : V}
    (p : G.Walk a b) {k : ℕ} (hk : k + p.length ≤ n) : v k a ≤ v (k + p.length) b := by
  induction p generalizing k with
  | nil => exact le_rfl
  | cons hadj p ih =>
    rw [SimpleGraph.Walk.length_cons] at hk ⊢
    rw [Nat.add_comm p.length 1, ← Nat.add_assoc]
    exact (hedge k (by omega) _ _ hadj).trans (ih (by omega))

lemma le_of_keep {n : ℕ} (hkeep : ∀ k < n, ∀ a, v k a ≤ v (k + 1) a) (a : V) {i j : ℕ}
    (hij : i ≤ j) (hj : j ≤ n) : v i a ≤ v j a := by
  induction j, hij using Nat.le_induction with
  | base => exact le_rfl
  | succ j hij ih => exact (ih (by omega)).trans (hkeep j (by omega) a)

/-- After as many rounds as the diameter every node has a value at least as large as any start
value. -/
theorem le_after_diam [Finite V] (hconn : G.Connected)
    (hkeep : ∀ k < G.diam, ∀ a, v k a ≤ v (k + 1) a)
    (hedge : ∀ k < G.diam, ∀ a b, G.Adj a b → v k a ≤ v (k + 1) b) (a b : V) :
    v 0 a ≤ v G.diam b := by
  have : Nonempty V := hconn.nonempty
  obtain ⟨p, hp⟩ := hconn.exists_walk_length_eq_dist a b
  have hdist : p.length ≤ G.diam := by
    rw [hp]
    exact SimpleGraph.dist_le_diam (SimpleGraph.connected_iff_ediam_ne_top.mp hconn)
  calc v 0 a ≤ v (0 + p.length) b := le_after_walk hedge p (by omega)
    _ ≤ v G.diam b := le_of_keep hkeep b (by omega) le_rfl

end Symkernel.Library
