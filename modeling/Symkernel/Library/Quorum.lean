import Mathlib

/-!
# Counting votes against quorums

The textbook argument for election safety intersects two quorums: a voter in both would have voted
twice.
-/

namespace Symkernel.Library

open Finset Finset

section Quorum

variable {V : Type*} [DecidableEq V]

omit [DecidableEq V] in
lemma winners_ballots_le {voters winners : Finset V} {ballot : V → V → Prop} [DecidableRel ballot]
    {q : ℕ} (hq : ∀ c ∈ winners, q ≤ (voters.filter (fun v => ballot v c)).card) :
    winners.card * q ≤ ∑ v ∈ voters, (winners.filter (fun c => ballot v c)).card := by
  calc winners.card * q = ∑ _c ∈ winners, q := by simp
    _ ≤ ∑ c ∈ winners, (voters.filter (fun v => ballot v c)).card := sum_le_sum hq
    _ = ∑ v ∈ voters, (winners.filter (fun c => ballot v c)).card := by
      simp only [card_filter]
      exact sum_comm

/-- **Winners in office are unique.** Each winner holds a majority; a voter that has not
resigned votes for one candidate and a resigned one for at most two; resigned voters are
winners. Then at most one winner has not resigned. -/
theorem unresigned_winner_unique {voters winners resigned : Finset V} {ballot : V → V → Prop}
    [DecidableRel ballot] {q : ℕ} (hmaj : voters.card < 2 * q)
    (hq : ∀ c ∈ winners, q ≤ (voters.filter (fun v => ballot v c)).card)
    (hone : ∀ v ∈ voters, v ∉ resigned → (winners.filter (fun c => ballot v c)).card ≤ 1)
    (htwo : ∀ v ∈ voters, (winners.filter (fun c => ballot v c)).card ≤ 2)
    (hsub : resigned ⊆ winners) {a b : V} (ha : a ∈ winners \ resigned)
    (hb : b ∈ winners \ resigned) : a = b := by
  by_contra hab
  have hballots := winners_ballots_le hq
  -- every voter contributes one ballot, resigned voters one more
  have hper : ∑ v ∈ voters, (winners.filter (fun c => ballot v c)).card ≤
      ∑ v ∈ voters, (1 + if v ∈ resigned then 1 else 0) := by
    apply sum_le_sum
    intro v hv
    by_cases hr : v ∈ resigned
    · simpa [hr] using htwo v hv
    · simpa [hr] using hone v hv hr
  have htotal : ∑ v ∈ voters, (1 + if v ∈ resigned then 1 else 0) ≤
      voters.card + resigned.card := by
    rw [sum_add_distrib, ← card_filter, card_eq_sum_ones voters]
    gcongr
    intro v hv
    exact (Finset.mem_filter.mp hv).2
  have htwoLeft : resigned.card + 2 ≤ winners.card := by
    have hpair : ({a, b} : Finset V) ⊆ winners \ resigned := by
      intro x hx
      rcases Finset.mem_insert.mp hx with rfl | hx
      · exact ha
      · exact Finset.mem_singleton.mp hx ▸ hb
    have h2 := card_le_card hpair
    rw [card_pair hab, card_sdiff_of_subset hsub] at h2
    omega
  have hpos : 0 < q := by omega
  have hfew : resigned.card ≤ resigned.card * q := Nat.le_mul_of_pos_right _ hpos
  have hwin : (resigned.card + 2) * q ≤ winners.card * q := Nat.mul_le_mul_right q htwoLeft
  have hsplit : (resigned.card + 2) * q = resigned.card * q + 2 * q := by ring
  omega

end Quorum

end Symkernel.Library
