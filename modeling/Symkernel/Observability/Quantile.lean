import Symkernel.Observability.Views

/-!
# The quantiles of the histogram
-/

namespace Symkernel.Observability

open Library List

/-- The bounds of the buckets, apart from the last bucket, which has no upper bound. -/
def bucketBounds : List (ℚ × ℚ) := (0 :: latencyBucketsSeconds).zip latencyBucketsSeconds

/-- The value for `target` in a bucket with `n` samples, which come after `c` others. -/
def interpolated (target : ℚ) (c n : Nat) (lower upper : ℚ) : Int :=
  ⌊(lower + (target - c) / n * (upper - lower)) * 1000000000⌋

variable {target lower upper : ℚ} {c n : Nat}

lemma fraction_bounds (hlo : c < target) (hhi : target ≤ ↑(c + n)) :
    0 < n ∧ 0 ≤ (target - c) / n ∧ (target - c) / n ≤ 1 := by
  push_cast at hhi
  have hn : (0 : ℚ) < n := by linarith
  refine ⟨by exact_mod_cast hn, div_nonneg (by linarith) hn.le, ?_⟩
  rw [div_le_one hn]
  linarith

lemma interpolated_bounds (hlo : c < target) (hhi : target ≤ ↑(c + n)) (hle : lower ≤ upper)
    (hint : lower * 1000000000 = ⌊lower * 1000000000⌋) :
    lower ≤ exact.seconds (interpolated target c n lower upper) ∧
      exact.seconds (interpolated target c n lower upper) ≤ upper := by
  obtain ⟨-, h0, h1⟩ := fraction_bounds hlo hhi
  have hwidth : 0 ≤ upper - lower := by linarith
  have hbelow := mul_nonneg h0 hwidth
  have habove := mul_le_of_le_one_left hwidth h1
  simp only [exact, interpolated]
  constructor
  · rw [le_div_iff₀ (by norm_num), hint, Int.cast_le, Int.le_floor]
    linarith
  · rw [div_le_iff₀ (by norm_num)]
    apply (Int.floor_le _).trans
    linarith

lemma interpolated_mono {target' : ℚ} (hle : lower ≤ upper) (h : target ≤ target') :
    interpolated target c n lower upper ≤ interpolated target' c n lower upper := by
  apply Int.floor_mono
  gcongr

lemma secondsToDuration_eq {x : ℚ} (hx : 0 ≤ x) : secondsToDuration exact x = ⌊x * 1000000000⌋ := by
  simp only [secondsToDuration, exact, decide_eq_true_eq]
  split
  · rw [le_antisymm ‹_› hx, zero_mul, Int.floor_zero]
  · rw [if_pos (by positivity)]
    norm_cast

lemma exact_le_count (target : ℚ) (k : Nat) :
    exact.le target (exact.ofInt k) = true ↔ target ≤ k := by
  simp [exact]

lemma percentileLoop_eq {max : Int} {cells : List (ℚ × Nat)} {i cum : Nat} {prev : ℚ}
    (hcell : cells[i]? = some (upper, n)) (hprev : (prev :: cells.map Prod.fst)[i]? = some lower)
    (hlo : ↑(cum + ((cells.take i).map Prod.snd).sum) < target)
    (hhi : target ≤ ↑(cum + ((cells.take i).map Prod.snd).sum + n)) (h0 : 0 ≤ lower)
    (hle : lower ≤ upper) : percentileLoop exact max target cum prev cells =
      interpolated target (cum + ((cells.take i).map Prod.snd).sum) n lower upper := by
  induction i generalizing cells cum prev with
  | zero =>
    cases cells with
    | nil => cases hcell
    | cons cell cells =>
      cases hcell
      cases hprev
      obtain ⟨hn, hfrac, hfrac1⟩ := fraction_bounds hlo hhi
      simp only [take_zero, map_nil, sum_nil, Nat.add_zero] at hlo hhi hfrac hfrac1 ⊢
      have hclamp : clamp exact ((target - cum) / n) = (target - cum) / n := by
        simp only [clamp, exact, decide_eq_true_eq, if_neg (not_lt.mpr hfrac),
          if_neg (not_lt.mpr hfrac1)]
      rw [percentileLoop, if_pos ((exact_le_count _ _).mpr hhi), if_neg hn.ne', interpolated,
        ← secondsToDuration_eq (by positivity), ← hclamp]
      rfl
  | succ i ih =>
    cases cells with
    | nil => cases hcell
    | cons cell cells =>
      simp only [take_succ_cons, map_cons, sum_cons, ← Nat.add_assoc] at hlo hhi ⊢
      have hmore : ↑(cum + cell.2) < target := by
        refine lt_of_le_of_lt ?_ hlo
        exact_mod_cast Nat.le_add_right _ _
      rw [percentileLoop, if_neg (by rwa [exact_le_count, not_le])]
      exact ih hcell hprev hlo hhi

lemma percentileLoop_eq_max {max : Int} {cells : List (ℚ × Nat)} {cum : Nat} {prev : ℚ}
    (h : ↑(cum + (cells.map Prod.snd).sum) < target) :
    percentileLoop exact max target cum prev cells = max := by
  induction cells generalizing cum prev with
  | nil => rfl
  | cons cell cells ih =>
    rw [map_cons, sum_cons, ← Nat.add_assoc] at h
    have hmore : ↑(cum + cell.2) < target := by
      refine lt_of_le_of_lt ?_ h
      exact_mod_cast Nat.le_add_right _ _
    rw [percentileLoop, if_neg (by rwa [exact_le_count, not_le])]
    exact ih h

def countBelow (ds : Multiset Int) (i : Nat) : Nat :=
  ds.countP fun d => latencyBucketIndex exact d < i

variable {a : LatencyAgg (List Nat)} {ds : Multiset Int} {q : ℚ} {i : Nat}

lemma countBelow_succ (ds : Multiset Int) (i : Nat) : countBelow ds (i + 1) =
    countBelow ds i + ds.countP fun d => latencyBucketIndex exact d = i := by
  rw [countBelow, countBelow, ← sum_countP_eq, ← sum_countP_eq, Finset.sum_range_succ]

lemma countBelow_mono (ds : Multiset Int) {j : Nat} (h : i ≤ j) :
    countBelow ds i ≤ countBelow ds j :=
  countP_le_countP (fun _ hd => lt_of_lt_of_le hd h) ds

lemma latencyBucketIndex_le (d : Int) : latencyBucketIndex exact d ≤ 11 :=
  findIdx_le_length

lemma seconds_le_seconds {d d' : Int} : exact.seconds d ≤ exact.seconds d' ↔ d ≤ d' := by
  simp only [exact]
  rw [div_le_div_iff_of_pos_right (by norm_num), Int.cast_le]

lemma latencyBucketIndex_mono {d d' : Int} (h : d ≤ d') :
    latencyBucketIndex exact d ≤ latencyBucketIndex exact d' := by
  by_cases hlt : latencyBucketIndex exact d' < latencyBucketsSeconds.length
  · rw [latencyBucketIndex_le_iff d hlt]
    exact (seconds_le_seconds.mpr h).trans ((latencyBucketIndex_le_iff d' hlt).mp le_rfl)
  · exact (latencyBucketIndex_le d).trans (not_lt.mp hlt)

/-- The sample of rank `⌈q * n⌉`, and how many samples are in the buckets up to its own. -/
lemma exists_rank {ds : List Int} (hne : ds ≠ []) (h0 : 0 < q) (h1 : q < 1) :
    ∃ s, (ds.insertionSort (· ≤ ·))[⌈q * ds.length⌉₊ - 1]? = some s ∧
      countBelow ds (latencyBucketIndex exact s) < q * ds.length ∧
      q * ds.length ≤ countBelow ds (latencyBucketIndex exact s + 1) := by
  have hperm := perm_insertionSort (· ≤ ·) ds
  have hsorted := pairwise_insertionSort (· ≤ ·) ds
  have hn : (0 : ℚ) < ds.length := by exact_mod_cast length_pos_of_ne_nil hne
  have hpos : 0 < ⌈q * ds.length⌉₊ := Nat.ceil_pos.mpr (mul_pos h0 hn)
  have hle : ⌈q * ds.length⌉₊ ≤ ds.length := by
    rw [Nat.ceil_le]
    exact mul_le_of_le_one_left hn.le h1.le
  have hk : ⌈q * ds.length⌉₊ - 1 < (ds.insertionSort (· ≤ ·)).length := by
    rw [hperm.length_eq]
    omega
  have hrank : ∀ j, latencyBucketIndex exact (ds.insertionSort (· ≤ ·))[⌈q * ds.length⌉₊ - 1] < j ↔
      ⌈q * ds.length⌉₊ - 1 < countBelow ds j := by
    intro j
    rw [countBelow, Multiset.coe_countP, ← hperm.countP_eq]
    exact getElem_iff_lt_countP hsorted
      (fun d d' hd hj => lt_of_le_of_lt (latencyBucketIndex_mono hd) hj) hk
  refine ⟨_, List.getElem?_eq_getElem hk, ?_, ?_⟩
  · rw [← Nat.lt_ceil]
    have hnot := (hrank _).not.mp (lt_irrefl _)
    omega
  · rw [← Nat.ceil_le]
    have hlt := (hrank _).mp (lt_add_one _)
    omega

namespace LatencyAgg.Of

lemma foldl_record (l : List Int) (h : a.Of exact ds) :
    (l.foldl (LatencyAgg.record exact) a).Of exact (ds + ↑l) := by
  induction l generalizing a ds with
  | nil =>
    rw [Multiset.coe_nil, add_zero]
    exact h
  | cons d l ih =>
    rw [foldl_cons, ← Multiset.cons_coe, Multiset.add_cons, ← Multiset.cons_add]
    exact ih (h.record d)

lemma sum_take (h : a.Of exact ds) (hi : i ≤ 11) :
    (((latencyBucketsSeconds.zip a.buckets).take i).map Prod.snd).sum = countBelow ds i := by
  rw [map_take, h.cells_counts, ← map_take, take_range, Nat.min_eq_left hi,
    countBelow, ← sum_countP_eq]
  rfl

lemma percentile_eq_loop (h : a.Of exact ds) (hne : ds ≠ 0) (h0 : 0 < q) (h1 : q < 1) :
    a.percentile exact q =
      percentileLoop exact a.max (q * ds.card) 0 0 (latencyBucketsSeconds.zip a.buckets) := by
  rw [LatencyAgg.percentile, if_neg (by rwa [h.count_eq_zero]), if_neg (by simpa [exact] using h0),
    if_neg (by simpa [exact] using h1), h.count]
  rfl

lemma percentile_eq (h : a.Of exact ds) (hne : ds ≠ 0) (h0 : 0 < q) (h1 : q < 1)
    (hb : bucketBounds[i]? = some (lower, upper)) (hlo : countBelow ds i < q * ds.card)
    (hhi : q * ds.card ≤ countBelow ds (i + 1)) : a.percentile exact q =
      interpolated (q * ds.card) (countBelow ds i)
        (ds.countP fun d => latencyBucketIndex exact d = i) lower upper := by
  have hfacts : ∀ b ∈ bucketBounds, 0 ≤ b.1 ∧ b.1 ≤ b.2 := by decide +kernel
  obtain ⟨hlower, hle⟩ := hfacts _ (List.mem_of_getElem? hb)
  obtain ⟨hprev, hupper⟩ := List.getElem?_zip_eq_some.mp hb
  have hi : i < 11 := (List.getElem?_eq_some_iff.mp hupper).1
  have hsum := h.sum_take hi.le
  have hcell : (latencyBucketsSeconds.zip a.buckets)[i]? =
      some (upper, ds.countP fun d => latencyBucketIndex exact d = i) := by
    rw [List.getElem?_zip_eq_some, h.buckets]
    refine ⟨hupper, ?_⟩
    rw [List.getElem?_map, List.getElem?_range (show i < numLatencyBuckets from Nat.lt_succ_of_lt hi)]
    rfl
  rw [countBelow_succ] at hhi
  rw [h.percentile_eq_loop hne h0 h1, percentileLoop_eq hcell (by rwa [h.cells_bounds])
    (by rwa [hsum, Nat.zero_add]) (by rwa [hsum, Nat.zero_add]) hlower hle, hsum, Nat.zero_add]

lemma percentile_bounds (h : a.Of exact ds) (hne : ds ≠ 0) (h0 : 0 < q) (h1 : q < 1)
    (hb : bucketBounds[i]? = some (lower, upper)) (hlo : countBelow ds i < q * ds.card)
    (hhi : q * ds.card ≤ countBelow ds (i + 1)) :
    lower ≤ exact.seconds (a.percentile exact q) ∧ exact.seconds (a.percentile exact q) ≤ upper := by
  have hfacts : ∀ b ∈ bucketBounds, b.1 ≤ b.2 ∧ b.1 * 1000000000 = ⌊b.1 * 1000000000⌋ := by
    decide +kernel
  obtain ⟨hle, hint⟩ := hfacts _ (List.mem_of_getElem? hb)
  rw [h.percentile_eq hne h0 h1 hb hlo hhi]
  rw [countBelow_succ] at hhi
  exact interpolated_bounds hlo hhi hle hint

lemma percentile_eq_max (h : a.Of exact ds) (hne : ds ≠ 0) (h0 : 0 < q) (h1 : q < 1)
    (hlo : countBelow ds 11 < q * ds.card) : a.percentile exact q = a.max := by
  have hsum := h.sum_take le_rfl
  rw [take_of_length_le (by rw [length_zip]; exact min_le_left _ _)] at hsum
  rw [h.percentile_eq_loop hne h0 h1, percentileLoop_eq_max]
  rwa [hsum, Nat.zero_add]

lemma ten_le_max (h : a.Of exact ds) (h1 : q < 1) (hlo : countBelow ds 11 < q * ds.card) :
    10 ≤ exact.seconds a.max := by
  have hless : countBelow ds 11 < ds.card := by
    have hle : q * ds.card ≤ ds.card := mul_le_of_le_one_left (Nat.cast_nonneg _) h1.le
    exact_mod_cast hlo.trans_le hle
  obtain ⟨d, hd, hover⟩ : ∃ d ∈ ds, ¬latencyBucketIndex exact d < 11 := by
    by_contra hall
    push Not at hall
    exact hless.ne (Multiset.countP_eq_card.mpr hall)
  have hten : ¬exact.seconds d ≤ 10 := by
    rw [Nat.lt_succ_iff, latencyBucketIndex_le_iff d (k := 10) (by decide)] at hover
    exact hover
  rw [h.max]
  exact (not_le.mp hten).le.trans (seconds_le_seconds.mpr (le_greatest hd))

end LatencyAgg.Of

lemma bucketBounds_eq_none (h : bucketBounds[i]? = none) : 11 ≤ i :=
  List.getElem?_eq_none_iff.mp h

/-- Percentiles of one bucket are interpolated between its bounds, and the buckets follow one
another. -/
lemma LatencyAgg.Of.percentile_mono (h : a.Of exact ds) (hne : ds ≠ 0) {q' : ℚ} (h0 : 0 < q)
    (hq : q ≤ q') (h1 : q' < 1) {i' : Nat} (hi' : i' ≤ 11) (hlo : countBelow ds i < q * ds.card)
    (hhi : q * ds.card ≤ countBelow ds (i + 1)) (hlo' : countBelow ds i' < q' * ds.card)
    (hhi' : q' * ds.card ≤ countBelow ds (i' + 1)) :
    a.percentile exact q ≤ a.percentile exact q' := by
  have hmul : q * ds.card ≤ q' * ds.card := mul_le_mul_of_nonneg_right hq (Nat.cast_nonneg _)
  have hle : i ≤ i' := by
    by_contra hlt
    have hmono := countBelow_mono ds (show i' + 1 ≤ i by omega)
    have hlt' : countBelow ds i < countBelow ds (i' + 1) := by
      exact_mod_cast hlo.trans_le (hmul.trans hhi')
    omega
  have h0' := h0.trans_le hq
  have h1' := hq.trans_lt h1
  cases hb' : bucketBounds[i']? with
  | none =>
    have heq : i' = 11 := le_antisymm hi' (bucketBounds_eq_none hb')
    subst heq
    rw [h.percentile_eq_max hne h0' h1 hlo']
    cases hb : bucketBounds[i]? with
    | none =>
      have heq : i = 11 := le_antisymm hle (bucketBounds_eq_none hb)
      subst heq
      rw [h.percentile_eq_max hne h0 h1' hlo]
    | some b =>
      have hfacts : ∀ b ∈ bucketBounds, b.2 ≤ 10 := by decide +kernel
      rw [← seconds_le_seconds]
      apply (h.percentile_bounds hne h0 h1' hb hlo hhi).2.trans
      exact (hfacts b (List.mem_of_getElem? hb)).trans (h.ten_le_max h1 hlo')
  | some b' =>
    obtain rfl | hlt := hle.eq_or_lt
    · have hfacts : ∀ b ∈ bucketBounds, b.1 ≤ b.2 := by decide +kernel
      rw [h.percentile_eq hne h0 h1' hb' hlo hhi, h.percentile_eq hne h0' h1 hb' hlo' hhi']
      exact interpolated_mono (hfacts b' (List.mem_of_getElem? hb')) hmul
    · have hfacts : bucketBounds.Pairwise fun b b' => b.2 ≤ b'.1 := by decide +kernel
      obtain ⟨hlen', hget'⟩ := List.getElem?_eq_some_iff.mp hb'
      have hlen : i < bucketBounds.length := hlt.trans hlen'
      have hbounds := h.percentile_bounds hne h0 h1' (List.getElem?_eq_getElem hlen) hlo hhi
      rw [← seconds_le_seconds]
      apply hbounds.2.trans
      apply (List.pairwise_iff_getElem.mp hfacts i i' hlen hlen' hlt).trans
      rw [hget']
      exact (h.percentile_bounds hne h0' h1 hb' hlo' hhi').1

/-- The percentile of `q` is in the bucket of the sample of rank `⌈q * n⌉`, or is the greatest
sample if that bucket has no upper bound. -/
theorem percentile_accurate (ds : List Int) (hne : ds ≠ []) (hds : ∀ d ∈ ds, 0 ≤ d) :
    let percentile := (ds.foldl (LatencyAgg.record exact) newLatencyAgg).percentile exact
    (∀ q : ℚ, 0 < q → q < 1 →
      ∃ s, (ds.insertionSort (· ≤ ·))[⌈q * ds.length⌉₊ - 1]? = some s ∧
        (∀ lower upper, bucketBounds[latencyBucketIndex exact s]? = some (lower, upper) →
          lower ≤ exact.seconds (percentile q) ∧ exact.seconds (percentile q) ≤ upper) ∧
        (bucketBounds[latencyBucketIndex exact s]? = none →
          IsGreatest {d | d ∈ ds} (percentile q))) ∧
    ∀ q q' : ℚ, 0 < q → q ≤ q' → q' < 1 → percentile q ≤ percentile q' := by
  intro percentile
  have hof := LatencyAgg.Of.foldl_record ds (.new (A := exact))
  rw [zero_add] at hof
  have hne' : (↑ds : Multiset Int) ≠ 0 := by rwa [Ne, Multiset.coe_eq_zero]
  constructor
  · intro q h0 h1
    obtain ⟨s, hs, hlo, hhi⟩ := exists_rank hne h0 h1
    refine ⟨s, hs, fun lower upper hb => hof.percentile_bounds hne' h0 h1 hb hlo hhi, ?_⟩
    intro hb
    rw [le_antisymm (latencyBucketIndex_le s) (bucketBounds_eq_none hb)] at hlo
    rw [show percentile q = _ from hof.percentile_eq_max hne' h0 h1 hlo, hof.max]
    exact ⟨greatest_mem hne' hds, fun d hd => le_greatest hd⟩
  · intro q q' h0 hq h1
    obtain ⟨s, -, hlo, hhi⟩ := exists_rank hne h0 (hq.trans_lt h1)
    obtain ⟨s', -, hlo', hhi'⟩ := exists_rank hne (h0.trans_le hq) h1
    exact hof.percentile_mono hne' h0 hq h1 (latencyBucketIndex_le s') hlo hhi hlo' hhi'

theorem percentiles_of_two :
    let a := [7000000, 30000000000].foldl (LatencyAgg.record exact) newLatencyAgg
    a.percentile exact (1 / 4) ≤ a.percentile exact (9 / 10) :=
  (percentile_accurate [7000000, 30000000000] (by decide) (by decide)).2 (1 / 4) (9 / 10)
    (by norm_num) (by norm_num) (by norm_num)

end Symkernel.Observability
