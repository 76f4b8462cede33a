import Symkernel.Observability.History

/-!
# The views of the metrics
-/

namespace Symkernel.Observability

open Library Collector List

variable {F : Type} {A : Arithmetic F} {os : List Observation}

structure SameTotals (s s' : Series) : Prop where
  lat : s.lat = s'.lat
  total : s.total = s'.total
  successes : s.successes = s'.successes
  failures : s.failures = s'.failures
  errorsByCode : s.errorsByCode = s'.errorsByCode
  maxMemory : s.maxMemory = s'.maxMemory
  totalInstructions : s.totalInstructions = s'.totalInstructions

lemma PolicySeries.Of.sameTotals {s s' : Series} {M : Multiset Observation} (h : s.Of A M)
    (h' : s'.Of A M) : SameTotals s s' :=
  ⟨h.lat.unique h'.lat, h.total.trans h'.total.symm, h.successes.trans h'.successes.symm,
    h.failures.trans h'.failures.symm, h.errors.unique h'.errors, h.memory.trans h'.memory.symm,
    h.instructions.trans h'.instructions.symm⟩

namespace Collector

variable {c : Collector} {order : RangeOrder String}
  {sort : SliceSort (PolicySeries.policyID : Held → String)}

lemma mem_allSeries {ps : Held} :
    ps ∈ c.allSeries order sort ↔ ∃ id, c.series.lookup id = some ps := by
  rw [allSeries, (sort.perm _).mem_iff, mem_filterMap]
  constructor
  · rintro ⟨id, -, hps⟩
    exact ⟨id, hps⟩
  · rintro ⟨id, hps⟩
    refine ⟨id, ?_, hps⟩
    rw [order.mem_keys, Finmap.mem_keys, ← Finmap.lookup_isSome, hps]
    rfl

lemma Inv.policyIDs_perm (h : c.Inv A os) :
    ((c.allSeries order sort).map PolicySeries.policyID).Perm (order.keys c.series.keys) := by
  have hname : ∀ id ∈ order.keys c.series.keys,
      (c.series.lookup id).map PolicySeries.policyID = some id := by
    intro id hid
    rw [order.mem_keys, Finmap.mem_keys, ← Finmap.lookup_isSome, Option.isSome_iff_exists] at hid
    obtain ⟨ps, hps⟩ := hid
    rw [hps, Option.map_some, (h.named id ps hps).2]
  apply ((sort.perm _).map _).trans
  rw [map_filterMap, filterMap_congr hname, filterMap_some]

lemma Inv.load_of (h : c.Inv A os) {id : String} {ps : Held} (hps : c.series.lookup id = some ps) :
    (c.memory.load ps).Of A ↑(os.filter fun o => o.policyID = ps.policyID) := by
  obtain ⟨hid, hname⟩ := h.named id ps hps
  apply history_of
  rw [hname, ← h.look id hid, hps]
  rfl

lemma Inv.mem_keys (h : c.Inv A os) {o : Observation} (ho : o ∈ os) (hid : o.policyID ≠ "") :
    o.policyID ∈ c.series.keys := by
  have hsome : (history A o.policyID os).isSome := by
    rw [history, if_neg]
    · rfl
    · exact ne_nil_of_mem (List.mem_filter.mpr ⟨ho, decide_eq_true rfl⟩)
  rw [← h.look _ hid, Option.isSome_map] at hsome
  rwa [Finmap.mem_keys, ← Finmap.lookup_isSome]

end Collector

/-- The overall series of `Render` is, in whatever order the series are visited, the series into
which all observations are recorded. -/
theorem overall_eq_direct (A : Arithmetic F) (os : List Observation)
    (hids : ∀ o ∈ os, o.policyID ≠ "") (order codes : RangeOrder String)
    (sort : SliceSort (PolicySeries.policyID : Held → String)) (visited : List Held)
    (hvisited : visited.Perm ((after A os).allSeries order sort)) :
    SameTotals (overall codes (visited.map (after A os).memory.load))
      (os.foldl (PolicySeries.record A) freshSeries) := by
  have hinv := inv_after A os
  have hparts : ∀ ps ∈ visited, ((after A os).memory.load ps).Of A
      ((↑os : Multiset Observation).filter fun o => o.policyID = ps.policyID) := by
    intro ps hps
    obtain ⟨id, hps⟩ := mem_allSeries.mp (hvisited.mem_iff.mp hps)
    exact hinv.load_of hps
  have hall := PolicySeries.Of.overall _ _ hparts codes
  have hperm := (hvisited.map PolicySeries.policyID).trans hinv.policyIDs_perm
  have hsum := sum_filter_key Observation.policyID
    (hperm.nodup_iff.mpr (order.nodup _)) (↑os : Multiset Observation) (by
      intro o ho
      rw [hperm.mem_iff, order.mem_keys]
      exact hinv.mem_keys ho (hids o ho))
  rw [map_map] at hsum
  have hdirect := (PolicySeries.Of.fresh (A := A) "").foldl_record os
  rw [zero_add] at hdirect
  exact PolicySeries.Of.sameTotals (by rwa [← hsum]) hdirect

def verified (policyID : String) : Observation where
  policyID := policyID
  latency := 7000000
  timestamp := 1

theorem overall_of_two_policies : SameTotals (overall (.ascending String)
        (((after exact [verified "p", verified "q"]).allSeries (.ascending String)
          (.insertion _)).reverse.map (after exact [verified "p", verified "q"]).memory.load))
      ([verified "p", verified "q"].foldl (PolicySeries.record exact) freshSeries) :=
  overall_eq_direct exact _ (by decide) _ _ _ _ (reverse_perm _)

lemma latencyBucketIndex_le_iff (d : Int) {k : Nat} (hk : k < latencyBucketsSeconds.length) :
    latencyBucketIndex exact d ≤ k ↔ exact.seconds d ≤ latencyBucketsSeconds[k] := by
  have hsorted : latencyBucketsSeconds.Pairwise (· ≤ ·) := by decide +kernel
  constructor
  · intro hle
    have hlt := lt_of_le_of_lt hle hk
    apply (of_decide_eq_true (findIdx_getElem (w := hlt))).trans
    exact hsorted.rel_get_of_le (a := ⟨_, hlt⟩) (b := ⟨k, hk⟩) hle
  · intro hle
    by_contra hlt
    have hnot := not_of_lt_findIdx (not_le.mp hlt)
    exact absurd hle (of_decide_eq_false hnot)

def countUpTo (ds : Multiset Int) (bound : ℚ) : Nat := ds.countP fun d => exact.seconds d ≤ bound

lemma countUpTo_mono (ds : Multiset Int) {b b' : ℚ} (h : b ≤ b') :
    countUpTo ds b ≤ countUpTo ds b' :=
  countP_le_countP (fun _ hd => le_trans hd h) ds

section Buckets

variable {a : LatencyAgg (List Nat)} {ds : Multiset Int}

lemma LatencyAgg.Of.cells_bounds (h : a.Of A ds) :
    (latencyBucketsSeconds.zip a.buckets).map Prod.fst = latencyBucketsSeconds := by
  rw [h.buckets]
  rfl

lemma LatencyAgg.Of.cells_counts (h : a.Of A ds) :
    (latencyBucketsSeconds.zip a.buckets).map Prod.snd =
      (List.range 11).map fun i => ds.countP fun d => latencyBucketIndex A d = i := by
  rw [h.buckets]
  rfl

/-- A loop that adds up the buckets notes for every bound the latencies up to it. -/
lemma LatencyAgg.Of.foldl_buckets (h : a.Of exact ds) {β : Type} (note : ℚ → Nat → β) :
    (latencyBucketsSeconds.zip a.buckets).foldl
      (fun (p : Nat × List β) x => (p.1 + x.2, p.2 ++ [note x.1 (p.1 + x.2)])) (0, []) =
      (ds.countP fun d => latencyBucketIndex exact d < 11,
        latencyBucketsSeconds.map fun b => note b (countUpTo ds b)) := by
  rw [foldl_runningSums, h.cells_bounds, h.cells_counts, runningSums_map_range, Prod.mk.injEq]
  constructor
  · rw [Nat.zero_add, ← sum_countP_eq]
    rfl
  · simp only [sum_countP_eq]
    apply ext_getElem
    · rfl
    · intro k _ hk
      rw [length_map] at hk
      simp [countUpTo, latencyBucketIndex_le_iff _ hk]

lemma LatencyAgg.Of.sum_buckets (h : a.Of A ds) : a.buckets.sum = a.count := by
  have hindex : ∀ d, latencyBucketIndex A d < numLatencyBuckets := fun d =>
    Nat.lt_succ_of_le findIdx_le_length
  rw [h.buckets, h.count, ← Multiset.countP_eq_card.mpr fun d _ => hindex d, ← sum_countP_eq]
  rfl

lemma LatencyAgg.Of.cumulativeBuckets_eq (h : a.Of exact ds) : cumulativeBuckets a.buckets =
    latencyBucketsSeconds.map (fun b => ⟨b, countUpTo ds b⟩) ++ [⟨-1, a.count⟩] := by
  have hlast : a.buckets.getLastD 0 = ds.countP fun d => latencyBucketIndex exact d = 11 := by
    rw [h.buckets]
    rfl
  have hall : ds.countP (fun d => latencyBucketIndex exact d < 11) +
      ds.countP (fun d => latencyBucketIndex exact d = 11) = a.count := by
    rw [← h.sum_buckets, h.buckets, ← sum_countP_eq, ← Finset.sum_range_succ]
    rfl
  rw [cumulativeBuckets, h.foldl_buckets Bucket.mk, hlast]
  dsimp only
  rw [hall]

end Buckets

/-- What a bucket of the dashboard is in the text for Prometheus. -/
def Bucket.entry (format : ℚ → String) (b : Bucket) : String × Nat :=
  (if b.upperBoundSeconds = -1 then "+Inf" else format b.upperBoundSeconds, b.cumulativeCount)

/-- The series of a policy counts consistently, and the buckets of the dashboard and of the text for
Prometheus are the numbers of latencies up to their bounds. -/
theorem views_consistent (os : List Observation) (id : String) (ps : Held)
    (hps : (after exact os).snapshotSeries id = some ps) (format : ℚ → String) :
    let s := (after exact os).memory.load ps
    let latencies := (↑(os.filter fun o => o.policyID = id) : Multiset Observation).map
      Observation.latency
    (s.lat.buckets.sum = s.lat.count ∧ s.lat.count = s.total ∧ s.total = s.successes + s.failures ∧
      ∑ code ∈ s.errorsByCode.keys, (s.errorsByCode.lookup code).getD 0 = s.failures) ∧
    (cumulativeBuckets s.lat.buckets).Pairwise (fun b b' => b.cumulativeCount ≤ b'.cumulativeCount) ∧
    prometheusBuckets format s = (cumulativeBuckets s.lat.buckets).map (Bucket.entry format) ∧
    cumulativeBuckets s.lat.buckets =
      latencyBucketsSeconds.map (fun b => ⟨b, countUpTo latencies b⟩) ++ [⟨-1, s.lat.count⟩] := by
  intro s latencies
  have hinv := inv_after exact os
  have hof : s.Of exact ↑(os.filter fun o => o.policyID = id) := by
    have hload := hinv.load_of hps
    rwa [(hinv.named id ps hps).2] at hload
  have hcum := hof.lat.cumulativeBuckets_eq
  refine ⟨⟨hof.lat.sum_buckets, ?_, ?_, ?_⟩, ?_, ?_, hcum⟩
  · rw [hof.lat.count, hof.total, Multiset.card_map]
  · rw [hof.total, hof.successes, hof.failures, Multiset.card_eq_countP_add_countP
      (fun o : Observation => o.success = true)]
    simp only [Bool.not_eq_true]
  · rw [hof.errors.sum_eq_card, hof.failures, failureCodes, Multiset.card_map,
      Multiset.countP_eq_card_filter]
  · have hsorted : latencyBucketsSeconds.Pairwise (· ≤ ·) := by decide +kernel
    rw [hcum, pairwise_append]
    refine ⟨?_, pairwise_singleton _ _, ?_⟩
    · rw [pairwise_map]
      apply hsorted.imp
      intro b b' hle
      exact countUpTo_mono latencies hle
    · intro b hb b' hb'
      obtain ⟨bound, -, rfl⟩ := List.mem_map.mp hb
      rw [List.mem_singleton.mp hb', hof.lat.count]
      exact Multiset.countP_le_card (fun d => exact.seconds d ≤ bound) latencies
  · have hbounds : ∀ b ∈ latencyBucketsSeconds, b ≠ -1 := by decide +kernel
    rw [prometheusBuckets, hof.lat.foldl_buckets fun b n => (format b, n), hcum, map_append,
      map_map]
    congr 1
    apply map_congr_left
    intro b hb
    simp [Bucket.entry, hbounds b hb]

theorem views_of_two : ∃ ps, (after exact [⟨"p", "cel", 7000000, true, "", 0, 0, 1, 1⟩,
      ⟨"p", "cel", 30000000000, false, "trap", 0, 0, 2, 2⟩]).snapshotSeries "p" = some ps ∧
    (prometheusBuckets (fun _ => "") ((after exact [⟨"p", "cel", 7000000, true, "", 0, 0, 1, 1⟩,
      ⟨"p", "cel", 30000000000, false, "trap", 0, 0, 2, 2⟩]).memory.load ps)).map Prod.snd =
        [0, 1, 1, 1, 1, 1, 1, 1, 1, 1, 1, 2] := by
  refine ⟨_, rfl, ?_⟩
  rw [(views_consistent _ "p" _ rfl fun _ => "").2.2.1]
  decide +kernel

lemma getLast_cumulativeBuckets {l : List Nat} (h : l.length = numLatencyBuckets) :
    (cumulativeBuckets l).getLast?.map Bucket.cumulativeCount = some l.sum := by
  obtain rfl | ⟨front, n, rfl⟩ := eq_nil_or_concat l
  · cases h
  · rw [concat_eq_append] at h ⊢
    have hlength : latencyBucketsSeconds.length = front.length := by
      rw [length_append] at h
      exact (Nat.succ.inj h).symm
    have hcells : latencyBucketsSeconds.zip (front ++ [n]) = latencyBucketsSeconds.zip front := by
      rw [← append_nil latencyBucketsSeconds, zip_append hlength]
      simp
    rw [cumulativeBuckets, hcells, foldl_runningSums, map_snd_zip hlength.ge]
    simp

namespace Collector

variable {c : Collector}

lemma record_keeps (A : Arithmetic F) (o : Observation) {id : String} {ps : Held}
    (hps : c.series.lookup id = some ps) : ∃ ps', (c.record A o).series.lookup id = some ps' ∧
      ps'.lat.buckets = ps.lat.buckets ∧ ps'.errorsByCode = ps.errorsByCode := by
  by_cases hid : o.policyID = ""
  · rw [record, if_pos hid]
    exact ⟨ps, hps, rfl, rfl⟩
  · rw [record_of_ne hid]
    by_cases heq : id = o.policyID
    · subst heq
      have hfound : c.seriesFor o = (ps, c.memory) := by rw [seriesFor, hps]
      rw [hfound]
      exact ⟨_, Finmap.lookup_insert _, rfl, rfl⟩
    · exact ⟨ps, (Finmap.lookup_insert_of_ne _ heq).trans hps, rfl, rfl⟩

lemma after_keeps (A : Arithmetic F) (before later : List Observation) {id : String} {ps : Held}
    (hps : (after A before).series.lookup id = some ps) :
    ∃ ps', (after A (before ++ later)).series.lookup id = some ps' ∧
      ps'.lat.buckets = ps.lat.buckets ∧ ps'.errorsByCode = ps.errorsByCode := by
  induction later using reverseRecOn with
  | nil =>
    rw [append_nil]
    exact ⟨ps, hps, rfl, rfl⟩
  | append_singleton later o ih =>
    obtain ⟨ps₁, hps₁, hslice, hmap⟩ := ih
    obtain ⟨ps', hps', hslice', hmap'⟩ := record_keeps A o hps₁
    rw [← append_assoc, after_concat]
    exact ⟨ps', hps', hslice'.trans hslice, hmap'.trans hmap⟩

end Collector

/-- The summary of a copy taken from `c` is the same in `c'`, and its last cumulative bucket is its
count. -/
structure Isolated (A : Arithmetic F) (c c' : Collector) (ps : Held) : Prop where
  summary : summarize A (c'.memory.load ps) = summarize A (c.memory.load ps)
  last : (summarize A (c'.memory.load ps)).latency.buckets.getLast?.map Bucket.cumulativeCount =
    some (summarize A (c'.memory.load ps)).latency.count

/-- The copies of a series share its slice and its map with the collector: they are isolated from
later observations just if these are of other policies. -/
theorem snapshot_isolated_iff (A : Arithmetic F) (before later : List Observation)
    (order : RangeOrder String) (sort : SliceSort (PolicySeries.policyID : Held → String))
    (ps : Held) (hps : (∃ id, (after A before).snapshotSeries id = some ps) ∨
      ps ∈ (after A before).allSeries order sort) :
    Isolated A (after A before) (after A (before ++ later)) ps ↔
      ∀ o ∈ later, o.policyID ≠ ps.policyID := by
  obtain ⟨id, hps⟩ : ∃ id, (after A before).series.lookup id = some ps :=
    hps.elim id mem_allSeries.mp
  have hinv := inv_after A before
  have hinv' := inv_after A (before ++ later)
  obtain ⟨hid, hname⟩ := hinv.named id ps hps
  obtain ⟨ps', hps', hslice, hmap⟩ := after_keeps A before later hps
  have hof := hinv.load_of hps
  have hof' := hinv'.load_of hps'
  rw [(hinv'.named id ps' hps').2] at hof'
  rw [hname] at hof ⊢
  have hbuckets : (after A (before ++ later)).memory.slices ps.lat.buckets =
      ((after A (before ++ later)).memory.load ps').lat.buckets := by
    rw [← hslice]
    rfl
  constructor
  · rintro ⟨-, hlast⟩ o ho heq
    have hlength : ((after A (before ++ later)).memory.load ps').lat.buckets.length =
        numLatencyBuckets := by
      rw [hof'.lat.buckets, length_map, length_range]
    rw [← hbuckets] at hlength
    have hcount := (getLast_cumulativeBuckets hlength).symm.trans hlast
    rw [hbuckets, hof'.lat.sum_buckets, hof'.lat.count, Option.some.injEq] at hcount
    have hbefore : ps.lat.count = _ := hof.lat.count
    have hmine : o ∈ later.filter fun o => o.policyID = id :=
      List.mem_filter.mpr ⟨ho, decide_eq_true heq⟩
    have hpos := length_pos_of_mem hmine
    simp only [Multiset.card_map, Multiset.coe_card, filter_append, length_append] at hcount hbefore
    have hcopy : (summarize A ((after A (before ++ later)).memory.load ps)).latency.count =
      ps.lat.count := rfl
    omega
  · intro hother
    have hnone : (later.filter fun o => o.policyID = id) = [] := by
      rw [filter_eq_nil_iff]
      exact fun o ho => by simpa using hother o ho
    have hsame : (after A (before ++ later)).memory.load ps' = (after A before).memory.load ps := by
      have hlook := hinv.look id hid
      have hlook' := hinv'.look id hid
      rw [history, filter_append, hnone, append_nil, ← history, ← hlook, hps', hps] at hlook'
      exact Option.some.inj hlook'
    have hload : (after A (before ++ later)).memory.load ps = (after A before).memory.load ps := by
      have hlat := congrArg (fun s => s.lat.buckets) hsame
      have herrors := congrArg PolicySeries.errorsByCode hsame
      simp only [Memory.load, hslice, hmap] at hlat herrors ⊢
      rw [hlat, herrors]
    have hlength : ((after A before).memory.load ps).lat.buckets.length = numLatencyBuckets := by
      rw [hof.lat.buckets, length_map, length_range]
    refine ⟨by rw [hload], ?_⟩
    rw [hload]
    exact (getLast_cumulativeBuckets hlength).trans (congrArg some hof.lat.sum_buckets)

theorem snapshot_isolated_from_other : ∃ ps,
    (after exact [verified "p"]).snapshotSeries "p" = some ps ∧
    Isolated exact (after exact [verified "p"]) (after exact [verified "p", verified "q"]) ps := by
  refine ⟨_, rfl, ?_⟩
  exact (snapshot_isolated_iff exact [verified "p"] [verified "q"] (.ascending String) (.insertion _)
    _ (.inl ⟨"p", rfl⟩)).mpr (by decide)

/-- The buckets of the copy count two latencies, its count is one. -/
theorem snapshot_sees_later : ∃ ps, (after exact [verified "p"]).snapshotSeries "p" = some ps ∧
    ¬Isolated exact (after exact [verified "p"]) (after exact [verified "p", verified "p"]) ps := by
  refine ⟨_, rfl, fun h => ?_⟩
  exact absurd h.last (by decide +kernel)

end Symkernel.Observability
