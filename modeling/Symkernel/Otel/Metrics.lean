import Symkernel.Library.SortedList

/-!
# Metrics of the SMT solver

`internal/otel/metrics.go`, the calls taken one after the other. A slice of `int64` has fewer than
`2 ^ 48` elements, so that the index of a percentile is computed without overflow. The text format
of Prometheus is left out.
-/

namespace Symkernel.Otel

open Library List Option

structure Arithmetic (F : Type) where
  ofInt : Int → F
  add : F → F → F
  div : F → F → F

structure SMTMetrics (F : Type) where
  satCount : Int := 0
  unsatCount : Int := 0
  unknownCount : Int := 0
  cacheHit : Int := 0
  cacheMiss : Int := 0
  durations : List Int := []
  complexity : List F := []

structure SMTSnapshot (F : Type) where
  satCount : Int
  unsatCount : Int
  unknownCount : Int
  cacheHit : Int
  cacheMiss : Int
  avgDurationMs : F
  p50DurationMs : Int := 0
  p95DurationMs : Int := 0
  p99DurationMs : Int := 0
  maxDurationMs : Int := 0
  totalSamples : Nat
  avgComplexity : F

section Recording

variable {F : Type}

/-- `Add(1)` of an `atomic.Int64`. -/
def increment (n : Int) : Int := (n + 1).bmod (2 ^ 64)

namespace SMTMetrics

def record (m : SMTMetrics F) (durationMs : Int) (complexityScore : F) : SMTMetrics F :=
  { m with
    durations := m.durations ++ [durationMs]
    complexity := m.complexity ++ [complexityScore] }

def recordSat (m : SMTMetrics F) (durationMs : Int) (complexityScore : F) : SMTMetrics F :=
  { m with satCount := increment m.satCount }.record durationMs complexityScore

def recordUnsat (m : SMTMetrics F) (durationMs : Int) (complexityScore : F) : SMTMetrics F :=
  { m with unsatCount := increment m.unsatCount }.record durationMs complexityScore

def recordUnknown (m : SMTMetrics F) (durationMs : Int) (complexityScore : F) : SMTMetrics F :=
  { m with unknownCount := increment m.unknownCount }.record durationMs complexityScore

def recordCacheHit (m : SMTMetrics F) : SMTMetrics F :=
  { m with cacheHit := increment m.cacheHit }

def recordCacheMiss (m : SMTMetrics F) : SMTMetrics F :=
  { m with cacheMiss := increment m.cacheMiss }

end SMTMetrics

/-- The loop of `ConstraintComplexityScore` with its three variables. -/
def complexityLoop : Nat → Int → Bool → List Char → Nat
  | count, _, _, [] => count
  | count, depth, topLevel, '(' :: cs =>
    complexityLoop count (depth + 1) (if depth + 1 = 1 then true else topLevel) cs
  | count, depth, topLevel, ')' :: cs =>
    if depth = 1 ∧ topLevel = true then complexityLoop (count + 1) (depth - 1) false cs
    else complexityLoop count (depth - 1) topLevel cs
  | count, depth, topLevel, _ :: cs => complexityLoop count depth topLevel cs

variable (A : Arithmetic F)

def constraintComplexityScore (constraints : String) : F :=
  A.ofInt (complexityLoop 0 0 false constraints.toList)

def recordSolverResult (m : SMTMetrics F) (sat : String) (durationMs : Int) (constraints : String) :
    SMTMetrics F :=
  let score := constraintComplexityScore A constraints
  match sat with
  | "sat" => m.recordSat durationMs score
  | "unsat" => m.recordUnsat durationMs score
  | _ => m.recordUnknown durationMs score

inductive Call (F : Type) where
  | recordSat (durationMs : Int) (complexityScore : F)
  | recordUnsat (durationMs : Int) (complexityScore : F)
  | recordUnknown (durationMs : Int) (complexityScore : F)
  | recordSolverResult (sat : String) (durationMs : Int) (constraints : String)
  | recordCacheHit
  | recordCacheMiss

def SMTMetrics.step (m : SMTMetrics F) : Call F → SMTMetrics F
  | .recordSat durationMs complexityScore => m.recordSat durationMs complexityScore
  | .recordUnsat durationMs complexityScore => m.recordUnsat durationMs complexityScore
  | .recordUnknown durationMs complexityScore => m.recordUnknown durationMs complexityScore
  | .recordSolverResult sat durationMs constraints =>
    Otel.recordSolverResult A m sat durationMs constraints
  | .recordCacheHit => m.recordCacheHit
  | .recordCacheMiss => m.recordCacheMiss

def SMTMetrics.run (calls : List (Call F)) : SMTMetrics F :=
  calls.foldl (SMTMetrics.step A) {}

def Call.duration : Call F → Option Int
  | .recordSat d _ | .recordUnsat d _ | .recordUnknown d _ | .recordSolverResult _ d _ => some d
  | .recordCacheHit | .recordCacheMiss => none

lemma durations_step (m : SMTMetrics F) (c : Call F) :
    (m.step A c).durations = m.durations ++ c.duration.toList := by
  cases c with
  | recordSolverResult sat d constraints =>
    simp only [SMTMetrics.step, recordSolverResult]
    split <;> rfl
  | recordCacheHit => exact (append_nil _).symm
  | recordCacheMiss => exact (append_nil _).symm
  | _ => rfl

lemma durations_run (calls : List (Call F)) :
    (SMTMetrics.run A calls).durations = calls.filterMap Call.duration := by
  have hrun : ∀ m : SMTMetrics F, (calls.foldl (SMTMetrics.step A) m).durations =
      m.durations ++ calls.filterMap Call.duration := by
    induction calls with
    | nil => exact fun m => (append_nil _).symm
    | cons c calls ih =>
      intro m
      rw [foldl_cons, ih, durations_step]
      cases hc : c.duration <;> simp [hc]
  exact hrun {}

end Recording

section Snapshot

/-- An index below zero is a panic. -/
def percentile (sorted : List Int) (p : Int) : Option Int :=
  if sorted.length = 0 then some 0
  else
    let idx := (p * sorted.length).tdiv 100
    let idx := if ↑sorted.length ≤ idx then (sorted.length : Int) - 1 else idx
    if idx < 0 then none else sorted[idx.toNat]?

variable {F : Type} (A : Arithmetic F) (sort : SliceSort (fun d : Int => d))

def SMTMetrics.snapshot (m : SMTMetrics F) : Option (SMTSnapshot F) := do
  let durs := m.durations
  let comps := m.complexity
  let snap : SMTSnapshot F :=
    { satCount := m.satCount
      unsatCount := m.unsatCount
      unknownCount := m.unknownCount
      cacheHit := m.cacheHit
      cacheMiss := m.cacheMiss
      avgDurationMs := A.ofInt 0
      totalSamples := durs.length
      avgComplexity := A.ofInt 0 }
  let snap ← if 0 < durs.length then do
      let sorted := sort.run durs
      let sum := sorted.foldl (fun sum d => (sum + d).bmod (2 ^ 64)) 0
      let max ← sorted[sorted.length - 1]?
      let p50 ← percentile sorted 50
      let p95 ← percentile sorted 95
      let p99 ← percentile sorted 99
      some { snap with
        avgDurationMs := A.div (A.ofInt sum) (A.ofInt sorted.length)
        maxDurationMs := max
        p50DurationMs := p50
        p95DurationMs := p95
        p99DurationMs := p99 }
    else some snap
  if 0 < comps.length then
    let sum := comps.foldl A.add (A.ofInt 0)
    some { snap with avgComplexity := A.div sum (A.ofInt comps.length) }
  else some snap

end Snapshot

section Ranks

variable {l : List Int} {p q : Int}

def rank (n : Nat) (p : Int) : Nat :=
  min (p.toNat * n / 100) (n - 1)

lemma rank_lt {n : Nat} (hn : 0 < n) (p : Int) : rank n p < n := by
  unfold rank
  omega

lemma rank_mono (n : Nat) (hpq : p ≤ q) : rank n p ≤ rank n q := by
  have hnat : p.toNat ≤ q.toNat := Int.toNat_le_toNat hpq
  have hprod : p.toNat * n / 100 ≤ q.toNat * n / 100 :=
    Nat.div_le_div_right (Nat.mul_le_mul_right n hnat)
  unfold rank
  omega

lemma rank_bounds {n : Nat} (hn : 0 < n) (hp : 0 ≤ p) (hp' : p ≤ 100) :
    p * n ≤ 100 * (rank n p + 1 : Nat) ∧ 100 * (rank n p : Int) ≤ p * n := by
  obtain ⟨k, rfl⟩ := Int.eq_ofNat_of_zero_le hp
  have hk : k * n ≤ 100 * n := Nat.mul_le_mul_right n (by omega)
  have hcast : (k : Int) * n = (k * n : Nat) := (Nat.cast_mul k n).symm
  rw [hcast]
  unfold rank
  rw [Int.toNat_natCast]
  generalize k * n = product at hk
  omega

lemma percentile_eq (hne : l ≠ []) (hp : 0 ≤ p) : percentile l p = l[rank l.length p]? := by
  have hpos : 0 < l.length := length_pos_iff.mpr hne
  obtain ⟨k, rfl⟩ := Int.eq_ofNat_of_zero_le hp
  have hidx : ((k : Int) * l.length).tdiv 100 = ((k * l.length / 100 : Nat) : Int) := by
    rfl
  have hclamp : (if (l.length : Int) ≤ ↑(k * l.length / 100) then (l.length : Int) - 1
      else ↑(k * l.length / 100)) = rank l.length k := by
    unfold rank
    rw [Int.toNat_natCast]
    split <;> omega
  rw [percentile, if_neg hpos.ne', hidx]
  dsimp only
  rw [hclamp, if_neg (Int.not_lt.mpr (Int.natCast_nonneg _)), Int.toNat_natCast]

end Ranks

section Statistics

variable (sort : SliceSort (fun d : Int => d)) {ds : List Int} {p q : Int}

lemma percentile_run (hne : ds ≠ []) (hp : 0 ≤ p) : ∃ hi : rank ds.length p < (sort.run ds).length,
      percentile (sort.run ds) p = some (sort.run ds)[rank ds.length p] := by
  have hlen := (sort.perm ds).length_eq
  have hpos : 0 < ds.length := length_pos_iff.mpr hne
  have hi : rank ds.length p < (sort.run ds).length := hlen ▸ rank_lt hpos p
  have hrun : sort.run ds ≠ [] := ne_nil_of_length_pos (hlen ▸ hpos)
  refine ⟨hi, ?_⟩
  rw [percentile_eq hrun hp, hlen, getElem?_eq_getElem hi]

lemma percentile_counts (hne : ds ≠ []) (hp : 0 ≤ p) (hp' : p ≤ 100) :
    ∃ v ∈ ds, percentile (sort.run ds) p = some v ∧ p * ds.length ≤ 100 * ds.countP (· ≤ v) ∧
      (100 - p) * ds.length ≤ 100 * ds.countP (v ≤ ·) := by
  obtain ⟨hi, hv⟩ := percentile_run sort hne hp
  obtain ⟨hbelow, habove⟩ := counts_of_sorted (sort.sorted ds) hi
  have hperm := sort.perm ds
  rw [hperm.countP_eq] at hbelow habove
  rw [hperm.length_eq] at habove
  obtain ⟨hlow, hhigh⟩ := rank_bounds (length_pos_iff.mpr hne) hp hp'
  refine ⟨_, hperm.mem_iff.mp (getElem_mem hi), hv, ?_, ?_⟩
  · omega
  · have hsum : (100 - p) * ds.length = 100 * ds.length - p * ds.length := sub_mul ..
    omega

lemma percentile_mono (hne : ds ≠ []) (hp : 0 ≤ p) (hpq : p ≤ q) {v w : Int}
    (hv : percentile (sort.run ds) p = some v) (hw : percentile (sort.run ds) q = some w) :
    v ≤ w := by
  obtain ⟨hi, hread⟩ := percentile_run sort hne hp
  obtain ⟨hj, hread'⟩ := percentile_run sort hne (hp.trans hpq)
  rw [hread, some_inj] at hv
  rw [hread', some_inj] at hw
  rw [← hv, ← hw]
  exact (sort.sorted ds).rel_get_of_le (a := ⟨_, hi⟩) (b := ⟨_, hj⟩) (rank_mono _ hpq)

lemma last_eq_percentile (hne : ds ≠ []) :
    (sort.run ds)[(sort.run ds).length - 1]? = percentile (sort.run ds) 100 := by
  obtain ⟨hi, hread⟩ := percentile_run sort hne (p := 100) (by decide)
  have hlast : rank ds.length 100 = (sort.run ds).length - 1 := by
    rw [(sort.perm ds).length_eq, rank]
    simp
  rw [hread, ← hlast, getElem?_eq_getElem hi]

lemma isGreatest_last (hne : ds ≠ []) {v : Int} (hv : percentile (sort.run ds) 100 = some v) :
    IsGreatest {d | d ∈ ds} v := by
  obtain ⟨w, hmem, hw, hcount, -⟩ := percentile_counts sort hne (p := 100) (by decide) le_rfl
  rw [hv, some_inj] at hw
  subst hw
  have hall : ds.countP (· ≤ v) = ds.length := le_antisymm countP_le_length (by omega)
  refine ⟨hmem, fun d hd => ?_⟩
  simpa using countP_eq_length.mp hall d hd

variable {F : Type} (A : Arithmetic F)

lemma snapshot_eq (m : SMTMetrics F) (hne : m.durations ≠ []) :
    ∃ snap, m.snapshot A sort = some snap ∧
      percentile (sort.run m.durations) 50 = some snap.p50DurationMs ∧
      percentile (sort.run m.durations) 95 = some snap.p95DurationMs ∧
      percentile (sort.run m.durations) 99 = some snap.p99DurationMs ∧
      percentile (sort.run m.durations) 100 = some snap.maxDurationMs := by
  obtain ⟨_, h50⟩ := percentile_run sort hne (p := 50) (by decide)
  obtain ⟨_, h95⟩ := percentile_run sort hne (p := 95) (by decide)
  obtain ⟨_, h99⟩ := percentile_run sort hne (p := 99) (by decide)
  obtain ⟨_, h100⟩ := percentile_run sort hne (p := 100) (by decide)
  have hpos : 0 < m.durations.length := length_pos_iff.mpr hne
  simp only [SMTMetrics.snapshot, if_pos hpos, last_eq_percentile sort hne, h50, h95, h99, h100]
  split <;> exact ⟨_, rfl, rfl, rfl, rfl, rfl⟩

/-- A percentile has its share of the recorded durations on each side; the percentiles of a
snapshot are in order. -/
theorem percentiles_rank (calls : List (Call F)) (hne : calls.filterMap Call.duration ≠ []) :
    let ds := calls.filterMap Call.duration
    (∀ p : Int, 0 ≤ p → p ≤ 100 → ∃ v ∈ ds, percentile (sort.run ds) p = some v ∧
      p * ds.length ≤ 100 * ds.countP (· ≤ v) ∧
      (100 - p) * ds.length ≤ 100 * ds.countP (v ≤ ·)) ∧
    ∃ snap, (SMTMetrics.run A calls).snapshot A sort = some snap ∧
      snap.p50DurationMs ≤ snap.p95DurationMs ∧ snap.p95DurationMs ≤ snap.p99DurationMs ∧
      snap.p99DurationMs ≤ snap.maxDurationMs ∧ IsGreatest {d | d ∈ ds} snap.maxDurationMs := by
  intro ds
  have hdurations : (SMTMetrics.run A calls).durations = ds := durations_run A calls
  obtain ⟨snap, hsnap, h50, h95, h99, hmax⟩ := snapshot_eq sort A (SMTMetrics.run A calls)
    (hdurations ▸ hne)
  rw [hdurations] at h50 h95 h99 hmax
  refine ⟨fun p hp hp' => percentile_counts sort hne hp hp', snap, hsnap, ?_, ?_, ?_, ?_⟩
  · exact percentile_mono sort hne (by decide) (by decide) h50 h95
  · exact percentile_mono sort hne (by decide) (by decide) h95 h99
  · exact percentile_mono sort hne (by decide) (by decide) h99 hmax
  · exact isGreatest_last sort hne hmax

def threeSamples : List (Call Int) :=
  [.recordSat 30 1, .recordCacheMiss, .recordUnsat 10 2, .recordSolverResult "unknown" 20 "(a)(b)"]

theorem percentiles_of_threeSamples :
    ∃ snap, (SMTMetrics.run ⟨id, (· + ·), (· / ·)⟩ threeSamples).snapshot ⟨id, (· + ·), (· / ·)⟩
        (.insertion _) = some snap ∧
      snap.p50DurationMs ≤ snap.p95DurationMs ∧ snap.p95DurationMs ≤ snap.p99DurationMs ∧
      snap.p99DurationMs ≤ snap.maxDurationMs ∧
      IsGreatest {d | d ∈ ([30, 10, 20] : List Int)} snap.maxDurationMs :=
  (percentiles_rank (.insertion _) ⟨id, (· + ·), (· / ·)⟩ threeSamples (by decide)).2

end Statistics

end Symkernel.Otel
