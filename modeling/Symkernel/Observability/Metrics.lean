import Symkernel.Library.GoText
import Symkernel.Library.SortedList
import Symkernel.Library.Tally

/-!
# Policy metrics

`internal/observability/metrics.go` and the rollups of `dashboard.go`. A series is a struct whose
bucket slice and error map are references, so that a copy of it shares both with the collector.
Observations are counted by natural numbers; sums wrap around as in the source.
-/

namespace Symkernel.Observability

open Library

structure Arithmetic (F : Type) where
  ofInt : Int → F
  const : ℚ → F
  seconds : Int → F
  add : F → F → F
  sub : F → F → F
  mul : F → F → F
  div : F → F → F
  le : F → F → Bool
  lt : F → F → Bool
  trunc : F → Int

def exact : Arithmetic ℚ where
  ofInt n := n
  const q := q
  seconds d := d / 1000000000
  add := (· + ·)
  sub := (· - ·)
  mul := (· * ·)
  div := (· / ·)
  le a b := a ≤ b
  lt a b := a < b
  trunc q := if 0 ≤ q then ⌊q⌋ else ⌈q⌉

/-- An observation, with the reading of the clock that `Record` uses if it has no timestamp. Times
are counted from Go's zero time. -/
structure Observation where
  policyID : String
  tier : String := ""
  latency : Int := 0
  success : Bool := true
  errorCode : String := ""
  memoryBytes : Nat := 0
  instructionCount : Nat := 0
  timestamp : Int := 0
  now : Int := 0
  deriving DecidableEq, Repr

def latencyBucketsSeconds : List ℚ :=
  [5 / 1000, 10 / 1000, 25 / 1000, 50 / 1000, 100 / 1000, 250 / 1000, 500 / 1000, 1, 5 / 2, 5, 10]

def numLatencyBuckets : Nat := latencyBucketsSeconds.length + 1

structure LatencyAgg (B : Type) where
  count : Nat := 0
  sum : Int := 0
  min : Int := 0
  max : Int := 0
  buckets : B
  deriving DecidableEq

structure PolicySeries (B E : Type) where
  policyID : String := ""
  tier : String := ""
  lat : LatencyAgg B
  total : Nat := 0
  successes : Nat := 0
  failures : Nat := 0
  errorsByCode : E
  maxMemory : Nat := 0
  totalInstructions : Nat := 0
  lastUpdated : Int := 0
  deriving DecidableEq

/-- A series with what its references point to. -/
abbrev Series := PolicySeries (List Nat) (GoMap String Nat)

def newLatencyAgg : LatencyAgg (List Nat) where
  buckets := List.replicate numLatencyBuckets 0

def freshSeries : Series where
  lat := newLatencyAgg
  errorsByCode := ∅

section Recording

variable {F : Type} (A : Arithmetic F)

def latencyBucketIndex (d : Int) : Nat :=
  latencyBucketsSeconds.findIdx fun b => A.le (A.seconds d) (A.const b)

def LatencyAgg.record (a : LatencyAgg (List Nat)) (d : Int) : LatencyAgg (List Nat) where
  count := a.count + 1
  sum := (a.sum + d).bmod (2 ^ 64)
  min := if a.count = 0 ∨ d < a.min then d else a.min
  max := if a.max < d then d else a.max
  buckets := a.buckets.modify (latencyBucketIndex A d) (· + 1)

def Observation.code (o : Observation) : String :=
  if o.errorCode = "" then "unknown" else o.errorCode

def PolicySeries.record (s : Series) (o : Observation) : Series where
  policyID := s.policyID
  tier := o.tier
  lat := s.lat.record A o.latency
  total := s.total + 1
  successes := if o.success then s.successes + 1 else s.successes
  failures := if o.success then s.failures else s.failures + 1
  errorsByCode := if o.success then s.errorsByCode else bump s.errorsByCode o.code 1
  maxMemory := if s.maxMemory < o.memoryBytes then o.memoryBytes else s.maxMemory
  totalInstructions := (s.totalInstructions + o.instructionCount) % 2 ^ 64
  lastUpdated := if o.timestamp = 0 then o.now else o.timestamp

end Recording

section Percentile

variable {F : Type} (A : Arithmetic F)

def secondsToDuration (s : F) : Int :=
  if A.le s (A.const 0) then 0 else A.trunc (A.mul s (A.ofInt 1000000000))

def clamp (x : F) : F :=
  if A.lt x (A.const 0) then A.const 0 else if A.lt (A.const 1) x then A.const 1 else x

/-- The loop over the bounds and their buckets, with the count and the bound before them. -/
def percentileLoop (max : Int) (target : F) : Nat → ℚ → List (ℚ × Nat) → Int
  | _, _, [] => max
  | cum, prevBound, (bound, bucketCount) :: rest =>
    if A.le target (A.ofInt ↑(cum + bucketCount)) then
      if bucketCount = 0 then secondsToDuration A (A.const bound)
      else
        let frac := clamp A (A.div (A.sub target (A.ofInt cum)) (A.ofInt bucketCount))
        let width := A.sub (A.const bound) (A.const prevBound)
        secondsToDuration A (A.add (A.const prevBound) (A.mul frac width))
    else percentileLoop max target (cum + bucketCount) bound rest

def LatencyAgg.percentile (a : LatencyAgg (List Nat)) (q : F) : Int :=
  if a.count = 0 then 0
  else if A.le q (A.const 0) then a.min
  else if A.le (A.const 1) q then a.max
  else percentileLoop A a.max (A.mul q (A.ofInt a.count)) 0 0
    (latencyBucketsSeconds.zip a.buckets)

end Percentile

/-- A series as it is held: the buckets and the errors by code are references. -/
abbrev Held := PolicySeries Nat Nat

/-- The struct of `s` with the references of `r`. -/
def PolicySeries.heldAt (s : Series) (r : Held) : Held :=
  { s with lat := { s.lat with buckets := r.lat.buckets }, errorsByCode := r.errorsByCode }

structure Memory where
  slices : Nat → List Nat := fun _ => []
  maps : Nat → GoMap String Nat := fun _ => ∅
  next : Nat := 0

namespace Memory

def load (m : Memory) (s : Held) : Series :=
  { s with
    lat := { s.lat with buckets := m.slices s.lat.buckets }
    errorsByCode := m.maps s.errorsByCode }

def store (m : Memory) (r : Held) (s : Series) : Memory :=
  { m with
    slices := Function.update m.slices r.lat.buckets s.lat.buckets
    maps := Function.update m.maps r.errorsByCode s.errorsByCode }

def allocate (m : Memory) : Memory where
  slices := Function.update m.slices m.next newLatencyAgg.buckets
  maps := Function.update m.maps m.next ∅
  next := m.next + 1

end Memory

structure Collector where
  series : GoMap String Held := ∅
  memory : Memory := {}

namespace Collector

def newCollector : Collector := {}

def newSeries (o : Observation) (address : Nat) : Held where
  policyID := o.policyID
  tier := o.tier
  lat := { buckets := address }
  errorsByCode := address

def seriesFor (c : Collector) (o : Observation) : Held × Memory :=
  match c.series.lookup o.policyID with
  | some ps => (ps, c.memory)
  | none => (newSeries o c.memory.next, c.memory.allocate)

/-- The struct is updated in place, and so are the slice and the map it refers to. -/
def record {F : Type} (A : Arithmetic F) (c : Collector) (o : Observation) : Collector :=
  if o.policyID = "" then c
  else
    let (ps, memory) := c.seriesFor o
    let s := (memory.load ps).record A o
    { series := c.series.insert o.policyID (s.heldAt ps), memory := memory.store ps s }

def snapshotSeries (c : Collector) (policyID : String) : Option Held := c.series.lookup policyID

def allSeries (order : RangeOrder String)
    (sort : SliceSort (PolicySeries.policyID : Held → String)) (c : Collector) : List Held :=
  sort.run ((order.keys c.series.keys).filterMap c.series.lookup)

end Collector

structure Bucket where
  upperBoundSeconds : ℚ
  cumulativeCount : Nat
  deriving DecidableEq, Repr

def cumulativeBuckets (nonCum : List Nat) : List Bucket :=
  let (cum, out) := (latencyBucketsSeconds.zip nonCum).foldl
    (fun (cum, out) (bound, n) => (cum + n, out ++ [⟨bound, cum + n⟩])) (0, [])
  out ++ [⟨-1, cum + nonCum.getLastD 0⟩]

structure LatencyStats (F : Type) where
  count : Nat
  meanMs : F
  minMs : F
  maxMs : F
  p50Ms : F
  p95Ms : F
  p99Ms : F
  buckets : List Bucket
  deriving DecidableEq

structure PolicySummary (F : Type) where
  policyID : String
  tier : String
  total : Nat
  successes : Nat
  failures : Nat
  errorRate : F
  latency : LatencyStats F
  peakMemoryBytes : Nat
  totalInstructions : Nat
  errorsByCode : Option (GoMap String Nat)
  updatedAt : Int
  deriving DecidableEq

section Summary

variable {F : Type} (A : Arithmetic F)

def LatencyAgg.mean (a : LatencyAgg (List Nat)) : Int :=
  if a.count = 0 then 0 else a.sum.tdiv a.count

def errorRate (total failures : Nat) : F :=
  if total = 0 then A.const 0 else A.div (A.ofInt failures) (A.ofInt total)

def ms (d : Int) : F := A.div (A.ofInt (d.tdiv 1000)) (A.const 1000)

def copyErrorCodes (m : GoMap String Nat) : Option (GoMap String Nat) :=
  if m.keys = ∅ then none else some m

def summarize (ps : Series) : PolicySummary F where
  policyID := ps.policyID
  tier := ps.tier
  total := ps.total
  successes := ps.successes
  failures := ps.failures
  errorRate := errorRate A ps.total ps.failures
  latency :=
    { count := ps.lat.count
      meanMs := ms A ps.lat.mean
      minMs := ms A ps.lat.min
      maxMs := ms A ps.lat.max
      p50Ms := ms A (ps.lat.percentile A (A.const (50 / 100)))
      p95Ms := ms A (ps.lat.percentile A (A.const (95 / 100)))
      p99Ms := ms A (ps.lat.percentile A (A.const (99 / 100)))
      buckets := cumulativeBuckets ps.lat.buckets }
  peakMemoryBytes := ps.maxMemory
  totalInstructions := ps.totalInstructions
  errorsByCode := copyErrorCodes ps.errorsByCode
  updatedAt := ps.lastUpdated

end Summary

def mergeLatency (dst src : LatencyAgg (List Nat)) : LatencyAgg (List Nat) :=
  if src.count = 0 then dst
  else
    { count := dst.count + src.count
      sum := (dst.sum + src.sum).bmod (2 ^ 64)
      min := if dst.count = 0 ∨ src.min < dst.min then src.min else dst.min
      max := if dst.max < src.max then src.max else dst.max
      buckets := List.zipWith (· + ·) dst.buckets src.buckets }

def mergeSeries (order : RangeOrder String) (dst src : Series) : Series :=
  { dst with
    lat := mergeLatency dst.lat src.lat
    total := dst.total + src.total
    successes := dst.successes + src.successes
    failures := dst.failures + src.failures
    errorsByCode := mergeCounts order dst.errorsByCode src.errorsByCode
    maxMemory := if dst.maxMemory < src.maxMemory then src.maxMemory else dst.maxMemory
    totalInstructions := (dst.totalInstructions + src.totalInstructions) % 2 ^ 64
    lastUpdated := if dst.lastUpdated < src.lastUpdated then src.lastUpdated else dst.lastUpdated }

/-- The overall series of `Render`, for the series in the order of the loop. -/
def overall (order : RangeOrder String) (series : List Series) : Series :=
  series.foldl (mergeSeries order) freshSeries

structure Dashboard (F : Type) where
  generatedAt : Int
  policyCount : Nat
  overall : PolicySummary F
  policies : List (PolicySummary F)

/-- `Render` once it has the copies of the series; `memory` is what they refer to by then. -/
def render {F : Type} (A : Arithmetic F) (order : RangeOrder String) (memory : Memory)
    (series : List Held) (now : Int) : Dashboard F :=
  let loaded := series.map memory.load
  { generatedAt := now
    policyCount := loaded.length
    overall := summarize A
      { overall order loaded with policyID := "__overall__", tier := "unknown" }
    policies := loaded.map (summarize A) }

section Prometheus

variable (format : ℚ → String) (isPrint : Char → Bool)

def prometheusBuckets (ps : Series) : List (String × Nat) :=
  ((latencyBucketsSeconds.zip ps.lat.buckets).foldl
    (fun (cum, lines) (bound, n) => (cum + n, lines ++ [(format bound, cum + n)]))
    (0, ([] : List (String × Nat)))).2 ++ [("+Inf", ps.lat.count)]

def labels (ps : Series) : String :=
  "policy_id=" ++ goQuote isPrint ps.policyID ++ ",tier=" ++
    goQuote isPrint (if ps.tier = "" then "unknown" else ps.tier)

def metricLine (metric labels value : String) : String :=
  "symkernel_policy_verification_" ++ metric ++ "\x7b" ++ labels ++ "\x7d " ++ value ++ "\n"

def seriesLines (ps : Series) : List String :=
  let labels := labels isPrint ps
  (prometheusBuckets format ps).map (fun (le, n) =>
    metricLine "duration_seconds_bucket" (labels ++ ",le=\"" ++ le ++ "\"") (toString n)) ++
  [metricLine "duration_seconds_sum" labels (format (exact.seconds ps.lat.sum)),
    metricLine "duration_seconds_count" labels (toString ps.lat.count),
    metricLine "total" (labels ++ ",result=\"success\"") (toString ps.successes),
    metricLine "total" (labels ++ ",result=\"failure\"") (toString ps.failures)] ++
  ((RangeOrder.ascending String).keys ps.errorsByCode.keys).map (fun code =>
    metricLine "errors_total" (labels ++ ",code=" ++ goQuote isPrint code)
      (toString ((ps.errorsByCode.lookup code).getD 0))) ++
  [metricLine "memory_bytes_max" labels (toString ps.maxMemory),
    metricLine "instructions_total" labels (toString ps.totalInstructions)]

def helpLines : List String :=
  ["# HELP symkernel_policy_verification_duration_seconds Verification latency distribution.\n",
    "# TYPE symkernel_policy_verification_duration_seconds histogram\n",
    "# HELP symkernel_policy_verification_total Total verifications by policy and outcome.\n",
    "# TYPE symkernel_policy_verification_total counter\n",
    "# HELP symkernel_policy_verification_errors_total Verification errors by policy and code.\n",
    "# TYPE symkernel_policy_verification_errors_total counter\n",
    "# HELP symkernel_policy_verification_memory_bytes_max Peak memory consumed by a " ++
      "verification, in bytes.\n",
    "# TYPE symkernel_policy_verification_memory_bytes_max gauge\n",
    "# HELP symkernel_policy_verification_instructions_total Cumulative instructions executed " ++
      "across verifications.\n",
    "# TYPE symkernel_policy_verification_instructions_total counter\n"]

def prometheusText (series : List Series) : String :=
  String.join (helpLines ++ series.flatMap (seriesLines format isPrint))

end Prometheus

end Symkernel.Observability
