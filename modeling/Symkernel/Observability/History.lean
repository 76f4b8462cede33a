import Symkernel.Library.Runs
import Symkernel.Observability.Metrics

/-!
# Series and the observations behind them

What a series says about a multiset of observations.
-/

namespace Symkernel.Observability

open Library List

variable {F : Type} {A : Arithmetic F}

structure LatencyAgg.Of (A : Arithmetic F) (a : LatencyAgg (List Nat)) (ds : Multiset Int) :
    Prop where
  count : a.count = ds.card
  sum : a.sum = ds.sum.bmod (2 ^ 64)
  min : a.min = least ds
  max : a.max = greatest ds
  buckets : a.buckets =
    (List.range numLatencyBuckets).map fun i => ds.countP fun d => latencyBucketIndex A d = i

namespace LatencyAgg.Of

variable {a a' : LatencyAgg (List Nat)} {ds ds' : Multiset Int}

lemma new : newLatencyAgg.Of A 0 := by
  refine ⟨rfl, rfl, rfl, rfl, ?_⟩
  simp [newLatencyAgg, numLatencyBuckets, map_const']

lemma count_eq_zero (h : a.Of A ds) : a.count = 0 ↔ ds = 0 := by
  rw [h.count, Multiset.card_eq_zero]

lemma record (h : a.Of A ds) (d : Int) : (a.record A d).Of A (d ::ₘ ds) := by
  constructor
  · rw [LatencyAgg.record, Multiset.card_cons, h.count]
  · rw [LatencyAgg.record, Multiset.sum_cons, h.sum, Int.bmod_add_bmod, Int.add_comm]
  · have hadd := least_add (s := ds) (Multiset.singleton_ne_zero d)
    rw [least_singleton] at hadd
    rw [← Multiset.singleton_add, add_comm, hadd, ← h.min, ← h.count]
    rfl
  · rw [greatest_cons, ← h.max]
    rfl
  · rw [LatencyAgg.record, h.buckets]
    apply ext_getElem
    · simp
    · intro i hi _
      simp [getElem_modify, Multiset.countP_cons]
      split <;> rfl

lemma merge (h : a.Of A ds) (h' : a'.Of A ds') : (mergeLatency a a').Of A (ds + ds') := by
  rw [mergeLatency]
  split
  · rename_i hzero
    rw [h'.count_eq_zero.mp hzero, add_zero]
    exact h
  · rename_i hne
    rw [h'.count_eq_zero] at hne
    constructor
    · rw [Multiset.card_add, ← h.count, ← h'.count]
    · dsimp only
      rw [Multiset.sum_add, h.sum, h'.sum, Int.bmod_add_bmod, Int.add_bmod_bmod]
    · rw [least_add hne, ← h.min, ← h'.min, ← h.count]
    · rw [greatest_add, ← h.max, ← h'.max]
    · dsimp only
      rw [h.buckets, h'.buckets]
      apply ext_getElem
      · simp
      · intro i hi _
        simp

/-- Latencies have one aggregate. -/
lemma unique (h : a.Of A ds) (h' : a'.Of A ds) : a = a' := by
  obtain ⟨count, sum, min, max, buckets⟩ := a
  obtain ⟨count', sum', min', max', buckets'⟩ := a'
  simp only [LatencyAgg.mk.injEq]
  exact ⟨h.count.trans h'.count.symm, h.sum.trans h'.sum.symm, h.min.trans h'.min.symm,
    h.max.trans h'.max.symm, h.buckets.trans h'.buckets.symm⟩

end LatencyAgg.Of

def failureCodes (os : Multiset Observation) : Multiset String :=
  (os.filter fun o => o.success = false).map Observation.code

/-- The series says what there is to say about the observations `os`, apart from the last one. -/
structure PolicySeries.Of (A : Arithmetic F) (s : Series) (os : Multiset Observation) : Prop where
  lat : s.lat.Of A (os.map Observation.latency)
  total : s.total = os.card
  successes : s.successes = os.countP fun o => o.success = true
  failures : s.failures = os.countP fun o => o.success = false
  errors : Tallies s.errorsByCode (failureCodes os)
  memory : s.maxMemory = greatest (os.map Observation.memoryBytes)
  instructions : s.totalInstructions = (os.map Observation.instructionCount).sum % 2 ^ 64

namespace PolicySeries.Of

variable {s s' : Series} {os os' : Multiset Observation}

lemma fresh (id : String) : PolicySeries.Of A { freshSeries with policyID := id } 0 :=
  ⟨.new, rfl, rfl, rfl, tallies_empty, rfl, rfl⟩

lemma record (h : s.Of A os) (o : Observation) : (s.record A o).Of A (o ::ₘ os) := by
  constructor
  · rw [Multiset.map_cons]
    exact h.lat.record o.latency
  · rw [PolicySeries.record, Multiset.card_cons, h.total]
  · rw [PolicySeries.record, Multiset.countP_cons, ← h.successes]
    dsimp only
    split <;> rfl
  · rw [PolicySeries.record, Multiset.countP_cons, ← h.failures]
    cases hsuccess : o.success <;> rfl
  · rw [PolicySeries.record, failureCodes]
    dsimp only
    by_cases hsuccess : o.success = true
    · rw [if_pos hsuccess, Multiset.filter_cons_of_neg _ (by simp [hsuccess])]
      exact h.errors
    · rw [if_neg hsuccess, Multiset.filter_cons_of_pos _ (by simp [hsuccess]), Multiset.map_cons]
      exact h.errors.bump o.code
  · rw [Multiset.map_cons, greatest_cons, ← h.memory]
    rfl
  · rw [PolicySeries.record, Multiset.map_cons, Multiset.sum_cons, h.instructions]
    dsimp only
    omega

lemma foldl_record (h : s.Of A os) (l : List Observation) :
    (l.foldl (PolicySeries.record A) s).Of A (os + ↑l) := by
  induction l generalizing s os with
  | nil =>
    rw [Multiset.coe_nil, add_zero]
    exact h
  | cons o l ih =>
    rw [foldl_cons, ← Multiset.cons_coe, Multiset.add_cons, ← Multiset.cons_add]
    exact ih (h.record o)

lemma merge (h : s.Of A os) (h' : s'.Of A os') (order : RangeOrder String) :
    (mergeSeries order s s').Of A (os + os') := by
  constructor
  · rw [Multiset.map_add]
    exact h.lat.merge h'.lat
  · rw [Multiset.card_add, ← h.total, ← h'.total]
    rfl
  · rw [Multiset.countP_add, ← h.successes, ← h'.successes]
    rfl
  · rw [Multiset.countP_add, ← h.failures, ← h'.failures]
    rfl
  · rw [failureCodes, Multiset.filter_add, Multiset.map_add]
    exact h.errors.merge h'.errors order
  · rw [Multiset.map_add, greatest_add, ← h.memory, ← h'.memory]
    rfl
  · rw [Multiset.map_add, Multiset.sum_add, mergeSeries, h.instructions, h'.instructions]
    exact (Nat.add_mod _ _ _).symm

/-- The loop of `Render` over series of which each belongs to a part of the observations. -/
lemma overall {α : Type*} (load : α → Series) (part : α → Multiset Observation) {l : List α}
    (h : ∀ x ∈ l, (load x).Of A (part x)) (order : RangeOrder String) :
    (Observability.overall order (l.map load)).Of A (l.map part).sum := by
  have hall : ∀ (s : Series) (os : Multiset Observation), s.Of A os →
      ((l.map load).foldl (mergeSeries order) s).Of A (os + (l.map part).sum) := by
    induction l with
    | nil =>
      intro s os hs
      simpa using hs
    | cons x l ih =>
      intro s os hs
      rw [map_cons, foldl_cons, map_cons, sum_cons, ← add_assoc]
      exact ih (fun y hy => h y (mem_cons_of_mem x hy)) _ _
        (hs.merge (h x mem_cons_self) order)
  rw [← zero_add (l.map part).sum]
  exact hall _ _ (fresh "")

end PolicySeries.Of

namespace Memory

variable {m : Memory} {r p : Held}

lemma load_store_self (m : Memory) (r : Held) (s : Series) :
    (m.store r s).load (s.heldAt r) = s := by
  simp [load, store, PolicySeries.heldAt]

lemma load_store_of_ne (hslice : p.lat.buckets ≠ r.lat.buckets)
    (hmap : p.errorsByCode ≠ r.errorsByCode) (s : Series) : (m.store r s).load p = m.load p := by
  simp [load, store, hslice, hmap]

lemma load_allocate (hslice : p.lat.buckets < m.next) (hmap : p.errorsByCode < m.next) :
    m.allocate.load p = m.load p := by
  simp [load, allocate, hslice.ne, hmap.ne]

end Memory

def history (A : Arithmetic F) (id : String) (os : List Observation) : Option Series :=
  let mine := os.filter fun o => o.policyID = id
  if mine = [] then none
  else some (mine.foldl (PolicySeries.record A) { freshSeries with policyID := id })

variable {os : List Observation} {o : Observation} {id : String}

lemma history_concat_ne (h : o.policyID ≠ id) : history A id (os ++ [o]) = history A id os := by
  simp [history, h]

lemma history_concat_self (os : List Observation) (o : Observation) :
    history A o.policyID (os ++ [o]) = some (((history A o.policyID os).getD
      { freshSeries with policyID := o.policyID }).record A o) := by
  have hlast : ([o].filter fun x => x.policyID = o.policyID) = [o] := by simp
  simp only [history, filter_append, hlast, foldl_append, foldl_cons, foldl_nil]
  rw [if_neg (by simp)]
  split
  · rename_i hnil
    rw [hnil]
    rfl
  · rfl

lemma history_of {s : Series} (h : history A id os = some s) :
    s.Of A ↑(os.filter fun o => o.policyID = id) := by
  simp only [history, Option.ite_none_left_eq_some, Option.some.injEq] at h
  rw [← h.2, ← zero_add (↑(os.filter _) : Multiset Observation)]
  exact (PolicySeries.Of.fresh id).foldl_record _

namespace Collector

/-- Every series is held under its policy id and has a slice and a map of its own. What it says is
the history of the policy. -/
structure Inv (A : Arithmetic F) (os : List Observation) (c : Collector) : Prop where
  look : ∀ id, id ≠ "" → (c.series.lookup id).map c.memory.load = history A id os
  named : ∀ id ps, c.series.lookup id = some ps → id ≠ "" ∧ ps.policyID = id
  allocated : ∀ id ps, c.series.lookup id = some ps →
    ps.errorsByCode = ps.lat.buckets ∧ ps.lat.buckets < c.memory.next
  apart : ∀ id id' ps ps', c.series.lookup id = some ps → c.series.lookup id' = some ps' →
    ps.lat.buckets = ps'.lat.buckets → id = id'

variable {c : Collector}

/-- What `Record` finds or makes for the policy id of an observation. -/
structure Found (A : Arithmetic F) (os : List Observation) (c : Collector) (o : Observation)
    (r : Held) (m : Memory) : Prop where
  named : r.policyID = o.policyID
  allocated : r.errorsByCode = r.lat.buckets ∧ r.lat.buckets < m.next
  grown : c.memory.next ≤ m.next
  records : some ((m.load r).record A o) = history A o.policyID (os ++ [o])
  others : ∀ id ps, id ≠ o.policyID → c.series.lookup id = some ps →
    ps.lat.buckets ≠ r.lat.buckets ∧ m.load ps = c.memory.load ps

lemma Inv.found (h : c.Inv A os) (hid : o.policyID ≠ "") :
    c.Found A os o (c.seriesFor o).1 (c.seriesFor o).2 := by
  have hlook := h.look o.policyID hid
  rw [seriesFor]
  cases hps : c.series.lookup o.policyID with
  | some ps =>
    rw [hps] at hlook
    refine ⟨(h.named _ _ hps).2, h.allocated _ _ hps, le_rfl, ?_, fun id ps' hne hps' => ⟨?_, rfl⟩⟩
    · rw [history_concat_self, ← hlook]
      rfl
    · exact fun heq => hne (h.apart _ _ _ _ hps' hps heq)
  | none =>
    rw [hps] at hlook
    refine ⟨rfl, ⟨rfl, Nat.lt_succ_self _⟩, Nat.le_succ _, ?_, fun id ps' hne hps' => ?_⟩
    · have hload : c.memory.allocate.load (newSeries o c.memory.next) =
          { freshSeries with policyID := o.policyID, tier := o.tier } := by
        simp [Memory.load, Memory.allocate, newSeries, freshSeries, newLatencyAgg]
      rw [history_concat_self, ← hlook, hload]
      rfl
    · obtain ⟨hmap, hslice⟩ := h.allocated _ _ hps'
      exact ⟨hslice.ne, Memory.load_allocate hslice (hmap ▸ hslice)⟩

lemma record_of_ne (hid : o.policyID ≠ "") : c.record A o =
    { series := c.series.insert o.policyID
        ((((c.seriesFor o).2.load (c.seriesFor o).1).record A o).heldAt (c.seriesFor o).1)
      memory := (c.seriesFor o).2.store (c.seriesFor o).1
        (((c.seriesFor o).2.load (c.seriesFor o).1).record A o) } := by
  rw [record, if_neg hid]

lemma Inv.record (h : c.Inv A os) (o : Observation) : (c.record A o).Inv A (os ++ [o]) := by
  by_cases hid : o.policyID = ""
  · rw [Collector.record, if_pos hid]
    refine ⟨fun id hne => ?_, h.named, h.allocated, h.apart⟩
    rw [history_concat_ne (hid ▸ hne.symm)]
    exact h.look id hne
  · have hfound := h.found hid
    rw [record_of_ne hid]
    generalize (c.seriesFor o).1 = r at hfound
    generalize (c.seriesFor o).2 = m at hfound
    generalize hs : (m.load r).record A o = s
    have hrecords := hfound.records
    rw [hs] at hrecords
    have hnamed : s.policyID = o.policyID := by
      rw [← hs]
      exact hfound.named
    -- The entry of the policy, and the other ones.
    have hcases : ∀ id ps, (c.series.insert o.policyID (s.heldAt r)).lookup id = some ps →
        id = o.policyID ∧ ps = s.heldAt r ∨ id ≠ o.policyID ∧ c.series.lookup id = some ps := by
      intro id ps hps
      by_cases hne : id = o.policyID
      · subst hne
        rw [Finmap.lookup_insert, Option.some.injEq] at hps
        exact Or.inl ⟨rfl, hps.symm⟩
      · rw [Finmap.lookup_insert_of_ne _ hne] at hps
        exact Or.inr ⟨hne, hps⟩
    constructor
    · intro id hne
      by_cases heq : id = o.policyID
      · subst heq
        rw [Finmap.lookup_insert, Option.map_some, Memory.load_store_self, hrecords]
      · rw [Finmap.lookup_insert_of_ne _ heq, history_concat_ne (Ne.symm heq), ← h.look id hne]
        cases hps : c.series.lookup id with
        | none => rfl
        | some ps =>
          obtain ⟨hapart, hload⟩ := hfound.others id ps heq hps
          have hmap : ps.errorsByCode ≠ r.errorsByCode := by
            rw [(h.allocated _ _ hps).1, hfound.allocated.1]
            exact hapart
          rw [Option.map_some, Option.map_some, Memory.load_store_of_ne hapart hmap, hload]
    · intro id ps hps
      obtain ⟨rfl, rfl⟩ | ⟨-, hold⟩ := hcases id ps hps
      · exact ⟨hid, hnamed⟩
      · exact h.named id ps hold
    · intro id ps hps
      obtain ⟨rfl, rfl⟩ | ⟨-, hold⟩ := hcases id ps hps
      · exact hfound.allocated
      · exact ⟨(h.allocated id ps hold).1, (h.allocated id ps hold).2.trans_le hfound.grown⟩
    · intro id id' ps ps' hps hps' heq
      obtain ⟨rfl, rfl⟩ | ⟨hne, hold⟩ := hcases id ps hps
      · obtain ⟨rfl, rfl⟩ | ⟨hne', hold'⟩ := hcases id' ps' hps'
        · rfl
        · exact absurd heq.symm (hfound.others id' ps' hne' hold').1
      · obtain ⟨rfl, rfl⟩ | ⟨hne', hold'⟩ := hcases id' ps' hps'
        · exact absurd heq (hfound.others id ps hne hold).1
        · exact h.apart id id' ps ps' hold hold' heq

def after (A : Arithmetic F) (os : List Observation) : Collector :=
  runFrom (Collector.record A) newCollector os

lemma after_concat (os : List Observation) (o : Observation) :
    after A (os ++ [o]) = (after A os).record A o := by
  rw [after, runFrom_append]
  rfl

theorem inv_after (A : Arithmetic F) (os : List Observation) : (after A os).Inv A os := by
  induction os using reverseRecOn with
  | nil =>
    exact ⟨fun _ _ => rfl, fun _ _ h => (by cases h), fun _ _ h => (by cases h),
      fun _ _ _ _ h => (by cases h)⟩
  | append_singleton os o ih =>
    rw [after_concat]
    exact ih.record o

end Collector

end Symkernel.Observability
