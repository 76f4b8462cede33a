import Symkernel.Breaker.Circuit
import Symkernel.Library.Runs
import Symkernel.Library.SortedList

/-!
# The sliding window
-/

namespace Symkernel.Breaker

open Library List

inductive Call where
  | allow (now : Int)
  | timeout (elapsed now : Int)
  | success
  deriving DecidableEq, Repr

def Call.clock : Call → Option Int
  | .allow now => some now
  | .timeout _ now => some now
  | .success => none

def CircuitBreaker.call (cb : CircuitBreaker) : Call → CircuitBreaker
  | .allow now => (cb.allow now).1
  | .timeout elapsed now => cb.recordTimeout elapsed now
  | .success => cb.recordSuccess

structure Entry where
  before : State
  call : Call
  after : State

def history (cb : CircuitBreaker) : List Call → List Entry
  | [] => []
  | c :: calls => ⟨cb.state, c, (cb.call c).state⟩ :: history (cb.call c) calls

def Entry.resets (e : Entry) : Bool :=
  e.call == .success || (e.before != .closed && e.after == .closed)

def sinceReset (h : List Entry) : List Entry :=
  (h.reverse.takeWhile (fun e => !e.resets)).reverse

/-- The time of a timeout of at least the threshold that is recorded in the closed state. -/
def Entry.qualifying (threshold : Int) (e : Entry) : Option Int :=
  match e.before, e.call with
  | .closed, .timeout elapsed now => if threshold ≤ elapsed then some now else none
  | _, _ => none

/-- The times of the qualifying timeouts since the latest success or entry to the closed
state. -/
def qualifyingTimes (cfg : Config) (h : List Entry) : List Int :=
  (sinceReset h).filterMap (Entry.qualifying cfg.timeoutThreshold)

/-- The qualifying timeouts in the window that ends at `t`. -/
def windowCount (cfg : Config) (h : List Entry) (t : Int) : Nat :=
  (qualifyingTimes cfg h).countP (fun u => decide (t - cfg.windowDuration ≤ u))

def InOrder (calls : List Call) : Prop :=
  (calls.filterMap Call.clock).Pairwise (· ≤ ·)

instance (calls : List Call) : Decidable (InOrder calls) :=
  inferInstanceAs (Decidable ((calls.filterMap Call.clock).Pairwise (· ≤ ·)))

def after (cfg : Config) (calls : List Call) : CircuitBreaker :=
  runFrom CircuitBreaker.call (new cfg) calls

lemma history_append (cb : CircuitBreaker) (calls : List Call) (c : Call) :
    history cb (calls ++ [c]) = history cb calls ++
      [⟨(runFrom CircuitBreaker.call cb calls).state, c,
        ((runFrom CircuitBreaker.call cb calls).call c).state⟩] := by
  induction calls generalizing cb with
  | nil => rfl
  | cons d calls ih => simp only [cons_append, history, ih, runFrom_cons]

lemma sinceReset_append (h : List Entry) (e : Entry) :
    sinceReset (h ++ [e]) = if e.resets then [] else sinceReset h ++ [e] := by
  unfold sinceReset
  cases he : e.resets <;> simp [he]

lemma qualifyingTimes_append (cfg : Config) (h : List Entry) (e : Entry) :
    qualifyingTimes cfg (h ++ [e]) =
      if e.resets then []
      else qualifyingTimes cfg h ++ (e.qualifying cfg.timeoutThreshold).toList := by
  unfold qualifyingTimes
  rw [sinceReset_append]
  split
  · rfl
  · cases he : e.qualifying cfg.timeoutThreshold <;> simp [he]

lemma after_append (cfg : Config) (calls : List Call) (c : Call) :
    after cfg (calls ++ [c]) = (after cfg calls).call c := by
  rw [after, runFrom_append]
  rfl

lemma call_cfg (cb : CircuitBreaker) (c : Call) : (cb.call c).cfg = cb.cfg := by
  cases c with
  | allow now => exact cb.allow_cfg now
  | timeout elapsed now => exact cb.recordTimeout_cfg elapsed now
  | success => exact cb.recordSuccess_cfg

lemma after_cfg (cfg : Config) (calls : List Call) : (after cfg calls).cfg = normalize cfg := by
  induction calls using reverseRecOn with
  | nil => rfl
  | append_singleton calls c ih => rw [after_append, call_cfg, ih]

lemma Entry.clock_of_qualifying {e : Entry} {threshold t : Int}
    (h : e.qualifying threshold = some t) : e.call.clock = some t := by
  unfold Entry.qualifying at h
  split at h
  · rename_i hcall
    split at h <;> cases h
    rw [hcall]
    rfl
  · cases h

lemma qualifyingTimes_sublist (cfg : Config) (cb : CircuitBreaker) (calls : List Call) :
    (qualifyingTimes cfg (history cb calls)).Sublist (calls.filterMap Call.clock) := by
  induction calls using reverseRecOn with
  | nil => simp [qualifyingTimes, sinceReset, history]
  | append_singleton calls c ih =>
    rw [history_append, qualifyingTimes_append, filterMap_append]
    split
    · exact nil_sublist _
    · refine List.Sublist.append ih ?_
      cases hq : Entry.qualifying cfg.timeoutThreshold
          ⟨(runFrom CircuitBreaker.call cb calls).state, c,
            ((runFrom CircuitBreaker.call cb calls).call c).state⟩ with
      | none => exact nil_sublist _
      | some t =>
        have hclock : c.clock = some t := Entry.clock_of_qualifying hq
        simp [hclock]

/-! ### Pruning keeps the window -/

/-- In the closed state the stamps are the qualifying times without some that have left the
window for good. -/
structure Pruned (cfg : Config) (calls : List Call) (dropped : List Int) : Prop where
  split : qualifyingTimes (normalize cfg) (history (new cfg) calls) =
    dropped ++ (after cfg calls).timeoutStamps
  expired : ∀ u ∈ dropped, ∀ t, (∀ v ∈ calls.filterMap Call.clock, v ≤ t) →
    u < t - (normalize cfg).windowDuration

lemma Pruned.of_same {cfg : Config} {calls : List Call} {dropped : List Int}
    (h : Pruned cfg calls dropped) {c : Call} (hsame : (after cfg calls).call c = after cfg calls)
    (hc : c ≠ .success) (hnone : Entry.qualifying (normalize cfg).timeoutThreshold
      ⟨(after cfg calls).state, c, (after cfg calls).state⟩ = none) :
    Pruned cfg (calls ++ [c]) dropped where
  split := by
    have hresets : Entry.resets ⟨(after cfg calls).state, c, (after cfg calls).state⟩ = false := by
      cases hs : (after cfg calls).state <;> simp [Entry.resets, hc]
    have hstate : ((after cfg calls).call c).state = (after cfg calls).state := by rw [hsame]
    rw [history_append, qualifyingTimes_append, after_append, hsame, ← h.split]
    change (if Entry.resets ⟨(after cfg calls).state, c, ((after cfg calls).call c).state⟩ then _
      else _ ++ (Entry.qualifying _ ⟨(after cfg calls).state, c,
        ((after cfg calls).call c).state⟩).toList) = _
    rw [hstate, hresets, hnone]
    simp
  expired := by
    intro u hu t ht
    refine h.expired u hu t (fun v hv => ht v ?_)
    rw [filterMap_append]
    exact mem_append_left _ hv

lemma pruned_success (cfg : Config) (calls : List Call)
    (h : (after cfg (calls ++ [.success])).state = .closed) :
    Pruned cfg (calls ++ [.success]) [] where
  split := by
    rw [history_append, qualifyingTimes_append]
    rw [after_append] at h ⊢
    obtain ⟨hs, hsame⟩ | ⟨-, -, hstamps⟩ := (after cfg calls).recordSuccess_cases
    · simp [CircuitBreaker.call, hsame, hs] at h
    · simp [Entry.resets, CircuitBreaker.call, hstamps]
  expired := nofun

lemma recordTimeout_stamps {cb : CircuitBreaker} {elapsed now : Int} (hs : cb.state = .closed)
    (hcounts : cb.cfg.timeoutThreshold ≤ elapsed) : (cb.recordTimeout elapsed now).state = .opened ∧
        cb.cfg.failureThreshold ≤ (cb.pruneStamps now).timeoutStamps.length + 1 ∨
      (cb.recordTimeout elapsed now).state = .closed ∧
        ¬ cb.cfg.failureThreshold ≤ (cb.pruneStamps now).timeoutStamps.length + 1 ∧
        (cb.recordTimeout elapsed now).timeoutStamps =
          (cb.pruneStamps now).timeoutStamps ++ [now] := by
  have hcfg : (cb.pruneStamps now).cfg = cb.cfg := rfl
  have hstate : (cb.pruneStamps now).state = .closed := hs
  have hlen : (((cb.pruneStamps now).timeoutStamps ++ [now]).length : Int) =
      (cb.pruneStamps now).timeoutStamps.length + 1 := by simp
  simp only [CircuitBreaker.recordTimeout, Int.not_lt.mpr hcounts, if_false, hs, hlen]
  split
  · rename_i hthreshold
    exact .inl ⟨rfl, hthreshold⟩
  · rename_i hthreshold
    exact .inr ⟨hstate, hthreshold, rfl⟩

lemma pruned_timeout {cfg : Config} {calls : List Call} {dropped : List Int}
    (h : Pruned cfg calls dropped) {elapsed now : Int} (hs : (after cfg calls).state = .closed)
    (hcounts : (normalize cfg).timeoutThreshold ≤ elapsed)
    (hafter : (after cfg (calls ++ [.timeout elapsed now])).state = .closed) :
    Pruned cfg (calls ++ [.timeout elapsed now]) (dropped ++ (after cfg calls).timeoutStamps.takeWhile
      (fun u => decide (u < now - (normalize cfg).windowDuration))) := by
  have hcfg := after_cfg cfg calls
  have hcounts' : (after cfg calls).cfg.timeoutThreshold ≤ elapsed := by rwa [hcfg]
  rw [after_append] at hafter
  obtain ⟨hopened, -⟩ | ⟨-, -, hstamps⟩ := @recordTimeout_stamps _ _ now hs hcounts'
  · simp [CircuitBreaker.call, hopened] at hafter
  · have hprune : ((after cfg calls).pruneStamps now).timeoutStamps =
        (after cfg calls).timeoutStamps.dropWhile
          (fun u => decide (u < now - (normalize cfg).windowDuration)) := by
      rw [← hcfg]
      rfl
    constructor
    · have hnew : qualifyingTimes (normalize cfg)
          (history (new cfg) (calls ++ [.timeout elapsed now])) =
          dropped ++ (after cfg calls).timeoutStamps ++ [now] := by
        rw [history_append, qualifyingTimes_append, h.split]
        change (if Entry.resets ⟨(after cfg calls).state, _, _⟩ then _
          else _ ++ (Entry.qualifying _ ⟨(after cfg calls).state, _, _⟩).toList) = _
        simp [Entry.resets, Entry.qualifying, hs, hcounts]
      rw [hnew, after_append, CircuitBreaker.call, hstamps, hprune]
      nth_rewrite 1 [← takeWhile_append_dropWhile
        (p := fun u => decide (u < now - (normalize cfg).windowDuration))
        (l := (after cfg calls).timeoutStamps)]
      simp only [append_assoc]
    · intro u hu t ht
      obtain hu | hu := List.mem_append.mp hu
      · refine h.expired u hu t (fun v hv => ht v ?_)
        rw [filterMap_append]
        exact mem_append_left _ hv
      · have hcut : u < now - (normalize cfg).windowDuration := by
          simpa using mem_takeWhile_imp hu
        have hnow : now ≤ t := ht now (by simp [Call.clock])
        omega

lemma exists_pruned (cfg : Config) (calls : List Call) (h : (after cfg calls).state = .closed) :
    ∃ dropped, Pruned cfg calls dropped := by
  induction calls using reverseRecOn with
  | nil => exact ⟨[], rfl, nofun⟩
  | append_singleton calls c ih =>
    cases c with
    | success => exact ⟨[], pruned_success cfg calls h⟩
    | allow now =>
      have h' := h
      rw [after_append] at h'
      obtain ⟨hs, ha⟩ | ⟨hs, -, ha⟩ | ⟨hs, -, ha⟩ | ⟨hs, -, ha⟩ | ⟨hs, -, ha⟩ :=
        (after cfg calls).allow_cases now
      · obtain ⟨dropped, hd⟩ := ih hs
        refine ⟨dropped, hd.of_same (by simp [CircuitBreaker.call, ha]) (by simp) ?_⟩
        simp [Entry.qualifying]
      all_goals simp [CircuitBreaker.call, ha, hs] at h'
    | timeout elapsed now =>
      have h' := h
      rw [after_append] at h'
      by_cases hshort : elapsed < (normalize cfg).timeoutThreshold
      · have hsame := (after cfg calls).recordTimeout_of_short elapsed now (by rwa [after_cfg])
        simp only [CircuitBreaker.call, hsame] at h'
        obtain ⟨dropped, hd⟩ := ih h'
        refine ⟨dropped, hd.of_same (by simp [CircuitBreaker.call, hsame]) (by simp) ?_⟩
        simp [Entry.qualifying, h', Int.not_le.mpr hshort]
      · obtain ⟨hs, -⟩ | ⟨-, htrip⟩ | ⟨hs, hsame⟩ :=
          (after cfg calls).recordTimeout_of_counts elapsed now (by rw [after_cfg]; omega)
        · obtain ⟨dropped, hd⟩ := ih hs
          exact ⟨_, pruned_timeout hd hs (by omega) h⟩
        · simp [CircuitBreaker.call, htrip, CircuitBreaker.trip] at h'
        · simp [CircuitBreaker.call, hsame, hs] at h'

lemma length_pruneStamps {cfg : Config} {calls : List Call} {elapsed t : Int}
    (hclock : InOrder (calls ++ [.timeout elapsed t])) (hs : (after cfg calls).state = .closed) :
    ((after cfg calls).pruneStamps t).timeoutStamps.length =
      windowCount (normalize cfg) (history (new cfg) calls) t := by
  obtain ⟨dropped, hd⟩ := exists_pruned cfg calls hs
  rw [InOrder, filterMap_append, pairwise_append] at hclock
  have hlast : ∀ v ∈ calls.filterMap Call.clock, v ≤ t :=
    fun v hv => hclock.2.2 v hv t (by simp [Call.clock])
  have hsorted : (dropped ++ (after cfg calls).timeoutStamps).Pairwise (· ≤ ·) := by
    rw [← hd.split]
    exact hclock.1.sublist (qualifyingTimes_sublist _ _ _)
  have hnone : dropped.countP (fun u => decide (t - (normalize cfg).windowDuration ≤ u)) = 0 := by
    rw [countP_eq_zero]
    intro u hu
    have hexpired := hd.expired u hu t hlast
    rw [decide_eq_true_eq, not_le]
    exact hexpired
  have hprune : ((after cfg calls).pruneStamps t).timeoutStamps =
      (after cfg calls).timeoutStamps.dropWhile
        (fun u => decide (u < t - (normalize cfg).windowDuration)) := by
    rw [← after_cfg cfg calls]
    rfl
  have hcut : (after cfg calls).timeoutStamps.dropWhile
      (fun u => decide (u < t - (normalize cfg).windowDuration)) =
      (after cfg calls).timeoutStamps.filter
        (fun u => decide (t - (normalize cfg).windowDuration ≤ u)) :=
    dropWhile_lt_eq_filter (List.pairwise_append.mp hsorted).2.1
      (fun _ => decide_eq_true_iff) (fun _ => decide_eq_true_iff)
  rw [hprune, hcut, windowCount, hd.split, countP_append, hnone, Nat.zero_add,
    countP_eq_length_filter]

lemma opens_iff {cfg : Config} {calls : List Call} {elapsed t : Int}
    (hclock : InOrder (calls ++ [.timeout elapsed t])) (hs : (after cfg calls).state = .closed) :
    ((after cfg calls).recordTimeout elapsed t).state = .opened ↔
      (normalize cfg).timeoutThreshold ≤ elapsed ∧
        (normalize cfg).failureThreshold ≤
          windowCount (normalize cfg) (history (new cfg) calls) t + 1 := by
  have hcfg := after_cfg cfg calls
  have hlen := length_pruneStamps hclock hs
  by_cases hcounts : (normalize cfg).timeoutThreshold ≤ elapsed
  · have hcounts' : (after cfg calls).cfg.timeoutThreshold ≤ elapsed := by rwa [hcfg]
    have hcases := @recordTimeout_stamps _ _ t hs hcounts'
    rw [hcfg, hlen] at hcases
    obtain ⟨hopened, hthreshold⟩ | ⟨hclosed, hthreshold, -⟩ := hcases
    · simp [hopened, hcounts, hthreshold]
    · simp [hclosed, hthreshold]
  · rw [(after cfg calls).recordTimeout_of_short elapsed t (by rw [hcfg]; omega), hs]
    simp [hcounts]

/-! ### The cool-down -/

lemma runFrom_opened {cb : CircuitBreaker} (hs : cb.state = .opened) {calls : List Call}
    (h : ∀ t, Call.allow t ∈ calls → t < cb.openedAt + cb.cfg.openDuration) :
    runFrom CircuitBreaker.call cb calls = cb := by
  induction calls with
  | nil => rfl
  | cons c calls ih =>
    have hsame : cb.call c = cb := by
      cases c with
      | allow now =>
        have hnow := h now (by simp)
        have hcool : ¬ cb.cfg.openDuration ≤ now - cb.openedAt := by omega
        simp [CircuitBreaker.call, CircuitBreaker.allow, hs, hcool]
      | timeout elapsed now =>
        simp [CircuitBreaker.call, CircuitBreaker.recordTimeout, hs]
      | success => simp [CircuitBreaker.call, CircuitBreaker.recordSuccess, hs]
    rw [runFrom_cons, hsame, ih (fun t ht => h t (by simp [ht]))]

lemma openedAt_of_opens {cb : CircuitBreaker} {elapsed t : Int} (hs : cb.state ≠ .opened)
    (h : (cb.recordTimeout elapsed t).state = .opened) :
    (cb.recordTimeout elapsed t).openedAt = t := by
  by_cases hshort : elapsed < cb.cfg.timeoutThreshold
  · rw [cb.recordTimeout_of_short elapsed t hshort] at h
    exact absurd h hs
  · unfold CircuitBreaker.recordTimeout at h ⊢
    rw [if_neg hshort] at h ⊢
    split at h
    · dsimp only at h ⊢
      split at h
      · rename_i hthreshold
        rw [if_pos hthreshold]
        rfl
      · rename_i hclosed _
        simp [CircuitBreaker.pruneStamps, hclosed] at h
    · rfl
    · rename_i hopened
      exact absurd hopened hs

/-- The circuit opens by the rule of the sliding window, and stays open for the cool-down. -/
theorem trips_exactly_on_window_rule (cfg : Config) (calls : List Call) (elapsed t : Int)
    (hclock : InOrder (calls ++ [.timeout elapsed t])) : ((after cfg calls).state = .closed →
      (((after cfg calls).recordTimeout elapsed t).state = .opened ↔
        (normalize cfg).timeoutThreshold ≤ elapsed ∧
          (normalize cfg).failureThreshold ≤
            windowCount (normalize cfg) (history (new cfg) calls) t + 1)) ∧
    ((after cfg calls).state ≠ .opened →
      ((after cfg calls).recordTimeout elapsed t).state = .opened →
      ∀ (later : List Call) (now : Int), InOrder (later ++ [.allow now]) →
        let cb := after cfg (calls ++ .timeout elapsed t :: later)
        (now < t + (normalize cfg).openDuration → (cb.allow now).2 = false) ∧
        (t + (normalize cfg).openDuration ≤ now →
          (∀ u, Call.allow u ∈ later → u < t + (normalize cfg).openDuration) →
          (cb.allow now).2 = true)) := by
  refine ⟨opens_iff hclock, ?_⟩
  intro hs hopened later now hlater
  have hat := openedAt_of_opens hs hopened
  have hcfg : ((after cfg calls).recordTimeout elapsed t).cfg = normalize cfg := by
    rw [CircuitBreaker.recordTimeout_cfg, after_cfg]
  -- as long as no `Allow` comes after the cool-down, the circuit is the one that was tripped
  have hstill : (∀ u, Call.allow u ∈ later → u < t + (normalize cfg).openDuration) →
      after cfg (calls ++ .timeout elapsed t :: later) =
        (after cfg calls).recordTimeout elapsed t := by
    intro hearly
    rw [after, runFrom_append]
    exact runFrom_opened hopened (by rwa [hat, hcfg])
  constructor
  · intro hnow
    have hearly : ∀ u, Call.allow u ∈ later → u < t + (normalize cfg).openDuration := by
      intro u hu
      rw [InOrder, filterMap_append, pairwise_append] at hlater
      have hle : u ≤ now := hlater.2.2 u
        (List.mem_filterMap.mpr ⟨_, hu, rfl⟩) now (by simp [Call.clock])
      omega
    rw [hstill hearly]
    have hcool : ¬ (normalize cfg).openDuration ≤ now - t := by omega
    simp [CircuitBreaker.allow, hopened, hat, after_cfg, hcool]
  · intro hnow hearly
    rw [hstill hearly]
    have hcool : (normalize cfg).openDuration ≤ now - t := by omega
    simp [CircuitBreaker.allow, hopened, hat, after_cfg, hcool]

/-- With a window of 100 and two failures, the second timeout trips the circuit; a request at
160 is rejected and the one at 170 is the probe. -/
theorem second_timeout_trips :
    ((after ⟨10, 100, 2, 50⟩ [.timeout 10 30]).recordTimeout 10 120).state = .opened ∧
      ((after ⟨10, 100, 2, 50⟩ [.timeout 10 30, .timeout 10 120]).allow 160).2 = false ∧
      ((after ⟨10, 100, 2, 50⟩ [.timeout 10 30, .timeout 10 120, .allow 160]).allow 170).2 =
        true := by
  have hrule := trips_exactly_on_window_rule ⟨10, 100, 2, 50⟩ [.timeout 10 30] 10 120 (by decide)
  have hopened := (hrule.1 (by decide)).mpr (by decide)
  have hrejects := (hrule.2 (by decide) hopened [] 160 (by decide)).1 (by decide)
  have hadmits := (hrule.2 (by decide) hopened [.allow 160] 170 (by decide)).2 (by decide)
  refine ⟨hopened, hrejects, hadmits ?_⟩
  intro u hu
  simp only [mem_singleton, Call.allow.injEq] at hu
  subst hu
  decide

end Symkernel.Breaker
