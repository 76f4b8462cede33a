import Symkernel.Breaker.Circuit
import Symkernel.Library.Runs

/-!
# Requests behind the breaker

Requests are numbered in the order of their calls of `Allow`. An admitted request reports once,
by `RecordSuccess` or by `RecordTimeout`, at any later point of the run; a report of a request
that is not admitted or has reported already is no event of the system.
-/

namespace Symkernel.Breaker

open Library

inductive Event where
  | allow (now : Int)
  | success (request : Nat)
  | timeout (request : Nat) (elapsed now : Int)
  deriving DecidableEq, Repr

/-- The breaker, the number of calls of `Allow` so far, the admitted requests that have not
reported, and the requests that were admitted as probes, the latest first. -/
structure System where
  breaker : CircuitBreaker
  calls : Nat
  unreported : List Nat
  probes : List Nat

def System.init (cfg : Config) : System where
  breaker := new cfg
  calls := 0
  unreported := []
  probes := []

def System.step (s : System) : Event → System
  | .allow now =>
    let (breaker, admitted) := s.breaker.allow now
    { breaker
      calls := s.calls + 1
      unreported := if admitted then s.calls :: s.unreported else s.unreported
      probes :=
        if admitted && s.breaker.state != .closed then s.calls :: s.probes else s.probes }
  | .success request =>
    if request ∈ s.unreported then
      { s with
        breaker := s.breaker.recordSuccess
        unreported := s.unreported.erase request }
    else s
  | .timeout request elapsed now =>
    if request ∈ s.unreported then
      { s with
        breaker := s.breaker.recordTimeout elapsed now
        unreported := s.unreported.erase request }
    else s

/-- While a probe is in flight some admitted request has not reported. -/
def System.Live (s : System) : Prop :=
  s.breaker.state = .halfOpen → s.breaker.probeInFlight = true → s.unreported ≠ []

/-- The only unreported request of a half-open circuit does not report a timeout below the
threshold. -/
def System.KeepsProbe (s : System) : Event → Prop
  | .timeout request elapsed _ =>
    s.breaker.state = .halfOpen → s.breaker.probeInFlight = true →
      elapsed < s.breaker.cfg.timeoutThreshold → s.unreported ≠ [request]
  | _ => True

lemma allow_live (s : System) (now : Int) (h : s.Live) : (s.step (.allow now)).Live := by
  intro hstate hprobe
  obtain ⟨-, ha⟩ | ⟨-, -, ha⟩ | ⟨hs, -, ha⟩ | ⟨hs, hflight, ha⟩ | ⟨-, -, ha⟩ :=
    s.breaker.allow_cases now
  · simp [System.step, ha]
  · simp [System.step, ha]
  · simp [System.step, ha, hs] at hstate
  · simpa [System.step, ha] using h hs hflight
  · simp [System.step, ha]

lemma success_live (s : System) (request : Nat) (h : s.Live) :
    (s.step (.success request)).Live := by
  by_cases hmem : request ∈ s.unreported
  · intro hstate
    simp only [System.step, hmem] at hstate
    obtain ⟨hs, hsame⟩ | ⟨-, hclosed, -⟩ := s.breaker.recordSuccess_cases
    · simp [hsame, hs] at hstate
    · simp [hclosed] at hstate
  · simpa only [System.step, hmem, if_false] using h

lemma recordTimeout_ne_halfOpen (cb : CircuitBreaker) {elapsed : Int} (now : Int)
    (h : cb.cfg.timeoutThreshold ≤ elapsed) : (cb.recordTimeout elapsed now).state ≠ .halfOpen := by
  obtain ⟨-, hs | hs⟩ | ⟨-, htrip⟩ | ⟨hs, hsame⟩ := cb.recordTimeout_of_counts elapsed now h
  · simp [hs]
  · simp [hs]
  · simp [htrip, CircuitBreaker.trip]
  · simp [hsame, hs]

lemma timeout_live_iff (s : System) (request : Nat) (elapsed now : Int) (h : s.Live) :
    (s.step (.timeout request elapsed now)).Live ↔ s.KeepsProbe (.timeout request elapsed now) := by
  by_cases hmem : request ∈ s.unreported
  · by_cases hshort : elapsed < s.breaker.cfg.timeoutThreshold
    · have herase : s.unreported.erase request = [] ↔ s.unreported = [request] := by
        rw [← List.length_eq_zero_iff, List.length_erase_of_mem hmem, Nat.sub_eq_zero_iff_le]
        constructor
        · intro hlen
          obtain ⟨x, hx⟩ := List.length_eq_one_iff.mp
            (Nat.le_antisymm hlen (List.length_pos_of_mem hmem))
          rw [hx, List.mem_singleton] at hmem
          rw [hx, hmem]
        · intro hone
          simp [hone]
      simp only [System.Live, System.step, hmem, if_true, CircuitBreaker.recordTimeout, hshort,
        System.KeepsProbe, ne_eq, herase, forall_const]
    · have hleaves := recordTimeout_ne_halfOpen s.breaker now (Int.not_lt.mp hshort)
      simp [System.Live, System.step, hmem, hleaves, System.KeepsProbe, hshort]
  · have hne : s.unreported ≠ [request] := by
      intro hone
      simp [hone] at hmem
    simp only [System.step, hmem, System.KeepsProbe, hne, ne_eq, not_false_eq_true,
      implies_true, iff_true]
    exact h

lemma step_live_iff (s : System) (e : Event) (h : s.Live) : (s.step e).Live ↔ s.KeepsProbe e := by
  cases e with
  | allow now => exact iff_of_true (allow_live s now h) trivial
  | success request => exact iff_of_true (success_live s request h) trivial
  | timeout request elapsed now => exact timeout_live_iff s request elapsed now h

lemma init_live (cfg : Config) : (System.init cfg).Live := by
  intro hstate
  cases hstate

/-- A half-open circuit with a probe in flight has an unreported request in all states of a run
just if the last one to report never reports a timeout below the threshold. -/
theorem half_open_has_unreported_iff (cfg : Config) (events : List Event) :
    EveryState System.step System.Live (System.init cfg) events ↔
      EveryStep System.step System.KeepsProbe (System.init cfg) events :=
  everyState_iff_everyStep step_live_iff (init_live cfg) events

/-- One timeout trips the circuit; the probe after the cool-down reports a short timeout. -/
def shortProbe : List Event :=
  [.allow 0, .timeout 0 10 1, .allow 60, .timeout 1 5 61]

/-- After the short timeout nothing is outstanding, and every later request is rejected. -/
theorem short_timeout_locks_half_open :
    let s := runFrom System.step (System.init ⟨10, 100, 1, 50⟩) shortProbe
    s.breaker.state = .halfOpen ∧ s.breaker.probeInFlight = true ∧ s.unreported = [] ∧
      ∀ now, s.breaker.allow now = (s.breaker, false) :=
  ⟨by decide, by decide, by decide, fun _ => rfl⟩

/-- The circuit is closed by the success of the request that was admitted last as a probe. -/
def System.ClosedByProbe (s : System) (e : Event) : Prop :=
  s.breaker.state = .halfOpen → (s.step e).breaker.state = .closed →
    ∃ request ∈ s.unreported, e = .success request ∧ s.probes.head? = some request

def System.OneProbe (s : System) : Prop :=
  ∀ p ∈ s.probes, ∀ q ∈ s.probes, p ∈ s.unreported → q ∈ s.unreported → p = q

/-- In the half-open state only the probe reports a success, and a request becomes a probe only
once the probe before it has reported. -/
def System.ProbesInTurn (s : System) : Event → Prop
  | .allow now =>
    (s.breaker.allow now).2 = true → s.breaker.state ≠ .closed →
      ∀ p ∈ s.probes.head?, p ∉ s.unreported
  | .success request =>
    s.breaker.state = .halfOpen → request ∈ s.unreported → s.probes.head? = some request
  | .timeout .. => True

/-- The numbers of the calls to come are not in use, and all probes but the last have
reported. -/
structure System.Ordered (s : System) : Prop where
  probes_lt : ∀ p ∈ s.probes, p < s.calls
  tail_reported : ∀ p ∈ s.probes.tail, p ∉ s.unreported

variable {s : System}

lemma System.Ordered.oneProbe (h : s.Ordered) : s.OneProbe := by
  have hhead : ∀ p ∈ s.probes, p ∈ s.unreported → s.probes.head? = some p := by
    intro p hp hunreported
    cases hprobes : s.probes with
    | nil => simp [hprobes] at hp
    | cons x l =>
      rw [hprobes, List.mem_cons] at hp
      obtain rfl | htail := hp
      · rfl
      · exact absurd hunreported (h.tail_reported p (by simpa [hprobes] using htail))
  intro p hp q hq hup huq
  exact Option.some.inj ((hhead p hp hup).symm.trans (hhead q hq huq))

lemma System.Ordered.report {s' : System} (h : s.Ordered) (hprobes : s'.probes = s.probes)
    (hcalls : s'.calls = s.calls) (hsub : ∀ r ∈ s'.unreported, r ∈ s.unreported) : s'.Ordered where
  probes_lt := by
    rw [hprobes, hcalls]
    exact h.probes_lt
  tail_reported := by
    intro p hp hunreported
    rw [hprobes] at hp
    exact h.tail_reported p hp (hsub p hunreported)

lemma success_ordered (h : s.Ordered) (request : Nat) : (s.step (.success request)).Ordered := by
  by_cases hmem : request ∈ s.unreported
  · exact h.report (by simp [System.step, hmem]) (by simp [System.step, hmem])
      (fun r hr => List.mem_of_mem_erase (by simpa [System.step, hmem] using hr))
  · simpa only [System.step, hmem, if_false] using h

lemma timeout_ordered (h : s.Ordered) (request : Nat) (elapsed now : Int) :
    (s.step (.timeout request elapsed now)).Ordered := by
  by_cases hmem : request ∈ s.unreported
  · exact h.report (by simp [System.step, hmem]) (by simp [System.step, hmem])
      (fun r hr => List.mem_of_mem_erase (by simpa [System.step, hmem] using hr))
  · simpa only [System.step, hmem, if_false] using h

lemma allow_ordered (h : s.Ordered) {now : Int} (hturn : s.ProbesInTurn (.allow now)) :
    (s.step (.allow now)).Ordered := by
  have hlt : ∀ p ∈ (s.step (.allow now)).probes, p < s.calls + 1 := by
    intro p hp
    simp only [System.step] at hp
    split at hp
    · obtain rfl | hp := List.mem_cons.mp hp
      · omega
      · exact Nat.lt_succ_of_lt (h.probes_lt p hp)
    · exact Nat.lt_succ_of_lt (h.probes_lt p hp)
  refine ⟨hlt, ?_⟩
  intro p hp hunreported
  have hold : p ∈ s.probes := by
    simp only [System.step] at hp
    split at hp
    · exact hp
    · exact List.mem_of_mem_tail hp
  have hbefore : p ∈ s.unreported := by
    simp only [System.step] at hunreported
    split at hunreported
    · obtain rfl | hunreported := List.mem_cons.mp hunreported
      · exact absurd (h.probes_lt _ hold) (Nat.lt_irrefl _)
      · exact hunreported
    · exact hunreported
  by_cases htail : p ∈ s.probes.tail
  · exact h.tail_reported p htail hbefore
  · -- the probe before the new one
    have hhead : s.probes.head? = some p := by
      cases hprobes : s.probes with
      | nil => simp [hprobes] at hold
      | cons x l => simp_all
    simp only [System.step] at hp
    split at hp
    · rename_i hadmitted
      rw [Bool.and_eq_true, bne_iff_ne] at hadmitted
      exact hturn hadmitted.1 hadmitted.2 p hhead hbefore
    · exact htail hp

lemma closedByProbe_of_inTurn {e : Event} (hturn : s.ProbesInTurn e) : s.ClosedByProbe e := by
  intro hhalf hclosed
  cases e with
  | allow now =>
    exfalso
    obtain ⟨hs, -⟩ | ⟨hs, -, -⟩ | ⟨hs, -, -⟩ | ⟨-, -, ha⟩ | ⟨-, -, ha⟩ := s.breaker.allow_cases now
    · simp [hhalf] at hs
    · simp [hhalf] at hs
    · simp [hhalf] at hs
    · simp [System.step, ha, hhalf] at hclosed
    · simp [System.step, ha, hhalf] at hclosed
  | success request =>
    by_cases hmem : request ∈ s.unreported
    · exact ⟨request, hmem, rfl, hturn hhalf hmem⟩
    · simp [System.step, hmem, hhalf] at hclosed
  | timeout request elapsed now =>
    exfalso
    by_cases hmem : request ∈ s.unreported
    · by_cases hshort : elapsed < s.breaker.cfg.timeoutThreshold
      · simp [System.step, hmem, s.breaker.recordTimeout_of_short elapsed now hshort, hhalf]
          at hclosed
      · obtain ⟨hs, -⟩ | ⟨-, htrip⟩ | ⟨hs, -⟩ :=
          s.breaker.recordTimeout_of_counts elapsed now (Int.not_lt.mp hshort)
        · simp [hhalf] at hs
        · simp [System.step, hmem, htrip, CircuitBreaker.trip] at hclosed
        · simp [hhalf] at hs
    · simp [System.step, hmem, hhalf] at hclosed

lemma step_ordered (h : s.Ordered) {e : Event} (hturn : s.ProbesInTurn e) : (s.step e).Ordered := by
  cases e with
  | allow now => exact allow_ordered h hturn
  | success request => exact success_ordered h request
  | timeout request elapsed now => exact timeout_ordered h request elapsed now

lemma inTurn_of_step (h : s.Ordered) {e : Event} (hclosed : s.ClosedByProbe e)
    (hone : (s.step e).OneProbe) : s.ProbesInTurn e := by
  cases e with
  | allow now =>
    intro hadmitted hstate p hp hunreported
    have hmem : p ∈ s.probes := List.mem_of_mem_head? hp
    have heq : p = s.calls := by
      apply hone
      · simp [System.step, hadmitted, hstate, hmem]
      · simp [System.step, hadmitted, hstate]
      · simp [System.step, hadmitted, hunreported]
      · simp [System.step, hadmitted]
    have hlt := h.probes_lt p hmem
    omega
  | success request =>
    intro hhalf hmem
    have hafter : (s.step (.success request)).breaker.state = .closed := by
      simp [System.step, hmem, CircuitBreaker.recordSuccess, hhalf]
    obtain ⟨r, -, hr, hhead⟩ := hclosed hhalf hafter
    cases hr
    exact hhead
  | timeout request elapsed now => trivial

lemma probes_decide_from (h : s.Ordered) (events : List Event) :
    (EveryStep System.step System.ClosedByProbe s events ∧
      EveryState System.step System.OneProbe s events) ↔
        EveryStep System.step System.ProbesInTurn s events := by
  induction events generalizing s with
  | nil => exact ⟨fun _ => trivial, fun _ => ⟨trivial, h.oneProbe⟩⟩
  | cons e events ih =>
    constructor
    · rintro ⟨⟨hclosed, hrest⟩, -, hstates⟩
      have hturn := inTurn_of_step h hclosed hstates.head
      exact ⟨hturn, (ih (step_ordered h hturn)).mp ⟨hrest, hstates⟩⟩
    · rintro ⟨hturn, hrest⟩
      obtain ⟨hclosed, hstates⟩ := (ih (step_ordered h hturn)).mpr hrest
      exact ⟨⟨closedByProbe_of_inTurn hturn, hclosed⟩, h.oneProbe, hstates⟩

/-- Two requests are admitted while the circuit is closed. The first one trips it, and a third
one is admitted as the probe. -/
def lateReporter : System :=
  runFrom System.step (System.init ⟨10, 100, 1, 50⟩)
    [.allow 0, .allow 0, .timeout 0 10 1, .allow 60]

end Symkernel.Breaker
