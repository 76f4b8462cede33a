import Symkernel.Sharding.Membership

/-!
# Histories of a node manager

A manager over a new ring, with the snapshots it has sent, run through any sequence of calls.
-/

namespace Symkernel.Sharding

open Symkernel.Library Finmap NodeManager

/-- A manager and the snapshots that its callback has received, the newest one first. -/
structure System where
  manager : NodeManager
  sent : List Snapshot

def lastKeys : List Snapshot → Finset String
  | [] => ∅
  | snap :: _ => snap.keys

namespace System

section Runs

variable (hashKey : String → Hash) (sortSlice : SliceSort VirtualNode.hash)

def step (s : System) (e : Event) : System :=
  let result := s.manager.call hashKey sortSlice e
  { manager := result.1, sent := result.2.toList ++ s.sent }

def start (ringOpts : List ℤ) (opts : NodeManagerOptions) : System :=
  { manager := newNodeManager (newRing ringOpts) opts, sent := [] }

def after (ringOpts : List ℤ) (opts : NodeManagerOptions) (events : List Event) : System :=
  runFrom (step hashKey sortSlice) (start ringOpts opts) events

/-- The invariant of a run: the three key sets agree. -/
structure InStep (opts : NodeManagerOptions) (s : System) : Prop where
  opts_eq : s.manager.opts = opts.withDefaults
  ring : s.manager.nodes.keys = s.manager.ring.nodes
  told : opts.onChange = true → s.manager.nodes.keys = lastKeys s.sent

lemma InStep.start (ringOpts : List ℤ) (opts : NodeManagerOptions) :
    InStep opts (start ringOpts opts) := by
  obtain ⟨n, -, heq⟩ := newRing_eq ringOpts
  refine ⟨rfl, ?_, fun _ => rfl⟩
  show (∅ : GoMap String NodeInfo).keys = (newRing ringOpts).nodes
  rw [heq, keys_empty]

lemma InStep.step {opts : NodeManagerOptions} {s : System} (h : InStep opts s) (e : Event) :
    InStep opts (step hashKey sortSlice s e) := by
  have hcall := call_coherent hashKey sortSlice h.ring e
  refine ⟨hcall.opts.trans h.opts_eq, hcall.ring, fun hon => ?_⟩
  have hon' : s.manager.opts.onChange = true := by
    rw [h.opts_eq]
    exact hon
  rw [System.step]
  generalize s.manager.call hashKey sortSlice e = result at hcall
  obtain ⟨nm, sent⟩ := result
  cases sent with
  | none => exact (hcall.untold hon' rfl).trans (h.told hon)
  | some snap => exact (hcall.told snap rfl).symm

lemma after_inStep (ringOpts : List ℤ) (opts : NodeManagerOptions) (events : List Event) :
    InStep opts (after hashKey sortSlice ringOpts opts events) := by
  induction events using List.reverseRecOn with
  | nil => exact InStep.start ringOpts opts
  | append_singleton events e ih =>
    rw [after, runFrom_append]
    exact ih.step hashKey sortSlice e

end Runs

end System

namespace Event

def reading : Event → Option ℤ
  | .join now _ | .heartbeat now _ | .checkHealth now _ => some now
  | .leave _ => none

def contact (id : String) : Event → Option ℤ
  | .join now nodeID | .heartbeat now nodeID => if nodeID = id then some now else none
  | .leave _ | .checkHealth _ _ => none

end Event

/-- The clock never goes back from one call to a later one. -/
def ClockInOrder (events : List Event) : Prop :=
  (events.filterMap Event.reading).Pairwise (· ≤ ·)

def lastContact (id : String) (events : List Event) : Option ℤ :=
  (events.filterMap (Event.contact id)).getLast?

variable {id : String} {e : Event}

lemma lastContact_append_of_none (h : e.contact id = none) (events : List Event) :
    lastContact id (events ++ [e]) = lastContact id events := by
  simp [lastContact, h]

lemma lastContact_append_of_some {t : ℤ} (h : e.contact id = some t) (events : List Event) :
    lastContact id (events ++ [e]) = some t := by
  simp [lastContact, h]

lemma reading_of_contact {t : ℤ} (h : e.contact id = some t) : e.reading = some t := by
  cases e with
  | join now nodeID | heartbeat now nodeID =>
    rw [Event.contact] at h
    split at h
    next => exact h
    next => cases h
  | leave nodeID | checkHealth now order => cases h

lemma lastContact_le {front : List Event} {seen now : ℤ} (hclock : ClockInOrder (front ++ [e]))
    (he : e.reading = some now) (h : lastContact id front = some seen) : seen ≤ now := by
  rw [ClockInOrder, List.filterMap_append, List.pairwise_append] at hclock
  obtain ⟨e', he', hcontact⟩ := List.mem_filterMap.mp (List.mem_of_getLast? h)
  refine hclock.2.2 seen ?_ now (by simp [he])
  exact List.mem_filterMap.mpr ⟨e', he', reading_of_contact hcontact⟩

lemma silence_of_sub {now seen d : ℤ} (hle : seen ≤ now) (h : sub now seen ≥ d) :
    now - seen ≥ d := by
  unfold sub at h
  omega

section Tracking

variable (hashKey : String → Hash) (sortSlice : SliceSort VirtualNode.hash) (ringOpts : List ℤ)
  (opts : NodeManagerOptions)

def stateAfter (events : List Event) (id : String) : Option NodeState :=
  ((System.after hashKey sortSlice ringOpts opts events).manager.nodes.lookup id).map
    NodeInfo.state

/-- A health check of the history has turned the node from healthy to suspect, and nothing has
been heard from it since. -/
def MarkedSuspect (events : List Event) (id : String) : Prop :=
  ∃ front now order back, events = front ++ .checkHealth now order :: back ∧
    stateAfter hashKey sortSlice ringOpts opts front id = some .healthy ∧
    stateAfter hashKey sortSlice ringOpts opts (front ++ [.checkHealth now order]) id =
      some .suspect ∧
    ∀ e ∈ back, e.contact id = none

structure Tracked (events : List Event) (id : String) (info : NodeInfo) : Prop where
  seen : lastContact id events = some info.lastSeen
  present : info.state ≠ .down
  marked : info.state = .suspect → MarkedSuspect hashKey sortSlice ringOpts opts events id

variable {hashKey sortSlice ringOpts opts}

lemma lookup_after_append (events : List Event) (e : Event) (id : String) :
    (System.after hashKey sortSlice ringOpts opts (events ++ [e])).manager.nodes.lookup id =
      NodeManager.effect opts.withDefaults e id
        ((System.after hashKey sortSlice ringOpts opts events).manager.nodes.lookup id) := by
  have hopts := (System.after_inStep hashKey sortSlice ringOpts opts events).opts_eq
  rw [← hopts, ← lookup_call hashKey sortSlice]
  rw [System.after, runFrom_append]
  rfl

/-- The entry of a node is the result of the calls' effects on it alone. -/
lemma lookup_after (events : List Event) (id : String) :
    (System.after hashKey sortSlice ringOpts opts events).manager.nodes.lookup id =
      events.foldl (fun entry e => NodeManager.effect opts.withDefaults e id entry) none := by
  induction events using List.reverseRecOn with
  | nil => rfl
  | append_singleton events e ih => rw [lookup_after_append, ih, List.foldl_append]; rfl

variable {events : List Event} {id : String}

lemma MarkedSuspect.append {e : Event}
    (h : MarkedSuspect hashKey sortSlice ringOpts opts events id) (he : e.contact id = none) :
    MarkedSuspect hashKey sortSlice ringOpts opts (events ++ [e]) id := by
  obtain ⟨front, now, order, back, rfl, hbefore, hafter, hquiet⟩ := h
  refine ⟨front, now, order, back ++ [e], by simp, hbefore, hafter, fun e' he' => ?_⟩
  rw [List.mem_append, List.mem_singleton] at he'
  obtain he' | rfl := he'
  · exact hquiet e' he'
  · exact he

variable {info : NodeInfo}

lemma Tracked.append {e : Event} (h : Tracked hashKey sortSlice ringOpts opts events id info)
    (he : e.contact id = none) :
    Tracked hashKey sortSlice ringOpts opts (events ++ [e]) id info where
  seen := (lastContact_append_of_none he events).trans h.seen
  present := h.present
  marked hsuspect := (h.marked hsuspect).append he

lemma Tracked.of_contact {e : Event} {now : ℤ} (he : e.contact id = some now)
    (entry : Option NodeInfo) : Tracked hashKey sortSlice ringOpts opts (events ++ [e]) id
      (NodeManager.contacted now id entry) := by
  have hstate : (contacted now id entry).state = .healthy := by
    cases entry <;> rfl
  refine ⟨?_, by simp [hstate], by simp [hstate]⟩
  rw [lastContact_append_of_some he]
  cases entry <;> rfl

lemma checked_cases (opts : NodeManagerOptions) (now : ℤ) (h : info.state ≠ .down) :
    NodeManager.checked opts now info = some info ∨
    (info.state = .healthy ∧
      NodeManager.checked opts now info = some { info with state := .suspect }) ∨
    (info.state = .suspect ∧ sub now info.lastSeen ≥ opts.downAfter ∧
      NodeManager.checked opts now info = none) := by
  cases hstate : info.state with
  | healthy =>
    by_cases hlate : sub now info.lastSeen ≥ opts.suspectAfter <;> simp [checked, hstate, hlate]
  | suspect =>
    by_cases hlate : sub now info.lastSeen ≥ opts.downAfter <;> simp [checked, hstate, hlate]
  | down => exact absurd hstate h

lemma Tracked.of_mark {now : ℤ} {order : RangeOrder String}
    (h : Tracked hashKey sortSlice ringOpts opts events id info)
    (hentry : (System.after hashKey sortSlice ringOpts opts events).manager.nodes.lookup id =
      some info) (hhealthy : info.state = .healthy)
    (hmark : NodeManager.checked opts.withDefaults now info = some { info with state := .suspect }) :
    Tracked hashKey sortSlice ringOpts opts (events ++ [.checkHealth now order]) id
      { info with state := .suspect } := by
  refine ⟨(lastContact_append_of_none rfl events).trans h.seen, by simp, fun _ => ?_⟩
  refine ⟨events, now, order, [], rfl, ?_, ?_, by simp⟩
  · rw [stateAfter, hentry, Option.map_some, hhealthy]
  · rw [stateAfter, lookup_after_append, hentry, effect, Option.bind_some, hmark, Option.map_some]

lemma tracked_after (events : List Event)
    (hentry : (System.after hashKey sortSlice ringOpts opts events).manager.nodes.lookup id =
      some info) : Tracked hashKey sortSlice ringOpts opts events id info := by
  induction events using List.reverseRecOn generalizing info with
  | nil => simp [System.after, System.start, newNodeManager] at hentry
  | append_singleton events e ih =>
    rw [lookup_after_append] at hentry
    cases e with
    | join now nodeID | heartbeat now nodeID =>
      rw [effect] at hentry
      split at hentry
      next heq =>
        subst heq
        obtain rfl := Option.some.inj hentry
        exact Tracked.of_contact (by simp [Event.contact]) _
      next hne => exact (ih hentry).append (by simp [Event.contact, Ne.symm hne])
    | leave nodeID =>
      rw [effect] at hentry
      split at hentry
      next => cases hentry
      next => exact (ih hentry).append rfl
    | checkHealth now order =>
      obtain ⟨old, hold, hchecked⟩ := Option.bind_eq_some_iff.mp hentry
      have htracked := ih hold
      obtain hsame | ⟨hhealthy, hmark⟩ | ⟨-, -, hdrop⟩ :=
        checked_cases opts.withDefaults now htracked.present
      · obtain rfl := Option.some.inj (hsame.symm.trans hchecked)
        exact htracked.append rfl
      · obtain rfl := Option.some.inj (hmark.symm.trans hchecked)
        exact htracked.of_mark hold hhealthy hmark
      · simp [hdrop] at hchecked

end Tracking

/-- After every sequence of calls the map and the ring have the same keys, and so has the last
snapshot when a callback is installed. A health check drops a node only if an earlier check of
the history has marked it, nothing was heard from it since, and it has been silent for
`DownAfter`. -/
theorem manager_ring_snapshot_in_step (hashKey : String → Hash)
    (sortSlice : SliceSort VirtualNode.hash) (ringOpts : List ℤ) (opts : NodeManagerOptions)
    (events : List Event) (hclock : ClockInOrder events) :
    (System.after hashKey sortSlice ringOpts opts events).manager.nodes.keys =
      (System.after hashKey sortSlice ringOpts opts events).manager.ring.nodes ∧
    (opts.onChange = true →
      (System.after hashKey sortSlice ringOpts opts events).manager.nodes.keys =
        lastKeys (System.after hashKey sortSlice ringOpts opts events).sent) ∧
    (∀ front now order id, events = front ++ [.checkHealth now order] →
      id ∈ (System.after hashKey sortSlice ringOpts opts front).manager.nodes.keys →
      id ∉ (System.after hashKey sortSlice ringOpts opts events).manager.nodes.keys →
      MarkedSuspect hashKey sortSlice ringOpts opts front id ∧
        ∃ seen, lastContact id front = some seen ∧ now - seen ≥ opts.withDefaults.downAfter) := by
  have hstep := System.after_inStep hashKey sortSlice ringOpts opts events
  refine ⟨hstep.ring, hstep.told, ?_⟩
  rintro front now order id rfl hbefore hafter
  obtain ⟨info, hentry⟩ := Finmap.mem_iff.mp (Finmap.mem_keys.mp hbefore)
  have htracked := tracked_after front hentry
  rw [mem_keys, ← lookup_eq_none, lookup_after_append, hentry, effect] at hafter
  obtain hsame | ⟨-, hmark⟩ | ⟨hsuspect, hlate, -⟩ :=
    checked_cases opts.withDefaults now htracked.present
  · simp [hsame] at hafter
  · simp [hmark] at hafter
  · have hle := lastContact_le hclock rfl htracked.seen
    exact ⟨htracked.marked hsuspect, info.lastSeen, htracked.seen, silence_of_sub hle hlate⟩

def quickOptions (onChange : Bool) : NodeManagerOptions where
  suspectAfter := 2
  downAfter := 3
  checkInterval := 1
  onChange := onChange

def quickHistory : List Event :=
  [.join 0 "a", .heartbeat 1 "b", .checkHealth 2 (.ascending String), .heartbeat 3 "b"]

theorem quickHistory_drops_marked :
    MarkedSuspect (fun _ => 0) (.insertion _) [1] (quickOptions true) quickHistory "a" ∧
      ∃ seen, lastContact "a" quickHistory = some seen ∧ 4 - seen ≥ 3 :=
  (manager_ring_snapshot_in_step (fun _ => 0) (.insertion _) [1] (quickOptions true)
    (quickHistory ++ [.checkHealth 4 (.ascending String)])
    (by simp [ClockInOrder, quickHistory, Event.reading])).2.2 quickHistory 4 (.ascending String) "a"
    rfl
    (by
      rw [mem_keys, ← lookup_isSome, lookup_after]
      decide)
    (by
      rw [mem_keys, ← lookup_eq_none, lookup_after]
      decide)

/-- Without a callback no snapshot is ever sent, so a manager with a node differs from it. -/
theorem unobserved_manager_differs_from_snapshot :
    (System.after (fun _ => 0) (.insertion _) [1] (quickOptions false)
      [.join 0 "a"]).manager.nodes.keys ≠
    lastKeys (System.after (fun _ => 0) (.insertion _) [1] (quickOptions false)
      [.join 0 "a"]).sent := by
  decide

end Symkernel.Sharding
