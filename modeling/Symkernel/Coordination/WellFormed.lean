import Symkernel.Library.Runs
import Symkernel.Coordination.Frame

/-!
# The state of one node under arbitrary input

The term after a term is a parameter: the source adds one in `uint64` (`tickNode_eq`), an
unbounded counter adds one.
-/

namespace Symkernel.Coordination

open Library

namespace Node

variable (next : Nat → Nat)

def candidacyWith (n : Node) (draw : Nat) : Node :=
  let term := next n.currentTerm
  { n with
    role := .candidate
    currentTerm := term
    votedFor := n.id
    leaderID := ""
    votes := some {n.id}
    electionTimeout := pickTimeout n.cfg draw
    electionElapsed := 0
    history := { n.history with ballots := n.history.ballots ++ [(term, n.id)] } }

def startElectionWith (n : Node) (draw : Nat) : Node :=
  let n := n.candidacyWith next draw
  let n := n.sendPeersLocked fun peer =>
    { type := .requestVote, term := n.currentTerm, fromId := n.id, toId := peer }
  n.promoteOnMajority

def stepTimersWith (n : Node) (draw : Nat) : Node :=
  match n.role with
  | .leader => n.leaderHeartbeat.leaderQuorumCheck
  | _ =>
    let n := { n with electionElapsed := n.electionElapsed + 1 }
    if n.electionTimeout ≤ n.electionElapsed then n.startElectionWith next draw else n

def tickWith (n : Node) (draw : Nat) : Node × List Message :=
  let n := n.drainInbox.stepTimersWith next draw
  ({ n with outbox := [] }, n.outbox)

lemma tickNode_eq (n : Node) (draw : Nat) :
    n.tickNode draw = n.tickWith (fun t => (t + 1) % uint64Size) draw := rfl

/-- The calls on a node. A message of a type without a handler has no effect. -/
inductive Input where
  | receive (m : Message)
  | receiveUnknown
  | tick (draw : Nat)
  | assign

def step (n : Node) : Input → Node
  | .receive m => n.receive m
  | .receiveUnknown => n
  | .tick draw => (n.tickWith next draw).1
  | .assign => n.assign.1

structure WellFormed (n : Node) : Prop where
  leader : n.role = .leader → n.leaderID = n.id ∧ n.votedFor = n.id ∧ n.acks.isSome
  candidate : n.role = .candidate → n.votedFor = n.id ∧ n.leaderID = "" ∧
    ∃ votes, n.votes = some votes ∧ n.id ∈ votes ∧ votes.card < majorityOf n.members.length
  running : n.panicked = false

variable {next}

variable {n : Node} {m : Message}

lemma WellFormed.of_follower (hrole : n.role = .follower) (hrun : n.panicked = false) :
    n.WellFormed where
  leader h := by
    rw [hrole] at h
    cases h
  candidate h := by
    rw [hrole] at h
    cases h
  running := hrun

lemma WellFormed.congr (h : n.WellFormed) {n' : Node} (hrole : n'.role = n.role)
    (hid : n'.id = n.id) (hmembers : n'.members = n.members) (hleader : n'.leaderID = n.leaderID)
    (hvoted : n'.votedFor = n.votedFor) (hvotes : n'.votes = n.votes)
    (hacks : n'.acks.isSome = n.acks.isSome) (hrun : n'.panicked = n.panicked) : n'.WellFormed := by
  refine ⟨?_, ?_, hrun.trans h.running⟩
  · rw [hrole, hleader, hid, hvoted, hacks]
    exact h.leader
  · rw [hrole, hleader, hid, hvoted, hvotes, hmembers]
    exact h.candidate

lemma WellFormed.promoteOnMajority (hrole : n.role = .candidate) (hvoted : n.votedFor = n.id)
    (hleader : n.leaderID = "") {votes : Finset String} (hvotes : n.votes = some votes)
    (hself : n.id ∈ votes) (hrun : n.panicked = false) : n.promoteOnMajority.WellFormed := by
  unfold Node.promoteOnMajority
  split
  · refine ⟨fun _ => ⟨rfl, rfl, rfl⟩, fun h => ?_, hrun⟩
    cases h
  · rename_i hshort
    rw [hvotes, Option.getD_some, not_le] at hshort
    refine ⟨fun h => ?_, fun _ => ⟨hvoted, hleader, votes, hvotes, hself, hshort⟩, hrun⟩
    rw [hrole] at h
    cases h

section Handlers

variable (h : n.WellFormed)
include h

lemma WellFormed.adoptRequestTerm (m : Message) : (n.adoptRequestTerm m).WellFormed := by
  unfold Node.adoptRequestTerm
  split
  · exact .of_follower rfl h.running
  · exact h

lemma WellFormed.not_grants (hid : n.id ≠ "") (hm : m.fromId ≠ n.id)
    (hrole : n.role ≠ .follower) : n.grants m = false := by
  have hvoted : n.votedFor = n.id := by
    cases hcase : n.role with
    | follower => exact absurd hcase hrole
    | candidate => exact (h.candidate hcase).1
    | leader => exact (h.leader hcase).2.1
  simp [grants, hvoted, hid, Ne.symm hm]

lemma WellFormed.handleRequestVoteLocked (hid : n.id ≠ "")
    (hm : m.fromId ≠ n.id) : (n.handleRequestVoteLocked m).WellFormed := by
  have h1 := h.adoptRequestTerm m
  have hid1 := (adoptRequestTerm_extends n m).id_eq
  unfold Node.handleRequestVoteLocked
  generalize n.adoptRequestTerm m = n1 at h1 hid1
  dsimp only
  by_cases hrole : n1.role = .follower
  · split
    · exact .of_follower hrole h1.running
    · exact .of_follower hrole h1.running
  · rw [h1.not_grants (hid1 ▸ hid) (hid1 ▸ hm) hrole]
    exact h1.congr rfl rfl rfl rfl rfl rfl rfl rfl

lemma WellFormed.handleRequestVoteRespLocked (m : Message) :
    (n.handleRequestVoteRespLocked m).WellFormed := by
  unfold Node.handleRequestVoteRespLocked
  split
  · exact .of_follower rfl h.running
  split
  · exact h
  · rename_i hcandidate
    have hrole : n.role = .candidate := by
      by_contra hne
      simp [hne] at hcandidate
    obtain ⟨hvoted, hleader, votes, hvotes, hself, -⟩ := h.candidate hrole
    rw [hvotes]
    exact WellFormed.promoteOnMajority hrole hvoted hleader rfl (Finset.mem_insert_of_mem hself)
      h.running

lemma WellFormed.handleAppendEntriesLocked (m : Message) :
    (n.handleAppendEntriesLocked m).WellFormed := by
  unfold Node.handleAppendEntriesLocked
  split
  · exact h.congr rfl rfl rfl rfl rfl rfl rfl rfl
  · split
    · exact .of_follower rfl h.running
    · exact .of_follower rfl h.running

lemma WellFormed.handleAppendEntriesRespLocked (m : Message) :
    (n.handleAppendEntriesRespLocked m).WellFormed := by
  unfold Node.handleAppendEntriesRespLocked
  split
  · exact .of_follower rfl h.running
  split
  · exact h
  · rename_i hleader
    have hrole : n.role = .leader := by
      by_contra hne
      simp [hne] at hleader
    obtain ⟨acks, hacks⟩ := Option.isSome_iff_exists.mp (h.leader hrole).2.2
    rw [hacks]
    split
    · exact h.congr rfl rfl rfl rfl rfl rfl (by rw [hacks]; rfl) rfl
    · exact h

lemma WellFormed.handleLocked (hid : n.id ≠ "") (hm : m.fromId ≠ n.id) :
    (n.handleLocked m).WellFormed := by
  unfold Node.handleLocked
  split
  · exact h.handleRequestVoteLocked hid hm
  · exact h.handleRequestVoteRespLocked m
  · exact h.handleAppendEntriesLocked m
  · exact h.handleAppendEntriesRespLocked m

lemma WellFormed.leaderHeartbeat : n.leaderHeartbeat.WellFormed := by
  obtain ⟨e, ms, heq, -⟩ := leaderHeartbeat_eq n
  rw [heq]
  exact h.congr rfl rfl rfl rfl rfl rfl rfl rfl

lemma WellFormed.leaderQuorumCheck : n.leaderQuorumCheck.WellFormed := by
  unfold Node.leaderQuorumCheck
  split
  · exact h.congr rfl rfl rfl rfl rfl rfl rfl rfl
  · dsimp only
    split
    · exact .of_follower rfl h.running
    · exact h.congr rfl rfl rfl rfl rfl rfl rfl rfl

end Handlers

lemma startElectionWith_eq (next : Nat → Nat) (n : Node) (draw : Nat) :
    ∃ ms, n.startElectionWith next draw =
      Node.promoteOnMajority { n.candidacyWith next draw with outbox := n.outbox ++ ms } := by
  unfold startElectionWith
  dsimp only
  rw [sendPeersLocked_eq]
  exact ⟨_, rfl⟩

lemma WellFormed.startElectionWith (next : Nat → Nat) (h : n.WellFormed) (draw : Nat) :
    (n.startElectionWith next draw).WellFormed := by
  obtain ⟨ms, heq⟩ := startElectionWith_eq next n draw
  rw [heq]
  exact WellFormed.promoteOnMajority rfl rfl rfl rfl (Finset.mem_singleton_self _) h.running

lemma WellFormed.stepTimersWith (next : Nat → Nat) (h : n.WellFormed) (draw : Nat) :
    (n.stepTimersWith next draw).WellFormed := by
  unfold Node.stepTimersWith
  split
  · exact h.leaderHeartbeat.leaderQuorumCheck
  · dsimp only
    have hcount : { n with electionElapsed := n.electionElapsed + 1 : Node }.WellFormed :=
      h.congr rfl rfl rfl rfl rfl rfl rfl rfl
    split
    · exact hcount.startElectionWith next draw
    · exact hcount

lemma promoteOnMajority_term (n : Node) : n.promoteOnMajority.currentTerm = n.currentTerm := by
  unfold promoteOnMajority
  split <;> rfl

lemma handleLocked_term_le (n : Node) (m : Message) :
    n.currentTerm ≤ (n.handleLocked m).currentTerm := by
  unfold handleLocked
  split
  · have hadopt : n.currentTerm ≤ (n.adoptRequestTerm m).currentTerm := by
      unfold adoptRequestTerm
      split
      · rename_i hlt
        exact hlt.le
      · exact le_rfl
    unfold handleRequestVoteLocked
    generalize n.adoptRequestTerm m = n1 at hadopt
    dsimp only
    split
    · exact hadopt
    · exact hadopt
  · unfold handleRequestVoteRespLocked
    split
    · rename_i hlt
      exact hlt.le
    split
    · exact le_rfl
    split
    · exact le_rfl
    · rw [promoteOnMajority_term]
  · unfold handleAppendEntriesLocked
    split
    · exact le_rfl
    · split
      · rename_i hlt
        exact hlt.le
      · exact le_rfl
  · unfold handleAppendEntriesRespLocked
    split
    · rename_i hlt
      exact hlt.le
    split
    · exact le_rfl
    split
    · split <;> exact le_rfl
    · exact le_rfl

lemma foldl_handleLocked_term_le (ms : List Message) (n : Node) :
    n.currentTerm ≤ (ms.foldl handleLocked n).currentTerm := by
  induction ms generalizing n with
  | nil => exact le_rfl
  | cons m ms ih => exact (handleLocked_term_le n m).trans (ih _)

lemma stepTimersWith_term_le {next : Nat → Nat} (hnext : ∀ t, t ≤ next t) (n : Node)
    (draw : Nat) : n.currentTerm ≤ (n.stepTimersWith next draw).currentTerm := by
  unfold stepTimersWith
  split
  · obtain ⟨e, ms, heq, -⟩ := leaderHeartbeat_eq n
    rw [heq]
    unfold leaderQuorumCheck
    split
    · exact le_rfl
    · dsimp only
      split <;> exact le_rfl
  · dsimp only
    split
    · obtain ⟨ms, heq⟩ := startElectionWith_eq next
        { n with electionElapsed := n.electionElapsed + 1 } draw
      rw [heq, promoteOnMajority_term]
      exact hnext n.currentTerm
    · exact le_rfl

structure Sound (id : String) (n : Node) : Prop extends WellFormed n where
  id_eq : n.id = id
  inbox : ∀ m ∈ n.inbox, m.fromId ≠ id

lemma WellFormed.foldl_handleLocked (h : n.WellFormed) (hid : n.id ≠ "") {ms : List Message}
    (hms : ∀ m ∈ ms, m.fromId ≠ n.id) : (ms.foldl Node.handleLocked n).WellFormed := by
  induction ms generalizing n with
  | nil => exact h
  | cons m ms ih =>
    have heq := (handleLocked_extends n m).id_eq
    refine ih (h.handleLocked hid (hms m List.mem_cons_self)) (heq ▸ hid) fun m' hm' => ?_
    rw [heq]
    exact hms m' (List.mem_cons_of_mem m hm')

lemma stepTimersWith_id (next : Nat → Nat) (n : Node) (draw : Nat) :
    (n.stepTimersWith next draw).id = n.id ∧ (n.stepTimersWith next draw).inbox = n.inbox := by
  unfold stepTimersWith
  split
  · have hextends := (leaderHeartbeat_extends n).trans (leaderQuorumCheck_extends _)
    exact ⟨hextends.id_eq, hextends.inbox_eq⟩
  · dsimp only
    split
    · obtain ⟨ms, heq⟩ := startElectionWith_eq next
        { n with electionElapsed := n.electionElapsed + 1 } draw
      have hextends := promoteOnMajority_extends
        { candidacyWith next { n with electionElapsed := n.electionElapsed + 1 } draw with
          outbox := n.outbox ++ ms }
      rw [heq]
      exact ⟨hextends.id_eq, hextends.inbox_eq⟩
    · exact ⟨rfl, rfl⟩

lemma Sound.step {id : String} (hid : id ≠ "") (next : Nat → Nat) (h : Sound id n) {i : Input}
    (hi : ∀ m, i = .receive m → m.fromId ≠ id) : Sound id (n.step next i) := by
  cases i with
  | receive m =>
    refine ⟨h.congr rfl rfl rfl rfl rfl rfl rfl rfl, h.id_eq, fun m' hm' => ?_⟩
    obtain hm' | hm' := List.mem_append.mp hm'
    · exact h.inbox m' hm'
    · rw [List.mem_singleton.mp hm']
      exact hi m rfl
  | receiveUnknown => exact h
  | tick draw =>
    have hstart : { n with tick := (n.tick + 1) % uint64Size, inbox := [] : Node }.WellFormed :=
      h.congr rfl rfl rfl rfl rfl rfl rfl rfl
    have hdrained : n.drainInbox.WellFormed :=
      hstart.foldl_handleLocked (h.id_eq ▸ hid) fun m hm => h.id_eq ▸ h.inbox m hm
    have hextends : Extends { n with tick := (n.tick + 1) % uint64Size, inbox := [] : Node }
        n.drainInbox := foldl_handleLocked_extends _ _
    obtain ⟨htimers, hinbox⟩ := stepTimersWith_id next n.drainInbox draw
    refine ⟨(hdrained.stepTimersWith next draw).congr rfl rfl rfl rfl rfl rfl rfl rfl, ?_, ?_⟩
    · exact htimers.trans (hextends.id_eq.trans h.id_eq)
    · intro m hm
      have hempty : (n.step next (.tick draw)).inbox = [] := hinbox.trans hextends.inbox_eq
      rw [hempty] at hm
      cases hm
  | assign =>
    unfold Node.step assign
    dsimp only
    split
    · exact h
    · exact ⟨h.congr rfl rfl rfl rfl rfl rfl rfl rfl, h.id_eq, h.inbox⟩

lemma step_term_le {next : Nat → Nat} (hnext : ∀ t, t ≤ next t) (n : Node) (i : Input) :
    n.currentTerm ≤ (n.step next i).currentTerm := by
  cases i with
  | receive m => exact le_rfl
  | receiveUnknown => exact le_rfl
  | tick draw =>
    have hdrained : n.currentTerm ≤ n.drainInbox.currentTerm :=
      foldl_handleLocked_term_le n.inbox { n with tick := (n.tick + 1) % uint64Size, inbox := [] }
    exact hdrained.trans (stepTimersWith_term_le hnext _ draw)
  | assign =>
    unfold step assign
    dsimp only
    split <;> exact le_rfl

lemma newNode_sound (config : NodeConfig) (draw : Nat) : Sound config.id (newNode config draw) where
  toWellFormed := .of_follower rfl rfl
  id_eq := rfl
  inbox m hm := by cases hm

/-- Every state of a node that gets messages of other nodes is well formed, no handler writes to a
nil map, and its term never decreases. -/
theorem stays_wellFormed (config : NodeConfig) (draw : Nat) (hid : config.id ≠ "")
    (inputs : List Input) (hothers : ∀ m, .receive m ∈ inputs → m.fromId ≠ config.id) :
    EveryState (step (· + 1)) WellFormed (newNode config draw) inputs ∧
      EveryStep (step (· + 1)) (fun n i => n.currentTerm ≤ (n.step (· + 1) i).currentTerm)
        (newNode config draw) inputs := by
  have hguard : EveryStep (step (· + 1))
      (fun _ i => ∀ m, i = .receive m → m.fromId ≠ config.id) (newNode config draw) inputs :=
    EveryStep.of_forall_mem (P := fun i => ∀ m, i = Input.receive m → m.fromId ≠ config.id)
      fun i hi m hm => hothers m (hm ▸ hi)
  constructor
  · have hsound : EveryState (step (· + 1)) (Sound config.id) (newNode config draw) inputs :=
      EveryState.of_invariant (fun n i hn hi => hn.step hid _ hi) (newNode_sound config draw) hguard
    exact hsound.mono fun n hn => hn.toWellFormed
  · have hany : EveryStep (step (· + 1)) (fun _ _ => True) (newNode config draw) inputs :=
      hguard.mono fun _ _ _ => trivial
    exact hany.mono fun n i _ => step_term_le Nat.le_succ n i

/-- A vote request of a peer and the election that follows. -/
theorem elected_stays_wellFormed :
    EveryState (step (· + 1)) WellFormed (newNode ⟨"a", ["b", "c"], 0, 1, 0, 0, 0⟩ 0)
        [.receive ⟨.requestVote, 7, "b", "a", false, false, ""⟩, .tick 0, .tick 0, .assign] ∧
      EveryStep (step (· + 1)) (fun n i => n.currentTerm ≤ (n.step (· + 1) i).currentTerm)
        (newNode ⟨"a", ["b", "c"], 0, 1, 0, 0, 0⟩ 0)
        [.receive ⟨.requestVote, 7, "b", "a", false, false, ""⟩, .tick 0, .tick 0, .assign] := by
  refine stays_wellFormed _ 0 (by decide) _ fun m hm => ?_
  simp only [List.mem_cons, Input.receive.injEq, reduceCtorEq, List.not_mem_nil, or_false] at hm
  rw [hm]
  decide

end Node

end Symkernel.Coordination
