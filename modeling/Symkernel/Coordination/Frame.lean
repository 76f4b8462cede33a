import Symkernel.Coordination.Node

/-!
# What no handler changes
-/

namespace Symkernel.Coordination

namespace Node

structure Extends (n n' : Node) : Prop where
  id_eq : n'.id = n.id
  members_eq : n'.members = n.members
  inbox_eq : n'.inbox = n.inbox
  ballots_sub : ∀ b ∈ n.history.ballots, b ∈ n'.history.ballots

lemma Extends.refl (n : Node) : Extends n n :=
  ⟨rfl, rfl, rfl, fun _ hb => hb⟩

variable {n n' : Node}

lemma Extends.trans {n'' : Node} (h : Extends n n') (h' : Extends n' n'') : Extends n n'' :=
  ⟨h'.id_eq.trans h.id_eq, h'.members_eq.trans h.members_eq, h'.inbox_eq.trans h.inbox_eq,
    fun b hb => h'.ballots_sub b (h.ballots_sub b hb)⟩

structure OutboxInv (k : Nat) (n : Node) : Prop where
  term_le : n.currentTerm ≤ k
  outbox_le : ∀ m ∈ n.outbox, m.term ≤ k
  outbox_from : ∀ m ∈ n.outbox, m.fromId = n.id

variable {k : Nat}

lemma OutboxInv.mono {k' : Nat} (hk : k ≤ k') (h : OutboxInv k n) : OutboxInv k' n :=
  ⟨h.term_le.trans hk, fun m hm => (h.outbox_le m hm).trans hk, h.outbox_from⟩

lemma OutboxInv.congr (h : OutboxInv k n) (hterm : n'.currentTerm ≤ k)
    (hout : n'.outbox = n.outbox) (hid : n'.id = n.id) : OutboxInv k n' := by
  refine ⟨hterm, ?_, ?_⟩
  · rw [hout]; exact h.outbox_le
  · rw [hout, hid]; exact h.outbox_from

lemma OutboxInv.sendLocked (h : OutboxInv k n) (m : Message) (hterm : m.term ≤ k)
    (hfrom : m.fromId = n.id) : OutboxInv k (n.sendLocked m) := by
  refine ⟨h.term_le, ?_, ?_⟩
  · intro m' hm'
    rcases List.mem_append.mp hm' with hold | hnew
    · exact h.outbox_le m' hold
    · exact List.mem_singleton.mp hnew ▸ hterm
  · intro m' hm'
    rcases List.mem_append.mp hm' with hold | hnew
    · exact h.outbox_from m' hold
    · exact List.mem_singleton.mp hnew ▸ hfrom

lemma foldl_sendLocked_eq (peers : List String) (n : Node) (msg : String → Message) :
    peers.foldl (fun n peer => n.sendLocked (msg peer)) n =
      { n with outbox := n.outbox ++ peers.map msg } := by
  induction peers generalizing n with
  | nil => simp
  | cons peer peers ih =>
    rw [List.foldl_cons, ih]
    simp [sendLocked]

lemma sendPeersLocked_eq (n : Node) (msg : String → Message) :
    n.sendPeersLocked msg = { n with outbox := n.outbox ++ n.peers.map msg } :=
  foldl_sendLocked_eq n.peers n msg

lemma OutboxInv.sendPeersLocked (h : OutboxInv k n) (msg : String → Message)
    (hterm : ∀ peer, (msg peer).term ≤ k) (hfrom : ∀ peer, (msg peer).fromId = n.id) :
    OutboxInv k (n.sendPeersLocked msg) := by
  rw [sendPeersLocked_eq]
  refine ⟨h.term_le, ?_, ?_⟩
  · intro m hm
    rcases List.mem_append.mp hm with hold | hnew
    · exact h.outbox_le m hold
    · obtain ⟨peer, -, rfl⟩ := List.mem_map.mp hnew
      exact hterm peer
  · intro m hm
    rcases List.mem_append.mp hm with hold | hnew
    · exact h.outbox_from m hold
    · obtain ⟨peer, -, rfl⟩ := List.mem_map.mp hnew
      exact hfrom peer

lemma promoteOnMajority_extends (n : Node) : Extends n n.promoteOnMajority := by
  unfold promoteOnMajority
  split
  · exact ⟨rfl, rfl, rfl, fun _ hb => hb⟩
  · exact Extends.refl n

lemma OutboxInv.promoteOnMajority (h : OutboxInv k n) : OutboxInv k n.promoteOnMajority := by
  unfold Node.promoteOnMajority
  split
  · exact h.congr h.term_le rfl rfl
  · exact h

lemma promoteOnMajority_resigned (n : Node) :
    n.promoteOnMajority.history.resigned = n.history.resigned := by
  unfold promoteOnMajority
  split <;> rfl

lemma adoptRequestTerm_extends (n : Node) (m : Message) : Extends n (n.adoptRequestTerm m) := by
  unfold adoptRequestTerm
  split <;> exact ⟨rfl, rfl, rfl, fun _ hb => hb⟩

lemma handleRequestVoteLocked_extends (n : Node) (m : Message) :
    Extends n (n.handleRequestVoteLocked m) := by
  refine (adoptRequestTerm_extends n m).trans ?_
  unfold handleRequestVoteLocked
  generalize n.adoptRequestTerm m = n1
  by_cases hg : n1.grants m = true
  · simp only [hg]
    exact ⟨rfl, rfl, rfl, fun _ hb => List.mem_append_left _ hb⟩
  · simp only [hg]
    exact ⟨rfl, rfl, rfl, fun _ hb => hb⟩

lemma handleRequestVoteRespLocked_extends (n : Node) (m : Message) :
    Extends n (n.handleRequestVoteRespLocked m) := by
  unfold handleRequestVoteRespLocked
  split
  · exact ⟨rfl, rfl, rfl, fun _ hb => hb⟩
  split
  · exact Extends.refl n
  split
  · exact ⟨rfl, rfl, rfl, fun _ hb => hb⟩
  · refine Extends.trans ?_ (promoteOnMajority_extends _)
    exact ⟨rfl, rfl, rfl, fun _ hb => hb⟩

lemma handleAppendEntriesLocked_extends (n : Node) (m : Message) :
    Extends n (n.handleAppendEntriesLocked m) := by
  unfold handleAppendEntriesLocked
  split
  · exact ⟨rfl, rfl, rfl, fun _ hb => hb⟩
  · by_cases hlt : n.currentTerm < m.term
    · simp only [hlt]
      exact ⟨rfl, rfl, rfl, fun _ hb => hb⟩
    · simp only [hlt]
      exact ⟨rfl, rfl, rfl, fun _ hb => hb⟩

lemma handleAppendEntriesRespLocked_extends (n : Node) (m : Message) :
    Extends n (n.handleAppendEntriesRespLocked m) := by
  unfold handleAppendEntriesRespLocked
  split
  · exact ⟨rfl, rfl, rfl, fun _ hb => hb⟩
  split
  · exact Extends.refl n
  split
  · split <;> exact ⟨rfl, rfl, rfl, fun _ hb => hb⟩
  · exact Extends.refl n

lemma handleLocked_extends (n : Node) (m : Message) : Extends n (n.handleLocked m) := by
  unfold handleLocked
  split
  · exact handleRequestVoteLocked_extends n m
  · exact handleRequestVoteRespLocked_extends n m
  · exact handleAppendEntriesLocked_extends n m
  · exact handleAppendEntriesRespLocked_extends n m

lemma OutboxInv.handleLocked (h : OutboxInv k n) {m : Message} (hm : m.term ≤ k) :
    OutboxInv k (n.handleLocked m) := by
  unfold Node.handleLocked
  split
  · have h1 : OutboxInv k (n.adoptRequestTerm m) := by
      unfold Node.adoptRequestTerm
      split
      · exact h.congr hm rfl rfl
      · exact h
    unfold Node.handleRequestVoteLocked
    generalize n.adoptRequestTerm m = n1 at h1
    dsimp only
    by_cases hg : n1.grants m = true
    · rw [hg]
      refine OutboxInv.sendLocked ?_ _ h1.term_le rfl
      exact h1.congr h1.term_le rfl rfl
    · rw [if_neg hg]
      exact h1.sendLocked _ h1.term_le rfl
  · unfold Node.handleRequestVoteRespLocked
    split
    · exact h.congr hm rfl rfl
    split
    · exact h
    split
    · exact h.congr h.term_le rfl rfl
    · refine OutboxInv.promoteOnMajority ?_
      exact h.congr h.term_le rfl rfl
  · unfold Node.handleAppendEntriesLocked
    split
    · exact h.sendLocked _ h.term_le rfl
    · by_cases hlt : n.currentTerm < m.term
      · rw [if_pos hlt]
        refine OutboxInv.sendLocked ?_ _ hm rfl
        exact h.congr hm rfl rfl
      · rw [if_neg hlt]
        refine OutboxInv.sendLocked ?_ _ h.term_le rfl
        exact h.congr h.term_le rfl rfl
  · unfold Node.handleAppendEntriesRespLocked
    split
    · exact h.congr hm rfl rfl
    split
    · exact h
    split
    · split <;> exact h.congr h.term_le rfl rfl
    · exact h

lemma handleLocked_resigned (n : Node) (m : Message) :
    (n.handleLocked m).history.resigned = n.history.resigned := by
  unfold handleLocked
  split
  · have h1 : (n.adoptRequestTerm m).history.resigned = n.history.resigned := by
      unfold adoptRequestTerm
      split <;> rfl
    rw [← h1]
    unfold handleRequestVoteLocked
    generalize n.adoptRequestTerm m = n1
    by_cases hg : n1.grants m = true
    · simp only [hg]
      rfl
    · simp only [hg]
      rfl
  · unfold handleRequestVoteRespLocked
    split
    · rfl
    split
    · rfl
    split
    · rfl
    · exact promoteOnMajority_resigned _
  · unfold handleAppendEntriesLocked
    split
    · rfl
    · by_cases hlt : n.currentTerm < m.term
      · simp only [hlt]
        rfl
      · simp only [hlt]
        rfl
  · unfold handleAppendEntriesRespLocked
    split
    · rfl
    split
    · rfl
    split
    · split <;> rfl
    · rfl

lemma startElectionLocked_eq (n : Node) (draw : Nat) : ∃ ms, n.startElectionLocked draw =
    promoteOnMajority { n.candidacy draw with outbox := n.outbox ++ ms } := by
  unfold startElectionLocked
  dsimp only
  rw [sendPeersLocked_eq]
  exact ⟨_, rfl⟩

lemma startElectionLocked_extends (n : Node) (draw : Nat) :
    Extends n (n.startElectionLocked draw) := by
  obtain ⟨ms, heq⟩ := startElectionLocked_eq n draw
  rw [heq]
  refine Extends.trans ?_ (promoteOnMajority_extends _)
  exact ⟨rfl, rfl, rfl, fun _ hb => List.mem_append_left _ hb⟩

lemma OutboxInv.startElectionLocked (h : OutboxInv k n) (draw : Nat) :
    OutboxInv (k + 1) (n.startElectionLocked draw) := by
  have hterm : (n.currentTerm + 1) % uint64Size ≤ k + 1 :=
    (Nat.mod_le _ _).trans (Nat.succ_le_succ h.term_le)
  have hc : OutboxInv (k + 1) (n.candidacy draw) := (h.mono (Nat.le_succ k)).congr hterm rfl rfl
  exact (hc.sendPeersLocked _ (fun _ => hterm) (fun _ => rfl)).promoteOnMajority

lemma leaderHeartbeat_eq (n : Node) : ∃ e, ∃ ms : List Message,
    n.leaderHeartbeat = { n with heartbeatElapsed := e, outbox := n.outbox ++ ms } ∧
      ∀ m ∈ ms, m.term = n.currentTerm ∧ m.fromId = n.id := by
  unfold leaderHeartbeat
  dsimp only
  split
  · refine ⟨0, n.peers.map fun peer =>
      { type := .appendEntries, term := n.currentTerm, fromId := n.id, toId := peer,
        leaderID := n.id }, ?_, ?_⟩
    · unfold broadcastHeartbeatLocked
      rw [sendPeersLocked_eq]
    · intro m hm
      obtain ⟨peer, -, rfl⟩ := List.mem_map.mp hm
      exact ⟨rfl, rfl⟩
  · exact ⟨n.heartbeatElapsed + 1, [], by simp, by simp⟩

lemma OutboxInv.leaderHeartbeat (h : OutboxInv k n) : OutboxInv k n.leaderHeartbeat := by
  obtain ⟨e, ms, heq, hms⟩ := leaderHeartbeat_eq n
  rw [heq]
  refine ⟨h.term_le, ?_, ?_⟩
  · intro m hm
    rcases List.mem_append.mp hm with hold | hnew
    · exact h.outbox_le m hold
    · exact (hms m hnew).1 ▸ h.term_le
  · intro m hm
    rcases List.mem_append.mp hm with hold | hnew
    · exact h.outbox_from m hold
    · exact (hms m hnew).2

lemma leaderHeartbeat_extends (n : Node) : Extends n n.leaderHeartbeat := by
  obtain ⟨e, ms, heq, -⟩ := leaderHeartbeat_eq n
  rw [heq]
  exact ⟨rfl, rfl, rfl, fun _ hb => hb⟩

lemma leaderQuorumCheck_extends (n : Node) : Extends n n.leaderQuorumCheck := by
  unfold leaderQuorumCheck
  split
  · exact ⟨rfl, rfl, rfl, fun _ hb => hb⟩
  · dsimp only
    split <;> exact ⟨rfl, rfl, rfl, fun _ hb => hb⟩

lemma OutboxInv.leaderQuorumCheck (h : OutboxInv k n) : OutboxInv k n.leaderQuorumCheck := by
  unfold Node.leaderQuorumCheck
  split
  · exact h.congr h.term_le rfl rfl
  · dsimp only
    split <;> exact h.congr h.term_le rfl rfl

lemma stepTimersLocked_extends (n : Node) (draw : Nat) : Extends n (n.stepTimersLocked draw) := by
  unfold stepTimersLocked
  split
  · exact (leaderHeartbeat_extends n).trans (leaderQuorumCheck_extends _)
  · dsimp only
    split
    · refine Extends.trans ?_ (startElectionLocked_extends _ draw)
      exact ⟨rfl, rfl, rfl, fun _ hb => hb⟩
    · exact ⟨rfl, rfl, rfl, fun _ hb => hb⟩

lemma OutboxInv.stepTimersLocked (h : OutboxInv k n) (draw : Nat) :
    OutboxInv (k + 1) (n.stepTimersLocked draw) := by
  unfold Node.stepTimersLocked
  split
  · exact h.leaderHeartbeat.leaderQuorumCheck.mono (Nat.le_succ k)
  · dsimp only
    split
    · refine OutboxInv.startElectionLocked ?_ draw
      exact h.congr h.term_le rfl rfl
    · refine OutboxInv.mono (Nat.le_succ k) ?_
      exact h.congr h.term_le rfl rfl

def stepsDown (n : Node) : Bool :=
  n.role = .leader && n.leaderHeartbeat.losesQuorum

lemma stepTimersLocked_resigned (n : Node) (draw : Nat) (hstay : n.stepsDown = false) :
    (n.stepTimersLocked draw).history.resigned = n.history.resigned := by
  unfold stepTimersLocked
  split
  case h_1 hrole =>
    have hkeep : n.leaderHeartbeat.history = n.history := by
      obtain ⟨e, ms, heq, -⟩ := leaderHeartbeat_eq n
      rw [heq]
    have hquorum : n.leaderHeartbeat.losesQuorum = false := by
      simpa [stepsDown, hrole] using hstay
    rw [← hkeep]
    generalize n.leaderHeartbeat = n1 at hquorum
    unfold leaderQuorumCheck
    by_cases hq : n1.hasQuorumLocked = true
    · rw [if_pos hq]
    · rw [if_neg hq]
      simp only [losesQuorum, hq, Bool.not_false, Bool.true_and, decide_eq_false_iff_not] at hquorum
      rw [if_neg hquorum]
  case h_2 =>
    dsimp only
    split
    · obtain ⟨ms, heq⟩ := startElectionLocked_eq { n with electionElapsed := n.electionElapsed + 1 } draw
      rw [heq, promoteOnMajority_resigned]
      rfl
    · rfl

lemma foldl_handleLocked_extends (ms : List Message) (n : Node) :
    Extends n (ms.foldl handleLocked n) := by
  induction ms generalizing n with
  | nil => exact Extends.refl n
  | cons m ms ih => exact (handleLocked_extends n m).trans (ih _)

lemma foldl_handleLocked_resigned (ms : List Message) (n : Node) :
    (ms.foldl handleLocked n).history.resigned = n.history.resigned := by
  induction ms generalizing n with
  | nil => rfl
  | cons m ms ih => rw [List.foldl_cons, ih, handleLocked_resigned]

lemma OutboxInv.foldl_handleLocked {ms : List Message} (hms : ∀ m ∈ ms, m.term ≤ k)
    (h : OutboxInv k n) : OutboxInv k (ms.foldl Node.handleLocked n) := by
  induction ms generalizing n with
  | nil => exact h
  | cons m ms ih =>
    exact ih (fun m' hm' => hms m' (List.mem_cons_of_mem m hm'))
      (h.handleLocked (hms m List.mem_cons_self))

end Node

end Symkernel.Coordination
