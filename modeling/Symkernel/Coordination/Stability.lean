import Symkernel.Coordination.Leadership
import Symkernel.Coordination.LocalCluster

/-!
# A stable leader
-/

namespace Symkernel.Coordination

open Node LocalCluster List

namespace Stability

variable {ids : List String} {X j : String} {n : Node}

def voteRequest (X j : String) : Message :=
  { type := .requestVote, term := 1, fromId := X, toId := j }

def voteGrant (X j : String) : Message :=
  { type := .requestVoteResp, term := 1, fromId := j, toId := X, voteGranted := true }

def heartbeat (X j : String) : Message :=
  { type := .appendEntries, term := 1, fromId := X, toId := j, leaderID := X }

def ack (X j : String) : Message :=
  { type := .appendEntriesResp, term := 1, fromId := j, toId := X, success := true }

structure Member (ids : List String) (j : String) (n : Node) : Prop where
  heartbeatTicks : n.cfg.heartbeatTicks = 1
  electionTicksMin : n.cfg.electionTicksMin = 8
  electionTicksMax : n.cfg.electionTicksMax = 15
  quorumLossTicks : n.cfg.quorumLossTicks = 5
  quorumAckTicks : n.cfg.quorumAckTicks = 3
  id : n.id = j
  peers : n.peers.Perm (ids.erase j)
  members : n.members.length = ids.length
  timeout : 8 ≤ n.electionTimeout
  outbox : n.outbox = []

structure Idle (ids : List String) (j : String) (n : Node) : Prop extends Member ids j n where
  role : n.role = .follower
  term : n.currentTerm = 0

structure Voted (ids : List String) (j : String) (n : Node) : Prop extends Member ids j n where
  role : n.role = .follower
  term : n.currentTerm = 1

structure Follows (ids : List String) (X j : String) (n : Node) : Prop
    extends Voted ids j n where
  leader : n.leaderID = X

structure Campaigns (ids : List String) (X : String) (n : Node) : Prop
    extends Member ids X n where
  role : n.role = .candidate
  term : n.currentTerm = 1
  votes : n.votes = some {X}
  minority : 1 < majorityOf ids.length
  inbox : n.inbox = []

structure Reigns (ids : List String) (X : String) (n : Node) : Prop
    extends Member ids X n where
  leads : LeaderOf n 1
  acks : ∃ acks, n.acks = some acks
  elapsed : 0 ≤ n.heartbeatElapsed
  inbox : n.inbox = []

lemma pickTimeout_ge (hmin : n.cfg.electionTicksMin = 8) (hmax : n.cfg.electionTicksMax = 15)
    (draw : Nat) : 8 ≤ pickTimeout n.cfg draw := by
  unfold pickTimeout
  rw [hmin, hmax]
  dsimp only
  omega

lemma stepTimersLocked_waits {draw : Nat} (hrole : n.role = .follower)
    (htimeout : n.electionElapsed + 1 < n.electionTimeout) :
    n.stepTimersLocked draw = { n with electionElapsed := n.electionElapsed + 1 } := by
  unfold stepTimersLocked
  rw [hrole]
  rw [if_neg (not_le.mpr htimeout)]

lemma Idle.tick_waits (h : Idle ids j n) (hinbox : n.inbox = []) (draw : Nat)
    (htimeout : n.electionElapsed + 1 < n.electionTimeout) :
    Idle ids j (n.tickNode draw).1 ∧ (n.tickNode draw).1.inbox = [] ∧ (n.tickNode draw).2 = [] := by
  have htick : n.drainInbox.stepTimersLocked draw =
      { n.drainInbox with electionElapsed := n.electionElapsed + 1 } := by
    unfold drainInbox
    rw [hinbox]
    exact stepTimersLocked_waits h.role htimeout
  unfold tickNode
  rw [htick]
  unfold drainInbox
  rw [hinbox]
  exact ⟨{ h with outbox := rfl }, rfl, h.outbox⟩

lemma Idle.tick_grants (h : Idle ids j n) (hinbox : n.inbox = [voteRequest X j]) (draw : Nat) :
    Voted ids j (n.tickNode draw).1 ∧ (n.tickNode draw).1.inbox = [] ∧
      (n.tickNode draw).2 = [voteGrant X j] := by
  have hdrain : ∃ ballots, n.drainInbox = { n.started with
        currentTerm := 1, role := .follower, votedFor := X, leaderID := "", electionElapsed := 0
        history := { n.history with ballots := ballots }, outbox := [voteGrant X j] } := by
    refine ⟨n.history.ballots ++ [(1, X)], ?_⟩
    unfold drainInbox
    rw [hinbox]
    simp [handleLocked, handleRequestVoteLocked, adoptRequestTerm, grants, sendLocked, voteRequest,
      voteGrant, started, h.term, h.outbox, h.id]
  obtain ⟨ballots, hdrain⟩ := hdrain
  have htimeout : (0 : Int) + 1 < n.electionTimeout := by
    have := h.timeout
    omega
  unfold tickNode
  rw [hdrain, stepTimersLocked_waits rfl htimeout]
  exact ⟨{ h with role := rfl, term := rfl, outbox := rfl }, rfl, rfl⟩

lemma Voted.tick_follows (h : Voted ids j n) (hinbox : n.inbox = [heartbeat X j]) (draw : Nat) :
    Follows ids X j (n.tickNode draw).1 ∧ (n.tickNode draw).1.inbox = [] ∧
      (n.tickNode draw).2 = [ack X j] := by
  have hdrain : n.drainInbox = { n.started with
        role := .follower, leaderID := X, electionElapsed := 0, outbox := [ack X j] } := by
    unfold drainInbox
    rw [hinbox]
    simp [handleLocked, handleAppendEntriesLocked, sendLocked, heartbeat, ack, started, h.term,
      h.outbox, h.id]
  have htimeout : (0 : Int) + 1 < n.electionTimeout := by
    have := h.timeout
    omega
  unfold tickNode
  rw [hdrain, stepTimersLocked_waits rfl htimeout]
  exact ⟨{ h with role := rfl, leader := rfl, outbox := rfl }, rfl, rfl⟩

/-! ### The ticks of the leader -/

lemma tick_reigns (hmember : Member ids X n.drainInbox) (hleads : LeaderOf n.drainInbox 1)
    (hacks : ∃ acks, n.drainInbox.acks = some acks) (helapsed : 0 ≤ n.drainInbox.heartbeatElapsed)
    (hinbox : n.drainInbox.inbox = [])
    (hquorum : n.drainInbox.hasQuorumLocked = true ∨ n.drainInbox.quorumMissTicks = 0)
    (draw : Nat) : ∃ x, Reigns ids X x ∧
      n.tickNode draw = (x, n.drainInbox.peers.map (heartbeat X)) := by
  unfold tickNode
  generalize n.drainInbox = d at *
  have hbeat : d.leaderHeartbeat =
      { d with heartbeatElapsed := 0, outbox := d.peers.map (heartbeat X) } := by
    unfold leaderHeartbeat broadcastHeartbeatLocked
    dsimp only
    rw [if_pos (by rw [hmember.heartbeatTicks]; omega), sendPeersLocked_eq]
    simp [heartbeat, hmember.outbox, hmember.id, hleads.2]
  have hstep : d.stepTimersLocked draw = d.leaderHeartbeat.leaderQuorumCheck := by
    simp only [stepTimersLocked, hleads.1]
  have hcheck : ∃ misses, d.leaderHeartbeat.leaderQuorumCheck =
      { d.leaderHeartbeat with quorumMissTicks := misses } := by
    unfold leaderQuorumCheck
    by_cases hq : d.leaderHeartbeat.hasQuorumLocked = true
    · rw [if_pos hq]
      exact ⟨0, rfl⟩
    · rw [if_neg hq]
      have hzero : d.quorumMissTicks = 0 := by
        refine hquorum.resolve_left fun h => hq ?_
        exact (hasQuorumLocked_congr (leaderHeartbeat_setup d) (by rw [hbeat])).trans h
      have hlow : ¬ d.cfg.quorumLossTicks ≤ d.quorumMissTicks + 1 := by
        rw [hmember.quorumLossTicks, hzero]
        decide
      rw [hbeat]
      rw [if_neg hlow]
      exact ⟨_, rfl⟩
  obtain ⟨misses, hcheck⟩ := hcheck
  rw [hstep, hcheck, hbeat]
  refine ⟨{ d with heartbeatElapsed := 0, outbox := [], quorumMissTicks := misses }, ?_, rfl⟩
  exact { hmember with outbox := rfl, leads := hleads, acks := hacks, elapsed := le_refl 0
                       inbox := hinbox }

structure Hearing (ids : List String) (X : String) (heard : List String) (n : Node) : Prop
    extends Reigns ids X n where
  heard : ∀ j ∈ heard, n.acks.bind (· j) = some n.tick

variable {heard voters : List String}

lemma Hearing.handleLocked (h : Hearing ids X heard n) :
    Hearing ids X (heard ++ [j]) (n.handleLocked (ack X j)) := by
  obtain ⟨acks, hacks⟩ := h.acks
  have heq : n.handleLocked (ack X j) =
      { n with acks := some (Function.update acks j (some n.tick)) } := by
    simp [Node.handleLocked, handleAppendEntriesRespLocked, ack, h.leads.1, h.leads.2, hacks]
  rw [heq]
  refine { h with acks := ⟨_, rfl⟩, heard := ?_ }
  intro k hk
  by_cases hkj : k = j
  · subst hkj
    simp
  · have hold : k ∈ heard := by simpa [hkj] using hk
    have := h.heard k hold
    rw [hacks] at this
    simpa [hkj] using this

lemma Hearing.foldl_handleLocked (h : Hearing ids X heard n) (senders : List String) :
    Hearing ids X (heard ++ senders) ((senders.map (ack X)).foldl Node.handleLocked n) := by
  induction senders generalizing n heard with
  | nil => simpa using h
  | cons j senders ih =>
    have hnext := ih (h.handleLocked (j := j))
    rw [append_assoc] at hnext
    exact hnext

lemma Hearing.hasQuorumLocked (h : Hearing ids X heard n) (hX : X ∈ ids)
    (hall : ∀ j ∈ n.peers, j ∈ heard) : n.hasQuorumLocked = true := by
  have hcount : n.peers.countP n.freshAck = n.peers.length := by
    rw [countP_eq_length]
    intro j hj
    unfold freshAck
    rw [h.heard j (hall j hj)]
    dsimp only
    rw [Nat.add_sub_cancel_left, Nat.mod_self, h.quorumAckTicks]
    decide
  have hlength : n.peers.length + 1 = ids.length := by
    rw [h.peers.length_eq, length_erase_add_one hX]
  unfold Node.hasQuorumLocked
  rw [hcount, h.members]
  refine decide_eq_true ?_
  unfold majorityOf
  omega

lemma Reigns.tick_stays (h : Reigns ids X n) (hX : X ∈ ids) {senders : List String}
    (hsenders : senders.Perm (ids.erase X)) (draw : Nat) :
    ∃ x, ∃ peers : List String, Reigns ids X x ∧ peers.Perm (ids.erase X) ∧
      { n with inbox := senders.map (ack X) }.tickNode draw = (x, peers.map (heartbeat X)) := by
  set m : Node := { n with inbox := senders.map (ack X) } with hm
  have hstart : Hearing ids X [] n.started :=
    { h with acks := h.acks, leads := h.leads, inbox := rfl, heard := by simp }
  have hdrain : Hearing ids X senders m.drainInbox := by
    have hfold := hstart.foldl_handleLocked senders
    exact hfold
  have hquorum : m.drainInbox.hasQuorumLocked = true := by
    refine hdrain.hasQuorumLocked hX ?_
    intro j hj
    rw [hsenders.mem_iff, ← hdrain.peers.mem_iff]
    exact hj
  obtain ⟨x, hx, htick⟩ := tick_reigns hdrain.toMember hdrain.leads hdrain.acks hdrain.elapsed
    hdrain.inbox (.inl hquorum) draw
  exact ⟨x, _, hx, hdrain.peers, htick⟩

/-! ### The ticks of a candidate -/

/-- The candidate has counted the votes of `voters`: with a majority it leads, without one it is
still a candidate. -/
structure Counting (ids : List String) (X : String) (voters : List String) (n : Node) : Prop
    extends Member ids X n where
  term : n.currentTerm = 1
  inbox : n.inbox = []
  counted : (n.role = .candidate ∧ n.votes = some (insert X voters.toFinset) ∧
      (insert X voters.toFinset).card < majorityOf ids.length) ∨
    (n.role = .leader ∧ (∃ acks, n.acks = some acks) ∧ 0 ≤ n.heartbeatElapsed ∧
      n.quorumMissTicks = 0)

lemma promoteOnMajority_outbox (n : Node) (out : List Message) :
    { n.promoteOnMajority with outbox := out } = { n with outbox := out }.promoteOnMajority := by
  unfold promoteOnMajority
  split <;> rfl

lemma promoteOnMajority_outbox_eq (n : Node) : n.promoteOnMajority.outbox = n.outbox := by
  unfold promoteOnMajority
  split <;> rfl

lemma promoteOnMajority_counting (h : Member ids X n) (hterm : n.currentTerm = 1)
    (hinbox : n.inbox = []) (hrole : n.role = .candidate)
    (hvotes : n.votes = some (insert X voters.toFinset)) :
    Counting ids X voters n.promoteOnMajority := by
  unfold promoteOnMajority
  rw [hvotes, h.members, Option.getD_some]
  by_cases hmajority : majorityOf ids.length ≤ (insert X voters.toFinset).card
  · rw [if_pos hmajority]
    refine { h with term := hterm, inbox := hinbox, counted := .inr ⟨rfl, ⟨_, rfl⟩, ?_, rfl⟩ }
    show 0 ≤ n.cfg.heartbeatTicks
    rw [h.heartbeatTicks]
    decide
  · rw [if_neg hmajority]
    exact { h with term := hterm, inbox := hinbox
                   counted := .inl ⟨hrole, hvotes, not_le.mp hmajority⟩ }

lemma Counting.handleLocked (h : Counting ids X voters n) :
    Counting ids X (voters ++ [j]) (n.handleLocked (voteGrant X j)) := by
  rcases h.counted with ⟨hrole, hvotes, -⟩ | hleads
  · have heq : n.handleLocked (voteGrant X j) =
        { n with votes := some (insert j (insert X voters.toFinset)) }.promoteOnMajority := by
      simp [Node.handleLocked, handleRequestVoteRespLocked, voteGrant, h.term, hrole, hvotes]
    have hset : insert j (insert X voters.toFinset) = insert X (voters ++ [j]).toFinset := by
      ext k
      simp
      tauto
    rw [heq, hset]
    exact promoteOnMajority_counting { h.toMember with } h.term h.inbox hrole rfl
  · have heq : n.handleLocked (voteGrant X j) = n := by
      simp [Node.handleLocked, handleRequestVoteRespLocked, voteGrant, h.term, hleads.1]
    rw [heq]
    exact { h with counted := .inr hleads }

lemma Counting.foldl_handleLocked (h : Counting ids X voters n) (more : List String) :
    Counting ids X (voters ++ more) ((more.map (voteGrant X)).foldl Node.handleLocked n) := by
  induction more generalizing n voters with
  | nil => simpa using h
  | cons j more ih =>
    have hnext := ih (h.handleLocked (j := j))
    rw [append_assoc] at hnext
    exact hnext

lemma Counting.leads (h : Counting ids X voters n) (hnodup : ids.Nodup)
    (hall : ∀ j ∈ ids, j = X ∨ j ∈ voters) :
    n.role = .leader ∧ (∃ acks, n.acks = some acks) ∧ 0 ≤ n.heartbeatElapsed ∧
      n.quorumMissTicks = 0 := by
  refine h.counted.resolve_left ?_
  rintro ⟨-, -, hfew⟩
  have hsub : ids.toFinset ⊆ insert X voters.toFinset := by
    intro j hj
    rw [mem_toFinset] at hj
    simpa using hall j hj
  have hcard := Finset.card_le_card hsub
  have hpos : 0 < (insert X voters.toFinset).card := Finset.card_pos.mpr (Finset.insert_nonempty _ _)
  rw [toFinset_card_of_nodup hnodup] at hcard
  unfold majorityOf at hfew
  omega

lemma Campaigns.tick_wins (h : Campaigns ids X n) (hnodup : ids.Nodup)
    (hvoters : voters.Perm (ids.erase X)) (draw : Nat) :
    ∃ x, ∃ peers : List String, Reigns ids X x ∧ peers.Perm (ids.erase X) ∧
      { n with inbox := voters.map (voteGrant X) }.tickNode draw = (x, peers.map (heartbeat X)) := by
  set m : Node := { n with inbox := voters.map (voteGrant X) } with hm
  have hstart : Counting ids X [] n.started :=
    { h with term := h.term, inbox := rfl
             counted := .inl ⟨h.role, h.votes, by simpa using h.minority⟩ }
  have hdrain : Counting ids X voters m.drainInbox := by
    have hfold := hstart.foldl_handleLocked voters
    exact hfold
  have hall : ∀ j ∈ ids, j = X ∨ j ∈ voters := by
    intro j hj
    rw [hvoters.mem_iff, hnodup.mem_erase_iff]
    tauto
  obtain ⟨hrole, hacks, helapsed, hmisses⟩ := hdrain.leads hnodup hall
  obtain ⟨x, hx, htick⟩ := tick_reigns hdrain.toMember ⟨hrole, hdrain.term⟩ hacks helapsed
    hdrain.inbox (.inr hmisses) draw
  exact ⟨x, _, hx, hdrain.peers, htick⟩

/-- An idle member whose timer runs out asks the others for their votes, or leads if it is the
only member. -/
lemma Idle.tick_campaigns (h : Idle ids X n) (hinbox : n.inbox = []) (draw : Nat)
    (htimeout : n.electionTimeout ≤ n.electionElapsed + 1) :
    ∃ x, ∃ peers : List String, peers.Perm (ids.erase X) ∧
      n.tickNode draw = (x, peers.map (voteRequest X)) ∧
      (Campaigns ids X x ∨ (Reigns ids X x ∧ majorityOf ids.length ≤ 1)) := by
  have hdrain : n.drainInbox = n.started := by
    unfold drainInbox
    rw [hinbox]
    rfl
  set d : Node := { n.started with electionElapsed := n.electionElapsed + 1 } with hd
  have hstep : n.drainInbox.stepTimersLocked draw = d.startElectionLocked draw := by
    rw [hdrain]
    unfold stepTimersLocked
    rw [show n.started.role = .follower from h.role]
    exact if_pos htimeout
  have hterm : (d.currentTerm + 1) % uint64Size = 1 := by
    rw [show d.currentTerm = 0 from h.term]
    decide
  have hstart : d.startElectionLocked draw =
      { d.candidacy draw with outbox := n.peers.map (voteRequest X) }.promoteOnMajority := by
    unfold startElectionLocked
    dsimp only
    rw [sendPeersLocked_eq]
    have hout : (d.candidacy draw).outbox = [] := h.outbox
    have hid : (d.candidacy draw).id = X := h.id
    have hct : (d.candidacy draw).currentTerm = 1 := hterm
    have hpeers : (d.candidacy draw).peers = n.peers := rfl
    rw [hout, hid, hct]
    rfl
  set e : Node := { d.candidacy draw with outbox := n.peers.map (voteRequest X) } with he
  have hmember : Member ids X { e with outbox := [] } :=
    { h with outbox := rfl
             timeout := pickTimeout_ge h.electionTicksMin h.electionTicksMax draw }
  have hflush : n.tickNode draw =
      ({ e with outbox := [] }.promoteOnMajority, n.peers.map (voteRequest X)) := by
    unfold tickNode
    rw [hstep, hstart]
    exact Prod.ext (promoteOnMajority_outbox e []) (promoteOnMajority_outbox_eq e)
  have hvotes : e.votes = some {X} := by
    show some {n.id} = some {X}
    rw [h.id]
  have hcount : Counting ids X [] { e with outbox := [] }.promoteOnMajority :=
    promoteOnMajority_counting hmember hterm rfl rfl hvotes
  refine ⟨_, n.peers, h.peers, hflush, ?_⟩
  rcases hcount.counted with ⟨hrole, hvotes, hfew⟩ | ⟨hrole, hacks, helapsed, -⟩
  · exact .inl { hcount with role := hrole, votes := hvotes, minority := by simpa using hfew }
  · refine .inr ⟨{ hcount with leads := ⟨hrole, hcount.term⟩, acks := hacks, elapsed := helapsed }, ?_⟩
    by_contra hmany
    unfold promoteOnMajority at hrole
    rw [if_neg (by rw [hmember.members]; exact hmany)] at hrole
    cases hrole

/-! ### Rounds -/

def voting (ids : List String) (X : String) : Exchange X where
  request := voteRequest X
  answer := voteGrant X
  Asked := Idle ids
  Answered := Voted ids
  request_to _ := rfl
  answer_to _ := rfl
  reply _ _ draw h hinbox := h.tick_grants hinbox draw

def recruiting (ids : List String) (X : String) : Exchange X where
  request := heartbeat X
  answer := ack X
  Asked := Voted ids
  Answered := Follows ids X
  request_to _ := rfl
  answer_to _ := rfl
  reply _ _ draw h hinbox := h.tick_follows hinbox draw

def following (ids : List String) (X : String) : Exchange X where
  request := heartbeat X
  answer := ack X
  Asked := Follows ids X
  Answered := Follows ids X
  request_to _ := rfl
  answer_to _ := rfl
  reply _ _ draw h hinbox := h.toVoted.tick_follows hinbox draw

structure Quiet (ids : List String) (c : LocalCluster) : Prop where
  connected : Connected ids c
  idle : ∀ j ∈ ids, Idle ids j (c.node j) ∧ (c.node j).inbox = []

/-- The exchange `E` of `X` is open at the end of a round, in which the members after `X` have
answered and those before it have not. -/
def Between (ids : List String) {X : String} (E : Exchange X) (P : Node → Prop)
    (c : LocalCluster) : Prop :=
  ∃ front back x, ids = front ++ X :: back ∧ P x ∧ E.Open ids c x front back

inductive Phase (ids : List String) (c : LocalCluster) : Prop where
  | quiet : Quiet ids c → Phase ids c
  | polling {X : String} : Between ids (voting ids X) (Campaigns ids X) c → Phase ids c
  | reigning {X : String} : Between ids (recruiting ids X) (Reigns ids X) c → Phase ids c

section Rounds

variable {c : LocalCluster} (draw : String → Nat)

lemma Quiet.tickMembers_waits (h : Quiet ids c) {front : List String} (hnodup : front.Nodup)
    (hsub : ∀ j ∈ front, j ∈ ids)
    (hwait : ∀ j ∈ front, (c.node j).electionElapsed + 1 < (c.node j).electionTimeout) :
    Quiet ids (c.tickMembers front draw) ∧
      ∀ j, j ∉ front → (c.tickMembers front draw).node j = c.node j := by
  induction front generalizing c with
  | nil => exact ⟨h, fun _ _ => rfl⟩
  | cons i front ih =>
    obtain ⟨hi, hnodup⟩ := List.nodup_cons.mp hnodup
    obtain ⟨hidle, hinbox⟩ := h.idle i (hsub i mem_cons_self)
    obtain ⟨hidle', hinbox', hout⟩ := hidle.tick_waits hinbox (draw i) (hwait i mem_cons_self)
    have htick : c.tickMember i (draw i) =
        { c with node := Function.update c.node i ((c.node i).tickNode (draw i)).1 } := by
      unfold tickMember
      dsimp only
      rw [hout, foldl_nil]
    have hother : ∀ j, j ≠ i → (c.tickMember i (draw i)).node j = c.node j := by
      intro j hj
      rw [htick]
      exact Function.update_of_ne hj _ _
    have hquiet : Quiet ids (c.tickMember i (draw i)) := by
      refine ⟨h.connected.tickMember i _, ?_⟩
      intro j hj
      by_cases hij : j = i
      · subst hij
        rw [htick]
        simpa using ⟨hidle', hinbox'⟩
      · rw [hother j hij]
        exact h.idle j hj
    obtain ⟨hrest, hsame⟩ := ih hquiet hnodup (fun j hj => hsub j (mem_cons_of_mem i hj)) (by
      intro j hj
      rw [hother j (fun heq => hi (heq ▸ hj))]
      exact hwait j (mem_cons_of_mem i hj))
    refine ⟨hrest, ?_⟩
    intro j hj
    rw [mem_cons, not_or] at hj
    exact (hsame j hj.2).trans (hother j hj.1)

/-- The first member that times out asks for votes before any other timer runs out. -/
lemma Quiet.tickAll (h : Quiet ids c) (hnodup : ids.Nodup) : Phase ids (c.tickAll draw) := by
  unfold LocalCluster.tickAll
  rw [h.connected.order]
  cases hfind : ids.find? fun j => (c.node j).electionTimeout ≤ (c.node j).electionElapsed + 1 with
  | none =>
    refine .quiet (h.tickMembers_waits draw hnodup (fun _ hj => hj) ?_).1
    intro j hj
    simpa using List.find?_eq_none.mp hfind j hj
  | some X =>
    obtain ⟨htimeout, front, back, hids, hwait⟩ := List.find?_eq_some_iff_append.mp hfind
    have hfront : X ∉ front := fun hX => by
      have := hwait X hX
      simp [htimeout] at this
    have hsub : ∀ j ∈ front, j ∈ ids := by
      intro j hj
      rw [hids]
      exact mem_append_left _ hj
    have hnodup_front : front.Nodup := (List.nodup_append.mp (hids ▸ hnodup)).1
    obtain ⟨hquiet, hsame⟩ :=
      h.tickMembers_waits draw hnodup_front hsub fun j hj => by simpa using hwait j hj
    have hX : X ∈ ids := by
      rw [hids]
      simp
    obtain ⟨hidle, hinbox⟩ := h.idle X hX
    obtain ⟨x, peers, hpeers, htick, hnext⟩ :=
      hidle.tick_campaigns hinbox (draw X) (by simpa using htimeout)
    have hempty : x.inbox = [] := hnext.elim (fun hx => hx.inbox) (fun hx => hx.1.inbox)
    have hopen : (voting ids X).Open ids (c.tickMembers ids draw) x front back := by
      have hround : c.tickMembers ids draw =
          (c.tickMembers front draw).tickMembers (X :: back) draw := by
        rw [← tickMembers_append, ← hids]
      rw [hround]
      refine Exchange.Open.call_round hids hnodup hquiet.connected hpeers ?_ hempty ?_
      · rw [hsame X hfront]
        exact htick
      · intro j hj
        have hj : j ∈ ids := by
          rw [hids]
          simp only [mem_append] at hj ⊢
          tauto
        obtain ⟨hj, hnone⟩ := hquiet.idle j hj
        exact ⟨hnone, { hj with }⟩
    rcases hnext with hcampaigns | ⟨hreigns, hone⟩
    · exact .polling ⟨front, back, x, hids, hcampaigns, hopen⟩
    · have hlength : front.length + (back.length + 1) ≤ 1 := by
        have := congrArg List.length hids
        rw [length_append, length_cons] at this
        unfold majorityOf at hone
        omega
      obtain rfl : front = [] := List.length_eq_zero_iff.mp (by omega)
      obtain rfl : back = [] := List.length_eq_zero_iff.mp (by omega)
      exact .reigning ⟨[], [], x, hids, hreigns, hopen.connected, hopen.caller_eq, by simp, by simp⟩

/-- All members vote for the candidate, which leads from its next tick on. -/
lemma polling_tickAll (hnodup : ids.Nodup) (h : Between ids (voting ids X) (Campaigns ids X) c) :
    Between ids (recruiting ids X) (Reigns ids X) (c.tickAll draw) := by
  obtain ⟨front, back, x, hids, hx, hopen⟩ := h
  obtain ⟨x', peers, hx', hpeers, htick⟩ :=
    hx.tick_wins hnodup (erase_perm_of_split hids hnodup).symm (draw X)
  refine ⟨front, back, x', hids, hx', hopen.tickAll hids hnodup hpeers htick hx'.inbox ?_⟩
  intro j n hj _
  exact { hj with }

/-- A leader and its followers stay what they are; whoever had only voted follows now. -/
lemma reigning_tickAll (hnodup : ids.Nodup) (h : Between ids (recruiting ids X) (Reigns ids X) c) :
    Between ids (following ids X) (Reigns ids X) (c.tickAll draw) := by
  obtain ⟨front, back, x, hids, hx, hopen⟩ := h
  have hX : X ∈ ids := by
    rw [hids]
    simp
  obtain ⟨x', peers, hx', hpeers, htick⟩ :=
    hx.tick_stays hX (erase_perm_of_split hids hnodup).symm (draw X)
  refine ⟨front, back, x', hids, hx', hopen.tickAll hids hnodup hpeers htick hx'.inbox ?_⟩
  intro j n hj _
  exact { hj with }

lemma Between.recruiting (h : Between ids (following ids X) (Reigns ids X) c) :
    Between ids (recruiting ids X) (Reigns ids X) c := by
  obtain ⟨front, back, x, hids, hx, hopen⟩ := h
  exact ⟨front, back, x, hids, hx, hopen.mono rfl rfl (fun _ _ hj => hj.toVoted) fun _ _ hj => hj⟩

lemma Phase.tickAll (hnodup : ids.Nodup) (h : Phase ids c) : Phase ids (c.tickAll draw) := by
  cases h with
  | quiet h => exact h.tickAll draw hnodup
  | polling h => exact .reigning (polling_tickAll draw hnodup h)
  | reigning h => exact .reigning (reigning_tickAll draw hnodup h).recruiting

end Rounds

section Members

variable {c : LocalCluster} {E : Exchange X} {P : Node → Prop} {L : String}

lemma Between.member (h : Between ids E P c) (hL : L ∈ ids) :
    (L = X ∧ ∃ x inbox, P x ∧ c.node L = { x with inbox := inbox }) ∨
      (L ≠ X ∧ E.Asked L (c.node L)) ∨ (L ≠ X ∧ E.Answered L (c.node L)) := by
  obtain ⟨front, back, x, hids, hx, hopen⟩ := h
  by_cases hLX : L = X
  · subst hLX
    exact .inl ⟨rfl, x, _, hx, hopen.caller_eq⟩
  · rw [hids, mem_append, mem_cons] at hL
    rcases hL with hfront | rfl | hback
    · exact .inr (.inl ⟨hLX, (hopen.asked L hfront).1⟩)
    · exact absurd rfl hLX
    · exact .inr (.inr ⟨hLX, (hopen.answered L hback).1⟩)

lemma Phase.leader (h : Phase ids c) (hL : L ∈ ids) {T : Nat} (hlead : LeaderOf (c.node L) T) :
    T = 1 ∧ Between ids (Stability.recruiting ids L) (Reigns ids L) c := by
  have hfollower : (c.node L).role ≠ .follower := by
    rw [hlead.1]
    decide
  cases h with
  | quiet h => exact absurd (h.idle L hL).1.role hfollower
  | polling h =>
    rcases h.member hL with ⟨rfl, x, inbox, hx, heq⟩ | ⟨-, hasked⟩ | ⟨-, hanswered⟩
    · have hrole := hlead.1
      rw [heq] at hrole
      exact absurd (hx.role.symm.trans hrole) (by decide)
    · exact absurd hasked.role hfollower
    · exact absurd hanswered.role hfollower
  | reigning h =>
    rcases h.member hL with ⟨rfl, x, inbox, hx, heq⟩ | ⟨-, hasked⟩ | ⟨-, hanswered⟩
    · have hterm := hlead.2
      rw [heq] at hterm
      exact ⟨hterm.symm.trans hx.leads.2, h⟩
    · exact absurd hasked.role hfollower
    · exact absurd hanswered.role hfollower

end Members

/-! ### Runs -/

lemma newNode_idle (hnodup : ids.Nodup) (draw : String → Nat) (hj : j ∈ ids) :
    Idle ids j ((newCluster ids hnodup draw).start.node j) ∧
      ((newCluster ids hnodup draw).start.node j).inbox = [] := by
  have hperm := (newCluster ids hnodup draw).config_peers j hj
  refine ⟨⟨⟨rfl, rfl, rfl, rfl, rfl, rfl, hperm, ?_, ?_, rfl⟩, rfl, rfl⟩, rfl⟩
  · have hlength : ((newCluster ids hnodup draw).start.node j).members.length =
        ((newCluster ids hnodup draw).config j).peers.length + 1 := length_insertionSort _ _
    rw [hlength, hperm.length_eq]
    exact length_erase_add_one hj
  · exact pickTimeout_ge (n := (newCluster ids hnodup draw).start.node j) rfl rfl (draw j)

lemma afterRounds_phase (hnodup : ids.Nodup) (draw : String → Nat) (draws : Nat → String → Nat)
    (r : Nat) : Phase ids ((newCluster ids hnodup draw).afterRounds draws r) := by
  induction r with
  | zero => exact .quiet ⟨⟨rfl, fun _ => rfl⟩, fun j hj => newNode_idle hnodup draw hj⟩
  | succ r ih => exact ih.tickAll (draws r) hnodup

lemma leaderOf_tickAll {c : LocalCluster} (hconn : Connected ids c) {front back : List String}
    {L : String} (hids : ids = front ++ L :: back) (hnodup : ids.Nodup) {draw : String → Nat} {T : Nat}
    (hlead : LeaderOf (((c.tickMembers front draw).tickMember L (draw L)).node L) T) :
    LeaderOf ((c.tickAll draw).node L) T := by
  have hround : c.tickAll draw =
      ((c.tickMembers front draw).tickMember L (draw L)).tickMembers back draw := by
    unfold tickAll
    rw [hconn.order, hids, tickMembers_append]
    rfl
  have hback : L ∉ back := by
    have hsplit := nodup_of_split hids hnodup
    simp at hsplit
    tauto
  obtain ⟨inbox, heq⟩ :=
    tickMembers_node_eq ((c.tickMembers front draw).tickMember L (draw L)) hback draw
  rw [hround, heq]
  exact hlead

lemma Phase.connected {c : LocalCluster} (h : Phase ids c) : Connected ids c := by
  cases h with
  | quiet h => exact h.connected
  | polling h =>
    obtain ⟨_, _, _, -, -, hopen⟩ := h
    exact hopen.connected
  | reigning h =>
    obtain ⟨_, _, _, -, -, hopen⟩ := h
    exact hopen.connected

lemma afterRounds_reigning {hnodup : ids.Nodup} {draw : String → Nat} {draws : Nat → String → Nat}
    {r : Nat} {L : String} (h : Between ids (recruiting ids L) (Reigns ids L)
      ((newCluster ids hnodup draw).afterRounds draws r)) {k : Nat} (hk : r + 1 ≤ k) :
    Between ids (following ids L) (Reigns ids L)
      ((newCluster ids hnodup draw).afterRounds draws k) := by
  induction k, hk using Nat.le_induction with
  | base => exact reigning_tickAll (draws r) hnodup h
  | succ k _ ih => exact reigning_tickAll (draws k) hnodup ih.recruiting

end Stability

open Stability

/-- **A leader of a healthy cluster is stable.** In a cluster that is driven by `TickAll` alone,
if member `L` is leader of term `T` at the end of its tick in round `r`, then from the end of the
next round on it leads term `T` and every other member follows it. It need not have become leader
in that tick, and there are no higher terms that could be in use. -/
theorem leader_stable (ids : List String) (hnodup : ids.Nodup) (draw : String → Nat)
    (draws : Nat → String → Nat) (r : Nat) (front back : List String) (L : String)
    (hids : ids = front ++ L :: back) (T : Nat)
    (hlead : LeaderOf (((((newCluster ids hnodup draw).afterRounds draws r).tickMembers front
      (draws r)).tickMember L (draws r L)).node L) T) (k : Nat) (hk : r + 2 ≤ k) :
    let c := (newCluster ids hnodup draw).afterRounds draws k
    LeaderOf (c.node L) T ∧ ∀ j ∈ ids, j ≠ L →
      (c.node j).role = .follower ∧ (c.node j).currentTerm = T ∧ (c.node j).leaderID = L := by
  intro c
  have hL : L ∈ ids := by
    rw [hids]
    simp
  have hround : LeaderOf (((newCluster ids hnodup draw).afterRounds draws (r + 1)).node L) T :=
    leaderOf_tickAll (afterRounds_phase hnodup draw draws r).connected hids hnodup hlead
  obtain ⟨rfl, hreign⟩ := (afterRounds_phase hnodup draw draws (r + 1)).leader hL hround
  have hstable : Between ids (following ids L) (Reigns ids L) c := afterRounds_reigning hreign hk
  constructor
  · rcases hstable.member hL with ⟨-, x, inbox, hx, heq⟩ | ⟨hne, -⟩ | ⟨hne, -⟩
    · rw [heq]
      exact hx.leads
    · exact absurd rfl hne
    · exact absurd rfl hne
  · intro j hj hne
    rcases hstable.member hj with ⟨heq, -⟩ | ⟨-, hfollows⟩ | ⟨-, hfollows⟩
    · exact absurd heq hne
    · exact ⟨hfollows.role, hfollows.term, hfollows.leader⟩
    · exact ⟨hfollows.role, hfollows.term, hfollows.leader⟩

/-- With equal timeouts the first member asks for votes in the eighth round and leads in the
ninth. -/
theorem first_member_stable :
    let c := (newCluster ["a", "b", "c"] (by decide) (fun _ => 0)).afterRounds (fun _ _ => 0) 1000
    LeaderOf (c.node "a") 1 ∧ (c.node "c").leaderID = "a" := by
  have h := leader_stable ["a", "b", "c"] (by decide) (fun _ => 0) (fun _ _ => 0) 8 [] ["b", "c"] "a"
    rfl 1 (by decide) 1000 (by decide)
  exact ⟨h.1, (h.2 "c" (by decide) (by decide)).2.2⟩

end Symkernel.Coordination
