import Symkernel.Coordination.Frame

/-!
# What one node's ballots say

A node votes for one candidate per term, but a leader that steps down on quorum loss clears its
vote within the term. The history variable `resigned` names the terms in which this happened.
-/

namespace Symkernel.Coordination

open List

def IsGrant (m : Message) (voter candidate : String) (term : Nat) : Prop :=
  m.type = .requestVoteResp ∧ m.voteGranted = true ∧ m.fromId = voter ∧ m.toId = candidate ∧
    m.term = term

namespace Node

def Backed (sent : List Message) (n : Node) (voter : String) (term : Nat) : Prop :=
  (voter = n.id ∧ (term, n.id) ∈ n.history.ballots) ∨ ∃ m ∈ sent, IsGrant m voter n.id term

structure VoteInv (sent : List Message) (n : Node) : Prop where
  ballot_named : ∀ t c, (t, c) ∈ n.history.ballots → c ≠ ""
  ballot_le : ∀ t c, (t, c) ∈ n.history.ballots → t ≤ n.currentTerm
  elected_le : ∀ t ∈ n.history.elected, t ≤ n.currentTerm
  resigned_elected : ∀ t ∈ n.history.resigned, t ∈ n.history.elected
  resigned_out : n.currentTerm ∈ n.history.resigned → n.role = .follower
  current : ∀ c, (n.currentTerm, c) ∈ n.history.ballots →
    c = n.votedFor ∨ (c = n.id ∧ n.currentTerm ∈ n.history.resigned)
  spread : ∀ t c c', (t, c) ∈ n.history.ballots → (t, c') ∈ n.history.ballots → c ≠ c' →
    t ∈ n.history.resigned ∧ (c = n.id ∨ c' = n.id)
  leader : n.role = .leader → n.currentTerm ∈ n.history.elected ∧ n.votedFor = n.id
  candidate : n.role = .candidate → n.currentTerm ∉ n.history.elected ∧ n.votedFor = n.id ∧
    ∃ V, n.votes = some V ∧ ∀ f ∈ V, Backed sent n f n.currentTerm
  won : ∀ t ∈ n.history.elected, ∃ V : Finset String,
    majorityOf n.members.length ≤ V.card ∧ ∀ f ∈ V, Backed sent n f t
  outbox_grant : ∀ m ∈ n.outbox, m.type = .requestVoteResp → m.voteGranted = true →
    m.fromId = n.id ∧ (m.term, m.toId) ∈ n.history.ballots

variable {sent sent' : List Message} {n n' : Node}

lemma Backed.of_sent_subset (hs : ∀ m ∈ sent, m ∈ sent') {f : String} {t : Nat}
    (h : Backed sent n f t) : Backed sent' n f t := by
  rcases h with h | ⟨m, hm, hg⟩
  · exact Or.inl h
  · exact Or.inr ⟨m, hs m hm, hg⟩

lemma Backed.of_ballots (hid : n'.id = n.id)
    (hb : ∀ b ∈ n.history.ballots, b ∈ n'.history.ballots) {f : String} {t : Nat}
    (h : Backed sent n f t) : Backed sent n' f t := by
  rcases h with ⟨hf, hmem⟩ | hg
  · exact Or.inl ⟨hf.trans hid.symm, hid ▸ hb _ hmem⟩
  · exact Or.inr (hid ▸ hg)

lemma VoteInv.won_of_backed (h : VoteInv sent n)
    (hback : ∀ f t, Backed sent n f t → Backed sent' n' f t) :
    ∀ t ∈ n.history.elected, ∃ V : Finset String,
      majorityOf n.members.length ≤ V.card ∧ ∀ f ∈ V, Backed sent' n' f t := by
  intro t ht
  obtain ⟨V, hV, hb⟩ := h.won t ht
  exact ⟨V, hV, fun f hf => hback f t (hb f hf)⟩

lemma VoteInv.of_sent_subset (hs : ∀ m ∈ sent, m ∈ sent') (h : VoteInv sent n) : VoteInv sent' n :=
  { h with
    candidate := by
      intro hc
      obtain ⟨h1, h2, V, hV, hback⟩ := h.candidate hc
      exact ⟨h1, h2, V, hV, fun f hf => (hback f hf).of_sent_subset hs⟩
    won := h.won_of_backed fun _ _ hb => hb.of_sent_subset hs }

section Invariant

variable (h : VoteInv sent n)
include h

/-- A ballot for `c` joins those of its term that are for `c` or date from before the
resignation. -/
lemma VoteInv.spread_concat {t : Nat} {c : String}
    (hold : ∀ d, (t, d) ∈ n.history.ballots → d = c ∨ (d = n.id ∧ t ∈ n.history.resigned)) :
    ∀ t' d d', (t', d) ∈ n.history.ballots ++ [(t, c)] →
      (t', d') ∈ n.history.ballots ++ [(t, c)] → d ≠ d' →
        t' ∈ n.history.resigned ∧ (d = n.id ∨ d' = n.id) := by
  intro t' d d' hd hd' hne
  simp only [mem_append, mem_singleton, Prod.mk.injEq] at hd hd'
  obtain ho | ⟨rfl, rfl⟩ := hd <;> obtain ho' | ⟨ht, rfl⟩ := hd'
  · exact h.spread t' d d' ho ho' hne
  · subst ht
    obtain heq | ⟨heq, hres⟩ := hold d ho
    · exact absurd heq hne
    · exact ⟨hres, Or.inl heq⟩
  · obtain heq | ⟨heq, hres⟩ := hold d' ho'
    · exact absurd heq.symm hne
    · exact ⟨hres, Or.inr heq⟩
  · exact absurd rfl hne

lemma VoteInv.congr (hid : n'.id = n.id) (hmembers : n'.members = n.members)
    (hrole : n'.role = n.role) (hterm : n'.currentTerm = n.currentTerm)
    (hvoted : n'.votedFor = n.votedFor) (hvotes : n'.votes = n.votes)
    (hout : n'.outbox = n.outbox) (hhist : n'.history = n.history) : VoteInv sent n' := by
  have hback : ∀ f t, Backed sent n f t → Backed sent n' f t := fun f t hb =>
    hb.of_ballots hid (by rw [hhist]; exact fun b hb => hb)
  constructor
  · rw [hhist]; exact h.ballot_named
  · rw [hhist, hterm]; exact h.ballot_le
  · rw [hhist, hterm]; exact h.elected_le
  · rw [hhist]; exact h.resigned_elected
  · rw [hhist, hterm, hrole]; exact h.resigned_out
  · rw [hhist, hterm, hvoted, hid]; exact h.current
  · rw [hhist, hid]; exact h.spread
  · rw [hhist, hterm, hrole, hvoted, hid]; exact h.leader
  · rw [hhist, hterm, hrole, hvoted, hid, hvotes]
    intro hc
    obtain ⟨h1, h2, V, hV, hb⟩ := h.candidate hc
    exact ⟨h1, h2, V, hV, fun f hf => hback f _ (hb f hf)⟩
  · rw [hhist, hmembers]; exact h.won_of_backed hback
  · rw [hhist, hout, hid]; exact h.outbox_grant

lemma VoteInv.later_term (hid : n'.id = n.id)
    (hmembers : n'.members = n.members) (hrole : n'.role = .follower)
    (hterm : n.currentTerm < n'.currentTerm) (hout : n'.outbox = n.outbox)
    (hhist : n'.history = n.history) : VoteInv sent n' := by
  have hback : ∀ f t, Backed sent n f t → Backed sent n' f t := fun f t hb =>
    hb.of_ballots hid (by rw [hhist]; exact fun b hb => hb)
  have hnone : ∀ c, (n'.currentTerm, c) ∉ n.history.ballots := by
    intro c hc
    have := h.ballot_le _ c hc
    omega
  constructor
  · rw [hhist]; exact h.ballot_named
  · rw [hhist]; exact fun t c hc => (h.ballot_le t c hc).trans hterm.le
  · rw [hhist]; exact fun t ht => (h.elected_le t ht).trans hterm.le
  · rw [hhist]; exact h.resigned_elected
  · exact fun _ => hrole
  · rw [hhist]; exact fun c hc => absurd hc (hnone c)
  · rw [hhist, hid]; exact h.spread
  · rw [hrole]; exact fun hc => absurd hc (by decide)
  · rw [hrole]; exact fun hc => absurd hc (by decide)
  · rw [hhist, hmembers]; exact h.won_of_backed hback
  · rw [hhist, hout, hid]; exact h.outbox_grant

lemma VoteInv.sendLocked (m : Message) (hm : m.type = .requestVoteResp → m.voteGranted = true →
      m.fromId = n.id ∧ (m.term, m.toId) ∈ n.history.ballots) : VoteInv sent (n.sendLocked m) :=
  { h with
    outbox_grant := by
      intro m' hm'
      rcases List.mem_append.mp hm' with hold | hnew
      · exact h.outbox_grant m' hold
      · rw [List.mem_singleton.mp hnew]
        exact hm }

lemma VoteInv.sendPeersLocked (msg : String → Message)
    (hmsg : ∀ peer, (msg peer).type ≠ .requestVoteResp) : VoteInv sent (n.sendPeersLocked msg) := by
  unfold Node.sendPeersLocked
  generalize n.peers = peers
  induction peers generalizing n with
  | nil => exact h
  | cons peer peers ih => exact ih (h.sendLocked (msg peer) (fun ht => absurd ht (hmsg peer)))

/-! ### Voting -/

lemma VoteInv.adoptRequestTerm (m : Message) : VoteInv sent (n.adoptRequestTerm m) := by
  unfold Node.adoptRequestTerm
  by_cases hlt : n.currentTerm < m.term
  · rw [if_pos hlt]
    exact h.later_term rfl rfl rfl hlt rfl rfl
  · rw [if_neg hlt]
    exact h

lemma VoteInv.castVote {c : String} (hc : c ≠ "") (hid : n.id ≠ "")
    (hvoted : n.votedFor = "" ∨ n.votedFor = c) (hid' : n'.id = n.id)
    (hmembers : n'.members = n.members) (hrole : n'.role = n.role)
    (hterm : n'.currentTerm = n.currentTerm) (hvoted' : n'.votedFor = c)
    (hvotes : n'.votes = n.votes) (hout : n'.outbox = n.outbox)
    (hhist : n'.history = { n.history with
      ballots := n.history.ballots ++ [(n.currentTerm, c)] }) : VoteInv sent n' := by
  have hback : ∀ f t, Backed sent n f t → Backed sent n' f t := fun f t hb =>
    hb.of_ballots hid' (by rw [hhist]; exact fun b hb => mem_append_left _ hb)
  -- an earlier ballot of this term is for `c` or dates from before the resignation
  have hold : ∀ d, (n.currentTerm, d) ∈ n.history.ballots →
      d = c ∨ (d = n.id ∧ n.currentTerm ∈ n.history.resigned) := by
    intro d hd
    rcases h.current d hd with heq | hres
    · rcases hvoted with hv | hv
      · exact absurd (heq.trans hv) (h.ballot_named _ d hd)
      · exact Or.inl (heq.trans hv)
    · exact Or.inr hres
  have hself : n.votedFor = n.id → c = n.id := by
    intro hv
    rcases hvoted with h0 | h0
    · exact absurd (hv.symm.trans h0) hid
    · exact h0.symm.trans hv
  constructor
  · rw [hhist]
    intro t d hd
    rcases List.mem_append.mp hd with hd | hd
    · exact h.ballot_named t d hd
    · obtain ⟨-, rfl⟩ := Prod.mk.injEq .. ▸ List.mem_singleton.mp hd
      exact hc
  · rw [hhist, hterm]
    intro t d hd
    rcases List.mem_append.mp hd with hd | hd
    · exact h.ballot_le t d hd
    · obtain ⟨rfl, -⟩ := Prod.mk.injEq .. ▸ List.mem_singleton.mp hd
      exact le_refl _
  · rw [hhist, hterm]; exact h.elected_le
  · rw [hhist]; exact h.resigned_elected
  · rw [hhist, hterm, hrole]; exact h.resigned_out
  · rw [hhist, hterm, hvoted', hid']
    intro d hd
    rcases List.mem_append.mp hd with hd | hd
    · exact hold d hd
    · obtain ⟨-, rfl⟩ := Prod.mk.injEq .. ▸ List.mem_singleton.mp hd
      exact Or.inl rfl
  · rw [hhist, hid']; exact h.spread_concat hold
  · rw [hhist, hterm, hrole, hvoted', hid']
    intro hl
    obtain ⟨h1, h2⟩ := h.leader hl
    exact ⟨h1, hself h2⟩
  · rw [hhist, hterm, hrole, hvoted', hid', hvotes]
    intro hl
    obtain ⟨h1, h2, V, hV, hb⟩ := h.candidate hl
    exact ⟨h1, hself h2, V, hV, fun f hf => hback f _ (hb f hf)⟩
  · rw [hhist, hmembers]; exact h.won_of_backed hback
  · rw [hhist, hout, hid']
    intro m hm h1 h2
    obtain ⟨hf, hb⟩ := h.outbox_grant m hm h1 h2
    exact ⟨hf, mem_append_left _ hb⟩

lemma VoteInv.handleRequestVoteLocked (hid : n.id ≠ "") (m : Message)
    (hm : m.fromId ≠ "") : VoteInv sent (n.handleRequestVoteLocked m) := by
  have h1 := h.adoptRequestTerm m
  have hid1 : (n.adoptRequestTerm m).id = n.id := by
    unfold Node.adoptRequestTerm
    split <;> rfl
  unfold Node.handleRequestVoteLocked
  generalize n.adoptRequestTerm m = n1 at h1 hid1
  by_cases hg : n1.grants m = true
  · simp only [hg]
    have hcond := hg
    simp only [grants, Bool.and_eq_true, Bool.or_eq_true, decide_eq_true_eq] at hcond
    have h2 : VoteInv sent { n1 with
        votedFor := m.fromId
        leaderID := ""
        electionElapsed := 0
        history := { n1.history with
          ballots := n1.history.ballots ++ [(n1.currentTerm, m.fromId)] } } :=
      h1.castVote hm (hid1 ▸ hid) hcond.2 rfl rfl rfl rfl rfl rfl rfl rfl
    refine h2.sendLocked _ ?_
    intro _ _
    exact ⟨rfl, mem_append_right _ (List.mem_singleton.mpr rfl)⟩
  · simp only [hg]
    exact h1.sendLocked _ (fun _ hv => absurd hv (by simp))

/-! ### Elections -/

lemma VoteInv.becomeFollower_later {term : Nat} (hlt : n.currentTerm < term) :
    VoteInv sent (n.becomeFollowerLocked term) :=
  h.later_term rfl rfl rfl hlt rfl rfl

lemma VoteInv.promoteOnMajority (hc : n.role = .candidate) : VoteInv sent n.promoteOnMajority := by
  unfold Node.promoteOnMajority
  obtain ⟨hfresh, hvoted, V, hV, hback⟩ := h.candidate hc
  by_cases hmaj : majorityOf n.members.length ≤ (n.votes.getD ∅).card
  · rw [if_pos hmaj]
    have hres : n.currentTerm ∉ n.history.resigned := fun hr => hfresh (h.resigned_elected _ hr)
    refine { h with
      elected_le := ?_, resigned_elected := ?_, resigned_out := ?_, current := ?_
      leader := ?_, candidate := ?_, won := ?_ }
    · intro t ht
      rcases List.mem_append.mp ht with ht | ht
      · exact h.elected_le t ht
      · exact (List.mem_singleton.mp ht).le
    · exact fun t ht => mem_append_left _ (h.resigned_elected t ht)
    · exact fun hr => absurd hr hres
    · intro c hcb
      rcases h.current c hcb with heq | ⟨-, hr⟩
      · exact Or.inl (heq.trans hvoted)
      · exact absurd hr hres
    · exact fun _ => ⟨mem_append_right _ (List.mem_singleton.mpr rfl), rfl⟩
    · intro hrole
      exact absurd hrole (by simp [becomeLeaderLocked])
    · intro t ht
      rcases List.mem_append.mp ht with ht | ht
      · exact h.won t ht
      · obtain rfl := List.mem_singleton.mp ht
        rw [hV] at hmaj
        exact ⟨V, hmaj, hback⟩
  · rw [if_neg hmaj]
    exact h

lemma VoteInv.handleRequestVoteRespLocked (m : Message)
    (hm : m.voteGranted = true → IsGrant m m.fromId n.id m.term) (hsent : m ∈ sent) :
    VoteInv sent (n.handleRequestVoteRespLocked m) := by
  unfold Node.handleRequestVoteRespLocked
  by_cases hlt : n.currentTerm < m.term
  · rw [if_pos hlt]
    exact h.becomeFollower_later hlt
  rw [if_neg hlt]
  by_cases hskip : (n.role ≠ .candidate || m.term ≠ n.currentTerm || !m.voteGranted) = true
  · rw [if_pos hskip]
    exact h
  rw [if_neg hskip]
  simp only [Bool.or_eq_true, decide_eq_true_eq, Bool.not_eq_true', not_or, not_not,
    Bool.not_eq_false] at hskip
  obtain ⟨⟨hrole, hterm⟩, hgrant⟩ := hskip
  obtain ⟨hfresh, hvoted, V, hV, hback⟩ := h.candidate hrole
  rw [hV]
  refine VoteInv.promoteOnMajority (n := { n with votes := some (insert m.fromId V) }) ?_ hrole
  refine { h with candidate := fun _ => ⟨hfresh, hvoted, insert m.fromId V, rfl, ?_⟩ }
  intro f hf
  rcases Finset.mem_insert.mp hf with rfl | hf
  · exact Or.inr ⟨m, hsent, hterm ▸ hm hgrant⟩
  · exact hback f hf

lemma VoteInv.candidacy (hid : n.id ≠ "") (draw : Nat)
    (hwrap : n.currentTerm + 1 < uint64Size) : VoteInv sent (n.candidacy draw) := by
  have hterm : (n.candidacy draw).currentTerm = n.currentTerm + 1 := Nat.mod_eq_of_lt hwrap
  have hmod : (n.currentTerm + 1) % uint64Size = n.currentTerm + 1 := Nat.mod_eq_of_lt hwrap
  have hballots : (n.candidacy draw).history.ballots =
      n.history.ballots ++ [(n.currentTerm + 1, n.id)] := by
    rw [← hmod]
    rfl
  have hkeep : ∀ b ∈ n.history.ballots, b ∈ (n.candidacy draw).history.ballots := by
    exact fun b hb => mem_append_left _ hb
  have hback : ∀ f t, Backed sent n f t → Backed sent (n.candidacy draw) f t :=
    fun f t hb => hb.of_ballots (show (n.candidacy draw).id = n.id from rfl) hkeep
  have hnone : ∀ c, (n.currentTerm + 1, c) ∉ n.history.ballots := by
    intro c hc
    have := h.ballot_le _ c hc
    omega
  have hfresh : n.currentTerm + 1 ∉ n.history.elected := by
    intro ht
    have := h.elected_le _ ht
    omega
  constructor
  · intro t d hd
    rcases List.mem_append.mp hd with hd | hd
    · exact h.ballot_named t d hd
    · obtain ⟨-, rfl⟩ := Prod.mk.injEq .. ▸ List.mem_singleton.mp hd
      exact hid
  · rw [hballots, hterm]
    intro t d hd
    rcases List.mem_append.mp hd with hd | hd
    · exact (h.ballot_le t d hd).trans (Nat.le_succ _)
    · obtain ⟨rfl, -⟩ := Prod.mk.injEq .. ▸ List.mem_singleton.mp hd
      exact le_refl _
  · rw [hterm]
    exact fun t ht => (h.elected_le t ht).trans (Nat.le_succ _)
  · exact h.resigned_elected
  · rw [hterm]
    exact fun hr => absurd (h.resigned_elected _ hr) hfresh
  · rw [hballots, hterm]
    intro d hd
    rcases List.mem_append.mp hd with hd | hd
    · exact absurd hd (hnone d)
    · obtain ⟨-, rfl⟩ := Prod.mk.injEq .. ▸ List.mem_singleton.mp hd
      exact Or.inl rfl
  · rw [hballots]
    exact h.spread_concat fun d hd => absurd hd (hnone d)
  · intro hl
    exact absurd hl (by simp [Node.candidacy])
  · rw [hterm]
    refine fun _ => ⟨hfresh, rfl, {n.id}, rfl, ?_⟩
    intro f hf
    rw [Finset.mem_singleton.mp hf]
    refine Or.inl ⟨rfl, ?_⟩
    rw [hballots]
    exact mem_append_right _ (List.mem_singleton.mpr rfl)
  · exact h.won_of_backed hback
  · intro m hm h1 h2
    obtain ⟨hf, hb⟩ := h.outbox_grant m hm h1 h2
    refine ⟨hf, ?_⟩
    exact mem_append_left _ hb

lemma VoteInv.startElectionLocked (hid : n.id ≠ "") (draw : Nat)
    (hwrap : n.currentTerm + 1 < uint64Size) : VoteInv sent (n.startElectionLocked draw) := by
  have h1 := h.candidacy hid draw hwrap
  have h2 := h1.sendPeersLocked (fun peer =>
    { type := .requestVote, term := (n.candidacy draw).currentTerm, fromId := (n.candidacy draw).id,
      toId := peer }) (fun _ => by simp)
  exact h2.promoteOnMajority (by rw [sendPeersLocked_eq]; rfl)

/-! ### Heartbeats and the quorum check -/

lemma VoteInv.handleAppendEntriesLocked (m : Message) :
    VoteInv sent (n.handleAppendEntriesLocked m) := by
  unfold Node.handleAppendEntriesLocked
  by_cases hstale : m.term < n.currentTerm
  · rw [if_pos hstale]
    exact h.sendLocked _ (fun ht => absurd ht (by simp))
  rw [if_neg hstale]
  refine VoteInv.sendLocked ?_ _ (fun ht => absurd ht (by simp))
  by_cases hlt : n.currentTerm < m.term
  · rw [if_pos hlt]
    exact h.later_term rfl rfl rfl hlt rfl rfl
  · rw [if_neg hlt]
    -- the same term: the role is lost, the vote is kept
    exact { h with
      resigned_out := fun _ => rfl
      leader := fun hl => absurd hl (by simp)
      candidate := fun hl => absurd hl (by simp) }

lemma VoteInv.handleAppendEntriesRespLocked (m : Message) :
    VoteInv sent (n.handleAppendEntriesRespLocked m) := by
  unfold Node.handleAppendEntriesRespLocked
  by_cases hlt : n.currentTerm < m.term
  · rw [if_pos hlt]
    exact h.becomeFollower_later hlt
  rw [if_neg hlt]
  split
  · exact h
  · split
    · split
      · exact h.congr rfl rfl rfl rfl rfl rfl rfl rfl
      · exact h.congr rfl rfl rfl rfl rfl rfl rfl rfl
    · exact h

structure Deliverable (sent : List Message) (n : Node) (m : Message) : Prop where
  mem : m ∈ sent
  named : m.fromId ≠ ""
  addressed : m.toId = n.id

lemma VoteInv.handleLocked (hid : n.id ≠ "") {m : Message}
    (hm : Deliverable sent n m) : VoteInv sent (n.handleLocked m) := by
  unfold Node.handleLocked
  split
  case h_1 => exact h.handleRequestVoteLocked hid m hm.named
  case h_2 htype =>
    exact h.handleRequestVoteRespLocked m (fun hg => ⟨htype, hg, rfl, hm.addressed, rfl⟩) hm.mem
  case h_3 => exact h.handleAppendEntriesLocked m
  case h_4 => exact h.handleAppendEntriesRespLocked m

lemma VoteInv.leaderHeartbeat : VoteInv sent n.leaderHeartbeat := by
  have h1 : VoteInv sent { n with heartbeatElapsed := n.heartbeatElapsed + 1 } :=
    h.congr rfl rfl rfl rfl rfl rfl rfl rfl
  unfold Node.leaderHeartbeat
  dsimp only
  split
  · have h2 := h1.sendPeersLocked (fun peer =>
      { type := .appendEntries, term := n.currentTerm, fromId := n.id, toId := peer,
        leaderID := n.id }) (fun _ => by simp)
    exact h2.congr rfl rfl rfl rfl rfl rfl rfl rfl
  · exact h1

/-- Stepping down on quorum loss clears the vote within the term; the ballot cast before
is then accounted for by the resignation. -/
lemma VoteInv.leaderQuorumCheck (hrole : n.role = .leader) : VoteInv sent n.leaderQuorumCheck := by
  unfold Node.leaderQuorumCheck
  split
  · exact h.congr rfl rfl rfl rfl rfl rfl rfl rfl
  dsimp only
  split
  · obtain ⟨helected, hvoted⟩ := h.leader hrole
    have hkeep : ∀ t ∈ n.history.resigned, t ∈ n.history.resigned ++ [n.currentTerm] :=
      fun t ht => mem_append_left _ ht
    refine { h with
      resigned_elected := ?_, resigned_out := fun _ => rfl, current := ?_
      spread := ?_, leader := ?_, candidate := ?_ }
    · intro t ht
      rcases List.mem_append.mp ht with ht | ht
      · exact h.resigned_elected t ht
      · exact List.mem_singleton.mp ht ▸ helected
    · intro c hc
      refine Or.inr ⟨?_, mem_append_right _ (List.mem_singleton.mpr rfl)⟩
      rcases h.current c hc with heq | ⟨heq, -⟩
      · exact heq.trans hvoted
      · exact heq
    · intro t c c' hc hc' hne
      obtain ⟨h1, h2⟩ := h.spread t c c' hc hc' hne
      exact ⟨hkeep t h1, h2⟩
    · exact fun hl => absurd hl (by simp [becomeFollowerLocked])
    · exact fun hl => absurd hl (by simp [becomeFollowerLocked])
  · exact h.congr rfl rfl rfl rfl rfl rfl rfl rfl

lemma VoteInv.stepTimersLocked (hid : n.id ≠ "") (draw : Nat)
    (hwrap : n.currentTerm + 1 < uint64Size) : VoteInv sent (n.stepTimersLocked draw) := by
  unfold Node.stepTimersLocked
  split
  case h_1 hrole =>
    have hrole' : n.leaderHeartbeat.role = .leader := by
      obtain ⟨e, ms, heq, -⟩ := leaderHeartbeat_eq n
      rw [heq]
      exact hrole
    exact h.leaderHeartbeat.leaderQuorumCheck hrole'
  case h_2 =>
    have h1 : VoteInv sent { n with electionElapsed := n.electionElapsed + 1 } :=
      h.congr rfl rfl rfl rfl rfl rfl rfl rfl
    dsimp only
    split
    · exact h1.startElectionLocked hid draw hwrap
    · exact h1

lemma VoteInv.foldl_handleLocked {ms : List Message} (hid : n.id ≠ "")
    (hms : ∀ m ∈ ms, m ∈ sent ∧ m.fromId ≠ "" ∧ m.toId = n.id) :
    VoteInv sent (ms.foldl Node.handleLocked n) := by
  induction ms generalizing n with
  | nil => exact h
  | cons m ms ih =>
    obtain ⟨hsent, hnamed, haddr⟩ := hms m mem_cons_self
    have hkeep := (handleLocked_extends n m).id_eq
    refine ih (h.handleLocked hid ⟨hsent, hnamed, haddr⟩) (by rw [hkeep]; exact hid) ?_
    intro m' hm'
    rw [hkeep]
    exact hms m' (mem_cons_of_mem m hm')

end Invariant

end Node

end Symkernel.Coordination
