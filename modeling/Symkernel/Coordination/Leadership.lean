import Symkernel.Coordination.Frame

/-!
# Leading for one tick
-/

namespace Symkernel.Coordination

namespace Node

def LeaderOf (n : Node) (T : Nat) : Prop :=
  n.role = .leader ∧ n.currentTerm = T

instance (n : Node) (T : Nat) : Decidable (LeaderOf n T) :=
  inferInstanceAs (Decidable (n.role = .leader ∧ n.currentTerm = T))

def IsAck (m : Message) (T : Nat) (peer : String) : Prop :=
  m.type = .appendEntriesResp ∧ m.success = true ∧ m.term = T ∧ m.fromId = peer

def started (n : Node) : Node :=
  { n with tick := (n.tick + 1) % uint64Size, inbox := [] }

structure SameSetup (n n' : Node) : Prop where
  cfg : n'.cfg = n.cfg
  id : n'.id = n.id
  peers : n'.peers = n.peers
  members : n'.members = n.members
  tick : n'.tick = n.tick

lemma SameSetup.refl (n : Node) : SameSetup n n :=
  ⟨rfl, rfl, rfl, rfl, rfl⟩

variable {n n' n'' : Node}

lemma SameSetup.trans (h : SameSetup n n') (h' : SameSetup n' n'') : SameSetup n n'' :=
  ⟨h'.cfg.trans h.cfg, h'.id.trans h.id, h'.peers.trans h.peers, h'.members.trans h.members,
    h'.tick.trans h.tick⟩

/-! ### One message -/

/-- What a handler leaves as it is. No message makes a node a candidate. -/
structure Handled (n n' : Node) : Prop extends SameSetup n n' where
  candidate : n'.role = .candidate → n.role = .candidate

lemma Handled.refl (n : Node) : Handled n n :=
  ⟨SameSetup.refl n, fun h => h⟩

lemma Handled.trans (h : Handled n n') (h' : Handled n' n'') : Handled n n'' :=
  ⟨h.toSameSetup.trans h'.toSameSetup, h.candidate ∘ h'.candidate⟩

lemma promoteOnMajority_setup (n : Node) : SameSetup n n.promoteOnMajority := by
  unfold promoteOnMajority
  split <;> exact ⟨rfl, rfl, rfl, rfl, rfl⟩

lemma promoteOnMajority_handled (n : Node) : Handled n n.promoteOnMajority := by
  refine ⟨promoteOnMajority_setup n, ?_⟩
  unfold promoteOnMajority
  split
  · exact nofun
  · exact fun h => h

lemma handleRequestVoteLocked_handled (n : Node) (m : Message) :
    Handled n (n.handleRequestVoteLocked m) := by
  have hadopt : Handled n (n.adoptRequestTerm m) := by
    unfold adoptRequestTerm
    split
    · exact ⟨⟨rfl, rfl, rfl, rfl, rfl⟩, nofun⟩
    · exact Handled.refl n
  refine hadopt.trans ?_
  unfold handleRequestVoteLocked
  dsimp only
  split <;> exact ⟨⟨rfl, rfl, rfl, rfl, rfl⟩, fun h => h⟩

lemma handleRequestVoteRespLocked_handled (n : Node) (m : Message) :
    Handled n (n.handleRequestVoteRespLocked m) := by
  unfold handleRequestVoteRespLocked
  split
  · exact ⟨⟨rfl, rfl, rfl, rfl, rfl⟩, nofun⟩
  split
  · exact Handled.refl n
  split
  · exact ⟨⟨rfl, rfl, rfl, rfl, rfl⟩, fun h => h⟩
  · refine Handled.trans ?_ (promoteOnMajority_handled _)
    exact ⟨⟨rfl, rfl, rfl, rfl, rfl⟩, fun h => h⟩

lemma handleAppendEntriesLocked_handled (n : Node) (m : Message) :
    Handled n (n.handleAppendEntriesLocked m) := by
  unfold handleAppendEntriesLocked
  split
  · exact ⟨⟨rfl, rfl, rfl, rfl, rfl⟩, fun h => h⟩
  · split <;> exact ⟨⟨rfl, rfl, rfl, rfl, rfl⟩, nofun⟩

lemma handleAppendEntriesRespLocked_handled (n : Node) (m : Message) :
    Handled n (n.handleAppendEntriesRespLocked m) := by
  unfold handleAppendEntriesRespLocked
  split
  · exact ⟨⟨rfl, rfl, rfl, rfl, rfl⟩, nofun⟩
  split
  · exact Handled.refl n
  split
  · split <;> exact ⟨⟨rfl, rfl, rfl, rfl, rfl⟩, fun h => h⟩
  · exact Handled.refl n

lemma handleLocked_handled (n : Node) (m : Message) : Handled n (n.handleLocked m) := by
  unfold handleLocked
  split
  · exact handleRequestVoteLocked_handled n m
  · exact handleRequestVoteRespLocked_handled n m
  · exact handleAppendEntriesLocked_handled n m
  · exact handleAppendEntriesRespLocked_handled n m

lemma foldl_handleLocked_handled (ms : List Message) (n : Node) :
    Handled n (ms.foldl handleLocked n) := by
  induction ms generalizing n with
  | nil => exact Handled.refl n
  | cons m ms ih => exact (handleLocked_handled n m).trans (ih _)

/-- How a node that leads term `T` after a message came to do so: it led before and at most
took an acknowledgement, or the message completed its majority. -/
inductive Leads (T : Nat) (n : Node) (m : Message) (n' : Node) : Prop where
  | stays : LeaderOf n T → n'.acks = n.acks → n'.quorumMissTicks = n.quorumMissTicks →
      Leads T n m n'
  | hears {acks} : LeaderOf n T → IsAck m T m.fromId → n.acks = some acks →
      n'.acks = some (Function.update acks m.fromId (some n.tick)) →
      n'.quorumMissTicks = n.quorumMissTicks → Leads T n m n'
  | wins : n.role = .candidate → n.currentTerm = T →
      n'.acks = some (fun peer => if peer = n.id then some n.tick else none) →
      n'.quorumMissTicks = 0 → Leads T n m n'

section Leads

variable {n : Node} {m : Message} {T : Nat}

lemma handleRequestVoteLocked_leads (h : LeaderOf (n.handleRequestVoteLocked m) T) :
    Leads T n m (n.handleRequestVoteLocked m) := by
  unfold handleRequestVoteLocked adoptRequestTerm at h ⊢
  dsimp only at h ⊢
  by_cases hlow : n.currentTerm < m.term
  · rw [if_pos hlow] at h
    split at h <;> cases h.1
  · rw [if_neg hlow] at h ⊢
    by_cases hgrant : n.grants m = true
    · simp only [hgrant] at h ⊢
      exact .stays h rfl rfl
    · simp only [hgrant] at h ⊢
      exact .stays h rfl rfl

lemma handleRequestVoteRespLocked_leads (h : LeaderOf (n.handleRequestVoteRespLocked m) T) :
    Leads T n m (n.handleRequestVoteRespLocked m) := by
  unfold handleRequestVoteRespLocked at h ⊢
  by_cases hlow : n.currentTerm < m.term
  · rw [if_pos hlow] at h
    cases h.1
  · rw [if_neg hlow] at h ⊢
    split at h
    · rename_i hskip
      rw [if_pos hskip]
      exact .stays h rfl rfl
    · rename_i hcount
      rw [if_neg hcount]
      simp only [Bool.or_eq_true, decide_eq_true_eq, not_or, not_not] at hcount
      cases hvotes : n.votes with
      | none =>
        simp only [hvotes] at h ⊢
        exact .stays h rfl rfl
      | some votes =>
        simp only [hvotes] at h ⊢
        unfold promoteOnMajority at h ⊢
        split at h
        · rename_i hmajority
          rw [if_pos hmajority]
          exact .wins hcount.1.1 h.2 rfl rfl
        · rename_i hminority
          rw [if_neg hminority]
          exact .stays h rfl rfl

lemma handleAppendEntriesLocked_leads (h : LeaderOf (n.handleAppendEntriesLocked m) T) :
    Leads T n m (n.handleAppendEntriesLocked m) := by
  unfold handleAppendEntriesLocked at h ⊢
  by_cases hstale : m.term < n.currentTerm
  · rw [if_pos hstale] at h ⊢
    exact .stays h rfl rfl
  · rw [if_neg hstale] at h
    split at h <;> cases h.1

lemma handleAppendEntriesRespLocked_leads (htype : m.type = .appendEntriesResp)
    (h : LeaderOf (n.handleAppendEntriesRespLocked m) T) :
    Leads T n m (n.handleAppendEntriesRespLocked m) := by
  unfold handleAppendEntriesRespLocked at h ⊢
  by_cases hlow : n.currentTerm < m.term
  · rw [if_pos hlow] at h
    cases h.1
  · rw [if_neg hlow] at h ⊢
    split at h
    · rename_i hskip
      rw [if_pos hskip]
      exact .stays h rfl rfl
    · rename_i hcount
      rw [if_neg hcount]
      simp only [Bool.or_eq_true, decide_eq_true_eq, not_or, not_not] at hcount
      split at h
      · rename_i hsuccess
        rw [if_pos hsuccess]
        cases hacks : n.acks with
        | none =>
          simp only [hacks] at h ⊢
          exact .stays h hacks.symm rfl
        | some acks =>
          simp only [hacks] at h ⊢
          exact .hears h ⟨htype, hsuccess, hcount.2.trans h.2, rfl⟩ hacks rfl rfl
      · rename_i hsuccess
        rw [if_neg hsuccess]
        exact .stays h rfl rfl

lemma handleLocked_leads (h : LeaderOf (n.handleLocked m) T) : Leads T n m (n.handleLocked m) := by
  unfold handleLocked at h ⊢
  split at h
  · exact handleRequestVoteLocked_leads h
  · exact handleRequestVoteRespLocked_leads h
  · exact handleAppendEntriesLocked_leads h
  · exact handleAppendEntriesRespLocked_leads ‹_› h

end Leads

/-! ### One tick -/

/-- Among the messages `ms` there is an acknowledgement by `peer` that the node, having handled
those before it, takes as leader of term `T`. -/
def Hears (T : Nat) (n : Node) (ms : List Message) (peer : String) : Prop :=
  ∃ front m back, ms = front ++ m :: back ∧ IsAck m T peer ∧ LeaderOf (front.foldl handleLocked n) T

variable {T : Nat}

lemma Hears.concat {ms : List Message} {peer : String} (h : Hears T n ms peer) (m : Message) :
    Hears T n (ms ++ [m]) peer := by
  obtain ⟨front, m', back, rfl, hack, hlead⟩ := h
  exact ⟨front, m', back ++ [m], by simp, hack, hlead⟩

/-- What a node that leads term `T` after the messages `ms` knows: whom it has heard, and the
ticks it has missed. -/
structure Drained (T : Nat) (n : Node) (ms : List Message) (n' : Node) : Prop where
  known : ∃ acks, n'.acks = some acks ∧ ∀ peer t, acks peer = some t → peer ≠ n.id →
    (t = n.tick ∧ Hears T n ms peer) ∨ (LeaderOf n T ∧ n.acks.bind (· peer) = some t)
  missed : (n.role = .candidate ∧ n'.quorumMissTicks = 0) ∨
    (LeaderOf n T ∧ n'.quorumMissTicks = n.quorumMissTicks)

lemma foldl_handleLocked_drained (hacks : n.role = .leader → ∃ acks, n.acks = some acks)
    (ms : List Message) (h : LeaderOf (ms.foldl handleLocked n) T) :
    Drained T n ms (ms.foldl handleLocked n) := by
  induction ms using List.reverseRecOn with
  | nil =>
    obtain ⟨acks, heq⟩ := hacks h.1
    refine ⟨⟨acks, heq, ?_⟩, .inr ⟨h, rfl⟩⟩
    intro peer t ht _
    exact .inr ⟨h, by rw [heq]; exact ht⟩
  | append_singleton ms m ih =>
    have hhandled := foldl_handleLocked_handled ms n
    rw [List.foldl_append, List.foldl_cons, List.foldl_nil] at h ⊢
    cases handleLocked_leads h with
    | stays hlead hsame hmiss =>
      obtain ⟨⟨acks, heq, hknown⟩, hmissed⟩ := ih hlead
      refine ⟨⟨acks, hsame.trans heq, ?_⟩, by rw [hmiss]; exact hmissed⟩
      intro peer t ht hne
      exact (hknown peer t ht hne).imp_left fun hk => ⟨hk.1, hk.2.concat m⟩
    | @hears acks hlead hack hbefore hafter hmiss =>
      obtain ⟨⟨acks', heq, hknown⟩, hmissed⟩ := ih hlead
      obtain rfl : acks' = acks := Option.some.inj (heq.symm.trans hbefore)
      refine ⟨⟨_, hafter, ?_⟩, by rw [hmiss]; exact hmissed⟩
      intro peer t ht hne
      by_cases hpeer : peer = m.fromId
      · subst hpeer
        rw [Function.update_self, hhandled.tick] at ht
        exact .inl ⟨(Option.some.inj ht).symm, ms, m, [], rfl, hack, hlead⟩
      · rw [Function.update_of_ne hpeer] at ht
        exact (hknown peer t ht hne).imp_left fun hk => ⟨hk.1, hk.2.concat m⟩
    | wins hcand hterm hafter hmiss =>
      refine ⟨⟨_, hafter, ?_⟩, .inl ⟨hhandled.candidate hcand, hmiss⟩⟩
      intro peer t ht hne
      rw [hhandled.id, if_neg hne] at ht
      cases ht

lemma leaderHeartbeat_setup (n : Node) : SameSetup n n.leaderHeartbeat := by
  obtain ⟨e, ms, heq, -⟩ := leaderHeartbeat_eq n
  rw [heq]
  exact ⟨rfl, rfl, rfl, rfl, rfl⟩

lemma leaderQuorumCheck_setup (n : Node) : SameSetup n n.leaderQuorumCheck := by
  unfold leaderQuorumCheck
  split
  · exact ⟨rfl, rfl, rfl, rfl, rfl⟩
  · dsimp only
    split <;> exact ⟨rfl, rfl, rfl, rfl, rfl⟩

lemma stepTimersLocked_setup (n : Node) (draw : Nat) : SameSetup n (n.stepTimersLocked draw) := by
  unfold stepTimersLocked
  split
  · exact (leaderHeartbeat_setup n).trans (leaderQuorumCheck_setup _)
  · dsimp only
    split
    · obtain ⟨ms, heq⟩ :=
        startElectionLocked_eq { n with electionElapsed := n.electionElapsed + 1 } draw
      rw [heq]
      refine SameSetup.trans ?_ (promoteOnMajority_setup _)
      exact ⟨rfl, rfl, rfl, rfl, rfl⟩
    · exact ⟨rfl, rfl, rfl, rfl, rfl⟩

lemma hasQuorumLocked_congr (h : SameSetup n n') (hacks : n'.acks = n.acks) :
    n'.hasQuorumLocked = n.hasQuorumLocked := by
  have hfresh : n'.freshAck = n.freshAck := by
    funext peer
    unfold freshAck
    rw [hacks, h.tick, h.cfg]
  unfold hasQuorumLocked
  rw [hfresh, h.members, h.peers]

/-- How a node that leads term `T` after its timers came to do so: with a quorum, with one more
missed tick, or by an election that its own vote decides. -/
inductive Holds (T : Nat) (n n' : Node) : Prop where
  | supported : LeaderOf n T → n'.hasQuorumLocked = true → n'.acks = n.acks →
      n'.quorumMissTicks = 0 → Holds T n n'
  | misses : LeaderOf n T → n'.acks = n.acks → n'.quorumMissTicks = n.quorumMissTicks + 1 →
      n'.quorumMissTicks < n'.cfg.quorumLossTicks → Holds T n n'
  | alone : n'.hasQuorumLocked = true →
      n'.acks = some (fun peer => if peer = n.id then some n.tick else none) →
      n'.quorumMissTicks = 0 → Holds T n n'

lemma Holds.congr {n₁ : Node} (h : Holds T n₁ n') (hlead : LeaderOf n₁ T → LeaderOf n T)
    (hacks : n₁.acks = n.acks) (hmiss : n₁.quorumMissTicks = n.quorumMissTicks)
    (hid : n₁.id = n.id) (htick : n₁.tick = n.tick) : Holds T n n' := by
  cases h with
  | supported h hquorum hsame hnone => exact .supported (hlead h) hquorum (hsame.trans hacks) hnone
  | misses h hsame hmore hlow =>
    exact .misses (hlead h) (hsame.trans hacks) (by rw [hmore, hmiss]) hlow
  | alone hquorum hown hnone => exact .alone hquorum (by rw [hown, hid, htick]) hnone

lemma leaderQuorumCheck_holds (h : LeaderOf n.leaderQuorumCheck T) (hrole : n.role = .leader) :
    Holds T n n.leaderQuorumCheck := by
  have hsetup := leaderQuorumCheck_setup n
  unfold leaderQuorumCheck at h hsetup ⊢
  by_cases hquorum : n.hasQuorumLocked = true
  · rw [if_pos hquorum] at h hsetup ⊢
    exact .supported ⟨hrole, h.2⟩ ((hasQuorumLocked_congr hsetup rfl).trans hquorum) rfl rfl
  · rw [if_neg hquorum] at h hsetup ⊢
    dsimp only at h ⊢
    split at h
    · cases h.1
    · rename_i hmiss
      rw [if_neg hmiss]
      exact .misses ⟨hrole, h.2⟩ rfl rfl (not_le.mp hmiss)

lemma startElectionLocked_holds {draw : Nat} (h : LeaderOf (n.startElectionLocked draw) T) :
    Holds T n (n.startElectionLocked draw) := by
  obtain ⟨ms, heq⟩ := startElectionLocked_eq n draw
  rw [heq] at h ⊢
  unfold promoteOnMajority at h ⊢
  split at h
  · rename_i hmajority
    rw [if_pos hmajority]
    refine .alone ?_ rfl rfl
    have hone : majorityOf n.members.length ≤ 1 := hmajority
    exact decide_eq_true (hone.trans (Nat.le_add_right 1 _))
  · cases h.1

lemma stepTimersLocked_holds (draw : Nat) (h : LeaderOf (n.stepTimersLocked draw) T) :
    Holds T n (n.stepTimersLocked draw) := by
  unfold stepTimersLocked at h ⊢
  split at h
  · rename_i hrole
    obtain ⟨e, ms, heq, -⟩ := leaderHeartbeat_eq n
    rw [heq] at h ⊢
    exact (leaderQuorumCheck_holds h hrole).congr (fun h => h) rfl rfl rfl rfl
  · rename_i hrole
    dsimp only at h ⊢
    split at h
    · rename_i htimeout
      rw [if_pos htimeout]
      exact (startElectionLocked_holds h).congr (fun h => h) rfl rfl rfl rfl
    · exact absurd h.1 (by simpa using hrole)

end Node

structure TickRecord where
  before : Node
  draw : Nat

namespace TickRecord

open Node

def after (r : TickRecord) : Node := (r.before.tickNode r.draw).1

def Acknowledges (r : TickRecord) (T : Nat) (peer : String) : Prop :=
  Hears T r.before.started r.before.inbox peer

lemma after_setup (r : TickRecord) : SameSetup r.before.started r.after :=
  (foldl_handleLocked_handled r.before.inbox r.before.started).toSameSetup.trans
    ((stepTimersLocked_setup r.before.drainInbox r.draw).trans ⟨rfl, rfl, rfl, rfl, rfl⟩)

/-- A leader of term `T` at the end of a tick: what it knows of its peers, and that it has a
quorum or has counted one more missed tick. -/
structure Leads (r : TickRecord) (T : Nat) : Prop where
  known : ∃ acks, r.after.acks = some acks ∧
    ∀ peer t, acks peer = some t → peer ≠ r.before.id →
      (t = r.after.tick ∧ r.Acknowledges T peer) ∨
        (LeaderOf r.before T ∧ r.before.acks.bind (· peer) = some t)
  counted : r.after.hasQuorumLocked = true ∨
    (r.after.quorumMissTicks < r.after.cfg.quorumLossTicks ∧
      ((r.before.role = .candidate ∧ r.after.quorumMissTicks = 1) ∨
        (LeaderOf r.before T ∧ r.after.quorumMissTicks = r.before.quorumMissTicks + 1)))
  missed : (LeaderOf r.before T → 0 ≤ r.before.quorumMissTicks) → 0 ≤ r.after.quorumMissTicks

lemma leads_of_leaderOf {r : TickRecord} {T : Nat}
    (hacks : r.before.role = .leader → ∃ acks, r.before.acks = some acks)
    (h : LeaderOf r.after T) : r.Leads T := by
  have hhandled : Handled r.before.started r.before.drainInbox :=
    foldl_handleLocked_handled r.before.inbox r.before.started
  have hdrain : LeaderOf r.before.drainInbox T →
      Drained T r.before.started r.before.inbox r.before.drainInbox :=
    foldl_handleLocked_drained (n := r.before.started) hacks r.before.inbox
  have htick : r.before.started.tick = r.after.tick := r.after_setup.tick.symm
  cases stepTimersLocked_holds (n := r.before.drainInbox) r.draw h with
  | supported hlead hquorum hsame hnone =>
    obtain ⟨⟨acks, heq, hknown⟩, -⟩ := hdrain hlead
    refine ⟨⟨acks, hsame.trans heq, ?_⟩, .inl hquorum, fun _ => hnone.ge⟩
    rw [← htick]
    exact hknown
  | misses hlead hsame hmore hlow =>
    obtain ⟨⟨acks, heq, hknown⟩, hmissed⟩ := hdrain hlead
    have hmore : r.after.quorumMissTicks = r.before.drainInbox.quorumMissTicks + 1 := hmore
    refine ⟨⟨acks, hsame.trans heq, ?_⟩, .inr ⟨hlow, ?_⟩, ?_⟩
    · rw [← htick]
      exact hknown
    · refine hmissed.imp (fun hc => ⟨hc.1, ?_⟩) (fun hl => ⟨hl.1, ?_⟩)
      · rw [hmore, hc.2, Int.zero_add]
      · rw [hmore, hl.2]
        rfl
    · intro hbefore
      rw [hmore]
      rcases hmissed with ⟨-, hzero⟩ | ⟨hlead', hsame'⟩
      · rw [hzero]
        decide
      · rw [hsame']
        exact Int.add_nonneg (hbefore hlead') (by decide)
  | alone hquorum hown hnone =>
    refine ⟨⟨_, hown, ?_⟩, .inl hquorum, fun _ => hnone.ge⟩
    intro peer t ht hne
    rw [hhandled.id, if_neg (show peer ≠ r.before.started.id from hne)] at ht
    cases ht

end TickRecord

end Symkernel.Coordination
