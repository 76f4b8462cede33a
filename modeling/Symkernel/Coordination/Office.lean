import Symkernel.Coordination.Cluster
import Symkernel.Coordination.Leadership

/-!
# A leader's support
-/

namespace Symkernel.Coordination

open Library Node List Function

/-! ### The ticks of one node -/

/-- What a schedule does to one node: it receives messages and ticks; `records` are its ticks so
far, the oldest first. -/
inductive NodeRun (config : NodeConfig) (draw : Nat) : List TickRecord → Node → Prop where
  | start : NodeRun config draw [] (newNode config draw)
  | receive {records n} (m : Message) : NodeRun config draw records n →
      NodeRun config draw records (n.receive m)
  | tick {records n} (d : Nat) : NodeRun config draw records n →
      NodeRun config draw (records ++ [⟨n, d⟩]) (TickRecord.after ⟨n, d⟩)

def Backed (records : List TickRecord) (T : Nat) (peer : String) (t : Nat) : Prop :=
  ∃ old r later, records = old ++ r :: later ∧ r.Acknowledges T peer ∧
    (∀ r' ∈ r :: later, LeaderOf r'.after T) ∧ t = (old.length + 1) % uint64Size

variable {records : List TickRecord} {t draw : Nat}

lemma Backed.concat {T : Nat} {peer : String} (h : Backed records T peer t) {r : TickRecord}
    (hr : LeaderOf r.after T) : Backed (records ++ [r]) T peer t := by
  obtain ⟨old, r₀, later, rfl, hack, hlead, ht⟩ := h
  refine ⟨old, r₀, later ++ [r], by simp, hack, ?_, ht⟩
  intro r' hr'
  rw [← cons_append, mem_append, mem_singleton] at hr'
  rcases hr' with hold | rfl
  · exact hlead r' hold
  · exact hr

structure OfficeInv (config : NodeConfig) (records : List TickRecord) (n : Node) : Prop where
  cfg : n.cfg = normalizeConfig config
  id : n.id = config.id
  peers : n.peers = config.peers
  members : n.members.length = config.peers.length + 1
  tick : n.tick = records.length % uint64Size
  missed : n.role = .leader → 0 ≤ n.quorumMissTicks
  acks : n.role = .leader → ∃ acks, n.acks = some acks
  backed : ∀ T peer t, LeaderOf n T → peer ≠ config.id → n.acks.bind (· peer) = some t →
    Backed records T peer t

lemma newNode_officeInv (config : NodeConfig) (draw : Nat) :
    OfficeInv config [] (newNode config draw) := by
  refine ⟨rfl, rfl, rfl, ?_, rfl, nofun, nofun, fun _ _ _ h => absurd h.1 nofun⟩
  exact length_insertionSort _ _

variable {config : NodeConfig} {n : Node}

lemma OfficeInv.tickNode (h : OfficeInv config records n) (d : Nat) :
    OfficeInv config (records ++ [⟨n, d⟩]) (TickRecord.after ⟨n, d⟩) := by
  set r : TickRecord := ⟨n, d⟩ with hr
  have hsetup := r.after_setup
  have htick : r.after.tick = (records.length + 1) % uint64Size := by
    rw [hsetup.tick]
    show (n.tick + 1) % uint64Size = _
    rw [h.tick, Nat.mod_add_mod]
  refine ⟨hsetup.cfg.trans h.cfg, hsetup.id.trans h.id, hsetup.peers.trans h.peers, ?_, ?_, ?_, ?_,
    ?_⟩
  · rw [hsetup.members]
    exact h.members
  · rw [htick, length_append, length_singleton]
  · intro hrole
    exact (TickRecord.leads_of_leaderOf h.acks ⟨hrole, rfl⟩).missed fun hl => h.missed hl.1
  · intro hrole
    obtain ⟨acks, heq, -⟩ := (TickRecord.leads_of_leaderOf h.acks ⟨hrole, rfl⟩).known
    exact ⟨acks, heq⟩
  · intro T peer t hlead hne ht
    obtain ⟨acks, heq, hknown⟩ := (TickRecord.leads_of_leaderOf h.acks hlead).known
    rw [heq] at ht
    rcases hknown peer t ht (by rw [h.id]; exact hne) with ⟨rfl, hack⟩ | ⟨hbefore, hold⟩
    · refine ⟨records, r, [], rfl, hack, ?_, htick⟩
      intro r' hr'
      rw [List.mem_singleton.mp hr']
      exact hlead
    · exact (h.backed T peer t hbefore hne hold).concat hlead

lemma NodeRun.officeInv (h : NodeRun config draw records n) : OfficeInv config records n := by
  induction h with
  | start => exact newNode_officeInv config draw
  | receive m _ ih => exact ⟨ih.cfg, ih.id, ih.peers, ih.members, ih.tick, ih.missed, ih.acks, ih.backed⟩
  | tick d _ ih => exact ih.tickNode d

section Window

variable {config : NodeConfig} {draw : Nat} {records : List TickRecord} {n : Node} {T : Nat}

variable {last front : List TickRecord} {r : TickRecord}

lemma NodeRun.upTo (h : NodeRun config draw records n) {back : List TickRecord}
    (hsplit : records = front ++ r :: back) : NodeRun config draw (front ++ [r]) r.after := by
  induction h generalizing back with
  | start => simp at hsplit
  | receive m _ ih => exact ih hsplit
  | @tick records n d hn ih =>
    rcases eq_nil_or_concat' back with rfl | ⟨back', r', rfl⟩
    · rw [← hsplit]
      obtain ⟨-, hr⟩ := append_inj' hsplit rfl
      rw [← (List.cons.inj hr).1]
      exact hn.tick d
    · rw [← cons_append, ← append_assoc] at hsplit
      exact ih (append_inj' hsplit rfl).1

lemma NodeRun.leaderOf_last (h : NodeRun config draw records n) (hsplit : records = front ++ [r])
    (hr : LeaderOf r.after T) : LeaderOf n T := by
  induction h with
  | start => simp at hsplit
  | receive m _ ih => exact ih hsplit
  | tick d _ _ =>
    obtain ⟨-, heq⟩ := append_inj' hsplit rfl
    rw [(List.cons.inj heq).1]
    exact hr

/-- Over ticks that all end in office, either one of them ends with a quorum or each of them
counts as missed. -/
lemma NodeRun.quorum_or_missed (h : NodeRun config draw records n)
    (hsplit : records = front ++ last) (hlast : last ≠ [])
    (hlead : ∀ r ∈ last, LeaderOf r.after T) :
    (∃ l₁ r l₂, last = l₁ ++ r :: l₂ ∧ r.after.hasQuorumLocked = true) ∨
      ((last.length : Int) ≤ n.quorumMissTicks ∧ n.quorumMissTicks < n.cfg.quorumLossTicks) := by
  induction h generalizing last with
  | start => simp_all
  | receive m _ ih => exact ih hsplit hlast hlead
  | @tick records n d hn ih =>
    rcases eq_nil_or_concat' last with rfl | ⟨l, r, rfl⟩
    · exact absurd rfl hlast
    rw [← append_assoc] at hsplit
    obtain ⟨hrecords, heq⟩ := append_inj' hsplit rfl
    obtain rfl := (List.cons.inj heq).1
    have hl : ∀ r ∈ l, LeaderOf r.after T := fun r hr => hlead r (mem_append_left _ hr)
    have hbefore : l ≠ [] → LeaderOf n T := by
      intro hne
      rcases eq_nil_or_concat' l with rfl | ⟨l', r', rfl⟩
      · exact absurd rfl hne
      · rw [← append_assoc] at hrecords
        exact hn.leaderOf_last hrecords (hl r' (by simp))
    have hleads := TickRecord.leads_of_leaderOf hn.officeInv.acks (hlead ⟨n, d⟩ (by simp))
    rcases hleads.counted with hquorum | ⟨hlow, hcount⟩
    · exact .inl ⟨l, ⟨n, d⟩, [], rfl, hquorum⟩
    rcases hcount with ⟨hcand, hone⟩ | ⟨hleader, hmore⟩
    · have hnil : l = [] := by
        by_contra hne
        have hrole := (hbefore hne).1
        rw [hcand] at hrole
        cases hrole
      refine .inr ⟨?_, hlow⟩
      simp [hnil, hone]
    · by_cases hne : l = []
      · refine .inr ⟨?_, hlow⟩
        rw [hmore, hne]
        exact Int.add_le_add_right (hn.officeInv.missed hleader.1) 1
      · rcases ih hrecords hne hl with ⟨l₁, r, l₂, rfl, hquorum⟩ | ⟨hlen, -⟩
        · exact .inl ⟨l₁, r, l₂ ++ [⟨n, d⟩], by simp, hquorum⟩
        · refine .inr ⟨?_, hlow⟩
          rw [hmore, length_append]
          exact Int.add_le_add_right hlen 1

lemma normalizeConfig_quorumLossTicks_pos (config : NodeConfig) :
    0 < (normalizeConfig config).quorumLossTicks := by
  unfold normalizeConfig
  dsimp only
  split
  · decide
  · omega

/-- An acknowledgement that looks fresh is as old as it looks, while the node has not been in
office for the whole `uint64` range. -/
lemma Backed.age {old later : List TickRecord}
    (htick : n.tick = (old ++ r :: later).length % uint64Size)
    (hlater : later.length < uint64Size) :
    (n.tick + uint64Size - (old.length + 1) % uint64Size) % uint64Size = later.length := by
  have hlen : (old ++ r :: later).length = old.length + 1 + later.length := by
    simp
    omega
  unfold uint64Size at *
  omega

lemma NodeRun.fresh_backed (h : NodeRun config draw records n) (hlead : LeaderOf n T)
    (hoffice : ∀ old office, records = old ++ office → (∀ r ∈ office, LeaderOf r.after T) →
      office.length ≤ uint64Size)
    {peer : String} (hpeer : peer ≠ config.id) (hfresh : n.freshAck peer = true) :
    ∃ old r later, records = old ++ r :: later ∧ r.Acknowledges T peer ∧
      (∀ r' ∈ r :: later, LeaderOf r'.after T) ∧
      (later.length : Int) ≤ (normalizeConfig config).quorumAckTicks := by
  unfold freshAck at hfresh
  split at hfresh
  · cases hfresh
  · rename_i t ht
    obtain ⟨old, r, later, hsplit, hack, hsince, hnumber⟩ := h.officeInv.backed T peer t hlead hpeer ht
    have hlater : later.length < uint64Size := hoffice old (r :: later) hsplit hsince
    have htick := h.officeInv.tick
    rw [hsplit] at htick
    rw [hnumber, Backed.age htick hlater, h.officeInv.cfg] at hfresh
    exact ⟨old, r, later, hsplit, hack, hsince, of_decide_eq_true hfresh⟩

lemma NodeRun.support (h : NodeRun config draw records n) (hnodup : config.peers.Nodup)
    (hself : config.id ∉ config.peers) (hsplit : records = front ++ last)
    (hlast : (last.length : Int) = (normalizeConfig config).quorumLossTicks)
    (hlead : ∀ r ∈ last, LeaderOf r.after T)
    (hoffice : ∀ old office, records = old ++ office → (∀ r ∈ office, LeaderOf r.after T) →
      office.length ≤ uint64Size) : ∃ peers : Finset String, peers ⊆ config.peers.toFinset ∧
      majorityOf (config.peers.length + 1) ≤ 1 + peers.card ∧
      ∀ peer ∈ peers, ∃ old r later, records = old ++ r :: later ∧ r.Acknowledges T peer ∧
        (∀ r' ∈ r :: later, LeaderOf r'.after T) ∧
        (later.length : Int) < (normalizeConfig config).quorumAckTicks +
          (normalizeConfig config).quorumLossTicks := by
  have hpos := normalizeConfig_quorumLossTicks_pos config
  have hne : last ≠ [] := by
    rintro rfl
    simp at hlast
    omega
  rcases h.quorum_or_missed hsplit hne hlead with ⟨l₁, r, l₂, rfl, hquorum⟩ | ⟨hlen, hlow⟩
  swap
  · rw [h.officeInv.cfg] at hlow
    omega
  rw [← append_assoc] at hsplit
  have hrun := h.upTo hsplit
  have hsplit' : records = front ++ l₁ ++ [r] ++ l₂ := by
    rw [hsplit, append_assoc _ [r] l₂]
    rfl
  have hrleads : LeaderOf r.after T := hlead r (by simp)
  have hl₂ : ∀ r' ∈ l₂, LeaderOf r'.after T := fun r' hr' => hlead r' (by simp [hr'])
  have hshort : ∀ old office, front ++ l₁ ++ [r] = old ++ office →
      (∀ r ∈ office, LeaderOf r.after T) → office.length ≤ uint64Size := by
    intro old office heq hsince
    refine le_trans ?_ (hoffice old (office ++ l₂) (by rw [hsplit', heq]; simp) ?_)
    · simp
    · intro r' hr'
      rw [mem_append] at hr'
      exact hr'.elim (hsince r') (hl₂ r')
  refine ⟨(config.peers.filter r.after.freshAck).toFinset, ?_, ?_, ?_⟩
  · intro peer hpeer
    rw [mem_toFinset] at hpeer ⊢
    exact mem_of_mem_filter hpeer
  · rw [toFinset_card_of_nodup (hnodup.filter _), ← countP_eq_length_filter]
    have hmajority := of_decide_eq_true hquorum
    rw [hrun.officeInv.members, hrun.officeInv.peers] at hmajority
    exact hmajority
  · intro peer hpeer
    rw [mem_toFinset, mem_filter] at hpeer
    have hpeer' : peer ≠ config.id := by
      rintro rfl
      exact hself hpeer.1
    obtain ⟨old, r₀, later, heq, hack, hsince, hage⟩ :=
      hrun.fresh_backed hrleads hshort hpeer' hpeer.2
    refine ⟨old, r₀, later ++ l₂, by rw [hsplit', heq]; simp, hack, ?_, ?_⟩
    · intro r' hr'
      rw [← cons_append, mem_append] at hr'
      exact hr'.elim (hsince r') (hl₂ r')
    · have hl : (l₁ ++ r :: l₂).length = l₁.length + 1 + l₂.length := by
        simp
        omega
      rw [length_append]
      omega

end Window

/-! ### Schedules -/

namespace ClusterConfig

variable (C : ClusterConfig)

def tickOf (i : String) (s : Cluster) : Action → List TickRecord
  | .tick j draw => if j = i ∧ j ∈ C.members then [⟨s.node i, draw⟩] else []
  | .deliver _ => []

def ticksOf (i : String) (schedule : List Action) : List TickRecord :=
  outputs C.step (C.tickOf i) C.initial schedule

lemma ticksOf_append (i : String) (front back : List Action) : C.ticksOf i (front ++ back) =
      C.ticksOf i front ++ outputs C.step (C.tickOf i) (C.after front) back :=
  outputs_append _ _ _ _

end ClusterConfig

variable {C : ClusterConfig}

lemma step_nodeRun {i : String} (hi : i ∈ C.members) {s : Cluster}
    (h : NodeRun config draw records (s.node i)) (a : Action) :
    NodeRun config draw (records ++ C.tickOf i s a) ((C.step s a).node i) := by
  cases a with
  | tick j d =>
    by_cases hj : j = i
    · subst hj
      simp only [ClusterConfig.tickOf, ClusterConfig.step, hi, if_true,
        ClusterConfig.tickStep, update_self]
      exact h.tick d
    · have hsame : (C.step s (.tick j d)).node i = s.node i := by
        unfold ClusterConfig.step
        dsimp only
        split
        · exact update_of_ne (Ne.symm hj) _ _
        · rfl
      simpa [ClusterConfig.tickOf, hj, hsame] using h
  | deliver m =>
    simp only [ClusterConfig.tickOf, append_nil, ClusterConfig.step]
    split
    · by_cases hto : i = m.toId
      · subst hto
        simp only [ClusterConfig.deliverStep, update_self]
        exact h.receive m
      · simpa [ClusterConfig.deliverStep, hto] using h
    · exact h

lemma after_nodeRun {i : String} (hi : i ∈ C.members) (schedule : List Action) :
    NodeRun (C.config i) (C.draw i) (C.ticksOf i schedule) ((C.after schedule).node i) := by
  induction schedule using reverseRecOn with
  | nil => exact .start
  | append_singleton schedule a ih =>
    have hticks : C.ticksOf i (schedule ++ [a]) =
        C.ticksOf i schedule ++ C.tickOf i (C.after schedule) a := by
      rw [C.ticksOf_append]
      simp [outputs]
    rw [hticks, after_concat]
    exact step_nodeRun hi ih a

/-- **A leader holds office only on fresh majority support.** If member `i` leads term `T` at the
end of each of its last `QuorumLossTicks` ticks, then a majority but for one of the members are
peers that it has heard, as leader of the term and without losing office since, within its last
`QuorumAckTicks + QuorumLossTicks` ticks. The leader is in office for at most as many ticks as
`uint64` has values. -/
theorem leader_has_fresh_majority (C : ClusterConfig) (i : String) (hi : i ∈ C.members)
    (schedule : List Action) (T : Nat) (front last : List TickRecord)
    (hsplit : C.ticksOf i schedule = front ++ last)
    (hlast : (last.length : Int) = (normalizeConfig (C.config i)).quorumLossTicks)
    (hlead : ∀ r ∈ last, LeaderOf r.after T)
    (hoffice : ∀ old office, C.ticksOf i schedule = old ++ office →
      (∀ r ∈ office, LeaderOf r.after T) → office.length ≤ uint64Size) :
    ∃ peers : Finset String, (∀ peer ∈ peers, peer ∈ C.members ∧ peer ≠ i) ∧
      majorityOf C.members.length - 1 ≤ peers.card ∧
      ∀ peer ∈ peers, ∃ old r later, C.ticksOf i schedule = old ++ r :: later ∧
        r.Acknowledges T peer ∧ (∀ r' ∈ r :: later, LeaderOf r'.after T) ∧
        (later.length : Int) < (normalizeConfig (C.config i)).quorumAckTicks +
          (normalizeConfig (C.config i)).quorumLossTicks := by
  have hperm := C.config_peers i hi
  have hmem : ∀ peer, peer ∈ (C.config i).peers ↔ peer ≠ i ∧ peer ∈ C.members := by
    intro peer
    rw [hperm.mem_iff, C.nodup.mem_erase_iff]
  have hlength : (C.config i).peers.length + 1 = C.members.length := by
    rw [hperm.length_eq, length_erase_add_one hi]
  have hself : (C.config i).id ∉ (C.config i).peers := by
    rw [C.config_id i hi, hmem]
    exact fun h => h.1 rfl
  have hnodup : (C.config i).peers.Nodup := hperm.nodup_iff.mpr (C.nodup.erase i)
  obtain ⟨peers, hsub, hmajority, hfresh⟩ :=
    (after_nodeRun hi schedule).support hnodup hself hsplit hlast hlead hoffice
  refine ⟨peers, ?_, ?_, hfresh⟩
  · intro peer hpeer
    exact ((hmem peer).mp (List.mem_toFinset.mp (hsub hpeer))).symm
  · rw [hlength] at hmajority
    omega

/-- Three members whose leaders have two ticks to regain a quorum of acknowledgements that are
at most one tick old. -/
def shortWindow : ClusterConfig :=
  let C := newCluster ["a", "b", "c"] (by decide) (fun _ => 0)
  { C with
    config := fun i => { C.config i with quorumLossTicks := 2, quorumAckTicks := 1 }
    config_id := C.config_id
    config_peers := C.config_peers }

def heartbeatOfA (peer : String) : Message :=
  { type := .appendEntries, term := 1, fromId := "a", toId := peer, leaderID := "a" }

def ackToA (peer : String) : Message :=
  { type := .appendEntriesResp, term := 1, fromId := peer, toId := "a", success := true }

/-- `a` times out and wins the vote of `b`; both peers answer its first heartbeat, and `a` hears
the answer of `b`. -/
def supportA : List Action :=
  List.replicate 8 (.tick "a" 0) ++
    [.deliver { type := .requestVote, term := 1, fromId := "a", toId := "b" }, .tick "b" 0,
     .deliver { type := .requestVoteResp, term := 1, fromId := "b", toId := "a", voteGranted := true },
     .tick "a" 0, .deliver (heartbeatOfA "b"), .tick "b" 0, .deliver (heartbeatOfA "c"), .tick "c" 0,
     .deliver (ackToA "b"), .tick "a" 0]

theorem supportA_has_fresh_majority :
    ∃ peer ∈ ["b", "c"], ∃ r ∈ shortWindow.ticksOf "a" supportA, r.Acknowledges 1 peer := by
  obtain ⟨peers, hmem, hcard, hfresh⟩ := leader_has_fresh_majority shortWindow "a" (by decide)
    supportA 1 ((shortWindow.ticksOf "a" supportA).take 8)
    ((shortWindow.ticksOf "a" supportA).drop 8) (take_append_drop 8 _).symm (by decide)
    (by decide) (by
      intro old office heq _
      have hlen : (shortWindow.ticksOf "a" supportA).length = 10 := by decide
      rw [heq, length_append] at hlen
      unfold uint64Size
      omega)
  obtain ⟨peer, hpeer⟩ := Finset.card_pos.mp (lt_of_lt_of_le (by decide) hcard)
  obtain ⟨old, r, later, heq, hack, -⟩ := hfresh peer hpeer
  refine ⟨peer, ?_, r, by rw [heq]; simp, hack⟩
  have hthree : peer ∈ ["a", "b", "c"] ∧ peer ≠ "a" := hmem peer hpeer
  simpa [hthree.2] using hthree.1

/-! ### Tick numbers that wrap -/

lemma tickNode_of_quorum (draw : Nat) (hrole : n.drainInbox.role = .leader)
    (hquorum : n.drainInbox.hasQuorumLocked = true) : ∃ e, (n.tickNode draw).1 =
      { n.drainInbox with heartbeatElapsed := e, quorumMissTicks := 0, outbox := [] } := by
  obtain ⟨e, ms, heq, -⟩ := leaderHeartbeat_eq n.drainInbox
  have hquorum' : n.drainInbox.leaderHeartbeat.hasQuorumLocked = true :=
    (hasQuorumLocked_congr (leaderHeartbeat_setup _) (by rw [heq])).trans hquorum
  have hstep : n.drainInbox.stepTimersLocked draw =
      n.drainInbox.leaderHeartbeat.leaderQuorumCheck := by
    simp only [stepTimersLocked, hrole]
  refine ⟨e, ?_⟩
  unfold tickNode
  rw [hstep]
  unfold leaderQuorumCheck
  rw [if_pos hquorum', heq]

/-- `a` leads term 1, has heard `b` in its tenth tick and `c` in its tick number `c`. -/
structure InOffice (n : Node) (t : Nat) (c : Option Nat) : Prop where
  window : n.cfg.quorumAckTicks = 1
  peers : n.peers = ["b", "c"]
  members : n.members.length = 3
  leads : LeaderOf n 1
  tick : n.tick = t
  acks : ∃ acks, n.acks = some acks ∧ acks "b" = some 10 ∧ acks "c" = c
  inbox : n.inbox = []

variable {c : Option Nat}

lemma InOffice.hasQuorumLocked (h : InOffice n t c) (ht : t < uint64Size)
    (hfresh : t = 10 ∨ t = 11 ∨ c = some t ∨ ∃ u, c = some u ∧ t = u + 1) :
    n.hasQuorumLocked = true := by
  obtain ⟨acks, heq, hb, hc⟩ := h.acks
  have hquorum : ∀ peer u, acks peer = some u → t = u ∨ t = u + 1 → n.freshAck peer = true := by
    intro peer u hu hage
    have hdiff : (t + uint64Size - u) % uint64Size ≤ 1 := by
      unfold uint64Size at ht ⊢
      omega
    unfold freshAck
    rw [heq, Option.bind_some, hu]
    simp only [h.tick, h.window]
    exact decide_eq_true (by exact_mod_cast hdiff)
  have hone : 0 < ["b", "c"].countP n.freshAck := by
    rw [countP_pos_iff]
    rcases hfresh with rfl | rfl | rfl | ⟨u, rfl, rfl⟩
    · exact ⟨"b", by simp, hquorum "b" 10 hb (.inl rfl)⟩
    · exact ⟨"b", by simp, hquorum "b" 10 hb (.inr rfl)⟩
    · exact ⟨"c", by simp, hquorum "c" t hc (.inl rfl)⟩
    · exact ⟨"c", by simp, hquorum "c" u hc (.inr rfl)⟩
  unfold Node.hasQuorumLocked
  rw [h.peers, h.members]
  exact decide_eq_true (Nat.add_le_add_left hone 1)

lemma InOffice.tickNode (h : InOffice n.drainInbox t c) (ht : t < uint64Size)
    (hfresh : t = 10 ∨ t = 11 ∨ c = some t ∨ ∃ u, c = some u ∧ t = u + 1) (draw : Nat) :
    InOffice (n.tickNode draw).1 t c := by
  obtain ⟨e, heq⟩ := tickNode_of_quorum draw h.leads.1 (h.hasQuorumLocked ht hfresh)
  rw [heq]
  exact ⟨h.window, h.peers, h.members, h.leads, h.tick, h.acks, h.inbox⟩

lemma InOffice.drainInbox (h : InOffice n t c) :
    InOffice n.drainInbox ((t + 1) % uint64Size) c := by
  unfold Node.drainInbox
  rw [h.inbox]
  exact ⟨h.window, h.peers, h.members, h.leads, by rw [← h.tick]; rfl, h.acks, rfl⟩

lemma InOffice.drainInbox_ack (h : InOffice n t c) :
    InOffice (n.receive (ackToA "c")).drainInbox ((t + 1) % uint64Size)
      (some ((t + 1) % uint64Size)) := by
  obtain ⟨acks, heq, hb, -⟩ := h.acks
  have hdrain : (n.receive (ackToA "c")).drainInbox =
      { n.started with acks := some (update acks "c" (some ((t + 1) % uint64Size))) } := by
    unfold Node.drainInbox receive
    simp only [h.inbox]
    simp [handleLocked, handleAppendEntriesRespLocked, ackToA, h.leads.1, h.leads.2, heq, h.tick,
      started]
  rw [hdrain]
  refine ⟨h.window, h.peers, h.members, h.leads, by rw [← h.tick]; rfl, ⟨_, rfl, ?_, ?_⟩, rfl⟩
  · exact hb
  · exact update_self _ _ _

/-- The answer of `c`, delivered once more before each of `k` ticks of `a`. -/
def repeatAck (k : Nat) : List Action :=
  (List.replicate k [.deliver (ackToA "c"), .tick "a" 0]).flatten

lemma step_ack_tick {s : Cluster} (hsent : ackToA "c" ∈ s.sent) (h : InOffice (s.node "a") t c) :
    let s' := runFrom shortWindow.step s [.deliver (ackToA "c"), .tick "a" 0]
    ackToA "c" ∈ s'.sent ∧
      InOffice (s'.node "a") ((t + 1) % uint64Size) (some ((t + 1) % uint64Size)) := by
  have hdeliver : shortWindow.step s (.deliver (ackToA "c")) =
      ClusterConfig.deliverStep s (ackToA "c") := by
    have hmem : (ackToA "c").toId ∈ shortWindow.members := by decide
    simp only [ClusterConfig.step, hsent, hmem, and_self, if_true]
  have hnode : (ClusterConfig.deliverStep s (ackToA "c")).node "a" =
      (s.node "a").receive (ackToA "c") := by
    simp [ClusterConfig.deliverStep, ackToA]
  rw [runFrom_cons, runFrom_cons, runFrom_nil, hdeliver]
  constructor
  · have hmem : "a" ∈ shortWindow.members := by decide
    exact mem_append_left _ hsent
  · exact h.drainInbox_ack.tickNode (Nat.mod_lt _ (by decide)) (.inr (.inr (.inl rfl))) 0

lemma runFrom_repeatAck {s : Cluster} (hsent : ackToA "c" ∈ s.sent)
    (h : InOffice (s.node "a") t c) (k : Nat) :
    InOffice ((runFrom shortWindow.step s (repeatAck (k + 1))).node "a") ((t + k + 1) % uint64Size)
      (some ((t + k + 1) % uint64Size)) := by
  induction k generalizing s t c with
  | zero => exact (step_ack_tick hsent h).2
  | succ k ih =>
    obtain ⟨hsent', h'⟩ := step_ack_tick hsent h
    have hlast := ih hsent' h'
    have hnumber : ((t + 1) % uint64Size + k + 1) % uint64Size = (t + (k + 1) + 1) % uint64Size := by
      rw [Nat.add_assoc, Nat.mod_add_mod]
      congr 1
      omega
    rw [hnumber] at hlast
    exact hlast

lemma supportA_inOffice : ackToA "c" ∈ (shortWindow.after supportA).sent ∧
    InOffice ((shortWindow.after supportA).node "a") 10 none := by
  refine ⟨by decide, by decide, by decide, by decide, by decide, by decide, ?_, by decide⟩
  have hb : ((shortWindow.after supportA).node "a").acks.bind (· "b") = some 10 := by decide
  have hc : ((shortWindow.after supportA).node "a").acks.bind (· "c") = none := by decide
  cases hacks : ((shortWindow.after supportA).node "a").acks with
  | none => simp [hacks] at hb
  | some acks =>
    rw [hacks] at hb hc
    exact ⟨acks, rfl, hb, hc⟩

/-- After `2 ^ 64 - 2` more ticks the answer of `b` looks fresh again. -/
lemma wrapped_inOffice :
    InOffice ((shortWindow.after (supportA ++ repeatAck (uint64Size - 2))).node "a") 8 (some 8) := by
  obtain ⟨hsent, h⟩ := supportA_inOffice
  have hk : uint64Size - 2 = (uint64Size - 3) + 1 := by decide
  have hnumber : (10 + (uint64Size - 3) + 1) % uint64Size = 8 := by decide
  have hrun := runFrom_repeatAck hsent h (uint64Size - 3)
  rw [hnumber, ← hk, ← after_append] at hrun
  exact hrun

lemma InOffice.silentTick (h : InOffice n t c) (ht : t + 1 < uint64Size)
    (hfresh : t + 1 = 10 ∨ t + 1 = 11 ∨ c = some (t + 1) ∨ ∃ u, c = some u ∧ t + 1 = u + 1) :
    InOffice (TickRecord.after ⟨n, 0⟩) (t + 1) c := by
  have hdrain := h.drainInbox
  rw [Nat.mod_eq_of_lt ht] at hdrain
  exact hdrain.tickNode ht hfresh 0

lemma InOffice.not_acknowledges (h : InOffice n t c) (T : Nat) (peer : String) :
    ¬ TickRecord.Acknowledges ⟨n, 0⟩ T peer := by
  rintro ⟨front, m, back, heq, -⟩
  have hinbox : n.inbox = front ++ m :: back := heq
  rw [h.inbox] at hinbox
  simp at hinbox

lemma ticksOf_silent (s : Cluster) :
    outputs shortWindow.step (shortWindow.tickOf "a") s (List.replicate 3 (.tick "a" 0)) =
      let n₁ := TickRecord.after ⟨s.node "a", 0⟩
      let n₂ := TickRecord.after ⟨n₁, 0⟩
      [⟨s.node "a", 0⟩, ⟨n₁, 0⟩, ⟨n₂, 0⟩] := by
  have hmem : "a" ∈ shortWindow.members := by decide
  rfl

/-- With tick numbers that wrap, `a` stays in office without hearing anyone: the answer of `b` to
its first heartbeat is `2 ^ 64` ticks old when it counts as fresh again. -/
theorem wrapped_ack_keeps_leader :
    let ticks := shortWindow.ticksOf "a"
      (supportA ++ repeatAck (uint64Size - 2) ++ List.replicate 3 (.tick "a" 0))
    let cfg := normalizeConfig (shortWindow.config "a")
    0 < majorityOf shortWindow.members.length - 1 ∧
    ∃ front last, ticks = front ++ last ∧ (last.length : Int) = cfg.quorumLossTicks ∧
      (∀ r ∈ last, LeaderOf r.after 1) ∧
      ∀ old r later peer, ticks = old ++ r :: later →
        (later.length : Int) < cfg.quorumAckTicks + cfg.quorumLossTicks →
        ¬ r.Acknowledges 1 peer := by
  intro ticks cfg
  have h₀ := wrapped_inOffice
  set n₀ := (shortWindow.after (supportA ++ repeatAck (uint64Size - 2))).node "a" with hn₀
  have h₁ := h₀.silentTick (by decide) (.inr (.inr (.inr ⟨8, rfl, rfl⟩)))
  have h₂ := h₁.silentTick (by decide) (.inl rfl)
  have h₃ := h₂.silentTick (by decide) (.inr (.inl rfl))
  set n₁ := TickRecord.after ⟨n₀, 0⟩
  set n₂ := TickRecord.after ⟨n₁, 0⟩
  have hticks : ticks = shortWindow.ticksOf "a" (supportA ++ repeatAck (uint64Size - 2)) ++
      [⟨n₀, 0⟩, ⟨n₁, 0⟩, ⟨n₂, 0⟩] := by
    show shortWindow.ticksOf "a" _ = _
    rw [shortWindow.ticksOf_append, ticksOf_silent]
  generalize shortWindow.ticksOf "a" (supportA ++ repeatAck (uint64Size - 2)) = front at hticks
  refine ⟨by decide, front ++ [⟨n₀, 0⟩], [⟨n₁, 0⟩, ⟨n₂, 0⟩], by rw [hticks]; simp, by decide, ?_, ?_⟩
  · intro r hr
    rcases List.mem_cons.mp hr with rfl | hr
    · exact h₂.leads
    · rw [List.mem_singleton.mp hr]
      exact h₃.leads
  · intro old r later peer heq hlen
    have hlater : later.length < 3 := by exact_mod_cast (show (later.length : Int) < 3 from hlen)
    have hr : r ∈ [(⟨n₀, 0⟩ : TickRecord), ⟨n₁, 0⟩, ⟨n₂, 0⟩] := by
      rw [hticks] at heq
      rcases List.append_eq_append_iff.mp heq with ⟨mid, -, hback⟩ | ⟨mid, -, hback⟩
      · rw [hback]
        simp
      · have hlength := congrArg List.length hback
        simp only [length_cons, length_append, length_nil] at hlength
        obtain rfl : mid = [] := List.length_eq_zero_iff.mp (by omega)
        rw [nil_append] at hback
        rw [← hback]
        exact mem_cons_self
    simp only [mem_cons, not_mem_nil, or_false] at hr
    rcases hr with rfl | rfl | rfl
    · exact h₀.not_acknowledges 1 peer
    · exact h₁.not_acknowledges 1 peer
    · exact h₂.not_acknowledges 1 peer

end Symkernel.Coordination
