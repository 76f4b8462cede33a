import Symkernel.Coordination.Ballots
import Symkernel.Coordination.Cluster
import Symkernel.Library.Quorum

/-!
# Election safety

The quorums of two leaders need not share a voter that voted once: a leader that steps down on
quorum loss forgets its vote and may vote again in its own term. The safety argument counts the
ballots of a term instead.
-/

namespace Symkernel.Coordination

open Library Node ClusterConfig

variable {C : ClusterConfig}

/-- The invariant of the whole cluster; `k` bounds every term in use. -/
structure ClusterInv (C : ClusterConfig) (k : Nat) (s : Cluster) : Prop where
  node_id : ∀ i ∈ C.members, (s.node i).id = i
  node_members : ∀ i ∈ C.members, (s.node i).members.length = C.members.length
  vote : ∀ i ∈ C.members, VoteInv s.sent (s.node i)
  flushed : ∀ i ∈ C.members, (s.node i).outbox = []
  term_le : ∀ i ∈ C.members, (s.node i).currentTerm ≤ k
  inbox : ∀ i ∈ C.members, ∀ m ∈ (s.node i).inbox, m ∈ s.sent ∧ m.toId = i
  sent_from : ∀ m ∈ s.sent, m.fromId ∈ C.members
  sent_le : ∀ m ∈ s.sent, m.term ≤ k
  sent_grant : ∀ m ∈ s.sent, m.type = .requestVoteResp → m.voteGranted = true →
    (m.term, m.toId) ∈ (s.node m.fromId).history.ballots

lemma newNode_voteInv (cfg : NodeConfig) (draw : Nat) : VoteInv [] (newNode cfg draw) := by
  constructor <;> simp [newNode]

lemma initial_inv (C : ClusterConfig) : ClusterInv C 0 C.initial := by
  constructor
  · intro i hi
    exact C.config_id i hi
  · intro i hi
    have hperm := (C.config_peers i hi).length_eq
    rw [List.length_erase_of_mem hi] at hperm
    have hpos : 0 < C.members.length := List.length_pos_of_mem hi
    have hlen : (C.initial.node i).members.length = (C.config i).peers.length + 1 := by
      exact List.length_insertionSort _ _
    omega
  · intro i _
    exact newNode_voteInv _ _
  · intro i _
    rfl
  · intro i _
    exact le_refl _
  · intro i _ m hm
    exact absurd hm (by simp [initial, newNode])
  all_goals
    intro m hm
    exact absurd hm (by simp [initial])

/-! ### One step of the cluster -/

variable {k term : Nat} {s : Cluster}

lemma deliverStep_inv (h : ClusterInv C k s) {m : Message} (hm : m ∈ s.sent) :
    ClusterInv C k (ClusterConfig.deliverStep s m) := by
  have hnode : ∀ i, (deliverStep s m).node i =
      if i = m.toId then (s.node i).receive m else s.node i := by
    intro i
    by_cases hi : i = m.toId
    · subst hi
      simp [deliverStep]
    · simp [deliverStep, hi]
  have hhist : ∀ i, ((deliverStep s m).node i).history = (s.node i).history := by
    intro i
    rw [hnode]
    split <;> rfl
  constructor
  · intro i hi
    rw [hnode]
    split <;> exact h.node_id i hi
  · intro i hi
    rw [hnode]
    split <;> exact h.node_members i hi
  · intro i hi
    rw [hnode]
    split
    · exact (h.vote i hi).congr rfl rfl rfl rfl rfl rfl rfl rfl
    · exact h.vote i hi
  · intro i hi
    rw [hnode]
    split <;> exact h.flushed i hi
  · intro i hi
    rw [hnode]
    split <;> exact h.term_le i hi
  · intro i hi m' hm'
    rw [hnode] at hm'
    split at hm'
    case isTrue heq =>
      rcases List.mem_append.mp hm' with hold | hnew
      · exact h.inbox i hi m' hold
      · rw [List.mem_singleton.mp hnew]
        exact ⟨hm, heq.symm⟩
    case isFalse => exact h.inbox i hi m' hm'
  · exact h.sent_from
  · exact h.sent_le
  · intro m' hm' h1 h2
    rw [hhist]
    exact h.sent_grant m' hm' h1 h2

structure TickResult (sent : List Message) (k : Nat) (n n' : Node) : Prop where
  vote : VoteInv sent n'
  extends_ : Extends { n with inbox := [] } n'
  out : OutboxInv (k + 1) n'

variable {c i v : String}

lemma tick_result (h : ClusterInv C k s) (hnamed : "" ∉ C.members) (hk : k + 1 < uint64Size)
    (hi : i ∈ C.members) (draw : Nat) :
    TickResult s.sent k (s.node i) ((s.node i).drainInbox.stepTimersLocked draw) := by
  have hid : (s.node i).id = i := h.node_id i hi
  have hne : (s.node i).id ≠ "" := by
    rw [hid]
    rintro rfl
    exact hnamed hi
  have hinbox : ∀ m ∈ (s.node i).inbox, m ∈ s.sent ∧ m.fromId ≠ "" ∧ m.toId = (s.node i).id := by
    intro m hm
    obtain ⟨hsent, hto⟩ := h.inbox i hi m hm
    refine ⟨hsent, ?_, hto.trans hid.symm⟩
    intro hempty
    exact hnamed (hempty ▸ h.sent_from m hsent)
  have hstart : VoteInv s.sent
      { s.node i with tick := ((s.node i).tick + 1) % uint64Size, inbox := [] } :=
    (h.vote i hi).congr rfl rfl rfl rfl rfl rfl rfl rfl
  have hvote : VoteInv s.sent (s.node i).drainInbox := hstart.foldl_handleLocked hne hinbox
  have hext : Extends { s.node i with inbox := [] } (s.node i).drainInbox := by
    refine Extends.trans ?_ (foldl_handleLocked_extends _ _)
    exact ⟨rfl, rfl, rfl, fun _ hb => hb⟩
  have hout : OutboxInv k (s.node i).drainInbox := by
    refine OutboxInv.foldl_handleLocked ?_ ?_
    · intro m hm
      exact h.sent_le m (h.inbox i hi m hm).1
    · refine ⟨h.term_le i hi, ?_, ?_⟩
      · simp [h.flushed i hi]
      · simp [h.flushed i hi]
  have hwrap : (s.node i).drainInbox.currentTerm + 1 < uint64Size :=
    lt_of_le_of_lt (Nat.succ_le_succ hout.term_le) hk
  have hne' : (s.node i).drainInbox.id ≠ "" := by
    rw [hext.id_eq]
    exact hne
  exact ⟨hvote.stepTimersLocked hne' draw hwrap, hext.trans (stepTimersLocked_extends _ draw),
    hout.stepTimersLocked draw⟩

lemma tickStep_inv (h : ClusterInv C k s) (hnamed : "" ∉ C.members) (hk : k + 1 < uint64Size)
    (hi : i ∈ C.members) (draw : Nat) : ClusterInv C (k + 1) (ClusterConfig.tickStep s i draw) := by
  obtain ⟨hvote, hext, hout⟩ := tick_result h hnamed hk hi draw
  set n' := (s.node i).drainInbox.stepTimersLocked draw with hn'
  have hnode : ∀ j, (tickStep s i draw).node j =
      if j = i then { n' with outbox := [] } else s.node j := by
    intro j
    by_cases hj : j = i
    · subst hj
      simp [tickStep, tickNode, hn']
    · simp [tickStep, hj]
  have hsent : (tickStep s i draw).sent = s.sent ++ n'.outbox := rfl
  have hid : n'.id = i := hext.id_eq.trans (h.node_id i hi)
  have hballots : ∀ j, ∀ b ∈ (s.node j).history.ballots,
      b ∈ ((tickStep s i draw).node j).history.ballots := by
    intro j b hb
    rw [hnode]
    split
    case isTrue heq => exact hext.ballots_sub b (heq ▸ hb)
    case isFalse => exact hb
  constructor
  · intro j hj
    rw [hnode]
    split
    case isTrue heq => exact hid.trans heq.symm
    case isFalse => exact h.node_id j hj
  · intro j hj
    rw [hnode]
    split
    · have := h.node_members i hi
      simpa [hext.members_eq] using this
    · exact h.node_members j hj
  · intro j hj
    rw [hnode]
    split
    · have hflush : VoteInv s.sent { n' with outbox := [] } :=
        { hvote with outbox_grant := by simp }
      exact hflush.of_sent_subset (fun m hm => List.mem_append_left _ hm)
    · exact (h.vote j hj).of_sent_subset (fun m hm => List.mem_append_left _ hm)
  · intro j hj
    rw [hnode]
    split
    · rfl
    · exact h.flushed j hj
  · intro j hj
    rw [hnode]
    split
    · exact hout.term_le
    · exact (h.term_le j hj).trans (Nat.le_succ k)
  · intro j hj m hm
    rw [hnode] at hm
    split at hm
    · have hnil : n'.inbox = [] := hext.inbox_eq
      simp [hnil] at hm
    · obtain ⟨h1, h2⟩ := h.inbox j hj m hm
      exact ⟨List.mem_append_left _ h1, h2⟩
  · intro m hm
    rcases List.mem_append.mp hm with hold | hnew
    · exact h.sent_from m hold
    · rw [hout.outbox_from m hnew, hid]
      exact hi
  · intro m hm
    rcases List.mem_append.mp hm with hold | hnew
    · exact (h.sent_le m hold).trans (Nat.le_succ k)
    · exact hout.outbox_le m hnew
  · intro m hm h1 h2
    rcases List.mem_append.mp hm with hold | hnew
    · exact hballots _ _ (h.sent_grant m hold h1 h2)
    · obtain ⟨hfrom, hb⟩ := hvote.outbox_grant m hnew h1 h2
      rw [hfrom, hid, hnode, if_pos rfl]
      exact hb

def tickCount (schedule : List Action) : Nat :=
  schedule.countP Action.isTick

lemma ClusterInv.mono {k' : Nat} (hk : k ≤ k') (h : ClusterInv C k s) : ClusterInv C k' s :=
  { h with
    term_le := fun i hi => (h.term_le i hi).trans hk
    sent_le := fun m hm => (h.sent_le m hm).trans hk }

/-- The invariant holds after every schedule, with the number of ticks as term bound. -/
theorem after_inv (hnamed : "" ∉ C.members) (schedule : List Action)
    (hticks : tickCount schedule < uint64Size) :
    ClusterInv C (tickCount schedule) (C.after schedule) := by
  induction schedule using List.reverseRecOn with
  | nil => exact initial_inv C
  | append_singleton schedule a ih =>
    have hcount : tickCount (schedule ++ [a]) = tickCount schedule + if a.isTick then 1 else 0 := by
      simp [tickCount]
    rw [hcount] at hticks ⊢
    have h := ih (by omega)
    rw [after_concat]
    cases a with
    | tick i draw =>
      simp only [Action.isTick, if_true] at hticks ⊢
      unfold ClusterConfig.step
      dsimp only
      split
      · exact tickStep_inv h hnamed hticks ‹_› draw
      · exact h.mono (Nat.le_succ _)
    | deliver m =>
      simp only [Action.isTick, Bool.false_eq_true, if_false]
      unfold ClusterConfig.step
      dsimp only
      split
      case isTrue hcond => exact deliverStep_inv h hcond.1
      case isFalse => exact h

/-! ### Counting the ballots of a term -/

section Term

variable (s : Cluster) (term : Nat)

def electedIn (C : ClusterConfig) : Finset String :=
  C.members.toFinset.filter (fun i => term ∈ (s.node i).history.elected)

def resignedIn (C : ClusterConfig) : Finset String :=
  C.members.toFinset.filter (fun i => term ∈ (s.node i).history.resigned)

def castBallot (voter candidate : String) : Prop :=
  (term, candidate) ∈ (s.node voter).history.ballots

instance : DecidableRel (castBallot s term) := fun voter candidate =>
  inferInstanceAs (Decidable ((term, candidate) ∈ (s.node voter).history.ballots))

end Term

lemma elected_majority (h : ClusterInv C k s) (hc : c ∈ electedIn s term C) :
    majorityOf C.members.length ≤
      (C.members.toFinset.filter (fun v => castBallot s term v c)).card := by
  obtain ⟨hmem, helected⟩ := Finset.mem_filter.mp hc
  have hcm : c ∈ C.members := List.mem_toFinset.mp hmem
  obtain ⟨V, hV, hback⟩ := (h.vote c hcm).won term helected
  rw [h.node_members c hcm] at hV
  refine hV.trans (Finset.card_le_card ?_)
  intro f hf
  rw [Finset.mem_filter, List.mem_toFinset]
  rcases hback f hf with ⟨hself, hb⟩ | ⟨m, hm, htype, hgrant, hfrom, hto, hterm⟩
  · rw [h.node_id c hcm] at hself hb
    exact ⟨hself ▸ hcm, hself ▸ hb⟩
  · have hb := h.sent_grant m hm htype hgrant
    have hmf := h.sent_from m hm
    rw [hfrom] at hb hmf
    rw [hterm, hto, h.node_id c hcm] at hb
    exact ⟨hmf, hb⟩

lemma ballots_of_unresigned (h : ClusterInv C k s) {c' : String} (hv : v ∈ C.members)
    (hr : v ∉ resignedIn s term C) (hc : castBallot s term v c) (hc' : castBallot s term v c') :
    c = c' := by
  by_contra hne
  obtain ⟨hres, -⟩ := (h.vote v hv).spread term c c' hc hc' hne
  exact hr (Finset.mem_filter.mpr ⟨List.mem_toFinset.mpr hv, hres⟩)

lemma ballots_at_most_two (h : ClusterInv C k s) (hv : v ∈ C.members) (E : Finset String) :
    (E.filter (fun c => castBallot s term v c)).card ≤ 2 := by
  by_contra hcard
  obtain ⟨a, ha, b, hb, c, hc, hab, hac, hbc⟩ := Finset.two_lt_card.mp (not_le.mp hcard)
  have hspread := (h.vote v hv).spread term
  have h1 := (hspread a b (Finset.mem_filter.mp ha).2 (Finset.mem_filter.mp hb).2 hab).2
  have h2 := (hspread a c (Finset.mem_filter.mp ha).2 (Finset.mem_filter.mp hc).2 hac).2
  have h3 := (hspread b c (Finset.mem_filter.mp hb).2 (Finset.mem_filter.mp hc).2 hbc).2
  grind

lemma members_lt_two_majorities (C : ClusterConfig) :
    C.members.toFinset.card < 2 * majorityOf C.members.length := by
  rw [List.toFinset_card_of_nodup C.nodup]
  unfold majorityOf
  omega

lemma unresigned_elected_unique (h : ClusterInv C k s) {j : String}
    (hi : i ∈ electedIn s term C \ resignedIn s term C)
    (hj : j ∈ electedIn s term C \ resignedIn s term C) : i = j := by
  refine unresigned_winner_unique (members_lt_two_majorities C) (fun c hc => elected_majority h hc)
    ?_ ?_ ?_ hi hj
  · intro v hv hr
    refine Finset.card_le_one.mpr ?_
    intro c hc c' hc'
    exact ballots_of_unresigned h (List.mem_toFinset.mp hv) hr (Finset.mem_filter.mp hc).2
      (Finset.mem_filter.mp hc').2
  · intro v hv
    exact ballots_at_most_two h (List.mem_toFinset.mp hv) _
  · intro v hv
    obtain ⟨hm, hr⟩ := Finset.mem_filter.mp hv
    exact Finset.mem_filter.mpr ⟨hm, (h.vote v (List.mem_toFinset.mp hm)).resigned_elected term hr⟩

lemma leader_unresigned (h : ClusterInv C k s) (hi : i ∈ C.members)
    (hrole : (s.node i).role = .leader) :
    i ∈ electedIn s (s.node i).currentTerm C \ resignedIn s (s.node i).currentTerm C := by
  have hv := h.vote i hi
  rw [Finset.mem_sdiff]
  refine ⟨Finset.mem_filter.mpr ⟨List.mem_toFinset.mpr hi, (hv.leader hrole).1⟩, ?_⟩
  intro hres
  have hf := hv.resigned_out (Finset.mem_filter.mp hres).2
  rw [hrole] at hf
  exact absurd hf (by decide)

/-- **No two simultaneous leaders in one term.** In a cluster whose members all have
non-empty IDs, two leaders of the same term are the same node, after every schedule that
is too short for a term to wrap. -/
theorem leader_unique_in_term (C : ClusterConfig) (hnamed : "" ∉ C.members)
    (schedule : List Action) (hticks : tickCount schedule < uint64Size) (i j : String)
    (hi : i ∈ C.members) (hj : j ∈ C.members) (hli : ((C.after schedule).node i).role = .leader)
    (hlj : ((C.after schedule).node j).role = .leader)
    (hterm : ((C.after schedule).node i).currentTerm = ((C.after schedule).node j).currentTerm) :
    i = j := by
  have h := after_inv hnamed schedule hticks
  have h1 := leader_unresigned h hi hli
  have h2 := leader_unresigned h hj hlj
  rw [← hterm] at h2
  exact unresigned_elected_unique h h1 h2

/-- A run that elects a leader: `a` times out, `b` votes for it, and `a` counts the vote. -/
def electA : List Action :=
  List.replicate 8 (.tick "a" 0) ++
    [.deliver { type := .requestVote, term := 1, fromId := "a", toId := "b" }, .tick "b" 0,
     .deliver { type := .requestVoteResp, term := 1, fromId := "b", toId := "a", voteGranted := true },
     .tick "a" 0]

theorem leader_unique_in_term_electA :
    let C := newCluster ["a", "b", "c"] (by decide) (fun _ => 0)
    ((C.after electA).node "a").role = .leader ∧ "a" = "a" :=
  have hlead : (((newCluster ["a", "b", "c"] (by decide) (fun _ => 0)).after electA).node "a").role =
      .leader := by
    decide +kernel
  ⟨hlead, leader_unique_in_term _ (by decide) electA (by decide) "a" "a" (by decide) (by decide)
    hlead hlead rfl⟩

/-- With the empty string as an ID, its votes read as "no vote": `a` votes for `""` and
then for `"b"`, and both lead term 1. -/
def splitByEmptyID : List Action :=
  List.replicate 8 (.tick "" 0) ++ List.replicate 8 (.tick "b" 0) ++
    [.deliver { type := .requestVote, term := 1, fromId := "", toId := "a" }, .tick "a" 0,
     .deliver { type := .requestVote, term := 1, fromId := "b", toId := "a" }, .tick "a" 0,
     .deliver { type := .requestVoteResp, term := 1, fromId := "a", toId := "", voteGranted := true },
     .tick "" 0,
     .deliver { type := .requestVoteResp, term := 1, fromId := "a", toId := "b", voteGranted := true },
     .tick "b" 0]

theorem two_leaders_with_empty_id :
    let C := newCluster ["", "a", "b"] (by decide) (fun _ => 0)
    let s := C.after splitByEmptyID
    "" ∈ C.members ∧ "b" ∈ C.members ∧ (s.node "").role = .leader ∧ (s.node "b").role = .leader ∧
      (s.node "").currentTerm = (s.node "b").currentTerm ∧ "" ≠ "b" := by
  decide +kernel

/-! ### One vote per term -/

def KeepsOffice (s : Cluster) : Action → Prop
  | .tick i _ => (s.node i).drainInbox.stepsDown = false
  | .deliver _ => True

lemma tickNode_resigned (n : Node) (draw : Nat) (h : n.drainInbox.stepsDown = false) :
    (n.tickNode draw).1.history.resigned = n.history.resigned := by
  unfold tickNode
  rw [stepTimersLocked_resigned _ draw h]
  exact foldl_handleLocked_resigned _ _

lemma step_unresigned (h : ∀ i, (s.node i).history.resigned = []) (a : Action)
    (ha : KeepsOffice s a) (i : String) : ((C.step s a).node i).history.resigned = [] := by
  cases a with
  | tick j draw =>
    unfold ClusterConfig.step
    dsimp only
    split
    · by_cases hij : i = j
      · subst hij
        simp only [tickStep, Function.update_self]
        rw [tickNode_resigned _ draw ha, h]
      · simpa [tickStep, hij] using h i
    · exact h i
  | deliver m =>
    unfold ClusterConfig.step
    dsimp only
    split
    · by_cases hij : i = m.toId
      · subst hij
        simpa [deliverStep, receive] using h m.toId
      · simpa [deliverStep, hij] using h i
    · exact h i

/-- **One vote per term.** In a cluster whose members all have non-empty IDs, over every
schedule in which no leader steps down on quorum loss and no term wraps, a node never
casts votes for two candidates in one term, and at most one node is ever elected in it. -/
theorem one_vote_per_term (C : ClusterConfig) (hnamed : "" ∉ C.members) (schedule : List Action)
    (hticks : tickCount schedule < uint64Size)
    (hoffice : EveryStep C.step KeepsOffice C.initial schedule) : (∀ v ∈ C.members, ∀ term c c',
      (term, c) ∈ ((C.after schedule).node v).history.ballots →
      (term, c') ∈ ((C.after schedule).node v).history.ballots → c = c') ∧
    (∀ i ∈ C.members, ∀ j ∈ C.members, ∀ term, term ∈ ((C.after schedule).node i).history.elected →
      term ∈ ((C.after schedule).node j).history.elected → i = j) := by
  have h := after_inv hnamed schedule hticks
  have hstay : ∀ i, ((C.after schedule).node i).history.resigned = [] :=
    runFrom_invariant (P := fun s => ∀ i, (s.node i).history.resigned = [])
      (fun _ a hs ha i => step_unresigned hs a ha i) (fun _ => rfl) hoffice
  have hnone : ∀ term, resignedIn (C.after schedule) term C = ∅ := by
    intro term
    refine Finset.filter_eq_empty_iff.mpr ?_
    intro i _
    rw [hstay i]
    simp
  constructor
  · intro v hv term c c' hc hc'
    exact ballots_of_unresigned h hv (by rw [hnone]; simp) hc hc'
  · intro i hi j hj term hei hej
    have hin : ∀ v ∈ C.members, term ∈ ((C.after schedule).node v).history.elected →
        v ∈ electedIn (C.after schedule) term C \ resignedIn (C.after schedule) term C := by
      intro v hv hev
      rw [hnone]
      exact Finset.mem_filter.mpr ⟨List.mem_toFinset.mpr hv, hev⟩
    exact unresigned_elected_unique h (hin i hi hei) (hin j hj hej)

theorem one_vote_per_term_electA :
    let C := newCluster ["a", "b", "c"] (by decide) (fun _ => 0)
    (1, "a") ∈ ((C.after electA).node "b").history.ballots ∧
    ∀ c, (1, c) ∈ ((C.after electA).node "b").history.ballots → "a" = c :=
  ⟨by decide +kernel, fun c hc => (one_vote_per_term _ (by decide) electA (by decide)
    (by simp [EveryStep, KeepsOffice, electA]; decide +kernel)).1 "b" (by decide) 1 "a" c
    (by decide +kernel) hc⟩

/-- `a` wins term 1 with the vote of `c`, hears from nobody for `QuorumLossTicks` ticks and
steps down; the delayed request of `b` for the same term then gets the vote of `a`. -/
def voteTwice : List Action :=
  List.replicate 8 (.tick "a" 0) ++ List.replicate 8 (.tick "b" 0) ++
    [.deliver { type := .requestVote, term := 1, fromId := "a", toId := "c" }, .tick "c" 0,
     .deliver { type := .requestVoteResp, term := 1, fromId := "c", toId := "a", voteGranted := true }] ++
    List.replicate 5 (.tick "a" 0) ++
    [.deliver { type := .requestVote, term := 1, fromId := "b", toId := "a" }, .tick "a" 0,
     .deliver { type := .requestVoteResp, term := 1, fromId := "a", toId := "b", voteGranted := true },
     .tick "b" 0]

theorem two_votes_after_step_down :
    let C := newCluster ["a", "b", "c"] (by decide) (fun _ => 0)
    let s := C.after voteTwice
    (1, "a") ∈ (s.node "a").history.ballots ∧ (1, "b") ∈ (s.node "a").history.ballots ∧
      1 ∈ (s.node "a").history.elected ∧ 1 ∈ (s.node "b").history.elected := by
  decide +kernel

end Symkernel.Coordination
