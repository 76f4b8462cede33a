import Symkernel.Library.GoMap
import Symkernel.Library.Runs
import Symkernel.Coordination.Frame

/-!
# The distribution of work

`Assign` goes through the sorted members in turn and goes on where it stopped when the node
becomes leader again.
-/

namespace Symkernel.Coordination

open Library List

/-- Of the first `k` turns, member `i` of `size` members has these. -/
def turns (size k i : Nat) : Nat :=
  Nat.count (fun turn => turn % size = i) k

lemma turns_succ (size k i : Nat) :
    turns size (k + 1) i = turns size k i + if k % size = i then 1 else 0 :=
  Nat.count_succ _ _

lemma turns_eq {size i : Nat} (hi : i < size) (k : Nat) :
    turns size k i = k / size + if i < k % size then 1 else 0 := by
  have hcount := Nat.count_modEq_card k (Nat.zero_lt_of_lt hi) i
  rw [Nat.mod_eq_of_lt hi] at hcount
  rw [← hcount, turns]
  congr 1
  funext turn
  rw [Nat.ModEq, Nat.mod_eq_of_lt hi]

lemma turns_le {size i j : Nat} (hij : i < j) (hj : j < size) (k : Nat) :
    turns size k j ≤ turns size k i ∧ turns size k i ≤ turns size k j + 1 := by
  rw [turns_eq hj, turns_eq (hij.trans hj)]
  split <;> split <;> omega

lemma sum_turns {size : Nat} (hsize : 0 < size) (k : Nat) :
    ∑ i ∈ Finset.range size, turns size k i = k := by
  induction k with
  | zero => simp [turns]
  | succ k ih =>
    have hone : ∑ i ∈ Finset.range size, (if k % size = i then 1 else 0) = 1 := by
      rw [Finset.sum_ite_eq, if_pos (Finset.mem_range.mpr (Nat.mod_lt k hsize))]
    simp only [turns_succ]
    rw [Finset.sum_add_distrib, ih, hone]

namespace Node

def nodeLoadSnapshot (n : Node) : GoMap String Nat :=
  n.members.foldl (fun out m => out.insert m (n.nodeLoad m)) ∅

inductive WorkInput where
  | assign
  | become (role : Role)
  | receive (m : Message)
  | tick (draw : Nat)

def workStep (n : Node) : WorkInput → Node
  | .assign => n.assign.1
  | .become role => { n with role := role }
  | .receive m => n.receive m
  | .tick draw => (n.tickNode draw).1

def assigned (n : Node) : WorkInput → List String
  | .assign => n.assign.2.toList
  | _ => []

structure SameWork (n n' : Node) : Prop where
  members : n'.members = n.members
  rrIndex : n'.rrIndex = n.rrIndex
  nodeLoad : n'.nodeLoad = n.nodeLoad

lemma SameWork.refl (n : Node) : SameWork n n := ⟨rfl, rfl, rfl⟩

lemma SameWork.trans {n n' n'' : Node} (h : SameWork n n') (h' : SameWork n' n'') :
    SameWork n n'' :=
  ⟨h'.members.trans h.members, h'.rrIndex.trans h.rrIndex, h'.nodeLoad.trans h.nodeLoad⟩

lemma promoteOnMajority_work (n : Node) : SameWork n n.promoteOnMajority := by
  unfold promoteOnMajority
  split <;> exact ⟨rfl, rfl, rfl⟩

lemma handleLocked_work (n : Node) (m : Message) : SameWork n (n.handleLocked m) := by
  unfold handleLocked
  split
  · have hadopt : SameWork n (n.adoptRequestTerm m) := by
      unfold adoptRequestTerm
      split <;> exact ⟨rfl, rfl, rfl⟩
    refine hadopt.trans ?_
    unfold handleRequestVoteLocked
    dsimp only
    split <;> exact ⟨rfl, rfl, rfl⟩
  · unfold handleRequestVoteRespLocked
    split
    · exact ⟨rfl, rfl, rfl⟩
    split
    · exact SameWork.refl n
    split
    · exact ⟨rfl, rfl, rfl⟩
    · refine SameWork.trans ?_ (promoteOnMajority_work _)
      exact ⟨rfl, rfl, rfl⟩
  · unfold handleAppendEntriesLocked
    split
    · exact ⟨rfl, rfl, rfl⟩
    · split <;> exact ⟨rfl, rfl, rfl⟩
  · unfold handleAppendEntriesRespLocked
    split
    · exact ⟨rfl, rfl, rfl⟩
    split
    · exact SameWork.refl n
    split
    · split <;> exact ⟨rfl, rfl, rfl⟩
    · exact SameWork.refl n

lemma stepTimersLocked_work (n : Node) (draw : Nat) : SameWork n (n.stepTimersLocked draw) := by
  unfold stepTimersLocked
  split
  · obtain ⟨e, ms, heq, -⟩ := leaderHeartbeat_eq n
    rw [heq]
    unfold leaderQuorumCheck
    split
    · exact ⟨rfl, rfl, rfl⟩
    · dsimp only
      split <;> exact ⟨rfl, rfl, rfl⟩
  · dsimp only
    split
    · obtain ⟨ms, heq⟩ :=
        startElectionLocked_eq { n with electionElapsed := n.electionElapsed + 1 } draw
      rw [heq]
      refine SameWork.trans ?_ (promoteOnMajority_work _)
      exact ⟨rfl, rfl, rfl⟩
    · exact ⟨rfl, rfl, rfl⟩

lemma tickNode_work (n : Node) (draw : Nat) : SameWork n (n.tickNode draw).1 := by
  have hfold : ∀ (ms : List Message) (n : Node), SameWork n (ms.foldl handleLocked n) := by
    intro ms
    induction ms with
    | nil => exact SameWork.refl
    | cons m ms ih => exact fun n => (handleLocked_work n m).trans (ih _)
  have hdrained : SameWork n n.drainInbox := by
    refine SameWork.trans ?_ (hfold n.inbox _)
    exact ⟨rfl, rfl, rfl⟩
  have htimers := hdrained.trans (stepTimersLocked_work n.drainInbox draw)
  exact ⟨htimers.members, htimers.rrIndex, htimers.nodeLoad⟩

structure Shared (members : List String) (k : Nat) (n : Node) : Prop where
  members_eq : n.members = members
  rrIndex_eq : n.rrIndex = ((k + (members.length - 1)) % members.length : Nat)
  nodeLoad_eq : ∀ i (hi : i < members.length), n.nodeLoad members[i] = turns members.length k i

section Turns

variable {members : List String} {k : Nat} {n : Node}

lemma Shared.congr {n' : Node} (h : Shared members k n) (hsame : SameWork n n') :
    Shared members k n' := by
  refine ⟨hsame.members.trans h.members_eq, hsame.rrIndex.trans h.rrIndex_eq, ?_⟩
  rw [hsame.nodeLoad]
  exact h.nodeLoad_eq

lemma assign_of_not_leader (h : n.role ≠ .leader) : n.assign = (n, none) := by
  unfold assign
  rw [if_pos h]

lemma Shared.assign (h : Shared members k n) (hne : 0 < members.length) (hnodup : members.Nodup)
    (hrole : n.role = .leader) :
    Shared members (k + 1) n.assign.1 ∧ n.assign.2.toList.length = 1 := by
  have hindex : (n.rrIndex + 1) % n.members.length = (k % members.length : Nat) := by
    rw [h.rrIndex_eq, h.members_eq, ← Nat.cast_succ, ← Int.natCast_mod, Nat.succ_eq_add_one,
      Nat.mod_add_mod, Nat.add_assoc, Nat.sub_add_cancel hne, Nat.add_mod_right]
  have hlt := Nat.mod_lt k hne
  have htarget : n.members.getD (k % members.length) "" = members[k % members.length] := by
    rw [h.members_eq, getD_eq_getElem _ _ hlt]
  unfold Node.assign
  rw [if_neg (not_not.mpr hrole)]
  dsimp only
  rw [hindex, Int.toNat_natCast, htarget]
  refine ⟨⟨h.members_eq, ?_, fun i hi => ?_⟩, rfl⟩
  · rw [Nat.add_right_comm, Nat.add_assoc k, Nat.sub_add_cancel hne, Nat.add_mod_right]
  · rw [turns_succ, ← h.nodeLoad_eq i hi]
    dsimp only
    by_cases hi' : k % members.length = i
    · subst hi'
      rw [Function.update_self, if_pos rfl]
    · have hother : members[i] ≠ members[k % members.length] := fun heq =>
        hi' ((hnodup.getElem_inj_iff.mp heq).symm)
      rw [Function.update_of_ne hother, if_neg hi', Nat.add_zero]

lemma Shared.workStep (h : Shared members k n) (hne : 0 < members.length) (hnodup : members.Nodup)
    (i : WorkInput) : Shared members (k + (n.assigned i).length) (n.workStep i) := by
  cases i with
  | assign =>
    by_cases hrole : n.role = .leader
    · obtain ⟨hshared, hone⟩ := h.assign hne hnodup hrole
      rw [assigned, hone]
      exact hshared
    · rw [assigned, Node.workStep, assign_of_not_leader hrole]
      exact h
  | become role => exact h.congr ⟨rfl, rfl, rfl⟩
  | receive m => exact h.congr ⟨rfl, rfl, rfl⟩
  | tick draw => exact h.congr (tickNode_work n draw)

end Turns

lemma length_members_newNode (config : NodeConfig) (draw : Nat) :
    (newNode config draw).members.length = config.peers.length + 1 :=
  length_insertionSort _ _

lemma newNode_shared (config : NodeConfig) (draw : Nat) :
    Shared (newNode config draw).members 0 (newNode config draw) where
  members_eq := rfl
  rrIndex_eq := by
    have hlen : 0 < (newNode config draw).members.length := by
      rw [length_members_newNode]
      exact Nat.succ_pos _
    rw [Nat.zero_add, Nat.mod_eq_of_lt (Nat.sub_lt hlen Nat.one_pos), Nat.cast_sub hlen]
    rfl
  nodeLoad_eq i hi := by simp [newNode, turns]

lemma shared_runFrom (config : NodeConfig) (draw : Nat)
    (hdistinct : (newNode config draw).members.Nodup)
    (hne : 0 < (newNode config draw).members.length) (inputs : List WorkInput) :
    Shared (newNode config draw).members
      (outputs workStep assigned (newNode config draw) inputs).length
      (runFrom workStep (newNode config draw) inputs) := by
  induction inputs using reverseRecOn with
  | nil => exact newNode_shared config draw
  | append_singleton inputs i ih =>
    rw [outputs_append, runFrom_append, length_append, outputs, outputs, append_nil]
    exact ih.workStep hne hdistinct i

lemma lookup_nodeLoadSnapshot (n : Node) (m : String) :
    n.nodeLoadSnapshot.lookup m = if m ∈ n.members then some (n.nodeLoad m) else none := by
  have hfold : ∀ (ms : List String) (out : GoMap String Nat),
      (ms.foldl (fun out m => out.insert m (n.nodeLoad m)) out).lookup m =
        if m ∈ ms then some (n.nodeLoad m) else out.lookup m := by
    intro ms
    induction ms with
    | nil => exact fun out => (if_neg not_mem_nil).symm
    | cons m' ms ih =>
      intro out
      rw [foldl_cons, ih]
      by_cases hm : m ∈ ms
      · rw [if_pos hm, if_pos (mem_cons_of_mem m' hm)]
      · rw [if_neg hm]
        by_cases heq : m = m'
        · subst heq
          rw [Finmap.lookup_insert, if_pos mem_cons_self]
        · simp [heq, hm]
  rw [nodeLoadSnapshot, hfold, Finmap.lookup_empty]

lemma mem_nodeLoadSnapshot {n : Node} {m : String} : m ∈ n.nodeLoadSnapshot ↔ m ∈ n.members := by
  rw [← Finmap.lookup_isSome, lookup_nodeLoadSnapshot]
  split <;> simp_all

lemma Shared.sum_eq {members : List String} {k : Nat} {n : Node} (h : Shared members k n)
    (hne : 0 < members.length) (hnodup : members.Nodup) :
    ∑ m ∈ n.nodeLoadSnapshot.keys, (n.nodeLoadSnapshot.lookup m).getD 0 = k := by
  have hkeys : n.nodeLoadSnapshot.keys = members.toFinset := by
    ext m
    rw [Finmap.mem_keys, mem_nodeLoadSnapshot, mem_toFinset, h.members_eq]
  have hload : ∀ m ∈ members.toFinset, (n.nodeLoadSnapshot.lookup m).getD 0 = n.nodeLoad m := by
    intro m hm
    rw [lookup_nodeLoadSnapshot, h.members_eq, if_pos (List.mem_toFinset.mp hm), Option.getD_some]
  rw [hkeys, Finset.sum_congr rfl hload, sum_toFinset _ hnodup]
  have hmap : members.map n.nodeLoad = (range members.length).map (turns members.length k) := by
    refine ext_getElem (by simp) fun i hi _ => ?_
    simp only [getElem_map, getElem_range]
    exact h.nodeLoad_eq i (by simpa using hi)
  rw [hmap]
  exact sum_turns hne k

lemma Shared.lookup_eq_some {members : List String} {k : Nat} {n : Node} (h : Shared members k n)
    {m : String} {x : Nat} (hx : n.nodeLoadSnapshot.lookup m = some x) :
    ∃ i, ∃ hi : i < members.length, members[i] = m ∧ turns members.length k i = x := by
  rw [lookup_nodeLoadSnapshot, h.members_eq] at hx
  split at hx
  · rename_i hm
    obtain ⟨i, hi, rfl⟩ := List.mem_iff_getElem.mp hm
    rw [h.nodeLoad_eq i hi] at hx
    exact ⟨i, hi, rfl, Option.some.inj hx⟩
  · cases hx

/-- Work is shared evenly, earlier members first, however often the node loses its role. -/
theorem work_balanced (config : NodeConfig) (draw : Nat)
    (hdistinct : (config.id :: config.peers).Nodup) (inputs : List WorkInput) :
    let n := runFrom workStep (newNode config draw) inputs
    ∑ m ∈ n.nodeLoadSnapshot.keys, (n.nodeLoadSnapshot.lookup m).getD 0 =
        (outputs workStep assigned (newNode config draw) inputs).length ∧
      (∀ m, m ∈ n.nodeLoadSnapshot ↔ m = config.id ∨ m ∈ config.peers) ∧
      (∀ a b x y, n.nodeLoadSnapshot.lookup a = some x → n.nodeLoadSnapshot.lookup b = some y →
        a < b → y ≤ x ∧ x ≤ y + 1) ∧
      (n.assign.2 = none → n.assign.1 = n) := by
  intro n
  have hne : 0 < (newNode config draw).members.length := by
    rw [length_members_newNode]
    exact Nat.succ_pos _
  have hperm : (newNode config draw).members.Perm (config.id :: config.peers) :=
    perm_insertionSort _ _
  have hnodup := hperm.nodup_iff.mpr hdistinct
  have h := shared_runFrom config draw hnodup hne inputs
  refine ⟨h.sum_eq hne hnodup, fun m => ?_, fun a b x y ha hb hab => ?_, fun hnone => ?_⟩
  · rw [mem_nodeLoadSnapshot, h.members_eq, hperm.mem_iff, mem_cons]
  · obtain ⟨i, hi, rfl, rfl⟩ := h.lookup_eq_some ha
    obtain ⟨j, hj, rfl, rfl⟩ := h.lookup_eq_some hb
    have hsorted : (newNode config draw).members.Pairwise (· ≤ ·) := pairwise_insertionSort _ _
    have hij : i < j := by
      by_contra hle
      obtain rfl | hji := (not_lt.mp hle).eq_or_lt
      · exact lt_irrefl _ hab
      · exact absurd (List.pairwise_iff_getElem.mp hsorted j i hj hi hji) (not_le.mpr hab)
    exact turns_le hij hj _
  · by_cases hrole : n.role = .leader
    · unfold assign at hnone
      rw [if_neg (not_not.mpr hrole)] at hnone
      cases hnone
    · rw [assign_of_not_leader hrole]

/-- Two items assigned around a loss of the role. -/
theorem two_items_balanced :
    let n := runFrom workStep (newNode ⟨"b", ["a"], 0, 0, 0, 0, 0⟩ 0)
      [.become .leader, .assign, .become .follower, .assign, .become .leader, .assign]
    ∑ m ∈ n.nodeLoadSnapshot.keys, (n.nodeLoadSnapshot.lookup m).getD 0 =
        (outputs workStep assigned (newNode ⟨"b", ["a"], 0, 0, 0, 0, 0⟩ 0)
          [.become .leader, .assign, .become .follower, .assign, .become .leader,
            .assign]).length ∧
      (∀ m, m ∈ n.nodeLoadSnapshot ↔ m = "b" ∨ m ∈ ["a"]) ∧
      (∀ a b x y, n.nodeLoadSnapshot.lookup a = some x → n.nodeLoadSnapshot.lookup b = some y →
        a < b → y ≤ x ∧ x ≤ y + 1) ∧
      (n.assign.2 = none → n.assign.1 = n) :=
  work_balanced _ 0 (by decide) _

end Node

end Symkernel.Coordination
