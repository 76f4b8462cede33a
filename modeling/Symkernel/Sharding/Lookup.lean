import Symkernel.Library.Circle
import Symkernel.Library.Numeral
import Symkernel.Sharding.Ring

/-!
# Owners of keys
-/

namespace Symkernel.Sharding

open Symkernel.Library Finset

/-- The digits after the last `#` are the replica, whatever the node is called. -/
lemma label_inj {a b : String} {i j : ℕ} (h : label a i = label b j) : a = b ∧ i = j := by
  have hdigits : ∀ n : ℕ, '#' ∉ Nat.toDigits 10 n := by
    intro n hn
    exact absurd (isDigit_of_mem_toDigits hn) (by decide)
  have hlist : ∀ (s : String) (n : ℕ), (label s n).toList = s.toList ++ '#' :: Nat.toDigits 10 n := by
    intro s n
    simp [label]
  have happend := congrArg String.toList h
  rw [hlist, hlist] at happend
  obtain ⟨hab, hij⟩ := append_separator_inj (hdigits i) (hdigits j) happend
  refine ⟨String.toList_injective hab, ?_⟩
  rw [← Nat.ofDigitChars_ten_toDigits (n := i), hij, Nat.ofDigitChars_ten_toDigits]

section Owners

variable (hashKey : String → Hash)

def labels (vnodesPerNode : ℕ) (members : Finset String) : Set String :=
  {l | ∃ nodeID ∈ members, ∃ i < vnodesPerNode, l = label nodeID i}

def points (vnodesPerNode : ℕ) (members : Finset String) : Set VirtualNode :=
  {vn | vn.nodeID ∈ members ∧ vn ∈ nodePoints hashKey vnodesPerNode vn.nodeID}

def Owner (vnodesPerNode : ℕ) (members : Finset String) (key nodeID : String) : Prop :=
  ∃ vn, Next (hashKey key) VirtualNode.hash (points hashKey vnodesPerNode members) vn ∧
    vn.nodeID = nodeID

variable {hashKey} {n : ℕ} {members : Finset String} {key a b : String}

lemma points_mono {members' : Finset String} (h : members' ⊆ members) :
    points hashKey n members' ⊆ points hashKey n members :=
  fun _ hvn => ⟨h hvn.1, hvn.2⟩

lemma nodeID_eq_of_hash_eq (hinj : Set.InjOn hashKey (labels n members)) {p q : VirtualNode}
    (hp : p ∈ points hashKey n members) (hq : q ∈ points hashKey n members)
    (h : p.hash = q.hash) : p.nodeID = q.nodeID := by
  obtain ⟨hpm, hp⟩ := hp
  obtain ⟨hqm, hq⟩ := hq
  simp only [nodePoints, List.mem_map, List.mem_range] at hp hq
  obtain ⟨i, hi, hpeq⟩ := hp
  obtain ⟨j, hj, hqeq⟩ := hq
  have hhash : hashKey (label p.nodeID i) = hashKey (label q.nodeID j) := by
    rw [← hpeq, ← hqeq] at h
    exact h
  exact (label_inj (hinj ⟨_, hpm, i, hi, rfl⟩ ⟨_, hqm, j, hj, rfl⟩ hhash)).1

lemma Owner.unique (hinj : Set.InjOn hashKey (labels n members))
    (ha : Owner hashKey n members key a) (hb : Owner hashKey n members key b) : a = b := by
  obtain ⟨p, hp, rfl⟩ := ha
  obtain ⟨q, hq, rfl⟩ := hb
  exact nodeID_eq_of_hash_eq hinj hp.1 hq.1 (hp.key_eq hq)

lemma Owner.mem (h : Owner hashKey n members key a) : a ∈ members := by
  obtain ⟨p, hp, rfl⟩ := h
  exact hp.1.1

lemma Owner.of_subset {members' : Finset String} (h : Owner hashKey n members key a)
    (hsub : members' ⊆ members) (ha : a ∈ members') : Owner hashKey n members' key a := by
  obtain ⟨p, hp, rfl⟩ := h
  exact ⟨p, hp.of_subset (points_mono hsub) ⟨ha, hp.1.2⟩, rfl⟩

end Owners

section Search

variable {vns : List VirtualNode} {h : Hash}

lemma any_getElem?_iff {i : ℕ} (hi : i < vns.length) :
    ((vns[i]?).any fun vn => h ≤ vn.hash) = true ↔ h ≤ (vns[i]).hash := by
  simp [List.getElem?_eq_getElem hi]

lemma hash_le_of_le (hs : vns.Pairwise fun a b => a.hash ≤ b.hash) {i j : ℕ} (hij : i ≤ j)
    (hj : j < vns.length) : (vns[i]).hash ≤ (vns[j]).hash := by
  obtain rfl | hlt := Nat.eq_or_lt_of_le hij
  · exact le_rfl
  · exact List.pairwise_iff_getElem.mp hs i j (by omega) hj hlt

/-- The point at the index that the search returns, wrapped around, is the first one on the walk
up from `h`. -/
lemma upto_search (hs : vns.Pairwise fun a b => a.hash ≤ b.hash) (hne : vns ≠ []) :
    ∃ vn, vns[if vns.length ≤ search vns.length (fun i => (vns[i]?).any fun vn => h ≤ vn.hash) then 0
        else search vns.length (fun i => (vns[i]?).any fun vn => h ≤ vn.hash)]? = some vn ∧
      ∀ q ∈ vns, Upto h vn.hash q.hash := by
  have hpos : 0 < vns.length := List.length_pos_iff.mpr hne
  obtain ⟨hle, hbefore, hat⟩ := search_spec (n := vns.length)
    (f := fun i => (vns[i]?).any fun vn => h ≤ vn.hash) (by
      intro a b hab hb ha
      rw [any_getElem?_iff (by omega)] at ha
      rw [any_getElem?_iff hb]
      exact ha.trans (hash_le_of_le hs hab hb))
  generalize search vns.length (fun i => (vns[i]?).any fun vn => h ≤ vn.hash) = idx
    at hle hbefore hat
  have hlow : ∀ k (hk : k < vns.length), k < idx → (vns[k]).hash < h := by
    intro k hk hki
    rw [← not_le, ← any_getElem?_iff hk, hbefore k hki]
    exact Bool.false_ne_true
  by_cases hend : vns.length ≤ idx
  · refine ⟨vns[0], by rw [if_pos hend, List.getElem?_eq_getElem hpos], fun q hq => ?_⟩
    obtain ⟨k, hk, rfl⟩ := List.mem_iff_getElem.mp hq
    rw [Upto, if_neg (not_le.mpr (hlow 0 hpos (by omega)))]
    exact ⟨hlow k hk (by omega), hash_le_of_le hs (Nat.zero_le k) hk⟩
  · have hidx : idx < vns.length := by omega
    refine ⟨vns[idx], by rw [if_neg hend, List.getElem?_eq_getElem hidx], fun q hq => ?_⟩
    obtain ⟨k, hk, rfl⟩ := List.mem_iff_getElem.mp hq
    rw [Upto, if_pos ((any_getElem?_iff hidx).mp (hat hidx))]
    intro hq
    have hik : idx ≤ k := by
      by_contra hlt
      exact absurd hq (not_le.mpr (hlow k hk (by omega)))
    exact hash_le_of_le hs hik hk

end Search

/-- The slice is in order and holds, for every node, its points if it is a member and nothing
otherwise. -/
structure Ring.Holds (hashKey : String → Hash) (r : Ring) : Prop where
  sorted : r.virtuals.Pairwise fun a b => a.hash ≤ b.hash
  held : ∀ nodeID, (r.virtuals.filter fun vn => vn.nodeID = nodeID).Perm
    (if nodeID ∈ r.nodes then nodePoints hashKey r.vnodesPerNode nodeID else [])

namespace Ring

variable {hashKey : String → Hash} {r : Ring}

lemma mem_nodePoints_nodeID {n : ℕ} {nodeID : String} {vn : VirtualNode}
    (h : vn ∈ nodePoints hashKey n nodeID) : vn.nodeID = nodeID := by
  simp only [nodePoints, List.mem_map] at h
  obtain ⟨i, -, rfl⟩ := h
  rfl

lemma filter_nodePoints (n : ℕ) (a b : String) :
    (nodePoints hashKey n a).filter (fun vn => vn.nodeID = b) =
      if a = b then nodePoints hashKey n a else [] := by
  split
  next hab =>
    exact List.filter_eq_self.mpr fun vn hvn => by simp [mem_nodePoints_nodeID hvn, hab]
  next hab =>
    exact List.filter_eq_nil_iff.mpr fun vn hvn => by simp [mem_nodePoints_nodeID hvn, hab]

lemma Holds.newRing (opts : List ℤ) : (newRing opts).Holds hashKey := by
  obtain ⟨n, -, heq⟩ := newRing_eq opts
  rw [heq]
  exact ⟨List.Pairwise.nil, fun nodeID => by simp⟩

lemma Holds.addNodeLocked (sortSlice : SliceSort VirtualNode.hash) (h : r.Holds hashKey)
    (nodeID : String) : (r.addNodeLocked hashKey sortSlice nodeID).Holds hashKey := by
  rw [Ring.addNodeLocked]
  split
  next => exact h
  next hnew =>
    refine ⟨sortSlice.sorted _, fun other => ?_⟩
    refine ((sortSlice.perm _).filter _).trans ?_
    rw [List.filter_append, filter_nodePoints]
    have hother := h.held other
    by_cases heq : nodeID = other
    · subst heq
      rw [if_neg hnew] at hother
      simp [hother.eq_nil]
    · simpa [heq, Ne.symm heq] using hother

lemma Holds.removeNodeLocked (h : r.Holds hashKey) (nodeID : String) :
    (r.removeNodeLocked nodeID).Holds hashKey := by
  rw [Ring.removeNodeLocked]
  split
  next => exact h
  next hold =>
    rw [filterInPlace_eq_filter]
    refine ⟨h.sorted.filter _, fun other => ?_⟩
    have hother := h.held other
    rw [List.filter_filter]
    by_cases heq : other = nodeID
    · subst heq
      simp
    · have hsame : (r.virtuals.filter fun vn => decide (vn.nodeID = other) &&
          decide (vn.nodeID ≠ nodeID)) = r.virtuals.filter fun vn => vn.nodeID = other := by
        refine List.filter_congr fun vn _ => ?_
        by_cases hvn : vn.nodeID = other
        · simp [hvn, heq]
        · simp [hvn]
      rw [hsame]
      simpa [heq] using hother

lemma Holds.mem_virtuals (h : r.Holds hashKey) {vn : VirtualNode} :
    vn ∈ r.virtuals ↔ vn ∈ points hashKey r.vnodesPerNode r.nodes := by
  have hheld := (h.held vn.nodeID).mem_iff (a := vn)
  by_cases hmem : vn.nodeID ∈ r.nodes <;> simpa [points] using hheld

lemma Holds.count (h : r.Holds hashKey) (nodeID : String) :
    r.virtuals.countP (fun vn => vn.nodeID = nodeID) =
      if nodeID ∈ r.nodes then r.vnodesPerNode else 0 := by
  rw [List.countP_eq_length_filter, (h.held nodeID).length_eq]
  split <;> simp [nodePoints]

lemma Holds.virtuals_eq_nil_iff (h : r.Holds hashKey) (hpos : 0 < r.vnodesPerNode) :
    r.virtuals = [] ↔ r.nodes = ∅ := by
  constructor
  · intro hnil
    refine eq_empty_of_forall_notMem fun nodeID hmem => ?_
    have := h.count nodeID
    rw [hnil, if_pos hmem] at this
    simp at this
    omega
  · intro hempty
    refine List.eq_nil_iff_forall_not_mem.mpr fun vn hvn => ?_
    have := (h.mem_virtuals.mp hvn).1
    simp [hempty] at this

lemma Holds.lookup_owner (h : r.Holds hashKey) (hne : r.virtuals ≠ []) (key : String) :
    ∃ nodeID, r.lookupLocked hashKey key = some nodeID ∧
      Owner hashKey r.vnodesPerNode r.nodes key nodeID := by
  obtain ⟨vn, hvn, hfirst⟩ := upto_search (h := hashKey key) h.sorted hne
  refine ⟨vn.nodeID, ?_, vn, ⟨h.mem_virtuals.mp (List.mem_of_getElem? hvn), ?_⟩, rfl⟩
  · have hlen : r.virtuals.length ≠ 0 := fun h0 => hne (List.length_eq_zero_iff.mp h0)
    simp only [Ring.lookupLocked, if_neg hlen, hvn, Option.map_some]
  · exact fun q hq => hfirst q (h.mem_virtuals.mpr hq)

lemma lookupLocked_of_nil (hnil : r.virtuals = []) (key : String) :
    r.lookupLocked hashKey key = none := by
  simp [Ring.lookupLocked, hnil]

lemma Holds.lookup_iff (h : r.Holds hashKey)
    (hinj : Set.InjOn hashKey (labels r.vnodesPerNode r.nodes)) (key nodeID : String) :
    r.lookupLocked hashKey key = some nodeID ↔
      Owner hashKey r.vnodesPerNode r.nodes key nodeID := by
  by_cases hnil : r.virtuals = []
  · rw [lookupLocked_of_nil hnil]
    refine iff_of_false (by simp) ?_
    rintro ⟨vn, hvn, -⟩
    have := h.mem_virtuals.mpr hvn.1
    simp [hnil] at this
  · obtain ⟨owner, hlookup, howner⟩ := h.lookup_owner hnil key
    rw [hlookup, Option.some.injEq]
    constructor
    · rintro rfl
      exact howner
    · exact howner.unique hinj

end Ring

section Histories

variable {hashKey : String → Hash} {sortSlice : SliceSort VirtualNode.hash}

lemma step_holds {r : Ring} (h : r.Holds hashKey) (op : Op) :
    (step hashKey sortSlice r op).Holds hashKey := by
  cases op with
  | addNode nodeID => exact h.addNodeLocked sortSlice nodeID
  | removeNode nodeID => exact h.removeNodeLocked nodeID

variable (hashKey sortSlice)

lemma after_holds (opts : List ℤ) (ops : List Op) :
    (after hashKey sortSlice opts ops).Holds hashKey := by
  induction ops using List.reverseRecOn with
  | nil => exact Ring.Holds.newRing opts
  | append_singleton ops op ih =>
    rw [after, runFrom_append]
    exact step_holds ih op

lemma after_vnodesPerNode (opts : List ℤ) (ops : List Op) :
    (after hashKey sortSlice opts ops).vnodesPerNode = (newRing opts).vnodesPerNode := by
  induction ops using List.reverseRecOn with
  | nil => rfl
  | append_singleton ops op ih =>
    rw [after, runFrom_append]
    exact (step_vnodesPerNode hashKey sortSlice _ op).trans ih

lemma newRing_vnodesPerNode_pos (opts : List ℤ) : 0 < (newRing opts).vnodesPerNode := by
  obtain ⟨n, hn, heq⟩ := newRing_eq opts
  rw [heq]
  exact hn

end Histories

def sampleHash (key : String) : Hash :=
  if key = "a#0" then 10 else if key = "b#0" then 20 else 15

lemma sampleHash_injOn : Set.InjOn sampleHash (labels 1 {"a", "b"}) := by
  rintro _ ⟨p, hp, i, hi, rfl⟩ _ ⟨q, hq, j, hj, rfl⟩ h
  obtain rfl : i = 0 := by omega
  obtain rfl : j = 0 := by omega
  simp only [mem_insert, mem_singleton] at hp hq
  obtain rfl | rfl := hp <;> obtain rfl | rfl := hq
  · rfl
  · exact absurd h (by decide)
  · exact absurd h (by decide)
  · rfl

def sampleRing : Ring :=
  after sampleHash (SliceSort.insertion _) [1] [.addNode "a", .addNode "b"]

lemma sampleRing_injOn :
    Set.InjOn sampleHash (labels (newRing [1]).vnodesPerNode sampleRing.nodes) := by
  rw [show sampleRing.nodes = {"a", "b"} from by decide]
  exact sampleHash_injOn

end Symkernel.Sharding
