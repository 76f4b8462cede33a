import Symkernel.Sharding.Lookup

/-!
# Minimal rebalancing
-/

namespace Symkernel.Sharding

open Symkernel.Library Finset

namespace Ring

variable {hashKey : String → Hash} {r : Ring}

variable {key nodeID : String}

section Members

variable (h : r.Holds hashKey)
include h

/-- Two rings with the points of their members, where every owner that the larger one names and
the smaller one still has as a member is the owner in both. -/
lemma Holds.lookup_eq_of_subset {r' : Ring} (h' : r'.Holds hashKey)
    (hn : r'.vnodesPerNode = r.vnodesPerNode)
    (hinj : Set.InjOn hashKey (labels r.vnodesPerNode r.nodes)) (hsub : r'.nodes ⊆ r.nodes)
    (hlookup : r.lookupLocked hashKey key = some nodeID) (hmem : nodeID ∈ r'.nodes) :
    r'.lookupLocked hashKey key = some nodeID := by
  have howner := (h.lookup_iff hinj key nodeID).mp hlookup
  have hinj' : Set.InjOn hashKey (labels r'.vnodesPerNode r'.nodes) := by
    refine hinj.mono ?_
    rintro l ⟨a, ha, i, hi, rfl⟩
    exact ⟨a, hsub ha, i, hn ▸ hi, rfl⟩
  rw [h'.lookup_iff hinj', hn]
  exact howner.of_subset hsub hmem

lemma Holds.exists_lookup (hpos : 0 < r.vnodesPerNode) (hne : r.nodes.Nonempty) (key : String) :
    ∃ nodeID ∈ r.nodes, r.lookupLocked hashKey key = some nodeID := by
  have hvirtuals : r.virtuals ≠ [] := by
    rw [Ne, h.virtuals_eq_nil_iff hpos]
    exact hne.ne_empty
  obtain ⟨nodeID, hlookup, howner⟩ := h.lookup_owner hvirtuals key
  exact ⟨nodeID, howner.mem, hlookup⟩

lemma Holds.lookup_none (hnodes : ¬ r.nodes.Nonempty) (key : String) :
    r.lookupLocked hashKey key = none := by
  refine lookupLocked_of_nil (List.eq_nil_iff_forall_not_mem.mpr fun vn hvn => ?_) key
  exact hnodes ⟨vn.nodeID, (h.mem_virtuals.mp hvn).1⟩

lemma Holds.lookup_removeNodeLocked (hpos : 0 < r.vnodesPerNode)
    (hinj : Set.InjOn hashKey (labels r.vnodesPerNode r.nodes))
    (hkey : r.lookupLocked hashKey key ≠ some nodeID) :
    (r.removeNodeLocked nodeID).lookupLocked hashKey key = r.lookupLocked hashKey key := by
  have hnodes := nodes_removeNodeLocked r nodeID
  have hremoved := h.removeNodeLocked nodeID
  by_cases hne : r.nodes.Nonempty
  · obtain ⟨owner, howner, hlookup⟩ := h.exists_lookup hpos hne key
    rw [hlookup] at hkey ⊢
    refine h.lookup_eq_of_subset hremoved (step_vnodesPerNode hashKey (SliceSort.insertion _) r
      (.removeNode nodeID)) hinj ?_ hlookup ?_
    · rw [hnodes]
      exact erase_subset nodeID r.nodes
    · rw [hnodes, mem_erase]
      exact ⟨fun heq => hkey (by rw [heq]), howner⟩
  · rw [h.lookup_none hne, hremoved.lookup_none]
    rw [hnodes]
    exact fun hne' => hne (hne'.mono (erase_subset nodeID r.nodes))

lemma Holds.lookup_addNodeLocked (hpos : 0 < r.vnodesPerNode)
    (sortSlice : SliceSort VirtualNode.hash)
    (hinj : Set.InjOn hashKey (labels r.vnodesPerNode (insert nodeID r.nodes))) :
    (r.addNodeLocked hashKey sortSlice nodeID).lookupLocked hashKey key =
        r.lookupLocked hashKey key ∨
      (r.addNodeLocked hashKey sortSlice nodeID).lookupLocked hashKey key = some nodeID := by
  have hnodes := nodes_addNodeLocked r hashKey sortSlice nodeID
  have hvnodes := step_vnodesPerNode hashKey sortSlice r (.addNode nodeID)
  have hadded := h.addNodeLocked sortSlice nodeID
  rw [step] at hvnodes
  obtain ⟨owner, howner, hlookup⟩ := hadded.exists_lookup (by rwa [hvnodes])
    (by rw [hnodes]; exact insert_nonempty nodeID r.nodes) key
  rw [hnodes, mem_insert] at howner
  obtain rfl | howner := howner
  · exact .inr hlookup
  · left
    rw [hlookup]
    refine (hadded.lookup_eq_of_subset h hvnodes.symm (by rwa [hvnodes, hnodes]) ?_ hlookup
      howner).symm
    rw [hnodes]
    exact subset_insert nodeID r.nodes

lemma Holds.lookup_simulate (nodeID key : String) : (r.simulate nodeID).lookupLocked hashKey key =
      (r.removeNodeLocked nodeID).lookupLocked hashKey key := by
  have hvirtuals : (r.simulate nodeID).virtuals = (r.removeNodeLocked nodeID).virtuals := by
    rw [Ring.removeNodeLocked]
    split
    next hmem =>
      refine List.filter_eq_self.mpr fun vn hvn => ?_
      have hvn := (h.mem_virtuals.mp hvn).1
      exact decide_eq_true fun heq => hmem (heq ▸ hvn)
    next => exact (filterInPlace_eq_filter _ _).symm
  rw [lookupLocked, lookupLocked, hvirtuals]

end Members

lemma migrationKeys_iff (keys : List String) (fromNode k owner : String) :
    (r.migrationKeys hashKey keys fromNode).1 k = some owner ↔
      k ∈ keys ∧ (r.simulate fromNode).lookupLocked hashKey k = some owner ∧
        (r.lookupLocked hashKey k).getD "" ≠ owner ∧
        (r.lookupLocked hashKey k).getD "" = fromNode := by
  unfold migrationKeys
  induction keys using List.reverseRecOn with
  | nil => simp
  | append_singleton keys last ih =>
    simp only [List.foldl_append, List.foldl_cons, List.foldl_nil, List.mem_append,
      List.mem_singleton] at ih ⊢
    by_cases hk : k = last
    · subst hk
      cases hsim : (r.simulate fromNode).lookupLocked hashKey k with
      | none => simp [ih, hsim]
      | some new =>
        by_cases hmoved : (r.lookupLocked hashKey k).getD "" ≠ new ∧
            (r.lookupLocked hashKey k).getD "" = fromNode
        · simp only [if_pos hmoved, Function.update_self, or_true, true_and, Option.some.injEq]
          constructor
          · rintro rfl
            exact ⟨rfl, hmoved⟩
          · exact fun h => h.1
        · simp only [if_neg hmoved, ih, hsim, Option.some.injEq, or_true, true_and]
          constructor
          · exact fun h => h.2
          · rintro ⟨rfl, h⟩
            exact absurd h hmoved
    · have hkeep : ∀ (m : String → Option String) (v : String),
          Function.update m last (some v) k = m k := fun m v => Function.update_of_ne hk _ _
      cases hsim : (r.simulate fromNode).lookupLocked hashKey last with
      | none => simp [ih, hk]
      | some new =>
        simp only [hk, or_false, ← ih]
        split
        next => rw [hkeep]
        next => rfl

end Ring

/-- In every ring that joins and leaves can reach: removing a node changes the owner only of the
keys it owned, adding a node changes owners only to that node, and as long as another member
stays, `migrationKeys` holds exactly the listed keys whose owner the removal changes, with their
new owners, and returns the ring as it was. -/
theorem rebalancing_minimal (hashKey : String → Hash) (sortSlice : SliceSort VirtualNode.hash)
    (opts : List ℤ) (ops : List Op) (n : String)
    (hinj : Set.InjOn hashKey (labels (newRing opts).vnodesPerNode
      (insert n (after hashKey sortSlice opts ops).nodes))) :
    (∀ key, (after hashKey sortSlice opts ops).lookupLocked hashKey key ≠ some n →
      ((after hashKey sortSlice opts ops).removeNodeLocked n).lookupLocked hashKey key =
        (after hashKey sortSlice opts ops).lookupLocked hashKey key) ∧
    (∀ key, ((after hashKey sortSlice opts ops).addNodeLocked hashKey sortSlice n).lookupLocked
          hashKey key ≠ (after hashKey sortSlice opts ops).lookupLocked hashKey key →
      ((after hashKey sortSlice opts ops).addNodeLocked hashKey sortSlice n).lookupLocked
        hashKey key = some n) ∧
    (∀ keys, (∃ m ∈ (after hashKey sortSlice opts ops).nodes, m ≠ n) → (∀ k owner,
        ((after hashKey sortSlice opts ops).migrationKeys hashKey keys n).1 k = some owner ↔
          k ∈ keys ∧
          ((after hashKey sortSlice opts ops).removeNodeLocked n).lookupLocked hashKey k ≠
            (after hashKey sortSlice opts ops).lookupLocked hashKey k ∧
          ((after hashKey sortSlice opts ops).removeNodeLocked n).lookupLocked hashKey k =
            some owner) ∧
      ((after hashKey sortSlice opts ops).migrationKeys hashKey keys n).2 =
        after hashKey sortSlice opts ops) := by
  have hr := after_holds hashKey sortSlice opts ops
  have hn := after_vnodesPerNode hashKey sortSlice opts ops
  have hpos := newRing_vnodesPerNode_pos opts
  rw [← hn] at hinj hpos
  generalize after hashKey sortSlice opts ops = r at hr hinj hpos
  have hinj' : Set.InjOn hashKey (labels r.vnodesPerNode r.nodes) := by
    refine hinj.mono ?_
    rintro l ⟨a, ha, rest⟩
    exact ⟨a, mem_insert_of_mem ha, rest⟩
  have hremove : ∀ key, r.lookupLocked hashKey key ≠ some n →
      (r.removeNodeLocked n).lookupLocked hashKey key = r.lookupLocked hashKey key :=
    fun _ => hr.lookup_removeNodeLocked hpos hinj'
  refine ⟨hremove, ?_, ?_⟩
  · intro key hchanged
    exact (hr.lookup_addNodeLocked hpos sortSlice hinj).resolve_left hchanged
  · rintro keys ⟨m, hm, -⟩
    refine ⟨fun k owner => ?_, rfl⟩
    obtain ⟨old, -, hold⟩ := hr.exists_lookup hpos ⟨m, hm⟩ k
    rw [Ring.migrationKeys_iff, hr.lookup_simulate, hold, Option.getD_some]
    constructor
    · rintro ⟨hk, hnew, hne, -⟩
      rw [hnew]
      exact ⟨hk, fun heq => hne (Option.some.inj heq).symm, rfl⟩
    · rintro ⟨hk, hne, hnew⟩
      refine ⟨hk, hnew, fun heq => hne (by rw [hnew, heq]), ?_⟩
      -- a key of another node keeps its owner
      by_contra hother
      exact hne ((hremove k (by rw [hold]; simpa using hother)).trans hold)

theorem sampleRing_keeps_other_keys :
    (sampleRing.removeNodeLocked "a").lookupLocked sampleHash "b#0" =
      sampleRing.lookupLocked sampleHash "b#0" :=
  (rebalancing_minimal sampleHash (SliceSort.insertion _) [1] [.addNode "a", .addNode "b"] "a"
    (by
      have hmem : "a" ∈ sampleRing.nodes := by decide
      have hinj := sampleRing_injOn
      rwa [← insert_eq_of_mem hmem] at hinj)).1 "b#0" (by decide +kernel)

end Symkernel.Sharding
