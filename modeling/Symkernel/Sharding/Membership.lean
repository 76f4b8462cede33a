import Symkernel.Sharding.NodeManager

/-!
# Membership as the manager tracks it
-/

namespace Symkernel.Sharding

open Symkernel.Library Finmap

inductive Event where
  | join (now : ℤ) (nodeID : String)
  | leave (nodeID : String)
  | heartbeat (now : ℤ) (nodeID : String)
  | checkHealth (now : ℤ) (order : RangeOrder String)

namespace NodeManager

section Calls

variable (hashKey : String → Hash) (sortSlice : SliceSort VirtualNode.hash)

def call (nm : NodeManager) : Event → NodeManager × Option Snapshot
  | .join now nodeID => nm.join hashKey sortSlice now nodeID
  | .leave nodeID => nm.leave nodeID
  | .heartbeat now nodeID => nm.heartbeat hashKey sortSlice now nodeID
  | .checkHealth now order => nm.checkHealth now order

end Calls

def contacted (now : ℤ) (nodeID : String) : Option NodeInfo → NodeInfo
  | some info => { info with state := .healthy, lastSeen := now }
  | none => { id := nodeID, state := .healthy, joinedAt := now, lastSeen := now, shardLoad := 0 }

def checked (opts : NodeManagerOptions) (now : ℤ) (info : NodeInfo) : Option NodeInfo :=
  match info.state with
  | .healthy =>
    some (if sub now info.lastSeen ≥ opts.suspectAfter then { info with state := .suspect } else info)
  | .suspect => if sub now info.lastSeen ≥ opts.downAfter then none else some info
  | .down => some info

def effect (opts : NodeManagerOptions) : Event → String → Option NodeInfo → Option NodeInfo
  | .join now nodeID, id, entry | .heartbeat now nodeID, id, entry =>
    if id = nodeID then some (contacted now nodeID entry) else entry
  | .leave nodeID, id, entry => if id = nodeID then none else entry
  | .checkHealth now _, _, entry => entry.bind (checked opts now)

lemma lookup_insert_eq (m : GoMap String NodeInfo) (a b : String) (info : NodeInfo) :
    (m.insert a info).lookup b = if b = a then some info else m.lookup b := by
  split
  next h =>
    subst h
    exact lookup_insert m
  next h => exact lookup_insert_of_ne m h

lemma lookup_erase_eq (m : GoMap String NodeInfo) (a b : String) :
    (m.erase a).lookup b = if b = a then none else m.lookup b := by
  split
  next h =>
    subst h
    exact lookup_erase b m
  next h => exact lookup_erase_ne h

lemma checkNode_cases (now : ℤ) (acc : NodeManager × Bool) (id : String) :
    (checkNode now acc id = acc ∧
      (acc.1.nodes.lookup id).bind (checked acc.1.opts now) = acc.1.nodes.lookup id) ∨
    (∃ info, acc.1.nodes.lookup id = some info ∧
      checked acc.1.opts now info = some { info with state := .suspect } ∧
      checkNode now acc id =
        ({ acc.1 with nodes := acc.1.nodes.insert id { info with state := .suspect } }, acc.2)) ∨
    (∃ info, acc.1.nodes.lookup id = some info ∧ checked acc.1.opts now info = none ∧
      checkNode now acc id =
        ({ acc.1 with
          ring := acc.1.ring.removeNodeLocked id, nodes := acc.1.nodes.erase id }, true)) := by
  cases hentry : acc.1.nodes.lookup id with
  | none => exact .inl ⟨by simp [checkNode, hentry], rfl⟩
  | some info =>
    cases hstate : info.state with
    | healthy =>
      by_cases hlate : sub now info.lastSeen ≥ acc.1.opts.suspectAfter
      · exact .inr (.inl ⟨info, rfl, by simp [checked, hstate, hlate],
          by simp [checkNode, hentry, hstate, hlate]⟩)
      · exact .inl ⟨by simp [checkNode, hentry, hstate, hlate], by simp [checked, hstate, hlate]⟩
    | suspect =>
      by_cases hlate : sub now info.lastSeen ≥ acc.1.opts.downAfter
      · exact .inr (.inr ⟨info, rfl, by simp [checked, hstate, hlate],
          by simp [checkNode, hentry, hstate, hlate]⟩)
      · exact .inl ⟨by simp [checkNode, hentry, hstate, hlate], by simp [checked, hstate, hlate]⟩
    | down => exact .inl ⟨by simp [checkNode, hentry, hstate], by simp [checked, hstate]⟩

lemma checkNode_opts (now : ℤ) (acc : NodeManager × Bool) (id : String) :
    (checkNode now acc id).1.opts = acc.1.opts := by
  obtain ⟨heq, -⟩ | ⟨info, -, -, heq⟩ | ⟨info, -, -, heq⟩ := checkNode_cases now acc id <;> rw [heq]

lemma lookup_checkNode (now : ℤ) (acc : NodeManager × Bool) (id id' : String) :
    (checkNode now acc id).1.nodes.lookup id' =
      if id' = id then (acc.1.nodes.lookup id).bind (checked acc.1.opts now)
      else acc.1.nodes.lookup id' := by
  obtain ⟨heq, hsame⟩ | ⟨info, hentry, hmarked, heq⟩ | ⟨info, hentry, hdropped, heq⟩ :=
    checkNode_cases now acc id
  · rw [heq, hsame]
    split
    next h => rw [h]
    next => rfl
  · rw [heq, lookup_insert_eq, hentry, Option.bind_some, hmarked]
  · rw [heq, lookup_erase_eq, hentry, Option.bind_some, hdropped]

lemma foldl_checkNode_opts (now : ℤ) (ids : List String) (acc : NodeManager × Bool) :
    (ids.foldl (checkNode now) acc).1.opts = acc.1.opts := by
  induction ids generalizing acc with
  | nil => rfl
  | cons id ids ih => rw [List.foldl_cons, ih, checkNode_opts]

/-- The loop may visit the nodes in any order: each entry is checked once. -/
lemma lookup_checkHealth (nm : NodeManager) (now : ℤ) (order : RangeOrder String) (id : String) :
    (nm.checkHealth now order).1.nodes.lookup id =
      (nm.nodes.lookup id).bind (checked nm.opts now) := by
  have hloop := foldl_pointwise (fun (acc : NodeManager × Bool) id => acc.1.nodes.lookup id)
    (fun _ entry => entry.bind (checked nm.opts now)) (fun acc => acc.1.opts = nm.opts)
    (fun acc id hopts => (checkNode_opts now acc id).trans hopts)
    (by
      intro acc id id' hopts
      rw [lookup_checkNode, hopts]
      split
      next h => rw [h]
      next => rfl)
    (order.nodup nm.nodes.keys) (s := (nm, false)) rfl id
  rw [checkHealth]
  by_cases hmem : id ∈ order.keys nm.nodes.keys
  · simpa only [if_pos hmem] using hloop
  · have hnone : nm.nodes.lookup id = none := by
      rw [lookup_eq_none, ← mem_keys, ← order.mem_keys]
      exact hmem
    simpa only [if_neg hmem, hnone, Option.bind_none] using hloop

section Calls

variable (hashKey : String → Hash) (sortSlice : SliceSort VirtualNode.hash)

lemma lookup_join (nm : NodeManager) (now : ℤ) (nodeID id : String) :
    (nm.join hashKey sortSlice now nodeID).1.nodes.lookup id =
      if id = nodeID then some (contacted now nodeID (nm.nodes.lookup nodeID))
      else nm.nodes.lookup id := by
  unfold join
  cases nm.nodes.lookup nodeID <;> simp [register, lookup_insert_eq, contacted]

lemma lookup_heartbeat (nm : NodeManager) (now : ℤ) (nodeID id : String) :
    (nm.heartbeat hashKey sortSlice now nodeID).1.nodes.lookup id =
      if id = nodeID then some (contacted now nodeID (nm.nodes.lookup nodeID))
      else nm.nodes.lookup id := by
  unfold heartbeat
  cases nm.nodes.lookup nodeID with
  | none => simp [register, lookup_insert_eq, contacted]
  | some info => by_cases hstate : info.state = .healthy <;> simp [lookup_insert_eq, contacted, hstate]

lemma lookup_call (nm : NodeManager) (e : Event) (id : String) :
    (nm.call hashKey sortSlice e).1.nodes.lookup id = effect nm.opts e id (nm.nodes.lookup id) := by
  cases e with
  | join now nodeID =>
    rw [call, lookup_join hashKey sortSlice, effect]
    split
    next h => rw [h]
    next => rfl
  | leave nodeID => exact lookup_erase_eq nm.nodes nodeID id
  | heartbeat now nodeID =>
    rw [call, lookup_heartbeat hashKey sortSlice, effect]
    split
    next h => rw [h]
    next => rfl
  | checkHealth now order => exact lookup_checkHealth nm now order id

/-- What a call owes the observers of a manager whose map and ring agree. -/
structure Coherent (nm : NodeManager) (result : NodeManager × Option Snapshot) : Prop where
  opts : result.1.opts = nm.opts
  ring : result.1.nodes.keys = result.1.ring.nodes
  told : ∀ snap, result.2 = some snap → snap.keys = result.1.nodes.keys
  untold : nm.opts.onChange = true → result.2 = none → result.1.nodes.keys = nm.nodes.keys

variable {nm : NodeManager}

lemma notifyLocked_eq_some {snap : Snapshot} (h : nm.notifyLocked = some snap) :
    snap = nm.nodes := by
  rw [notifyLocked] at h
  split at h
  next => exact (Option.some.inj h).symm
  next => cases h

lemma notifyLocked_ne_none (h : nm.opts.onChange = true) : nm.notifyLocked ≠ none := by
  simp [notifyLocked, h]

lemma Coherent.of_notify {nm' : NodeManager} (hopts : nm'.opts = nm.opts)
    (hring : nm'.nodes.keys = nm'.ring.nodes) : Coherent nm (nm', nm'.notifyLocked) where
  opts := hopts
  ring := hring
  told snap h := by rw [notifyLocked_eq_some h]
  untold hon h := absurd h (notifyLocked_ne_none (by rwa [hopts]))

lemma Coherent.of_insert (h : nm.nodes.keys = nm.ring.nodes) {nodeID : String}
    (hmem : nodeID ∈ nm.nodes) (info : NodeInfo) :
    Coherent nm ({ nm with nodes := nm.nodes.insert nodeID info }, none) := by
  have hkeys : (nm.nodes.insert nodeID info).keys = nm.nodes.keys := by
    rw [GoMap.keys_insert, Finset.insert_eq_of_mem (Finmap.mem_keys.mpr hmem)]
  exact ⟨rfl, hkeys.trans h, by simp, fun _ _ => hkeys⟩

lemma register_coherent (h : nm.nodes.keys = nm.ring.nodes) (now : ℤ) (nodeID : String) :
    Coherent nm (nm.register hashKey sortSlice now nodeID) := by
  refine Coherent.of_notify rfl ?_
  rw [GoMap.keys_insert, Ring.nodes_addNodeLocked, h]

lemma checkNode_keys {acc : NodeManager × Bool} (h : acc.1.nodes.keys = acc.1.ring.nodes)
    (now : ℤ) (id : String) :
    (checkNode now acc id).1.nodes.keys = (checkNode now acc id).1.ring.nodes ∧
      ((checkNode now acc id).2 = false →
        acc.2 = false ∧ (checkNode now acc id).1.nodes.keys = acc.1.nodes.keys) := by
  obtain ⟨heq, -⟩ | ⟨info, hentry, -, heq⟩ | ⟨info, -, -, heq⟩ := checkNode_cases now acc id
  · rw [heq]
    exact ⟨h, fun hfalse => ⟨hfalse, rfl⟩⟩
  · have hkeys : (acc.1.nodes.insert id { info with state := .suspect }).keys = acc.1.nodes.keys := by
      rw [GoMap.keys_insert, Finset.insert_eq_of_mem
        (Finmap.mem_keys.mpr (Finmap.mem_of_lookup_eq_some hentry))]
    rw [heq]
    exact ⟨hkeys.trans h, fun hfalse => ⟨hfalse, hkeys⟩⟩
  · rw [heq]
    refine ⟨?_, by simp⟩
    rw [keys_erase, Ring.nodes_removeNodeLocked, h]

lemma foldl_checkNode_keys (now : ℤ) (ids : List String) {acc : NodeManager × Bool}
    (h : acc.1.nodes.keys = acc.1.ring.nodes) : (ids.foldl (checkNode now) acc).1.nodes.keys =
        (ids.foldl (checkNode now) acc).1.ring.nodes ∧
      ((ids.foldl (checkNode now) acc).2 = false →
        acc.2 = false ∧ (ids.foldl (checkNode now) acc).1.nodes.keys = acc.1.nodes.keys) := by
  induction ids generalizing acc with
  | nil => exact ⟨h, fun hfalse => ⟨hfalse, rfl⟩⟩
  | cons id ids ih =>
    obtain ⟨hring, hkeys⟩ := checkNode_keys h now id
    obtain ⟨hring', hkeys'⟩ := ih hring
    refine ⟨hring', fun hfalse => ?_⟩
    obtain ⟨hmid, hrest⟩ := hkeys' hfalse
    exact ⟨(hkeys hmid).1, hrest.trans (hkeys hmid).2⟩

lemma checkHealth_coherent (h : nm.nodes.keys = nm.ring.nodes) (now : ℤ)
    (order : RangeOrder String) : Coherent nm (nm.checkHealth now order) := by
  have hopts := foldl_checkNode_opts now (order.keys nm.nodes.keys) (nm, false)
  obtain ⟨hring, hkeys⟩ := foldl_checkNode_keys now (order.keys nm.nodes.keys)
    (show (nm, false).1.nodes.keys = (nm, false).1.ring.nodes from h)
  rw [checkHealth]
  generalize (order.keys nm.nodes.keys).foldl (checkNode now) (nm, false) = acc at hopts hring hkeys
  cases hchanged : acc.2 with
  | true => exact Coherent.of_notify hopts hring
  | false => exact ⟨hopts, hring, by simp, fun _ _ => (hkeys hchanged).2⟩

lemma call_coherent (h : nm.nodes.keys = nm.ring.nodes) (e : Event) :
    Coherent nm (nm.call hashKey sortSlice e) := by
  cases e with
  | join now nodeID =>
    rw [call, join]
    split
    next info hentry => exact Coherent.of_insert h (Finmap.mem_of_lookup_eq_some hentry) _
    next => exact register_coherent hashKey sortSlice h now nodeID
  | leave nodeID =>
    refine Coherent.of_notify rfl ?_
    rw [keys_erase, Ring.nodes_removeNodeLocked, h]
  | heartbeat now nodeID =>
    rw [call, heartbeat]
    split
    next info hentry => exact Coherent.of_insert h (Finmap.mem_of_lookup_eq_some hentry) _
    next => exact register_coherent hashKey sortSlice h now nodeID
  | checkHealth now order => exact checkHealth_coherent h now order

end Calls

end NodeManager

end Symkernel.Sharding
