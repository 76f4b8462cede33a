import Symkernel.Library.Runs
import Symkernel.Library.Search
import Symkernel.Library.Slice
import Symkernel.Library.SortedList

/-!
# The consistent-hashing ring

Every node owns `vnodesPerNode` points on the circle of 64-bit hashes. `virtuals` is kept in the
order of the hashes: a join appends the points of the node and sorts, a leave filters the slice
in place, a lookup is a binary search that wraps around. The hash function and the sorting
routine are parameters; all methods hold the ring's lock, so each call is one step.
-/

namespace Symkernel.Sharding

open Symkernel.Library

abbrev Hash := Fin (2 ^ 64)

scoped instance neZero_uint64 : NeZero (2 ^ 64) := ⟨by decide⟩

structure VirtualNode where
  hash : Hash
  nodeID : String
  deriving DecidableEq, Repr

structure Ring where
  virtuals : List VirtualNode
  nodes : Finset String
  vnodesPerNode : ℕ
  deriving DecidableEq

def defaultVirtualNodes : ℕ := 150

def withVirtualNodes (n : ℤ) (r : Ring) : Ring :=
  if n > 0 then { r with vnodesPerNode := n.toNat } else r

/-- The options of a ring are the arguments of `withVirtualNodes`, applied in order. -/
def newRing (opts : List ℤ) : Ring :=
  opts.foldl (fun r n => withVirtualNodes n r)
    { virtuals := [], nodes := ∅, vnodesPerNode := defaultVirtualNodes }

def label (nodeID : String) (i : ℕ) : String :=
  nodeID ++ "#" ++ toString i

section Methods

variable (hashKey : String → Hash) (sortSlice : SliceSort VirtualNode.hash)

def nodePoints (vnodesPerNode : ℕ) (nodeID : String) : List VirtualNode :=
  (List.range vnodesPerNode).map fun i => ⟨hashKey (label nodeID i), nodeID⟩

namespace Ring

def addNodeLocked (r : Ring) (nodeID : String) : Ring :=
  if nodeID ∈ r.nodes then r
  else
    { r with
      nodes := insert nodeID r.nodes
      virtuals := sortSlice.run (r.virtuals ++ nodePoints hashKey r.vnodesPerNode nodeID) }

def removeNodeLocked (r : Ring) (nodeID : String) : Ring :=
  if nodeID ∉ r.nodes then r
  else
    { r with
      nodes := r.nodes.erase nodeID
      virtuals := filterInPlace (fun vn => vn.nodeID ≠ nodeID) r.virtuals }

def lookupLocked (r : Ring) (key : String) : Option String :=
  if r.virtuals.length = 0 then none
  else
    let h := hashKey key
    let idx := search r.virtuals.length fun i => (r.virtuals[i]?).any fun vn => h ≤ vn.hash
    -- past the end the search wraps around to the first point
    let idx := if r.virtuals.length ≤ idx then 0 else idx
    (r.virtuals[idx]?).map VirtualNode.nodeID

def simulate (r : Ring) (fromNode : String) : Ring where
  virtuals := r.virtuals.filter fun vn => vn.nodeID ≠ fromNode
  nodes := r.nodes.filter fun n => n ≠ fromNode
  vnodesPerNode := r.vnodesPerNode

def migrationKeys (r : Ring) (keys : List String) (fromNode : String) :
    (String → Option String) × Ring :=
  let sim := r.simulate fromNode
  let migrations := keys.foldl (fun migrations k =>
    let old := (r.lookupLocked hashKey k).getD ""
    match sim.lookupLocked hashKey k with
    | none => migrations
    | some new =>
      if old ≠ new ∧ old = fromNode then Function.update migrations k (some new)
      else migrations) fun _ => none
  (migrations, r)

end Ring

inductive Op where
  | addNode (nodeID : String)
  | removeNode (nodeID : String)
  deriving DecidableEq, Repr

def step (r : Ring) : Op → Ring
  | .addNode nodeID => r.addNodeLocked hashKey sortSlice nodeID
  | .removeNode nodeID => r.removeNodeLocked nodeID

def after (opts : List ℤ) (ops : List Op) : Ring :=
  runFrom (step hashKey sortSlice) (newRing opts) ops

end Methods

lemma newRing_eq (opts : List ℤ) : ∃ n, 0 < n ∧ newRing opts = ⟨[], ∅, n⟩ := by
  unfold newRing
  induction opts using List.reverseRecOn with
  | nil => exact ⟨defaultVirtualNodes, by decide, rfl⟩
  | append_singleton opts n ih =>
    obtain ⟨m, hm, heq⟩ := ih
    rw [List.foldl_append, List.foldl_cons, List.foldl_nil, heq]
    by_cases hn : n > 0
    · exact ⟨n.toNat, by omega, if_pos hn⟩
    · exact ⟨m, hm, if_neg hn⟩

lemma step_vnodesPerNode (hashKey : String → Hash) (sortSlice : SliceSort VirtualNode.hash)
    (r : Ring) (op : Op) : (step hashKey sortSlice r op).vnodesPerNode = r.vnodesPerNode := by
  cases op with
  | addNode nodeID =>
    rw [step, Ring.addNodeLocked]
    split <;> rfl
  | removeNode nodeID =>
    rw [step, Ring.removeNodeLocked]
    split <;> rfl

lemma Ring.nodes_addNodeLocked (r : Ring) (hashKey : String → Hash)
    (sortSlice : SliceSort VirtualNode.hash) (nodeID : String) :
    (r.addNodeLocked hashKey sortSlice nodeID).nodes = insert nodeID r.nodes := by
  rw [Ring.addNodeLocked]
  split
  next hmem => exact (Finset.insert_eq_of_mem hmem).symm
  next => rfl

lemma Ring.nodes_removeNodeLocked (r : Ring) (nodeID : String) :
    (r.removeNodeLocked nodeID).nodes = r.nodes.erase nodeID := by
  rw [Ring.removeNodeLocked]
  split
  next hmem => exact (Finset.erase_eq_of_notMem hmem).symm
  next => rfl

end Symkernel.Sharding
