import Symkernel.Coordination.Node
import Symkernel.Library.Runs

/-!
# Clusters over an unreliable network

Nodes with distinct IDs and one member set exchange messages over a network that may lose, delay,
reorder and duplicate them.
-/

namespace Symkernel.Coordination

open Library

/-- A member set with one configuration per member. Every node lists exactly the other
members as its peers, in an order of its own. -/
structure ClusterConfig where
  members : List String
  nodup : members.Nodup
  config : String → NodeConfig
  draw : String → Nat
  config_id : ∀ i ∈ members, (config i).id = i
  config_peers : ∀ i ∈ members, (config i).peers.Perm (members.erase i)

structure Cluster where
  node : String → Node
  sent : List Message

/-- One event of a schedule. A message that was never sent or that is addressed to no
member cannot be delivered. -/
inductive Action where
  | tick (i : String) (draw : Nat)
  | deliver (m : Message)
  deriving DecidableEq, Repr

def Action.isTick : Action → Bool
  | .tick _ _ => true
  | .deliver _ => false

namespace ClusterConfig

variable (C : ClusterConfig)

def initial : Cluster where
  node i := newNode (C.config i) (C.draw i)
  sent := []

def tickStep (s : Cluster) (i : String) (draw : Nat) : Cluster :=
  let r := (s.node i).tickNode draw
  { node := Function.update s.node i r.1, sent := s.sent ++ r.2 }

def deliverStep (s : Cluster) (m : Message) : Cluster :=
  { s with node := Function.update s.node m.toId ((s.node m.toId).receive m) }

def step (s : Cluster) : Action → Cluster
  | .tick i draw => if i ∈ C.members then tickStep s i draw else s
  | .deliver m => if m ∈ s.sent ∧ m.toId ∈ C.members then deliverStep s m else s

def after (schedule : List Action) : Cluster :=
  runFrom C.step C.initial schedule

end ClusterConfig

lemma after_append (C : ClusterConfig) (front back : List Action) :
    C.after (front ++ back) = runFrom C.step (C.after front) back :=
  runFrom_append _ _ _ _

lemma after_concat (C : ClusterConfig) (schedule : List Action) (a : Action) :
    C.after (schedule ++ [a]) = C.step (C.after schedule) a :=
  after_append C schedule [a]

/-- `NewCluster`: default timing for every member, the other members sorted as peers. -/
def newCluster (ids : List String) (nodup : ids.Nodup) (draw : String → Nat) : ClusterConfig where
  members := ids
  nodup := nodup
  config i := { id := i, peers := (ids.filter (· ≠ i)).insertionSort (· ≤ ·) }
  draw := draw
  config_id _ _ := rfl
  config_peers i _ := by
    refine (List.perm_insertionSort _ _).trans ?_
    rw [nodup.erase_eq_filter i]
    simp only [ne_eq, decide_not]
    exact List.Perm.of_eq (List.filter_congr (by intro x _; simp [bne]; rfl))

end Symkernel.Coordination
