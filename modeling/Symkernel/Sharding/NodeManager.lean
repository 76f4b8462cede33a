import Symkernel.Library.GoMap
import Symkernel.Sharding.Ring

/-!
# The node manager

`NodeManager` wraps a ring with the health of its nodes. Every method holds the manager's lock,
so a call is one step; the clock reading of a call, and for a health check the order in which
it visits the map, are inputs. A call returns the snapshot that it passes to `OnChange`, if any.
-/

namespace Symkernel.Sharding

open Symkernel.Library

inductive NodeState where
  | healthy
  | suspect
  | down
  deriving DecidableEq, Repr

/-- Times and durations are nanoseconds. -/
structure NodeInfo where
  id : String
  state : NodeState
  joinedAt : ℤ
  lastSeen : ℤ
  shardLoad : ℤ
  deriving DecidableEq, Repr

/-- `onChange` says whether a callback is installed. -/
structure NodeManagerOptions where
  suspectAfter : ℤ
  downAfter : ℤ
  checkInterval : ℤ
  onChange : Bool
  deriving DecidableEq, Repr

structure NodeManager where
  ring : Ring
  nodes : GoMap String NodeInfo
  opts : NodeManagerOptions
  deriving DecidableEq

def times (k d : ℤ) : ℤ :=
  Int.bmod (k * d) (2 ^ 64)

/-- The difference of two times, cut off at the ends of the 64-bit durations. -/
def sub (t u : ℤ) : ℤ :=
  max (-2 ^ 63) (min (2 ^ 63 - 1) (t - u))

def NodeManagerOptions.withDefaults (opts : NodeManagerOptions) : NodeManagerOptions :=
  let checkInterval := if opts.checkInterval = 0 then 5 * 10 ^ 9 else opts.checkInterval
  { opts with
    checkInterval := checkInterval
    suspectAfter := if opts.suspectAfter = 0 then times 2 checkInterval else opts.suspectAfter
    downAfter := if opts.downAfter = 0 then times 3 checkInterval else opts.downAfter }

def newNodeManager (ring : Ring) (opts : NodeManagerOptions) : NodeManager :=
  { ring := ring, nodes := ∅, opts := opts.withDefaults }

abbrev Snapshot := GoMap String NodeInfo

namespace NodeManager

def notifyLocked (nm : NodeManager) : Option Snapshot :=
  if nm.opts.onChange then some nm.nodes else none

section Methods

variable (hashKey : String → Hash) (sortSlice : SliceSort VirtualNode.hash)

def register (nm : NodeManager) (now : ℤ) (nodeID : String) : NodeManager × Option Snapshot :=
  let nm := { nm with
    ring := nm.ring.addNodeLocked hashKey sortSlice nodeID
    nodes := nm.nodes.insert nodeID
      { id := nodeID, state := .healthy, joinedAt := now, lastSeen := now, shardLoad := 0 } }
  (nm, nm.notifyLocked)

def join (nm : NodeManager) (now : ℤ) (nodeID : String) : NodeManager × Option Snapshot :=
  match nm.nodes.lookup nodeID with
  | some info =>
    ({ nm with nodes := nm.nodes.insert nodeID { info with state := .healthy, lastSeen := now } },
      none)
  | none => nm.register hashKey sortSlice now nodeID

def leave (nm : NodeManager) (nodeID : String) : NodeManager × Option Snapshot :=
  let nm := { nm with
    nodes := nm.nodes.erase nodeID
    ring := nm.ring.removeNodeLocked nodeID }
  (nm, nm.notifyLocked)

def heartbeat (nm : NodeManager) (now : ℤ) (nodeID : String) : NodeManager × Option Snapshot :=
  match nm.nodes.lookup nodeID with
  | some info =>
    let info := { info with lastSeen := now }
    let info := if info.state ≠ .healthy then { info with state := .healthy } else info
    ({ nm with nodes := nm.nodes.insert nodeID info }, none)
  | none => nm.register hashKey sortSlice now nodeID

end Methods

def checkNode (now : ℤ) (acc : NodeManager × Bool) (id : String) : NodeManager × Bool :=
  let nm := acc.1
  match nm.nodes.lookup id with
  | none => acc
  | some info =>
    let elapsed := sub now info.lastSeen
    match info.state with
    | .healthy =>
      if elapsed ≥ nm.opts.suspectAfter then
        ({ nm with nodes := nm.nodes.insert id { info with state := .suspect } }, acc.2)
      else acc
    | .suspect =>
      if elapsed ≥ nm.opts.downAfter then
        ({ nm with ring := nm.ring.removeNodeLocked id, nodes := nm.nodes.erase id }, true)
      else acc
    | .down => acc

def checkHealth (nm : NodeManager) (now : ℤ) (order : RangeOrder String) :
    NodeManager × Option Snapshot :=
  let acc := (order.keys nm.nodes.keys).foldl (checkNode now) (nm, false)
  (acc.1, if acc.2 then acc.1.notifyLocked else none)

end NodeManager

end Symkernel.Sharding
