import Symkernel.Federation.Store
import Symkernel.Library.GoText
import Symkernel.Library.SortedList

/-!
# Replication between regions

The federations of a fleet share one `LocalTransport`, and the store of a region is the one
mounted under the region's name, if any is. `reconcile` is the anti-entropy pass of one region
over its targets, `put` authors a revision. What a call leaves open (the clock, the order of
loops over maps) is an argument.
-/

namespace Symkernel.Federation

open Symkernel.Library

inductive ReplicationError where
  | regionNotFound
  | emptyPolicyID
  | listRemote (cause : ReplicationError)
  | push (id : String) (cause : ReplicationError)
  | region (name : String) (cause : ReplicationError)
  | partialPush (cause : ReplicationError)
  | joined (errs : List ReplicationError)
  deriving Repr

def ReplicationError.message (isPrint : Char → Bool) : ReplicationError → String
  | .regionNotFound => "federation: region not found"
  | .emptyPolicyID => "federation: empty policy id"
  | .listRemote cause => "list remote: " ++ cause.message isPrint
  | .push id cause => "push " ++ goQuote isPrint id ++ ": " ++ cause.message isPrint
  | .region name cause => "region " ++ goQuote isPrint name ++ ": " ++ cause.message isPrint
  | .partialPush cause =>
    "federation: replicated locally, partial push: " ++ cause.message isPrint
  | .joined errs => "\n".intercalate (errs.map fun err => err.message isPrint)

def joinErrors : List ReplicationError → Option ReplicationError
  | [] => none
  | errs => some (.joined errs)

structure Region where
  id : String
  priority : ℤ
  latency : ℤ
  healthy : Bool
  deriving DecidableEq, Repr

abbrev RegionRegistry := GoMap String Region

/-- The routing key: regions with a known latency first, then by latency, priority and id. -/
def rankKey (reg : Region) : Bool ×ₗ ℤ ×ₗ ℤ ×ₗ String :=
  toLex (!decide (reg.latency > 0), toLex (reg.latency, toLex (reg.priority, reg.id)))

def rankRegions (regions : List Region) : List Region :=
  (SliceSort.insertion rankKey).run regions

def RegionRegistry.healthy (registry : RegionRegistry) : List Region :=
  rankRegions ((((RangeOrder.ascending String).keys registry.keys).filterMap
    registry.lookup).filter Region.healthy)

inductive ReplicationMode where
  | async
  | sync
  deriving DecidableEq, Repr

/-- What a federation is configured with; `regions` is the allowlist. -/
structure Config where
  mode : ReplicationMode
  regions : List String
  registry : RegionRegistry

def allowed (self : String) (regions : List String) : List String :=
  (regions.foldl (fun acc id =>
    if id = self ∨ id ∈ acc.2 then acc else (acc.1 ++ [id], insert id acc.2))
    (([], ∅) : List String × Finset String)).1

def Config.targets (cfg : Config) (self : String) : List String :=
  if cfg.regions.length > 0 then allowed self cfg.regions
  else ((RegionRegistry.healthy cfg.registry).filter fun reg => reg.id ≠ self).map Region.id

structure Counters where
  scans : Fin (2 ^ 64) := 0
  pushed : Fin (2 ^ 64) := 0
  pulled : Fin (2 ^ 64) := 0
  skipped : Fin (2 ^ 64) := 0
  errors : Fin (2 ^ 64) := 0
  authored : Fin (2 ^ 64) := 0
  syncPushes : Fin (2 ^ 64) := 0
  deriving DecidableEq, Repr

structure Fleet where
  stores : String → MemoryStore
  mounted : Finset String
  counters : String → Counters

namespace Fleet

def setStore (f : Fleet) (region : String) (s : MemoryStore) : Fleet :=
  { f with stores := Function.update f.stores region s }

def count (f : Fleet) (self : String) (add : Counters → Counters) : Fleet :=
  { f with counters := Function.update f.counters self (add (f.counters self)) }

def storeFor (f : Fleet) (region : String) : Except ReplicationError MemoryStore :=
  if region ∈ f.mounted then .ok (f.stores region) else .error .regionNotFound

def putPolicy (f : Fleet) (region : String) (p : Policy) : Except ReplicationError Fleet := do
  let s ← f.storeFor region
  return f.setStore region (s.put p)

def listPolicies (f : Fleet) (order : RangeOrder String) (region : String) :
    Except ReplicationError (List Policy) := do
  let s ← f.storeFor region
  return s.list order

end Fleet

/-- The orders of the loops in a pass: of the listed policies, which the code sorts by id, and
for each target of the map of remote-only policies. -/
structure PassOrder where
  listed : RangeOrder String
  ranged : String → RangeOrder String

section Replicator

variable (self : String)

/-- The write of a newer remote policy; the store of a region does not fail. -/
def pull (p : Policy) (f : Fleet) : Fleet :=
  (f.setStore self ((f.stores self).put p)).count self fun c => { c with pulled := c.pulled + 1 }

def push (region : String) (p : Policy) (f : Fleet) : Fleet × List ReplicationError :=
  match f.putPolicy region p with
  | .error cause =>
    (f.count self fun c => { c with errors := c.errors + 1 }, [.push p.id cause])
  | .ok f => (f.count self fun c => { c with pushed := c.pushed + 1 }, [])

def reconcilePolicy (region : String) (loc rem : Option Policy) (f : Fleet) :
    Fleet × List ReplicationError :=
  match loc, rem with
  | none, none => (f, [])
  | none, some rp => (pull self rp f, [])
  | some lp, none => push self region lp f
  | some lp, some rp =>
    if compareRevision lp rp = 1 then push self region lp f
    else if compareRevision lp rp = -1 then (pull self rp f, [])
    else (f.count self fun c => { c with skipped := c.skipped + 1 }, [])

structure Pass where
  fleet : Fleet
  remoteByID : GoMap String Policy
  errs : List ReplicationError

def reconcileListed (region : String) (pass : Pass) (lp : Policy) : Pass :=
  let result := reconcilePolicy self region (some lp) (pass.remoteByID.lookup lp.id) pass.fleet
  { fleet := result.1
    remoteByID := pass.remoteByID.erase lp.id
    errs := pass.errs ++ result.2 }

def reconcileRemote (region : String) (pass : Pass) (id : String) : Pass :=
  let result := reconcilePolicy self region none (pass.remoteByID.lookup id) pass.fleet
  { pass with fleet := result.1, errs := pass.errs ++ result.2 }

def reconcileRegion (order : PassOrder) (region : String) (f : Fleet) :
    Fleet × Option ReplicationError :=
  let loc := (f.stores self).list order.listed
  match f.listPolicies order.listed region with
  | .error cause =>
    (f.count self fun c => { c with errors := c.errors + 1 }, some (.listRemote cause))
  | .ok remote =>
    let remoteByID := remote.foldl (fun m p => Finmap.insert p.id p m) (∅ : GoMap String Policy)
    let pass := loc.foldl (reconcileListed self region) ⟨f, remoteByID, []⟩
    let pass := ((order.ranged region).keys pass.remoteByID.keys).foldl
      (reconcileRemote self region) pass
    (pass.fleet, joinErrors pass.errs)

def reconcile (cfg : Config) (order : PassOrder) (f : Fleet) : Fleet × Option ReplicationError :=
  let f := f.count self fun c => { c with scans := c.scans + 1 }
  let result := (cfg.targets self).foldl (fun acc region =>
    let result := reconcileRegion self order region acc.1
    (result.1, acc.2 ++ (result.2.map (ReplicationError.region region)).toList)) (f, [])
  (result.1, joinErrors result.2)

/-- The push to one target of a synchronous write; the list is that of the errors so far. -/
def pushTo (p : Policy) (acc : Fleet × List ReplicationError) (region : String) :
    Fleet × List ReplicationError :=
  match acc.1.putPolicy region p with
  | .error cause => (acc.1, acc.2 ++ [ReplicationError.region region cause])
  | .ok f => (f.count self fun c => { c with syncPushes := c.syncPushes + 1 }, acc.2)

def pushNow (cfg : Config) (p : Policy) (f : Fleet) : Fleet × Option ReplicationError :=
  let result := (cfg.targets self).foldl (pushTo self p) (f, [])
  (result.1, joinErrors result.2)

/-- The revision that `put` writes after it has read `cur`; the version wraps around. -/
def authorRevision (now : ℤ) (id : String) (body : List UInt8) (cur : Option Policy) : Policy where
  id := id
  version := match cur with
    | none => 1
    | some cur => cur.version + 1
  body := body
  originRegion := self
  updatedAt := now

/-- Returns the fleet and the policy and error that the caller receives. -/
def put (cfg : Config) (now : ℤ) (id : String) (body : List UInt8) (f : Fleet) :
    Fleet × Option Policy × Option ReplicationError :=
  if id = "" then (f, none, some .emptyPolicyID)
  else
    let p := authorRevision self now id body ((f.stores self).get id)
    let f := f.setStore self ((f.stores self).put p)
    let f := f.count self fun c => { c with authored := c.authored + 1 }
    match cfg.mode with
    | .async => (f, some p, none)
    | .sync =>
      let result := pushNow self cfg p f
      (result.1, some p, result.2.map ReplicationError.partialPush)

end Replicator

end Symkernel.Federation
