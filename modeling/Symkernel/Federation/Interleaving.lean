import Symkernel.Federation.Rollback

/-!
# Calls that run at the same time

`Put` reads its store, then writes it; `Reconcile` lists both stores of a pass and then writes
policy by policy. Only the single operations on a store are atomic, so a call is a thread that
advances one operation at a time, and a schedule decides whose turn it is. A thread that runs
alone does what the sequential call does.
-/

namespace Symkernel.Federation

open Symkernel.Library

inductive Thread where
  | put (region : String) (now : ℤ) (id : String) (body : List UInt8)
  | putRead (region : String) (now : ℤ) (id : String) (body : List UInt8) (cur : Option Policy)
  /-- `Put`, after its write, with the targets of the synchronous push that are left. -/
  | pushing (region : String) (p : Policy) (targets : List String)
  | returned (region : String) (p : Policy)
  | failed (err : ReplicationError)
  | reconcile (region : String) (order : PassOrder) (targets : List String)
  | listed (region : String) (order : PassOrder) (target : String) (targets : List String)
      (loc : List Policy)
  /-- The first loop of a pass, with the listed policies and the peer's policies that are left. -/
  | comparing (region : String) (order : PassOrder) (target : String) (targets : List String)
      (loc : List Policy) (remoteByID : GoMap String Policy)
  | pulling (region : String) (order : PassOrder) (target : String) (targets : List String)
      (ids : List String) (remoteByID : GoMap String Policy)
  | done

section Threads

variable (cfg : String → Config)

def begin (f : Fleet) : Call → Fleet × Thread
  | .put region now id body => (f, .put region now id body)
  | .reconcile region order =>
    (f.count region fun c => { c with scans := c.scans + 1 },
      .reconcile region order ((cfg region).targets region))

def advance (f : Fleet) : Thread → Fleet × Thread
  | .put region now id body =>
    if id = "" then (f, .failed .emptyPolicyID)
    else (f, .putRead region now id body ((f.stores region).get id))
  | .putRead region now id body cur =>
    let p := authorRevision region now id body cur
    let f := f.setStore region ((f.stores region).put p)
    (f.count region fun c => { c with authored := c.authored + 1 },
      .pushing region p (match (cfg region).mode with
        | .async => []
        | .sync => (cfg region).targets region))
  | .pushing region p [] => (f, .returned region p)
  | .pushing region p (target :: targets) =>
    ((pushTo region p (f, []) target).1, .pushing region p targets)
  | .reconcile _ _ [] => (f, .done)
  | .reconcile region order (target :: targets) =>
    (f, .listed region order target targets ((f.stores region).list order.listed))
  | .listed region order target targets loc =>
    match f.listPolicies order.listed target with
    | .error _ =>
      (f.count region fun c => { c with errors := c.errors + 1 }, .reconcile region order targets)
    | .ok remote =>
      (f, .comparing region order target targets loc
        (remote.foldl (fun m p => Finmap.insert p.id p m) ∅))
  | .comparing region order target targets [] remoteByID =>
    (f, .pulling region order target targets ((order.ranged target).keys remoteByID.keys) remoteByID)
  | .comparing region order target targets (lp :: loc) remoteByID =>
    ((reconcilePolicy region target (some lp) (remoteByID.lookup lp.id) f).1,
      .comparing region order target targets loc (remoteByID.erase lp.id))
  | .pulling region order _ targets [] _ => (f, .reconcile region order targets)
  | .pulling region order target targets (id :: ids) remoteByID =>
    ((reconcilePolicy region target none (remoteByID.lookup id) f).1,
      .pulling region order target targets ids remoteByID)
  | .returned region p => (f, .returned region p)
  | .failed err => (f, .failed err)
  | .done => (f, .done)

structure Machine where
  fleet : Fleet
  threads : List Thread

inductive Sched where
  | start (call : Call)
  | advance (i : ℕ)

def Machine.step (m : Machine) : Sched → Machine
  | .start call =>
    let result := begin cfg m.fleet call
    { fleet := result.1, threads := m.threads ++ [result.2] }
  | .advance i =>
    match m.threads[i]? with
    | none => m
    | some thread =>
      let result := advance cfg m.fleet thread
      { fleet := result.1, threads := m.threads.set i result.2 }

def Thread.Finished : Thread → Prop
  | .returned _ _ | .failed _ | .done => True
  | _ => False

inductive Alone : Fleet × Thread → Fleet × Thread → Prop where
  | refl (s : Fleet × Thread) : Alone s s
  | head {f : Fleet} {thread : Thread} {s : Fleet × Thread} :
      Alone (advance cfg f thread) s → Alone (f, thread) s

variable {cfg}

lemma Alone.trans {s t u : Fleet × Thread} (h : Alone cfg s t) (h' : Alone cfg t u) :
    Alone cfg s u := by
  induction h with
  | refl => exact h'
  | head _ ih => exact .head (ih h')

lemma alone_pushing (region : String) (p : Policy) (targets : List String)
    (acc : Fleet × List ReplicationError) : Alone cfg (acc.1, .pushing region p targets)
      ((targets.foldl (pushTo region p) acc).1, .returned region p) := by
  induction targets generalizing acc with
  | nil => exact .head (.refl _)
  | cons target targets ih =>
    refine .head ?_
    have hfleet : (pushTo region p (acc.1, []) target).1 = (pushTo region p acc target).1 := by
      rw [pushTo, pushTo]
      cases acc.1.putPolicy target p <;> rfl
    rw [advance, hfleet]
    exact ih (pushTo region p acc target)

lemma alone_comparing (region : String) (order : PassOrder) (target : String)
    (targets : List String) (loc : List Policy) (pass : Pass) :
    Alone cfg (pass.fleet, .comparing region order target targets loc pass.remoteByID)
      ((loc.foldl (reconcileListed region target) pass).fleet,
        .comparing region order target targets []
          (loc.foldl (reconcileListed region target) pass).remoteByID) := by
  induction loc generalizing pass with
  | nil => exact .refl _
  | cons lp loc ih => exact .head (ih (reconcileListed region target pass lp))

lemma alone_pulling (region : String) (order : PassOrder) (target : String)
    (targets ids : List String) (pass : Pass) :
    Alone cfg (pass.fleet, .pulling region order target targets ids pass.remoteByID)
      ((ids.foldl (reconcileRemote region target) pass).fleet,
        .reconcile region order targets) := by
  induction ids generalizing pass with
  | nil => exact .head (.refl _)
  | cons id ids ih => exact .head (ih (reconcileRemote region target pass id))

lemma alone_region (region : String) (order : PassOrder) (target : String)
    (targets : List String) (f : Fleet) : Alone cfg (f, .reconcile region order (target :: targets))
      ((reconcileRegion region order target f).1, .reconcile region order targets) := by
  refine .head (.head ?_)
  by_cases hm : target ∈ f.mounted
  · rw [advance, listPolicies_of_mounted hm, reconcileRegion_of_mounted hm]
    refine (alone_comparing region order target targets _
      ⟨f, ((f.stores target).list order.listed).foldl (fun m p => Finmap.insert p.id p m) ∅, []⟩).trans ?_
    exact .head (alone_pulling region order target targets _ (listedPass region order target f))
  · rw [advance, listPolicies_of_not_mounted hm, reconcileRegion_of_not_mounted hm]
    exact .refl _

lemma alone_overTargets (region : String) (order : PassOrder) (targets : List String) (f : Fleet) :
    Alone cfg (f, .reconcile region order targets) (overTargets region order targets f, .done) := by
  induction targets generalizing f with
  | nil => exact .head (.refl _)
  | cons target targets ih =>
    exact (alone_region region order target targets f).trans
      (ih (reconcileRegion region order target f).1)

/-- A call that runs alone has the effect of the sequential call. -/
theorem alone_call (f : Fleet) (call : Call) :
    ∃ thread, thread.Finished ∧ Alone cfg (begin cfg f call) (step cfg f call, thread) := by
  cases call with
  | put region now id body =>
    rw [begin, step, put]
    by_cases hid : id = ""
    · refine ⟨.failed .emptyPolicyID, trivial, .head ?_⟩
      rw [advance, if_pos hid, if_pos hid]
      exact .refl _
    · refine ⟨.returned region (authorRevision region now id body ((f.stores region).get id)),
        trivial, .head ?_⟩
      rw [advance, if_neg hid, if_neg hid]
      refine .head ?_
      rw [advance]
      cases hmode : (cfg region).mode with
      | async => exact .head (.refl _)
      | sync => exact alone_pushing region _ _ (_, [])
  | reconcile region order =>
    refine ⟨.done, trivial, ?_⟩
    rw [begin, step, reconcile_fleet]
    exact alone_overTargets region order _ _

end Threads

end Symkernel.Federation
