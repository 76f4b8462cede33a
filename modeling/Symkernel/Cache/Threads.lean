import Symkernel.Cache.Distributed
import Symkernel.Library.Runs

/-!
# Calls on the distributed cache that run at the same time

Cache instances share a backend, and each has a mutex `tagMu` for its own calls. The atomic steps
of a call are its operations on the backend and the acquisition and release of the mutex: a call
is a thread that advances one of them at a time, and a schedule decides whose turn it is. An
instance is known by its number.
-/

namespace Symkernel.DistributedCache

open Library Function

structure WarmEntry (V Ctx : Type) where
  expr : GoString
  context : Ctx
  value : V
  tags : List GoString

/-- What the cache takes from elsewhere: `json.Marshal` and the hashes of `internal/cache`. -/
structure Host (V Ctx : Type) where
  marshal : V → Option Json
  hashExpr : GoString → GoString
  hashContext : Ctx → Option GoString

inductive Call (V Ctx : Type) where
  | setByKey (exprHash ctxHash : GoString) (value : V) (tags : List GoString)
      (ttlOverride : List Int)
  | delete (exprHash ctxHash : GoString)
  | invalidateByTag (tag : GoString)
  | warm (entries : List (WarmEntry V Ctx))

inductive Result where
  | set (r : Except CacheError Unit)
  | deleted
  | invalidated (r : Except CacheError Nat)
  | warmed (n : Nat) (err : Option CacheError)

/-- Where a `SetByKey` returns to: to its caller, or to a `Warm` that has written `n` entries and
has `entries` left. -/
inductive Return (V Ctx : Type) where
  | caller
  | warm (n : Nat) (entries : List (WarmEntry V Ctx))

/-- What a call has read and still has to do. The number `w` of a `SetByKey` is that of its write
of the data. -/
inductive Thread (V Ctx : Type) where
  /-- `SetByKey`, before it writes the data. -/
  | set (key : GoString) (doc : Json) (ttl : Int) (tags : List GoString) (ret : Return V Ctx)
  /-- The loop over the tags that are left. -/
  | register (w : Nat) (key : GoString) (tags : List GoString) (ret : Return V Ctx)
  /-- `addTagKey`, with `tagMu` held. -/
  | holding (w : Nat) (key tag : GoString) (tags : List GoString) (ret : Return V Ctx)
  /-- `addTagKey`, with the members it has read. -/
  | indexing (w : Nat) (key tag : GoString) (tags : List GoString) (ret : Return V Ctx)
      (members : List GoString)
  | releasing (w : Nat) (key : GoString) (tags : List GoString) (ret : Return V Ctx)
  | delete (key : GoString)
  | invalidate (tag : GoString)
  /-- `InvalidateByTag`, with `tagMu` held. -/
  | invalidating (tag : GoString)
  /-- `InvalidateByTag`, with the members it has read. -/
  | removing (tag : GoString) (keys : List GoString)
  | leaving (r : Except CacheError Nat)
  | warm (n : Nat) (entries : List (WarmEntry V Ctx))
  | returned (r : Result)

structure Write where
  key : GoString
  tags : List GoString

/-- What the threads share. The last three fields are history variables, which no step reads
but to number the writes: the writes of data in their order, the write that a key has its value
from, and the writes whose `SetByKey` has returned. -/
structure Shared where
  backend : Store
  held : Nat → Bool
  writes : List Write
  latest : GoString → Option Nat
  completed : List Nat

structure Machine (V Ctx : Type) where
  shared : Shared
  threads : List (Nat × Thread V Ctx)

variable {V Ctx : Type} (cfg : Nat → Config) (host : Host V Ctx)

def beginSet (c : Config) (exprHash ctxHash : GoString) (value : V) (tags : List GoString)
    (ttlOverride : List Int) (ret : Return V Ctx) : Thread V Ctx :=
  match host.marshal value with
  | some doc => .set (c.dataKey exprHash ctxHash) doc (c.effectiveTTL ttlOverride) tags ret
  | none =>
    match ret with
    | .caller => .returned (.set (.error .encodeValue))
    | .warm n _ => .returned (.warmed n (some .encodeValue))

def begin (c : Config) : Call V Ctx → Thread V Ctx
  | .setByKey exprHash ctxHash value tags ttlOverride =>
    beginSet host c exprHash ctxHash value tags ttlOverride .caller
  | .delete exprHash ctxHash => .delete (c.dataKey exprHash ctxHash)
  | .invalidateByTag tag => .invalidate tag
  | .warm entries => .warm 0 entries

def Return.next : Return V Ctx → Thread V Ctx
  | .caller => .returned (.set (.ok ()))
  | .warm n entries => .warm (n + 1) entries

def TagRead.next (tag : GoString) : TagRead → Thread V Ctx
  | .result r => .leaving r
  | .members keys => .removing tag keys

/-- One step of a thread on an instance with configuration `c` and number `i`. A thread that
finds `tagMu` held waits. -/
def advance (c : Config) (i : Nat) (now : Int) (s : Shared) : Thread V Ctx → Shared × Thread V Ctx
  | .set key doc ttl tags ret =>
    ({ s with
       backend := s.backend.set now key doc ttl
       writes := s.writes ++ [⟨key, tags⟩]
       latest := Function.update s.latest key (some s.writes.length) },
      .register s.writes.length key tags ret)
  | .register w _ [] ret => ({ s with completed := s.completed ++ [w] }, ret.next)
  | .register w key (tag :: tags) ret =>
    if s.held i then (s, .register w key (tag :: tags) ret)
    else ({ s with held := Function.update s.held i true }, .holding w key tag tags ret)
  | .holding w key tag tags ret =>
    let r := s.backend.get now (c.tagKey tag)
    ({ s with backend := r.1 }, .indexing w key tag tags ret (indexMembers r.2))
  | .indexing w key tag tags ret members =>
    ({ s with
       backend := indexKey c s.backend tag key members
       latest := if key ∈ members then s.latest
         else Function.update s.latest (c.tagKey tag) none },
      .releasing w key tags ret)
  | .releasing w key tags ret =>
    ({ s with held := Function.update s.held i false }, .register w key tags ret)
  | .delete key => ({ s with backend := (s.backend.del [key]).1 }, .returned .deleted)
  | .invalidate tag =>
    if s.held i then (s, .invalidate tag)
    else ({ s with held := Function.update s.held i true }, .invalidating tag)
  | .invalidating tag =>
    let r := s.backend.get now (c.tagKey tag)
    ({ s with backend := r.1 }, (readTag r.2).next tag)
  | .removing tag keys =>
    ({ s with backend := (s.backend.del (keys ++ [c.tagKey tag])).1 }, .leaving (.ok keys.length))
  | .leaving r =>
    ({ s with held := Function.update s.held i false }, .returned (.invalidated r))
  | .warm n [] => (s, .returned (.warmed n none))
  | .warm n (e :: entries) =>
    match host.hashContext e.context with
    | none => (s, .returned (.warmed n (some .hashContext)))
    | some ctxHash =>
      (s, beginSet host c (host.hashExpr e.expr) ctxHash e.value e.tags [] (.warm n entries))
  | .returned r => (s, .returned r)

/-- A schedule starts calls on instances and lets one thread at a time advance, with the clock
reading that its step may take. -/
inductive Sched (V Ctx : Type) where
  | start (i : Nat) (call : Call V Ctx)
  | advance (j : Nat) (now : Int)

namespace Machine

def initial : Machine V Ctx where
  shared :=
    { backend := newMemoryBackend, held := fun _ => false, writes := [], latest := fun _ => none
      completed := [] }
  threads := []

def step (m : Machine V Ctx) : Sched V Ctx → Machine V Ctx
  | .start i call => { m with threads := m.threads ++ [(i, begin host (cfg i) call)] }
  | .advance j now =>
    match m.threads[j]? with
    | none => m
    | some (i, thread) =>
      let r := DistributedCache.advance host (cfg i) i now m.shared thread
      { shared := r.1, threads := m.threads.set j (i, r.2) }

def after (schedule : List (Sched V Ctx)) : Machine V Ctx :=
  runFrom (step cfg host) initial schedule

variable {cfg host} {m : Machine V Ctx} {j : Nat}

lemma step_advance_none (h : m.threads[j]? = none) (now : Int) :
    m.step cfg host (.advance j now) = m := by
  simp only [step, h]

lemma step_advance_some {x : Nat × Thread V Ctx} (h : m.threads[j]? = some x) (now : Int) :
    m.step cfg host (.advance j now) =
      let r := DistributedCache.advance host (cfg x.1) x.1 now m.shared x.2
      { shared := r.1, threads := m.threads.set j (x.1, r.2) } := by
  simp only [step, h]

end Machine

section Alone

variable (c : Config) (i : Nat) (clock : Nat → Int) {s : Shared}

/-- A thread that takes its steps at the given times with no other thread in between. -/
def alone (x : Shared × Thread V Ctx) (times : List Int) : Shared × Thread V Ctx :=
  runFrom (fun x now => advance host c i now x.1 x.2) x times

/-- The loop over the tags takes four steps a tag, those of the `k`th at `clock k`. -/
def registerTimes : Nat → List GoString → List Int
  | k, [] => [clock k]
  | k, _ :: tags => List.replicate 4 (clock k) ++ registerTimes (k + 1) tags

variable {host c i}

lemma alone_tag (hfree : s.held i = false) (w : Nat) (key tag : GoString) (tags : List GoString)
    (ret : Return V Ctx) (now : Int) :
    ∃ s', alone host c i (s, .register w key (tag :: tags) ret) (List.replicate 4 now) =
        (s', .register w key tags ret) ∧
      s'.held i = false ∧ s'.backend = addTagKey c s.backend now tag key := by
  have hacquire : advance host c i now s (.register w key (tag :: tags) ret) =
      ({ s with held := update s.held i true }, .holding w key tag tags ret) := by
    rw [advance, if_neg (by simp [hfree])]
  have hrun : alone host c i (s, .register w key (tag :: tags) ret) (List.replicate 4 now) =
      alone host c i ({ s with held := update s.held i true },
        .holding w key tag tags ret) (List.replicate 3 now) :=
    congrArg (fun x => alone host c i x (List.replicate 3 now)) hacquire
  rw [hrun]
  exact ⟨_, rfl, update_self .., rfl⟩

lemma alone_register (hfree : s.held i = false) (w : Nat) (key : GoString) (tags : List GoString)
    (ret : Return V Ctx) (k : Nat) :
    ∃ s', alone host c i (s, .register w key tags ret) (registerTimes clock k tags) =
        (s', ret.next) ∧ s'.backend = addTagKeys c clock key k tags s.backend := by
  induction tags generalizing s k with
  | nil => exact ⟨_, rfl, rfl⟩
  | cons tag tags ih =>
    obtain ⟨s₁, hfirst, hfree₁, hbackend⟩ := alone_tag hfree w key tag tags ret (clock k)
    obtain ⟨s', hrest, hbackend'⟩ := ih hfree₁ (k + 1)
    refine ⟨s', ?_, ?_⟩
    · exact (congrArg (fun x => alone host c i x _) hfirst).trans hrest
    · rw [hbackend', hbackend]
      rfl

/-- With the mutex free, `SetByKey` alone does what the sequential call does. -/
theorem alone_setByKey (hfree : s.held i = false) (exprHash ctxHash : GoString) {value : V}
    {doc : Json} (hdoc : host.marshal value = some doc) (tags : List GoString)
    (ttlOverride : List Int) :
    ∃ s', alone host c i (s, begin host c (.setByKey exprHash ctxHash value tags ttlOverride))
        (clock 0 :: registerTimes clock 1 tags) = (s', .returned (.set (.ok ()))) ∧
      s'.backend = (setByKey c s.backend clock exprHash ctxHash (some doc) tags ttlOverride).1 := by
  have hbegin : begin host c (.setByKey exprHash ctxHash value tags ttlOverride) =
      .set (c.dataKey exprHash ctxHash) doc (c.effectiveTTL ttlOverride) tags .caller := by
    simp only [begin, beginSet, hdoc]
  have hwritten : (advance host c i (clock 0) s (.set (c.dataKey exprHash ctxHash) doc
      (c.effectiveTTL ttlOverride) tags .caller)).1.held i = false := hfree
  rw [hbegin]
  exact alone_register clock hwritten s.writes.length (c.dataKey exprHash ctxHash) tags .caller 1

theorem tagged_set_alone :
    let host : Host Unit Unit := ⟨fun _ => some .null, id, fun _ => none⟩
    ∃ s', alone host (newConfig []) 0 (⟨⟨∅⟩, fun _ => false, [], fun _ => none, []⟩,
        begin host (newConfig []) (.setByKey [] [] () [[0x74]] []))
        (0 :: registerTimes 0 1 [[0x74]]) = (s', .returned (.set (.ok ()))) ∧
      s'.backend = (setByKey (newConfig []) ⟨∅⟩ 0 [] [] (some .null) [[0x74]] []).1 :=
  alone_setByKey 0 rfl [] [] rfl [[0x74]] []

/-- With the mutex free, `InvalidateByTag` alone does what the sequential call does, in three or
four steps. -/
theorem alone_invalidateByTag (hfree : s.held i = false) (now : Int) (tag : GoString) :
    ∃ s' n, alone host c i (s, begin host c (.invalidateByTag tag)) (List.replicate n now) =
        (s', .returned (.invalidated (invalidateByTag c s.backend now tag).2)) ∧
      s'.backend = (invalidateByTag c s.backend now tag).1 := by
  have hacquire : advance host c i now s (.invalidate tag) =
      ({ s with held := update s.held i true }, .invalidating tag) := by
    rw [advance, if_neg (by simp [hfree])]
  have hrun : ∀ n, alone host c i (s, .invalidate tag) (List.replicate (n + 2) now) =
      alone host c i ({ s with
          held := update s.held i true
          backend := (s.backend.get now (c.tagKey tag)).1 },
        (readTag (s.backend.get now (c.tagKey tag)).2).next tag) (List.replicate n now) :=
    fun n => congrArg (fun x => alone host c i x (List.replicate (n + 1) now)) hacquire
  rw [invalidateByTag]
  cases hread : readTag (s.backend.get now (c.tagKey tag)).2 with
  | result r =>
    rw [hread] at hrun
    exact ⟨_, 3, hrun 1, rfl⟩
  | members keys =>
    rw [hread] at hrun
    exact ⟨_, 4, hrun 2, rfl⟩

end Alone

end Symkernel.DistributedCache
