import Symkernel.Library.Slice

/-!
# The in-process result cache

`internal/cache`: a map of entries, an access order simulated with an ordered slice, and an
index from tags to keys. Every method runs under the cache's mutex; the clock readings it
takes and the order in which Go visits a map are its inputs. `none` stands for a panic.
-/

namespace Symkernel.ResultCache

open Library

structure CacheKey where
  exprHash : String
  contextHash : String
  deriving DecidableEq, Repr

structure CacheEntry (V : Type) where
  value : V
  tags : List String
  expiresAt : Int
  lastAccess : Int
  deriving DecidableEq

def defaultCapacity : Nat := 10000

def defaultTTL : Int := 5 * 60 * 1000000000

structure Cache (V : Type) where
  entries : Finmap (fun _ : CacheKey => CacheEntry V)
  accessOrder : List CacheKey
  tagIndex : Finmap (fun _ : String => Finset CacheKey)
  capacity : Nat
  ttl : Int
  hits : Nat
  misses : Nat
  evicts : Nat

variable {V : Type}

inductive CacheOption where
  | withCapacity (n : Int)
  | withTTL (d : Int)

def CacheOption.configure (c : Cache V) : CacheOption → Cache V
  | .withCapacity n => if 0 < n then { c with capacity := n.toNat } else c
  | .withTTL d => if 0 < d then { c with ttl := d } else c

def newCache (opts : List CacheOption) : Cache V :=
  opts.foldl CacheOption.configure
    { entries := ∅, accessOrder := [], tagIndex := ∅, capacity := defaultCapacity
      ttl := defaultTTL, hits := 0, misses := 0, evicts := 0 }

lemma newCache_empty (opts : List CacheOption) :
    (newCache opts : Cache V).entries = ∅ ∧ (newCache opts : Cache V).tagIndex = ∅ := by
  have hkeep : ∀ (opts : List CacheOption) (c : Cache V),
      (opts.foldl CacheOption.configure c).entries = c.entries ∧
        (opts.foldl CacheOption.configure c).tagIndex = c.tagIndex := by
    intro opts
    induction opts with
    | nil => exact fun c => ⟨rfl, rfl⟩
    | cons opt opts ih =>
      intro c
      have hopt : (opt.configure c).entries = c.entries ∧
          (opt.configure c).tagIndex = c.tagIndex := by
        cases opt <;> rw [CacheOption.configure] <;> split <;> exact ⟨rfl, rfl⟩
      obtain ⟨hentries, hindex⟩ := ih (opt.configure c)
      exact ⟨hentries.trans hopt.1, hindex.trans hopt.2⟩
  exact hkeep opts _

namespace Cache

def size (c : Cache V) : Nat := c.entries.keys.card

/-- Removing `key` from the set of one tag; a tag without keys leaves the index. -/
def untag (key : CacheKey) (index : Finmap (fun _ : String => Finset CacheKey)) (tag : String) :
    Finmap (fun _ : String => Finset CacheKey) :=
  let keys := ((index.lookup tag).getD ∅).erase key
  if keys = ∅ then index.erase tag else index.insert tag keys

def addTag (key : CacheKey) (index : Finmap (fun _ : String => Finset CacheKey)) (tag : String) :
    Finmap (fun _ : String => Finset CacheKey) :=
  index.insert tag (insert key ((index.lookup tag).getD ∅))

def promoteLocked (c : Cache V) (key : CacheKey) : Cache V :=
  { c with accessOrder := c.accessOrder.erase key ++ [key] }

def removeEntryLocked (c : Cache V) (key : CacheKey) : Cache V :=
  match c.entries.lookup key with
  | none => c
  | some entry =>
    { c with
      tagIndex := entry.tags.foldl (untag key) c.tagIndex
      entries := c.entries.erase key
      accessOrder := c.accessOrder.erase key }

def countEvict (c : Cache V) : Cache V :=
  { c with evicts := c.evicts + 1 }

/-- The first loop of `evictLocked`, with `steps` places left to read from place `j` on. The
loop ranges over the header `accessOrder` had at its start, so it reads the backing array
`buf`, which `removeEntryLocked` shifts under it. -/
def evictPass (now : Int) : Nat → Nat → Cache V → List CacheKey → List CacheKey →
    Option (Cache V × List CacheKey)
  | 0, _, c, _, fresh => some (c, fresh)
  | steps + 1, j, c, buf, fresh =>
    match buf[j]? with
    | none => none
    | some key =>
      match c.entries.lookup key with
      | none => none
      | some entry =>
        if entry.expiresAt < now then
          let c' := c.removeEntryLocked key
          evictPass now steps (j + 1) c'.countEvict (writeBack c'.accessOrder buf) fresh
        else evictPass now steps (j + 1) c buf (fresh ++ [key])

def evictExpired (c : Cache V) (now : Int) : Option (Cache V) := do
  let (c, fresh) ← evictPass now c.accessOrder.length 0 c c.accessOrder []
  return { c with accessOrder := fresh }

/-- The second loop of `evictLocked`. Every round shortens `accessOrder`, so its length is
enough fuel. Slicing `[1:]` off an empty slice panics. -/
def evictOldest : Nat → Cache V → Option (Cache V)
  | 0, c => some c
  | fuel + 1, c =>
    if c.capacity < c.size then
      match c.accessOrder with
      | [] => some c
      | key :: _ =>
        let c := c.removeEntryLocked key
        match c.accessOrder with
        | [] => none
        | _ :: rest => evictOldest fuel { c with accessOrder := rest }.countEvict
    else some c

def evictLocked (c : Cache V) (now : Int) : Option (Cache V) := do
  let c ← c.evictExpired now
  evictOldest c.accessOrder.length c

/-- `GetByKey`: `check` is the clock reading of the expiry test, `access` the one stored. -/
def getByKey (c : Cache V) (key : CacheKey) (check access : Int) : Cache V × Option V :=
  match c.entries.lookup key with
  | none => ({ c with misses := c.misses + 1 }, none)
  | some entry =>
    if entry.expiresAt < check then
      let c := c.removeEntryLocked key
      ({ c with misses := c.misses + 1 }, none)
    else
      let c := { c with entries := c.entries.insert key { entry with lastAccess := access } }
      let c := c.promoteLocked key
      ({ c with hits := c.hits + 1 }, some entry.value)

def effectiveTTL (c : Cache V) (ttlOverride : List Int) : Int :=
  match ttlOverride with
  | [] => c.ttl
  | d :: _ => if 0 < d then d else c.ttl

def insertEntry (c : Cache V) (key : CacheKey) (value : V) (tags : List String)
    (ttlOverride : List Int) (created access : Int) : Cache V :=
  let ttl := c.effectiveTTL ttlOverride
  let c := c.removeEntryLocked key
  { c with
    entries := c.entries.insert key
      { value, tags, expiresAt := created + ttl, lastAccess := access }
    accessOrder := c.accessOrder ++ [key]
    tagIndex := tags.foldl (addTag key) c.tagIndex }

def set (c : Cache V) (key : CacheKey) (value : V) (tags : List String) (ttlOverride : List Int)
    (created access evict : Int) : Option (Cache V) :=
  (c.insertEntry key value tags ttlOverride created access).evictLocked evict

/-- `order` is the order in which Go visits the keys of the tag. -/
def invalidateByTag (c : Cache V) (tag : String) (order : List CacheKey) : Cache V × Nat :=
  match c.tagIndex.lookup tag with
  | none => (c, 0)
  | some _ => (order.foldl removeEntryLocked c, order.length)

def invalidateAll (c : Cache V) : Cache V × Nat :=
  ({ c with entries := ∅, accessOrder := [], tagIndex := ∅ }, c.size)

end Cache

inductive Call (V Ctx : Type) where
  | set (key : CacheKey) (value : V) (tags : List String) (ttlOverride : List Int)
      (created access evict : Int)
  | get (expr : String) (ctx : Ctx) (check access : Int)
  | getByKey (key : CacheKey) (check access : Int)
  | invalidateByTag (tag : String) (order : List CacheKey)
  | invalidateAll

def Call.isSet {V Ctx : Type} : Call V Ctx → Bool
  | .set .. => true
  | _ => false

section Calls

variable {Ctx : Type} (hashExpr : String → String) (hashContext : Ctx → Option String)

/-- The state after a call, `none` once a call has panicked. A context that cannot be
serialised makes `Get` return before it touches the cache. -/
def apply (c : Cache V) : Call V Ctx → Option (Cache V)
  | .set key value tags ttlOverride created access evict =>
    c.set key value tags ttlOverride created access evict
  | .get expr ctx check access =>
    match hashContext ctx with
    | none => some c
    | some contextHash => some (c.getByKey ⟨hashExpr expr, contextHash⟩ check access).1
  | .getByKey key check access => some (c.getByKey key check access).1
  | .invalidateByTag tag order => some (c.invalidateByTag tag order).1
  | .invalidateAll => some c.invalidateAll.1

def step (c : Option (Cache V)) (call : Call V Ctx) : Option (Cache V) :=
  c.bind (fun c => apply hashExpr hashContext c call)

variable {hashExpr hashContext}

/-- What every operation on the cache keeps is kept by a call. -/
lemma apply_keeps {P : Cache V → Prop} {c c' : Cache V} {call : Call V Ctx} (h : P c)
    (hset : ∀ key value tags ttlOverride created access evict,
      c.set key value tags ttlOverride created access evict = some c' → P c')
    (hget : ∀ key check access, P (c.getByKey key check access).1)
    (htag : ∀ tag order, P (c.invalidateByTag tag order).1) (hall : P c.invalidateAll.1)
    (happly : apply hashExpr hashContext c call = some c') : P c' := by
  cases call with
  | set => exact hset _ _ _ _ _ _ _ happly
  | get expr ctx check access =>
    rw [apply] at happly
    split at happly
    · cases happly
      exact h
    · cases happly
      exact hget _ check access
  | getByKey key check access =>
    cases happly
    exact hget key check access
  | invalidateByTag tag order =>
    cases happly
    exact htag tag order
  | invalidateAll =>
    cases happly
    exact hall

end Calls

end Symkernel.ResultCache
