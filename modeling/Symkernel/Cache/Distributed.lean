import Symkernel.Cache.Backend

/-!
# The distributed result cache

`Cache` of `internal/cache/distributed` over a backend: results are stored as JSON under a key
that is built from their hashes, and every tag has a JSON list of the keys that carry it under a
key of its own. What `json.Marshal` makes of a value, and the hashes of an expression and of a
context, are parameters; an operation that fails for want of them is an error. The calls of this
file run one after the other; the telemetry counters are left out.
-/

namespace Symkernel.DistributedCache

open Library

structure Config where
  ttl : Int
  keyPrefix : GoString

def defaultTTL : Int := 5 * 60 * 1000000000

def defaultPrefix : GoString :=
  [0x73, 0x79, 0x6d, 0x6b, 0x65, 0x72, 0x6e, 0x65, 0x6c, 0x3a, 0x76, 0x31, 0x3a]

inductive CacheOption where
  | withTTL (d : Int)
  | withPrefix (p : GoString)

/-- A time-to-live that is not positive and an empty prefix are ignored. -/
def CacheOption.configure (cfg : Config) : CacheOption → Config
  | .withTTL d => if 0 < d then { cfg with ttl := d } else cfg
  | .withPrefix p => if p ≠ [] then { cfg with keyPrefix := p } else cfg

def newConfig (opts : List CacheOption) : Config :=
  opts.foldl CacheOption.configure { ttl := defaultTTL, keyPrefix := defaultPrefix }

inductive CacheError where
  | encodeValue
  | decodeValue
  | decodeTagIndex
  /-- The error of `cache.HashContext`. -/
  | hashContext
  deriving DecidableEq, Repr

def CacheError.context : CacheError → String
  | .encodeValue => "distributed cache: encode value: "
  | .decodeValue => "distributed cache: decode value: "
  | .decodeTagIndex => "distributed cache: decode tag index: "
  | .hashContext => ""

namespace Config

variable (cfg : Config)

def dataKey (exprHash ctxHash : GoString) : GoString :=
  cfg.keyPrefix ++ exprHash ++ [0x3a] ++ ctxHash

def tagKey (tag : GoString) : GoString :=
  cfg.keyPrefix ++ [0x3a, 0x3a, 0x74, 0x61, 0x67, 0x3a, 0x3a] ++ tag

def effectiveTTL (ttlOverride : List Int) : Int :=
  match ttlOverride with
  | [] => cfg.ttl
  | d :: _ => if 0 < d then d else cfg.ttl

end Config

abbrev Store := MemoryBackend Json

inductive Lookup where
  | hit (value : Json)
  | miss
  | failed (err : CacheError)

def lookupResult : Option Json → Lookup
  | none => .miss
  | some doc => if doc.decodes then .hit doc else .failed .decodeValue

def getByKey (cfg : Config) (m : Store) (now : Int) (exprHash ctxHash : GoString) :
    Store × Lookup :=
  let r := m.get now (cfg.dataKey exprHash ctxHash)
  (r.1, lookupResult r.2)

/-- The members that `addTagKey` finds; a list that does not decode counts as far as it does. -/
def indexMembers : Option Json → List GoString
  | none => []
  | some doc => doc.unmarshalStrings.1

/-- `addTagKey` from the list it has read on. -/
def indexKey (cfg : Config) (m : Store) (tag key : GoString) (members : List GoString) : Store :=
  if key ∈ members then m
  else m.set 0 (cfg.tagKey tag) (.marshalStrings (members ++ [key])) 0

def addTagKey (cfg : Config) (m : Store) (now : Int) (tag key : GoString) : Store :=
  let r := m.get now (cfg.tagKey tag)
  indexKey cfg r.1 tag key (indexMembers r.2)

def addTagKeys (cfg : Config) (clock : Nat → Int) (key : GoString) :
    Nat → List GoString → Store → Store
  | _, [], m => m
  | i, tag :: tags, m =>
    addTagKeys cfg clock key (i + 1) tags (addTagKey cfg m (clock i) tag key)

def setByKey (cfg : Config) (m : Store) (clock : Nat → Int) (exprHash ctxHash : GoString)
    (data : Option Json) (tags : List GoString) (ttlOverride : List Int) :
    Store × Except CacheError Unit :=
  match data with
  | none => (m, .error .encodeValue)
  | some doc =>
    let key := cfg.dataKey exprHash ctxHash
    let m := m.set (clock 0) key doc (cfg.effectiveTTL ttlOverride)
    (addTagKeys cfg clock key 1 tags m, .ok ())

def delete (cfg : Config) (m : Store) (exprHash ctxHash : GoString) : Store :=
  (m.del [cfg.dataKey exprHash ctxHash]).1

/-- What `InvalidateByTag` finds under the key of the tag: nothing to remove, an error, or the
members to remove. -/
inductive TagRead where
  | result (r : Except CacheError Nat)
  | members (keys : List GoString)

def readTag : Option Json → TagRead
  | none => .result (.ok 0)
  | some doc =>
    let r := doc.unmarshalStrings
    if r.2 = false then .result (.error .decodeTagIndex)
    else if r.1.length = 0 then .result (.ok 0)
    else .members r.1

def invalidateByTag (cfg : Config) (m : Store) (now : Int) (tag : GoString) :
    Store × Except CacheError Nat :=
  let r := m.get now (cfg.tagKey tag)
  match readTag r.2 with
  | .result result => (r.1, result)
  | .members keys => ((r.1.del (keys ++ [cfg.tagKey tag])).1, .ok keys.length)

lemma tagKey_injective (cfg : Config) : Function.Injective cfg.tagKey :=
  fun _ _ h => List.append_cancel_left h

end Symkernel.DistributedCache
