import Symkernel.Library.GoJson
import Symkernel.Library.GoMap

/-!
# The in-memory backend

`MemoryBackend` of `internal/cache/distributed`: a map of entries with expiry times. Every
operation runs under the backend's mutex and takes at most one clock reading, which is an input.
Times are nanoseconds, with 0 for the zero `time.Time` of an entry that never expires.
-/

namespace Symkernel.DistributedCache

open Library Finmap

scoped instance lawfulBEq_goString : LawfulBEq GoString := inferInstance

structure MemEntry (B : Type) where
  value : B
  expiresAt : Int

/-- The bytes of an entry are opaque to the backend. -/
structure MemoryBackend (B : Type) where
  entries : GoMap GoString (MemEntry B)

def newMemoryBackend {B : Type} : MemoryBackend B where
  entries := ∅

namespace MemoryBackend

variable {B : Type}

def expired (e : MemEntry B) (now : Int) : Bool :=
  e.expiresAt ≠ 0 && e.expiresAt < now

def get (m : MemoryBackend B) (now : Int) (key : GoString) : MemoryBackend B × Option B :=
  match m.entries.lookup key with
  | none => (m, none)
  | some e =>
    if expired e now then ({ m with entries := m.entries.erase key }, none)
    else (m, some e.value)

/-- `Set`; a time-to-live that is not positive means that the entry does not expire. -/
def set (m : MemoryBackend B) (now : Int) (key : GoString) (value : B) (ttl : Int) :
    MemoryBackend B :=
  let expiresAt := if 0 < ttl then now + ttl else 0
  { m with entries := m.entries.insert key { value, expiresAt } }

def delKey (r : MemoryBackend B × Nat) (key : GoString) : MemoryBackend B × Nat :=
  if key ∈ r.1.entries then ({ r.1 with entries := r.1.entries.erase key }, r.2 + 1) else r

def del (m : MemoryBackend B) (keys : List GoString) : MemoryBackend B × Nat :=
  keys.foldl delKey (m, 0)

lemma lookup_set (m : MemoryBackend B) (now : Int) (key : GoString) (value : B) (ttl : Int)
    (k : GoString) : (m.set now key value ttl).entries.lookup k =
      if k = key then some { value, expiresAt := if 0 < ttl then now + ttl else 0 }
      else m.entries.lookup k := by
  unfold set
  by_cases hk : k = key
  · rw [if_pos hk, hk, lookup_insert]
  · rw [if_neg hk, lookup_insert_of_ne _ hk]

lemma lookup_delKey (r : MemoryBackend B × Nat) (key k : GoString) :
    (delKey r key).1.entries.lookup k = if k = key then none else r.1.entries.lookup k := by
  unfold delKey
  split
  · by_cases hk : k = key
    · rw [if_pos hk, hk, lookup_erase]
    · rw [if_neg hk, lookup_erase_ne hk]
  · rename_i hkey
    split
    · rename_i hk
      rw [hk]
      exact Finmap.lookup_eq_none.mpr hkey
    · rfl

lemma lookup_foldl_delKey (keys : List GoString) (r : MemoryBackend B × Nat) (k : GoString) :
    (keys.foldl delKey r).1.entries.lookup k =
      if k ∈ keys then none else r.1.entries.lookup k := by
  induction keys generalizing r with
  | nil => simp
  | cons key keys ih =>
    rw [List.foldl_cons, ih, lookup_delKey]
    by_cases hk : k = key
    · simp [hk]
    · simp [hk]

lemma lookup_del (m : MemoryBackend B) (keys : List GoString) (k : GoString) :
    (m.del keys).1.entries.lookup k = if k ∈ keys then none else m.entries.lookup k :=
  lookup_foldl_delKey keys (m, 0) k

lemma get_value (m : MemoryBackend B) (now : Int) (key : GoString) : (m.get now key).2 =
      ((m.entries.lookup key).filter fun e => !expired e now).map MemEntry.value := by
  unfold get
  split
  · rename_i hnone
    rw [hnone]
    rfl
  · rename_i e hsome
    rw [hsome]
    by_cases hexp : expired e now = true
    · simp [hexp]
    · simp [hexp]

lemma lookup_get (m : MemoryBackend B) (now : Int) (key k : GoString) :
    (m.get now key).1.entries.lookup k =
      if k = key then (m.entries.lookup k).filter fun e => !expired e now
      else m.entries.lookup k := by
  unfold get
  by_cases hk : k = key
  · rw [if_pos hk, hk]
    cases hlookup : m.entries.lookup key with
    | none => exact hlookup
    | some e =>
      simp only [Option.filter_some]
      cases expired e now with
      | true => exact lookup_erase _ _
      | false => exact hlookup
  · rw [if_neg hk]
    cases m.entries.lookup key with
    | none => rfl
    | some e =>
      simp only
      split
      · exact lookup_erase_ne hk
      · rfl

lemma count_delKey (m : MemoryBackend B) (count : Nat) (key : GoString) :
    (delKey (m, count) key).2 = if (m.entries.lookup key).isSome then count + 1 else count := by
  have hmem : key ∈ m.entries ↔ (m.entries.lookup key).isSome = true := Finmap.lookup_isSome.symm
  unfold delKey
  simp only [hmem]
  split <;> rfl

lemma get_of_unexpired {m : MemoryBackend B} {now : Int} {key : GoString}
    (h : ∀ e, m.entries.lookup key = some e → expired e now = false) :
    m.get now key = (m, (m.entries.lookup key).map MemEntry.value) := by
  unfold get
  cases hlookup : m.entries.lookup key with
  | none => rfl
  | some e => simp [h e hlookup]

end MemoryBackend

end Symkernel.DistributedCache
