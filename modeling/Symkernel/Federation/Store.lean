import Symkernel.Library.GoMap

/-!
# Policies and the stores that hold them

A policy carries the revision that replication compares: the version first, the time of the last
write on a tie.
-/

namespace Symkernel.Federation

open Symkernel.Library

scoped instance neZero_uint64 : NeZero (2 ^ 64) := ⟨by decide⟩

/-- `Version` is an unsigned 64-bit integer, `UpdatedAt` an instant. -/
structure Policy where
  id : String
  version : Fin (2 ^ 64)
  body : List UInt8
  originRegion : String
  updatedAt : ℤ
  deriving DecidableEq, Repr

def compareRevision (a b : Policy) : ℤ :=
  if a.version ≠ b.version then
    if a.version > b.version then 1 else -1
  else if a.updatedAt < b.updatedAt then -1
  else if a.updatedAt > b.updatedAt then 1
  else 0

/-- Revisions are ordered by version, then by time. -/
abbrev Revision := Fin (2 ^ 64) ×ₗ ℤ

instance : DecidableLT (WithBot Revision) :=
  LinearOrder.toDecidableLT

def Policy.revision (p : Policy) : Revision :=
  toLex (p.version, p.updatedAt)

/-- The revision of a policy that may be absent; every policy is newer than none. -/
def revisionOf : Option Policy → WithBot Revision
  | none => ⊥
  | some p => p.revision

@[simp] lemma revisionOf_some (p : Policy) : revisionOf (some p) = p.revision := rfl

lemma revision_lt_iff {a b : Policy} : a.revision < b.revision ↔
      a.version < b.version ∨ a.version = b.version ∧ a.updatedAt < b.updatedAt :=
  Prod.Lex.toLex_lt_toLex

lemma revision_le_iff {a b : Policy} : a.revision ≤ b.revision ↔
      a.version < b.version ∨ a.version = b.version ∧ a.updatedAt ≤ b.updatedAt :=
  Prod.Lex.toLex_le_toLex

lemma compareRevision_cases (a b : Policy) : (compareRevision a b = 1 ∧ b.revision < a.revision) ∨
    (compareRevision a b = -1 ∧ a.revision < b.revision) ∨
    (compareRevision a b = 0 ∧ a.revision = b.revision) := by
  unfold compareRevision
  by_cases hv : a.version = b.version
  · rw [if_neg (not_not.mpr hv)]
    obtain hlt | heq | hgt := lt_trichotomy a.updatedAt b.updatedAt
    · exact .inr (.inl ⟨if_pos hlt, revision_lt_iff.mpr (.inr ⟨hv, hlt⟩)⟩)
    · refine .inr (.inr ⟨by simp [heq], ?_⟩)
      rw [Policy.revision, Policy.revision, hv, heq]
    · refine .inl ⟨by rw [if_neg hgt.le.not_gt, if_pos hgt], ?_⟩
      exact revision_lt_iff.mpr (.inr ⟨hv.symm, hgt⟩)
  · rw [if_pos hv]
    obtain hlt | hgt := lt_or_gt_of_ne hv
    · exact .inr (.inl ⟨if_neg hlt.le.not_gt, revision_lt_iff.mpr (.inl hlt)⟩)
    · exact .inl ⟨if_pos hgt, revision_lt_iff.mpr (.inl hgt)⟩

structure MemoryStore where
  policies : GoMap String Policy
  keyed : ∀ id p, policies.lookup id = some p → p.id = id

namespace MemoryStore

instance : DecidableEq MemoryStore := fun a b =>
  decidable_of_iff (a.policies = b.policies) (by cases a; cases b; simp)

def newMemoryStore : MemoryStore where
  policies := ∅
  keyed _ _ h := by simp at h

def get (s : MemoryStore) (id : String) : Option Policy :=
  s.policies.lookup id

def put (s : MemoryStore) (p : Policy) : MemoryStore where
  policies := s.policies.insert p.id p
  keyed id q h := by
    by_cases hid : id = p.id
    · subst hid
      rw [Finmap.lookup_insert] at h
      exact (Option.some.inj h) ▸ rfl
    · rw [Finmap.lookup_insert_of_ne _ hid] at h
      exact s.keyed id q h

/-- The policies in the order of their keys that is given; the code sorts them by id. -/
def list (s : MemoryStore) (order : RangeOrder String) : List Policy :=
  (order.keys s.policies.keys).filterMap s.get

lemma get_put (s : MemoryStore) (p : Policy) (id : String) :
    (s.put p).get id = if id = p.id then some p else s.get id := by
  split
  next h =>
    subst h
    exact Finmap.lookup_insert _
  next h => exact Finmap.lookup_insert_of_ne _ h

variable {s : MemoryStore}

lemma id_of_get {id : String} {p : Policy} (h : s.get id = some p) : p.id = id :=
  s.keyed id p h

lemma mem_keys_iff {id : String} : id ∈ s.policies.keys ↔ s.get id ≠ none := by
  rw [Finmap.mem_keys, get, Ne, Finmap.lookup_eq_none, not_not]

lemma mem_list {order : RangeOrder String} {p : Policy} :
    p ∈ s.list order ↔ s.get p.id = some p := by
  rw [list, List.mem_filterMap]
  constructor
  · rintro ⟨id, -, hget⟩
    rwa [id_of_get hget]
  · intro hget
    refine ⟨p.id, ?_, hget⟩
    rw [order.mem_keys, mem_keys_iff, hget]
    exact Option.some_ne_none p

lemma find_list (s : MemoryStore) (order : RangeOrder String) (id : String) :
    ((s.list order).find? fun p => p.id = id) = s.get id := by
  cases hfind : (s.list order).find? fun p => p.id = id with
  | some p =>
    have hid : p.id = id := by simpa using List.find?_some hfind
    rw [← hid, mem_list.mp (List.mem_of_find?_eq_some hfind)]
  | none =>
    rw [List.find?_eq_none] at hfind
    cases hget : s.get id with
    | none => rfl
    | some p =>
      have hid := id_of_get hget
      exact absurd (by simp [hid]) (hfind p (mem_list.mpr (by rwa [hid])))

lemma nodup_list (s : MemoryStore) (order : RangeOrder String) :
    ((s.list order).map Policy.id).Nodup := by
  rw [list, List.map_filterMap]
  refine (order.nodup s.policies.keys).filterMap ?_
  intro a b c ha hb
  rw [Option.mem_map] at ha hb
  obtain ⟨p, hp, rfl⟩ := ha
  obtain ⟨q, hq, heq⟩ := hb
  exact (id_of_get hp).symm.trans (heq.symm.trans (id_of_get hq))

end MemoryStore

end Symkernel.Federation
