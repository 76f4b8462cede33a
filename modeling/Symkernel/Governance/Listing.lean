import Symkernel.Library.ExchangeSort
import Symkernel.Governance.Schema

/-!
# The schemas of an id
-/

namespace Symkernel.Governance

open Library Finmap

def versionGt (a b : SchemaVersion) : Bool :=
  if a.major ≠ b.major then decide (a.major > b.major)
  else if a.minor ≠ b.minor then decide (a.minor > b.minor)
  else decide (a.patch > b.patch)

def sortSchemas (s : List PolicySchema) : List PolicySchema :=
  exchangeSort (fun a b => versionGt a.version b.version) s

namespace SchemaRegistry

variable (r : SchemaRegistry)

def visited (order : RangeOrder Text) : List PolicySchema :=
  (order.keys r.schemas.keys).filterMap r.schemas.lookup

def latestStep (id : Text) (best : Option PolicySchema) (s : PolicySchema) :
    Option PolicySchema :=
  if s.id ≠ id then best
  else keepGreatest (fun a b => versionGt a.version b.version) best s

def latest (order : RangeOrder Text) (id : Text) : Option PolicySchema :=
  (r.visited order).foldl (latestStep id) none

def list (order : RangeOrder Text) (id : Text) : List PolicySchema :=
  sortSchemas ((r.visited order).filter fun s => !(id ≠ [] && s.id ≠ id))

def acceptedFrom : SchemaRegistry → List PolicySchema → List PolicySchema
  | _, [] => []
  | r, s :: schemas =>
    match r.register s with
    | .ok r' => s :: acceptedFrom r' schemas
    | .error _ => acceptedFrom r schemas

def accepted (schemas : List PolicySchema) : List PolicySchema :=
  acceptedFrom newSchemaRegistry schemas

end SchemaRegistry

def SchemaVersion.key (v : SchemaVersion) : ℤ ×ₗ ℤ ×ₗ ℤ :=
  toLex (v.major, toLex (v.minor, v.patch))

lemma versionGt_iff (a b : SchemaVersion) : versionGt a b = true ↔ b.key < a.key := by
  simp only [versionGt, SchemaVersion.key, Prod.Lex.lt_iff, ofLex_toLex]
  split
  · rw [decide_eq_true_eq]
    omega
  · split <;> rw [decide_eq_true_eq] <;> omega

lemma key_injective : Function.Injective SchemaVersion.key := by
  rintro ⟨a, b, c⟩ ⟨a', b', c'⟩ h
  obtain ⟨rfl, rfl, rfl⟩ := h
  rfl

namespace SchemaRegistry

variable {r r' : SchemaRegistry}

def Holds (r : SchemaRegistry) (s : PolicySchema) : Prop :=
  ∃ key, r.schemas.lookup key = some s

variable {s : PolicySchema}

lemma holds_register (h : r.register s = .ok r') (a : PolicySchema) :
    r'.Holds a ↔ a = s ∨ r.Holds a := by
  rw [register] at h
  split at h
  · cases h
  · rename_i hkey
    cases h
    constructor
    · rintro ⟨key, ha⟩
      by_cases heq : key = schemaKey s.id s.version
      · subst heq
        rw [lookup_insert, Option.some_inj] at ha
        exact .inl ha.symm
      · rw [lookup_insert_of_ne _ heq] at ha
        exact .inr ⟨key, ha⟩
    · rintro (rfl | ⟨key, ha⟩)
      · exact ⟨_, lookup_insert _⟩
      · refine ⟨key, ?_⟩
        rw [lookup_insert_of_ne, ha]
        rintro rfl
        exact hkey (Finmap.mem_of_lookup_eq_some ha)

lemma not_holds_of_register (hkeyed : r.Keyed) (h : r.register s = .ok r') : ¬r.Holds s := by
  rintro ⟨key, hs⟩
  have hmem := Finmap.mem_of_lookup_eq_some hs
  rw [hkeyed key s hs] at hmem
  rw [register] at h
  rw [if_pos hmem] at h
  cases h

lemma afterRegister_of_ok (h : r.register s = .ok r') : r.afterRegister s = r' := by
  rw [afterRegister, h]

lemma afterRegister_of_error {e : Text} (h : r.register s = .error e) : r.afterRegister s = r := by
  rw [afterRegister, h]

lemma holds_run (r : SchemaRegistry) (schemas : List PolicySchema) (a : PolicySchema) :
    (runFrom afterRegister r schemas).Holds a ↔ r.Holds a ∨ a ∈ acceptedFrom r schemas := by
  induction schemas generalizing r with
  | nil => simp [acceptedFrom]
  | cons s schemas ih =>
    rw [runFrom_cons, ih, acceptedFrom]
    cases h : r.register s with
    | error e => rw [afterRegister_of_error h]
    | ok r' =>
      rw [afterRegister_of_ok h, holds_register h, List.mem_cons]
      tauto

lemma Keyed.accepted_nodup (hkeyed : r.Keyed) (schemas : List PolicySchema) :
    (acceptedFrom r schemas).Nodup ∧ ∀ a ∈ acceptedFrom r schemas, ¬r.Holds a := by
  induction schemas generalizing r with
  | nil => simp [acceptedFrom]
  | cons s schemas ih =>
    rw [acceptedFrom]
    cases h : r.register s with
    | error e => exact ih hkeyed
    | ok r' =>
      have hkeyed' := hkeyed.afterRegister s
      rw [afterRegister_of_ok h] at hkeyed'
      obtain ⟨hnodup, hnew⟩ := ih hkeyed'
      simp only [holds_register h, not_or] at hnew
      rw [List.nodup_cons, List.forall_mem_cons]
      exact ⟨⟨fun hs => (hnew s hs).1 rfl, hnodup⟩, not_holds_of_register hkeyed h,
        fun a ha => (hnew a ha).2⟩

lemma mem_visited (order : RangeOrder Text) (a : PolicySchema) :
    a ∈ r.visited order ↔ r.Holds a := by
  rw [visited, List.mem_filterMap]
  constructor
  · rintro ⟨key, -, ha⟩
    exact ⟨key, ha⟩
  · rintro ⟨key, ha⟩
    refine ⟨key, ?_, ha⟩
    rw [order.mem_keys]
    exact Finmap.mem_of_lookup_eq_some ha

lemma Keyed.visited_nodup (hkeyed : r.Keyed) (order : RangeOrder Text) :
    (r.visited order).Nodup := by
  apply (order.nodup _).filterMap
  intro key key' a ha ha'
  rw [hkeyed key a ha, hkeyed key' a ha']

lemma visited_registered (schemas : List PolicySchema) (order : RangeOrder Text) :
    ((registered schemas).visited order).Perm (accepted schemas) := by
  have hempty : newSchemaRegistry.Keyed := keyed_registered []
  rw [accepted, List.perm_ext_iff_of_nodup ((keyed_registered schemas).visited_nodup order)
    (hempty.accepted_nodup schemas).1]
  intro a
  rw [mem_visited, registered, holds_run]
  constructor
  · rintro (⟨key, ha⟩ | ha)
    · cases ha
    · exact ha
  · exact .inr

lemma latest_eq (order : RangeOrder Text) (id : Text) :
    r.latest order id = ((r.visited order).filter fun s => s.id = id).foldl
      (keepGreatest fun a b => versionGt a.version b.version) none := by
  rw [latest, List.foldl_filter]
  congr 1
  funext best s
  rw [latestStep]
  by_cases hid : s.id = id <;> simp

lemma list_eq {id : Text} (hid : id ≠ []) (order : RangeOrder Text) :
    r.list order id = sortSchemas ((r.visited order).filter fun s => s.id = id) := by
  rw [list]
  congr 2
  funext s
  simp [hid]

lemma Keyed.eq_of_version (hkeyed : r.Keyed) {a b : PolicySchema} (ha : r.Holds a)
    (hb : r.Holds b) (hid : a.id = b.id) (hversion : a.version = b.version) : a = b := by
  obtain ⟨key, ha⟩ := ha
  obtain ⟨key', hb⟩ := hb
  rw [hkeyed key a ha, hid, hversion, ← hkeyed key' b hb, hb, Option.some_inj] at ha
  exact ha.symm

/-- `List` returns the schemas that have been accepted under the id, from the greatest version
down, and `Latest` the first of them. -/
theorem list_latest_agree (schemas : List PolicySchema) {id : Text} (hid : id ≠ [])
    (order order' : RangeOrder Text) : ((registered schemas).list order id).Perm
      ((accepted schemas).filter fun s => s.id = id) ∧
    (((registered schemas).list order id).Pairwise fun a b =>
      versionGt a.version b.version = true) ∧
    (registered schemas).latest order' id = ((registered schemas).list order id).head? ∧
    ((registered schemas).latest order' id = none ↔ (registered schemas).list order id = []) := by
  have hkeyed := keyed_registered schemas
  have hgt : ∀ a b : PolicySchema, versionGt a.version b.version = true ↔
      b.version.key < a.version.key := fun a b => versionGt_iff a.version b.version
  have hvisited := visited_registered schemas order
  have hinj : ∀ a ∈ ((registered schemas).visited order).filter (fun s => s.id = id),
      ∀ b ∈ ((registered schemas).visited order).filter (fun s => s.id = id),
        a.version.key = b.version.key → a = b := by
    intro a ha b hb hkey
    rw [List.mem_filter, mem_visited, decide_eq_true_eq] at ha hb
    exact hkeyed.eq_of_version ha.1 hb.1 (ha.2.trans hb.2.symm) (key_injective hkey)
  have hlatest : (registered schemas).latest order' id =
      ((registered schemas).list order id).head? := by
    rw [latest_eq, list_eq hid]
    apply foldl_keepGreatest_eq_head? hgt _ hinj
    exact (hvisited.trans (visited_registered schemas order').symm).filter _
  refine ⟨?_, ?_, hlatest, by rw [hlatest, List.head?_eq_none_iff]⟩
  · rw [list_eq hid]
    exact (exchangeSort_perm _ _).trans (hvisited.filter _)
  · rw [list_eq hid]
    have hperm := exchangeSort_perm (fun a b : PolicySchema => versionGt a.version b.version)
      (((registered schemas).visited order).filter fun s => s.id = id)
    have hnodup := hperm.nodup_iff.mpr ((hkeyed.visited_nodup order).filter _)
    apply ((exchangeSort_sorted hgt _).and hnodup).imp_of_mem
    rintro a b ha hb ⟨hle, hne⟩
    rw [hgt]
    apply lt_of_le_of_ne hle
    intro heq
    exact hne (hinj a (hperm.mem_iff.mp ha) b (hperm.mem_iff.mp hb) heq.symm)

/-- Two versions, registered from the older to the newer. -/
theorem two_versions_latest :
    (registered [linkedSchema ⟨1, 0, 0⟩ ⟨0, 0, 0⟩, linkedSchema ⟨1, 1, 0⟩ ⟨1, 0, 0⟩]).latest
        (RangeOrder.ascending Text) "s".toList =
      ((registered [linkedSchema ⟨1, 0, 0⟩ ⟨0, 0, 0⟩, linkedSchema ⟨1, 1, 0⟩ ⟨1, 0, 0⟩]).list
        (RangeOrder.ascending Text) "s".toList).head? :=
  (list_latest_agree _ (by decide) _ _).2.2.1

end SchemaRegistry

end Symkernel.Governance
