import Symkernel.Library.GoStrconv
import Symkernel.Library.Links
import Symkernel.Library.Runs
import Symkernel.Governance.Lifecycle

/-!
# Schemas and their predecessors
-/

namespace Symkernel.Governance

open Library

def SchemaVersion.text (v : SchemaVersion) : Text :=
  itoaText v.major ++ '.' :: itoaText v.minor ++ '.' :: itoaText v.patch

structure PolicySchema where
  id : Text
  version : SchemaVersion
  description : Text
  previousVersion : Option SchemaVersion
  createdAt : Time
  schemaType : Text
  hash : Text
  deriving DecidableEq

structure SchemaRegistry where
  schemas : GoMap Text PolicySchema

def newSchemaRegistry : SchemaRegistry where
  schemas := ∅

def schemaKey (id : Text) (v : SchemaVersion) : Text :=
  id ++ '@' :: v.text

namespace SchemaRegistry

variable (r : SchemaRegistry)

def register (s : PolicySchema) : Except Text SchemaRegistry :=
  let key := schemaKey s.id s.version
  if key ∈ r.schemas then
    .error ("schema ".toList ++ key ++ " already registered".toList)
  else .ok ⟨r.schemas.insert key s⟩

def get (id : Text) (v : SchemaVersion) : Option PolicySchema :=
  r.schemas.lookup (schemaKey id v)

/-- The loop of `MigrationChain`, or `none` if it makes more than `fuel` rounds. -/
def migrationLoop (id : Text) : Nat → PolicySchema → List PolicySchema → Option (List PolicySchema)
  | 0, _, _ => none
  | fuel + 1, current, chain =>
    match current.previousVersion with
    | none => some chain
    | some v =>
      match r.get id v with
      | none => some chain
      | some previous => migrationLoop id fuel previous (chain ++ [previous])

def migrationChain (fuel : Nat) (id : Text) (v : SchemaVersion) : Option (List PolicySchema) :=
  match r.get id v with
  | none => some []
  | some current => r.migrationLoop id fuel current [current]

def afterRegister (s : PolicySchema) : SchemaRegistry :=
  match r.register s with
  | .ok r' => r'
  | .error _ => r

def registered (schemas : List PolicySchema) : SchemaRegistry :=
  runFrom afterRegister newSchemaRegistry schemas

def Names (id : Text) (v : SchemaVersion) (s : PolicySchema) : Prop :=
  (∃ key, r.schemas.lookup key = some s) ∧ s.id = id ∧ s.version = v

def Precedes (id : Text) (a b : PolicySchema) : Prop :=
  ∃ v, a.previousVersion = some v ∧ r.Names id v b

/-- The call returns; distinct schemas, from the requested one back to one without a registered
predecessor. -/
def ReturnsChain (id : Text) (v : SchemaVersion) : Prop :=
  ∃ fuel chain, r.migrationChain fuel id v = some chain ∧ chain.Nodup ∧
    (∀ s, chain.head? = some s ↔ r.Names id v s) ∧ chain.IsChain (r.Precedes id) ∧
    ∀ s, chain.getLast? = some s → ∀ b, ¬r.Precedes id s b

def Acyclic (id : Text) (v : SchemaVersion) : Prop :=
  ∀ a b, r.Names id v a → Relation.ReflTransGen (r.Precedes id) a b →
    ¬Relation.TransGen (r.Precedes id) b b

lemma notMem_itoaText {c : Char} (hminus : c ≠ '-') (hdigit : c.isDigit = false) (n : Int) :
    c ∉ itoaText n := by
  intro hc
  obtain h | h := mem_itoaText hc
  · exact hminus h
  · rw [hdigit] at h
    cases h

lemma text_injective : Function.Injective SchemaVersion.text := by
  have hdot := notMem_itoaText (c := '.') (by decide) (by decide)
  rintro ⟨a, b, c⟩ ⟨a', b', c'⟩ h
  obtain ⟨hfront, hpatch⟩ := append_separator_inj (hdot c) (hdot c') h
  obtain ⟨hmajor, hminor⟩ := append_separator_inj (hdot b) (hdot b') hfront
  obtain rfl : a = a' := itoaText_injective hmajor
  obtain rfl : b = b' := itoaText_injective hminor
  obtain rfl : c = c' := itoaText_injective hpatch
  rfl

lemma at_notMem_text (v : SchemaVersion) : '@' ∉ v.text := by
  have hat := notMem_itoaText (c := '@') (by decide) (by decide)
  simp [SchemaVersion.text, hat]

variable {v : SchemaVersion}

lemma schemaKey_inj {id id' : Text} {v' : SchemaVersion} (h : schemaKey id v = schemaKey id' v') :
    id = id' ∧ v = v' := by
  obtain ⟨hid, htext⟩ := append_separator_inj (at_notMem_text v) (at_notMem_text v') h
  exact ⟨hid, text_injective htext⟩

def Keyed : Prop :=
  ∀ key s, r.schemas.lookup key = some s → key = schemaKey s.id s.version

variable {r : SchemaRegistry}

lemma Keyed.afterRegister (h : r.Keyed) (s : PolicySchema) : (r.afterRegister s).Keyed := by
  unfold SchemaRegistry.afterRegister register
  dsimp only
  split
  · rename_i r' hr'
    split at hr'
    · cases hr'
    · cases hr'
      intro key s' hlookup
      by_cases hkey : key = schemaKey s.id s.version
      · subst hkey
        rw [Finmap.lookup_insert] at hlookup
        cases hlookup
        rfl
      · rw [Finmap.lookup_insert_of_ne _ hkey] at hlookup
        exact h key s' hlookup
  · exact h

lemma keyed_registered (schemas : List PolicySchema) : (registered schemas).Keyed := by
  have hnew : newSchemaRegistry.Keyed := by
    intro key s h
    cases h
  exact runFrom_invariant (fun r s hr _ => hr.afterRegister s) hnew
    (EveryStep.of_forall_mem (P := fun _ => True) fun _ _ => trivial)

variable {s : PolicySchema}

lemma Keyed.get_eq_some_iff (h : r.Keyed) {id : Text} : r.get id v = some s ↔ r.Names id v s := by
  constructor
  · intro hget
    obtain ⟨hid, hversion⟩ := schemaKey_inj (h _ _ hget)
    exact ⟨⟨_, hget⟩, hid.symm, hversion.symm⟩
  · rintro ⟨⟨key, hlookup⟩, rfl, rfl⟩
    rw [get, ← h key s hlookup]
    exact hlookup

variable (r) in
def predecessor (id : Text) (s : PolicySchema) : Option PolicySchema :=
  s.previousVersion.bind (r.get id)

lemma Keyed.links_eq (h : r.Keyed) (id : Text) : Links (r.predecessor id) = r.Precedes id := by
  funext a b
  rw [Links, predecessor, Option.bind_eq_some_iff, Precedes]
  simp only [h.get_eq_some_iff]

lemma migrationLoop_eq (id : Text) (fuel : Nat) (current : PolicySchema)
    (chain : List PolicySchema) : r.migrationLoop id fuel current chain =
      (follow (r.predecessor id) fuel current).map (chain ++ ·.tail) := by
  induction fuel generalizing current chain with
  | zero => rfl
  | succ fuel ih =>
    unfold migrationLoop
    cases hprevious : current.previousVersion with
    | none =>
      have hnone : r.predecessor id current = none := by rw [predecessor, hprevious]; rfl
      rw [follow_of_none hnone]
      simp
    | some v =>
      have hpredecessor : r.predecessor id current = r.get id v := by
        rw [predecessor, hprevious]
        rfl
      dsimp only
      cases hget : r.get id v with
      | none =>
        rw [follow_of_none (hpredecessor.trans hget)]
        simp
      | some previous =>
        dsimp only
        rw [ih, follow_of_some (hpredecessor.trans hget)]
        cases hfollow : follow (r.predecessor id) fuel previous with
        | none => rfl
        | some l =>
          obtain ⟨rest, rfl⟩ := List.head?_eq_some_iff.mp (followed_of_follow hfollow).head
          simp

lemma migrationChain_of_get {id : Text} (h : r.get id v = some s) (fuel : Nat) :
    r.migrationChain fuel id v = follow (r.predecessor id) fuel s := by
  unfold migrationChain
  rw [h]
  dsimp only
  rw [migrationLoop_eq]
  cases hfollow : follow (r.predecessor id) fuel s with
  | none => rfl
  | some l =>
    obtain ⟨rest, rfl⟩ := List.head?_eq_some_iff.mp (followed_of_follow hfollow).head
    rfl

/-- What can be reached is registered, so that there is no end of it only in a cycle. -/
lemma exists_finset_reachable (r : SchemaRegistry) (id : Text) (s : PolicySchema) :
    ∃ all : Finset PolicySchema,
      ∀ b, Relation.ReflTransGen (Links (r.predecessor id)) s b → b ∈ all := by
  refine ⟨insert s (r.schemas.keys.image fun key => (r.schemas.lookup key).getD s), ?_⟩
  intro b hb
  obtain rfl | ⟨a, -, hab⟩ := hb.cases_tail
  · exact Finset.mem_insert_self _ _
  · obtain ⟨v, -, hget⟩ := Option.bind_eq_some_iff.mp hab
    refine Finset.mem_insert_of_mem (Finset.mem_image.mpr ⟨schemaKey id v, ?_, ?_⟩)
    · exact Finmap.mem_keys.mpr (Finmap.mem_of_lookup_eq_some hget)
    · rw [get] at hget
      rw [hget, Option.getD_some]

lemma Keyed.returnsChain_iff_ends (h : r.Keyed) {id : Text} (hget : r.get id v = some s) :
    r.ReturnsChain id v ↔ Ends (r.predecessor id) s := by
  constructor
  · rintro ⟨fuel, chain, hchain, -⟩
    rw [migrationChain_of_get hget] at hchain
    exact ends_of_follow hchain
  · intro hends
    obtain ⟨all, hall⟩ := exists_finset_reachable r id s
    obtain ⟨chain, hchain⟩ := hends.follow hall
    have hfollowed := followed_of_follow hchain
    rw [← migrationChain_of_get hget] at hchain
    refine ⟨_, chain, hchain, hfollowed.nodup hends, fun a => ?_, ?_, fun a ha b hab => ?_⟩
    · rw [hfollowed.head, ← h.get_eq_some_iff, hget]
    · rw [← h.links_eq]
      exact hfollowed.linked
    · rw [← h.links_eq, Links, hfollowed.last a ha] at hab
      cases hab

/-- `MigrationChain` returns what it should exactly where no cycle can be reached. -/
theorem returnsChain_iff_acyclic (schemas : List PolicySchema) (id : Text) (v : SchemaVersion) :
    (registered schemas).ReturnsChain id v ↔ (registered schemas).Acyclic id v := by
  have hkeyed := keyed_registered schemas
  unfold Acyclic
  simp only [← hkeyed.get_eq_some_iff, ← hkeyed.links_eq]
  cases hget : (registered schemas).get id v with
  | none =>
    refine iff_of_true ⟨0, [], ?_, List.nodup_nil, fun s => ?_, .nil, fun s hs => ?_⟩
      fun a b ha => (by cases ha)
    · unfold migrationChain
      rw [hget]
    · rw [← hkeyed.get_eq_some_iff, hget]
      exact Iff.rfl
    · cases hs
  | some s =>
    rw [hkeyed.returnsChain_iff_ends hget]
    constructor
    · intro hends a b ha
      cases ha
      exact hends b
    · intro hacyclic b
      exact hacyclic s b rfl

def linkedSchema (v previous : SchemaVersion) : PolicySchema where
  id := "s".toList
  version := v
  description := []
  previousVersion := some previous
  createdAt := 0
  schemaType := "cel".toList
  hash := []

def circular : List PolicySchema :=
  [linkedSchema ⟨1, 0, 0⟩ ⟨2, 0, 0⟩, linkedSchema ⟨2, 0, 0⟩ ⟨1, 0, 0⟩]

theorem circular_never_returns : ¬(registered circular).ReturnsChain "s".toList ⟨1, 0, 0⟩ := by
  have hget : (registered circular).get "s".toList ⟨1, 0, 0⟩ =
      some (linkedSchema ⟨1, 0, 0⟩ ⟨2, 0, 0⟩) := by decide +kernel
  have hforth : (registered circular).predecessor "s".toList (linkedSchema ⟨1, 0, 0⟩ ⟨2, 0, 0⟩) =
      some (linkedSchema ⟨2, 0, 0⟩ ⟨1, 0, 0⟩) := by decide +kernel
  have hback : (registered circular).predecessor "s".toList (linkedSchema ⟨2, 0, 0⟩ ⟨1, 0, 0⟩) =
      some (linkedSchema ⟨1, 0, 0⟩ ⟨2, 0, 0⟩) := by decide +kernel
  rw [(keyed_registered circular).returnsChain_iff_ends hget]
  intro hends
  exact hends _ .refl (.head hforth (.single hback))

end SchemaRegistry

end Symkernel.Governance
