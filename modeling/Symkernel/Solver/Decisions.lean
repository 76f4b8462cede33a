import Symkernel.Solver.Output

/-!
# The cache of decisions

`internal/symbolic/cache/cache.go`. The map points to elements of the LRU list; an element is
known by the number of elements created before it. `lru` has the element used last in front.
-/

namespace Symkernel.Solver

open Library List

def defaultMaxEntries : Nat := 1000

structure Decision where
  sat : Status
  model : Option Model
  unsatCore : Option (List Text)
  deriving DecidableEq

/-- `append([]string(nil), names...)` is nil for no names. -/
def cloneNames : Option (List Text) → Option (List Text)
  | some (name :: names) => some (name :: names)
  | _ => none

def cloneDecision (decision : Decision) : Decision :=
  { decision with unsatCore := cloneNames decision.unsatCore }

structure Element (κ : Type*) where
  id : Nat
  hash : κ
  decision : Decision

structure DecisionCache (κ : Type*) where
  maxEntries : Nat
  entries : GoMap κ Nat
  lru : List (Element κ)
  created : Nat
  hits : Nat
  misses : Nat
  evictions : Nat

namespace DecisionCache

variable {κ : Type*}

def new (maxEntries : Int) : DecisionCache κ where
  maxEntries := if maxEntries < 0 then defaultMaxEntries else maxEntries.toNat
  entries := ∅
  lru := []
  created := 0
  hits := 0
  misses := 0
  evictions := 0

def element (c : DecisionCache κ) (id : Nat) : Option (Element κ) :=
  c.lru.find? fun e => e.id = id

def toFront (c : DecisionCache κ) (e : Element κ) : List (Element κ) :=
  e :: c.lru.filter fun e' => e'.id ≠ e.id

variable [DecidableEq κ]

def getByHash (c : DecisionCache κ) (hash : κ) : DecisionCache κ × Option Decision :=
  match (c.entries.lookup hash).bind c.element with
  | none => ({ c with misses := c.misses + 1 }, none)
  | some e =>
    ({ c with lru := c.toFront e, hits := c.hits + 1 }, some (cloneDecision e.decision))

def pushFront (c : DecisionCache κ) (hash : κ) (decision : Decision) : DecisionCache κ :=
  { c with
    entries := c.entries.insert hash c.created
    lru := ⟨c.created, hash, decision⟩ :: c.lru
    created := c.created + 1 }

def evict (c : DecisionCache κ) : DecisionCache κ :=
  if c.lru.length ≤ c.maxEntries then c
  else match c.lru.getLast? with
    | none => c
    | some oldest =>
      { c with
        entries := c.entries.erase oldest.hash
        lru := c.lru.dropLast
        evictions := c.evictions + 1 }

def setByHash (c : DecisionCache κ) (hash : κ) (decision : Decision) : DecisionCache κ :=
  if c.maxEntries = 0 then c
  else match c.entries.lookup hash with
    | some id => { c with lru := c.toFront ⟨id, hash, cloneDecision decision⟩ }
    | none => (c.pushFront hash (cloneDecision decision)).evict

/-- The map points to every element of the list under the hash of the element, and to nothing
else. -/
structure Linked (c : DecisionCache κ) : Prop where
  distinct : (c.lru.map Element.id).Nodup
  created : ∀ e ∈ c.lru, e.id < c.created
  points : ∀ hash id, c.entries.lookup hash = some id ↔ ∃ e ∈ c.lru, e.hash = hash ∧ e.id = id

structure Consistent (c : DecisionCache κ) : Prop extends Linked c where
  bounded : c.lru.length ≤ c.maxEntries

lemma consistent_new (maxEntries : Int) : (new maxEntries : DecisionCache κ).Consistent where
  distinct := List.nodup_nil
  created e he := by cases he
  points hash id := by simp [new]
  bounded := Nat.zero_le _

variable {c : DecisionCache κ}

variable {e e' : Element κ}

lemma Linked.eq_of_id (hc : c.Linked) (he : e ∈ c.lru) (he' : e' ∈ c.lru) (hid : e.id = e'.id) :
    e = e' :=
  inj_on_of_nodup_map hc.distinct he he' hid

lemma Linked.eq_of_hash (hc : c.Linked) (he : e ∈ c.lru) (he' : e' ∈ c.lru)
    (hhash : e.hash = e'.hash) : e = e' := by
  have h := (hc.points e.hash e.id).mpr ⟨e, he, rfl, rfl⟩
  have h' := (hc.points e.hash e'.id).mpr ⟨e', he', hhash.symm, rfl⟩
  rw [h] at h'
  exact hc.eq_of_id he he' (Option.some.inj h')

lemma Linked.element_eq_some (hc : c.Linked) {id : Nat} :
    c.element id = some e ↔ e ∈ c.lru ∧ e.id = id := by
  constructor
  · intro h
    exact ⟨List.mem_of_find?_eq_some h, by simpa using List.find?_some h⟩
  · rintro ⟨he, rfl⟩
    cases h : c.element e.id with
    | none => simpa using List.find?_eq_none.mp h e he
    | some e' =>
      have hid : e'.id = e.id := by simpa using List.find?_some h
      rw [hc.eq_of_id (List.mem_of_find?_eq_some h) he hid]

variable {hash : κ}

lemma Linked.lookup_eq_some (hc : c.Linked) :
    (c.entries.lookup hash).bind c.element = some e ↔ e ∈ c.lru ∧ e.hash = hash := by
  rw [Option.bind_eq_some_iff]
  constructor
  · rintro ⟨id, hid, hfind⟩
    obtain ⟨he, rfl⟩ := hc.element_eq_some.mp hfind
    obtain ⟨e', he', hhash, hid'⟩ := (hc.points hash e.id).mp hid
    rw [hc.eq_of_id he he' hid'.symm]
    exact ⟨he', hhash⟩
  · rintro ⟨he, rfl⟩
    exact ⟨e.id, (hc.points e.hash e.id).mpr ⟨e, he, rfl, rfl⟩, hc.element_eq_some.mpr ⟨he, rfl⟩⟩

omit [DecidableEq κ] in
lemma mem_toFront : e' ∈ c.toFront e ↔ e' = e ∨ e' ∈ c.lru ∧ e'.id ≠ e.id := by
  simp [toFront]

lemma Linked.toFront (hc : c.Linked) (he : e ∈ c.lru) (hid : e'.id = e.id)
    (hhash : e'.hash = e.hash) (hits : Nat) :
    { c with lru := c.toFront e', hits := hits : DecisionCache κ }.Linked where
  distinct := by
    simp only [DecisionCache.toFront, map_cons, nodup_cons]
    refine ⟨?_, hc.distinct.sublist (List.filter_sublist.map _)⟩
    intro h
    obtain ⟨e₁, he₁, hid₁⟩ := List.mem_map.mp h
    have hne := (List.mem_filter.mp he₁).2
    rw [decide_eq_true_iff] at hne
    exact hne hid₁
  created e₁ h := by
    obtain rfl | ⟨h, -⟩ := mem_toFront.mp h
    · rw [hid]
      exact hc.created e he
    · exact hc.created e₁ h
  points hash id := by
    rw [hc.points]
    constructor
    · rintro ⟨e₁, he₁, rfl, rfl⟩
      by_cases h : e₁.id = e'.id
      · rw [hc.eq_of_id he₁ he (h.trans hid)]
        exact ⟨e', mem_toFront.mpr (Or.inl rfl), hhash, hid⟩
      · exact ⟨e₁, mem_toFront.mpr (Or.inr ⟨he₁, h⟩), rfl, rfl⟩
    · rintro ⟨e₁, he₁, rfl, rfl⟩
      obtain rfl | ⟨he₁, -⟩ := mem_toFront.mp he₁
      · exact ⟨e, he, hhash.symm, hid.symm⟩
      · exact ⟨e₁, he₁, rfl, rfl⟩

omit [DecidableEq κ] in
lemma length_toFront_le (he : e ∈ c.lru) (hid : e'.id = e.id) :
    (c.toFront e').length ≤ c.lru.length := by
  have hlt : (c.lru.filter fun e₁ => e₁.id ≠ e'.id).length < c.lru.length :=
    List.length_filter_lt_length_iff_exists.mpr ⟨e, he, by simp [hid]⟩
  exact hlt

lemma Linked.pushFront (hc : c.Linked) (hnew : c.entries.lookup hash = none) (decision : Decision) :
    (c.pushFront hash decision).Linked where
  distinct := by
    simp only [DecisionCache.pushFront, map_cons, nodup_cons]
    refine ⟨?_, hc.distinct⟩
    intro h
    obtain ⟨e, he, hid⟩ := List.mem_map.mp h
    exact absurd hid (Nat.ne_of_lt (hc.created e he))
  created e he := by
    obtain rfl | he := List.mem_cons.mp he
    · exact Nat.lt_succ_self _
    · exact Nat.lt_succ_of_lt (hc.created e he)
  points hash' id := by
    simp only [DecisionCache.pushFront, exists_mem_cons_iff]
    by_cases h : hash' = hash
    · subst h
      have hout : ¬∃ e ∈ c.lru, e.hash = hash' ∧ e.id = id := by
        rw [← hc.points, hnew]
        exact fun h => by cases h
      rw [Finmap.lookup_insert, Option.some_inj, or_iff_left hout]
      exact ⟨fun h => ⟨rfl, h⟩, fun h => h.2⟩
    · rw [Finmap.lookup_insert_of_ne _ h, hc.points]
      exact ⟨Or.inr, fun hor => hor.resolve_left fun hp => h hp.1.symm⟩

lemma Linked.evict (hc : c.Linked) (hlen : c.lru.length ≤ c.maxEntries + 1) :
    c.evict.Consistent := by
  unfold DecisionCache.evict
  split
  · rename_i hle
    exact ⟨hc, hle⟩
  · rename_i hlong
    cases hlast : c.lru.getLast? with
    | none =>
      rw [List.getLast?_eq_none_iff] at hlast
      rw [hlast] at hlong
      exact absurd (Nat.zero_le _) hlong
    | some oldest =>
      obtain ⟨front, hfront⟩ := List.getLast?_eq_some_iff.mp hlast
      have hdrop : c.lru.dropLast = front := by rw [hfront, dropLast_concat]
      have hmem : ∀ e ∈ front, e ∈ c.lru := fun e he => by
        rw [hfront]
        exact mem_append_left _ he
      have hdistinct := hc.distinct
      rw [hfront, map_append, nodup_append] at hdistinct
      have hold : oldest ∈ c.lru := by
        rw [hfront]
        exact mem_append_right _ mem_cons_self
      refine ⟨⟨?_, ?_, ?_⟩, ?_⟩
      · simp only [hdrop]
        exact hdistinct.1
      · intro e he
        simp only [hdrop] at he
        exact hc.created e (hmem e he)
      · intro hash id
        simp only [hdrop]
        by_cases h : hash = oldest.hash
        · rw [h, Finmap.lookup_erase]
          refine iff_of_false (fun hx => by cases hx) ?_
          rintro ⟨e, he, hhash, -⟩
          have heq := hc.eq_of_hash (hmem e he) hold hhash
          rw [heq] at he
          exact hdistinct.2.2 _ (mem_map_of_mem he) _ (mem_map_of_mem mem_cons_self) rfl
        · rw [Finmap.lookup_erase_ne h, hc.points]
          constructor
          · rintro ⟨e, he, rfl, rfl⟩
            rw [hfront, mem_append, mem_singleton] at he
            obtain he | rfl := he
            · exact ⟨e, he, rfl, rfl⟩
            · exact absurd rfl h
          · rintro ⟨e, he, hhash, hid⟩
            exact ⟨e, hmem e he, hhash, hid⟩
      · simp only [length_dropLast]
        omega

lemma mem_evict (h : e ∈ c.evict.lru) : e ∈ c.lru := by
  unfold DecisionCache.evict at h
  split at h
  · exact h
  · split at h
    · exact h
    · exact dropLast_subset _ h

lemma Consistent.getByHash (hc : c.Consistent) (hash : κ) : (c.getByHash hash).1.Consistent := by
  unfold DecisionCache.getByHash
  cases h : (c.entries.lookup hash).bind c.element with
  | none => exact ⟨⟨hc.distinct, hc.created, hc.points⟩, hc.bounded⟩
  | some e =>
    have he := (hc.lookup_eq_some.mp h).1
    exact ⟨hc.toLinked.toFront he rfl rfl _, (length_toFront_le he rfl).trans hc.bounded⟩

lemma Consistent.getByHash_hit (hc : c.Consistent) {decision : Decision}
    (h : (c.getByHash hash).2 = some decision) :
    ∃ e ∈ c.lru, e.hash = hash ∧ decision = cloneDecision e.decision := by
  unfold DecisionCache.getByHash at h
  cases hlookup : (c.entries.lookup hash).bind c.element with
  | none =>
    rw [hlookup] at h
    cases h
  | some e =>
    rw [hlookup] at h
    obtain ⟨he, hhash⟩ := hc.lookup_eq_some.mp hlookup
    exact ⟨e, he, hhash, (Option.some.inj h).symm⟩

lemma Consistent.mem_getByHash (hc : c.Consistent) (h : e ∈ (c.getByHash hash).1.lru) :
    e ∈ c.lru := by
  unfold DecisionCache.getByHash at h
  cases hlookup : (c.entries.lookup hash).bind c.element with
  | none =>
    rw [hlookup] at h
    exact h
  | some e' =>
    rw [hlookup] at h
    obtain rfl | ⟨h, -⟩ := mem_toFront.mp h
    · exact (hc.lookup_eq_some.mp hlookup).1
    · exact h

lemma Consistent.setByHash (hc : c.Consistent) (hash : κ) (decision : Decision) :
    (c.setByHash hash decision).Consistent := by
  unfold DecisionCache.setByHash
  split
  · exact hc
  · cases h : c.entries.lookup hash with
    | some id =>
      obtain ⟨e, he, hhash, hid⟩ := (hc.points hash id).mp h
      exact ⟨hc.toLinked.toFront he hid.symm hhash.symm _,
        (length_toFront_le he hid.symm).trans hc.bounded⟩
    | none =>
      exact (hc.toLinked.pushFront h _).evict (Nat.succ_le_succ hc.bounded)

lemma mem_setByHash {decision : Decision} (h : e ∈ (c.setByHash hash decision).lru) :
    (e.hash = hash ∧ e.decision = cloneDecision decision) ∨ e ∈ c.lru := by
  unfold DecisionCache.setByHash at h
  split at h
  · exact Or.inr h
  · split at h
    · obtain rfl | ⟨h, -⟩ := mem_toFront.mp h
      · exact Or.inl ⟨rfl, rfl⟩
      · exact Or.inr h
    · obtain rfl | h := List.mem_cons.mp (mem_evict h)
      · exact Or.inl ⟨rfl, rfl⟩
      · exact Or.inr h

end DecisionCache

end Symkernel.Solver
