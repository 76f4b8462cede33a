import Symkernel.Cache.Invariant

/-!
# Least recently used

The cache is followed together with a record of the latest use of every key: its `Set` or its
latest hit.
-/

namespace Symkernel.ResultCache

open Library List

variable {V : Type}

namespace Cache

/-! ### The first loop, from any state -/

variable {c c' : Cache V}

lemma size_removeEntryLocked {k : CacheKey} (hk : k ∈ c.entries) :
    (c.removeEntryLocked k).size + 1 = c.size := by
  have hkeys : (c.removeEntryLocked k).entries.keys = c.entries.keys.erase k := by
    ext x
    rw [Finmap.mem_keys, mem_removeEntryLocked, Finset.mem_erase, Finmap.mem_keys]
  rw [size, hkeys]
  exact Finset.card_erase_add_one (Finmap.mem_keys.mpr hk)

variable {now : Int} {buf fresh fresh' : List CacheKey}

/-- The loop leaves everything as it is, or it meets an expired key and removes an entry. -/
lemma evictPass_outcome {n j : Nat} (h : evictPass now n j c buf fresh = some (c', fresh')) :
    (c' = c ∧ fresh' = fresh ++ (buf.drop j).take n ∧
      ∀ k ∈ (buf.drop j).take n, k ∈ c.entries ∧ c.expiredAt now k = false) ∨
    (c'.size < c.size ∧ ∃ k ∈ (buf.drop j).take n, c.expiredAt now k = true) := by
  induction n generalizing j c buf fresh with
  | zero =>
    cases h
    exact Or.inl ⟨rfl, by simp, by simp⟩
  | succ n ih =>
    rw [evictPass] at h
    split at h
    · cases h
    · rename_i key hget
      obtain ⟨hlt, hkey⟩ := List.getElem?_eq_some_iff.mp hget
      have hread : (buf.drop j).take (n + 1) = key :: (buf.drop (j + 1)).take n := by
        rw [drop_eq_getElem_cons hlt, take_succ_cons, hkey]
      rw [hread]
      split at h
      · cases h
      · rename_i entry he
        have hmem := Finmap.mem_of_lookup_eq_some he
        split at h
        · rename_i hlate
          refine Or.inr ⟨?_, key, mem_cons_self, by simp [expiredAt, he, hlate]⟩
          have hsmaller := size_removeEntryLocked hmem
          have hsame : (c.removeEntryLocked key).countEvict.size =
            (c.removeEntryLocked key).size := rfl
          obtain ⟨rfl, -, -⟩ | ⟨hless, -⟩ := ih h
          · omega
          · omega
        · rename_i hlate
          have hfresh : c.expiredAt now key = false := by simp [expiredAt, he, hlate]
          obtain ⟨rfl, hfresh', hall⟩ | ⟨hless, k, hk, hexp⟩ := ih h
          · refine Or.inl ⟨rfl, by rw [hfresh']; simp, ?_⟩
            intro k hk
            obtain rfl | hk := List.mem_cons.mp hk
            · exact ⟨hmem, hfresh⟩
            · exact hall k hk
          · exact Or.inr ⟨hless, k, mem_cons_of_mem key hk, hexp⟩

lemma evictPass_lookup {n j : Nat} (h : evictPass now n j c buf fresh = some (c', fresh'))
    (x : CacheKey) : c'.entries.lookup x = c.entries.lookup x ∨
      (c'.entries.lookup x = none ∧ c.expiredAt now x = true) := by
  induction n generalizing j c buf fresh with
  | zero =>
    cases h
    exact Or.inl rfl
  | succ n ih =>
    rw [evictPass] at h
    split at h
    · cases h
    · rename_i key hget
      split at h
      · cases h
      · rename_i entry he
        split at h
        · rename_i hlate
          by_cases hx : x = key
          · subst hx
            refine Or.inr ⟨?_, by simp [expiredAt, he, hlate]⟩
            have hgone : (c.removeEntryLocked x).countEvict.entries.lookup x = none :=
              Finmap.lookup_eq_none.mpr fun hin => (mem_removeEntryLocked.mp hin).1 rfl
            obtain hsame | ⟨hnone, -⟩ := ih h
            · rw [hsame, hgone]
            · exact hnone
          · have hkept : (c.removeEntryLocked key).countEvict.entries.lookup x =
                c.entries.lookup x := lookup_removeEntryLocked hx
            have hexp := expiredAt_removeEntryLocked c now hx
            rw [← hkept, ← hexp]
            exact ih h
        · exact ih h

lemma evictExpired_outcome (h : c.evictExpired now = some c') :
    (c' = c ∧ ∀ k ∈ c.accessOrder, k ∈ c.entries ∧ c.expiredAt now k = false) ∨
    (c'.size < c.size ∧ ∃ k ∈ c.accessOrder, c.expiredAt now k = true) := by
  obtain ⟨⟨c₁, fresh⟩, hpass, hc'⟩ := Option.bind_eq_some_iff.mp h
  cases hc'
  have hread := evictPass_outcome hpass
  rw [drop_zero, take_length] at hread
  obtain ⟨rfl, rfl, hall⟩ | hless := hread
  · exact Or.inl ⟨rfl, hall⟩
  · exact Or.inr hless

lemma evictExpired_lookup (h : c.evictExpired now = some c') (x : CacheKey) :
    c'.entries.lookup x = c.entries.lookup x ∨
      (c'.entries.lookup x = none ∧ c.expiredAt now x = true) := by
  obtain ⟨⟨c₁, fresh⟩, hpass, hc'⟩ := Option.bind_eq_some_iff.mp h
  cases hc'
  exact evictPass_lookup hpass x

/-! ### What `Set` should remove, and when it does -/

def unexpired (c : Cache V) (now : Int) : Finset CacheKey :=
  c.entries.keys.filter fun k => c.expiredAt now k = false

lemma mem_unexpired {k : CacheKey} :
    k ∈ c.unexpired now ↔ k ∈ c.entries ∧ c.expiredAt now k = false := by
  rw [unexpired, Finset.mem_filter, Finmap.mem_keys]

/-- `c'` is what a least-recently-used cache makes of `inserted`, the state before eviction: the new
entry can be read until it expires, and the unexpired entries that are gone were used before all
that stay and are as many as have to go. -/
structure Lru (inserted c' : Cache V) (uses : CacheKey → Nat) (key : CacheKey) (value : V)
    (expires evict : Int) : Prop where
  returned : ∀ check access, evict ≤ check → check ≤ expires →
    (c'.getByKey key check access).2 = some value
  oldest : ∀ x ∈ inserted.unexpired evict, x ∉ c'.entries → ∀ y ∈ c'.unexpired evict,
    uses x < uses y
  enough : (inserted.unexpired evict \ c'.entries.keys).card =
    (inserted.unexpired evict).card - inserted.capacity

structure Overflows (c : Cache V) (key : CacheKey) (ttlOverride : List Int) (created evict : Int) :
    Prop where
  new : key ∉ c.entries
  full : c.size = c.capacity
  listed : ∀ k ∈ c.accessOrder, c.expiredAt evict k = false
  alive : evict ≤ created + c.effectiveTTL ttlOverride

/-- The first loop returns; and if the cache overflows, no resident key has expired and the access
order begins with the resident key that was used least recently. -/
structure EvictsOldest (c : Cache V) (uses : CacheKey → Nat) (key : CacheKey) (value : V)
    (tags : List String) (ttlOverride : List Int) (created access evict : Int) : Prop where
  sweeps : ((c.insertEntry key value tags ttlOverride created access).evictExpired evict).isSome
  oldest : c.Overflows key ttlOverride created evict →
    ∃ h ∈ c.entries, c.accessOrder.head? = some h ∧
      ∀ x ∈ c.entries, c.expiredAt evict x = false ∧ (x ≠ h → uses h < uses x)

section Set

variable {c : Cache V} {key : CacheKey} {value : V} {tags : List String} {ttlOverride : List Int}
  {created access evict : Int}

variable (c key value tags ttlOverride created access) in
lemma insertEntry_lookup_self : (c.insertEntry key value tags ttlOverride created access).entries.lookup
    key = some ⟨value, tags, created + c.effectiveTTL ttlOverride, access⟩ := by
  simp only [insertEntry, Finmap.lookup_insert]

lemma insertEntry_keys : (c.insertEntry key value tags ttlOverride created access).entries.keys =
      insert key c.entries.keys := by
  ext x
  rw [Finmap.mem_keys, mem_insertEntry, Finset.mem_insert, Finmap.mem_keys]

lemma size_insertEntry_of_mem (h : key ∈ c.entries) :
    (c.insertEntry key value tags ttlOverride created access).size = c.size := by
  rw [size, insertEntry_keys, Finset.insert_eq_of_mem (Finmap.mem_keys.mpr h), size]

lemma size_insertEntry_of_notMem (h : key ∉ c.entries) :
    (c.insertEntry key value tags ttlOverride created access).size = c.size + 1 := by
  rw [size, insertEntry_keys, Finset.card_insert_of_notMem (mt Finmap.mem_keys.mp h), size]

lemma insertEntry_order_of_notMem (h : key ∉ c.entries) :
    (c.insertEntry key value tags ttlOverride created access).accessOrder =
      c.accessOrder ++ [key] := by
  simp only [insertEntry, removeEntryLocked_of_notMem h]

lemma getByKey_of_lookup {entry : CacheEntry V} (h : c.entries.lookup key = some entry)
    {check : Int} (hcheck : check ≤ entry.expiresAt) (access : Int) :
    (c.getByKey key check access).2 = some entry.value := by
  simp only [getByKey, h, if_neg (Int.not_lt.mpr hcheck)]

lemma lru_of_sweep {c₁ : Cache V} {uses : CacheKey → Nat}
    (hsweep : (c.insertEntry key value tags ttlOverride created access).evictExpired evict = some c₁)
    (hroom : c₁.size ≤ (c.insertEntry key value tags ttlOverride created access).capacity) :
    Lru (c.insertEntry key value tags ttlOverride created access) c₁ uses key value
      (created + c.effectiveTTL ttlOverride) evict := by
  have hstays : ∀ x ∈ (c.insertEntry key value tags ttlOverride created access).unexpired evict,
      c₁.entries.lookup x =
        (c.insertEntry key value tags ttlOverride created access).entries.lookup x := by
    intro x hx
    obtain hsame | ⟨-, hexp⟩ := evictExpired_lookup hsweep x
    · exact hsame
    · rw [(mem_unexpired.mp hx).2] at hexp
      cases hexp
  have hsub : ∀ x ∈ (c.insertEntry key value tags ttlOverride created access).unexpired evict,
      x ∈ c₁.entries := by
    intro x hx
    obtain ⟨entry, he⟩ := Finmap.mem_iff.mp (mem_unexpired.mp hx).1
    exact Finmap.mem_of_lookup_eq_some ((hstays x hx).trans he)
  refine ⟨?_, fun x hx hgone => absurd (hsub x hx) hgone, ?_⟩
  · intro check access' hle hcheck
    have hentry : c₁.entries.lookup key =
        some ⟨value, tags, created + c.effectiveTTL ttlOverride, access⟩ := by
      rw [hstays key, insertEntry_lookup_self]
      refine mem_unexpired.mpr ⟨mem_insertEntry.mpr (Or.inl rfl), ?_⟩
      rw [expiredAt_insertEntry_self, decide_eq_false_iff_not]
      omega
    exact getByKey_of_lookup hentry hcheck access'
  · have hkeys : (c.insertEntry key value tags ttlOverride created access).unexpired evict ⊆
        c₁.entries.keys := fun x hx => Finmap.mem_keys.mpr (hsub x hx)
    have hcard := Finset.card_le_card hkeys
    rw [Finset.sdiff_eq_empty_iff_subset.mpr hkeys, Finset.card_empty]
    have hsize : c₁.entries.keys.card = c₁.size := rfl
    omega

end Set

lemma evictOldest_once {h y : CacheKey} {rest : List CacheKey} (hsize : c.size = c.capacity + 1)
    (horder : c.accessOrder = h :: y :: rest) (hh : h ∈ c.entries) :
    evictOldest c.accessOrder.length c =
      some { c.removeEntryLocked h with accessOrder := rest }.countEvict := by
  have hremove : (c.removeEntryLocked h).accessOrder = y :: rest := by
    rw [(removeEntryLocked_of_mem hh).2, horder, erase_cons_head]
  rw [horder, length_cons, evictOldest, if_pos (by omega), horder]
  simp only [hremove]
  apply evictOldest_of_le
  have hsmaller := size_removeEntryLocked hh
  show (c.removeEntryLocked h).size ≤ (c.removeEntryLocked h).capacity
  rw [removeEntryLocked_capacity]
  omega

lemma evictOldest_single {h : CacheKey} (hsize : c.size = c.capacity + 1)
    (horder : c.accessOrder = [h]) (hh : h ∈ c.entries) :
    evictOldest c.accessOrder.length c = none := by
  have hremove : (c.removeEntryLocked h).accessOrder = [] := by
    rw [(removeEntryLocked_of_mem hh).2, horder, erase_cons_head]
  rw [horder, length_singleton, evictOldest, if_pos (by omega), horder]
  simp only [hremove]

lemma evictExpired_capacity (h : c.evictExpired now = some c') : c'.capacity = c.capacity := by
  obtain ⟨⟨c₁, fresh⟩, hpass, hc'⟩ := Option.bind_eq_some_iff.mp h
  cases hc'
  have hcap : c₁.capacity = c.capacity := evictPass_capacity hpass
  exact hcap

/-- What eviction does to a cache with at most one entry too many: the first loop panics, or it
leaves enough room, or it finds nothing to remove and the head of the order is removed. -/
lemma evictLocked_cases {front : List CacheKey} {key : CacheKey} (now : Int)
    (hsize : c.size ≤ c.capacity + 1) (horder : c.accessOrder = front ++ [key]) :
    (c.evictExpired now = none ∧ c.evictLocked now = none) ∨
    (∃ c', c.evictExpired now = some c' ∧ c.evictLocked now = some c' ∧ c'.size ≤ c.capacity ∧
      (c.size ≤ c.capacity ∨ ∃ k ∈ front ++ [key], c.expiredAt now k = true)) ∨
    (c.evictExpired now = some c ∧ c.size = c.capacity + 1 ∧
      (∀ k ∈ front ++ [key], k ∈ c.unexpired now) ∧
      ((front = [] ∧ c.evictLocked now = none) ∨
        ∃ h rest c', front = h :: rest ∧ c.evictLocked now = some c' ∧
          c'.entries = c.entries.erase h ∧ c'.size = c.capacity)) := by
  cases hsweep : c.evictExpired now with
  | none => exact Or.inl ⟨rfl, by simp [evictLocked, hsweep]⟩
  | some c₁ =>
    have hevict : c.evictLocked now = evictOldest c₁.accessOrder.length c₁ := by
      simp [evictLocked, hsweep]
    have hcap := evictExpired_capacity hsweep
    have hroom : c₁.size ≤ c.capacity → c.evictLocked now = some c₁ := fun hle => by
      rw [hevict, evictOldest_of_le (hcap ▸ hle)]
    obtain ⟨rfl, hall⟩ | ⟨hless, k, hk, hexp⟩ := evictExpired_outcome hsweep
    · rw [horder] at hall
      by_cases hle : c₁.size ≤ c₁.capacity
      · exact Or.inr (Or.inl ⟨c₁, rfl, hroom hle, hle, Or.inl hle⟩)
      · have hover : c₁.size = c₁.capacity + 1 := by omega
        refine Or.inr (Or.inr ⟨rfl, hover, fun k hk => mem_unexpired.mpr (hall k hk), ?_⟩)
        cases front with
        | nil =>
          refine Or.inl ⟨rfl, ?_⟩
          rw [hevict, evictOldest_single hover horder (hall key mem_cons_self).1]
        | cons h rest =>
          have hh := (hall h mem_cons_self).1
          obtain ⟨y, tail, htail⟩ : ∃ y tail, rest ++ [key] = y :: tail :=
            exists_cons_of_ne_nil (by simp)
          rw [cons_append, htail] at horder
          refine Or.inr ⟨h, rest, _, rfl, hevict.trans (evictOldest_once hover horder hh),
            (removeEntryLocked_of_mem hh).1, ?_⟩
          have hsmaller := size_removeEntryLocked hh
          show (c₁.removeEntryLocked h).size = c₁.capacity
          omega
    · have hle : c₁.size ≤ c.capacity := by omega
      exact Or.inr (Or.inl ⟨c₁, rfl, hroom hle, hle, Or.inr ⟨k, horder ▸ hk, hexp⟩⟩)

section Erase

/-! ### Removing one entry of an overfull cache -/

variable {inserted c' : Cache V} {uses : CacheKey → Nat} {h key : CacheKey}
  {entry : CacheEntry V} {evict : Int} (hsize : inserted.size = inserted.capacity + 1)
  (hh : h ∈ inserted.unexpired evict) (hentries : c'.entries = inserted.entries.erase h)

include hentries

lemma unexpired_erase (x : CacheKey) :
    x ∈ c'.unexpired evict ↔ x ≠ h ∧ x ∈ inserted.unexpired evict := by
  rw [mem_unexpired, mem_unexpired, hentries, Finmap.mem_erase, and_assoc]
  refine and_congr_right fun hx => ?_
  simp only [expiredAt, hentries, Finmap.lookup_erase_ne hx]

include hh

lemma unexpired_gone : inserted.unexpired evict \ c'.entries.keys = {h} := by
  ext x
  rw [Finset.mem_sdiff, Finmap.mem_keys, hentries, Finmap.mem_erase, Finset.mem_singleton]
  constructor
  · rintro ⟨hx, hout⟩
    by_contra hne
    exact hout ⟨hne, (mem_unexpired.mp hx).1⟩
  · rintro rfl
    exact ⟨hh, fun hin => hin.1 rfl⟩

include hsize

lemma Lru.of_erase {value : V} {expiresAt : Int}
    (hlru : Lru inserted c' uses key value expiresAt evict) (x : CacheKey) (hx : x ∈ inserted.entries) :
    inserted.expiredAt evict x = false ∧ (x ≠ h → uses h < uses x) := by
  have henough := hlru.enough
  rw [unexpired_gone hh hentries, Finset.card_singleton] at henough
  have hkeys : inserted.entries.keys.card = inserted.size := rfl
  have hall : inserted.unexpired evict = inserted.entries.keys :=
    Finset.eq_of_subset_of_card_le (Finset.filter_subset ..) (by omega)
  have hx' : x ∈ inserted.unexpired evict := hall ▸ Finmap.mem_keys.mpr hx
  refine ⟨(mem_unexpired.mp hx').2, fun hxh => ?_⟩
  refine hlru.oldest h hh ?_ x ((unexpired_erase hentries x).mpr ⟨hxh, hx'⟩)
  rw [hentries, Finmap.mem_erase]
  exact fun hin => hin.1 rfl

lemma lru_erase (hkey : inserted.entries.lookup key = some entry) (hne : h ≠ key)
    (hall : ∀ x ∈ inserted.entries,
      inserted.expiredAt evict x = false ∧ (x ≠ h → uses h < uses x)) :
    Lru inserted c' uses key entry.value entry.expiresAt evict := by
  refine ⟨?_, ?_, ?_⟩
  · intro check access _ hcheck
    refine getByKey_of_lookup ?_ hcheck access
    rw [hentries, Finmap.lookup_erase_ne hne.symm, hkey]
  · intro x hx hout y hy
    have hxh : x = h := by
      by_contra hxh
      rw [hentries, Finmap.mem_erase] at hout
      exact hout ⟨hxh, (mem_unexpired.mp hx).1⟩
    obtain ⟨hyh, hy'⟩ := (unexpired_erase hentries y).mp hy
    rw [hxh]
    exact (hall y (mem_unexpired.mp hy').1).2 hyh
  · have hfull : inserted.unexpired evict = inserted.entries.keys :=
      Finset.filter_true_of_mem fun x hx => (hall x (Finmap.mem_keys.mp hx)).1
    have hkeys : inserted.entries.keys.card = inserted.size := rfl
    rw [unexpired_gone hh hentries, Finset.card_singleton, hfull]
    omega

end Erase

section Set

variable {c : Cache V} {key : CacheKey} {value : V} {tags : List String} {ttlOverride : List Int}
  {created access evict : Int}

variable (key value tags ttlOverride created access) in
lemma size_insertEntry_le (hbound : c.size ≤ c.capacity) :
    (c.insertEntry key value tags ttlOverride created access).size ≤
      (c.insertEntry key value tags ttlOverride created access).capacity + 1 := by
  rw [insertEntry_capacity]
  by_cases hkey : key ∈ c.entries
  · rw [size_insertEntry_of_mem hkey]
    omega
  · rw [size_insertEntry_of_notMem hkey]
    omega

lemma set_bounded (hbound : c.size ≤ c.capacity) {c' : Cache V}
    (h : c.set key value tags ttlOverride created access evict = some c') :
    c'.size ≤ c'.capacity := by
  rw [set_capacity h, ← insertEntry_capacity key value tags ttlOverride created access]
  have hsize := size_insertEntry_le key value tags ttlOverride created access hbound
  obtain ⟨-, hnone⟩ | ⟨c₁, -, hsome, hle, -⟩ | ⟨-, -, -, ⟨-, hnone⟩ | ⟨_, _, c₁, -, hsome, -, heq⟩⟩ :=
    evictLocked_cases evict hsize rfl
  · rw [set, hnone] at h
    cases h
  · rw [set, hsome] at h
    cases h
    exact hle
  · rw [set, hnone] at h
    cases h
  · rw [set, hsome] at h
    cases h
    exact Nat.le_of_eq heq

lemma overflows_of_insertEntry (hbound : c.size ≤ c.capacity)
    (hsize : (c.insertEntry key value tags ttlOverride created access).size =
      (c.insertEntry key value tags ttlOverride created access).capacity + 1)
    (hlisted : ∀ k ∈ (c.insertEntry key value tags ttlOverride created access).accessOrder,
      k ∈ (c.insertEntry key value tags ttlOverride created access).unexpired evict) :
    c.Overflows key ttlOverride created evict := by
  rw [insertEntry_capacity] at hsize
  have hnew : key ∉ c.entries := by
    intro hkey
    rw [size_insertEntry_of_mem hkey] at hsize
    omega
  rw [size_insertEntry_of_notMem hnew] at hsize
  rw [insertEntry_order_of_notMem hnew] at hlisted
  refine ⟨hnew, by omega, ?_, ?_⟩
  · intro k hk
    by_cases hkk : k = key
    · simp [expiredAt, Finmap.lookup_eq_none.mpr (hkk ▸ hnew)]
    · rw [← expiredAt_insertEntry_of_ne key value tags ttlOverride created access evict hkk]
      exact (mem_unexpired.mp (hlisted k (mem_append_left [key] hk))).2
  · have hself := (mem_unexpired.mp (hlisted key (mem_append_right _ mem_cons_self))).2
    rw [expiredAt_insertEntry_self, decide_eq_false_iff_not] at hself
    omega

lemma Overflows.unexpired (h : c.Overflows key ttlOverride created evict) :
    ∀ k ∈ (c.insertEntry key value tags ttlOverride created access).accessOrder,
      (c.insertEntry key value tags ttlOverride created access).expiredAt evict k = false := by
  intro k hk
  by_cases hkk : k = key
  · rw [hkk, expiredAt_insertEntry_self, decide_eq_false_iff_not]
    exact Int.not_lt.mpr h.alive
  · rw [insertEntry_order_of_notMem h.new, mem_append, mem_singleton, or_iff_left hkk] at hk
    rw [expiredAt_insertEntry_of_ne key value tags ttlOverride created access evict hkk]
    exact h.listed k hk

/-- One `Set`, from a state within the capacity: `now` is later than every use before. -/
lemma set_lru_iff (hbound : c.size ≤ c.capacity) (hcap : 1 ≤ c.capacity) {uses : CacheKey → Nat}
    {now : Nat} (huses : ∀ x, uses x < now) :
    (∃ c', c.set key value tags ttlOverride created access evict = some c' ∧
      Lru (c.insertEntry key value tags ttlOverride created access) c'
        (Function.update uses key now) key value (created + c.effectiveTTL ttlOverride) evict) ↔
      c.EvictsOldest uses key value tags ttlOverride created access evict := by
  have hcases := evictLocked_cases evict
    (size_insertEntry_le key value tags ttlOverride created access hbound) rfl
  obtain ⟨hsweep, hnone⟩ | ⟨c₁, hsweep, hsome, hroom, hwhy⟩ | ⟨hsweep, hsize, hlisted, hout⟩ := hcases
  · constructor
    · rintro ⟨c', hset, -⟩
      rw [set, hnone] at hset
      cases hset
    · rintro ⟨hreturns, -⟩
      rw [hsweep] at hreturns
      cases hreturns
  · refine iff_of_true ⟨c₁, hsome, lru_of_sweep hsweep hroom⟩ ⟨by rw [hsweep]; rfl, fun hover => ?_⟩
    exfalso
    obtain hle | ⟨k, hk, hexp⟩ := hwhy
    · rw [size_insertEntry_of_notMem hover.new, insertEntry_capacity, hover.full] at hle
      omega
    · rw [hover.unexpired k hk] at hexp
      cases hexp
  · have hover := overflows_of_insertEntry hbound hsize hlisted
    have hfront : (c.removeEntryLocked key).accessOrder = c.accessOrder := by
      rw [removeEntryLocked_of_notMem hover.new]
    have hne : ∀ x ∈ c.entries, x ≠ key := fun x hx hxk => hover.new (hxk ▸ hx)
    have hlate : ∀ x ∈ c.entries, Function.update uses key now x = uses x := fun x hx =>
      Function.update_of_ne (hne x hx) now uses
    rw [hfront] at hout hlisted
    obtain ⟨hnil, hnone⟩ | ⟨h, rest, c', hcons, hsome, hentries, -⟩ := hout
    · constructor
      · rintro ⟨c', hset, -⟩
        rw [set, hnone] at hset
        cases hset
      · rintro ⟨-, holdest⟩
        obtain ⟨h, -, hhead, -⟩ := holdest hover
        rw [hnil] at hhead
        cases hhead
    · have hh := hlisted h (by rw [hcons]; exact mem_cons_self)
      have hself := insertEntry_lookup_self c key value tags ttlOverride created access
      constructor
      · rintro ⟨c'', hset, hlru⟩
        rw [set, hsome] at hset
        cases hset
        have hall := Lru.of_erase hsize hh hentries hlru
        -- some resident was used before the new key, so that is not the one removed
        have hhk : h ≠ key := by
          rintro rfl
          obtain ⟨x, hx⟩ := Finset.card_pos.mp (show 0 < c.size by rw [hover.full]; omega)
          have hx' := Finmap.mem_keys.mp hx
          have hlt := (hall x (mem_insertEntry.mpr (Or.inr hx'))).2 (hne x hx')
          rw [Function.update_self, hlate x hx'] at hlt
          exact absurd hlt (Nat.not_lt.mpr (Nat.le_of_lt (huses x)))
        have hres : h ∈ c.entries := (mem_insertEntry.mp (mem_unexpired.mp hh).1).resolve_left hhk
        refine ⟨by rw [hsweep]; rfl, fun _ => ⟨h, hres, by rw [hcons]; rfl, fun x hx => ?_⟩⟩
        obtain ⟨hexp, hlt⟩ := hall x (mem_insertEntry.mpr (Or.inr hx))
        rw [expiredAt_insertEntry_of_ne key value tags ttlOverride created access evict
          (hne x hx)] at hexp
        rw [hlate h hres, hlate x hx] at hlt
        exact ⟨hexp, hlt⟩
      · rintro ⟨-, holdest⟩
        obtain ⟨h', hres, hhead, hall⟩ := holdest hover
        rw [hcons] at hhead
        cases hhead
        refine ⟨c', hsome, lru_erase hsize hh hentries hself (hne h hres) fun x hx => ?_⟩
        obtain rfl | hx := mem_insertEntry.mp hx
        · refine ⟨hover.unexpired x (by rw [insertEntry_order_of_notMem hover.new]; simp), fun _ => ?_⟩
          rw [Function.update_self, hlate h hres]
          exact huses h
        · rw [expiredAt_insertEntry_of_ne key value tags ttlOverride created access evict
            (hne x hx), hlate h hres, hlate x hx]
          exact hall x hx

end Set

end Cache

/-! ### Runs -/

/-- A cache, the number of calls so far, and for every key the number of the call that used it last:
its `Set` or its latest hit. -/
structure Tracked (V : Type) where
  cache : Option (Cache V)
  uses : CacheKey → Nat
  calls : Nat

section Runs

variable {Ctx : Type} (hashExpr : String → String) (hashContext : Ctx → Option String)

def Cache.hit (c : Cache V) (key : CacheKey) (check access : Int) : Option CacheKey :=
  if (c.getByKey key check access).2.isSome then some key else none

def usedKey (c : Cache V) : Call V Ctx → Option CacheKey
  | .set key .. => some key
  | .get expr ctx check access =>
    (hashContext ctx).bind fun contextHash => c.hit ⟨hashExpr expr, contextHash⟩ check access
  | .getByKey key check access => c.hit key check access
  | .invalidateByTag .. => none
  | .invalidateAll => none

def track (t : Tracked V) (call : Call V Ctx) : Tracked V where
  cache := step hashExpr hashContext t.cache call
  uses := match t.cache.bind (usedKey hashExpr hashContext · call) with
    | none => t.uses
    | some key => Function.update t.uses key t.calls
  calls := t.calls + 1

def LruCall (t : Tracked V) : Call V Ctx → Prop
  | .set key value tags ttlOverride created access evict => ∀ c, t.cache = some c →
    ∃ c', c.set key value tags ttlOverride created access evict = some c' ∧
      Cache.Lru (c.insertEntry key value tags ttlOverride created access) c'
        (Function.update t.uses key t.calls) key value (created + c.effectiveTTL ttlOverride) evict
  | _ => True

def EvictsOldestCall (t : Tracked V) : Call V Ctx → Prop
  | .set key value tags ttlOverride created access evict => ∀ c, t.cache = some c →
    c.EvictsOldest t.uses key value tags ttlOverride created access evict
  | _ => True

structure Tracked.Bounded (t : Tracked V) : Prop where
  size : ∀ c, t.cache = some c → c.size ≤ c.capacity ∧ 1 ≤ c.capacity
  uses : ∀ x, t.uses x < t.calls

variable {c c' : Cache V}

lemma Cache.size_le_of_subset (h : ∀ x ∈ c'.entries, x ∈ c.entries) : c'.size ≤ c.size :=
  Finset.card_le_card fun x hx => Finmap.mem_keys.mpr (h x (Finmap.mem_keys.mp hx))

lemma Cache.getByKey_entries {key : CacheKey} {check access : Int} :
    ∀ x ∈ (c.getByKey key check access).1.entries, x ∈ c.entries := by
  intro x hx
  unfold getByKey at hx
  split at hx
  · exact hx
  · rename_i entry he
    split at hx
    · exact (mem_removeEntryLocked.mp hx).2
    · obtain rfl | hx := Finmap.mem_insert.mp hx
      · exact Finmap.mem_of_lookup_eq_some he
      · exact hx

lemma Cache.foldl_removeEntryLocked_entries {order : List CacheKey} :
    ∀ x ∈ (order.foldl removeEntryLocked c).entries, x ∈ c.entries := by
  induction order generalizing c with
  | nil => exact fun x hx => hx
  | cons k order ih => exact fun x hx => (mem_removeEntryLocked.mp (ih x hx)).2

variable {hashExpr hashContext}

lemma apply_bounded (hbound : c.size ≤ c.capacity ∧ 1 ≤ c.capacity) {call : Call V Ctx}
    (h : apply hashExpr hashContext c call = some c') :
    c'.size ≤ c'.capacity ∧ 1 ≤ c'.capacity := by
  have hget : ∀ key check access, (c.getByKey key check access).1.size ≤
      (c.getByKey key check access).1.capacity ∧
      1 ≤ (c.getByKey key check access).1.capacity := by
    intro key check access
    have hcap : (c.getByKey key check access).1.capacity = c.capacity := by
      unfold Cache.getByKey
      split
      · rfl
      · split
        · exact Cache.removeEntryLocked_capacity c key
        · rfl
    rw [hcap]
    exact ⟨(Cache.size_le_of_subset Cache.getByKey_entries).trans hbound.1, hbound.2⟩
  have htag : ∀ tag order, (c.invalidateByTag tag order).1.size ≤
      (c.invalidateByTag tag order).1.capacity ∧
      1 ≤ (c.invalidateByTag tag order).1.capacity := by
    intro tag order
    have hcap : ∀ c : Cache V, (order.foldl Cache.removeEntryLocked c).capacity = c.capacity := by
      induction order with
      | nil => exact fun _ => rfl
      | cons k order ih => exact fun c => (ih _).trans (Cache.removeEntryLocked_capacity c k)
    unfold Cache.invalidateByTag
    split
    · exact hbound
    · simp only [hcap]
      exact ⟨(Cache.size_le_of_subset Cache.foldl_removeEntryLocked_entries).trans hbound.1,
        hbound.2⟩
  refine apply_keeps (P := fun c => c.size ≤ c.capacity ∧ 1 ≤ c.capacity) hbound ?_ hget htag
    ⟨Nat.zero_le _, hbound.2⟩ h
  intro key value tags ttlOverride created access evict hset
  exact ⟨Cache.set_bounded hbound.1 hset, (Cache.set_capacity hset).symm ▸ hbound.2⟩

lemma Tracked.Bounded.track {t : Tracked V} (h : t.Bounded) (call : Call V Ctx) :
    (track hashExpr hashContext t call).Bounded := by
  constructor
  · intro c' hc'
    obtain ⟨c, hc, happly⟩ := Option.bind_eq_some_iff.mp hc'
    exact apply_bounded (h.size c hc) happly
  · intro x
    have hx := h.uses x
    simp only [ResultCache.track]
    cases t.cache.bind fun c => usedKey hashExpr hashContext c call with
    | none => exact Nat.lt_succ_of_lt hx
    | some key =>
      show Function.update t.uses key t.calls x < t.calls + 1
      by_cases hkey : x = key
      · rw [hkey, Function.update_self]
        omega
      · rw [Function.update_of_ne hkey]
        omega

lemma Tracked.Bounded.lruCall_iff {t : Tracked V} (h : t.Bounded) (call : Call V Ctx) :
    LruCall t call ↔ EvictsOldestCall t call := by
  cases call with
  | set =>
    refine forall_congr' fun c => forall_congr' fun hc => ?_
    obtain ⟨hbound, hcap⟩ := h.size c hc
    exact Cache.set_lru_iff hbound hcap h.uses
  | get => exact Iff.rfl
  | getByKey => exact Iff.rfl
  | invalidateByTag => exact Iff.rfl
  | invalidateAll => exact Iff.rfl

def tracked (opts : List CacheOption) : Tracked V :=
  ⟨some (newCache opts), fun _ => 0, 1⟩

lemma tracked_bounded (opts : List CacheOption) : (tracked opts : Tracked V).Bounded := by
  constructor
  · intro c hc
    cases hc
    refine ⟨?_, (newCache_healthy opts).positive⟩
    rw [Cache.size, (newCache_empty opts).1]
    exact Nat.zero_le _
  · exact fun _ => Nat.zero_lt_one

variable (hashExpr hashContext)

end Runs

end Symkernel.ResultCache
