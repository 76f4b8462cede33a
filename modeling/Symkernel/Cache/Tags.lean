import Symkernel.Cache.Eviction

/-!
# The tag index of the result cache
-/

namespace Symkernel.ResultCache

open Library Finmap Option

variable {V : Type}

namespace Cache

abbrev TagIndex := Finmap (fun _ : String => Finset CacheKey)

def keysOf (index : TagIndex) (tag : String) : Finset CacheKey :=
  (index.lookup tag).getD ∅

def NoEmpty (index : TagIndex) : Prop :=
  ∀ tag, index.lookup tag ≠ some ∅

def Carries (c : Cache V) (key : CacheKey) (tag : String) : Prop :=
  ∃ entry, c.entries.lookup key = some entry ∧ tag ∈ entry.tags

/-- The index has, for every tag, exactly the keys of the resident entries with that tag. -/
structure TagsExact (c : Cache V) : Prop where
  mem_iff : ∀ tag key, key ∈ keysOf c.tagIndex tag ↔ c.Carries key tag
  noEmpty : NoEmpty c.tagIndex

lemma keysOf_insert (index : TagIndex) (tag t : String) (keys : Finset CacheKey) :
    keysOf (index.insert tag keys) t = if t = tag then keys else keysOf index t := by
  unfold keysOf
  split
  · rename_i heq
    rw [heq, lookup_insert, getD_some]
  · rename_i hne
    rw [lookup_insert_of_ne _ hne]

lemma keysOf_untag (key : CacheKey) (index : TagIndex) (tag t : String) :
    keysOf (untag key index tag) t =
      if t = tag then (keysOf index t).erase key else keysOf index t := by
  unfold untag
  simp only
  split
  · rename_i hempty
    by_cases ht : t = tag
    · subst ht
      rw [if_pos rfl, keysOf, keysOf, lookup_erase, hempty]
      rfl
    · rw [if_neg ht, keysOf, lookup_erase_ne ht, keysOf]
  · rw [keysOf_insert]
    by_cases ht : t = tag
    · subst ht
      rw [if_pos rfl, if_pos rfl, keysOf]
    · rw [if_neg ht, if_neg ht]

variable {index : TagIndex}

lemma NoEmpty.untag (h : NoEmpty index) (key : CacheKey) (tag : String) :
    NoEmpty (untag key index tag) := by
  intro t
  unfold Cache.untag
  simp only
  by_cases ht : t = tag
  · subst ht
    split
    · rw [lookup_erase]
      nofun
    · rename_i hne
      rw [lookup_insert]
      exact fun heq => hne (Option.some.inj heq)
  · split
    · rw [lookup_erase_ne ht]
      exact h t
    · rw [lookup_insert_of_ne _ ht]
      exact h t

lemma keysOf_addTag (key : CacheKey) (index : TagIndex) (tag t : String) :
    keysOf (addTag key index tag) t =
      if t = tag then insert key (keysOf index t) else keysOf index t := by
  rw [addTag, keysOf_insert]
  by_cases ht : t = tag
  · subst ht
    rw [if_pos rfl, if_pos rfl, keysOf]
  · rw [if_neg ht, if_neg ht]

lemma NoEmpty.addTag (h : NoEmpty index) (key : CacheKey) (tag : String) :
    NoEmpty (addTag key index tag) := by
  intro t
  unfold Cache.addTag
  by_cases ht : t = tag
  · subst ht
    rw [lookup_insert]
    exact fun heq => Finset.insert_ne_empty _ _ (Option.some.inj heq)
  · rw [lookup_insert_of_ne _ ht]
    exact h t

/-- The tags of an entry may repeat; the set of a tag changes once. -/
lemma keysOf_foldl_untag (key : CacheKey) (tags : List String) (index : TagIndex) (t : String) :
    keysOf (tags.foldl (untag key) index) t =
      if t ∈ tags then (keysOf index t).erase key else keysOf index t := by
  induction tags generalizing index with
  | nil => simp
  | cons tag tags ih =>
    rw [List.foldl_cons, ih, keysOf_untag]
    by_cases htag : t = tag
    · simp [htag]
    · simp [htag]

lemma keysOf_foldl_addTag (key : CacheKey) (tags : List String) (index : TagIndex) (t : String) :
    keysOf (tags.foldl (addTag key) index) t =
      if t ∈ tags then insert key (keysOf index t) else keysOf index t := by
  induction tags generalizing index with
  | nil => simp
  | cons tag tags ih =>
    rw [List.foldl_cons, ih, keysOf_addTag]
    by_cases htag : t = tag
    · simp [htag]
    · simp [htag]

lemma NoEmpty.foldl {f : TagIndex → String → TagIndex}
    (hf : ∀ index tag, NoEmpty index → NoEmpty (f index tag)) (tags : List String)
    (h : NoEmpty index) : NoEmpty (tags.foldl f index) := by
  induction tags generalizing index with
  | nil => exact h
  | cons tag tags ih => exact ih (hf index tag h)

variable {c c' : Cache V} {key : CacheKey}

lemma carries_removeEntryLocked {x : CacheKey} {tag : String} :
    (c.removeEntryLocked key).Carries x tag ↔ x ≠ key ∧ c.Carries x tag := by
  by_cases hx : x = key
  · subst hx
    refine iff_of_false ?_ (fun h => h.1 rfl)
    rintro ⟨entry, he, -⟩
    have hmem : x ∈ (c.removeEntryLocked x).entries := Finmap.mem_iff.mpr ⟨entry, he⟩
    exact (mem_removeEntryLocked.mp hmem).1 rfl
  · rw [Carries, lookup_removeEntryLocked hx]
    exact ⟨fun h => ⟨hx, h⟩, fun h => h.2⟩

section Exact

variable (h : c.TagsExact)
include h

lemma TagsExact.removeEntryLocked (key : CacheKey) : (c.removeEntryLocked key).TagsExact := by
  cases hentry : c.entries.lookup key with
  | none =>
    rw [removeEntryLocked_of_notMem (Finmap.lookup_eq_none.mp hentry)]
    exact h
  | some entry =>
    have hindex : (c.removeEntryLocked key).tagIndex = entry.tags.foldl (untag key) c.tagIndex := by
      simp only [Cache.removeEntryLocked, hentry]
    constructor
    · intro tag x
      rw [hindex, keysOf_foldl_untag, carries_removeEntryLocked]
      split
      · rw [Finset.mem_erase, h.mem_iff]
      · rename_i htag
        rw [h.mem_iff]
        refine ⟨fun hx => ⟨?_, hx⟩, fun hx => hx.2⟩
        rintro rfl
        obtain ⟨entry', he', htag'⟩ := hx
        rw [hentry] at he'
        cases he'
        exact htag htag'
    · rw [hindex]
      exact NoEmpty.foldl (fun _ tag hi => hi.untag key tag) entry.tags h.noEmpty

lemma TagsExact.congr (hentries : c'.entries = c.entries)
    (hindex : c'.tagIndex = c.tagIndex) : c'.TagsExact := by
  constructor
  · intro tag key
    rw [hindex, h.mem_iff, Carries, Carries, hentries]
  · rw [hindex]
    exact h.noEmpty

lemma TagsExact.insertEntry (key : CacheKey) (value : V) (tags : List String)
    (ttlOverride : List Int) (created access : Int) :
    (c.insertEntry key value tags ttlOverride created access).TagsExact := by
  have hr := h.removeEntryLocked key
  constructor
  · intro tag x
    simp only [Cache.insertEntry, keysOf_foldl_addTag, Carries]
    by_cases hx : x = key
    · subst hx
      have hout : x ∉ keysOf (c.removeEntryLocked x).tagIndex tag := fun hmem =>
        (carries_removeEntryLocked.mp ((hr.mem_iff tag x).mp hmem)).1 rfl
      by_cases htag : tag ∈ tags <;> simp [htag, hout]
    · have hsame := hr.mem_iff tag x
      rw [Carries] at hsame
      by_cases htag : tag ∈ tags <;> simp [htag, hx, hsame]
  · exact NoEmpty.foldl (fun _ tag hi => hi.addTag key tag) tags hr.noEmpty

lemma TagsExact.touch {entry : CacheEntry V}
    (hentry : c.entries.lookup key = some entry) (access : Int) :
    { c with entries := c.entries.insert key { entry with lastAccess := access } }.TagsExact := by
  constructor
  · intro tag x
    rw [h.mem_iff, Carries, Carries]
    by_cases hx : x = key
    · subst hx
      simp only [lookup_insert, hentry, Option.some.injEq, exists_eq_left']
    · simp only [lookup_insert_of_ne _ hx]
  · exact h.noEmpty

lemma TagsExact.evictPass {now : Int} {n j : Nat} {buf fresh fresh' : List CacheKey}
    (hpass : evictPass now n j c buf fresh = some (c', fresh')) : c'.TagsExact := by
  fun_induction Cache.evictPass now n j c buf fresh with
  | case1 =>
    cases hpass
    exact h
  | case2 => cases hpass
  | case3 => cases hpass
  | case4 _ _ c _ _ key _ _ _ _ _ ih =>
    exact ih ((h.removeEntryLocked key).congr rfl rfl) hpass
  | case5 _ _ _ _ _ _ _ _ _ _ ih => exact ih h hpass

lemma TagsExact.evictOldest {fuel : Nat} (hevict : evictOldest fuel c = some c') :
    c'.TagsExact := by
  fun_induction Cache.evictOldest fuel c with
  | case1 =>
    cases hevict
    exact h
  | case2 =>
    cases hevict
    exact h
  | case3 => cases hevict
  | case4 _ _ _ key _ _ _ _ _ _ ih =>
    exact ih ((h.removeEntryLocked key).congr rfl rfl) hevict
  | case5 =>
    cases hevict
    exact h

lemma TagsExact.set {value : V} {tags : List String} {ttlOverride : List Int}
    {created access evict : Int}
    (hset : c.set key value tags ttlOverride created access evict = some c') : c'.TagsExact := by
  obtain ⟨c₁, hfirst, hsecond⟩ := Option.bind_eq_some_iff.mp hset
  obtain ⟨⟨c₂, fresh⟩, hpass, hc₁⟩ := Option.bind_eq_some_iff.mp hfirst
  cases hc₁
  have hinsert := h.insertEntry key value tags ttlOverride created access
  have hfresh : { c₂ with accessOrder := fresh }.TagsExact := (hinsert.evictPass hpass).congr rfl rfl
  exact hfresh.evictOldest hsecond

lemma TagsExact.getByKey (key : CacheKey) (check access : Int) :
    (c.getByKey key check access).1.TagsExact := by
  unfold Cache.getByKey
  split
  · exact h.congr rfl rfl
  · rename_i entry hentry
    split
    · exact (h.removeEntryLocked key).congr rfl rfl
    · exact (h.touch hentry access).congr rfl rfl

lemma TagsExact.foldl_removeEntryLocked (order : List CacheKey) :
    (order.foldl Cache.removeEntryLocked c).TagsExact := by
  induction order generalizing c with
  | nil => exact h
  | cons key order ih => exact ih (h.removeEntryLocked key)

lemma TagsExact.invalidateByTag (tag : String) (order : List CacheKey) :
    (c.invalidateByTag tag order).1.TagsExact := by
  unfold Cache.invalidateByTag
  split
  · exact h
  · exact h.foldl_removeEntryLocked order

end Exact

lemma tagsExact_of_empty (hentries : c.entries = ∅) (hindex : c.tagIndex = ∅) : c.TagsExact := by
  constructor
  · intro tag key
    rw [hindex, Carries, hentries, keysOf]
    simp
  · intro tag
    rw [hindex]
    nofun

/-- `order` visits every key of the tag once. Deleting the key that is being visited does not
hide another one from a Go loop over the map. -/
def Visits (c : Cache V) (tag : String) (order : List CacheKey) : Prop :=
  order.Nodup ∧ ∀ key, key ∈ order ↔ key ∈ keysOf c.tagIndex tag

lemma lookup_foldl_removeEntryLocked (order : List CacheKey) (c : Cache V) (key : CacheKey) :
    (order.foldl Cache.removeEntryLocked c).entries.lookup key =
      if key ∈ order then none else c.entries.lookup key := by
  induction order generalizing c with
  | nil => simp
  | cons first order ih =>
    rw [List.foldl_cons, ih]
    by_cases hfirst : key = first
    · subst hfirst
      have hnone : (c.removeEntryLocked key).entries.lookup key = none :=
        Finmap.lookup_eq_none.mpr fun hmem => (mem_removeEntryLocked.mp hmem).1 rfl
      simp [hnone]
    · rw [lookup_removeEntryLocked hfirst]
      simp [hfirst]

def carriers (c : Cache V) (tag : String) : Finset CacheKey :=
  c.entries.keys.filter fun key => (c.entries.lookup key).any fun entry => tag ∈ entry.tags

lemma mem_carriers {tag : String} : key ∈ c.carriers tag ↔ c.Carries key tag := by
  rw [carriers, Finset.mem_filter, mem_keys, Carries]
  constructor
  · rintro ⟨-, hany⟩
    simpa [any_eq_true] using hany
  · rintro ⟨entry, hentry, htag⟩
    exact ⟨Finmap.mem_iff.mpr ⟨entry, hentry⟩, by simp [hentry, htag]⟩

/-- The index is the map from each tag to its resident keys, tags without keys left out. -/
lemma TagsExact.lookup_tagIndex (h : c.TagsExact) (tag : String) :
    c.tagIndex.lookup tag = if c.carriers tag = ∅ then none else some (c.carriers tag) := by
  have hkeys : keysOf c.tagIndex tag = c.carriers tag := by
    ext key
    rw [h.mem_iff, mem_carriers]
  rw [← hkeys, keysOf]
  cases htag : c.tagIndex.lookup tag with
  | none => simp
  | some keys =>
    have hne : keys ≠ ∅ := fun heq => h.noEmpty tag (heq ▸ htag)
    simp [hne]

lemma TagsExact.invalidateByTag_eq (h : c.TagsExact) {tag : String} {order : List CacheKey}
    (horder : c.Visits tag order) : (∀ key, (c.invalidateByTag tag order).1.entries.lookup key =
      if key ∈ c.carriers tag then none else c.entries.lookup key) ∧
    (c.invalidateByTag tag order).2 = (c.carriers tag).card := by
  have hmem : ∀ key, key ∈ order ↔ key ∈ c.carriers tag := by
    intro key
    rw [horder.2, h.mem_iff, mem_carriers]
  have hcard : (c.carriers tag).card = order.length := by
    rw [← List.toFinset_card_of_nodup horder.1]
    congr 1
    ext key
    rw [List.mem_toFinset, hmem]
  have hindex := h.lookup_tagIndex tag
  unfold Cache.invalidateByTag
  by_cases hempty : c.carriers tag = ∅
  · rw [hindex, if_pos hempty, hempty]
    simp
  · rw [hindex, if_neg hempty]
    refine ⟨fun key => ?_, hcard.symm⟩
    rw [lookup_foldl_removeEntryLocked]
    simp only [hmem]

end Cache

section Runs

variable {Ctx : Type} (hashExpr : String → String) (hashContext : Ctx → Option String)

lemma Cache.TagsExact.apply {c c' : Cache V} (h : c.TagsExact) {call : Call V Ctx}
    (happly : apply hashExpr hashContext c call = some c') : c'.TagsExact := by
  exact apply_keeps h (fun _ _ _ _ _ _ _ hset => h.set hset) h.getByKey h.invalidateByTag
    (Cache.tagsExact_of_empty rfl rfl) happly

lemma newCache_tagsExact (opts : List CacheOption) : (newCache opts : Cache V).TagsExact :=
  Cache.tagsExact_of_empty (newCache_empty opts).1 (newCache_empty opts).2

lemma runFrom_tagsExact {c c' : Cache V} (h : c.TagsExact) {calls : List (Call V Ctx)}
    (hrun : runFrom (step hashExpr hashContext) (some c) calls = some c') : c'.TagsExact := by
  induction calls generalizing c with
  | nil =>
    cases hrun
    exact h
  | cons call calls ih =>
    rw [runFrom_cons] at hrun
    cases hnext : apply hashExpr hashContext c call with
    | none =>
      have hstuck : ∀ calls, runFrom (step hashExpr hashContext) (none : Option (Cache V)) calls =
          none := by
        intro calls
        induction calls with
        | nil => rfl
        | cons call calls ih => exact ih
      rw [step, bind_some, hnext, hstuck] at hrun
      cases hrun
    | some c₁ =>
      rw [step, bind_some, hnext] at hrun
      exact ih (h.apply hashExpr hashContext hnext) hrun

/-- After every sequence of calls that has not panicked, the index has for each tag the keys of
the resident entries with the tag and no empty sets, and `InvalidateByTag` removes exactly the
entries with the tag and returns their number. -/
theorem tag_index_exact (opts : List CacheOption) (calls : List (Call V Ctx)) (c : Cache V)
    (hrun : runFrom (step hashExpr hashContext) (some (newCache opts)) calls = some c) :
    (∀ tag, c.tagIndex.lookup tag =
      if c.carriers tag = ∅ then none else some (c.carriers tag)) ∧
    ∀ tag order, c.Visits tag order → (∀ key, (c.invalidateByTag tag order).1.entries.lookup key =
        if key ∈ c.carriers tag then none else c.entries.lookup key) ∧
      (c.invalidateByTag tag order).2 = (c.carriers tag).card := by
  have h := runFrom_tagsExact hashExpr hashContext (newCache_tagsExact opts) hrun
  exact ⟨h.lookup_tagIndex, fun tag order horder => h.invalidateByTag_eq horder⟩

def retagged : List (Call Nat Unit) :=
  [.set ⟨"a", ""⟩ 1 ["t", "t"] [] 0 0 0, .set ⟨"b", ""⟩ 2 ["u", "t"] [] 0 0 0,
    .set ⟨"a", ""⟩ 3 ["u"] [] 0 0 0]

theorem tag_index_exact_retagged :
    ∃ c, runFrom (step id fun _ => none) (some (newCache [])) retagged = some c ∧
      c.tagIndex.lookup "t" = some {⟨"b", ""⟩} ∧
      (c.invalidateByTag "t" [⟨"b", ""⟩]).2 = (c.carriers "t").card := by
  have hkeys : (runFrom (step id fun _ => none) (some (newCache [])) retagged).map
      (fun c => c.tagIndex.lookup "t") = some (some {⟨"b", ""⟩}) := by decide
  cases hrun : runFrom (step id fun _ => none) (some (newCache [])) retagged with
  | none =>
    rw [hrun] at hkeys
    cases hkeys
  | some c =>
    rw [hrun, map_some, Option.some.injEq] at hkeys
    have hvisits : c.Visits "t" [⟨"b", ""⟩] := by
      refine ⟨by decide, fun key => ?_⟩
      rw [Cache.keysOf, hkeys, getD_some, Finset.mem_singleton, List.mem_singleton]
    exact ⟨c, rfl, hkeys, ((tag_index_exact id _ [] retagged c hrun).2 "t" _ hvisits).2⟩

end Runs

end Symkernel.ResultCache
