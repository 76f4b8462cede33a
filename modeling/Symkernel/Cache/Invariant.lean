import Symkernel.Cache.Eviction

/-!
# The representation invariant of the result cache
-/

namespace Symkernel.ResultCache

open Library List

variable {V : Type}

namespace Cache

/-- Before a `Set`: the other keys have not expired, the newest of them apart, and together
with the new entry the live ones are at most `capacity`. -/
structure SetFits (c : Cache V) (key : CacheKey) (ttlOverride : List Int) (created evict : Int) :
    Prop where
  unexpired : ∀ k ∈ (c.accessOrder.erase key).dropLast, c.expiredAt evict k = false
  room : ((c.accessOrder.erase key).filter (fun k => !c.expiredAt evict k)).length +
    (if created + c.effectiveTTL ttlOverride < evict then 0 else 1) ≤ c.capacity

structure Healthy (c : Cache V) : Prop where
  consistent : c.Consistent
  positive : 1 ≤ c.capacity

variable {c c' : Cache V}

lemma mem_insertEntry {key x : CacheKey} {value : V} {tags : List String} {ttlOverride : List Int}
    {created access : Int} : x ∈ (c.insertEntry key value tags ttlOverride created access).entries ↔
      x = key ∨ x ∈ c.entries := by
  simp only [insertEntry, Finmap.mem_insert, mem_removeEntryLocked]
  tauto

section Insert

variable {c : Cache V} (h : c.Consistent) (key : CacheKey) (value : V) (tags : List String)
  (ttlOverride : List Int) (created access : Int)

include h

lemma insertEntry_accessOrder :
    (c.insertEntry key value tags ttlOverride created access).accessOrder =
      c.accessOrder.erase key ++ [key] := by
  simp only [insertEntry, removeEntryLocked_accessOrder h]

omit h in
lemma insertEntry_capacity :
    (c.insertEntry key value tags ttlOverride created access).capacity = c.capacity := by
  simp only [insertEntry, removeEntryLocked_capacity]

lemma insertEntry_consistent :
    (c.insertEntry key value tags ttlOverride created access).Consistent := by
  have hout : key ∉ c.accessOrder.erase key := h.nodup.not_mem_erase
  constructor
  · rw [insertEntry_accessOrder h]
    refine List.nodup_append.mpr ⟨h.nodup.erase key, nodup_singleton key, ?_⟩
    rintro a ha b hb rfl
    rw [List.mem_singleton.mp hb] at ha
    exact hout ha
  · intro x
    rw [insertEntry_accessOrder h, mem_append, mem_singleton, h.nodup.mem_erase_iff,
      h.mem_iff, mem_insertEntry]
    tauto

omit h in
lemma expiredAt_insertEntry_of_ne (now : Int) {k : CacheKey} (hk : k ≠ key) :
    (c.insertEntry key value tags ttlOverride created access).expiredAt now k =
      c.expiredAt now k := by
  simp only [expiredAt, insertEntry, Finmap.lookup_insert_of_ne _ hk, lookup_removeEntryLocked hk]

omit h in
lemma expiredAt_insertEntry_self (now : Int) :
    (c.insertEntry key value tags ttlOverride created access).expiredAt now key =
      decide (created + c.effectiveTTL ttlOverride < now) := by
  simp only [expiredAt, insertEntry, Finmap.lookup_insert]

lemma fits_insertEntry_iff (evict : Int) :
    Fits (c.insertEntry key value tags ttlOverride created access) evict
        (c.accessOrder.erase key) key ↔ c.SetFits key ttlOverride created evict := by
  have hne : ∀ k ∈ c.accessOrder.erase key, k ≠ key := by
    rintro k hk rfl
    exact h.nodup.not_mem_erase hk
  have hsame : ∀ k ∈ c.accessOrder.erase key,
      (c.insertEntry key value tags ttlOverride created access).expiredAt evict k =
        c.expiredAt evict k :=
    fun k hk => expiredAt_insertEntry_of_ne key value tags ttlOverride created access evict
      (hne k hk)
  have hroom : ((c.accessOrder.erase key ++ [key]).filter (fun k =>
        !(c.insertEntry key value tags ttlOverride created access).expiredAt evict k)).length =
      ((c.accessOrder.erase key).filter (fun k => !c.expiredAt evict k)).length +
        (if created + c.effectiveTTL ttlOverride < evict then 0 else 1) := by
    rw [filter_append, length_append]
    congr 1
    · rw [filter_congr (fun k hk => by rw [hsame k hk])]
    · rw [filter_singleton, expiredAt_insertEntry_self]
      by_cases hlate : created + c.effectiveTTL ttlOverride < evict
      · simp [hlate]
      · simp [hlate]
  constructor
  · rintro ⟨hfront, hlen⟩
    rw [hroom, insertEntry_capacity] at hlen
    refine ⟨?_, hlen⟩
    intro k hk
    rw [← hsame k (dropLast_subset _ hk)]
    exact hfront k hk
  · rintro ⟨hfront, hlen⟩
    rw [← hroom, ← insertEntry_capacity key value tags ttlOverride created access] at hlen
    refine ⟨?_, hlen⟩
    intro k hk
    rw [hsame k (dropLast_subset _ hk)]
    exact hfront k hk

end Insert

lemma Healthy.set_evicted_iff (h : c.Healthy) (key : CacheKey) (value : V) (tags : List String)
    (ttlOverride : List Int) (created access evict : Int) :
    (∃ c', c.set key value tags ttlOverride created access evict = some c' ∧ c'.Evicted) ↔
      c.SetFits key ttlOverride created evict := by
  rw [← fits_insertEntry_iff h.consistent key value tags ttlOverride created access evict]
  refine evictLocked_evicted_iff (insertEntry_consistent h.consistent ..) ?_
    (insertEntry_accessOrder h.consistent ..)
  rw [insertEntry_capacity]
  exact h.positive

lemma evictPass_capacity {now : Int} {n j : Nat} {buf fresh fresh' : List CacheKey}
    (hpass : evictPass now n j c buf fresh = some (c', fresh')) : c'.capacity = c.capacity := by
  fun_induction evictPass now n j c buf fresh with
  | case1 => simp_all
  | case2 => simp at hpass
  | case3 => simp at hpass
  | case4 _ _ _ _ _ _ _ _ _ _ _ ih => exact (ih hpass).trans (removeEntryLocked_capacity ..)
  | case5 _ _ _ _ _ _ _ _ _ _ ih => exact ih hpass

lemma evictOldest_capacity {fuel : Nat} (h : evictOldest fuel c = some c') :
    c'.capacity = c.capacity := by
  fun_induction evictOldest fuel c with
  | case1 => simp_all
  | case2 => simp_all
  | case3 => simp at h
  | case4 _ _ _ _ _ _ _ _ _ _ ih => exact (ih h).trans (removeEntryLocked_capacity ..)
  | case5 => simp_all

lemma set_capacity {key : CacheKey} {value : V} {tags : List String} {ttlOverride : List Int}
    {created access evict : Int}
    (h : c.set key value tags ttlOverride created access evict = some c') :
    c'.capacity = c.capacity := by
  obtain ⟨c₁, hfirst, hsecond⟩ := Option.bind_eq_some_iff.mp h
  obtain ⟨⟨c₂, fresh⟩, hpass, hc₁⟩ := Option.bind_eq_some_iff.mp hfirst
  cases hc₁
  calc c'.capacity = { c₂ with accessOrder := fresh }.capacity := evictOldest_capacity hsecond
    _ = c₂.capacity := rfl
    _ = (c.insertEntry key value tags ttlOverride created access).capacity :=
      evictPass_capacity hpass
    _ = c.capacity := insertEntry_capacity ..

lemma Healthy.congr (h : c.Healthy) (hentries : c'.entries = c.entries)
    (horder : c'.accessOrder = c.accessOrder) (hcap : 1 ≤ c'.capacity) : c'.Healthy := by
  refine ⟨⟨horder ▸ h.consistent.nodup, ?_⟩, hcap⟩
  intro k
  rw [hentries, horder]
  exact h.consistent.mem_iff k

lemma Healthy.removeEntryLocked (h : c.Healthy) (key : CacheKey) :
    (c.removeEntryLocked key).Healthy := by
  refine ⟨h.consistent.removeEntryLocked key, ?_⟩
  rw [removeEntryLocked_capacity]
  exact h.positive

lemma Healthy.touch (h : c.Healthy) (key : CacheKey) (entry : CacheEntry V) :
    ({ c with entries := c.entries.insert key entry }.promoteLocked key).Healthy := by
  refine ⟨⟨?_, ?_⟩, h.positive⟩
  · refine List.nodup_append.mpr ⟨h.consistent.nodup.erase key, nodup_singleton key, ?_⟩
    rintro a ha b hb rfl
    rw [List.mem_singleton.mp hb] at ha
    exact h.consistent.nodup.not_mem_erase ha
  · intro x
    simp only [promoteLocked, mem_append, mem_singleton, Finmap.mem_insert,
      h.consistent.nodup.mem_erase_iff, h.consistent.mem_iff]
    tauto

lemma Healthy.getByKey (h : c.Healthy) (key : CacheKey) (check access : Int) :
    (c.getByKey key check access).1.Healthy := by
  unfold Cache.getByKey
  split
  · exact h.congr rfl rfl h.positive
  · rename_i entry he
    split
    · have hr := h.removeEntryLocked key
      exact hr.congr rfl rfl hr.positive
    · have ht := h.touch key { entry with lastAccess := access }
      exact ht.congr rfl rfl ht.positive

lemma Healthy.invalidateByTag (h : c.Healthy) (tag : String) (order : List CacheKey) :
    (c.invalidateByTag tag order).1.Healthy := by
  have hall : (order.foldl Cache.removeEntryLocked c).Healthy := by
    induction order generalizing c with
    | nil => exact h
    | cons key order ih => exact ih (h.removeEntryLocked key)
  unfold Cache.invalidateByTag
  split
  · exact h
  · exact hall

lemma Healthy.invalidateAll (h : c.Healthy) : c.invalidateAll.1.Healthy := by
  refine ⟨⟨nodup_nil, ?_⟩, h.positive⟩
  intro x
  exact iff_of_false not_mem_nil Finmap.notMem_empty

end Cache

lemma newCache_healthy (opts : List CacheOption) : (newCache opts : Cache V).Healthy := by
  have hkeep : ∀ (c : Cache V) (opt : CacheOption), c.Healthy → (opt.configure c).Healthy := by
    intro c opt h
    cases opt with
    | withCapacity n =>
      by_cases hn : 0 < n
      · simp only [CacheOption.configure, hn]
        exact h.congr rfl rfl (by show 1 ≤ n.toNat; omega)
      · simpa only [CacheOption.configure, hn, if_false] using h
    | withTTL d =>
      by_cases hd : 0 < d
      · simp only [CacheOption.configure, hd]
        exact h.congr rfl rfl h.positive
      · simpa only [CacheOption.configure, hd, if_false] using h
  have hrun : ∀ c : Cache V, c.Healthy → (opts.foldl CacheOption.configure c).Healthy := by
    induction opts with
    | nil => exact fun _ h => h
    | cons opt opts ih => exact fun c h => ih _ (hkeep c opt h)
  refine hrun _ ⟨⟨nodup_nil, ?_⟩, by simp [defaultCapacity]⟩
  intro x
  exact iff_of_false not_mem_nil Finmap.notMem_empty

section Runs

variable {Ctx : Type} (hashExpr : String → String) (hashContext : Ctx → Option String)

/-- The call has returned, the order lists the resident keys once each, and after a `Set` the
entries are within the capacity. -/
def CallOk (result : Option (Cache V)) (call : Call V Ctx) : Prop :=
  ∃ c, result = some c ∧ c.Consistent ∧ (call.isSet = true → c.size ≤ c.capacity)

def FitsCall : Option (Cache V) → Call V Ctx → Prop
  | some c, .set key _ _ ttlOverride created _ evict => c.SetFits key ttlOverride created evict
  | _, _ => True

lemma callOk_some {c : Cache V} {call : Call V Ctx} (hcall : call.isSet = false)
    (h : c.Consistent) : CallOk (some c) call :=
  ⟨c, rfl, h, fun hset => absurd (hcall.symm.trans hset) Bool.false_ne_true⟩

lemma Cache.Healthy.of_apply {c c' : Cache V} (h : c.Healthy) {call : Call V Ctx}
    (happly : apply hashExpr hashContext c call = some c') (hok : c'.Consistent) : c'.Healthy := by
  refine ⟨hok, apply_keeps (P := fun c => 1 ≤ c.capacity) h.positive ?_
    (fun key check access => (h.getByKey key check access).positive)
    (fun tag order => (h.invalidateByTag tag order).positive) h.invalidateAll.positive happly⟩
  intro key value tags ttlOverride created access evict hset
  exact Cache.set_capacity hset ▸ h.positive

lemma Cache.Healthy.callOk_iff {c : Cache V} (h : c.Healthy) (call : Call V Ctx) :
    CallOk (apply hashExpr hashContext c call) call ↔ FitsCall (some c) call := by
  cases call with
  | set key value tags ttlOverride created access evict =>
    have hiff := h.set_evicted_iff key value tags ttlOverride created access evict
    refine Iff.trans ?_ hiff
    constructor
    · rintro ⟨c', hset, hcons, hsize⟩
      exact ⟨c', hset, hcons, hsize rfl⟩
    · rintro ⟨c', hset, hok⟩
      exact ⟨c', hset, hok.consistent, fun _ => hok.bounded⟩
  | get expr ctx check access =>
    refine iff_of_true ?_ trivial
    rw [ResultCache.apply]
    split
    · exact callOk_some rfl h.consistent
    · exact callOk_some rfl (h.getByKey _ check access).consistent
  | getByKey key check access =>
    exact iff_of_true (callOk_some rfl (h.getByKey key check access).consistent) trivial
  | invalidateByTag tag order =>
    exact iff_of_true (callOk_some rfl (h.invalidateByTag tag order).consistent) trivial
  | invalidateAll => exact iff_of_true (callOk_some rfl h.invalidateAll.consistent) trivial

/-- Along every sequence of calls, whatever the clock reads: no call panics, the access order
stays the list of resident keys and every `Set` keeps to the capacity, if and only if every
`Set` finds the cache as `SetFits` asks. -/
theorem calls_keep_representation_iff (opts : List CacheOption) (calls : List (Call V Ctx)) :
    EveryStep (step hashExpr hashContext)
        (fun c call => CallOk (step hashExpr hashContext c call) call)
        (some (newCache opts)) calls ↔
      EveryStep (step hashExpr hashContext) FitsCall (some (newCache opts)) calls := by
  refine EveryStep.congr_of_invariant (P := fun s => ∃ c : Cache V, s = some c ∧ c.Healthy)
    ?_ ?_ ⟨_, rfl, newCache_healthy opts⟩ calls
  · rintro s call ⟨c, rfl, h⟩
    exact h.callOk_iff hashExpr hashContext call
  · rintro s call ⟨c, rfl, h⟩ ⟨c', hstep, hcons, -⟩
    exact ⟨c', hstep, h.of_apply hashExpr hashContext hstep hcons⟩

/-- With room for one entry the third new key makes `Set` slice past the end of the order: the
second `Set` leaves an entry that the order has lost. -/
theorem third_set_panics :
    runFrom (step (V := Nat) id (fun _ : Unit => none)) (some (newCache [.withCapacity 1]))
      [.set ⟨"a", ""⟩ 1 [] [] 0 0 0, .set ⟨"b", ""⟩ 2 [] [] 1 1 1,
        .set ⟨"c", ""⟩ 3 [] [] 2 2 2] = none := by
  decide

end Runs

end Symkernel.ResultCache
