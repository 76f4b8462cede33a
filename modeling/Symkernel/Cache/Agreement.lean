import Symkernel.Cache.Invalidation
import Symkernel.Cache.Invariant
import Symkernel.Cache.Tags

/-!
# The two caches side by side

The in-process cache keeps its tag index exact; the distributed cache only appends to the lists of
its tags.
-/

namespace Symkernel

open Library

/-! ### The in-process cache when nothing expires -/

namespace ResultCache.Cache

variable {V : Type} {c : Cache V}

lemma Healthy.set_eq_insertEntry (h : c.Healthy) (key : CacheKey) (value : V) (tags : List String)
    (ttlOverride : List Int) (created access evict : Int) (hunexpired : ∀ k,
      (c.insertEntry key value tags ttlOverride created access).expiredAt evict k = false)
    (hroom : (c.insertEntry key value tags ttlOverride created access).size ≤ c.capacity) :
    c.set key value tags ttlOverride created access evict =
      some (c.insertEntry key value tags ttlOverride created access) := by
  have hc := insertEntry_consistent h.consistent key value tags ttlOverride created access
  rw [← insertEntry_capacity key value tags ttlOverride created access] at hroom
  have hfirst := evictExpired_append hc (List.append_nil _).symm (fun k _ => hunexpired k)
  unfold set evictLocked
  rw [hfirst]
  exact evictOldest_of_le hroom _

lemma Healthy.insertEntry (h : c.Healthy) (key : CacheKey) (value : V) (tags : List String)
    (ttlOverride : List Int) (created access : Int) :
    (c.insertEntry key value tags ttlOverride created access).Healthy := by
  refine ⟨insertEntry_consistent h.consistent .., ?_⟩
  rw [insertEntry_capacity]
  exact h.positive

variable {key : CacheKey}

lemma expiredAt_insertEntry {value : V} {tags : List String} {ttlOverride : List Int}
    {created access evict : Int} (h : ∀ x, c.expiredAt evict x = false)
    (hnew : evict ≤ created + c.effectiveTTL ttlOverride) (x : CacheKey) :
    (c.insertEntry key value tags ttlOverride created access).expiredAt evict x = false := by
  by_cases hx : x = key
  · subst hx
    rw [expiredAt_insertEntry_self, decide_eq_false (by omega)]
  · rw [expiredAt_insertEntry_of_ne _ _ _ _ _ _ _ hx]
    exact h x

lemma carries_insertEntry {x : CacheKey} {value : V} {tags : List String} {ttlOverride : List Int}
    {created access : Int} {tag : String} :
    (c.insertEntry key value tags ttlOverride created access).Carries x tag ↔
      if x = key then tag ∈ tags else c.Carries x tag := by
  split
  · rename_i hx
    subst hx
    simp only [Carries, Cache.insertEntry, Finmap.lookup_insert, Option.some.injEq, exists_eq_left']
  · rename_i hx
    simp only [Carries, Cache.insertEntry, Finmap.lookup_insert_of_ne _ hx,
      lookup_removeEntryLocked hx]

lemma getByKey_of_unexpired {check : Int} (h : c.expiredAt check key = false) (access : Int) :
    ((c.getByKey key check access).2.isSome ↔ key ∈ c.entries) ∧
      (∀ x, x ∈ (c.getByKey key check access).1.entries ↔ x ∈ c.entries) ∧
      ∀ x tag, (c.getByKey key check access).1.Carries x tag ↔ c.Carries x tag := by
  unfold Cache.getByKey
  cases hentry : c.entries.lookup key with
  | none => exact ⟨by simp [Finmap.lookup_eq_none.mp hentry], fun _ => Iff.rfl, fun _ _ => Iff.rfl⟩
  | some entry =>
    have hmem : key ∈ c.entries := Finmap.mem_iff.mpr ⟨entry, hentry⟩
    have hfresh : ¬entry.expiresAt < check := by simpa [expiredAt, hentry] using h
    simp only [hfresh, if_false, promoteLocked]
    refine ⟨by simp [hmem], ?_, ?_⟩
    · intro x
      rw [Finmap.mem_insert]
      exact ⟨fun hx => hx.elim (fun heq => heq ▸ hmem) id, Or.inr⟩
    · intro x tag
      by_cases hx : x = key
      · subst hx
        simp only [Carries, Finmap.lookup_insert, hentry, Option.some.injEq, exists_eq_left']
      · simp only [Carries, Finmap.lookup_insert_of_ne _ hx]

lemma Carries.mem {tag : String} (h : c.Carries key tag) : key ∈ c.entries := by
  obtain ⟨entry, hentry, -⟩ := h
  exact Finmap.mem_iff.mpr ⟨entry, hentry⟩

end ResultCache.Cache

/-! ### The calls of the distributed cache on lists -/

namespace DistributedCache

variable {cfg : Config} {m : Store} {key : GoString}

structure Enrolled (cfg : Config) (key : GoString) (tags : List GoString) (m m' : Store) :
    Prop where
  lists : ListsOk cfg.tagKey m'
  data : ∀ x, (∀ t, x ≠ cfg.tagKey t) → m'.entries.lookup x = m.entries.lookup x
  members : ∀ t x, x ∈ storedMembers m' (cfg.tagKey t) ↔
    x ∈ storedMembers m (cfg.tagKey t) ∨ x = key ∧ t ∈ tags

lemma indexKey_enrolled (h : ListsOk cfg.tagKey m) (hkey : Plain cfg.tagKey key) (tag : GoString) :
    Enrolled cfg key [tag] m (indexKey cfg m tag key (storedMembers m (cfg.tagKey tag))) := by
  unfold indexKey
  split
  · rename_i hmem
    refine ⟨h, fun _ _ => rfl, ?_⟩
    intro t x
    rw [List.mem_singleton]
    refine ⟨Or.inl, ?_⟩
    rintro (hx | ⟨rfl, rfl⟩)
    · exact hx
    · exact hmem
  · rename_i hnew
    have hgood := (h.storedMembers_good tag).concat hkey hnew
    refine ⟨h.set_list hgood 0 tag, ?_, ?_⟩
    · intro x hx
      rw [MemoryBackend.lookup_set, if_neg (hx tag)]
    · intro t x
      by_cases ht : t = tag
      · subst ht
        have hstored : storedMembers (m.set 0 (cfg.tagKey t)
            (.marshalStrings (storedMembers m (cfg.tagKey t) ++ [key])) 0) (cfg.tagKey t) =
              storedMembers m (cfg.tagKey t) ++ [key] := by
          nth_rewrite 1 [storedMembers]
          rw [MemoryBackend.lookup_set, if_pos rfl]
          simp only [Option.map_some, indexMembers, hgood.unmarshal]
        rw [hstored]
        simp
      · have hstored : storedMembers (m.set 0 (cfg.tagKey tag)
            (.marshalStrings (storedMembers m (cfg.tagKey tag) ++ [key])) 0) (cfg.tagKey t) =
              storedMembers m (cfg.tagKey t) := by
          refine storedMembers_congr ?_
          rw [MemoryBackend.lookup_set, if_neg fun heq => ht (tagKey_injective cfg heq)]
        rw [hstored]
        simp [ht]

lemma addTagKey_enrolled (h : ListsOk cfg.tagKey m) (hkey : Plain cfg.tagKey key) (now : Int)
    (tag : GoString) : Enrolled cfg key [tag] m (addTagKey cfg m now tag key) := by
  have hstored : indexMembers (m.get now (cfg.tagKey tag)).2 = storedMembers m (cfg.tagKey tag) := by
    rcases (h.get now tag).2 with ⟨hread, hnil⟩ | ⟨members, hread, hgood, heq⟩
    · rw [hread, hnil]
      rfl
    · rw [hread, heq, indexMembers, hgood.unmarshal]
  unfold addTagKey
  simp only [(h.get now tag).1, hstored]
  exact indexKey_enrolled h hkey tag

lemma addTagKeys_enrolled (h : ListsOk cfg.tagKey m) (hkey : Plain cfg.tagKey key)
    (clock : Nat → Int) (i : Nat) (tags : List GoString) :
    Enrolled cfg key tags m (addTagKeys cfg clock key i tags m) := by
  induction tags generalizing i m with
  | nil => exact ⟨h, fun _ _ => rfl, by simp [addTagKeys]⟩
  | cons tag tags ih =>
    have hfirst := addTagKey_enrolled h hkey (clock i) tag
    have hrest := ih hfirst.lists (i + 1)
    refine ⟨hrest.lists, ?_, ?_⟩
    · intro x hx
      exact (hrest.data x hx).trans (hfirst.data x hx)
    · intro t x
      refine (hrest.members t x).trans ?_
      rw [hfirst.members, List.mem_singleton, List.mem_cons]
      tauto

lemma ListsOk.invalidateByTag_eq (h : ListsOk cfg.tagKey m) (now : Int) (tag : GoString) :
    (invalidateByTag cfg m now tag).2 = .ok (storedMembers m (cfg.tagKey tag)).length ∧
      ∀ x, (invalidateByTag cfg m now tag).1.entries.lookup x =
        if x ∈ storedMembers m (cfg.tagKey tag) ∨
            x = cfg.tagKey tag ∧ storedMembers m (cfg.tagKey tag) ≠ [] then none
        else m.entries.lookup x := by
  obtain ⟨hsame, hread⟩ := h.get now tag
  unfold invalidateByTag
  rcases hread with ⟨hnone, hnil⟩ | ⟨members, hsome, hgood, heq⟩
  · simp [hnone, hnil, readTag, hsame]
  · rw [heq]
    cases members with
    | nil => simp [hsome, readTag, hgood.unmarshal, hsame]
    | cons first members =>
      have hmembers : readTag (m.get now (cfg.tagKey tag)).2 = .members (first :: members) := by
        simp [hsome, readTag, hgood.unmarshal]
      simp only [hmembers, hsame]
      refine ⟨trivial, fun x => ?_⟩
      rw [MemoryBackend.lookup_del]
      simp [or_assoc]

end DistributedCache

/-! ### Both caches -/

namespace CacheAgreement

open DistributedCache
open ResultCache (Cache CacheKey newCache)

variable {V : Type}

/-- The in-process cache only compares its strings, so a sequence of bytes stands there for the
text of as many characters. -/
def text (s : GoString) : String :=
  String.ofList (s.map fun b => Char.ofNat b.toNat)

lemma text_injective : Function.Injective text := by
  have hbyte : Function.Injective fun b : UInt8 => Char.ofNat b.toNat := by
    intro a b h
    have hvalid : ∀ x : UInt8, (Char.ofNat x.toNat).toNat = x.toNat := by
      intro x
      have hx := x.toNat_lt
      have hchar : x.toNat.isValidChar := Or.inl (by omega)
      rw [Char.ofNat, dif_pos hchar]
      rfl
    rw [← UInt8.toNat_inj, ← hvalid a, ← hvalid b]
    exact congrArg Char.toNat h
  exact fun a b h => List.map_injective_iff.mpr hbyte (String.ofList_injective h)

structure Key where
  exprHash : GoString
  ctxHash : GoString
  deriving DecidableEq

namespace Key

def inProcess (k : Key) : CacheKey := ⟨text k.exprHash, text k.ctxHash⟩

def dataKey (cfg : Config) (k : Key) : GoString := cfg.dataKey k.exprHash k.ctxHash

lemma inProcess_injective : Function.Injective inProcess := by
  rintro ⟨e, c⟩ ⟨e', c'⟩ h
  rw [inProcess, inProcess, CacheKey.mk.injEq] at h
  rw [Key.mk.injEq]
  exact ⟨text_injective h.1, text_injective h.2⟩

end Key

inductive Operation (V : Type) where
  | set (key : Key) (value : V) (tags : List GoString) (ttlOverride : List Int)
  | delete (key : Key)
  | lookup (key : Key)
  | invalidateByTag (tag : GoString)

def Operation.keys : Operation V → List Key
  | .set key _ _ _ | .delete key | .lookup key => [key]
  | .invalidateByTag _ => []

/-- What the environment contributes to an operation: the clock readings of the distributed cache
in their order, those of the in-process cache, and the order of its loop over the keys of a tag. -/
structure Readings where
  clock : Nat → Int
  created : Int
  access : Int
  evict : Int
  check : Int
  order : List CacheKey

structure Pair (V : Type) where
  distributed : Store
  inProcess : Cache V

section Step

variable (cfg : Config) (marshal : V → Option Json)

/-- The same operation on both, `none` if the in-process cache panics. -/
def apply (p : Pair V) : Operation V × Readings → Option (Pair V)
  | (.set k value tags ttlOverride, r) =>
    (p.inProcess.set k.inProcess value (tags.map text) ttlOverride r.created r.access r.evict).map
      fun c => ⟨(setByKey cfg p.distributed r.clock k.exprHash k.ctxHash (marshal value) tags
        ttlOverride).1, c⟩
  | (.delete k, _) =>
    some ⟨delete cfg p.distributed k.exprHash k.ctxHash,
      p.inProcess.removeEntryLocked k.inProcess⟩
  | (.lookup k, r) =>
    some ⟨(getByKey cfg p.distributed (r.clock 0) k.exprHash k.ctxHash).1,
      (p.inProcess.getByKey k.inProcess r.check r.access).1⟩
  | (.invalidateByTag tag, r) =>
    some ⟨(invalidateByTag cfg p.distributed (r.clock 0) tag).1,
      (p.inProcess.invalidateByTag (text tag) r.order).1⟩

def step (p : Option (Pair V)) (x : Operation V × Readings) : Option (Pair V) :=
  p.bind fun p => apply cfg marshal p x

def start (opts : List ResultCache.CacheOption) : Option (Pair V) :=
  some ⟨newMemoryBackend, newCache opts⟩

def outcome : Lookup → Option Bool
  | .hit _ => some true
  | .miss => some false
  | .failed _ => none

def removed (m m' : Store) (tag : GoString) : Finset GoString :=
  (m.entries.keys \ m'.entries.keys).erase (cfg.tagKey tag)

/-- A lookup hits in both caches or in neither. An invalidation returns the same count from both,
removes only entries whose latest `Set` carried the tag, and counts what it removes. -/
def SameOutcome : Option (Pair V) → Operation V × Readings → Prop
  | none, _ => False
  | some _, (.set .., _) | some _, (.delete _, _) => True
  | some p, (.lookup k, r) =>
    outcome (getByKey cfg p.distributed (r.clock 0) k.exprHash k.ctxHash).2 =
      some (p.inProcess.getByKey k.inProcess r.check r.access).2.isSome
  | some p, (.invalidateByTag tag, r) =>
    let after := invalidateByTag cfg p.distributed (r.clock 0) tag
    after.2 = .ok (p.inProcess.invalidateByTag (text tag) r.order).2 ∧
      (∀ x ∈ removed cfg p.distributed after.1 tag,
        ∃ k : Key, x = k.dataKey cfg ∧ p.inProcess.Carries k.inProcess (text tag)) ∧
      after.2 = .ok (removed cfg p.distributed after.1 tag).card

/-- Nothing expires, no entry has to go for want of room, and Go's loop over a map visits its keys
once. -/
def Calm : Option (Pair V) → Operation V × Readings → Prop
  | none, _ | some _, (.delete _, _) => True
  | some p, (.set k value tags ttlOverride, r) =>
    let c := p.inProcess.insertEntry k.inProcess value (tags.map text) ttlOverride r.created
      r.access
    (∀ x, c.expiredAt r.evict x = false) ∧ c.size ≤ p.inProcess.capacity
  | some p, (.lookup k, r) =>
    (∀ e, p.distributed.entries.lookup (k.dataKey cfg) = some e →
      MemoryBackend.expired e (r.clock 0) = false) ∧
    p.inProcess.expiredAt r.check k.inProcess = false
  | some p, (.invalidateByTag tag, r) => p.inProcess.Visits (text tag) r.order

/-- The list of a tag that is invalidated has no stale member: each is the key of an entry whose
latest `Set` carried the tag. -/
def NoStaleMember : Option (Pair V) → Operation V × Readings → Prop
  | none, _ | some _, (.set .., _) | some _, (.delete _, _) | some _, (.lookup _, _) => True
  | some p, (.invalidateByTag tag, _) =>
    ∀ x ∈ storedMembers p.distributed (cfg.tagKey tag),
      ∃ k : Key, x = k.dataKey cfg ∧ p.inProcess.Carries k.inProcess (text tag)

def Encodable : Operation V → Prop
  | .set _ value _ _ => ∃ doc, marshal value = some doc ∧ doc.decodes = true
  | .delete _ | .lookup _ | .invalidateByTag _ => True

/-- The keys are valid UTF-8, none is the key of a list, and different hashes have different
keys. -/
structure KeysOk (keys : List Key) : Prop where
  plain : ∀ k ∈ keys, Plain cfg.tagKey (k.dataKey cfg)
  distinct : ∀ k ∈ keys, ∀ k' ∈ keys, k.dataKey cfg = k'.dataKey cfg → k = k'

end Step

/-! ### What relates the two -/

variable {cfg : Config} {marshal : V → Option Json} {keys : List Key} {p : Pair V} {k : Key}

/-- The two caches after the same operations on the given keys: they have the same entries, and
the lists of the distributed cache have at least the members of the tag index. -/
structure Related (cfg : Config) (keys : List Key) (p : Pair V) : Prop where
  lists : ListsOk cfg.tagKey p.distributed
  healthy : p.inProcess.Healthy
  tagsExact : p.inProcess.TagsExact
  known : ∀ x ∈ p.inProcess.entries, ∃ k ∈ keys, x = k.inProcess
  present : ∀ k ∈ keys,
    (k.dataKey cfg ∈ p.distributed.entries ↔ k.inProcess ∈ p.inProcess.entries)
  decodes : ∀ k ∈ keys, ∀ e,
    p.distributed.entries.lookup (k.dataKey cfg) = some e → e.value.decodes = true
  indexed : ∀ k ∈ keys, ∀ tag, p.inProcess.Carries k.inProcess (text tag) →
    k.dataKey cfg ∈ storedMembers p.distributed (cfg.tagKey tag)

lemma Related.mem_of_carries (h : Related cfg keys p) {tag : String}
    (hk : p.inProcess.Carries k.inProcess tag) : k ∈ keys := by
  obtain ⟨k', hk', heq⟩ := h.known _ hk.mem
  rwa [Key.inProcess_injective heq]

lemma related_start (opts : List ResultCache.CacheOption) :
    Related cfg keys ⟨newMemoryBackend, (newCache opts : Cache V)⟩ := by
  have hempty : ∀ x : CacheKey, x ∉ (newCache opts : Cache V).entries := by
    rw [(ResultCache.newCache_empty opts).1]
    exact fun _ => Finmap.notMem_empty
  have hnone : ∀ x : GoString, (newMemoryBackend : Store).entries.lookup x = none :=
    fun x => Finmap.lookup_empty x
  refine ⟨?_, ResultCache.newCache_healthy opts, ResultCache.newCache_tagsExact opts, ?_, ?_, ?_, ?_⟩
  · intro tag e he
    cases he
  · exact fun x hx => absurd hx (hempty x)
  · exact fun k _ => iff_of_false (Finmap.lookup_eq_none.mp (hnone _)) (hempty _)
  · intro k _ e he
    cases he
  · exact fun k _ tag hcarries => absurd hcarries.mem (hempty _)

section Set

variable (hkeys : KeysOk cfg keys) (h : Related cfg keys p) (hk : k ∈ keys)

include hkeys h hk

lemma Related.set (value : V) {doc : Json} (hdoc : doc.decodes = true) (tags : List GoString)
    (ttlOverride : List Int) (clock : Nat → Int) (created access : Int) : Related cfg keys
      ⟨(setByKey cfg p.distributed clock k.exprHash k.ctxHash (some doc) tags ttlOverride).1,
        p.inProcess.insertEntry k.inProcess value (tags.map text) ttlOverride created access⟩ := by
  obtain ⟨m, c⟩ := p
  have hplain := hkeys.plain k hk
  -- the write of the data, then the registration in the lists
  have hdata : ∀ x, (m.set (clock 0) (k.dataKey cfg) doc
      (cfg.effectiveTTL ttlOverride)).entries.lookup x = _ :=
    MemoryBackend.lookup_set m (clock 0) (k.dataKey cfg) doc (cfg.effectiveTTL ttlOverride)
  have hlists : ∀ tag, (m.set (clock 0) (k.dataKey cfg) doc
      (cfg.effectiveTTL ttlOverride)).entries.lookup (cfg.tagKey tag) =
        m.entries.lookup (cfg.tagKey tag) := by
    intro tag
    rw [hdata, if_neg (hplain.2 tag).symm]
  have henrolled := addTagKeys_enrolled (h.lists.congr fun tag e he => hlists tag ▸ he) hplain
    clock 1 tags
  have hlookup : ∀ k' ∈ keys, k' ≠ k →
      (addTagKeys cfg clock (k.dataKey cfg) 1 tags (m.set (clock 0) (k.dataKey cfg) doc
        (cfg.effectiveTTL ttlOverride))).entries.lookup (k'.dataKey cfg) =
          m.entries.lookup (k'.dataKey cfg) := by
    intro k' hk' hne
    rw [henrolled.data _ (hkeys.plain k' hk').2, hdata,
      if_neg fun heq => hne (hkeys.distinct k' hk' k hk heq)]
  have hself : (addTagKeys cfg clock (k.dataKey cfg) 1 tags (m.set (clock 0) (k.dataKey cfg) doc
      (cfg.effectiveTTL ttlOverride))).entries.lookup (k.dataKey cfg) = some
        { value := doc
          expiresAt := if 0 < cfg.effectiveTTL ttlOverride then
            clock 0 + cfg.effectiveTTL ttlOverride else 0 } := by
    rw [henrolled.data _ hplain.2, hdata, if_pos rfl]
  refine ⟨henrolled.lists, h.healthy.insertEntry .., h.tagsExact.insertEntry .., ?_, ?_, ?_, ?_⟩
  · intro x hx
    rcases ResultCache.Cache.mem_insertEntry.mp hx with rfl | hx
    · exact ⟨k, hk, rfl⟩
    · exact h.known x hx
  · intro k' hk'
    rw [ResultCache.Cache.mem_insertEntry]
    by_cases hne : k' = k
    · subst hne
      exact iff_of_true (Finmap.mem_iff.mpr ⟨_, hself⟩) (Or.inl rfl)
    · refine (mem_entries_congr (hlookup k' hk' hne)).trans ((h.present k' hk').trans ?_)
      exact ⟨Or.inr, fun hx => hx.resolve_left fun heq => hne (Key.inProcess_injective heq)⟩
  · intro k' hk' e he
    by_cases hne : k' = k
    · subst hne
      rw [← Option.some.inj (hself.symm.trans he)]
      exact hdoc
    · exact h.decodes k' hk' e ((hlookup k' hk' hne).symm.trans he)
  · intro k' hk' tag hcarries
    refine (henrolled.members tag _).mpr ?_
    rw [ResultCache.Cache.carries_insertEntry] at hcarries
    split at hcarries
    · rename_i heq
      right
      rw [Key.inProcess_injective heq]
      obtain ⟨tag', htag', heq'⟩ := List.mem_map.mp hcarries
      exact ⟨rfl, text_injective heq' ▸ htag'⟩
    · left
      rw [storedMembers_congr (hlists tag)]
      exact h.indexed k' hk' tag hcarries

lemma Related.delete :
    Related cfg keys ⟨DistributedCache.delete cfg p.distributed k.exprHash k.ctxHash,
      p.inProcess.removeEntryLocked k.inProcess⟩ := by
  obtain ⟨m, c⟩ := p
  have hdel : ∀ x, (DistributedCache.delete cfg m k.exprHash k.ctxHash).entries.lookup x =
      if x ∈ [k.dataKey cfg] then none else m.entries.lookup x :=
    MemoryBackend.lookup_del m [k.dataKey cfg]
  have hlookup : ∀ x, x ≠ k.dataKey cfg →
      (DistributedCache.delete cfg m k.exprHash k.ctxHash).entries.lookup x =
        m.entries.lookup x := by
    intro x hx
    rw [hdel, if_neg fun hmem => hx (List.mem_singleton.mp hmem)]
  have hself : (DistributedCache.delete cfg m k.exprHash k.ctxHash).entries.lookup
      (k.dataKey cfg) = none := by
    rw [hdel, if_pos (List.mem_singleton.mpr rfl)]
  have hne : ∀ k' ∈ keys, k' ≠ k → k'.dataKey cfg ≠ k.dataKey cfg :=
    fun k' hk' hk'' heq => hk'' (hkeys.distinct k' hk' k hk heq)
  refine ⟨h.lists.del _, h.healthy.removeEntryLocked _, h.tagsExact.removeEntryLocked _, ?_, ?_,
    ?_, ?_⟩
  · intro x hx
    exact h.known x (ResultCache.Cache.mem_removeEntryLocked.mp hx).2
  · intro k' hk'
    rw [ResultCache.Cache.mem_removeEntryLocked]
    by_cases heq : k' = k
    · subst heq
      exact iff_of_false (Finmap.lookup_eq_none.mp hself) fun hx => hx.1 rfl
    · refine (mem_entries_congr (hlookup _ (hne k' hk' heq))).trans ((h.present k' hk').trans ?_)
      exact ⟨fun hx => ⟨fun heq' => heq (Key.inProcess_injective heq'), hx⟩, fun hx => hx.2⟩
  · intro k' hk' e he
    by_cases heq : k' = k
    · subst heq
      rw [hself] at he
      cases he
    · exact h.decodes k' hk' e ((hlookup _ (hne k' hk' heq)).symm.trans he)
  · intro k' hk' tag hcarries
    rw [ResultCache.Cache.carries_removeEntryLocked] at hcarries
    rw [storedMembers_congr (hlookup _ ((hkeys.plain k hk).2 tag).symm)]
    exact h.indexed k' hk' tag hcarries.2

end Set

section Lookup

variable {r : Readings} (h : Related cfg keys p) (hk : k ∈ keys)
  (hcalm : Calm cfg (some p) (.lookup k, r))

include h hk hcalm

lemma Related.getByKey_eq :
    (getByKey cfg p.distributed (r.clock 0) k.exprHash k.ctxHash).1 = p.distributed ∧
      outcome (getByKey cfg p.distributed (r.clock 0) k.exprHash k.ctxHash).2 =
        some (p.distributed.entries.lookup (k.dataKey cfg)).isSome := by
  have hget := MemoryBackend.get_of_unexpired hcalm.1
  unfold getByKey
  rw [show cfg.dataKey k.exprHash k.ctxHash = k.dataKey cfg from rfl, hget]
  refine ⟨rfl, ?_⟩
  cases hlookup : p.distributed.entries.lookup (k.dataKey cfg) with
  | none => rfl
  | some e => simp [lookupResult, outcome, h.decodes k hk e hlookup]

lemma Related.sameOutcome_lookup : SameOutcome cfg (some p) (.lookup k, r) := by
  have hin := (ResultCache.Cache.getByKey_of_unexpired hcalm.2 r.access).1
  show _ = _
  rw [(h.getByKey_eq hk hcalm).2]
  congr 1
  rw [Bool.eq_iff_iff, hin, Finmap.lookup_isSome]
  exact h.present k hk

lemma Related.lookup :
    Related cfg keys ⟨(getByKey cfg p.distributed (r.clock 0) k.exprHash k.ctxHash).1,
      (p.inProcess.getByKey k.inProcess r.check r.access).1⟩ := by
  obtain ⟨-, hmem, hcarries⟩ := ResultCache.Cache.getByKey_of_unexpired hcalm.2 r.access
  rw [(h.getByKey_eq hk hcalm).1]
  refine ⟨h.lists, h.healthy.getByKey .., h.tagsExact.getByKey .., ?_, ?_, h.decodes, ?_⟩
  · exact fun x hx => h.known x ((hmem x).mp hx)
  · exact fun k' hk' => (h.present k' hk').trans (hmem _).symm
  · exact fun k' hk' tag hc => h.indexed k' hk' tag ((hcarries _ _).mp hc)

end Lookup

/-! ### Invalidations -/

section Invalidate

variable {r : Readings} {tag : GoString} (hkeys : KeysOk cfg keys) (h : Related cfg keys p)

noncomputable def carried (cfg : Config) (c : Cache V) (tag : GoString) : Finset GoString :=
  ((c.carriers (text tag)).preimage Key.inProcess Key.inProcess_injective.injOn).image
    (Key.dataKey cfg)

lemma mem_carried {c : Cache V} {x : GoString} : x ∈ carried cfg c tag ↔
    ∃ k : Key, x = k.dataKey cfg ∧ c.Carries k.inProcess (text tag) := by
  simp only [carried, Finset.mem_image, Finset.mem_preimage, ResultCache.Cache.mem_carriers]
  constructor
  · rintro ⟨k, hk, rfl⟩
    exact ⟨k, rfl, hk⟩
  · rintro ⟨k, rfl, hk⟩
    exact ⟨k, hk, rfl⟩

include h

lemma Related.carried_subset :
    carried cfg p.inProcess tag ⊆ (storedMembers p.distributed (cfg.tagKey tag)).toFinset := by
  intro x hx
  obtain ⟨k, rfl, hk⟩ := mem_carried.mp hx
  exact List.mem_toFinset.mpr (h.indexed k (h.mem_of_carries hk) tag hk)

lemma Related.noStaleMember_iff : NoStaleMember cfg (some p) (.invalidateByTag tag, r) ↔
    (storedMembers p.distributed (cfg.tagKey tag)).toFinset = carried cfg p.inProcess tag := by
  constructor
  · intro hfresh
    refine Finset.Subset.antisymm (fun x hx => ?_) h.carried_subset
    exact mem_carried.mpr (hfresh x (List.mem_toFinset.mp hx))
  · intro heq x hx
    exact mem_carried.mp (heq ▸ List.mem_toFinset.mpr hx)

include hkeys

lemma Related.card_carried :
    (carried cfg p.inProcess tag).card = (p.inProcess.carriers (text tag)).card := by
  classical
  rw [carried, Finset.card_image_of_injOn, Finset.card_preimage]
  · congr 1
    refine Finset.filter_true_of_mem ?_
    intro x hx
    obtain ⟨k, -, rfl⟩ := h.known x (ResultCache.Cache.mem_carriers.mp hx).mem
    exact ⟨k, rfl⟩
  · intro k hk k' hk' heq
    simp only [Finset.coe_preimage, Set.mem_preimage, Finset.mem_coe,
      ResultCache.Cache.mem_carriers] at hk hk'
    exact hkeys.distinct k (h.mem_of_carries hk) k' (h.mem_of_carries hk') heq

lemma Related.removed_eq (hfresh : NoStaleMember cfg (some p) (.invalidateByTag tag, r)) :
    removed cfg p.distributed (invalidateByTag cfg p.distributed (r.clock 0) tag).1 tag =
      carried cfg p.inProcess tag := by
  have hlookup := (h.lists.invalidateByTag_eq (r.clock 0) tag).2
  rw [← h.noStaleMember_iff.mp hfresh]
  ext x
  rw [removed, Finset.mem_erase, Finset.mem_sdiff, Finmap.mem_keys, Finmap.mem_keys,
    List.mem_toFinset, ← Finmap.lookup_eq_none, hlookup]
  constructor
  · rintro ⟨htag, hmem, hgone⟩
    by_contra hx
    rw [if_neg (by tauto)] at hgone
    exact Finmap.lookup_eq_none.mp hgone hmem
  · intro hx
    obtain ⟨k, rfl, hcarries⟩ := hfresh x hx
    have hk := h.mem_of_carries hcarries
    exact ⟨(hkeys.plain k hk).2 tag, (h.present k hk).mpr hcarries.mem, if_pos (Or.inl hx)⟩

lemma Related.sameOutcome_invalidate_iff (hcalm : Calm cfg (some p) (.invalidateByTag tag, r)) :
    SameOutcome cfg (some p) (.invalidateByTag tag, r) ↔
      NoStaleMember cfg (some p) (.invalidateByTag tag, r) := by
  have hcount := (h.lists.invalidateByTag_eq (r.clock 0) tag).1
  have hin := (h.tagsExact.invalidateByTag_eq hcalm).2
  rw [← h.card_carried hkeys] at hin
  have hlength := List.toFinset_card_of_nodup (h.lists.storedMembers_good tag).nodup
  constructor
  · rintro ⟨hsame, -⟩
    rw [hcount, hin, Except.ok.injEq, ← hlength] at hsame
    exact h.noStaleMember_iff.mpr (Finset.eq_of_subset_of_card_le h.carried_subset hsame.le).symm
  · intro hfresh
    have hcard : (storedMembers p.distributed (cfg.tagKey tag)).length =
        (carried cfg p.inProcess tag).card := by
      rw [← hlength, h.noStaleMember_iff.mp hfresh]
    refine ⟨?_, ?_, ?_⟩
    · rw [hcount, hin, hcard]
    · intro x hx
      rw [h.removed_eq hkeys hfresh] at hx
      exact mem_carried.mp hx
    · rw [h.removed_eq hkeys hfresh, hcount, hcard]

lemma Related.invalidate (hcalm : Calm cfg (some p) (.invalidateByTag tag, r))
    (hfresh : NoStaleMember cfg (some p) (.invalidateByTag tag, r)) :
    Related cfg keys ⟨(invalidateByTag cfg p.distributed (r.clock 0) tag).1,
      (p.inProcess.invalidateByTag (text tag) r.order).1⟩ := by
  have hlookup := (h.lists.invalidateByTag_eq (r.clock 0) tag).2
  have hin := (h.tagsExact.invalidateByTag_eq hcalm).1
  have hdata : ∀ k ∈ keys,
      (invalidateByTag cfg p.distributed (r.clock 0) tag).1.entries.lookup (k.dataKey cfg) =
        if k.inProcess ∈ p.inProcess.carriers (text tag) then none
        else p.distributed.entries.lookup (k.dataKey cfg) := by
    intro k hk
    rw [hlookup]
    refine if_congr ?_ rfl rfl
    rw [ResultCache.Cache.mem_carriers]
    constructor
    · rintro (hmem | ⟨heq, -⟩)
      · obtain ⟨k', heq, hcarries⟩ := hfresh _ hmem
        rw [hkeys.distinct k hk k' (h.mem_of_carries hcarries) heq]
        exact hcarries
      · exact absurd heq ((hkeys.plain k hk).2 tag)
    · exact fun hcarries => Or.inl (h.indexed k hk tag hcarries)
  have hkept : ∀ x, x ∈ (p.inProcess.invalidateByTag (text tag) r.order).1.entries →
      x ∉ p.inProcess.carriers (text tag) ∧ x ∈ p.inProcess.entries := by
    intro x hx
    rw [← Finmap.lookup_isSome, hin] at hx
    split at hx
    · cases hx
    · exact ⟨‹_›, Finmap.lookup_isSome.mp hx⟩
  refine ⟨?_, h.healthy.invalidateByTag .., h.tagsExact.invalidateByTag .., ?_, ?_, ?_, ?_⟩
  · refine h.lists.congr ?_
    intro t e he
    rw [hlookup] at he
    split at he
    · cases he
    · exact he
  · exact fun x hx => h.known x (hkept x hx).2
  · intro k hk
    rw [← Finmap.lookup_isSome, ← Finmap.lookup_isSome, hdata k hk, hin]
    split
    · rfl
    · rw [Finmap.lookup_isSome, Finmap.lookup_isSome]
      exact h.present k hk
  · intro k hk e he
    rw [hdata k hk] at he
    split at he
    · cases he
    · exact h.decodes k hk e he
  · intro k hk t hcarries
    have hmem := hkept _ hcarries.mem
    have hold : p.inProcess.Carries k.inProcess (text t) := by
      obtain ⟨entry, hentry, htag⟩ := hcarries
      rw [hin, if_neg hmem.1] at hentry
      exact ⟨entry, hentry, htag⟩
    have ht : t ≠ tag := by
      rintro rfl
      exact hmem.1 (ResultCache.Cache.mem_carriers.mpr hold)
    rw [storedMembers_congr (m := p.distributed)]
    · exact h.indexed k hk t hold
    · rw [hlookup, if_neg]
      rintro (hx | ⟨heq, -⟩)
      · exact ((h.lists.storedMembers_good tag).plain _ hx).2 t rfl
      · exact ht (tagKey_injective cfg heq)

end Invalidate

/-! ### Runs -/

def Sound (cfg : Config) (marshal : V → Option Json) (keys : List Key) (s : Option (Pair V))
    (x : Operation V × Readings) : Prop :=
  (x.1.keys ⊆ keys ∧ Encodable marshal x.1) ∧ Calm cfg s x

section Run

variable (hkeys : KeysOk cfg keys)

include hkeys

lemma Related.sameOutcome_iff (h : Related cfg keys p) {x : Operation V × Readings}
    (hsound : Sound cfg marshal keys (some p) x) :
    SameOutcome cfg (some p) x ↔ NoStaleMember cfg (some p) x := by
  obtain ⟨⟨hmem, -⟩, hcalm⟩ := hsound
  match x with
  | (.set .., _) | (.delete _, _) => exact Iff.rfl
  | (.lookup k, r) =>
    have hk : k ∈ keys := hmem (List.mem_singleton.mpr rfl)
    exact iff_of_true (h.sameOutcome_lookup hk hcalm) trivial
  | (.invalidateByTag tag, r) => exact h.sameOutcome_invalidate_iff hkeys hcalm

lemma Related.step (h : Related cfg keys p) {x : Operation V × Readings}
    (hsound : Sound cfg marshal keys (some p) x) (hfresh : NoStaleMember cfg (some p) x) :
    ∃ p', step cfg marshal (some p) x = some p' ∧ Related cfg keys p' := by
  obtain ⟨⟨hmem, hencodable⟩, hcalm⟩ := hsound
  match x with
  | (.set k value tags ttlOverride, r) =>
    have hk : k ∈ keys := hmem (List.mem_singleton.mpr rfl)
    obtain ⟨doc, hmarshal, hdoc⟩ := hencodable
    have hset := h.healthy.set_eq_insertEntry k.inProcess value (tags.map text) ttlOverride
      r.created r.access r.evict hcalm.1 hcalm.2
    refine ⟨_, ?_, Related.set hkeys h hk value hdoc tags ttlOverride r.clock r.created r.access⟩
    simp only [CacheAgreement.step, Option.bind_some, apply, hset, hmarshal, Option.map_some]
  | (.delete k, r) => exact ⟨_, rfl, Related.delete hkeys h (hmem (List.mem_singleton.mpr rfl))⟩
  | (.lookup k, r) => exact ⟨_, rfl, h.lookup (hmem (List.mem_singleton.mpr rfl)) hcalm⟩
  | (.invalidateByTag tag, r) => exact ⟨_, rfl, h.invalidate hkeys hcalm hfresh⟩

end Run

/-- Both caches go through the same operations from empty. With keys and values that the store can
tell apart and give back, all outcomes are the same exactly if no invalidation meets a stale member
of the list of its tag. -/
theorem caches_agree_on_tags_iff (cfg : Config) (marshal : V → Option Json)
    (opts : List ResultCache.CacheOption) (operations : List (Operation V × Readings))
    (hkeys : KeysOk cfg (operations.flatMap fun x => x.1.keys))
    (hvalues : ∀ x ∈ operations, Encodable marshal x.1)
    (hcalm : EveryStep (step cfg marshal) (Calm cfg) (start opts) operations) :
    EveryStep (step cfg marshal) (SameOutcome cfg) (start opts) operations ↔
      EveryStep (step cfg marshal) (NoStaleMember cfg) (start opts) operations := by
  have hsound : EveryStep (step cfg marshal)
      (Sound cfg marshal (operations.flatMap fun x => x.1.keys)) (start opts) operations := by
    refine EveryStep.and_iff.mpr ⟨EveryStep.of_forall_mem ?_, hcalm⟩
    intro x hx
    exact ⟨fun k hk => List.mem_flatMap.mpr ⟨x, hx, hk⟩, hvalues x hx⟩
  refine EveryStep.congr_of_known
    (P := fun s => ∃ p, s = some p ∧ Related cfg (operations.flatMap fun x => x.1.keys) p)
    ?_ ?_ ⟨_, rfl, related_start opts⟩ hsound
  · rintro _ x ⟨p, rfl, h⟩ hs
    exact h.sameOutcome_iff hkeys hs
  · rintro _ x ⟨p, rfl, h⟩ hs hsame
    exact h.step hkeys hs ((h.sameOutcome_iff hkeys hs).mp hsame)

def keyA : Key := ⟨[0x61], [0x78]⟩

def atZero (order : List CacheKey) : Readings where
  clock _ := 0
  created := 0
  access := 0
  evict := 0
  check := 0
  order := order

lemma keysOk_keyA {keys : List Key} (hkeys : ∀ k ∈ keys, k = keyA) :
    KeysOk (newConfig []) keys := by
  constructor
  · intro k hk
    rw [hkeys k hk]
    exact plain_dataKey (by decide) (by decide)
  · intro k hk k' hk' _
    rw [hkeys k hk, hkeys k' hk']

lemma expiredAt_newCache (x : CacheKey) : (newCache [] : Cache Unit).expiredAt 0 x = false := by
  unfold ResultCache.Cache.expiredAt
  rw [(ResultCache.newCache_empty []).1, Finmap.lookup_empty]

lemma unexpired_of_all {o : Option (MemEntry Json)} {now : Int}
    (h : o.all (fun e => !MemoryBackend.expired e now) = true) (e : MemEntry Json)
    (he : o = some e) : MemoryBackend.expired e now = false := by
  simpa [he] using h

lemma visits_of_eq {c : Cache Unit} {tag : String} {order : List CacheKey} (hnodup : order.Nodup)
    (h : ResultCache.Cache.keysOf c.tagIndex tag = order.toFinset) : c.Visits tag order := by
  refine ⟨hnodup, fun key => ?_⟩
  rw [h, List.mem_toFinset]

def taggedOnce : List (Operation Unit × Readings) :=
  [(.set keyA () [[0x74]] [], atZero []), (.lookup keyA, atZero []),
    (.invalidateByTag [0x74], atZero [keyA.inProcess]), (.lookup keyA, atZero [])]

theorem agree_when_tagged_once :
    EveryStep (step (newConfig []) fun _ => some .null) (SameOutcome (newConfig [])) (start [])
      taggedOnce :=
  (caches_agree_on_tags_iff (newConfig []) (fun _ => some .null) [] taggedOnce
    (keysOk_keyA (by decide)) (by simp [taggedOnce, Encodable]; decide)
    ⟨⟨ResultCache.Cache.expiredAt_insertEntry expiredAt_newCache (by decide), by decide⟩,
      ⟨unexpired_of_all rfl, rfl⟩, visits_of_eq (by decide) rfl, ⟨unexpired_of_all rfl, rfl⟩,
      trivial⟩).mpr
    ⟨trivial, trivial, fun _ hx => ⟨keyA, List.mem_singleton.mp hx, _, rfl, by decide⟩, trivial,
      trivial⟩

def untagged : List (Operation Unit × Readings) :=
  [(.set keyA () [[0x74]] [], atZero []), (.set keyA () [] [], atZero []),
    (.invalidateByTag [0x74], atZero [])]

theorem untagged_entry_is_removed : KeysOk (newConfig []) (untagged.flatMap fun x => x.1.keys) ∧
      EveryStep (step (newConfig []) fun _ => some .null) (Calm (newConfig [])) (start [])
        untagged ∧
      ¬ EveryStep (step (newConfig []) fun _ => some .null) (SameOutcome (newConfig [])) (start [])
        untagged := by
  refine ⟨keysOk_keyA (by decide), ⟨⟨?_, by decide⟩, ⟨?_, by decide⟩, ?_, trivial⟩, ?_⟩
  · exact ResultCache.Cache.expiredAt_insertEntry expiredAt_newCache (by decide)
  · refine ResultCache.Cache.expiredAt_insertEntry ?_ (by decide)
    exact ResultCache.Cache.expiredAt_insertEntry expiredAt_newCache (by decide)
  · exact visits_of_eq (by decide) rfl
  · rintro ⟨-, -, ⟨hcount, -⟩, -⟩
    have hdiffer : (Except.ok 1 : Except CacheError Nat) = .ok 0 := hcount
    cases hdiffer

end CacheAgreement

end Symkernel
