import Symkernel.Cache.Threads

/-!
# Invalidation by tag
-/

namespace Symkernel.DistributedCache

open Library List

variable {V Ctx : Type}

/-! ### Lists of members -/

def storedMembers (m : Store) (key : GoString) : List GoString :=
  indexMembers ((m.entries.lookup key).map MemEntry.value)

section Lists

-- `tk` gives the key of a tag's list.
variable (tk : GoString → GoString)

/-- A key that survives a JSON document and is not the key of a list. -/
def Plain (key : GoString) : Prop :=
  ValidUTF8 key ∧ ∀ tag, key ≠ tk tag

structure GoodList (members : List GoString) : Prop where
  nodup : members.Nodup
  plain : ∀ key ∈ members, Plain tk key

/-- Under the keys of tags there are lists of plain keys that do not expire. -/
def ListsOk (m : Store) : Prop :=
  ∀ tag e, m.entries.lookup (tk tag) = some e →
    e.expiresAt = 0 ∧ ∃ members, e.value = .marshalStrings members ∧ GoodList tk members

variable {tk} {m : Store} {members : List GoString} {key tag : GoString}

lemma plain_dataKey {c : Config} {b : UInt8} {exprHash ctxHash : GoString} (hb : b ≠ 0x3a)
    (hvalid : ValidUTF8 (c.dataKey (b :: exprHash) ctxHash)) :
    Plain c.tagKey (c.dataKey (b :: exprHash) ctxHash) := by
  refine ⟨hvalid, ?_⟩
  intro tag h
  unfold Config.dataKey Config.tagKey at h
  simp only [append_assoc, cons_append, append_cancel_left_eq] at h
  exact hb (List.cons.inj h).1

lemma GoodList.unmarshal (h : GoodList tk members) :
    Json.unmarshalStrings (.marshalStrings members) = (members, true) := by
  have hmap : members.map toValidUTF8 = members :=
    (map_congr_left fun k hk => (h.plain k hk).1).trans members.map_id
  rw [Json.unmarshalStrings_marshalStrings, hmap]

lemma GoodList.concat (h : GoodList tk members) (hkey : Plain tk key) (hnew : key ∉ members) :
    GoodList tk (members ++ [key]) := by
  constructor
  · rw [nodup_append]
    refine ⟨h.nodup, nodup_singleton key, ?_⟩
    intro a ha b hb heq
    rw [List.mem_singleton.mp hb] at heq
    exact hnew (heq ▸ ha)
  · intro k hk
    rcases List.mem_append.mp hk with hk | hk
    · exact h.plain k hk
    · exact List.mem_singleton.mp hk ▸ hkey

lemma goodList_nil : GoodList tk [] :=
  ⟨nodup_nil, by simp⟩

lemma ListsOk.get (h : ListsOk tk m) (now : Int) (tag : GoString) : (m.get now (tk tag)).1 = m ∧
      ((m.get now (tk tag)).2 = none ∧ storedMembers m (tk tag) = [] ∨
        ∃ members, (m.get now (tk tag)).2 = some (.marshalStrings members) ∧ GoodList tk members ∧
          storedMembers m (tk tag) = members) := by
  unfold MemoryBackend.get storedMembers
  cases hlookup : m.entries.lookup (tk tag) with
  | none => exact ⟨rfl, .inl ⟨rfl, rfl⟩⟩
  | some e =>
    obtain ⟨hexpires, members, hvalue, hgood⟩ := h tag e hlookup
    have hfresh : MemoryBackend.expired e now = false := by
      simp [MemoryBackend.expired, hexpires]
    simp only [hfresh, Bool.false_eq_true, if_false]
    refine ⟨trivial, .inr ⟨members, by rw [hvalue], hgood, ?_⟩⟩
    simp only [Option.map_some, indexMembers, hvalue, hgood.unmarshal]

lemma ListsOk.storedMembers_good (h : ListsOk tk m) (tag : GoString) :
    GoodList tk (storedMembers m (tk tag)) := by
  rcases (h.get 0 tag).2 with ⟨-, hnil⟩ | ⟨members, -, hgood, heq⟩
  · rw [hnil]
    exact goodList_nil
  · rw [heq]
    exact hgood

lemma ListsOk.congr {m' : Store} (h : ListsOk tk m)
    (hsame : ∀ tag e, m'.entries.lookup (tk tag) = some e → m.entries.lookup (tk tag) = some e) :
    ListsOk tk m' :=
  fun tag e he => h tag e (hsame tag e he)

lemma ListsOk.set_list (h : ListsOk tk m) (hgood : GoodList tk members)
    (now : Int) (tag : GoString) : ListsOk tk (m.set now (tk tag) (.marshalStrings members) 0) := by
  intro t e he
  rw [MemoryBackend.lookup_set] at he
  split at he
  · rw [← Option.some.inj he]
    exact ⟨rfl, members, rfl, hgood⟩
  · exact h t e he

lemma ListsOk.del (h : ListsOk tk m) (keys : List GoString) : ListsOk tk (m.del keys).1 := by
  refine h.congr ?_
  intro tag e he
  rw [MemoryBackend.lookup_del] at he
  split at he
  · cases he
  · exact he

end Lists

/-! ### What a step keeps -/

section Keeps

variable (tk : GoString → GoString)

/-- If the entry of `key` is the one of write `w`, the list of `tag` has the key. -/
def Covered (s : Shared) (w : Nat) (key tag : GoString) : Prop :=
  s.latest key = some w → key ∈ s.backend.entries → key ∈ storedMembers s.backend (tk tag)

/-- Write `w` has no entry: it is removed, or the key has been written again. -/
def Cleared (s : Shared) (w : Nat) (key : GoString) : Prop :=
  s.latest key = some w → key ∉ s.backend.entries

structure Keeps (s s' : Shared) : Prop where
  writes : ∀ {w : Nat} {x}, s.writes[w]? = some x → s'.writes[w]? = some x
  completed : ∀ {w}, w ∈ s.completed → w ∈ s'.completed
  covered : ∀ {w : Nat} {x tag}, s.writes[w]? = some x → Plain tk x.key → Covered tk s w x.key tag →
    Covered tk s' w x.key tag
  cleared : ∀ {w : Nat} {x}, s.writes[w]? = some x → Plain tk x.key → Cleared s w x.key →
    Cleared s' w x.key

variable {tk} {s s' : Shared}

lemma Keeps.refl (s : Shared) : Keeps tk s s :=
  ⟨id, id, fun _ _ h => h, fun _ _ h => h⟩

lemma Keeps.of_no_write (hwrites : s'.writes = s.writes)
    (hcompleted : ∀ {w}, w ∈ s.completed → w ∈ s'.completed)
    (hlatest : ∀ key, Plain tk key → s'.latest key = s.latest key)
    (hentries : ∀ key, Plain tk key → key ∈ s'.backend.entries → key ∈ s.backend.entries)
    (hlists : ∀ key tag, Plain tk key → key ∈ s'.backend.entries →
      key ∈ storedMembers s.backend (tk tag) → key ∈ storedMembers s'.backend (tk tag)) :
    Keeps tk s s' := by
  refine ⟨fun h => hwrites ▸ h, hcompleted, ?_, ?_⟩
  · intro w x tag _ hplain hcovered hl hentry
    rw [hlatest _ hplain] at hl
    exact hlists _ tag hplain hentry (hcovered hl (hentries _ hplain hentry))
  · intro w x _ hplain hcleared hl hentry
    rw [hlatest _ hplain] at hl
    exact hcleared hl (hentries _ hplain hentry)

lemma Keeps.of_same (hbackend : s'.backend = s.backend) (hwrites : s'.writes = s.writes)
    (hlatest : s'.latest = s.latest) (hcompleted : ∀ {w}, w ∈ s.completed → w ∈ s'.completed) :
    Keeps tk s s' := by
  refine Keeps.of_no_write hwrites hcompleted (fun _ _ => by rw [hlatest]) ?_ ?_
  · intro key _ hkey
    exact hbackend ▸ hkey
  · intro key tag _ _ hkey
    rw [hbackend]
    exact hkey

variable {key : GoString}

lemma storedMembers_congr {m m' : Store} (h : m'.entries.lookup key = m.entries.lookup key) :
    storedMembers m' key = storedMembers m key := by
  unfold storedMembers
  rw [h]

lemma mem_entries_congr {m m' : Store} (h : m'.entries.lookup key = m.entries.lookup key) :
    key ∈ m'.entries ↔ key ∈ m.entries := by
  rw [← Finmap.lookup_isSome, ← Finmap.lookup_isSome, h]

lemma Keeps.set (hkey : Plain tk key) (now : Int) (doc : Json) (ttl : Int) (tags : List GoString) :
    Keeps tk s { s with
        backend := s.backend.set now key doc ttl
        writes := s.writes ++ [⟨key, tags⟩]
        latest := Function.update s.latest key (some s.writes.length) } := by
  have hlists : ∀ tag, storedMembers (s.backend.set now key doc ttl) (tk tag) =
      storedMembers s.backend (tk tag) := by
    intro tag
    refine storedMembers_congr ?_
    rw [MemoryBackend.lookup_set, if_neg (hkey.2 tag).symm]
  have hother : ∀ {k} {w : Nat} {x}, s.writes[w]? = some x →
      Function.update s.latest key (some s.writes.length) k = some w →
      s.latest k = some w ∧
        (k ∈ (s.backend.set now key doc ttl).entries ↔ k ∈ s.backend.entries) := by
    intro k w x hw hlatest
    have hk : k ≠ key := by
      rintro rfl
      rw [Function.update_self] at hlatest
      have hlt : w < s.writes.length := (List.getElem?_eq_some_iff.mp hw).1
      have := Option.some.inj hlatest
      omega
    rw [Function.update_of_ne hk] at hlatest
    refine ⟨hlatest, mem_entries_congr ?_⟩
    rw [MemoryBackend.lookup_set, if_neg hk]
  refine ⟨fun hw => ?_, id, ?_, ?_⟩
  · rw [List.getElem?_append_left (List.getElem?_eq_some_iff.mp hw).1]
    exact hw
  · intro w x tag hw _ hcovered hlatest hentry
    obtain ⟨hl, hmem⟩ := hother hw hlatest
    rw [hlists]
    exact hcovered hl (hmem.mp hentry)
  · intro w x hw _ hcleared hlatest hentry
    obtain ⟨hl, hmem⟩ := hother hw hlatest
    exact hcleared hl (hmem.mp hentry)

lemma Keeps.indexKey (htk : Function.Injective tk) {c : Config} (hc : c.tagKey = tk)
    {tag : GoString} {members : List GoString} (hkey : Plain tk key) (hgood : GoodList tk members)
    (hread : key ∉ members → storedMembers s.backend (tk tag) = members) : Keeps tk s { s with
        backend := DistributedCache.indexKey c s.backend tag key members
        latest := if key ∈ members then s.latest
          else Function.update s.latest (c.tagKey tag) none } := by
  unfold DistributedCache.indexKey
  by_cases hmem : key ∈ members
  · rw [if_pos hmem, if_pos hmem]
    exact Keeps.refl s
  · rw [if_neg hmem, if_neg hmem, hc]
    have hentries : ∀ k, Plain tk k →
        (s.backend.set 0 (tk tag) (.marshalStrings (members ++ [key])) 0).entries.lookup k =
          s.backend.entries.lookup k := by
      intro k hk
      rw [MemoryBackend.lookup_set, if_neg (hk.2 tag)]
    refine Keeps.of_no_write rfl id ?_ ?_ ?_
    · intro k hk
      exact Function.update_of_ne (hk.2 tag) _ _
    · intro k hk
      exact (mem_entries_congr (hentries k hk)).mp
    · intro k t _ _ hold
      by_cases ht : t = tag
      · subst ht
        rw [hread hmem] at hold
        simp only [storedMembers, MemoryBackend.lookup_set, if_true, Option.map_some, indexMembers,
          (hgood.concat hkey hmem).unmarshal]
        exact mem_append_left _ hold
      · rw [storedMembers_congr]
        · exact hold
        · rw [MemoryBackend.lookup_set, if_neg fun h => ht (htk h)]

lemma Keeps.del {keys : List GoString}
    (hlists : ∀ tag, tk tag ∈ keys → ∀ k ∈ storedMembers s.backend (tk tag), k ∈ keys) :
    Keeps tk s { s with backend := (s.backend.del keys).1 } := by
  have hentries : ∀ {k}, k ∈ (s.backend.del keys).1.entries → k ∉ keys ∧ k ∈ s.backend.entries := by
    intro k hk
    rw [← Finmap.lookup_isSome, MemoryBackend.lookup_del] at hk
    split at hk
    · cases hk
    · rename_i hmem
      exact ⟨hmem, Finmap.lookup_isSome.mp hk⟩
  refine Keeps.of_no_write rfl id (fun _ _ => rfl) (fun k _ hk => (hentries hk).2) ?_
  intro k tag _ hk hold
  have hkept : tk tag ∉ keys := fun h => (hentries hk).1 (hlists tag h k hold)
  rw [storedMembers_congr]
  · exact hold
  · rw [MemoryBackend.lookup_del, if_neg hkept]

end Keeps

/-! ### The invariant -/

section Invariant

variable (host : Host V Ctx) (c : Config) (tk : GoString → GoString)

/-- The entries that `Warm` may write have plain keys. -/
def EntriesOk (entries : List (WarmEntry V Ctx)) : Prop :=
  ∀ e ∈ entries, ∀ ctxHash, host.hashContext e.context = some ctxHash →
    Plain tk (c.dataKey (host.hashExpr e.expr) ctxHash)

def ReturnOk : Return V Ctx → Prop
  | .caller => True
  | .warm _ entries => EntriesOk host c tk entries

/-- Write `w` of `key` is registered with its tags, but for those in `tags`. -/
def Registered (s : Shared) (w : Nat) (key : GoString) (tags : List GoString) : Prop :=
  ∃ all, s.writes[w]? = some ⟨key, all⟩ ∧ Plain tk key ∧
    ∀ tag ∈ all, tag ∈ tags ∨ Covered tk s w key tag

def ThreadOk (s : Shared) : Thread V Ctx → Prop
  | .set key _ _ _ ret => Plain tk key ∧ ReturnOk host c tk ret
  | .register w key tags ret => Registered tk s w key tags ∧ ReturnOk host c tk ret
  | .holding w key tag tags ret => Registered tk s w key (tag :: tags) ∧ ReturnOk host c tk ret
  | .indexing w key tag tags ret members =>
    Registered tk s w key (tag :: tags) ∧ ReturnOk host c tk ret ∧ GoodList tk members ∧
      (key ∈ members → Covered tk s w key tag)
  | .releasing w key tags ret => Registered tk s w key tags ∧ ReturnOk host c tk ret
  | .delete key => Plain tk key
  | .warm _ entries => EntriesOk host c tk entries
  | .invalidate _ | .invalidating _ | .removing _ _ | .leaving _ | .returned _ => True

/-- The list that the thread is about to replace or to remove is the one that it has read. -/
def HasRead (s : Shared) : Thread V Ctx → Prop
  | .indexing _ key tag _ _ members =>
    key ∉ members → storedMembers s.backend (tk tag) = members
  | .removing tag keys => storedMembers s.backend (tk tag) = keys
  | _ => True

def CallOk : Call V Ctx → Prop
  | .setByKey exprHash ctxHash _ _ _ => Plain tk (c.dataKey exprHash ctxHash)
  | .delete exprHash ctxHash => Plain tk (c.dataKey exprHash ctxHash)
  | .invalidateByTag _ => True
  | .warm entries => EntriesOk host c tk entries

structure SharedOk (s : Shared) : Prop where
  lists : ListsOk tk s.backend
  completed : ∀ w ∈ s.completed, ∃ key, Registered tk s w key []

variable {host c tk} {s s' : Shared}

lemma Registered.keeps {w : Nat} {key : GoString} {tags : List GoString}
    (h : Registered tk s w key tags) (hkeeps : Keeps tk s s') : Registered tk s' w key tags := by
  obtain ⟨all, hw, hplain, htags⟩ := h
  refine ⟨all, hkeeps.writes hw, hplain, ?_⟩
  intro tag htag
  exact (htags tag htag).imp_right fun hcovered => hkeeps.covered hw hplain hcovered

lemma Registered.tail {w : Nat} {key tag : GoString} {tags : List GoString}
    (h : Registered tk s w key (tag :: tags)) (hcovered : Covered tk s w key tag) :
    Registered tk s w key tags := by
  obtain ⟨all, hw, hplain, htags⟩ := h
  refine ⟨all, hw, hplain, ?_⟩
  intro t ht
  rcases htags t ht with hleft | hdone
  · rcases List.mem_cons.mp hleft with rfl | hleft
    · exact .inr hcovered
    · exact .inl hleft
  · exact .inr hdone

variable {thread : Thread V Ctx}

lemma ThreadOk.keeps (h : ThreadOk host c tk s thread) (hkeeps : Keeps tk s s') :
    ThreadOk host c tk s' thread := by
  cases thread with
  | set key doc ttl tags ret => exact h
  | register w key tags ret => exact ⟨h.1.keeps hkeeps, h.2⟩
  | holding w key tag tags ret => exact ⟨h.1.keeps hkeeps, h.2⟩
  | indexing w key tag tags ret members =>
    obtain ⟨hreg, hret, hgood, hseen⟩ := h
    obtain ⟨all, hw, hplain, -⟩ := id hreg
    exact ⟨hreg.keeps hkeeps, hret, hgood, fun hmem => hkeeps.covered hw hplain (hseen hmem)⟩
  | releasing w key tags ret => exact ⟨h.1.keeps hkeeps, h.2⟩
  | delete key => exact h
  | warm n entries => exact h
  | invalidate _ | invalidating _ | removing _ _ | leaving _ | returned _ => trivial

lemma SharedOk.keeps (h : SharedOk tk s) (hkeeps : Keeps tk s s') (hlists : ListsOk tk s'.backend)
    (hcompleted : s'.completed = s.completed) : SharedOk tk s' := by
  refine ⟨hlists, ?_⟩
  intro w hw
  rw [hcompleted] at hw
  obtain ⟨key, hreg⟩ := h.completed w hw
  exact ⟨key, hreg.keeps hkeeps⟩

lemma beginSet_ok {exprHash ctxHash : GoString} (hkey : Plain tk (c.dataKey exprHash ctxHash))
    (value : V) (tags : List GoString) (ttlOverride : List Int) {ret : Return V Ctx}
    (hret : ReturnOk host c tk ret) :
    ThreadOk host c tk s (beginSet host c exprHash ctxHash value tags ttlOverride ret) := by
  unfold beginSet
  split
  · exact ⟨hkey, hret⟩
  · split <;> trivial

lemma begin_ok {call : Call V Ctx} (h : CallOk host c tk call) :
    ThreadOk host c tk s (begin host c call) := by
  cases call with
  | setByKey exprHash ctxHash value tags ttlOverride =>
    exact beginSet_ok h value tags ttlOverride trivial
  | delete exprHash ctxHash => exact h
  | invalidateByTag tag => trivial
  | warm entries => exact h

lemma Return.next_ok {ret : Return V Ctx} (h : ReturnOk host c tk ret) :
    ThreadOk host c tk s ret.next := by
  cases ret with
  | caller => trivial
  | warm n entries => exact h

variable (host c tk) in
/-- What a step of a thread guarantees. -/
structure StepOk (s : Shared) (r : Shared × Thread V Ctx) : Prop where
  keeps : Keeps tk s r.1
  shared : SharedOk tk r.1
  thread : ThreadOk host c tk r.1 r.2

lemma StepOk.of_held (h : SharedOk tk s) (held : Nat → Bool)
    (hthread : ThreadOk host c tk s thread) :
    StepOk host c tk s ({ s with held := held }, thread) := by
  have hkeeps : Keeps tk s { s with held := held } := Keeps.of_same rfl rfl rfl id
  exact ⟨hkeeps, h.keeps hkeeps h.lists rfl, hthread.keeps hkeeps⟩

lemma StepOk.of_unchanged (h : SharedOk tk s) (hthread : ThreadOk host c tk s thread) :
    StepOk host c tk s (s, thread) :=
  ⟨Keeps.refl s, h, hthread⟩

section Steps

variable (h : SharedOk tk s) (i : Nat) (now : Int)

include h

variable {key tag : GoString} {tags : List GoString} {ret : Return V Ctx}

lemma StepOk.set {doc : Json} {ttl : Int} (hkey : Plain tk key) (hret : ReturnOk host c tk ret) :
    StepOk host c tk s (advance host c i now s (.set key doc ttl tags ret)) := by
  have hkeeps := Keeps.set (s := s) hkey now doc ttl tags
  refine ⟨hkeeps, h.keeps hkeeps ?_ rfl, ⟨tags, ?_, hkey, fun tag htag => .inl htag⟩, hret⟩
  · refine h.lists.congr fun tag e he => ?_
    have hlookup := MemoryBackend.lookup_set s.backend now key doc ttl (tk tag)
    rw [if_neg (hkey.2 tag).symm] at hlookup
    exact hlookup.symm.trans he
  · exact List.getElem?_concat_length

lemma StepOk.register {w : Nat} (hreg : Registered tk s w key tags)
    (hret : ReturnOk host c tk ret) :
    StepOk host c tk s (advance host c i now s (.register w key tags ret)) := by
  cases tags with
  | nil =>
    have hkeeps : Keeps tk s { s with completed := s.completed ++ [w] } :=
      Keeps.of_same rfl rfl rfl (mem_append_left _)
    refine ⟨hkeeps, ⟨h.lists, ?_⟩, Return.next_ok hret⟩
    intro w' hw'
    rcases List.mem_append.mp hw' with hold | hnew
    · obtain ⟨key', hreg'⟩ := h.completed w' hold
      exact ⟨key', hreg'.keeps hkeeps⟩
    · rw [List.mem_singleton.mp hnew]
      exact ⟨key, hreg.keeps hkeeps⟩
  | cons tag tags =>
    rw [advance]
    split
    · exact StepOk.of_unchanged h ⟨hreg, hret⟩
    · exact StepOk.of_held h _ ⟨hreg, hret⟩

lemma StepOk.holding (hc : c.tagKey = tk) {w : Nat} (hreg : Registered tk s w key (tag :: tags))
    (hret : ReturnOk host c tk ret) :
    StepOk host c tk s (advance host c i now s (.holding w key tag tags ret)) := by
  obtain ⟨hsame, hread⟩ := h.lists.get now tag
  rw [advance]
  simp only [hc, hsame]
  refine StepOk.of_unchanged h ⟨hreg, hret, ?_, ?_⟩
  · rcases hread with ⟨hnone, -⟩ | ⟨members, hsome, hgood, -⟩
    · rw [hnone]
      exact goodList_nil
    · simpa only [hsome, indexMembers, hgood.unmarshal] using hgood
  · intro hmem _ _
    rcases hread with ⟨hnone, -⟩ | ⟨members, hsome, hgood, hstored⟩
    · rw [hnone] at hmem
      exact absurd hmem (by simp [indexMembers])
    · simp only [hsome, indexMembers, hgood.unmarshal] at hmem
      rw [hstored]
      exact hmem

lemma StepOk.indexing (htk : Function.Injective tk) (hc : c.tagKey = tk) {w : Nat}
    {members : List GoString}
    (hthread : ThreadOk host c tk s (.indexing w key tag tags ret members))
    (hread : HasRead tk s (.indexing w key tag tags ret members : Thread V Ctx)) :
    StepOk host c tk s (advance host c i now s (.indexing w key tag tags ret members)) := by
  obtain ⟨hreg, hret, hgood, hseen⟩ := hthread
  obtain ⟨all, hw, hplain, -⟩ := id hreg
  have hkeeps := Keeps.indexKey (s := s) htk hc hplain hgood hread
  refine ⟨hkeeps, h.keeps hkeeps ?_ rfl, (hreg.keeps hkeeps).tail ?_, hret⟩
  · show ListsOk tk (indexKey c s.backend tag key members)
    unfold indexKey
    split
    · exact h.lists
    · rename_i hnew
      rw [hc]
      exact h.lists.set_list (hgood.concat hplain hnew) 0 tag
  · by_cases hmem : key ∈ members
    · exact hkeeps.covered hw hplain (hseen hmem)
    · intro _ _
      show key ∈ storedMembers (indexKey c s.backend tag key members) (tk tag)
      unfold indexKey
      rw [if_neg hmem, hc]
      simp only [storedMembers, MemoryBackend.lookup_set, if_true, Option.map_some, indexMembers,
        (hgood.concat hplain hmem).unmarshal]
      simp

lemma StepOk.delete (hkey : Plain tk key) :
    StepOk host c tk s (advance host c i now s (.delete key)) := by
  have hkeeps : Keeps tk s { s with backend := (s.backend.del [key]).1 } := by
    refine Keeps.del ?_
    intro tag htag
    exact absurd (List.mem_singleton.mp htag).symm (hkey.2 tag)
  exact ⟨hkeeps, h.keeps hkeeps (h.lists.del _) rfl, trivial⟩

lemma StepOk.invalidating (hc : c.tagKey = tk) :
    StepOk host c tk s (advance host c i now s (.invalidating tag)) := by
  obtain ⟨hsame, -⟩ := h.lists.get now tag
  rw [advance]
  simp only [hc, hsame]
  refine StepOk.of_unchanged h ?_
  cases readTag (s.backend.get now (tk tag)).2 with
  | result r => trivial
  | members keys => trivial

lemma StepOk.removing (htk : Function.Injective tk) (hc : c.tagKey = tk) {keys : List GoString}
    (hread : HasRead tk s (.removing tag keys : Thread V Ctx)) :
    StepOk host c tk s (advance host c i now s (.removing tag keys)) := by
  have hread : storedMembers s.backend (tk tag) = keys := hread
  have hgood : GoodList tk keys := hread ▸ h.lists.storedMembers_good tag
  have hkeeps : Keeps tk s { s with backend := (s.backend.del (keys ++ [c.tagKey tag])).1 } := by
    refine Keeps.del ?_
    intro t ht k hk
    rw [hc] at ht ⊢
    rcases List.mem_append.mp ht with hmem | hmem
    · exact absurd rfl ((hgood.plain _ hmem).2 t)
    · rw [htk (List.mem_singleton.mp hmem), hread] at hk
      exact mem_append_left _ hk
  exact ⟨hkeeps, h.keeps hkeeps (h.lists.del _) rfl, trivial⟩

lemma StepOk.warm {n : Nat} {entries : List (WarmEntry V Ctx)}
    (hentries : EntriesOk host c tk entries) :
    StepOk host c tk s (advance host c i now s (.warm n entries)) := by
  cases entries with
  | nil => exact StepOk.of_unchanged h trivial
  | cons e entries =>
    rw [advance]
    split
    · exact StepOk.of_unchanged h trivial
    · rename_i ctxHash hhash
      refine StepOk.of_unchanged h (beginSet_ok ?_ _ _ _ ?_)
      · exact hentries e mem_cons_self ctxHash hhash
      · exact fun e' he' => hentries e' (mem_cons_of_mem e he')

/-- A step of a thread that has read the list that it changes. -/
lemma advance_ok (htk : Function.Injective tk) (hc : c.tagKey = tk) {thread : Thread V Ctx}
    (hthread : ThreadOk host c tk s thread) (hread : HasRead tk s thread) :
    StepOk host c tk s (advance host c i now s thread) := by
  cases thread with
  | set key doc ttl tags ret => exact StepOk.set h i now hthread.1 hthread.2
  | register w key tags ret => exact StepOk.register h i now hthread.1 hthread.2
  | holding w key tag tags ret => exact StepOk.holding h i now hc hthread.1 hthread.2
  | indexing w key tag tags ret members => exact StepOk.indexing h i now htk hc hthread hread
  | releasing w key tags ret => exact StepOk.of_held h _ hthread
  | delete key => exact StepOk.delete h i now hthread
  | invalidate tag =>
    rw [advance]
    split
    · exact StepOk.of_unchanged h trivial
    · exact StepOk.of_held h _ trivial
  | invalidating tag => exact StepOk.invalidating h i now hc
  | removing tag keys => exact StepOk.removing h i now htk hc hread
  | leaving r => exact StepOk.of_held h _ trivial
  | warm n entries => exact StepOk.warm h i now hthread
  | returned r => exact StepOk.of_unchanged h trivial

end Steps

end Invariant

/-! ### Invalidations -/

section Gone

variable {host : Host V Ctx} {c : Config} {tk : GoString → GoString} {s s' : Shared}

def Underway (tag : GoString) (thread : Thread V Ctx) : Prop :=
  thread = .invalidate tag ∨ thread = .invalidating tag ∨ ∃ keys, thread = .removing tag keys

def Gone (s : Shared) (ws : List Nat) (tag : GoString) : Prop :=
  ∀ w ∈ ws, ∀ x, s.writes[w]? = some x → tag ∈ x.tags → Cleared s w x.key

lemma SharedOk.covered (h : SharedOk tk s) {w : Nat} (hw : w ∈ s.completed) {x : Write}
    (hx : s.writes[w]? = some x) : Plain tk x.key ∧ ∀ tag ∈ x.tags, Covered tk s w x.key tag := by
  obtain ⟨key, all, hall, hplain, htags⟩ := h.completed w hw
  obtain rfl : x = ⟨key, all⟩ := Option.some.inj (hx.symm.trans hall)
  exact ⟨hplain, fun tag htag => (htags tag htag).resolve_left not_mem_nil⟩

variable {tag : GoString}

lemma Gone.keeps {ws : List Nat} (h : Gone s ws tag) (hs : SharedOk tk s)
    (hws : ∀ w ∈ ws, w ∈ s.completed) (hkeeps : Keeps tk s s') : Gone s' ws tag := by
  intro w hw x hx htag
  obtain ⟨key, all, hall, hplain, -⟩ := hs.completed w (hws w hw)
  obtain rfl : x = ⟨key, all⟩ := Option.some.inj (hx.symm.trans (hkeeps.writes hall))
  exact hkeeps.cleared hall hplain (h w hw _ hall htag)

lemma SharedOk.gone_of_nil (h : SharedOk tk s) (hnil : storedMembers s.backend (tk tag) = []) :
    Gone s s.completed tag := by
  intro w hw x hx htag hlatest hentry
  have hmem := (h.covered hw hx).2 tag htag hlatest hentry
  rw [hnil] at hmem
  exact absurd hmem not_mem_nil

/-- An invalidation goes on, or it has removed all entries of completed writes with its tag. -/
lemma advance_underway (h : SharedOk tk s) (hc : c.tagKey = tk) (i : Nat) (now : Int)
    {thread : Thread V Ctx} (hthread : Underway tag thread) (hread : HasRead tk s thread) :
    Underway tag (advance host c i now s thread).2 ∨
      Gone (advance host c i now s thread).1 s.completed tag := by
  rcases hthread with rfl | rfl | ⟨keys, rfl⟩
  · rw [advance]
    split
    · exact .inl (.inl rfl)
    · exact .inl (.inr (.inl rfl))
  · obtain ⟨hsame, hcases⟩ := h.lists.get now tag
    rw [advance]
    simp only [hc, hsame]
    rcases hcases with ⟨-, hnil⟩ | ⟨members, hsome, hgood, hstored⟩
    · exact .inr (h.gone_of_nil hnil)
    · rw [hsome]
      simp only [readTag, hgood.unmarshal, Bool.true_eq_false, if_false]
      by_cases hlength : members.length = 0
      · refine .inr (h.gone_of_nil ?_)
        rw [hstored]
        exact List.length_eq_zero_iff.mp hlength
      · rw [if_neg hlength]
        exact .inl (.inr (.inr ⟨members, rfl⟩))
  · refine .inr ?_
    intro w hw x hx htag hlatest hentry
    have hread : storedMembers s.backend (tk tag) = keys := hread
    have hdel := MemoryBackend.lookup_del s.backend (keys ++ [c.tagKey tag]) x.key
    have hkept : x.key ∈ s.backend.entries ∧ x.key ∉ keys ++ [c.tagKey tag] := by
      have hsome := Finmap.lookup_isSome.mpr hentry
      rw [show (advance host c i now s (.removing tag keys)).1.backend.entries.lookup x.key = _
        from hdel] at hsome
      split at hsome
      · cases hsome
      · rename_i hnot
        exact ⟨Finmap.lookup_isSome.mp hsome, hnot⟩
    have hmem := (h.covered hw hx).2 tag htag hlatest hkept.1
    rw [hread] at hmem
    exact hkept.2 (mem_append_left _ hmem)

end Gone

/-! ### Runs -/

section Runs

variable (cfg : Nat → Config) (host : Host V Ctx) (tk : GoString → GoString)

structure MachineOk (m : Machine V Ctx) : Prop where
  shared : SharedOk tk m.shared
  threads : ∀ x ∈ m.threads, ThreadOk host (cfg x.1) tk m.shared x.2

/-- The calls of a schedule use plain keys, and a list is replaced or removed only by a thread
that has read it as it is. -/
def InTurn (m : Machine V Ctx) : Sched V Ctx → Prop
  | .start i call => CallOk host (cfg i) tk call
  | .advance j _ => ∀ x, m.threads[j]? = some x → HasRead tk m.shared x.2

variable {cfg host tk} {m : Machine V Ctx}

lemma initial_ok : MachineOk cfg host tk (Machine.initial : Machine V Ctx) := by
  refine ⟨⟨?_, ?_⟩, ?_⟩
  · intro tag e he
    cases he
  · intro w hw
    cases hw
  · intro x hx
    cases hx

lemma MachineOk.advance (htk : Function.Injective tk) (hcfg : ∀ i, (cfg i).tagKey = tk)
    (h : MachineOk cfg host tk m) {j : Nat} {x : Nat × Thread V Ctx} (hx : m.threads[j]? = some x)
    (hread : HasRead tk m.shared x.2) (now : Int) : StepOk host (cfg x.1) tk m.shared
      (DistributedCache.advance host (cfg x.1) x.1 now m.shared x.2) :=
  advance_ok h.shared x.1 now htk (hcfg x.1) (h.threads x (List.mem_of_getElem? hx)) hread

lemma MachineOk.step (htk : Function.Injective tk) (hcfg : ∀ i, (cfg i).tagKey = tk)
    (h : MachineOk cfg host tk m) {a : Sched V Ctx} (ha : InTurn cfg host tk m a) :
    MachineOk cfg host tk (m.step cfg host a) ∧ Keeps tk m.shared (m.step cfg host a).shared := by
  cases a with
  | start i call =>
    refine ⟨⟨h.shared, ?_⟩, Keeps.refl _⟩
    intro x hx
    rcases List.mem_append.mp hx with hold | hnew
    · exact h.threads x hold
    · rw [List.mem_singleton.mp hnew]
      exact begin_ok ha
  | advance j now =>
    cases hj : m.threads[j]? with
    | none =>
      rw [Machine.step_advance_none hj]
      exact ⟨h, Keeps.refl _⟩
    | some x =>
      have hok := h.advance htk hcfg hj (ha x hj) now
      rw [Machine.step_advance_some hj]
      refine ⟨⟨hok.shared, ?_⟩, hok.keeps⟩
      intro y hy
      rcases mem_or_eq_of_mem_set hy with hold | hnew
      · exact (h.threads y hold).keeps hok.keeps
      · rw [hnew]
        exact hok.thread

/-- After the invalidation `v` of `tag` began in the state `s₀`, it is under way or the entries
are gone. -/
structure Following (s₀ : Shared) (v : Nat) (tag : GoString) (m : Machine V Ctx) : Prop where
  writes : ∀ {w : Nat} {x}, s₀.writes[w]? = some x → m.shared.writes[w]? = some x
  completed : ∀ w ∈ s₀.completed, w ∈ m.shared.completed
  progress : ∃ x, m.threads[v]? = some x ∧ (Underway tag x.2 ∨ Gone m.shared s₀.completed tag)

lemma Following.step (htk : Function.Injective tk) (hcfg : ∀ i, (cfg i).tagKey = tk)
    (h : MachineOk cfg host tk m) {s₀ : Shared} {v : Nat} {tag : GoString}
    (hv : Following s₀ v tag m) {a : Sched V Ctx} (ha : InTurn cfg host tk m a) :
    Following s₀ v tag (m.step cfg host a) := by
  obtain ⟨-, hkeeps⟩ := h.step htk hcfg ha
  obtain ⟨x, hx, hprogress⟩ := hv.progress
  refine ⟨fun hw => hkeeps.writes (hv.writes hw),
    fun w hw => hkeeps.completed (hv.completed w hw), ?_⟩
  have hgone : Gone m.shared s₀.completed tag → Gone (m.step cfg host a).shared s₀.completed tag :=
    fun hgone => hgone.keeps h.shared hv.completed hkeeps
  cases a with
  | start i call =>
    refine ⟨x, ?_, hprogress⟩
    exact (List.getElem?_append_left (List.getElem?_eq_some_iff.mp hx).1).trans hx
  | advance j now =>
    cases hj : m.threads[j]? with
    | none =>
      rw [Machine.step_advance_none hj]
      exact ⟨x, hx, hprogress⟩
    | some y =>
      rw [Machine.step_advance_some hj] at hgone ⊢
      by_cases hjv : j = v
      · subst hjv
        obtain rfl : y = x := Option.some.inj (hj.symm.trans hx)
        refine ⟨_, List.getElem?_set_self (List.getElem?_eq_some_iff.mp hx).1, ?_⟩
        rcases hprogress with hunderway | hdone
        · refine (advance_underway h.shared (hcfg y.1) y.1 now hunderway (ha y hj)).imp_right ?_
          exact fun hall w hw => hall w (hv.completed w hw)
        · exact .inr (hgone hdone)
      · refine ⟨x, (List.getElem?_set_ne hjv).trans hx, ?_⟩
        exact hprogress.imp_right hgone

end Runs

end Symkernel.DistributedCache
