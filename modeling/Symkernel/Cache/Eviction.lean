import Symkernel.Cache.InProcess
import Symkernel.Library.Runs

/-!
# The access order and the entries

Eviction is the one place where `accessOrder` and `entries` can drift apart.
-/

namespace Symkernel.ResultCache

open Library List

variable {V : Type}

namespace Cache

/-- The access order lists every resident key exactly once. -/
structure Consistent (c : Cache V) : Prop where
  nodup : c.accessOrder.Nodup
  mem_iff : ∀ k, k ∈ c.accessOrder ↔ k ∈ c.entries

def Orphan (c : Cache V) (k : CacheKey) : Prop :=
  k ∈ c.entries ∧ k ∉ c.accessOrder

def expiredAt (c : Cache V) (now : Int) (k : CacheKey) : Bool :=
  match c.entries.lookup k with
  | none => false
  | some entry => entry.expiresAt < now

variable {c c' : Cache V}

lemma Consistent.not_orphan (h : c.Consistent) (k : CacheKey) : ¬c.Orphan k :=
  fun ho => ho.2 ((h.mem_iff k).mpr ho.1)

lemma Consistent.size_eq (h : c.Consistent) : c.size = c.accessOrder.length := by
  have hkeys : c.entries.keys = c.accessOrder.toFinset := by
    ext k
    rw [Finmap.mem_keys, mem_toFinset, h.mem_iff]
  rw [size, hkeys, toFinset_card_of_nodup h.nodup]

variable {k x y key : CacheKey}

lemma removeEntryLocked_of_mem (hk : k ∈ c.entries) :
    (c.removeEntryLocked k).entries = c.entries.erase k ∧
      (c.removeEntryLocked k).accessOrder = c.accessOrder.erase k := by
  obtain ⟨entry, he⟩ := Finmap.mem_iff.mp hk
  simp [removeEntryLocked, he]

lemma removeEntryLocked_of_notMem (hk : k ∉ c.entries) : c.removeEntryLocked k = c := by
  simp [removeEntryLocked, Finmap.lookup_eq_none.mpr hk]

@[simp] lemma removeEntryLocked_capacity (c : Cache V) (k : CacheKey) :
    (c.removeEntryLocked k).capacity = c.capacity := by
  unfold removeEntryLocked
  split <;> rfl

lemma mem_removeEntryLocked : x ∈ (c.removeEntryLocked k).entries ↔ x ≠ k ∧ x ∈ c.entries := by
  by_cases hk : k ∈ c.entries
  · rw [(removeEntryLocked_of_mem hk).1, Finmap.mem_erase]
  · rw [removeEntryLocked_of_notMem hk]
    constructor
    · intro hx
      exact ⟨fun heq => hk (heq ▸ hx), hx⟩
    · exact fun hx => hx.2

lemma lookup_removeEntryLocked (hx : x ≠ k) :
    (c.removeEntryLocked k).entries.lookup x = c.entries.lookup x := by
  by_cases hk : k ∈ c.entries
  · rw [(removeEntryLocked_of_mem hk).1, Finmap.lookup_erase_ne hx]
  · rw [removeEntryLocked_of_notMem hk]

lemma removeEntryLocked_accessOrder (h : c.Consistent) (k : CacheKey) :
    (c.removeEntryLocked k).accessOrder = c.accessOrder.erase k := by
  by_cases hk : k ∈ c.entries
  · exact (removeEntryLocked_of_mem hk).2
  · rw [removeEntryLocked_of_notMem hk, erase_of_not_mem]
    rw [h.mem_iff]
    exact hk

lemma Consistent.removeEntryLocked (h : c.Consistent) (k : CacheKey) :
    (c.removeEntryLocked k).Consistent := by
  constructor
  · rw [removeEntryLocked_accessOrder h]
    exact h.nodup.erase k
  · intro x
    rw [removeEntryLocked_accessOrder h, h.nodup.mem_erase_iff, mem_removeEntryLocked, h.mem_iff]

/-! ### The first loop of `evictLocked` -/

lemma evictPass_unexpired (now : Int) (n : Nat) (c : Cache V) (keep rest : List CacheKey)
    (hkeep : ∀ k ∈ keep, k ∈ c.entries ∧ c.expiredAt now k = false) (front fresh : List CacheKey) :
    evictPass now (keep.length + n) front.length c (front ++ keep ++ rest) fresh =
      evictPass now n (front.length + keep.length) c (front ++ keep ++ rest) (fresh ++ keep) := by
  induction keep generalizing front fresh with
  | nil => simp
  | cons k keep ih =>
    obtain ⟨hmem, hexp⟩ := hkeep k mem_cons_self
    obtain ⟨entry, he⟩ := Finmap.mem_iff.mp hmem
    have hget : (front ++ k :: keep ++ rest)[front.length]? = some k := by simp
    have hlate : ¬entry.expiresAt < now := by
      simpa [expiredAt, he] using hexp
    have hsteps : (k :: keep).length + n = (keep.length + n) + 1 := by
      simp only [length_cons]
      omega
    rw [hsteps, evictPass, hget]
    simp only [he, hlate, if_false]
    have hi := ih (fun x hx => hkeep x (mem_cons_of_mem k hx)) (front ++ [k]) (fresh ++ [k])
    simp only [append_assoc, singleton_append, length_append, length_cons, length_nil] at hi ⊢
    rw [hi, show front.length + 1 + keep.length = front.length + (keep.length + 1) by omega]

variable {buf keep rest fresh front : List CacheKey}

lemma evictPass_expired (now : Int) (n : Nat) {j : Nat} (hget : buf[j]? = some k)
    (hmem : k ∈ c.entries) (hexp : c.expiredAt now k = true) : evictPass now (n + 1) j c buf fresh =
      evictPass now n (j + 1) (c.removeEntryLocked k).countEvict
        (writeBack (c.removeEntryLocked k).accessOrder buf) fresh := by
  obtain ⟨entry, he⟩ := Finmap.mem_iff.mp hmem
  have hlate : entry.expiresAt < now := by
    simpa [expiredAt, he] using hexp
  rw [evictPass, hget]
  simp only [he, hlate, if_true]

lemma evictPass_last (now : Int) {j : Nat} (fresh : List CacheKey) (hget : buf[j]? = some k)
    (hmem : k ∈ c.entries) : ∃ c', evictPass now 1 j c buf fresh =
        some (c', fresh ++ [k].filter (fun x => !c.expiredAt now x)) ∧
      (∀ x, x ∈ c'.entries ↔ x ∈ c.entries ∧ (x = k → c.expiredAt now x = false)) ∧
      c'.capacity = c.capacity := by
  cases hexp : c.expiredAt now k with
  | true =>
    refine ⟨(c.removeEntryLocked k).countEvict, ?_, ?_, removeEntryLocked_capacity c k⟩
    · rw [evictPass_expired now 0 hget hmem hexp]
      simp [evictPass, hexp]
    · intro x
      have hx : x ∈ (c.removeEntryLocked k).countEvict.entries ↔ x ≠ k ∧ x ∈ c.entries :=
        mem_removeEntryLocked
      rw [hx]
      constructor
      · rintro ⟨hne, hin⟩
        exact ⟨hin, fun heq => absurd heq hne⟩
      · rintro ⟨hin, hkept⟩
        refine ⟨?_, hin⟩
        rintro rfl
        rw [hkept rfl] at hexp
        exact Bool.noConfusion hexp
  | false =>
    refine ⟨c, ?_, ?_, rfl⟩
    · obtain ⟨entry, he⟩ := Finmap.mem_iff.mp hmem
      have hlate : ¬entry.expiresAt < now := by
        simpa [expiredAt, he] using hexp
      rw [evictPass, hget]
      simp only [he, hlate, evictPass]
      simp [hexp]
    · intro x
      constructor
      · intro hin
        refine ⟨hin, ?_⟩
        rintro rfl
        exact hexp
      · exact fun hx => hx.1

/-- What the first loop leaves when it works: the unexpired keys, in order. -/
structure Swept (c c' : Cache V) (now : Int) : Prop where
  order : c'.accessOrder = c.accessOrder.filter (fun k => !c.expiredAt now k)
  consistent : c'.Consistent
  capacity : c'.capacity = c.capacity

variable {now : Int}

lemma Consistent.swept (h : c.Consistent)
    (horder : c'.accessOrder = c.accessOrder.filter (fun k => !c.expiredAt now k))
    (hmem : ∀ x, x ∈ c'.entries ↔ x ∈ c.entries ∧ c.expiredAt now x = false)
    (hcap : c'.capacity = c.capacity) : Swept c c' now := by
  refine ⟨horder, ⟨?_, ?_⟩, hcap⟩
  · rw [horder]
    exact h.nodup.filter _
  · intro x
    rw [horder, mem_filter, hmem, h.mem_iff, Bool.not_eq_true_eq_eq_false]

/-- The loop once it has passed a stretch of unexpired keys. -/
lemma evictExpired_append (h : c.Consistent) (horder : c.accessOrder = keep ++ rest)
    (hkeep : ∀ k ∈ keep, c.expiredAt now k = false) :
    c.evictExpired now = (evictPass now rest.length keep.length c (keep ++ rest) keep).map
      (fun r => { r.1 with accessOrder := r.2 }) := by
  have hin : ∀ k ∈ keep, k ∈ c.entries ∧ c.expiredAt now k = false := by
    intro k hk
    refine ⟨(h.mem_iff k).mp ?_, hkeep k hk⟩
    rw [horder]
    exact mem_append_left rest hk
  have hpass := evictPass_unexpired now rest.length c keep rest hin [] []
  simp only [nil_append, length_nil, Nat.zero_add] at hpass
  unfold evictExpired
  rw [horder, length_append, hpass]
  cases evictPass now rest.length keep.length c (keep ++ rest) keep <;> rfl

lemma filter_unexpired (hkeep : ∀ k ∈ keep, c.expiredAt now k = false) :
    keep.filter (fun k => !c.expiredAt now k) = keep := by
  refine List.filter_eq_self.mpr ?_
  intro k hk
  simp [hkeep k hk]

/-- The first loop sweeps correctly when only the newest key can have expired. -/
lemma evictExpired_last (h : c.Consistent) (horder : c.accessOrder = keep ++ [k])
    (hkeep : ∀ x ∈ keep, c.expiredAt now x = false) :
    ∃ c', c.evictExpired now = some c' ∧ Swept c c' now := by
  have hall : ∀ x, x ∈ c.entries ↔ x ∈ keep ∨ x = k := by
    intro x
    rw [← h.mem_iff, horder, mem_append, mem_singleton]
  have hget : (keep ++ [k])[keep.length]? = some k := by simp
  obtain ⟨c', hpass, hmem, hcap⟩ := evictPass_last now keep hget ((hall k).mpr (Or.inr rfl))
  refine ⟨{ c' with
    accessOrder := keep ++ [k].filter (fun x => !c.expiredAt now x) }, ?_, h.swept ?_ ?_ hcap⟩
  · rw [evictExpired_append h horder hkeep, length_singleton, hpass]
    rfl
  · rw [horder, filter_append, filter_unexpired hkeep]
  · intro x
    have hx := hmem x
    rw [hx]
    constructor
    · rintro ⟨hin, hlast⟩
      refine ⟨hin, ?_⟩
      obtain hx | hx := (hall x).mp hin
      · exact hkeep x hx
      · exact hlast hx
    · rintro ⟨hin, hexp⟩
      exact ⟨hin, fun _ => hexp⟩

lemma expiredAt_removeEntryLocked (c : Cache V) (now : Int) (hx : x ≠ k) :
    (c.removeEntryLocked k).countEvict.expiredAt now x = c.expiredAt now x := by
  have hlookup : (c.removeEntryLocked k).countEvict.entries.lookup x = c.entries.lookup x :=
    lookup_removeEntryLocked hx
  simp only [expiredAt, hlookup]

/-- It also does when the newest key stands right after an expired one: the key that the shift
leaves behind is the newest key itself. -/
lemma evictExpired_pair (h : c.Consistent) {l : CacheKey}
    (horder : c.accessOrder = keep ++ [k, l]) (hkeep : ∀ x ∈ keep, c.expiredAt now x = false)
    (hexp : c.expiredAt now k = true) : ∃ c', c.evictExpired now = some c' ∧ Swept c c' now := by
  have hall : ∀ x, x ∈ c.entries ↔ x ∈ keep ∨ x = k ∨ x = l := by
    intro x
    rw [← h.mem_iff, horder]
    simp
  have hnd : (keep ++ [k, l]).Nodup := horder ▸ h.nodup
  have hlk : l ≠ k := by
    rintro rfl
    simp [nodup_append] at hnd
  have hkkeep : k ∉ keep := by
    intro hk
    rw [hkeep k hk] at hexp
    exact Bool.noConfusion hexp
  have hk : k ∈ c.entries := (hall k).mpr (Or.inr (Or.inl rfl))
  have herase : (c.removeEntryLocked k).accessOrder = keep ++ [l] := by
    rw [removeEntryLocked_accessOrder h, horder, erase_append_right _ hkkeep, erase_cons_head]
  have hget : (keep ++ [k, l])[keep.length]? = some k := by simp
  have hgetl : (writeBack (keep ++ [l]) (keep ++ [k, l]))[keep.length + 1]? = some l := by
    rw [getElem?_writeBack_of_le (by simp)]
    simp
  have hl : l ∈ (c.removeEntryLocked k).countEvict.entries :=
    mem_removeEntryLocked.mpr ⟨hlk, (hall l).mpr (Or.inr (Or.inr rfl))⟩
  obtain ⟨c', hpass, hmem, hcap⟩ := evictPass_last now keep hgetl hl
  refine ⟨{ c' with
    accessOrder := keep ++ [l].filter (fun x => !c.expiredAt now x) }, ?_, h.swept ?_ ?_ ?_⟩
  · rw [evictExpired_append h horder hkeep, length_cons, length_singleton,
      evictPass_expired now 1 hget hk hexp, herase, hpass]
    simp [filter_cons, expiredAt_removeEntryLocked c now hlk]
  · rw [horder, filter_append, filter_unexpired hkeep]
    simp [hexp]
  · intro x
    have hx := hmem x
    have hout : x ∈ (c.removeEntryLocked k).countEvict.entries ↔ x ≠ k ∧ x ∈ c.entries :=
      mem_removeEntryLocked
    rw [hx, hout]
    constructor
    · rintro ⟨⟨hne, hin⟩, hlast⟩
      refine ⟨hin, ?_⟩
      obtain hx | hx | hx := (hall x).mp hin
      · exact hkeep x hx
      · exact absurd hx hne
      · rw [← expiredAt_removeEntryLocked c now hne]
        exact hlast hx
    · rintro ⟨hin, hfresh⟩
      have hne : x ≠ k := by
        rintro rfl
        rw [hfresh] at hexp
        exact Bool.noConfusion hexp
      refine ⟨⟨hne, hin⟩, fun _ => ?_⟩
      rw [expiredAt_removeEntryLocked c now hne]
      exact hfresh
  · exact hcap.trans (removeEntryLocked_capacity c k)

/-- The loop is past the place of `y` and has not read it. -/
structure Skipped (c : Cache V) (buf fresh : List CacheKey) (j : Nat) (y : CacheKey) : Prop where
  resident : y ∈ c.entries
  unread : y ∉ fresh
  nodup : c.accessOrder.Nodup
  passed : y ∈ c.accessOrder.take j
  ahead : ∀ p, j ≤ p → buf[p]? ≠ some y

lemma Skipped.evictPass {n j : Nat} {fresh' : List CacheKey} (h : Skipped c buf fresh j y)
    (hpass : evictPass now n j c buf fresh = some (c', fresh')) : y ∈ c'.entries ∧ y ∉ fresh' := by
  induction n generalizing j c buf fresh with
  | zero =>
    obtain ⟨rfl, rfl⟩ := hpass
    exact ⟨h.resident, h.unread⟩
  | succ n ih =>
    rw [Cache.evictPass] at hpass
    split at hpass
    · cases hpass
    · rename_i key hget
      have hne : key ≠ y := by
        rintro rfl
        exact h.ahead j le_rfl hget
      have htake : y ∈ c.accessOrder.take (j + 1) :=
        take_subset_take_left c.accessOrder (Nat.le_succ j) h.passed
      split at hpass
      · cases hpass
      · rename_i entry he
        split at hpass
        · have horder := (removeEntryLocked_of_mem (Finmap.mem_of_lookup_eq_some he)).2
          refine ih ⟨?_, h.unread, ?_, ?_, ?_⟩ hpass
          · exact mem_removeEntryLocked.mpr ⟨hne.symm, h.resident⟩
          · exact horder ▸ h.nodup.erase key
          · exact horder ▸ mem_take_erase htake hne
          · rw [horder]
            exact writeBack_erase_ne h.nodup htake hne (fun p hp => h.ahead p (by omega))
        · refine ih ⟨h.resident, ?_, h.nodup, htake, ?_⟩ hpass
          · rw [mem_append, mem_singleton]
            rintro (hin | heq)
            · exact h.unread hin
            · exact hne heq.symm
          · exact fun p hp => h.ahead p (by omega)

/-- Otherwise the first loop loses the key after the first expired one. -/
lemma evictExpired_early (h : c.Consistent) {z : CacheKey}
    (horder : c.accessOrder = keep ++ x :: y :: z :: rest)
    (hkeep : ∀ k ∈ keep, c.expiredAt now k = false) (hexp : c.expiredAt now x = true)
    (hevict : c.evictExpired now = some c') : c'.Orphan y := by
  have hnd : (keep ++ x :: y :: z :: rest).Nodup := horder ▸ h.nodup
  have hmem : ∀ k ∈ keep ++ x :: y :: z :: rest, k ∈ c.entries :=
    fun k hk => (h.mem_iff k).mp (horder ▸ hk)
  have hxkeep : x ∉ keep := by
    intro hk
    rw [hkeep x hk] at hexp
    exact Bool.noConfusion hexp
  have hykeep : y ∉ keep := fun hk => (List.nodup_append.mp hnd).2.2 y hk y (by simp) rfl
  have hyx : y ≠ x := by
    rintro rfl
    simp [nodup_append] at hnd
  have hx : x ∈ c.entries := hmem x (by simp)
  have herase : (keep ++ x :: y :: z :: rest).erase x = keep ++ y :: z :: rest := by
    rw [erase_append_right _ hxkeep, erase_cons_head]
  have hremove : (c.removeEntryLocked x).accessOrder = keep ++ y :: z :: rest := by
    rw [removeEntryLocked_accessOrder h, horder, herase]
  have hget : (keep ++ x :: y :: z :: rest)[keep.length]? = some x := by simp
  have hskip : Skipped (c.removeEntryLocked x).countEvict
      (writeBack (keep ++ y :: z :: rest) (keep ++ x :: y :: z :: rest)) keep
      (keep.length + 1) y := by
    have hnd' : (keep ++ y :: z :: rest).Nodup := herase ▸ hnd.erase x
    have htake : y ∈ (keep ++ y :: z :: rest).take (keep.length + 1) := by
      simp [take_append]
    refine ⟨mem_removeEntryLocked.mpr ⟨hyx, hmem y (by simp)⟩, hykeep, ?_, ?_, ?_⟩
    · exact hremove ▸ hnd'
    · exact hremove ▸ htake
    · intro p hp
      by_cases hlt : p < (keep ++ y :: z :: rest).length
      · rw [getElem?_writeBack_of_lt hlt]
        exact getElem?_ne_of_mem_take hnd' htake hp
      · rw [getElem?_writeBack_of_le (Nat.le_of_not_lt hlt)]
        refine getElem?_ne_of_mem_take hnd (j := keep.length + 2) ?_ ?_
        · simp [take_append]
        · simp only [length_append, length_cons] at hlt
          omega
  rw [evictExpired_append h horder hkeep, length_cons, length_cons,
    evictPass_expired now _ hget hx hexp, hremove, Option.map_eq_some_iff] at hevict
  obtain ⟨⟨c₁, fresh⟩, hpass, rfl⟩ := hevict
  obtain ⟨hin, hout⟩ := hskip.evictPass hpass
  exact ⟨hin, hout⟩

lemma evictOldest_of_le (h : c.size ≤ c.capacity) (fuel : Nat) : evictOldest fuel c = some c := by
  cases fuel with
  | zero => rfl
  | succ fuel => rw [evictOldest, if_neg (Nat.not_lt.mpr h)]

lemma Orphan.evictOldest (h : c.Orphan y) {fuel : Nat} (hevict : evictOldest fuel c = some c') :
    c'.Orphan y := by
  induction fuel generalizing c with
  | zero =>
    cases hevict
    exact h
  | succ fuel ih =>
    rw [Cache.evictOldest] at hevict
    split at hevict
    · split at hevict
      · cases hevict
        exact h
      · rename_i key rest horder
        have hkey : y ≠ key := by
          rintro rfl
          exact h.2 (by simp [horder])
        have hout : y ∉ (c.removeEntryLocked key).accessOrder := by
          by_cases hin : key ∈ c.entries
          · rw [(removeEntryLocked_of_mem hin).2]
            exact fun hy => h.2 (mem_of_mem_erase hy)
          · rw [removeEntryLocked_of_notMem hin]
            exact h.2
        cases htail : (c.removeEntryLocked key).accessOrder with
        | nil => simp [htail] at hevict
        | cons dropped tail =>
          simp only [htail] at hevict
          have hin : y ∈ (c.removeEntryLocked key).entries := mem_removeEntryLocked.mpr ⟨hkey, h.1⟩
          rw [htail] at hout
          apply ih _ hevict
          exact ⟨hin, fun hy => hout (mem_cons_of_mem _ hy)⟩
    · cases hevict
      exact h

/-- Evicting for capacity drops the second oldest key from the order and keeps its entry. -/
lemma evictOldest_orphan (h : c.Consistent) (hcap : 1 ≤ c.capacity) (hfull : c.capacity < c.size)
    (hevict : evictOldest c.accessOrder.length c = some c') : ∃ y, c'.Orphan y := by
  have hsize := h.size_eq
  match horder : c.accessOrder with
  | [] =>
    rw [horder, length_nil] at hsize
    omega
  | [_] =>
    rw [horder, length_singleton] at hsize
    omega
  | key :: y :: rest =>
    have hnd := h.nodup
    rw [horder, nodup_cons, nodup_cons, mem_cons, not_or] at hnd
    obtain ⟨⟨hkey, -⟩, hy, -⟩ := hnd
    have hremove : (c.removeEntryLocked key).accessOrder = y :: rest := by
      rw [removeEntryLocked_accessOrder h, horder, erase_cons_head]
    rw [horder, length_cons, evictOldest, if_pos hfull, horder] at hevict
    simp only [hremove] at hevict
    refine ⟨y, Orphan.evictOldest ⟨?_, hy⟩ hevict⟩
    refine mem_removeEntryLocked.mpr ⟨fun heq => hkey heq.symm, (h.mem_iff y).mp ?_⟩
    simp [horder]

/-! ### Eviction as a whole -/

structure Evicted (c : Cache V) : Prop where
  consistent : c.Consistent
  bounded : c.size ≤ c.capacity

/-- Every expired key is one of the last two of the order `front ++ [key]`, and the keys that
are left fit. -/
structure Fits (c : Cache V) (now : Int) (front : List CacheKey) (key : CacheKey) : Prop where
  unexpired : ∀ k ∈ front.dropLast, c.expiredAt now k = false
  room : ((front ++ [key]).filter (fun k => !c.expiredAt now k)).length ≤ c.capacity

lemma evictExpired_swept (h : c.Consistent) (horder : c.accessOrder = front ++ [key])
    (hfront : ∀ k ∈ front.dropLast, c.expiredAt now k = false) :
    ∃ c', c.evictExpired now = some c' ∧ Swept c c' now := by
  obtain rfl | ⟨keep, k, rfl⟩ := eq_nil_or_concat front
  · exact evictExpired_last h horder (by simp)
  · rw [concat_eq_append] at horder hfront
    rw [dropLast_concat] at hfront
    cases hexp : c.expiredAt now k with
    | true =>
      rw [append_assoc] at horder
      exact evictExpired_pair h horder hfront hexp
    | false =>
      refine evictExpired_last h horder ?_
      intro x hx
      obtain hx | hx := List.mem_append.mp hx
      · exact hfront x hx
      · rw [List.mem_singleton.mp hx]
        exact hexp

lemma evictExpired_orphan (h : c.Consistent) (horder : c.accessOrder = front ++ [key])
    (hk : k ∈ front.dropLast) (hexp : c.expiredAt now k = true)
    (hevict : c.evictExpired now = some c') : ∃ y, c'.Orphan y := by
  -- the first expired key has at least two keys after it
  obtain ⟨x, hfind⟩ : ∃ x, front.dropLast.find? (c.expiredAt now) = some x :=
    Option.isSome_iff_exists.mp (List.find?_isSome.mpr ⟨k, hk, hexp⟩)
  obtain ⟨hx, keep, tail, hsplit, hkeep⟩ := List.find?_eq_some_iff_append.mp hfind
  obtain ⟨last, hlast⟩ : ∃ last, front = front.dropLast ++ [last] := by
    obtain rfl | ⟨init, last, rfl⟩ := eq_nil_or_concat front
    · simp at hk
    · exact ⟨last, by simp⟩
  have hlist : c.accessOrder = keep ++ x :: (tail ++ [last, key]) := by
    rw [horder, hlast, hsplit]
    simp
  have hkeep' : ∀ a ∈ keep, c.expiredAt now a = false := by
    intro a ha
    simpa using hkeep a ha
  match htail : tail ++ [last, key] with
  | [] => simp at htail
  | [_] => simp [append_eq_singleton_iff] at htail
  | y :: z :: rest => exact ⟨y, evictExpired_early h (htail ▸ hlist) hkeep' hx hevict⟩

lemma evictLocked_evicted_iff (h : c.Consistent) (hcap : 1 ≤ c.capacity)
    (horder : c.accessOrder = front ++ [key]) :
    (∃ c', c.evictLocked now = some c' ∧ c'.Evicted) ↔ Fits c now front key := by
  constructor
  · rintro ⟨c', hevict, hok⟩
    obtain ⟨c₁, hfirst, hsecond⟩ := Option.bind_eq_some_iff.mp hevict
    have hunexpired : ∀ k ∈ front.dropLast, c.expiredAt now k = false := by
      intro k hk
      by_contra hexp
      rw [Bool.not_eq_false] at hexp
      obtain ⟨y, hy⟩ := evictExpired_orphan h horder hk hexp hfirst
      exact hok.consistent.not_orphan y (hy.evictOldest hsecond)
    refine ⟨hunexpired, ?_⟩
    by_contra hroom
    obtain ⟨c₂, hc₂, hswept⟩ := evictExpired_swept h horder hunexpired
    obtain rfl : c₁ = c₂ := Option.some.inj (hfirst.symm.trans hc₂)
    have hfull : c₁.capacity < c₁.size := by
      rw [hswept.consistent.size_eq, hswept.order, hswept.capacity, horder]
      omega
    obtain ⟨y, hy⟩ := evictOldest_orphan hswept.consistent (hswept.capacity ▸ hcap) hfull hsecond
    exact hok.consistent.not_orphan y hy
  · rintro ⟨hunexpired, hroom⟩
    obtain ⟨c₁, hfirst, hswept⟩ := evictExpired_swept h horder hunexpired
    have hsize : c₁.size ≤ c₁.capacity := by
      rw [hswept.consistent.size_eq, hswept.order, hswept.capacity, horder]
      exact hroom
    refine ⟨c₁, ?_, hswept.consistent, hsize⟩
    exact Option.bind_eq_some_iff.mpr ⟨c₁, hfirst, evictOldest_of_le hsize _⟩

end Cache

end Symkernel.ResultCache
