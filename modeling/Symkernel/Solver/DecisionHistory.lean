import Symkernel.Library.MoveToFront
import Symkernel.Library.Runs
import Symkernel.Solver.Decisions

/-!
# The cache of decisions as an LRU cache

The list holds the hashes in the order of their last uses, cut after `maxEntries`.
-/

namespace Symkernel.Solver

open Library List Finmap

inductive CacheCall (κ : Type*) where
  | get (hash : κ)
  | set (hash : κ) (decision : Decision)

def Decision.SameAs (d d' : Decision) : Prop :=
  d.sat = d'.sat ∧ d.model = d'.model ∧ d.unsatCore.getD [] = d'.unsatCore.getD []

namespace DecisionCache

variable {κ : Type*} [DecidableEq κ]

def step (c : DecisionCache κ) : CacheCall κ → DecisionCache κ
  | .get hash => (c.getByHash hash).1
  | .set hash decision => c.setByHash hash decision

def used (c : DecisionCache κ) : CacheCall κ → List κ
  | .get hash => if (c.getByHash hash).2.isSome then [hash] else []
  | .set hash _ => [hash]

def inserted (c : DecisionCache κ) : CacheCall κ → List κ
  | .get _ => []
  | .set hash _ => if c.maxEntries ≠ 0 ∧ hash ∉ c.entries then [hash] else []

def uses (maxEntries : Nat) (calls : List (CacheCall κ)) : List κ :=
  outputs step used (new maxEntries) calls

def insertions (maxEntries : Nat) (calls : List (CacheCall κ)) : List κ :=
  outputs step inserted (new maxEntries) calls

/-- What the call says about the decision of a hash, given what was said before. -/
def lastSetStep (hash : κ) (last : Option Decision) : CacheCall κ → Option Decision
  | .get _ => last
  | .set hash' decision => if hash' = hash then some decision else last

def lastSet (calls : List (CacheCall κ)) (hash : κ) : Option Decision :=
  calls.foldl (lastSetStep hash) none

def hashes (c : DecisionCache κ) : List κ := c.lru.map Element.hash

variable {c : DecisionCache κ}

lemma Linked.mem_entries_iff (hc : c.Linked) {hash : κ} : hash ∈ c.entries ↔ hash ∈ c.hashes := by
  rw [← lookup_isSome, Option.isSome_iff_exists, hashes, mem_map]
  constructor
  · rintro ⟨id, hid⟩
    obtain ⟨e, he, hhash, -⟩ := (hc.points hash id).mp hid
    exact ⟨e, he, hhash⟩
  · rintro ⟨e, he, hhash⟩
    exact ⟨e.id, (hc.points hash e.id).mpr ⟨e, he, hhash, rfl⟩⟩

lemma Linked.nodup_hashes (hc : c.Linked) : c.hashes.Nodup := by
  refine List.Nodup.map_on (fun e he e' he' hhash => hc.eq_of_hash he he' hhash) ?_
  exact hc.distinct.of_map _

lemma Linked.hashes_toFront (hc : c.Linked) {e e' : Element κ} (he : e ∈ c.lru)
    (hid : e'.id = e.id) (hhash : e'.hash = e.hash) :
    (c.toFront e').map Element.hash = touch c.hashes e'.hash := by
  rw [DecisionCache.toFront, map_cons, touch, hashes, filter_map]
  congr 2
  refine filter_congr fun e₁ he₁ => ?_
  simp only [Function.comp_apply, decide_eq_decide, hid, hhash, not_iff_not]
  constructor
  · intro h
    rw [hc.eq_of_id he₁ he h]
  · intro h
    rw [hc.eq_of_hash he₁ he h]

lemma Linked.length_toFront (hc : c.Linked) {e e' : Element κ} (he : e ∈ c.lru)
    (hid : e'.id = e.id) (hhash : e'.hash = e.hash) : (c.toFront e').length = c.lru.length := by
  have hmem : e'.hash ∈ c.hashes := by
    rw [hhash]
    exact mem_map_of_mem he
  rw [← length_map Element.hash, hc.hashes_toFront he hid hhash,
    length_touch_of_mem hc.nodup_hashes hmem, hashes, length_map]

lemma lru_evict (hlen : c.lru.length ≤ c.maxEntries + 1) :
    c.evict.lru = c.lru.take c.maxEntries := by
  unfold evict
  split
  · rename_i hle
    rw [take_of_length_le hle]
  · rename_i hlong
    cases hlast : c.lru.getLast? with
    | none =>
      rw [List.getLast?_eq_none_iff] at hlast
      rw [hlast, take_nil]
    | some oldest =>
      rw [dropLast_eq_take, show c.lru.length - 1 = c.maxEntries by omega]

lemma maxEntries_evict (c : DecisionCache κ) : c.evict.maxEntries = c.maxEntries := by
  unfold evict
  split
  · rfl
  · split <;> rfl

lemma evictions_evict (c : DecisionCache κ) :
    c.evict.evictions + c.evict.lru.length = c.evictions + c.lru.length := by
  unfold evict
  split
  · rfl
  · rename_i hlong
    cases hlast : c.lru.getLast? with
    | none => rfl
    | some oldest =>
      dsimp only
      rw [length_dropLast]
      omega

/-- The cache after the uses, insertions and decisions of a history. -/
structure Tracks (maxEntries : Nat) (uses insertions : List κ) (last : κ → Option Decision)
    (c : DecisionCache κ) : Prop where
  consistent : c.Consistent
  size : c.maxEntries = maxEntries
  order : c.hashes = (recency uses).take maxEntries
  values : ∀ e ∈ c.lru, ∃ d, last e.hash = some d ∧ e.decision = cloneDecision d
  count : c.evictions + c.lru.length = insertions.length

namespace Tracks

variable {maxEntries : Nat} {uses insertions : List κ} {last : κ → Option Decision}

lemma new (maxEntries : Nat) :
    Tracks maxEntries [] [] (fun _ : κ => none) (DecisionCache.new maxEntries) where
  consistent := consistent_new maxEntries
  size := rfl
  order := by
    rw [recency, foldl_nil, take_nil]
    rfl
  values e he := by cases he
  count := rfl

section Operations

variable (h : Tracks maxEntries uses insertions last c)
include h

lemma moveToFront {e : Element κ}
    (he : e ∈ c.lru) (e' : Element κ) (hid : e'.id = e.id) (hhash : e'.hash = e.hash)
    {last' : κ → Option Decision} {d : Decision} (hd : last' e'.hash = some d)
    (he' : e'.decision = cloneDecision d) (hother : ∀ k, k ≠ e'.hash → last' k = last k)
    (hits : Nat) : Tracks maxEntries (uses ++ [e'.hash]) insertions last'
      { c with lru := c.toFront e', hits := hits } := by
  have hlinked := h.consistent.toLinked
  have hlength := hlinked.length_toFront he hid hhash
  refine ⟨⟨hlinked.toFront he hid hhash hits, ?_⟩, h.size, ?_, fun e₁ he₁ => ?_, ?_⟩
  · rw [hlength]
    exact h.consistent.bounded
  · have hmem : e'.hash ∈ (recency uses).take maxEntries := by
      rw [← h.order, hhash]
      exact mem_map_of_mem he
    rw [recency_concat, take_touch_of_mem (nodup_recency uses) hmem, ← h.order]
    exact hlinked.hashes_toFront he hid hhash
  · obtain rfl | ⟨he₁, hne⟩ := mem_toFront.mp he₁
    · exact ⟨d, hd, he'⟩
    · have hkey : e₁.hash ≠ e'.hash := fun heq =>
        hne (by rw [hlinked.eq_of_hash he₁ he (heq.trans hhash), hid])
      rw [hother _ hkey]
      exact h.values e₁ he₁
  · rw [hlength]
    exact h.count

lemma insert (hmax : maxEntries ≠ 0) {hash : κ}
    (hnew : c.entries.lookup hash = none) {last' : κ → Option Decision} {d : Decision}
    (hd : last' hash = some d) (hother : ∀ k, k ≠ hash → last' k = last k) :
    Tracks maxEntries (uses ++ [hash]) (insertions ++ [hash]) last'
      (c.pushFront hash (cloneDecision d)).evict := by
  have hlinked := h.consistent.toLinked
  have hlen : (c.pushFront hash (cloneDecision d)).lru.length ≤ c.maxEntries + 1 :=
    Nat.succ_le_succ h.consistent.bounded
  have hlru := lru_evict hlen
  have habsent : hash ∉ c.hashes := by
    rw [← hlinked.mem_entries_iff, ← lookup_eq_none]
    exact hnew
  refine ⟨(hlinked.pushFront hnew _).evict hlen, ?_, ?_, fun e he => ?_, ?_⟩
  · rw [maxEntries_evict]
    exact h.size
  · rw [h.order] at habsent
    obtain ⟨n, rfl⟩ := Nat.exists_eq_succ_of_ne_zero hmax
    have htail : c.hashes.take n = (recency uses).take n := by
      rw [h.order, take_take, Nat.min_eq_left n.le_succ]
    rw [recency_concat, take_touch_of_notMem habsent, ← htail, hashes, hlru, hashes,
      show (c.pushFront hash (cloneDecision d)).maxEntries = n + 1 from h.size, pushFront,
      take_succ_cons, map_cons, map_take]
  · obtain rfl | he := List.mem_cons.mp (mem_evict he)
    · exact ⟨d, hd, rfl⟩
    · have hkey : e.hash ≠ hash := fun heq => habsent (heq ▸ mem_map_of_mem he)
      rw [hother _ hkey]
      exact h.values e he
  · rw [evictions_evict, length_append, ← h.count]
    rfl

lemma get (hash : κ) :
    Tracks maxEntries (uses ++ c.used (.get hash)) insertions last (c.getByHash hash).1 := by
  unfold used
  dsimp only
  unfold DecisionCache.getByHash
  cases hlookup : (c.entries.lookup hash).bind c.element with
  | none =>
    simp only [Option.isSome_none, Bool.false_eq_true, if_false, append_nil]
    have hc := h.consistent
    exact ⟨⟨⟨hc.distinct, hc.created, hc.points⟩, hc.bounded⟩, h.size, h.order, h.values, h.count⟩
  | some e =>
    obtain ⟨he, rfl⟩ := h.consistent.lookup_eq_some.mp hlookup
    obtain ⟨d, hd, he'⟩ := h.values e he
    exact h.moveToFront he e rfl rfl hd he' (fun _ _ => rfl) _

lemma set (hash : κ) (decision : Decision) : Tracks maxEntries (uses ++ c.used (.set hash decision))
      (insertions ++ c.inserted (.set hash decision))
      (fun k => lastSetStep k (last k) (.set hash decision)) (c.setByHash hash decision) := by
  have hself : lastSetStep hash (last hash) (.set hash decision) = some decision := if_pos rfl
  have hother : ∀ k, k ≠ hash → lastSetStep k (last k) (.set hash decision) = last k :=
    fun k hk => if_neg (Ne.symm hk)
  unfold used inserted
  dsimp only
  unfold DecisionCache.setByHash
  by_cases hzero : c.maxEntries = 0
  · -- nothing is stored
    rw [if_pos hzero, if_neg (fun hne => hne.1 hzero), append_nil]
    have hempty : c.lru = [] := by
      rw [← length_eq_zero_iff, ← Nat.le_zero, ← hzero]
      exact h.consistent.bounded
    refine ⟨h.consistent, h.size, ?_, fun e he => ?_, h.count⟩
    · rw [← h.size, hzero, take_zero, hashes, hempty, map_nil]
    · rw [hempty] at he
      cases he
  · rw [if_neg hzero]
    cases hlookup : c.entries.lookup hash with
    | some id =>
      obtain ⟨e, he, rfl, rfl⟩ := (h.consistent.points hash id).mp hlookup
      have hmem : e.hash ∈ c.entries := Finmap.mem_of_lookup_eq_some hlookup
      rw [if_neg (fun hne => hne.2 hmem), append_nil]
      exact h.moveToFront he ⟨e.id, e.hash, cloneDecision decision⟩ rfl rfl hself rfl hother c.hits
    | none =>
      have hnew : hash ∉ c.entries := Finmap.lookup_eq_none.mp hlookup
      rw [if_pos ⟨hzero, hnew⟩]
      exact h.insert (h.size ▸ hzero) hlookup hself hother

end Operations

end Tracks

lemma tracks_runFrom (maxEntries : Nat) (calls : List (CacheCall κ)) :
    Tracks maxEntries (uses maxEntries calls) (insertions maxEntries calls) (lastSet calls)
      (runFrom step (new maxEntries) calls) := by
  induction calls using reverseRecOn with
  | nil => exact Tracks.new maxEntries
  | append_singleton calls call ih =>
    have houtputs : ∀ out : DecisionCache κ → CacheCall κ → List κ,
        outputs step out (new maxEntries) (calls ++ [call]) =
          outputs step out (new maxEntries) calls ++
            out (runFrom step (new maxEntries) calls) call := by
      intro out
      rw [outputs_append, outputs, outputs, append_nil]
    have hlast : lastSet (calls ++ [call]) = fun k => lastSetStep k (lastSet calls k) call := by
      funext k
      rw [lastSet, foldl_concat, ← lastSet]
    rw [uses, insertions, houtputs, houtputs, hlast, runFrom_append]
    cases call with
    | get hash =>
      rw [inserted, append_nil]
      exact ih.get hash
    | set hash decision => exact ih.set hash decision

lemma cloneNames_getD (names : Option (List Text)) :
    (cloneNames names).getD [] = names.getD [] := by
  rcases names with _ | _ | ⟨name, names⟩ <;> rfl

lemma cloneDecision_sameAs (d : Decision) : (cloneDecision d).SameAs d :=
  ⟨rfl, rfl, cloneNames_getD d.unsatCore⟩

lemma cloneDecision_idem (d : Decision) : cloneDecision (cloneDecision d) = cloneDecision d := by
  have hnames : ∀ names, cloneNames (cloneNames names) = cloneNames names := by
    rintro (_ | _ | ⟨name, names⟩) <;> rfl
  rw [cloneDecision, cloneDecision, hnames]

lemma Tracks.getByHash_eq_some_iff {maxEntries : Nat} {uses insertions : List κ}
    {last : κ → Option Decision} (h : Tracks maxEntries uses insertions last c) {hash : κ}
    {result : Decision} : (c.getByHash hash).2 = some result ↔
      Recent maxEntries uses hash ∧ ∃ d, last hash = some d ∧ result = cloneDecision d := by
  have hlinked := h.consistent.toLinked
  rw [← mem_take_recency_iff, ← h.order]
  constructor
  · intro hget
    obtain ⟨e, he, rfl, rfl⟩ := h.consistent.getByHash_hit hget
    obtain ⟨d, hd, hdecision⟩ := h.values e he
    exact ⟨mem_map_of_mem he, d, hd, by rw [hdecision, cloneDecision_idem]⟩
  · rintro ⟨hmem, d, hd, rfl⟩
    obtain ⟨e, he, rfl⟩ := List.mem_map.mp hmem
    obtain ⟨d', hd', hdecision⟩ := h.values e he
    have hlookup := hlinked.lookup_eq_some.mpr ⟨he, rfl⟩
    unfold DecisionCache.getByHash
    rw [hlookup]
    dsimp only
    rw [hdecision, cloneDecision_idem, Option.some.inj (hd'.symm.trans hd)]

/-- The cache is the LRU cache of its history. -/
theorem refines_lru (maxEntries : Nat) (calls : List (CacheCall κ)) :
    let c := runFrom step (new maxEntries) calls
    (c.hashes.Nodup ∧ (∀ hash, hash ∈ c.entries ↔ hash ∈ c.hashes) ∧
        c.entries.keys.card ≤ maxEntries ∧ c.lru.length ≤ maxEntries) ∧
      (∀ hash result, (c.getByHash hash).2 = some result ↔
        Recent maxEntries (uses maxEntries calls) hash ∧
          ∃ d, lastSet calls hash = some d ∧ result = cloneDecision d) ∧
      (∀ d, (cloneDecision d).SameAs d) ∧
      (maxEntries = 0 → c.entries = ∅ ∧ c.lru = []) ∧
      c.evictions + c.lru.length = (insertions maxEntries calls).length := by
  intro c
  have h : Tracks maxEntries (uses maxEntries calls) (insertions maxEntries calls) (lastSet calls)
      c := tracks_runFrom maxEntries calls
  have hlinked := h.consistent.toLinked
  have hbounded : c.lru.length ≤ maxEntries := h.size ▸ h.consistent.bounded
  have hkeys : c.entries.keys = c.hashes.toFinset := by
    ext hash
    rw [Finmap.mem_keys, hlinked.mem_entries_iff, mem_toFinset]
  have hcard : c.entries.keys.card = c.lru.length := by
    rw [hkeys, toFinset_card_of_nodup hlinked.nodup_hashes, hashes, length_map]
  refine ⟨⟨hlinked.nodup_hashes, fun hash => hlinked.mem_entries_iff, hcard ▸ hbounded, hbounded⟩,
    fun hash result => h.getByHash_eq_some_iff, cloneDecision_sameAs, fun hzero => ?_, h.count⟩
  rw [hzero, Nat.le_zero] at hbounded
  rw [hbounded, Finset.card_eq_zero] at hcard
  refine ⟨ext_lookup fun hash => ?_, List.length_eq_zero_iff.mp hbounded⟩
  rw [lookup_empty, lookup_eq_none, ← Finmap.mem_keys, hcard]
  exact Finset.notMem_empty hash

end DecisionCache

end Symkernel.Solver
