import Symkernel.Federation.Exchange
import Symkernel.Library.Runs

/-!
# Sequential runs and older revisions

Regions take turns calling `Put` and `Reconcile`.
-/

namespace Symkernel.Federation

open Symkernel.Library

inductive Call where
  | put (region : String) (now : ℤ) (id : String) (body : List UInt8)
  | reconcile (region : String) (order : PassOrder)

def step (cfg : String → Config) (f : Fleet) : Call → Fleet
  | .put region now id body => (put region (cfg region) now id body f).1
  | .reconcile region order => (reconcile region (cfg region) order f).1

def NeverOlder (f f' : Fleet) : Prop :=
  ∀ region id, revisionOf ((f.stores region).get id) ≤ revisionOf ((f'.stores region).get id)

/-- The condition on a call: the version of an authored policy does not wrap around, and no
mounted target of a synchronous push holds a newer revision than the one authored. -/
def KeepsRevisions (cfg : String → Config) (f : Fleet) : Call → Prop
  | .put region now id body => id ≠ "" →
    (∀ cur, (f.stores region).get id = some cur → cur.version.val + 1 < 2 ^ 64) ∧
    ((cfg region).mode = .sync → ∀ target ∈ (cfg region).targets region, target ∈ f.mounted →
      revisionOf ((f.stores target).get id) ≤
        (authorRevision region now id body ((f.stores region).get id)).revision)
  | .reconcile _ _ => True

section Put

variable {self : String}

lemma pushTo_mounted (p : Policy) (acc : Fleet × List ReplicationError) (t : String) :
    (pushTo self p acc t).1.mounted = acc.1.mounted := by
  by_cases hm : t ∈ acc.1.mounted
  · rw [pushTo, putPolicy_of_mounted hm]
    rfl
  · rw [pushTo, putPolicy_of_not_mounted hm]

lemma pushTo_get (p : Policy) (acc : Fleet × List ReplicationError) (t r k : String) :
    ((pushTo self p acc t).1.stores r).get k =
      if r = t ∧ t ∈ acc.1.mounted ∧ k = p.id then some p else (acc.1.stores r).get k := by
  by_cases hm : t ∈ acc.1.mounted
  · rw [pushTo, putPolicy_of_mounted hm]
    by_cases hr : r = t
    · subst hr
      simp [Fleet.count, Fleet.setStore, MemoryStore.get_put, hm]
    · simp [Fleet.count, Fleet.setStore, hr]
  · rw [pushTo, putPolicy_of_not_mounted hm]
    simp [hm]

lemma foldl_pushTo_get (p : Policy) (targets : List String) (acc : Fleet × List ReplicationError)
    (r k : String) : ((targets.foldl (pushTo self p) acc).1.stores r).get k =
      if r ∈ targets ∧ r ∈ acc.1.mounted ∧ k = p.id then some p else (acc.1.stores r).get k := by
  induction targets generalizing acc with
  | nil => simp
  | cons t targets ih =>
    rw [List.foldl_cons, ih, pushTo_get, pushTo_mounted]
    by_cases hr : r = t
    · subst hr
      by_cases hk : r ∈ acc.1.mounted ∧ k = p.id <;> simp [hk]
    · simp [hr]

lemma put_get (self : String) (cfg : Config) (now : ℤ) {id : String} (hid : id ≠ "")
    (body : List UInt8) (f : Fleet) (r k : String) :
    ((put self cfg now id body f).1.stores r).get k =
      if k = id ∧ (r = self ∨ cfg.mode = .sync ∧ r ∈ cfg.targets self ∧ r ∈ f.mounted)
      then some (authorRevision self now id body ((f.stores self).get id))
      else (f.stores r).get k := by
  set p := authorRevision self now id body ((f.stores self).get id) with hp
  have hpid : p.id = id := rfl
  have hlocal : ((f.setStore self ((f.stores self).put p)).stores r).get k =
      if r = self ∧ k = id then some p else (f.stores r).get k := by
    by_cases hr : r = self
    · subst hr
      simp [Fleet.setStore, MemoryStore.get_put, hpid]
    · simp [Fleet.setStore, hr]
  rw [put, if_neg hid]
  cases hmode : cfg.mode with
  | async =>
    simp only [← hp, Fleet.count, hlocal]
    by_cases hr : r = self <;> simp [hr]
  | sync =>
    simp only [← hp, pushNow, foldl_pushTo_get, Fleet.count, hlocal, hpid]
    by_cases hr : r = self
    · by_cases hk : k = id <;> simp [hr, hk]
    · by_cases hk : k = id <;> simp [hr, hk, Fleet.setStore]

end Put

lemma neverOlder_reconcile (region : String) (cfg : Config) (order : PassOrder) (f : Fleet) :
    NeverOlder f (reconcile region cfg order f).1 :=
  (improves_reconcile (Set.mem_univ region) (fun t _ => Set.mem_univ t) order f).le

lemma val_nextVersion (version : Fin (2 ^ 64)) :
    (version + 1 : Fin (2 ^ 64)).val = (version.val + 1) % 2 ^ 64 := by
  rfl

lemma revision_le_authorRevision_iff (self : String) (now : ℤ) (id : String) (body : List UInt8)
    (cur : Policy) : cur.revision ≤ (authorRevision self now id body (some cur)).revision ↔
      cur.version.val + 1 < 2 ^ 64 := by
  rw [revision_le_iff]
  simp only [authorRevision, Fin.lt_def, Fin.ext_iff, val_nextVersion]
  omega

lemma neverOlder_put_iff (cfg : String → Config) (f : Fleet) (region : String) (now : ℤ)
    (id : String) (body : List UInt8) : NeverOlder f (put region (cfg region) now id body f).1 ↔
      KeepsRevisions cfg f (.put region now id body) := by
  by_cases hid : id = ""
  · refine iff_of_true (fun r k => ?_) (fun h => absurd hid h)
    rw [put, if_pos hid]
  have hget := put_get region (cfg region) now hid body f
  constructor
  · intro hnever _
    constructor
    · intro cur hcur
      have hself := hnever region id
      rw [hget, if_pos ⟨rfl, .inl rfl⟩, hcur] at hself
      exact (revision_le_authorRevision_iff region now id body cur).mp (WithBot.coe_le_coe.mp hself)
    · intro hmode t ht hm
      have htarget := hnever t id
      rwa [hget, if_pos ⟨rfl, .inr ⟨hmode, ht, hm⟩⟩] at htarget
  · intro hkeeps r k
    obtain ⟨hwrap, hsync⟩ := hkeeps hid
    rw [hget]
    split
    next hwritten =>
      obtain ⟨rfl, rfl | ⟨hmode, ht, hm⟩⟩ := hwritten
      · cases hcur : (f.stores r).get k with
        | none => exact bot_le
        | some cur =>
          refine WithBot.coe_le_coe.mpr ?_
          exact (revision_le_authorRevision_iff r now k body cur).mpr (hwrap cur hcur)
      · exact hsync hmode r ht hm
    next => exact le_rfl

/-- In a sequential run no region ever moves back to an older revision exactly when no call of
`Put` wraps the version around or pushes synchronously over a newer revision. -/
theorem never_older_iff (cfg : String → Config) (f : Fleet) (calls : List Call) :
    EveryStep (step cfg) (fun f call => NeverOlder f (step cfg f call)) f calls ↔
      EveryStep (step cfg) (KeepsRevisions cfg) f calls := by
  refine EveryStep.congr_of_invariant (P := fun _ => True) (fun f call _ => ?_)
    (fun _ _ _ _ => trivial) trivial calls
  cases call with
  | put region now id body => exact neverOlder_put_iff cfg f region now id body
  | reconcile region order =>
    exact iff_of_true (neverOlder_reconcile region (cfg region) order f) trivial

/-- Region `a` pushes synchronously to `b`, which replicates in the background. -/
def pairConfig (region : String) : Config where
  mode := if region = "a" then .sync else .async
  regions := if region = "a" then ["b"] else ["a"]
  registry := ∅

def emptyFleet : Fleet where
  stores _ := MemoryStore.newMemoryStore
  mounted := {"a", "b"}
  counters _ := {}

/-- Two revisions are authored in `b`; the first revision authored in `a` replaces the second. -/
theorem sync_push_rolls_back :
    ¬ EveryStep (step pairConfig) (fun f call => NeverOlder f (step pairConfig f call)) emptyFleet
      [.put "b" 1 "policy" [1], .put "b" 2 "policy" [2], .put "a" 3 "policy" [3]] := by
  rintro ⟨-, -, hlast, -⟩
  exact absurd (hlast "b" "policy") (by decide)

end Symkernel.Federation
