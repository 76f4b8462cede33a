import Symkernel.Federation.Convergence
import Symkernel.Federation.Interleaving

/-!
# Races between writes

A thread writes what it decided from an earlier read.
-/

namespace Symkernel.Federation

open Symkernel.Library

/-- No acknowledged write is lost, and no version is acknowledged twice. -/
structure Safe (m : Machine) : Prop where
  kept : ∀ (i : ℕ) region p, m.threads[i]? = some (.returned region p) →
    p.revision ≤ revisionOf ((m.fleet.stores region).get p.id)
  distinct : ∀ (i j : ℕ) region p q, i ≠ j → m.threads[i]? = some (.returned region p) →
    m.threads[j]? = some (.returned region q) → p.id = q.id → p.version ≠ q.version

/-- The entry that the next operation of a thread overwrites is the one that it has read, and a
version that it authors does not wrap around. -/
def Thread.Undisturbed (f : Fleet) : Thread → Prop
  | .putRead region _ id _ cur => (f.stores region).get id = cur ∧
    ∀ c, cur = some c → c.version.val + 1 < 2 ^ 64
  | .comparing region _ target _ (lp :: _) remoteByID =>
    (revisionOf (remoteByID.lookup lp.id) < lp.revision →
      (f.stores target).get lp.id = remoteByID.lookup lp.id) ∧
    (lp.revision < revisionOf (remoteByID.lookup lp.id) →
      (f.stores region).get lp.id = some lp)
  | .pulling region _ _ _ (id :: _) remoteByID =>
    remoteByID.lookup id ≠ none → (f.stores region).get id = none
  | _ => True

def Machine.Undisturbed (m : Machine) : Sched → Prop
  | .start _ => True
  | .advance i => ∀ thread, m.threads[i]? = some thread → thread.Undisturbed m.fleet

def Thread.wrote : Thread → Option (String × Policy)
  | .pushing region p _ | .returned region p => some (region, p)
  | _ => none

/-- A thread of a fleet in async mode: nothing to push, and the peer's policies filed by id. -/
def Thread.Ready : Thread → Prop
  | .pushing _ _ targets => targets = []
  | .comparing _ _ _ _ _ remoteByID | .pulling _ _ _ _ _ remoteByID =>
    ∀ id p, remoteByID.lookup id = some p → p.id = id
  | _ => True

section Operations

variable {cfg : String → Config} {f : Fleet}

lemma begin_ready (cfg : String → Config) (f : Fleet) (call : Call) :
    (begin cfg f call).2.Ready ∧ (begin cfg f call).2.wrote = none ∧
      (begin cfg f call).1.stores = f.stores := by
  cases call <;> exact ⟨trivial, rfl, rfl⟩

lemma advance_ready (hasync : ∀ region, (cfg region).mode = .async) {thread : Thread}
    (h : thread.Ready) : (advance cfg f thread).2.Ready := by
  cases thread with
  | put region now id body =>
    rw [advance]
    split <;> trivial
  | putRead region now id body cur =>
    rw [advance, hasync region]
    rfl
  | pushing region p targets =>
    obtain rfl : targets = [] := h
    trivial
  | reconcile region order targets => cases targets <;> trivial
  | listed region order target targets loc =>
    rw [advance]
    by_cases hm : target ∈ f.mounted
    · rw [Fleet.listPolicies, Fleet.storeFor, if_pos hm]
      intro id p hentry
      exact MemoryStore.id_of_get ((lookup_byID (f.stores target) order.listed id).symm.trans hentry)
    · rw [Fleet.listPolicies, Fleet.storeFor, if_neg hm]
      trivial
  | comparing region order target targets loc remoteByID =>
    cases loc with
    | nil => exact h
    | cons lp loc =>
      intro id p hentry
      by_cases hid : id = lp.id
      · subst hid
        rw [Finmap.lookup_erase] at hentry
        cases hentry
      · rw [Finmap.lookup_erase_ne hid] at hentry
        exact h id p hentry
  | pulling region order target targets ids remoteByID =>
    cases ids with
    | nil => trivial
    | cons id ids => exact h
  | returned region p | failed err | done => trivial

def NewerWrite (f f' : Fleet) (region : String) (p : Policy) : Prop :=
  revisionOf ((f.stores region).get p.id) < p.revision ∧
    f'.stores = Function.update f.stores region ((f.stores region).put p)

variable {region : String}

lemma NewerWrite.le {f' : Fleet} {p : Policy} (h : NewerWrite f f' region p) (r id : String) :
    revisionOf ((f.stores r).get id) ≤ revisionOf ((f'.stores r).get id) := by
  rw [h.2]
  by_cases hr : r = region
  · subst hr
    rw [Function.update_self, MemoryStore.get_put]
    split
    next hid =>
      subst hid
      exact h.1.le
    next => exact le_rfl
  · rw [Function.update_of_ne hr]

lemma NewerWrite.get {f' : Fleet} {p : Policy} (h : NewerWrite f f' region p) :
    (f'.stores region).get p.id = some p := by
  rw [h.2, Function.update_self, MemoryStore.get_put, if_pos rfl]

lemma put_newer (now : ℤ) {id : String} (body : List UInt8) {cur : Option Policy}
    (hget : (f.stores region).get id = cur)
    (hwrap : ∀ c, cur = some c → c.version.val + 1 < 2 ^ 64) :
    (∀ c, (f.stores region).get id = some c →
      c.version < (authorRevision region now id body cur).version) ∧
    revisionOf ((f.stores region).get id) < (authorRevision region now id body cur).revision := by
  have hversion : ∀ c, cur = some c → c.version < (authorRevision region now id body cur).version := by
    rintro c rfl
    have := hwrap c rfl
    simp only [authorRevision, Fin.lt_def, val_nextVersion]
    omega
  rw [hget]
  refine ⟨hversion, ?_⟩
  cases cur with
  | none => exact WithBot.bot_lt_coe _
  | some c => exact WithBot.coe_lt_coe.mpr (revision_lt_iff.mpr (.inl (hversion c rfl)))

/-- An undisturbed operation writes nothing or replaces an older entry, and only the write of
`Put` makes its thread one that has written. -/
lemma advance_cases {thread : Thread} (hready : thread.Ready) (h : thread.Undisturbed f) :
    ((advance cfg f thread).1.stores = f.stores ∨
        ∃ region p, NewerWrite f (advance cfg f thread).1 region p) ∧
      (advance cfg f thread).2.wrote = thread.wrote ∨
    ∃ region p, NewerWrite f (advance cfg f thread).1 region p ∧
      (advance cfg f thread).2.wrote = some (region, p) ∧
      ∀ c, (f.stores region).get p.id = some c → c.version < p.version := by
  cases thread with
  | put region now id body =>
    left
    rw [advance]
    split <;> exact ⟨.inl rfl, rfl⟩
  | putRead region now id body cur =>
    obtain ⟨hget, hwrap⟩ := h
    obtain ⟨hversion, hnewer⟩ := put_newer now body hget hwrap
    exact .inr ⟨region, authorRevision region now id body cur, ⟨hnewer, rfl⟩, rfl, hversion⟩
  | pushing region p targets =>
    obtain rfl : targets = [] := hready
    exact .inl ⟨.inl rfl, rfl⟩
  | reconcile region order targets => cases targets <;> exact .inl ⟨.inl rfl, rfl⟩
  | listed region order target targets loc =>
    left
    rw [advance]
    split <;> exact ⟨.inl rfl, rfl⟩
  | comparing region order target targets loc remoteByID =>
    cases loc with
    | nil => exact .inl ⟨.inl rfl, rfl⟩
    | cons lp loc =>
      refine .inl ⟨?_, rfl⟩
      obtain ⟨hpush, hpull⟩ := h
      obtain ⟨lp', hlp, hnewer, -, hstores⟩ | ⟨rp, hrp, hnewer, hstores⟩ | ⟨-, hstores⟩ :=
        reconcilePolicy_cases region target (some lp) (remoteByID.lookup lp.id) f
      · obtain rfl := Option.some.inj hlp
        refine .inr ⟨target, lp, ?_, hstores⟩
        rwa [hpush hnewer]
      · have hid := hready lp.id rp hrp
        refine .inr ⟨region, rp, ?_, hstores⟩
        rw [hid, hpull (by rwa [hrp])]
        exact hnewer
      · exact .inl hstores
  | pulling region order target targets ids remoteByID =>
    cases ids with
    | nil => exact .inl ⟨.inl rfl, rfl⟩
    | cons id ids =>
      refine .inl ⟨?_, rfl⟩
      obtain ⟨lp', hlp, -⟩ | ⟨rp, hrp, hnewer, hstores⟩ | ⟨-, hstores⟩ :=
        reconcilePolicy_cases region target none (remoteByID.lookup id) f
      · cases hlp
      · have hid := hready id rp hrp
        refine .inr ⟨region, rp, ?_, hstores⟩
        rw [hid, h (by simp [hrp])]
        exact hnewer
      · exact .inl hstores
  | returned region p | failed err | done => exact .inl ⟨.inl rfl, rfl⟩

end Operations

section Machines

def Machine.wrote (m : Machine) (i : ℕ) : Option (String × Policy) :=
  (m.threads[i]?).bind Thread.wrote

structure Machine.Inv (m : Machine) : Prop where
  ready : ∀ thread ∈ m.threads, thread.Ready
  kept : ∀ i region p, m.wrote i = some (region, p) →
    p.revision ≤ revisionOf ((m.fleet.stores region).get p.id)
  distinct : ∀ i j region p q, i ≠ j → m.wrote i = some (region, p) →
    m.wrote j = some (region, q) → p.id = q.id → p.version ≠ q.version

lemma Machine.Inv.safe {m : Machine} (h : m.Inv) : Safe m := by
  have hwrote : ∀ (i : ℕ) region p, m.threads[i]? = some (.returned region p) →
      m.wrote i = some (region, p) := by
    intro i region p hi
    rw [Machine.wrote, hi]
    rfl
  exact ⟨fun i region p hi => h.kept i region p (hwrote i region p hi),
    fun i j region p q hij hi hj => h.distinct i j region p q hij (hwrote i region p hi)
      (hwrote j region q hj)⟩

lemma Machine.Inv.of_le {m m' : Machine} (h : m.Inv) (hready : ∀ thread ∈ m'.threads, thread.Ready)
    (hle : ∀ r id, revisionOf ((m.fleet.stores r).get id) ≤ revisionOf ((m'.fleet.stores r).get id))
    (hwrote : ∀ i entry, m'.wrote i = some entry → m.wrote i = some entry) : m'.Inv where
  ready := hready
  kept i region p hi := (h.kept i region p (hwrote i _ hi)).trans (hle region p.id)
  distinct i j region p q hij hi hj :=
    h.distinct i j region p q hij (hwrote i _ hi) (hwrote j _ hj)

variable {cfg : String → Config} {m : Machine}

lemma wrote_start (call : Call) (i : ℕ) (entry : String × Policy)
    (h : (m.step cfg (.start call)).wrote i = some entry) : m.wrote i = some entry := by
  rw [Machine.wrote, Machine.step] at h
  by_cases hi : i < m.threads.length
  · rwa [List.getElem?_append_left hi] at h
  · rw [List.getElem?_append_right (by omega)] at h
    obtain ⟨thread, hthread, hwrote⟩ := Option.bind_eq_some_iff.mp h
    have hmem := List.mem_of_getElem? hthread
    rw [List.mem_singleton] at hmem
    rw [hmem, (begin_ready cfg m.fleet call).2.1] at hwrote
    cases hwrote

lemma wrote_advance {i : ℕ} {thread : Thread} (hi : m.threads[i]? = some thread) (j : ℕ) :
    (m.step cfg (.advance i)).wrote j =
      if j = i then (advance cfg m.fleet thread).2.wrote else m.wrote j := by
  have hlt : i < m.threads.length := (List.getElem?_eq_some_iff.mp hi).1
  rw [Machine.wrote, Machine.step, hi]
  by_cases hj : j = i
  · subst hj
    simp [hlt]
  · simp [hj, List.getElem?_set_ne (Ne.symm hj), Machine.wrote]

lemma inv_start (h : m.Inv) (call : Call) : (m.step cfg (.start call)).Inv := by
  have hbegin := begin_ready cfg m.fleet call
  refine h.of_le (fun thread hmem => ?_) (fun r id => ?_) (wrote_start call)
  · rw [Machine.step, List.mem_append, List.mem_singleton] at hmem
    obtain hmem | rfl := hmem
    · exact h.ready thread hmem
    · exact hbegin.1
  · rw [Machine.step, hbegin.2.2]

lemma inv_advance (hasync : ∀ region, (cfg region).mode = .async) (h : m.Inv) {i : ℕ}
    {thread : Thread} (hi : m.threads[i]? = some thread) (hu : thread.Undisturbed m.fleet) :
    (m.step cfg (.advance i)).Inv := by
  have hthread := h.ready thread (List.mem_of_getElem? hi)
  have hfleet : (m.step cfg (.advance i)).fleet = (advance cfg m.fleet thread).1 := by
    rw [Machine.step, hi]
  have hready : ∀ thread' ∈ (m.step cfg (.advance i)).threads, thread'.Ready := by
    intro thread' hmem
    rw [Machine.step, hi] at hmem
    obtain hmem | rfl := List.mem_or_eq_of_mem_set hmem
    · exact h.ready thread' hmem
    · exact advance_ready hasync hthread
  obtain ⟨hstores, hsame⟩ | ⟨region, p, hwrite, hwrote, hversion⟩ := advance_cases hthread hu
  · refine h.of_le hready (fun r id => ?_) (fun j entry hj => ?_)
    · rw [hfleet]
      obtain hstores | ⟨region, p, hwrite⟩ := hstores
      · rw [hstores]
      · exact hwrite.le r id
    · rw [wrote_advance hi] at hj
      split at hj
      next hji =>
        subst hji
        rw [Machine.wrote, hi, Option.bind_some, ← hsame]
        exact hj
      next => exact hj
  · -- what `p` replaces is at least as new as every earlier write of the entry
    have hfresh : ∀ j q, j ≠ i → m.wrote j = some (region, q) → q.id = p.id →
        q.version < p.version := by
      intro j q hj hq hid
      have hkept := h.kept j region q hq
      rw [hid] at hkept
      obtain ⟨c, hc⟩ := exists_of_revisionOf_le (Option.some_ne_none q) hkept
      rw [hc] at hkept
      have hle : q.version ≤ c.version := by
        obtain hlt | ⟨heq, -⟩ := revision_le_iff.mp (WithBot.coe_le_coe.mp hkept)
        · exact hlt.le
        · exact heq.le
      exact hle.trans_lt (hversion c hc)
    refine ⟨hready, fun j r q hq => ?_, fun j k r q q' hjk hq hq' hid => ?_⟩
    · rw [hfleet]
      rw [wrote_advance hi] at hq
      split at hq
      next =>
        rw [hwrote] at hq
        obtain ⟨rfl, rfl⟩ := Prod.mk.inj (Option.some.inj hq)
        rw [hwrite.get]
        exact le_rfl
      next => exact (h.kept j r q hq).trans (hwrite.le r q.id)
    · rw [wrote_advance hi] at hq hq'
      split at hq
      next hj =>
        rw [if_neg (fun hk => hjk (hj.trans hk.symm))] at hq'
        rw [hwrote] at hq
        obtain ⟨rfl, rfl⟩ := Prod.mk.inj (Option.some.inj hq)
        exact (hfresh k q' (fun hk => hjk (hj.trans hk.symm)) hq' hid.symm).ne'
      next hj =>
        split at hq'
        next hk =>
          rw [hwrote] at hq'
          obtain ⟨rfl, rfl⟩ := Prod.mk.inj (Option.some.inj hq')
          exact (hfresh j q hj hq hid).ne
        next => exact h.distinct j k r q q' hjk hq hq' hid

lemma inv_step (hasync : ∀ region, (cfg region).mode = .async) (h : m.Inv) (s : Sched)
    (hu : m.Undisturbed s) : (m.step cfg s).Inv := by
  cases s with
  | start call => exact inv_start h call
  | advance i =>
    cases hi : m.threads[i]? with
    | none =>
      rw [Machine.step, hi]
      exact h
    | some thread => exact inv_advance hasync h hi (hu thread hi)

end Machines

/-- In a fleet in async mode, a schedule whose writes all find the entry that their call has
read, without a wrapped version, loses no acknowledged write and gives no version out twice. -/
theorem acknowledged_writes_kept (cfg : String → Config)
    (hasync : ∀ region, (cfg region).mode = .async) (f : Fleet) (schedule : List Sched)
    (hu : EveryStep (Machine.step cfg) Machine.Undisturbed ⟨f, []⟩ schedule) :
    EveryState (Machine.step cfg) Safe ⟨f, []⟩ schedule := by
  have hstart : (⟨f, []⟩ : Machine).Inv := by
    refine ⟨by simp, fun i region p h => ?_, fun i j region p q _ h => ?_⟩ <;>
      simp [Machine.wrote] at h
  have hinv : EveryState (Machine.step cfg) Machine.Inv ⟨f, []⟩ schedule :=
    EveryState.of_invariant (fun _ s h hu => inv_step hasync h s hu) hstart hu
  exact hinv.mono fun _ h => h.safe

theorem two_writes_in_turn_kept : EveryState (Machine.step peersConfig) Safe ⟨emptyFleet, []⟩
      [.start (.put "a" 1 "policy" [1]), .advance 0, .advance 0, .advance 0,
        .start (.put "a" 2 "policy" [2]), .advance 1, .advance 1, .advance 1] := by
  refine acknowledged_writes_kept peersConfig (fun _ => rfl) emptyFleet _ ?_
  refine ⟨trivial, ?_, ?_, ?_, trivial, ?_, ?_, ?_, trivial⟩ <;> rintro thread ⟨rfl⟩
  · trivial
  · refine ⟨rfl, ?_⟩
    rintro c ⟨⟩
  · trivial
  · trivial
  · refine ⟨rfl, ?_⟩
    rintro c ⟨rfl⟩
    decide
  · trivial

/-- Two writes of one region that read before either has written both return version 1. -/
def racingWrites : List Sched :=
  [.start (.put "a" 1 "policy" [1]), .start (.put "a" 2 "policy" [2]),
    .advance 0, .advance 1, .advance 0, .advance 1, .advance 0, .advance 1]

/-- Region `b` lists both stores before `a` writes twice, and pushes its own version 1 after. -/
def stalePush : List Sched :=
  [.start (.put "b" 1 "policy" [1]), .advance 0, .advance 0, .advance 0,
    .start (.reconcile "b" ascendingPass), .advance 1, .advance 1,
    .start (.put "a" 2 "policy" [2]), .advance 2, .advance 2, .advance 2,
    .start (.put "a" 3 "policy" [3]), .advance 3, .advance 3, .advance 3,
    .advance 1]

theorem races_lose_writes : (∀ region, (peersConfig region).mode = .async) ∧
    ¬ Safe (runFrom (Machine.step peersConfig) ⟨emptyFleet, []⟩ racingWrites) ∧
    ¬ Safe (runFrom (Machine.step peersConfig) ⟨emptyFleet, []⟩ stalePush) := by
  refine ⟨fun _ => rfl, fun h => ?_, fun h => ?_⟩
  · exact h.distinct 0 1 "a" _ _ (by decide) rfl rfl rfl rfl
  · exact absurd (h.kept 3 "a" _ rfl) (by decide)

end Symkernel.Federation
