import Symkernel.Audit.Log

/-!
# Concurrent records

`Record` reads the clock before it takes the lock, so a goroutine can be overtaken between the
two. The log is in the order of the appends.
-/

namespace Symkernel.Audit

open Library List

/-- The log, the clock, and the entries of the goroutines that have read the clock and wait for
the lock. -/
structure Machine (G : Type) where
  log : Log
  clock : Time
  pending : G → Option Entry

/-- A step of a goroutine, or time passing. `Rotate` reads the clock under the lock. -/
inductive Event (G : Type) where
  | tick (d : Nat)
  | stamp (g : G) (entry : Entry)
  | append (g : G)
  | rotate (g : G) (age : Int)

variable {G : Type} [DecidableEq G] (layout : Layout)

namespace Machine

def start (opts : List Int) (now : Time) : Machine G where
  log := newLog opts
  clock := now
  pending _ := none

/-- A goroutine is in one call at a time; a step that is not its next one does nothing. -/
def step (m : Machine G) : Event G → Machine G
  | .tick d => { m with clock := m.clock + d }
  | .stamp g entry =>
    match m.pending g with
    | some _ => m
    | none =>
      { m with pending := Function.update m.pending g (some (Audit.stamp layout entry m.clock)) }
  | .append g =>
    match m.pending g with
    | some e => { m with log := m.log.append e, pending := Function.update m.pending g none }
    | none => m
  | .rotate g age =>
    match m.pending g with
    | some _ => m
    | none => { m with log := (m.log.rotate layout m.clock age).1 }

end Machine

def NotLater (e e' : Entry) : Prop :=
  ∀ t t', e.timestamp = layout.format t → e'.timestamp = layout.format t' → t ≤ t'

def Chronological (l : Log) : Prop :=
  ∀ since, (l.exportSince layout since).Pairwise (NotLater layout)

def NoneBefore (bound : Time) (l : Log) : Prop :=
  ∀ e ∈ l.entries, ∀ t, e.timestamp = layout.format t → bound ≤ t

/-- After the step every export is chronological, and a rotation has left nothing old. -/
def Orderly (m : Machine G) (event : Event G) : Prop :=
  Chronological layout (m.step layout event).log ∧
    ∀ g age, event = .rotate g age → m.pending g = none →
      NoneBefore layout (cutoff m.clock age) (m.step layout event).log

/-- Before the step: what is appended is not earlier than the last entry that is kept, and what a
rotation should drop can be read. -/
def InOrder (m : Machine G) : Event G → Prop
  | .tick _ | .stamp _ _ => True
  | .append g => ∀ e last, m.pending g = some e → m.log.makeRoom.entries.getLast? = some last →
      NotLater layout last e
  | .rotate g age => m.pending g = none → ∀ e ∈ m.log.entries, ∀ t,
      e.timestamp = layout.format t → t < cutoff m.clock age → layout.parse e.timestamp = some t

variable {layout}

def Stamped (layout : Layout) (e : Entry) : Prop :=
  ∃ t, e.timestamp = layout.format t

structure Machine.Inv (layout : Layout) (m : Machine G) : Prop where
  sorted : m.log.entries.Pairwise (NotLater layout)
  logged : ∀ e ∈ m.log.entries, Stamped layout e
  waiting : ∀ g e, m.pending g = some e → Stamped layout e

lemma chronological_iff_pairwise (l : Log) :
    Chronological layout l ↔ l.entries.Pairwise (NotLater layout) := by
  constructor
  · intro h
    have hall := h none
    rwa [Log.exportSince, filter_true] at hall
  · intro h since
    exact h.sublist filter_sublist

lemma NotLater.trans {a b c : Entry} (hab : NotLater layout a b) (hbc : NotLater layout b c)
    (hb : Stamped layout b) : NotLater layout a c := by
  obtain ⟨u, hu⟩ := hb
  intro t t' ht ht'
  exact (hab t u ht hu).trans (hbc u t' hu ht')

lemma pairwise_append_iff {entries : List Entry} (hsorted : entries.Pairwise (NotLater layout))
    (hstamped : ∀ e ∈ entries, Stamped layout e) (e : Entry) :
    (entries ++ [e]).Pairwise (NotLater layout) ↔
      ∀ last, entries.getLast? = some last → NotLater layout last e := by
  rw [pairwise_append]
  constructor
  · rintro ⟨-, -, hall⟩ last hlast
    exact hall last (List.mem_of_getLast? hlast) e mem_cons_self
  · intro hlast
    refine ⟨hsorted, pairwise_singleton _ e, ?_⟩
    intro a ha b hb
    rw [mem_singleton] at hb
    subst hb
    obtain rfl | ⟨front, last, rfl⟩ := entries.eq_nil_or_concat'
    · cases ha
    · have he := hlast last (by simp)
      rw [mem_append, mem_singleton] at ha
      obtain ha | rfl := ha
      · have hal := (List.pairwise_append.mp hsorted).2.2 a ha last mem_cons_self
        exact hal.trans he (hstamped last (by simp))
      · exact he

lemma makeRoom_entries_sublist (l : Log) : List.Sublist l.makeRoom.entries l.entries := by
  unfold Log.makeRoom
  split
  · exact drop_sublist _ _
  · exact List.Sublist.refl _

lemma cutAt_spec (layout : Layout) (bound : Time) (entries : List Entry) :
    (∀ e ∈ entries.take (cutAt layout bound entries), before layout bound e = true) ∧
      ∀ f, (entries.drop (cutAt layout bound entries)).head? = some f →
        before layout bound f = false := by
  induction entries with
  | nil => simp
  | cons e entries ih =>
    rw [cutAt]
    by_cases he : before layout bound e = true
    · rw [if_pos he, take_succ_cons, drop_succ_cons, forall_mem_cons]
      exact ⟨⟨he, ih.1⟩, ih.2⟩
    · rw [if_neg he]
      refine ⟨by simp, ?_⟩
      rintro f hf
      cases hf
      simpa using he

lemma noneBefore_rotate_iff {l : Log} (hsorted : l.entries.Pairwise (NotLater layout))
    (hstamped : ∀ e ∈ l.entries, Stamped layout e) (now : Time) (age : Int) :
    NoneBefore layout (cutoff now age) (l.rotate layout now age).1 ↔
      ∀ e ∈ l.entries, ∀ t, e.timestamp = layout.format t → t < cutoff now age →
        layout.parse e.timestamp = some t := by
  obtain ⟨hdropped, hfirst⟩ := cutAt_spec layout (cutoff now age) l.entries
  rw [rotate_eq]
  constructor
  · intro hnone e he t ht hlt
    rw [← take_append_drop (cutAt layout (cutoff now age) l.entries) l.entries, mem_append] at he
    obtain he | he := he
    · have hbefore := hdropped e he
      rw [before, Option.any_eq_true] at hbefore
      obtain ⟨u, hu, -⟩ := hbefore
      rw [ht] at hu ⊢
      rw [layout.parse_format hu] at hu
      exact hu
    · exact absurd hlt (not_lt.mpr (hnone e he t ht))
  · intro hread e he t ht
    by_contra hlt
    rw [not_le] at hlt
    cases hrest : l.entries.drop (cutAt layout (cutoff now age) l.entries) with
    | nil =>
      rw [hrest] at he
      cases he
    | cons f rest =>
      -- the first entry that is kept is as old as `e`, so the loop would have dropped it
      have hf : f ∈ l.entries := mem_of_mem_drop (hrest ▸ mem_cons_self)
      obtain ⟨u, hu⟩ := hstamped f hf
      have hle : u ≤ t := by
        rw [hrest, mem_cons] at he
        obtain rfl | he := he
        · rw [layout.format_injective (hu.symm.trans ht)]
        · have hpair := hsorted.drop (i := cutAt layout (cutoff now age) l.entries)
          rw [hrest, pairwise_cons] at hpair
          exact hpair.1 e he u t hu ht
      have hkept := hfirst f (by rw [hrest]; rfl)
      rw [before, hread f hf u hu (hle.trans_lt hlt), Option.any_some, decide_eq_false_iff_not] at hkept
      exact hkept (hle.trans_lt hlt)

namespace Machine

variable {m : Machine G}

lemma orderly_of_log_eq (h : m.Inv layout) {event : Event G}
    (hlog : (m.step layout event).log = m.log)
    (hrotate : ∀ g age, event = .rotate g age → m.pending g ≠ none) : Orderly layout m event := by
  refine ⟨?_, fun g age heq hidle => absurd hidle (hrotate g age heq)⟩
  rw [hlog, chronological_iff_pairwise]
  exact h.sorted

lemma Inv.orderly_iff (h : m.Inv layout) (event : Event G) :
    Orderly layout m event ↔ InOrder layout m event := by
  cases event with
  | tick d => exact iff_of_true (orderly_of_log_eq h rfl (by simp)) trivial
  | stamp g entry =>
    refine iff_of_true (orderly_of_log_eq h ?_ (by simp)) trivial
    rw [step]
    split <;> rfl
  | append g =>
    cases hpending : m.pending g with
    | none =>
      refine iff_of_true (orderly_of_log_eq h ?_ (by simp)) ?_
      · rw [step, hpending]
      · intro e last he
        rw [hpending] at he
        cases he
    | some e =>
      have hkept := makeRoom_entries_sublist m.log
      have hlog : (m.step layout (.append g)).log = m.log.append e := by rw [step, hpending]
      rw [Orderly, hlog, chronological_iff_pairwise, Log.append,
        pairwise_append_iff (h.sorted.sublist hkept) fun a ha => h.logged a (hkept.subset ha)]
      rw [InOrder, hpending]
      constructor
      · rintro ⟨hlast, -⟩ e' last he'
        cases he'
        exact hlast last
      · intro hlast
        exact ⟨fun last => hlast e last rfl, fun _ _ heq => by cases heq⟩
  | rotate g age =>
    cases hpending : m.pending g with
    | some e =>
      refine iff_of_true (orderly_of_log_eq h ?_ ?_) ?_
      · rw [step, hpending]
      · rintro g' age' heq hidle
        cases heq
        rw [hpending] at hidle
        cases hidle
      · intro hidle
        rw [hpending] at hidle
        cases hidle
    | none =>
      have hlog : (m.step layout (.rotate g age)).log = (m.log.rotate layout m.clock age).1 := by
        rw [step, hpending]
      have hsorted : (m.log.rotate layout m.clock age).1.entries.Pairwise (NotLater layout) := by
        rw [rotate_eq]
        exact h.sorted.drop
      rw [Orderly, InOrder, hlog, chronological_iff_pairwise,
        ← noneBefore_rotate_iff h.sorted h.logged]
      constructor
      · rintro ⟨-, hnone⟩ _
        exact hnone g age rfl hpending
      · intro hnone
        refine ⟨hsorted, ?_⟩
        rintro g' age' heq -
        cases heq
        exact hnone hpending

lemma Inv.step (h : m.Inv layout) {event : Event G} (hgood : Orderly layout m event) :
    (m.step layout event).Inv layout := by
  have hsorted := (chronological_iff_pairwise _).mp hgood.1
  cases event with
  | tick d => exact ⟨hsorted, h.logged, h.waiting⟩
  | stamp g entry =>
    rw [Machine.step] at hsorted ⊢
    split at hsorted
    · exact h
    · refine ⟨hsorted, h.logged, ?_⟩
      intro g' e he
      dsimp only at he
      rw [Function.update_apply] at he
      split at he
      · cases he
        exact ⟨m.clock, rfl⟩
      · exact h.waiting g' e he
  | append g =>
    rw [Machine.step] at hsorted ⊢
    split at hsorted
    · rename_i e hpending
      refine ⟨hsorted, ?_, ?_⟩
      · intro a ha
        rw [Log.append] at ha
        rw [mem_append, mem_singleton] at ha
        obtain ha | rfl := ha
        · exact h.logged a ((makeRoom_entries_sublist m.log).subset ha)
        · exact h.waiting g a hpending
      · intro g' e' he'
        dsimp only at he'
        rw [Function.update_apply] at he'
        split at he'
        · cases he'
        · exact h.waiting g' e' he'
    · exact h
  | rotate g age =>
    rw [Machine.step] at hsorted ⊢
    split at hsorted
    · exact h
    · refine ⟨hsorted, ?_, h.waiting⟩
      intro a ha
      rw [rotate_eq] at ha
      exact h.logged a (mem_of_mem_drop ha)

omit [DecidableEq G] in
lemma inv_start (opts : List Int) (now : Time) : (start (G := G) opts now).Inv layout := by
  have hempty : (newLog opts).entries = [] := by
    have hkeep : ∀ l : Log, (opts.foldl (fun l n => withMaxLen n l) l).entries = l.entries := by
      induction opts with
      | nil => intro l; rfl
      | cons n opts ih =>
        intro l
        rw [foldl_cons, ih, withMaxLen]
        split <;> rfl
    exact hkeep _
  refine ⟨?_, ?_, fun g e he => (by cases he)⟩
  · rw [start, hempty]
    exact .nil
  · intro e he
    rw [start, hempty] at he
    cases he

end Machine

variable (layout)

/-- Exports are chronological and rotations complete all along a run exactly if no goroutine is
overtaken by one with a later reading that the log still keeps, and rotations meet nothing old
that they cannot read. -/
theorem chronological_iff (opts : List Int) (now : Time) (events : List (Event G)) :
    EveryStep (Machine.step layout) (Orderly layout) (Machine.start opts now) events ↔
      EveryStep (Machine.step layout) (InOrder layout) (Machine.start opts now) events :=
  EveryStep.congr_of_invariant (P := fun m => m.Inv layout) (fun _ event h => h.orderly_iff event)
    (fun _ _ h hgood => h.step hgood) (Machine.inv_start opts now) events

/-- The first goroutine reads the clock, the second one reads it ten nanoseconds later and appends
before the first; a rotation follows. -/
def overtaking : List (Event Bool) :=
  [.stamp false sampleEntry, .tick 10, .stamp true sampleEntry, .append true, .append false,
    .rotate true 5]

theorem overtaking_disorderly :
    ((runFrom (Machine.step decimalLayout) (Machine.start [] 0) overtaking).log.exportSince
      decimalLayout none).map Entry.timestamp = ["10".toList, "0".toList] ∧
    cutoff 10 5 = 5 ∧
    ¬EveryStep (Machine.step decimalLayout) (Orderly decimalLayout) (Machine.start [] 0)
      overtaking := by
  have hexport : ((runFrom (Machine.step decimalLayout) (Machine.start [] 0)
      (overtaking.take 5)).log.exportSince decimalLayout none).map Entry.timestamp =
        ["10".toList, "0".toList] := by decide +kernel
  refine ⟨by decide +kernel, by decide, ?_⟩
  rintro ⟨-, -, -, -, ⟨hchronological, -⟩, -⟩
  have hpair : ((runFrom (Machine.step decimalLayout) (Machine.start [] 0)
      (overtaking.take 5)).log.exportSince decimalLayout none).Pairwise (NotLater decimalLayout) :=
    hchronological none
  obtain ⟨a, rest, hlist, ha, hrest⟩ := List.map_eq_cons_iff.mp hexport
  obtain ⟨b, rest, rfl, hb, -⟩ := List.map_eq_cons_iff.mp hrest
  rw [hlist, pairwise_cons] at hpair
  have hle := hpair.1 b mem_cons_self 10 0 (ha.trans (by decide +kernel))
    (hb.trans (by decide +kernel))
  exact absurd hle (by decide)

end Symkernel.Audit
