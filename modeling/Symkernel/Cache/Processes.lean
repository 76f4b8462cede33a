import Symkernel.Cache.Invalidation

/-!
# Invalidation within one process and across processes
-/

namespace Symkernel.DistributedCache

open Library

variable {V Ctx : Type}

/-- The invalidation of `tag` on instance `i` that starts after `front` is complete: once it has
returned, no entry is found whose latest write came from a `SetByKey` with the tag that had
returned before. -/
def InvalidationComplete (cfg : Nat → Config) (host : Host V Ctx) (front back : List (Sched V Ctx))
    (i : Nat) (tag : GoString) : Prop :=
  let m₁ := Machine.after cfg host front
  let m₂ := Machine.after cfg host (front ++ .start i (.invalidateByTag tag) :: back)
  ∀ r, m₂.threads[m₁.threads.length]? = some (i, .returned r) →
    ∀ w ∈ m₁.shared.completed, ∀ x, m₁.shared.writes[w]? = some x → tag ∈ x.tags →
      m₂.shared.latest x.key = some w → ∀ now, (m₂.shared.backend.get now x.key).2 = none

section Complete

variable {cfg : Nat → Config} {host : Host V Ctx} {tk : GoString → GoString}

/-- The invariant of a whole run in which everyone changes lists in turn. -/
lemma machineOk_after (htk : Function.Injective tk) (hcfg : ∀ i, (cfg i).tagKey = tk)
    {schedule : List (Sched V Ctx)}
    (h : EveryStep (Machine.step cfg host) (InTurn cfg host tk) Machine.initial schedule) :
    MachineOk cfg host tk (Machine.after cfg host schedule) :=
  runFrom_invariant (fun _ _ hm ha => (hm.step htk hcfg ha).1) initial_ok h

variable {back front : List (Sched V Ctx)}

lemma following_after (htk : Function.Injective tk) (hcfg : ∀ i, (cfg i).tagKey = tk) {i : Nat}
    {tag : GoString} (h : EveryStep (Machine.step cfg host) (InTurn cfg host tk) Machine.initial
      (front ++ .start i (.invalidateByTag tag) :: back)) : let m₁ := Machine.after cfg host front
    Following m₁.shared m₁.threads.length tag
      (Machine.after cfg host (front ++ .start i (.invalidateByTag tag) :: back)) := by
  intro m₁
  obtain ⟨hfront, hstart, hback⟩ := EveryStep.append.mp h
  have hm₁ : MachineOk cfg host tk m₁ := machineOk_after htk hcfg hfront
  have hbegin : Following m₁.shared m₁.threads.length tag
      (m₁.step cfg host (.start i (.invalidateByTag tag))) :=
    ⟨id, fun _ hw => hw, (i, .invalidate tag), List.getElem?_concat_length, .inl (.inl rfl)⟩
  have hrun := runFrom_invariant
    (P := fun m => MachineOk cfg host tk m ∧ Following m₁.shared m₁.threads.length tag m)
    (fun m a hm ha => ⟨(hm.1.step htk hcfg ha).1, hm.2.step htk hcfg hm.1 ha⟩)
    ⟨(hm₁.step htk hcfg hstart).1, hbegin⟩ hback
  unfold Machine.after
  rw [runFrom_append]
  exact hrun.2

lemma complete_of_inTurn (htk : Function.Injective tk) (hcfg : ∀ i, (cfg i).tagKey = tk) {i : Nat}
    {tag : GoString} (h : EveryStep (Machine.step cfg host) (InTurn cfg host tk) Machine.initial
      (front ++ .start i (.invalidateByTag tag) :: back)) :
    InvalidationComplete cfg host front back i tag := by
  unfold InvalidationComplete
  intro m₁ m₂ r hreturned w hw x hx htag hlatest now
  obtain ⟨hwrites, -, y, hy, hprogress⟩ := following_after htk hcfg h
  obtain rfl : y = (i, .returned r) := Option.some.inj (hy.symm.trans hreturned)
  have hgone : Gone m₂.shared m₁.shared.completed tag := by
    refine hprogress.resolve_left ?_
    rintro (hthread | hthread | ⟨keys, hthread⟩) <;> cases hthread
  have hnone := Finmap.lookup_eq_none.mpr (hgone w hw x (hwrites hx) htag hlatest)
  rw [MemoryBackend.get_value, hnone]
  rfl

end Complete

/-! ### Across processes -/

/-- **Tag invalidation across processes.** With instances that use one prefix, data keys that are
valid UTF-8 and no keys of tags, and lists that are replaced and removed only by calls that have
read them as they are, every invalidation is complete. -/
theorem invalidation_across_processes (cfg : Nat → Config) (host : Host V Ctx)
    (hshared : ∀ i, (cfg i).keyPrefix = (cfg 0).keyPrefix) (front back : List (Sched V Ctx)) (i : Nat)
    (tag : GoString)
    (hturn : EveryStep (Machine.step cfg host) (InTurn cfg host (cfg 0).tagKey) Machine.initial
      (front ++ .start i (.invalidateByTag tag) :: back)) :
    InvalidationComplete cfg host front back i tag := by
  refine complete_of_inTurn (tagKey_injective (cfg 0)) ?_ hturn
  intro j
  funext t
  unfold Config.tagKey
  rw [hshared j]

def unitHost : Host Unit Unit where
  marshal _ := some .null
  hashExpr expr := expr
  hashContext _ := none

def defaultInstances : Nat → Config := fun _ => newConfig []

def setTagged (exprHash : UInt8) : Call Unit Unit := .setByKey [exprHash] [0x78] () [[0x74]] []

def advances (j steps : Nat) : List (Sched Unit Unit) := List.replicate steps (.advance j 0)

lemma inTurn_advance {m : Machine Unit Unit} {j : Nat} {x : Nat × Thread Unit Unit}
    (hx : m.threads[j]? = some x) (hread : HasRead (defaultInstances 0).tagKey m.shared x.2) :
    InTurn defaultInstances unitHost (defaultInstances 0).tagKey m (.advance j 0) := by
  intro y hy
  rw [hx] at hy
  exact Option.some.inj hy ▸ hread

def setThenInvalidate : List (Sched Unit Unit) :=
  .start 0 (setTagged 0x61) :: advances 0 6 ++ .start 1 (.invalidateByTag [0x74]) :: advances 1 4

theorem set_invalidated_on_other_instance :
    ((Machine.after defaultInstances unitHost setThenInvalidate).shared.backend.get 0
      ((defaultInstances 0).dataKey [0x61] [0x78])).2 = none :=
  invalidation_across_processes defaultInstances unitHost (fun _ => rfl)
    (.start 0 (setTagged 0x61) :: advances 0 6) (advances 1 4) 1 [0x74]
    ⟨plain_dataKey (by decide) (by decide), inTurn_advance rfl trivial, inTurn_advance rfl trivial,
      inTurn_advance rfl trivial, inTurn_advance rfl fun _ => rfl, inTurn_advance rfl trivial,
      inTurn_advance rfl trivial, trivial, inTurn_advance rfl trivial, inTurn_advance rfl trivial,
      inTurn_advance rfl rfl, inTurn_advance rfl trivial, trivial⟩
    (.invalidated (.ok 1)) rfl 0 (by decide)
    ⟨(defaultInstances 0).dataKey [0x61] [0x78], [[0x74]]⟩ rfl (by decide) rfl 0

def setsRaced : List (Sched Unit Unit) :=
  .start 0 (setTagged 0x61) :: .start 1 (setTagged 0x62) :: advances 0 3 ++ advances 1 3 ++
    advances 0 3 ++ advances 1 3

theorem raced_registration_survives_invalidation :
    ¬ InvalidationComplete defaultInstances unitHost setsRaced (advances 2 4) 0 [0x74] := by
  intro h
  have hnone := h (.invalidated (.ok 1)) rfl 0 (by decide)
    ⟨(defaultInstances 0).dataKey [0x61] [0x78], [[0x74]]⟩ rfl (by decide) rfl 0
  revert hnone
  decide

/-! ### Within one process -/

/-- The thread holds `tagMu`. -/
def Critical : Thread V Ctx → Bool
  | .holding .. | .indexing .. | .releasing .. | .invalidating _ | .removing .. | .leaving _ => true
  | .set .. | .register .. | .delete _ | .invalidate _ | .warm .. | .returned _ => false

/-- What a step may do to the mutex of its instance. -/
inductive Locking (i : Nat) (s : Shared) (thread : Thread V Ctx) (r : Shared × Thread V Ctx) : Prop
    where
  | keeps : r.1.held = s.held → Critical r.2 = Critical thread → Locking i s thread r
  | acquires : s.held i = false → r.1.held i = true → Critical thread = false → Locking i s thread r
  | releases : Critical thread = true → Critical r.2 = false → Locking i s thread r

section Mutex

variable {cfg : Nat → Config} {host : Host V Ctx} {c : Config} {tk : GoString → GoString}
  {s : Shared}

lemma beginSet_critical (exprHash ctxHash : GoString) (value : V) (tags : List GoString)
    (ttlOverride : List Int) (ret : Return V Ctx) :
    Critical (beginSet host c exprHash ctxHash value tags ttlOverride ret) = false := by
  unfold beginSet
  split
  · rfl
  · split <;> rfl

lemma begin_critical (call : Call V Ctx) : Critical (begin host c call) = false := by
  cases call with
  | setByKey => exact beginSet_critical ..
  | delete | invalidateByTag | warm => rfl

lemma advance_warm (i : Nat) (now : Int) (n : Nat) (entries : List (WarmEntry V Ctx)) :
    (advance host c i now s (.warm n entries)).1 = s ∧
      Critical (advance host c i now s (.warm n entries)).2 = false := by
  cases entries with
  | nil => exact ⟨rfl, rfl⟩
  | cons e entries =>
    rw [advance]
    split
    · exact ⟨rfl, rfl⟩
    · exact ⟨rfl, beginSet_critical ..⟩

lemma advance_locking (i : Nat) (now : Int) (thread : Thread V Ctx) :
    Locking i s thread (advance host c i now s thread) := by
  cases thread with
  | set key doc ttl tags ret => exact .keeps rfl rfl
  | register w key tags ret =>
    cases tags with
    | nil =>
      refine .keeps rfl ?_
      cases ret <;> rfl
    | cons tag tags =>
      rw [advance]
      split
      · exact .keeps rfl rfl
      · rename_i hfree
        exact .acquires (by simpa using hfree) (Function.update_self ..) rfl
  | holding w key tag tags ret => exact .keeps rfl rfl
  | indexing w key tag tags ret members => exact .keeps rfl rfl
  | releasing w key tags ret => exact .releases rfl rfl
  | delete key => exact .keeps rfl rfl
  | invalidate tag =>
    rw [advance]
    split
    · exact .keeps rfl rfl
    · rename_i hfree
      exact .acquires (by simpa using hfree) (Function.update_self ..) rfl
  | invalidating tag =>
    refine .keeps rfl ?_
    rw [advance]
    cases readTag (s.backend.get now (c.tagKey tag)).2 <;> rfl
  | removing tag keys => exact .keeps rfl rfl
  | leaving r => exact .releases rfl rfl
  | warm n entries =>
    obtain ⟨hsame, hfree⟩ := advance_warm (s := s) i now n entries
    exact .keeps (congrArg Shared.held hsame) hfree
  | returned r => exact .keeps rfl rfl

variable {thread : Thread V Ctx}

lemma advance_lists (i : Nat) (now : Int) (hthread : ThreadOk host c tk s thread)
    (hfree : Critical thread = false) (tag : GoString) :
    storedMembers (advance host c i now s thread).1.backend (tk tag) =
      storedMembers s.backend (tk tag) := by
  cases thread with
  | set key doc ttl tags ret =>
    refine storedMembers_congr ?_
    have hlookup := MemoryBackend.lookup_set s.backend now key doc ttl (tk tag)
    rw [if_neg (hthread.1.2 tag).symm] at hlookup
    exact hlookup
  | register w key tags ret =>
    cases tags with
    | nil => rfl
    | cons t tags =>
      rw [advance]
      split <;> rfl
  | delete key =>
    refine storedMembers_congr ?_
    have hlookup := MemoryBackend.lookup_del s.backend [key] (tk tag)
    rw [if_neg (by simpa using (hthread.2 tag).symm)] at hlookup
    exact hlookup
  | invalidate t =>
    rw [advance]
    split <;> rfl
  | warm n entries => rw [(advance_warm i now n entries).1]
  | returned r => rfl
  | holding | indexing | releasing | invalidating | removing | leaving => cases hfree

lemma hasRead_of_free (h : Critical thread = false) : HasRead tk s thread := by
  cases thread with
  | indexing | removing => cases h
  | _ => trivial

lemma HasRead.congr {s' : Shared} (h : HasRead tk s thread)
    (hlists : ∀ tag, storedMembers s'.backend (tk tag) = storedMembers s.backend (tk tag)) :
    HasRead tk s' thread := by
  cases thread with
  | indexing w key tag tags ret members => exact fun hmem => (hlists tag).trans (h hmem)
  | removing tag keys => exact (hlists tag).trans h
  | _ => trivial

lemma advance_hasRead (h : ListsOk tk s.backend) (hc : c.tagKey = tk) (i : Nat) (now : Int)
    (thread : Thread V Ctx) :
    HasRead tk (advance host c i now s thread).1 (advance host c i now s thread).2 := by
  cases thread with
  | holding w key tag tags ret =>
    obtain ⟨hsame, hread⟩ := h.get now tag
    rw [advance]
    simp only [hc, hsame]
    intro _
    rcases hread with ⟨hnone, hnil⟩ | ⟨members, hsome, hgood, hstored⟩
    · rw [hnone]
      exact hnil
    · rw [hsome]
      simp only [indexMembers, hgood.unmarshal]
      exact hstored
  | invalidating tag =>
    obtain ⟨hsame, hread⟩ := h.get now tag
    rw [advance]
    simp only [hc, hsame]
    rcases hread with ⟨hnone, -⟩ | ⟨members, hsome, hgood, hstored⟩
    · rw [hnone]
      trivial
    · rw [hsome]
      simp only [readTag, hgood.unmarshal, Bool.true_eq_false, if_false]
      split
      · trivial
      · exact hstored
  | indexing | removing => trivial
  | releasing | leaving => trivial
  | set | delete => trivial
  | returned => trivial
  | register w key tags ret =>
    cases tags with
    | nil => cases ret <;> trivial
    | cons tag tags =>
      rw [advance]
      split <;> trivial
  | invalidate tag =>
    rw [advance]
    split <;> trivial
  | warm n entries => exact hasRead_of_free (advance_warm i now n entries).2

variable (tk) in
/-- The threads of one process: at most one of them holds the mutex, and what a thread has read
is as it was. -/
structure Exclusive (m : Machine V Ctx) : Prop where
  process : ∀ {j : Nat} {x : Nat × Thread V Ctx}, m.threads[j]? = some x → x.1 = 0
  held : ∀ {j : Nat} {x : Nat × Thread V Ctx}, m.threads[j]? = some x → Critical x.2 = true →
    m.shared.held 0 = true
  unique : ∀ {j k : Nat} {x y : Nat × Thread V Ctx}, m.threads[j]? = some x →
    m.threads[k]? = some y → Critical x.2 = true → Critical y.2 = true → j = k
  read : ∀ {j : Nat} {x : Nat × Thread V Ctx}, m.threads[j]? = some x → HasRead tk m.shared x.2

lemma getElem?_concat_cases {α : Type} {l : List α} {a x : α} {j : Nat}
    (h : (l ++ [a])[j]? = some x) : l[j]? = some x ∨ x = a := by
  rw [List.getElem?_append] at h
  split at h
  · exact .inl h
  · exact .inr (List.mem_singleton.mp (List.mem_of_getElem? h))

lemma getElem?_set_cases {α : Type} {l : List α} {a x : α} {j k : Nat}
    (h : (l.set j a)[k]? = some x) : (k = j ∧ x = a) ∨ (k ≠ j ∧ l[k]? = some x) := by
  rw [List.getElem?_set] at h
  split at h
  · rename_i hjk
    split at h
    · exact .inl ⟨hjk.symm, (Option.some.inj h).symm⟩
    · cases h
  · rename_i hjk
    exact .inr ⟨Ne.symm hjk, h⟩

lemma Exclusive.start {m : Machine V Ctx} (h : Exclusive tk m) (hthread : Critical thread = false) :
    Exclusive tk { m with threads := m.threads ++ [(0, thread)] } := by
  have hcases : ∀ {j : Nat} {x : Nat × Thread V Ctx}, (m.threads ++ [(0, thread)])[j]? = some x →
      m.threads[j]? = some x ∨ x = (0, thread) := getElem?_concat_cases
  have hold : ∀ {j : Nat} {x : Nat × Thread V Ctx}, (m.threads ++ [(0, thread)])[j]? = some x →
      Critical x.2 = true → m.threads[j]? = some x := by
    intro j x hx hcritical
    refine (hcases hx).resolve_right ?_
    rintro rfl
    rw [hthread] at hcritical
    cases hcritical
  constructor
  · intro j x hx
    rcases hcases hx with hx | rfl
    · exact h.process hx
    · rfl
  · intro j x hx hcritical
    exact h.held (hold hx hcritical) hcritical
  · intro j k x y hx hy hcx hcy
    exact h.unique (hold hx hcx) (hold hy hcy) hcx hcy
  · intro j x hx
    rcases hcases hx with hx | rfl
    · exact h.read hx
    · exact hasRead_of_free hthread

lemma Exclusive.advance (hcfg : ∀ i, (cfg i).tagKey = tk) {m : Machine V Ctx}
    (h : Exclusive tk m) (hm : MachineOk cfg host tk m) {j : Nat} {x : Nat × Thread V Ctx}
    (hx : m.threads[j]? = some x) (now : Int) :
    Exclusive tk (m.step cfg host (.advance j now)) := by
  rw [Machine.step_advance_some hx]
  obtain ⟨i, thread⟩ := x
  obtain rfl : i = 0 := h.process hx
  set r := DistributedCache.advance host (cfg 0) 0 now m.shared thread with hr
  have hlocking : Locking 0 m.shared thread r := advance_locking 0 now thread
  have hcases : ∀ {k : Nat} {y : Nat × Thread V Ctx}, (m.threads.set j (0, r.2))[k]? = some y →
      (k = j ∧ y = (0, r.2)) ∨ (k ≠ j ∧ m.threads[k]? = some y) := getElem?_set_cases
  -- a thread other than `j` that holds the mutex leaves no way for `j` to take it
  have hother : ∀ {k : Nat} {y : Nat × Thread V Ctx}, k ≠ j → m.threads[k]? = some y →
      Critical y.2 = true → Critical r.2 = false ∧ Critical thread = false ∧ r.1.held 0 = true := by
    intro k y hk hy hcritical
    have hfree : Critical thread = false := by
      by_contra hcj
      exact hk (h.unique hy hx hcritical (by simpa using hcj))
    have hheld := h.held hy hcritical
    cases hlocking with
    | keeps hsame hkeep => exact ⟨hkeep.trans hfree, hfree, by rw [hsame]; exact hheld⟩
    | acquires hnone _ _ =>
      rw [hheld] at hnone
      cases hnone
    | releases hcj _ =>
      rw [hfree] at hcj
      cases hcj
  constructor
  · intro k y hy
    rcases hcases hy with ⟨rfl, rfl⟩ | ⟨-, hy⟩
    · rfl
    · exact h.process hy
  · intro k y hy hcritical
    rcases hcases hy with ⟨rfl, rfl⟩ | ⟨hk, hy⟩
    · cases hlocking with
      | keeps hsame hkeep =>
        rw [hsame]
        exact h.held hx (hkeep.symm.trans hcritical)
      | acquires _ htaken _ => exact htaken
      | releases _ hfree =>
        rw [show Critical r.2 = true from hcritical] at hfree
        cases hfree
    · exact (hother hk hy hcritical).2.2
  · intro k l y z hy hz hcy hcz
    rcases hcases hy with ⟨hk, rfl⟩ | ⟨hk, hy'⟩
    · rcases hcases hz with ⟨hl, -⟩ | ⟨hl, hz'⟩
      · exact hk.trans hl.symm
      · rw [(hother hl hz' hcz).1] at hcy
        cases hcy
    · rcases hcases hz with ⟨hl, rfl⟩ | ⟨hl, hz'⟩
      · rw [(hother hk hy' hcy).1] at hcz
        cases hcz
      · exact h.unique hy' hz' hcy hcz
  · intro k y hy
    rcases hcases hy with ⟨rfl, rfl⟩ | ⟨hk, hy⟩
    · exact advance_hasRead hm.shared.lists (hcfg 0) 0 now thread
    · by_cases hcritical : Critical y.2 = true
      · exact (h.read hy).congr (advance_lists 0 now (hm.threads _ (List.mem_of_getElem? hx))
          (hother hk hy hcritical).2.1)
      · exact hasRead_of_free (by simpa using hcritical)

end Mutex

def OneProcess (host : Host V Ctx) (c : Config) : Sched V Ctx → Prop
  | .start i call => i = 0 ∧ CallOk host c c.tagKey call
  | .advance _ _ => True

lemma everyStep_inTurn {host : Host V Ctx} {c : Config} {schedule : List (Sched V Ctx)}
    (h : ∀ a ∈ schedule, OneProcess host c a) {m : Machine V Ctx}
    (hm : MachineOk (fun _ => c) host c.tagKey m) (hexclusive : Exclusive c.tagKey m) :
    EveryStep (Machine.step (fun _ => c) host) (InTurn (fun _ => c) host c.tagKey) m schedule := by
  induction schedule generalizing m with
  | nil => trivial
  | cons a schedule ih =>
    have ha := h a List.mem_cons_self
    have hrest : ∀ b ∈ schedule, OneProcess host c b := fun b hb => h b (List.mem_cons_of_mem a hb)
    have hturn : InTurn (fun _ => c) host c.tagKey m a := by
      cases a with
      | start i call => exact ha.2
      | advance j now => exact fun x hx => hexclusive.read hx
    refine ⟨hturn, ih hrest (hm.step (tagKey_injective c) (fun _ => rfl) hturn).1 ?_⟩
    cases a with
    | start i call =>
      obtain ⟨rfl, -⟩ := ha
      exact hexclusive.start (begin_critical call)
    | advance j now =>
      cases hj : m.threads[j]? with
      | none =>
        rw [Machine.step_advance_none hj]
        exact hexclusive
      | some x => exact hexclusive.advance (fun _ => rfl) hm hj now

lemma initial_exclusive {tk : GoString → GoString} :
    Exclusive tk (Machine.initial : Machine V Ctx) := by
  constructor <;> intros <;> simp [Machine.initial] at *

/-- **Tag invalidation within one process.** If no data key is the key of a tag, then the lists of
tags have no duplicates and every invalidation is complete. -/
theorem invalidation_within_process (c : Config) (host : Host V Ctx) (schedule : List (Sched V Ctx))
    (h : ∀ a ∈ schedule, OneProcess host c a) :
    (∀ tag e, (Machine.after (fun _ => c) host schedule).shared.backend.entries.lookup
        (c.tagKey tag) = some e →
      ∃ members, e.value.unmarshalStrings = (members, true) ∧ members.Nodup) ∧
    ∀ front tag back, schedule = front ++ .start 0 (.invalidateByTag tag) :: back →
      InvalidationComplete (fun _ => c) host front back 0 tag := by
  have hturn := everyStep_inTurn h initial_ok initial_exclusive
  constructor
  · intro tag e he
    have hm := machineOk_after (tagKey_injective c) (fun _ => rfl) hturn
    obtain ⟨-, members, hvalue, hgood⟩ := hm.shared.lists tag e he
    exact ⟨members, by rw [hvalue, hgood.unmarshal], hgood.nodup⟩
  · rintro front tag back rfl
    exact complete_of_inTurn (tagKey_injective c) (fun _ => rfl) hturn

lemma oneProcess_advances (j steps : Nat) :
    ∀ a ∈ advances j steps, OneProcess unitHost (newConfig []) a := by
  intro a ha
  rw [List.eq_of_mem_replicate ha]
  trivial

def setsInProcess : List (Sched Unit Unit) :=
  .start 0 (setTagged 0x61) :: .start 0 (setTagged 0x62) :: advances 0 3 ++ advances 1 3 ++
    advances 0 3 ++ advances 1 5

theorem sets_in_process_invalidated : ((Machine.after defaultInstances unitHost
      (setsInProcess ++ .start 0 (.invalidateByTag [0x74]) :: advances 2 4)).shared.backend.get 0
        ((defaultInstances 0).dataKey [0x61] [0x78])).2 = none := by
  have hcomplete := (invalidation_within_process (newConfig []) unitHost
    (setsInProcess ++ .start 0 (.invalidateByTag [0x74]) :: advances 2 4) (by
      simp only [setsInProcess, List.cons_append, List.forall_mem_cons, List.forall_mem_append]
      exact ⟨⟨rfl, plain_dataKey (by decide) (by decide)⟩,
        ⟨rfl, plain_dataKey (by decide) (by decide)⟩,
        ⟨⟨⟨oneProcess_advances 0 3, oneProcess_advances 1 3⟩, oneProcess_advances 0 3⟩,
          oneProcess_advances 1 5⟩, ⟨rfl, trivial⟩, oneProcess_advances 2 4⟩)).2 _ _ _ rfl
  exact hcomplete (.invalidated (.ok 2)) rfl 0 (by decide)
    ⟨(defaultInstances 0).dataKey [0x61] [0x78], [[0x74]]⟩ rfl (by decide) rfl 0

/-- An entry with the tag `t`, and one whose data key is the key of that tag: its hashes are the
empty string and `:tag::t`. -/
def setOverList : List (Sched Unit Unit) :=
  .start 0 (setTagged 0x61) :: advances 0 6 ++
    .start 0 (.setByKey [] [0x3a, 0x74, 0x61, 0x67, 0x3a, 0x3a, 0x74] () [] []) :: advances 1 2

theorem overwritten_list_hides_entries :
    ValidUTF8 ((defaultInstances 0).dataKey [] [0x3a, 0x74, 0x61, 0x67, 0x3a, 0x3a, 0x74]) ∧
    ValidUTF8 ((defaultInstances 0).dataKey [0x61] [0x78]) ∧
    ¬ InvalidationComplete defaultInstances unitHost setOverList (advances 2 3) 0 [0x74] := by
  refine ⟨by decide, by decide, ?_⟩
  intro h
  have hnone := h (.invalidated (.ok 0)) rfl 0 (by decide)
    ⟨(defaultInstances 0).dataKey [0x61] [0x78], [[0x74]]⟩ rfl (by decide) rfl 0
  revert hnone
  decide

end Symkernel.DistributedCache
