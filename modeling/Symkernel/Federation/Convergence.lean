import Symkernel.Federation.Exchange
import Symkernel.Library.Flooding

/-!
# Convergence by anti-entropy

In a round every region of the fleet runs `Reconcile` once, in any order.
-/

namespace Symkernel.Federation

open Symkernel.Library List

abbrev Turn := String × PassOrder

section Rounds

variable (cfg : String → Config)

def turn (f : Fleet) (t : Turn) : Fleet :=
  (reconcile t.1 (cfg t.1) t.2 f).1

def round (f : Fleet) (turns : List Turn) : Fleet :=
  turns.foldl (turn cfg) f

def afterRounds (f : Fleet) (rounds : List (List Turn)) : Fleet :=
  rounds.foldl (round cfg) f

def IsRound (members : Finset String) (turns : List Turn) : Prop :=
  (turns.map Prod.fst).Nodup ∧ ∀ region, region ∈ turns.map Prod.fst ↔ region ∈ members

def targetGraph (members : Finset String) : SimpleGraph {r // r ∈ members} where
  Adj a b := a ≠ b ∧ (b.1 ∈ (cfg a.1).targets a.1 ∨ a.1 ∈ (cfg b.1).targets b.1)
  symm := ⟨fun _ _ h => ⟨h.1.symm, h.2.symm⟩⟩
  loopless := ⟨fun _ h => h.1 rfl⟩

def TargetsReachable (members : Finset String) (f : Fleet) : Prop :=
  ∀ r ∈ members, ∀ t ∈ (cfg r).targets r, t ∈ members ∧ t ∈ f.mounted

end Rounds

section Turns

variable {self : String}

lemma le_overTargets (order : PassOrder) {targets : List String} (hne : ∀ t ∈ targets, t ≠ self)
    {t : String} (ht : t ∈ targets) {f : Fleet} (hm : t ∈ f.mounted) (id : String) :
    revisionOf ((f.stores t).get id) ≤
        revisionOf (((overTargets self order targets f).stores self).get id) ∧
      revisionOf ((f.stores self).get id) ≤
        revisionOf (((overTargets self order targets f).stores t).get id) := by
  obtain ⟨front, back, rfl⟩ := append_of_mem ht
  have hall : ∀ t' ∈ front ++ t :: back, t' ∈ (Set.univ : Set String) ∧ t' ≠ self :=
    fun t' ht' => ⟨Set.mem_univ t', hne t' ht'⟩
  have hfront := improves_overTargets (Set.mem_univ self) order
    (fun t' ht' => hall t' (mem_append_left _ ht')) f
  have hback := improves_overTargets (Set.mem_univ self) order
    (fun t' ht' => hall t' (mem_append_right _ (mem_cons_of_mem t ht')))
    (reconcileRegion self order t (overTargets self order front f)).1
  have hboth := both_reconcileRegion (hne t ht) (f := overTargets self order front f)
    (by rwa [hfront.mounted]) order id
  have hfst := congrArg Prod.fst hboth
  have hsnd := congrArg Prod.snd hboth
  simp only [both] at hfst hsnd
  have hmax := revisionOf_exchange (((overTargets self order front f).stores self).get id)
    (((overTargets self order front f).stores t).get id)
  rw [← hfst, ← hsnd] at hmax
  rw [overTargets, foldl_append]
  constructor
  · refine ((hfront.le t id).trans ?_).trans (hback.le self id)
    rw [hmax.1]
    exact le_max_right _ _
  · refine ((hfront.le self id).trans ?_).trans (hback.le t id)
    rw [hmax.2]
    exact le_max_left _ _

lemma le_turn {cfg : String → Config} {t : Turn} {target : String}
    (htarget : target ∈ (cfg t.1).targets t.1) {f : Fleet} (hm : target ∈ f.mounted) (id : String) :
    revisionOf ((f.stores target).get id) ≤ revisionOf (((turn cfg f t).stores t.1).get id) ∧
      revisionOf ((f.stores t.1).get id) ≤ revisionOf (((turn cfg f t).stores target).get id) := by
  have hle := le_overTargets t.2 (fun _ h => ne_self_of_mem_targets h) htarget
    (f := f.count t.1 fun c => { c with scans := c.scans + 1 }) hm id
  rw [turn, reconcile_fleet]
  exact hle

end Turns

section Round

variable {cfg : String → Config} {members : Finset String}

variable {f : Fleet}

section Reachable

variable (hreach : TargetsReachable cfg members f)
include hreach

lemma improves_turn {t : Turn} (ht : t.1 ∈ members) :
    Improves (members : Set String) f (turn cfg f t) :=
  improves_reconcile ht (fun target h => (hreach t.1 ht target h).1) t.2 f

lemma TargetsReachable.of_improves {among : Set String} {f' : Fleet} (h : Improves among f f') :
    TargetsReachable cfg members f' := by
  intro r hr t ht
  rw [h.mounted]
  exact hreach r hr t ht

variable {turns : List Turn}

lemma improves_turns (hturns : ∀ t ∈ turns, t.1 ∈ members) :
    Improves (members : Set String) f (round cfg f turns) := by
  induction turns generalizing f with
  | nil => exact Improves.refl _ f
  | cons t turns ih =>
    have hfirst := improves_turn hreach (hturns t mem_cons_self)
    exact hfirst.trans (ih (hreach.of_improves hfirst)
      fun t' ht' => hturns t' (mem_cons_of_mem t ht'))

lemma improves_round (hround : IsRound members turns) :
    Improves (members : Set String) f (round cfg f turns) :=
  improves_turns hreach fun _ ht => (hround.2 _).mp (mem_map_of_mem ht)

lemma le_round (hround : IsRound members turns)
    {region target : String} (hregion : region ∈ members)
    (htarget : target ∈ (cfg region).targets region) (id : String) :
    revisionOf ((f.stores target).get id) ≤
        revisionOf (((round cfg f turns).stores region).get id) ∧
      revisionOf ((f.stores region).get id) ≤
        revisionOf (((round cfg f turns).stores target).get id) := by
  obtain ⟨t, ht, rfl⟩ := List.mem_map.mp ((hround.2 region).mpr hregion)
  have hmembers : ∀ t' ∈ turns, t'.1 ∈ members := fun _ ht' => (hround.2 _).mp (mem_map_of_mem ht')
  obtain ⟨front, back, rfl⟩ := append_of_mem ht
  have hfront := improves_turns hreach fun t' ht' => hmembers t' (mem_append_left _ ht')
  have hreach' := hreach.of_improves hfront
  have hback := improves_turns (hreach'.of_improves (improves_turn hreach' hregion))
    fun t' ht' => hmembers t' (mem_append_right _ (mem_cons_of_mem t ht'))
  have hturn := le_turn htarget (hreach' t.1 hregion target htarget).2 id
  rw [round, foldl_append]
  exact ⟨((hfront.le target id).trans hturn.1).trans (hback.le t.1 id),
    ((hfront.le t.1 id).trans hturn.2).trans (hback.le target id)⟩

lemma le_round_of_adj (hround : IsRound members turns)
    {a b : {r // r ∈ members}} (hadj : (targetGraph cfg members).Adj a b) (id : String) :
    revisionOf ((f.stores a.1).get id) ≤ revisionOf (((round cfg f turns).stores b.1).get id) := by
  obtain ⟨-, htarget | htarget⟩ := hadj
  · exact (le_round hreach hround a.2 htarget id).2
  · exact (le_round hreach hround b.2 htarget id).1

end Reachable

end Round

section Revisions

variable {cfg : String → Config} {members : Finset String} {f : Fleet}

variable {rounds : List (List Turn)}

lemma improves_afterRounds (hreach : TargetsReachable cfg members f)
    (hrounds : ∀ turns ∈ rounds, IsRound members turns) :
    Improves (members : Set String) f (afterRounds cfg f rounds) := by
  induction rounds generalizing f with
  | nil => exact Improves.refl _ f
  | cons turns rounds ih =>
    have hfirst := improves_round hreach (hrounds turns mem_cons_self)
    exact hfirst.trans (ih (hreach.of_improves hfirst)
      fun turns' h => hrounds turns' (mem_cons_of_mem turns h))

lemma afterRounds_take_succ (f : Fleet) {k : ℕ} (hk : k < rounds.length) :
    afterRounds cfg f (rounds.take (k + 1)) =
      round cfg (afterRounds cfg f (rounds.take k)) rounds[k] := by
  rw [take_succ_eq_append_getElem hk, afterRounds, foldl_append]
  rfl

/-- After as many rounds as the target graph is wide every region has at least the revision that
any region started with. -/
lemma le_afterRounds (hconn : (targetGraph cfg members).Connected)
    (hreach : TargetsReachable cfg members f) (hrounds : ∀ turns ∈ rounds, IsRound members turns)
    (hlen : rounds.length = (targetGraph cfg members).diam) (a b : {r // r ∈ members})
    (id : String) : revisionOf ((f.stores a.1).get id) ≤
      revisionOf (((afterRounds cfg f rounds).stores b.1).get id) := by
  have hreach' : ∀ k, TargetsReachable cfg members (afterRounds cfg f (rounds.take k)) :=
    fun k => hreach.of_improves (improves_afterRounds hreach
      fun turns h => hrounds turns (mem_of_mem_take h))
  have hround : ∀ k (hk : k < rounds.length), IsRound members rounds[k] :=
    fun k hk => hrounds _ (getElem_mem hk)
  have hflood := le_after_diam
    (v := fun k r => revisionOf (((afterRounds cfg f (rounds.take k)).stores r.1).get id)) hconn
    (fun k hk r => by
      rw [afterRounds_take_succ f (hlen ▸ hk)]
      exact (improves_round (hreach' k) (hround k (hlen ▸ hk))).le r.1 id)
    (fun k hk r r' hadj => by
      rw [afterRounds_take_succ f (hlen ▸ hk)]
      exact le_round_of_adj (hreach' k) (hround k (hlen ▸ hk)) hadj id) a b
  rw [← hlen, take_length] at hflood
  exact hflood

lemma exists_of_revisionOf_le {entry entry' : Option Policy} (hne : entry ≠ none)
    (hle : revisionOf entry ≤ revisionOf entry') : ∃ p, entry' = some p := by
  cases entry' with
  | some p => exact ⟨p, rfl⟩
  | none =>
    obtain ⟨p, rfl⟩ := Option.ne_none_iff_exists'.mp hne
    exact absurd hle (WithBot.bot_lt_coe p.revision).not_ge

end Revisions

/-- After as many rounds of `Reconcile` as the diameter of the target graph, every region holds
for every id that was present a policy with the largest revision of the fleet, and that policy
is one that a region held at the start. -/
theorem converges_on_revisions (members : Finset String) (cfg : String → Config) (f : Fleet)
    (hconn : (targetGraph cfg members).Connected) (hreach : TargetsReachable cfg members f)
    (rounds : List (List Turn)) (hrounds : ∀ turns ∈ rounds, IsRound members turns)
    (hlen : rounds.length = (targetGraph cfg members).diam) :
    ∀ region ∈ members, ∀ id, (∃ r ∈ members, (f.stores r).get id ≠ none) →
      ∃ p, ((afterRounds cfg f rounds).stores region).get id = some p ∧
        (∀ r ∈ members, revisionOf ((f.stores r).get id) ≤ p.revision) ∧
        ∃ r ∈ members, (f.stores r).get id = some p := by
  rintro region hregion id ⟨r, hr, hpresent⟩
  have hle : ∀ r ∈ members, revisionOf ((f.stores r).get id) ≤
      revisionOf (((afterRounds cfg f rounds).stores region).get id) :=
    fun r hr => le_afterRounds hconn hreach hrounds hlen ⟨r, hr⟩ ⟨region, hregion⟩ id
  obtain ⟨p, hp⟩ := exists_of_revisionOf_le hpresent (hle r hr)
  obtain ⟨source, hsource, heq⟩ := (improves_afterRounds hreach hrounds).source hregion id
  refine ⟨p, hp, fun r hr => ?_, source, hsource, heq.symm.trans hp⟩
  have := hle r hr
  rwa [hp] at this

def peersConfig (_ : String) : Config where
  mode := .async
  regions := ["a", "b"]
  registry := ∅

/-- Both regions have authored a first revision of one policy at the same time. -/
def tiedFleet : Fleet where
  stores region := MemoryStore.newMemoryStore.put
    { id := "policy", version := 1, body := if region = "a" then [1] else [2],
      originRegion := region, updatedAt := 0 }
  mounted := {"a", "b"}
  counters _ := {}

def ascendingPass : PassOrder where
  listed := .ascending String
  ranged _ := .ascending String

def peersRound : List Turn := [("a", ascendingPass), ("b", ascendingPass)]

lemma peersRound_isRound : IsRound {"a", "b"} peersRound :=
  ⟨by decide, fun region => by simp [peersRound]⟩

lemma mem_targets_peersConfig {region target : String} (hregion : region ∈ ({"a", "b"} : Finset String)) :
    target ∈ (peersConfig region).targets region ↔
      target ∈ ({"a", "b"} : Finset String) ∧ target ≠ region := by
  have ha : (peersConfig "a").targets "a" = ["b"] := by decide
  have hb : (peersConfig "b").targets "b" = ["a"] := by decide
  rw [Finset.mem_insert, Finset.mem_singleton] at hregion
  obtain rfl | rfl := hregion
  · rw [ha, mem_singleton, Finset.mem_insert, Finset.mem_singleton]
    constructor
    · rintro rfl
      exact ⟨.inr rfl, by decide⟩
    · rintro ⟨rfl | rfl, hne⟩
      · exact absurd rfl hne
      · rfl
  · rw [hb, mem_singleton, Finset.mem_insert, Finset.mem_singleton]
    constructor
    · rintro rfl
      exact ⟨.inl rfl, by decide⟩
    · rintro ⟨rfl | rfl, hne⟩
      · rfl
      · exact absurd rfl hne

lemma peers_reachable : TargetsReachable peersConfig {"a", "b"} tiedFleet := by
  intro r hr t ht
  have hmem := ((mem_targets_peersConfig hr).mp ht).1
  exact ⟨hmem, hmem⟩

lemma peers_graph : targetGraph peersConfig {"a", "b"} = ⊤ := by
  ext a b
  constructor
  · exact fun h => h.1
  · exact fun h => ⟨h, .inl ((mem_targets_peersConfig a.2).mpr
      ⟨b.2, fun heq => h (Subtype.ext heq.symm)⟩)⟩

theorem peers_converge_on_revisions :
    ∃ p, ((afterRounds peersConfig tiedFleet [peersRound]).stores "a").get "policy" = some p ∧
      (∀ r ∈ ({"a", "b"} : Finset String),
        revisionOf ((tiedFleet.stores r).get "policy") ≤ p.revision) ∧
      ∃ r ∈ ({"a", "b"} : Finset String), (tiedFleet.stores r).get "policy" = some p := by
  have : Nontrivial {r // r ∈ ({"a", "b"} : Finset String)} :=
    ⟨⟨"a", by decide⟩, ⟨"b", by decide⟩, by simp⟩
  refine converges_on_revisions {"a", "b"} peersConfig tiedFleet ?_ peers_reachable [peersRound]
    (by simpa using peersRound_isRound) ?_ "a" (by decide) "policy" ⟨"a", by decide, by decide⟩
  · rw [peers_graph]
    exact SimpleGraph.connected_top
  · rw [peers_graph, SimpleGraph.diam_top]
    rfl

end Symkernel.Federation
