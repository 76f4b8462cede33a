import Symkernel.Federation.Convergence

/-!
# Convergence on content

In a fleet where every region replicates to every other one round suffices for the revisions.
-/

namespace Symkernel.Federation

open Symkernel.Library

def content (p : Policy) : List UInt8 × String :=
  (p.body, p.originRegion)

def FullyConnected (cfg : String → Config) (members : Finset String) (f : Fleet) : Prop :=
  (∀ r ∈ members, ∀ t, t ∈ (cfg r).targets r ↔ t ∈ members ∧ t ≠ r) ∧ ∀ r ∈ members, r ∈ f.mounted

def IsNewest (members : Finset String) (f : Fleet) (id : String) (p : Policy) : Prop :=
  ∀ r ∈ members, revisionOf ((f.stores r).get id) ≤ p.revision

/-- Policies that tie for the largest revision of an id have the same content. -/
def TiesAgree (members : Finset String) (f : Fleet) : Prop :=
  ∀ id, ∀ a ∈ members, ∀ b ∈ members, ∀ p q, (f.stores a).get id = some p →
    (f.stores b).get id = some q → IsNewest members f id p → IsNewest members f id q →
    content p = content q

section Rounds

variable {cfg : String → Config} {members : Finset String} {f : Fleet} {turns : List Turn}

section Connected

variable (h : FullyConnected cfg members f)
include h

lemma FullyConnected.reachable : TargetsReachable cfg members f := by
  intro r hr t ht
  have hmem := ((h.1 r hr t).mp ht).1
  exact ⟨hmem, h.2 t hmem⟩

/-- One round brings the revision of every region to every region. -/
lemma FullyConnected.le_round (hround : IsRound members turns)
    {a b : String} (ha : a ∈ members) (hb : b ∈ members) (id : String) :
    revisionOf ((f.stores a).get id) ≤ revisionOf (((round cfg f turns).stores b).get id) := by
  by_cases hab : a = b
  · subst hab
    exact (improves_round h.reachable hround).le a id
  · exact (Federation.le_round h.reachable hround hb ((h.1 b hb a).mpr ⟨ha, hab⟩) id).1

lemma FullyConnected.newest_after
    (hround : IsRound members turns) {region id : String} (hregion : region ∈ members) {p : Policy}
    (hp : ((round cfg f turns).stores region).get id = some p) :
    IsNewest members f id p ∧ ∃ r ∈ members, (f.stores r).get id = some p := by
  constructor
  · intro r hr
    have := h.le_round hround hr hregion id
    rwa [hp] at this
  · obtain ⟨source, hsource, heq⟩ := (improves_round h.reachable hround).source hregion id
    exact ⟨source, hsource, heq.symm.trans hp⟩

lemma FullyConnected.newest_stays (hround : IsRound members turns) {region id : String} {p : Policy}
    (hp : (f.stores region).get id = some p) (hnewest : IsNewest members f id p) :
    ((round cfg f turns).stores region).get id = some p := by
  obtain heq | ⟨hlt, source, hsource, heq⟩ := (improves_round h.reachable hround).entry region id
  · exact heq.trans hp
  · rw [heq, hp] at hlt
    exact absurd (hnewest source hsource) hlt.not_ge

end Connected

end Rounds

/-- After one round of a fully connected fleet any two regions hold the same content for every id
exactly when the policies that tied for the largest revision at the start had the same content. -/
theorem converges_on_content_iff (members : Finset String) (cfg : String → Config) (f : Fleet)
    (hfull : FullyConnected cfg members f) (turns : List Turn) (hround : IsRound members turns) :
    (∀ a ∈ members, ∀ b ∈ members, ∀ id, (((round cfg f turns).stores a).get id).map content =
        (((round cfg f turns).stores b).get id).map content) ↔ TiesAgree members f := by
  constructor
  · intro hsame id a ha b hb p q hp hq hpn hqn
    have := hsame a ha b hb id
    rw [hfull.newest_stays hround hp hpn, hfull.newest_stays hround hq hqn] at this
    exact Option.some.inj this
  · intro hties a ha b hb id
    cases hp : ((round cfg f turns).stores a).get id with
    | none =>
      cases hq : ((round cfg f turns).stores b).get id with
      | none => rfl
      | some q =>
        -- the source of `q` would have reached `a`
        obtain ⟨-, source, hsource, heq⟩ := hfull.newest_after hround hb hq
        have hle := hfull.le_round hround hsource ha id
        rw [hp, heq] at hle
        exact absurd hle (WithBot.bot_lt_coe q.revision).not_ge
    | some p =>
      obtain ⟨hpn, source, hsource, heq⟩ := hfull.newest_after hround ha hp
      have hle := hfull.le_round hround hsource hb id
      rw [heq] at hle
      obtain ⟨q, hq⟩ := exists_of_revisionOf_le (Option.some_ne_none p) hle
      obtain ⟨hqn, source', hsource', heq'⟩ := hfull.newest_after hround hb hq
      rw [hq, Option.map_some, Option.map_some,
        hties id source hsource source' hsource' p q heq heq' hpn hqn]

lemma peers_fullyConnected : FullyConnected peersConfig {"a", "b"} tiedFleet :=
  ⟨fun _ hr _ => mem_targets_peersConfig hr, fun _ hr => hr⟩

/-- Two first revisions authored at the same time stay apart. -/
theorem tied_contents_stay_apart :
    FullyConnected peersConfig {"a", "b"} tiedFleet ∧ IsRound {"a", "b"} peersRound ∧
    (((round peersConfig tiedFleet peersRound).stores "a").get "policy").map content ≠
      (((round peersConfig tiedFleet peersRound).stores "b").get "policy").map content := by
  refine ⟨peers_fullyConnected, peersRound_isRound, ?_⟩
  have hnewest : ∀ p : Policy, p.version = 1 → p.updatedAt = 0 →
      IsNewest {"a", "b"} tiedFleet "policy" p := by
    intro p hversion htime r _
    refine WithBot.coe_le_coe.mpr (revision_le_iff.mpr (.inr ?_))
    exact ⟨hversion.symm, htime.ge⟩
  rw [peers_fullyConnected.newest_stays peersRound_isRound rfl (hnewest _ rfl rfl),
    peers_fullyConnected.newest_stays peersRound_isRound rfl (hnewest _ rfl rfl)]
  decide

theorem tied_contents_iff :
    (∀ a ∈ ({"a", "b"} : Finset String), ∀ b ∈ ({"a", "b"} : Finset String), ∀ id,
      (((round peersConfig tiedFleet peersRound).stores a).get id).map content =
        (((round peersConfig tiedFleet peersRound).stores b).get id).map content) ↔
    TiesAgree {"a", "b"} tiedFleet :=
  converges_on_content_iff {"a", "b"} peersConfig tiedFleet peers_fullyConnected peersRound
    peersRound_isRound

end Symkernel.Federation
