import Mathlib

/-!
# Following links
-/

namespace Symkernel.Library

section Links

variable {α : Type*} (next : α → Option α)

def Links (a b : α) : Prop := next a = some b

def follow : Nat → α → Option (List α)
  | 0, _ => none
  | fuel + 1, a =>
    match next a with
    | none => some [a]
    | some b => (follow fuel b).map (a :: ·)

/-- No cycle can be reached from `a`. -/
def Ends (a : α) : Prop :=
  ∀ b, Relation.ReflTransGen (Links next) a b → ¬Relation.TransGen (Links next) b b

variable {next}

lemma follow_of_none {a : α} (h : next a = none) (fuel : Nat) :
    follow next (fuel + 1) a = some [a] := by
  rw [follow, h]

lemma follow_of_some {a b : α} (h : next a = some b) (fuel : Nat) :
    follow next (fuel + 1) a = (follow next fuel b).map (a :: ·) := by
  rw [follow, h]

lemma Ends.link {a b : α} (h : Ends next a) (hab : next a = some b) : Ends next b :=
  fun c hbc => h c (.head hab hbc)

/-- With enough fuel for all that can be reached, the loop ends. -/
theorem Ends.follow {s : Finset α} {a : α} (h : Ends next a)
    (hs : ∀ b, Relation.ReflTransGen (Links next) a b → b ∈ s) :
    ∃ l, Library.follow next s.card a = some l := by
  classical
  induction hn : s.card generalizing s a with
  | zero =>
    have ha := hs a .refl
    rw [Finset.card_eq_zero.mp hn] at ha
    exact absurd ha (Finset.notMem_empty a)
  | succ n ih =>
    cases hnext : next a with
    | none => exact ⟨_, follow_of_none hnext n⟩
    | some b =>
      -- what is reached from `b` is not `a` again
      have herase : ∀ c, Relation.ReflTransGen (Links next) b c → c ∈ s.erase a := by
        intro c hbc
        refine Finset.mem_erase.mpr ⟨?_, hs c (.head hnext hbc)⟩
        rintro rfl
        exact h c .refl (.head' hnext hbc)
      have hcard : (s.erase a).card = n := by
        rw [Finset.card_erase_of_mem (hs a .refl), hn, Nat.add_sub_cancel]
      obtain ⟨l, hl⟩ := ih (h.link hnext) herase hcard
      exact ⟨a :: l, by rw [follow_of_some hnext, hl, Option.map_some]⟩

/-- A loop that ends cannot reach a cycle. -/
theorem ends_of_follow {fuel : Nat} {a : α} {l : List α} (h : follow next fuel a = some l) :
    Ends next a := by
  induction fuel generalizing a l with
  | zero => cases h
  | succ fuel ih =>
    intro c hac hcc
    -- the first link from `a` stays on the way to the cycle
    obtain ⟨b, hab, hbc⟩ : ∃ b, next a = some b ∧ Relation.ReflTransGen (Links next) b c := by
      obtain rfl | ⟨b, hab, hbc⟩ := hac.cases_head
      · obtain ⟨b, hab, hba⟩ := Relation.TransGen.head'_iff.mp hcc
        exact ⟨b, hab, hba⟩
      · exact ⟨b, hab, hbc⟩
    rw [follow_of_some hab] at h
    obtain ⟨l', hl', -⟩ := Option.map_eq_some_iff.mp h
    exact ih hl' c hbc hcc

structure Followed (next : α → Option α) (a : α) (l : List α) : Prop where
  head : l.head? = some a
  linked : l.IsChain (Links next)
  last : ∀ b, l.getLast? = some b → next b = none

theorem followed_of_follow {fuel : Nat} {a : α} {l : List α} (h : follow next fuel a = some l) :
    Followed next a l := by
  induction fuel generalizing a l with
  | zero => cases h
  | succ fuel ih =>
    cases hnext : next a with
    | none =>
      rw [follow_of_none hnext] at h
      cases h
      refine ⟨rfl, .singleton a, fun b hb => ?_⟩
      cases hb
      exact hnext
    | some b =>
      rw [follow_of_some hnext] at h
      obtain ⟨l', hl', rfl⟩ := Option.map_eq_some_iff.mp h
      obtain ⟨hhead, hlinked, hlast⟩ := ih hl'
      obtain ⟨rest, rfl⟩ : ∃ rest, l' = b :: rest := List.head?_eq_some_iff.mp hhead
      refine ⟨rfl, .cons_cons hnext hlinked, fun c hc => hlast c ?_⟩
      exact hc

/-- Nothing is collected twice. -/
theorem Followed.nodup {a : α} {l : List α} (h : Followed next a l) (hends : Ends next a) :
    l.Nodup := by
  obtain ⟨rest, rfl⟩ := List.head?_eq_some_iff.mp h.head
  have hpairwise : (a :: rest).Pairwise (Relation.TransGen (Links next)) :=
    (h.linked.imp fun _ _ hab => .single hab).pairwise
  have hreach : ∀ b ∈ a :: rest, Relation.ReflTransGen (Links next) a b := by
    intro b hb
    obtain rfl | hb := List.mem_cons.mp hb
    · exact .refl
    · exact ((List.pairwise_cons.mp hpairwise).1 b hb).to_reflTransGen
  refine hpairwise.imp_of_mem fun {b c} hb _ hbc => ?_
  rintro rfl
  exact hends b (hreach b hb) hbc

end Links

end Symkernel.Library
