import Mathlib

/-!
# Walking a circle of points

A linear order is closed to a circle by letting its least place follow its greatest one.
Walking up from `h`, the places not below `h` come first, then those below it.
-/

namespace Symkernel.Library

variable {α : Type*} [LinearOrder α]

/-- On the walk up from `h`, the place `a` comes no later than `b`. -/
def Upto (h a b : α) : Prop :=
  if h ≤ a then h ≤ b → a ≤ b else b < h ∧ a ≤ b

lemma upto_antisymm {h a b : α} (hab : Upto h a b) (hba : Upto h b a) : a = b := by
  unfold Upto at hab hba
  split at hab
  next ha =>
    split at hba
    next hb => exact le_antisymm (hab hb) (hba ha)
    next hb => exact absurd ha (not_le.mpr hba.1)
  next ha =>
    rw [if_neg (not_le.mpr hab.1)] at hba
    exact le_antisymm hab.2 hba.2

/-- The first point of `S` on the walk up from `h`, where `key` is the place of a point. -/
def Next {ι : Type*} (h : α) (key : ι → α) (S : Set ι) (p : ι) : Prop :=
  p ∈ S ∧ ∀ q ∈ S, Upto h (key p) (key q)

namespace Next

variable {ι : Type*} {h : α} {key : ι → α} {S T : Set ι} {p q : ι}

lemma key_eq (hp : Next h key S p) (hq : Next h key S q) : key p = key q :=
  upto_antisymm (hp.2 q hq.1) (hq.2 p hp.1)

lemma of_subset (hp : Next h key T p) (hsub : S ⊆ T) (hmem : p ∈ S) : Next h key S p :=
  ⟨hmem, fun q hq => hp.2 q (hsub hq)⟩

end Next

end Symkernel.Library
