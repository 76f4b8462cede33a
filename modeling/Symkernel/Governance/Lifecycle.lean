import Symkernel.Library.GoMap
import Symkernel.Library.GoStrings

/-!
# The lifecycle of a policy

Versions, states and `Policy.Transition`. A state is a string in the source; one that is not among
the constants has no entry in `ValidTransitions`.
-/

namespace Symkernel.Governance

open Library

structure SchemaVersion where
  major : Int
  minor : Int
  patch : Int
  deriving DecidableEq, Repr

def stateNames : List Text :=
  ["draft".toList, "pending_approval".toList, "approved".toList, "staged".toList,
    "deployed".toList, "deprecated".toList, "rolled_back".toList]

inductive LifecycleState where
  | draft
  | pendingApproval
  | approved
  | staged
  | deployed
  | deprecated
  | rolledBack
  | unknown (name : Text) (h : name ∉ stateNames)
  deriving DecidableEq

def LifecycleState.text : LifecycleState → Text
  | .draft => "draft".toList
  | .pendingApproval => "pending_approval".toList
  | .approved => "approved".toList
  | .staged => "staged".toList
  | .deployed => "deployed".toList
  | .deprecated => "deprecated".toList
  | .rolledBack => "rolled_back".toList
  | .unknown name _ => name

def validTransitions : LifecycleState → Option (List LifecycleState)
  | .draft => some [.pendingApproval]
  | .pendingApproval => some [.draft, .approved]
  | .approved => some [.staged]
  | .staged => some [.deployed, .draft]
  | .deployed => some [.deprecated, .rolledBack]
  | .deprecated => some []
  | .rolledBack => some [.draft]
  | .unknown _ _ => none

abbrev Time := Int

structure TransitionRecord where
  policyID : Text
  version : SchemaVersion
  source : LifecycleState
  target : LifecycleState
  actor : Text
  reason : Text
  timestamp : Time
  deriving DecidableEq

/-- What the modelled functions read of a policy, and the time of its last transition. -/
structure Policy where
  id : Text
  version : SchemaVersion
  state : LifecycleState
  updatedAt : Time
  deriving DecidableEq

def newPolicy (id : Text) (v : SchemaVersion) (now : Time) : Policy :=
  { id := id, version := v, state := .draft, updatedAt := now }

inductive TransitionError where
  | unknownState (state : LifecycleState)
  | notPermitted (source target : LifecycleState)
  deriving DecidableEq

def TransitionError.message (isPrint : Char → Bool) : TransitionError → String
  | .unknownState state =>
    "invalid lifecycle transition: unknown current state " ++
      goQuote isPrint (String.ofList state.text)
  | .notPermitted source target =>
    "invalid lifecycle transition: " ++ goQuote isPrint (String.ofList source.text) ++ " -> " ++
      goQuote isPrint (String.ofList target.text) ++ " is not permitted"

def Policy.transition (p : Policy) (target : LifecycleState) (actor reason : Text) (now : Time) :
    Except TransitionError (TransitionRecord × Policy) :=
  match validTransitions p.state with
  | none => .error (.unknownState p.state)
  | some allowed =>
    if target ∈ allowed then
      .ok ({ policyID := p.id, version := p.version, source := p.state, target := target,
             actor := actor, reason := reason, timestamp := now },
        { p with state := target, updatedAt := now })
    else .error (.notPermitted p.state target)

def Policy.afterTransition (p : Policy) (target : LifecycleState) (actor reason : Text) (now : Time) :
    Policy :=
  match p.transition target actor reason now with
  | .ok (_, p') => p'
  | .error _ => p

def canTransition (source target : LifecycleState) : Bool :=
  match validTransitions source with
  | none => false
  | some allowed => target ∈ allowed

lemma Policy.transition_eq_ok {p p' : Policy} {target : LifecycleState} {actor reason : Text}
    {now : Time} {record : TransitionRecord}
    (h : p.transition target actor reason now = .ok (record, p')) :
    canTransition p.state target = true ∧ p' = { p with state := target, updatedAt := now } ∧
      record = ⟨p.id, p.version, p.state, target, actor, reason, now⟩ := by
  unfold transition at h
  unfold canTransition
  cases hvalid : validTransitions p.state with
  | none =>
    rw [hvalid] at h
    cases h
  | some allowed =>
    rw [hvalid] at h
    dsimp only at h ⊢
    split at h
    · rename_i hto
      cases h
      exact ⟨decide_eq_true hto, rfl, rfl⟩
    · cases h

lemma Policy.transition_isOk_iff (p : Policy) (target : LifecycleState) (actor reason : Text)
    (now : Time) :
    (∃ r, p.transition target actor reason now = .ok r) ↔ canTransition p.state target = true := by
  constructor
  · rintro ⟨⟨record, p'⟩, h⟩
    exact (transition_eq_ok h).1
  · intro h
    unfold canTransition at h
    unfold transition
    cases hvalid : validTransitions p.state with
    | none =>
      rw [hvalid] at h
      cases h
    | some allowed =>
      rw [hvalid] at h
      dsimp only at h ⊢
      rw [if_pos (of_decide_eq_true h)]
      exact ⟨_, rfl⟩

lemma Policy.afterTransition_cases (p : Policy) (target : LifecycleState) (actor reason : Text)
    (now : Time) : p.afterTransition target actor reason now = p ∨
      canTransition p.state target = true ∧
        p.afterTransition target actor reason now = { p with state := target, updatedAt := now } := by
  unfold afterTransition
  cases h : p.transition target actor reason now with
  | error e => exact .inl rfl
  | ok r =>
    obtain ⟨record, p'⟩ := r
    obtain ⟨hcan, hp, -⟩ := transition_eq_ok h
    exact .inr ⟨hcan, hp⟩

end Symkernel.Governance
