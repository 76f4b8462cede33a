import Mathlib

/-!
# Runs of a deterministic step function

Every source of nondeterminism (clock readings, random draws, deliveries) is part of the input.
-/

namespace Symkernel.Library

section Runs

variable {σ α : Type*} (step : σ → α → σ)

def runFrom (s : σ) (inputs : List α) : σ :=
  inputs.foldl step s

@[simp] lemma runFrom_nil (s : σ) : runFrom step s [] = s := rfl

@[simp] lemma runFrom_cons (s : σ) (a : α) (inputs : List α) :
    runFrom step s (a :: inputs) = runFrom step (step s a) inputs := rfl

lemma runFrom_append (s : σ) (front back : List α) :
    runFrom step s (front ++ back) = runFrom step (runFrom step s front) back :=
  List.foldl_append

/-- Every step of the run meets `guard`, which sees the state before the step. -/
def EveryStep (guard : σ → α → Prop) : σ → List α → Prop
  | _, [] => True
  | s, a :: inputs => guard s a ∧ EveryStep guard (step s a) inputs

/-- Every state of the run satisfies `P`, the first and the last one included. -/
def EveryState (P : σ → Prop) : σ → List α → Prop
  | s, [] => P s
  | s, a :: inputs => P s ∧ EveryState P (step s a) inputs

/-- What `out` reports along the run, from the state before each step. -/
def outputs {β : Type*} (out : σ → α → List β) : σ → List α → List β
  | _, [] => []
  | s, a :: inputs => out s a ++ outputs out (step s a) inputs

/-- Some state of the run satisfies `P`, the first and the last one included. -/
def Once (P : σ → Prop) (s : σ) (inputs : List α) : Prop :=
  ∃ past, past <+: inputs ∧ P (runFrom step s past)

variable {step}

lemma outputs_append {β : Type*} (out : σ → α → List β) (s : σ) (front back : List α) :
    outputs step out s (front ++ back) =
      outputs step out s front ++ outputs step out (runFrom step s front) back := by
  induction front generalizing s with
  | nil => rfl
  | cons a front ih => simp [outputs, ih]

variable {guard guard' : σ → α → Prop} {s : σ} {front inputs : List α}

lemma EveryStep.append {back : List α} : EveryStep step guard s (front ++ back) ↔
      EveryStep step guard s front ∧ EveryStep step guard (runFrom step s front) back := by
  induction front generalizing s with
  | nil => simp [EveryStep]
  | cons a front ih => simp [EveryStep, ih, and_assoc]

lemma EveryStep.mono (h : ∀ s a, guard s a → guard' s a) (hs : EveryStep step guard s inputs) :
    EveryStep step guard' s inputs := by
  induction inputs generalizing s with
  | nil => trivial
  | cons a inputs ih => exact ⟨h s a hs.1, ih hs.2⟩

lemma EveryStep.and_iff : EveryStep step (fun s a => guard s a ∧ guard' s a) s inputs ↔
      EveryStep step guard s inputs ∧ EveryStep step guard' s inputs := by
  induction inputs generalizing s with
  | nil => simp [EveryStep]
  | cons a inputs ih =>
    simp only [EveryStep, ih]
    tauto

lemma EveryStep.of_forall_mem {P : α → Prop} (h : ∀ a ∈ inputs, P a) :
    EveryStep step (fun _ a => P a) s inputs := by
  induction inputs generalizing s with
  | nil => trivial
  | cons a inputs ih =>
    exact ⟨h a List.mem_cons_self, ih fun b hb => h b (List.mem_cons_of_mem a hb)⟩

/-- In runs of which something is known at every step, two guards that agree wherever an invariant
holds select the same runs, when either of them keeps the invariant. -/
theorem EveryStep.congr_of_known {known guard guard' : σ → α → Prop} {P : σ → Prop}
    (hiff : ∀ s a, P s → known s a → (guard s a ↔ guard' s a))
    (hstep : ∀ s a, P s → known s a → guard s a → P (step s a)) {s : σ} (h0 : P s)
    {inputs : List α} (hknown : EveryStep step known s inputs) :
    EveryStep step guard s inputs ↔ EveryStep step guard' s inputs := by
  induction inputs generalizing s with
  | nil => exact Iff.rfl
  | cons a inputs ih =>
    obtain ⟨ha, hrest⟩ := hknown
    have hhead := hiff s a h0 ha
    constructor
    · rintro ⟨hg, hguards⟩
      exact ⟨hhead.mp hg, (ih (hstep s a h0 ha hg) hrest).mp hguards⟩
    · rintro ⟨hg', hguards⟩
      have hg := hhead.mpr hg'
      exact ⟨hg, (ih (hstep s a h0 ha hg) hrest).mpr hguards⟩

/-- Without such knowledge. -/
theorem EveryStep.congr_of_invariant {guard guard' : σ → α → Prop} {P : σ → Prop}
    (hiff : ∀ s a, P s → (guard s a ↔ guard' s a))
    (hstep : ∀ s a, P s → guard s a → P (step s a)) {s : σ} (h0 : P s) (inputs : List α) :
    EveryStep step guard s inputs ↔ EveryStep step guard' s inputs :=
  EveryStep.congr_of_known (fun s a h _ => hiff s a h)
    (fun s a h _ => hstep s a h) h0 (EveryStep.of_forall_mem fun _ _ => trivial)

/-- A guard that an invariant implies is met all along a run that keeps the invariant. -/
theorem EveryStep.of_known {known guard : σ → α → Prop} {P : σ → Prop}
    (hguard : ∀ s a, P s → known s a → guard s a)
    (hstep : ∀ s a, P s → known s a → P (step s a)) {s : σ} (h0 : P s) {inputs : List α}
    (hknown : EveryStep step known s inputs) : EveryStep step guard s inputs := by
  induction inputs generalizing s with
  | nil => trivial
  | cons a inputs ih => exact ⟨hguard s a h0 hknown.1, ih (hstep s a h0 hknown.1) hknown.2⟩

/-- An invariant kept by every guarded step holds at the end of every guarded run. -/
theorem runFrom_invariant {guard : σ → α → Prop} {P : σ → Prop}
    (hstep : ∀ s a, P s → guard s a → P (step s a)) {s : σ} {inputs : List α}
    (h0 : P s) (hg : EveryStep step guard s inputs) : P (runFrom step s inputs) := by
  induction inputs generalizing s with
  | nil => exact h0
  | cons a inputs ih => exact ih (hstep s a h0 hg.1) hg.2

variable {P : σ → Prop}

lemma Once.last (h : P (runFrom step s inputs)) : Once step P s inputs :=
  ⟨inputs, List.prefix_rfl, h⟩

lemma Once.append (h : Once step P s front) (back : List α) : Once step P s (front ++ back) := by
  obtain ⟨past, hpast, hP⟩ := h
  exact ⟨past, hpast.trans (List.prefix_append front back), hP⟩

/-- What is only ever entered with `P` is preceded by `P`. -/
theorem Once.of_entered {guard : σ → α → Prop} {P Q : σ → Prop}
    (hstep : ∀ s a, guard s a → ¬Q s → Q (step s a) → P s ∨ P (step s a)) {s : σ}
    (h0 : ¬Q s) {inputs : List α} (hg : EveryStep step guard s inputs)
    (hQ : Q (runFrom step s inputs)) : Once step P s inputs := by
  induction inputs using List.reverseRecOn with
  | nil => exact absurd hQ h0
  | append_singleton front a ih =>
    obtain ⟨hfront, hlast, -⟩ := EveryStep.append.mp hg
    by_cases hbefore : Q (runFrom step s front)
    · exact (ih hfront hbefore).append [a]
    · rw [runFrom_append] at hQ
      cases hstep _ a hlast hbefore hQ with
      | inl hP => exact (Once.last hP).append [a]
      | inr hP =>
        refine Once.last ?_
        rw [runFrom_append]
        exact hP

lemma EveryState.head (h : EveryState step P s inputs) : P s := by
  cases inputs with
  | nil => exact h
  | cons a inputs => exact h.1

lemma EveryState.mono {P' : σ → Prop} (h : ∀ s, P s → P' s) (hs : EveryState step P s inputs) :
    EveryState step P' s inputs := by
  induction inputs generalizing s with
  | nil => exact h s hs
  | cons a inputs ih => exact ⟨h s hs.1, ih hs.2⟩

lemma EveryState.of_invariant (hstep : ∀ s a, P s → guard s a → P (step s a)) (h0 : P s)
    (hg : EveryStep step guard s inputs) : EveryState step P s inputs := by
  induction inputs generalizing s with
  | nil => exact h0
  | cons a inputs ih => exact ⟨h0, ih (hstep s a h0 hg.1) hg.2⟩

/-- A guard that decides whether the next state satisfies `P` decides whether all states do. -/
theorem everyState_iff_everyStep {guard : σ → α → Prop} {P : σ → Prop}
    (hstep : ∀ s a, P s → (P (step s a) ↔ guard s a)) {s : σ} (h0 : P s) (inputs : List α) :
    EveryState step P s inputs ↔ EveryStep step guard s inputs := by
  induction inputs generalizing s with
  | nil => exact ⟨fun _ => trivial, fun _ => h0⟩
  | cons a inputs ih =>
    constructor
    · rintro ⟨-, hrest⟩
      exact ⟨(hstep s a h0).mp hrest.head, (ih hrest.head).mp hrest⟩
    · rintro ⟨hg, hrest⟩
      exact ⟨h0, (ih ((hstep s a h0).mpr hg)).mpr hrest⟩

end Runs

end Symkernel.Library
