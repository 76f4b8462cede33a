import Symkernel.Library.Wasm.Core

/-!
# Where the results of comparisons go

WebAssembly has no type of truth values: a test leaves an `i32`.
-/

namespace Symkernel.Library.Wasm

structure Flags where
  locals : List Bool
  stack : List Bool
  steps : Nat
  deriving DecidableEq

def Flags.enter (φ : Flags) : Flags :=
  { φ with stack := φ.stack.tail, steps := φ.steps + 1 }

namespace Instr

def takesFlag : Instr → List Bool → Bool
  | .eqz _, a :: _ => a
  | .rel .., b :: a :: _ => a || b
  | .bin .., b :: a :: _ => a || b
  | _, _ => false

def flagStep : Instr → Flags → Flags
  | .localGet x, φ =>
    { φ with stack := φ.locals.getD x false :: φ.stack, steps := φ.steps + 1 }
  | .localSet x, φ =>
    { φ.enter with locals := φ.locals.set x (φ.stack.headD false) }
  | .localTee x, φ =>
    { φ with locals := φ.locals.set x (φ.stack.headD false), steps := φ.steps + 1 }
  | .i32Const _, φ => { φ with stack := false :: φ.stack, steps := φ.steps + 1 }
  | .i64Const _, φ => { φ with stack := false :: φ.stack, steps := φ.steps + 1 }
  | .eqz _, φ => { φ with stack := true :: φ.stack.drop 1, steps := φ.steps + 1 }
  | .rel .., φ => { φ with stack := true :: φ.stack.drop 2, steps := φ.steps + 1 }
  | .bin .., φ => { φ with stack := false :: φ.stack.drop 2, steps := φ.steps + 1 }
  | .drop, φ => φ.enter
  | _, φ => { φ with steps := φ.steps + 1 }

end Instr

/-- A path through the code that executes at most `d` instructions in all and has not used the
result of a test as an operand. -/
inductive Path (d : Nat) : List Instr → Flags → Flags → Prop where
  | nil {φ} : Path d [] φ φ
  | basic {i is φ φ'} : i.isIte = false → φ.steps < d → i.takesFlag φ.stack = false →
      Path d is (i.flagStep φ) φ' → Path d (i :: is) φ φ'
  | ite {bt thn els is code φ ψ φ'} : φ.steps < d → (code = thn ∨ code = els) →
      Path d code φ.enter ψ → Path d is ψ φ' → Path d (.ite bt thn els :: is) φ φ'

/-- On some path of at most `d` instructions the result of a test is an operand. -/
inductive UsesFlag (d : Nat) : List Instr → Flags → Prop where
  | here {i is φ} : φ.steps < d → i.takesFlag φ.stack = true → UsesFlag d (i :: is) φ
  | inside {bt thn els is code φ} : φ.steps < d → (code = thn ∨ code = els) →
      UsesFlag d code φ.enter → UsesFlag d (.ite bt thn els :: is) φ
  | later {i is φ ψ} : Path d [i] φ ψ → UsesFlag d is ψ → UsesFlag d (i :: is) φ

variable {d : Nat}

lemma flagStep_steps (i : Instr) (φ : Flags) : (i.flagStep φ).steps = φ.steps + 1 := by
  cases i <;> rfl

lemma not_usesFlag_nil (φ : Flags) : ¬UsesFlag d [] φ := by
  intro h
  cases h

variable {is : List Instr} {φ φ' : Flags}

lemma not_usesFlag_basic {i : Instr} (hi : i.isIte = false) (ht : i.takesFlag φ.stack = false)
    (hrest : ¬UsesFlag d is (i.flagStep φ)) : ¬UsesFlag d (i :: is) φ := by
  intro h
  cases h with
  | here _ hflag =>
    rw [ht] at hflag
    cases hflag
  | inside => cases hi
  | later hpath hu =>
    cases hpath with
    | basic _ _ _ hnil =>
      cases hnil
      exact hrest hu
    | ite => cases hi

lemma not_usesFlag_ite {bt : List UInt8} {thn els : List Instr} (hthn : ¬UsesFlag d thn φ.enter)
    (hels : ¬UsesFlag d els φ.enter) : ¬UsesFlag d [.ite bt thn els] φ := by
  intro h
  cases h with
  | here _ hflag => cases hflag
  | inside _ hcode hu =>
    obtain rfl | rfl := hcode
    · exact hthn hu
    · exact hels hu
  | later _ hu => exact not_usesFlag_nil _ hu

lemma UsesFlag.extend {i : Instr} (h : UsesFlag d [i] φ) (is : List Instr) :
    UsesFlag d (i :: is) φ := by
  cases h with
  | here hk ht => exact .here hk ht
  | inside hk hc hu => exact .inside hk hc hu
  | later _ hu => exact absurd hu (not_usesFlag_nil _)

lemma Path.cons {i : Instr} {ψ : Flags} (h : Path d [i] φ ψ) (hrest : Path d is ψ φ') :
    Path d (i :: is) φ φ' := by
  cases h with
  | basic hi hk ht hnil =>
    cases hnil
    exact .basic hi hk ht hrest
  | ite hk hc hcode hnil =>
    cases hnil
    exact .ite hk hc hcode hrest

lemma Path.steps_le (h : Path d is φ φ') (hφ : φ.steps ≤ d) : φ'.steps ≤ d := by
  induction h with
  | nil => exact hφ
  | basic _ hk _ _ ih =>
    apply ih
    rw [flagStep_steps]
    exact hk
  | ite hk _ _ _ ihCode ih => exact ih (ihCode hk)

end Symkernel.Library.Wasm
