import Symkernel.Library.Wasm.Flags
import Symkernel.Verify.Simulation

/-!
# Widths

The result of a comparison has width 0 in the executor, although WebAssembly gives it the type
`i32`.
-/

namespace Symkernel.Verify

open Library Library.Smt List

def SymbolicValue.isFlag (v : SymbolicValue) : Bool :=
  v.bits == 0

def SymbolicState.flags (s : SymbolicState) : Wasm.Flags :=
  ⟨s.locals.map SymbolicValue.isFlag, s.stack.map SymbolicValue.isFlag, s.depth⟩

/-- The width of a value of a type: its own, or 0 for a truth value kept as an `i32`. -/
def Sized (v : SymbolicValue) : Wasm.ValType → Prop
  | .int t => v.bits = t.width ∨ (t = .i32 ∧ v.bits = 0)
  | .other _ => False

variable {v : SymbolicValue}

lemma Sized.bits_eq {t : Wasm.IntType} (h : Sized v (.int t)) (hv : v.isFlag = false) :
    v.bits = t.width := by
  obtain h | ⟨-, h⟩ := h
  · exact h
  · rw [SymbolicValue.isFlag, h] at hv
    cases hv

lemma isFlag_eq_true : v.isFlag = true ↔ v.bits = 0 := by
  simp [SymbolicValue.isFlag]

lemma isFlag_of_width {t : Wasm.IntType} (h : v.bits = t.width) : v.isFlag = false := by
  rw [SymbolicValue.isFlag, h]
  cases t <;> rfl

@[simp] lemma isFlag_boolValue (expr : Term) (known : Option Bool) :
    (boolValue expr known).isFlag = true := by
  cases known <;> rfl

lemma sized_boolValue (expr : Term) (known : Option Bool) :
    Sized (boolValue expr known) (.int .i32) :=
  Or.inr ⟨rfl, isFlag_eq_true.mp (isFlag_boolValue expr known)⟩

structure Sizes (s : SymbolicState) (Γ types : List Wasm.ValType) : Prop where
  locals : List.Forall₂ Sized s.locals Γ
  stack : List.Forall₂ Sized s.stack types

section Instructions

variable {s : SymbolicState} {Γ types : List Wasm.ValType}

lemma Sizes.pop {t : Wasm.ValType} (h : Sizes s Γ (t :: types)) :
    ∃ v s', s.pop = .ok (v, s') ∧ s.stack = v :: s'.stack ∧ Sized v t ∧ Sizes s' Γ types := by
  obtain ⟨v, stack, hv, hrest, hstack⟩ := List.forall₂_cons_right_iff.mp h.stack
  refine ⟨v, { s with stack }, ?_, hstack, hv, h.locals, hrest⟩
  simp only [SymbolicState.pop, hstack]

lemma Sizes.push (h : Sizes s Γ types) {v : SymbolicValue} {t : Wasm.ValType} (hv : Sized v t) :
    Sizes (s.push v) Γ (t :: types) :=
  ⟨h.locals, .cons hv h.stack⟩

lemma Sizes.assume (h : Sizes s Γ types) (c : Term) : Sizes (s.assume c) Γ types :=
  ⟨h.locals, h.stack⟩

lemma Sizes.deeper (h : Sizes s Γ types) : Sizes { s with depth := s.depth + 1 } Γ types :=
  ⟨h.locals, h.stack⟩

lemma Sizes.condition {a t f : List Wasm.ValType} (h : Sizes s Γ (.int .i32 :: (a ++ t) ++ f)) :
    ∃ v s', { s with depth := s.depth + 1 }.pop = .ok (v, s') ∧ Sizes s' Γ (a ++ (t ++ f)) := by
  rw [cons_append, append_assoc] at h
  obtain ⟨v, s', hpop, -, -, hs'⟩ := h.deeper.pop
  exact ⟨v, s', hpop, hs'⟩

lemma executeGet_progress (h : Sizes s Γ types) {x : Nat} {t : Wasm.ValType}
    (hx : Γ[x]? = some t) : ∃ s', executeGet s x = .ok s' ∧ Sizes s' Γ (t :: types) := by
  obtain ⟨hlt, rfl⟩ := List.getElem?_eq_some_iff.mp hx
  have hlen := h.locals.length_eq
  have hget : s.locals[x]? = some (s.locals[x]) := List.getElem?_eq_getElem (by omega)
  refine ⟨s.push s.locals[x], by simp only [executeGet, hget], h.push ?_⟩
  exact (List.forall₂_iff_get.mp h.locals).2 x (by omega) hlt

lemma executeSet_progress {x : Nat} {t : Wasm.ValType} (h : Sizes s Γ (t :: types))
    (hx : Γ[x]? = some t) (tee : Bool) : ∃ s', executeSet s x tee = .ok s' ∧
      Sizes s' Γ (if tee then t :: types else types) := by
  obtain ⟨v, s₁, hpop, -, hv, h₁⟩ := h.pop
  obtain ⟨hlt, hget⟩ := List.getElem?_eq_some_iff.mp hx
  have hlen := h₁.locals.length_eq
  have hlocals : List.Forall₂ Sized (s₁.locals.set x v) Γ := by
    have hset := forall₂_set h₁.locals x hv
    rwa [← hget, set_getElem_self] at hset
  have hin : ¬s₁.locals.length ≤ x := by omega
  simp only [executeSet, hpop, bind, Except.bind, if_neg hin]
  refine ⟨_, rfl, ?_⟩
  cases tee with
  | true => exact ⟨hlocals, .cons hv h₁.stack⟩
  | false => exact ⟨hlocals, h₁.stack⟩

lemma executeDrop_progress {t : Wasm.ValType} (h : Sizes s Γ (t :: types)) :
    ∃ s', executeDrop s = .ok s' ∧ Sizes s' Γ types := by
  obtain ⟨v, s₁, hpop, -, -, h₁⟩ := h.pop
  exact ⟨s₁, by simp only [executeDrop, hpop, bind, Except.bind], h₁⟩

variable {t : Wasm.IntType}

lemma executeEqz_progress (h : Sizes s Γ (.int t :: types))
    (hflag : (Wasm.Instr.eqz t).takesFlag s.flags.stack = false) :
    ∃ s', executeEqz s t.width = .ok s' ∧ Sizes s' Γ (.int .i32 :: types) := by
  obtain ⟨v, s₁, hpop, hstack, hv, h₁⟩ := h.pop
  simp only [SymbolicState.flags, hstack] at hflag
  have hbits := hv.bits_eq hflag
  simp only [executeEqz, hpop, bind, Except.bind, hbits, ne_eq]
  exact ⟨_, rfl, h₁.push (sized_boolValue _ _)⟩

lemma executeEqz_fails (h : Sizes s Γ (.int t :: types))
    (hflag : (Wasm.Instr.eqz t).takesFlag s.flags.stack = true) :
    ∃ err, executeEqz s t.width = .error err := by
  obtain ⟨v, s₁, hpop, hstack, -, -⟩ := h.pop
  simp only [SymbolicState.flags, hstack] at hflag
  have hne : v.bits ≠ t.width := by
    rw [isFlag_eq_true.mp hflag]
    cases t <;> decide
  simp only [executeEqz, hpop, bind, Except.bind, if_pos hne]
  exact ⟨_, rfl⟩

variable {o : UInt8}

lemma executeComparison_progress {op : Wasm.RelOp} (hop : Wasm.relOpcode o = some (t, op))
    (h : Sizes s Γ (.int t :: .int t :: types))
    (hflag : (Wasm.Instr.rel t op).takesFlag s.flags.stack = false) :
    ∃ s', executeComparison s o = .ok s' ∧ Sizes s' Γ (.int .i32 :: types) := by
  obtain ⟨b, s₁, hpop, hstack, hb, h₁⟩ := h.pop
  obtain ⟨a, s₂, hpop', hstack', ha, h₂⟩ := h₁.pop
  simp only [SymbolicState.flags, hstack, hstack', map_cons, Wasm.Instr.takesFlag,
    Bool.or_eq_false_iff] at hflag
  have hwidth := width_eq t
  have habits := ha.bits_eq hflag.1
  have hbbits := hb.bits_eq hflag.2
  have hok : ¬(a.bits = 0 ∨ a.bits ≠ b.bits) := by omega
  simp only [executeComparison, hpop, hpop', bind, Except.bind, if_neg hok,
    comparisonOperator_of_rel hop]
  exact ⟨_, rfl, h₂.push (sized_boolValue _ _)⟩

lemma executeComparison_fails {op : Wasm.RelOp} (h : Sizes s Γ (.int t :: .int t :: types))
    (hflag : (Wasm.Instr.rel t op).takesFlag s.flags.stack = true) :
    ∃ err, executeComparison s o = .error err := by
  obtain ⟨b, s₁, hpop, hstack, -, h₁⟩ := h.pop
  obtain ⟨a, s₂, hpop', hstack', -, -⟩ := h₁.pop
  simp only [SymbolicState.flags, hstack, hstack', map_cons, Wasm.Instr.takesFlag,
    Bool.or_eq_true, isFlag_eq_true] at hflag
  have hbad : a.bits = 0 ∨ a.bits ≠ b.bits := by omega
  simp only [executeComparison, hpop, hpop', bind, Except.bind, if_pos hbad]
  exact ⟨_, rfl⟩

lemma executeArithmetic_progress {op : Wasm.BinOp} (hop : Wasm.binOpcode o = some (t, op))
    (h : Sizes s Γ (.int t :: .int t :: types))
    (hflag : (Wasm.Instr.bin t op).takesFlag s.flags.stack = false) :
    ∃ s', executeArithmetic s o = .ok s' ∧ Sizes s' Γ (.int t :: types) := by
  obtain ⟨b, s₁, hpop, hstack, hb, h₁⟩ := h.pop
  obtain ⟨a, s₂, hpop', hstack', ha, h₂⟩ := h₁.pop
  simp only [SymbolicState.flags, hstack, hstack', map_cons, Wasm.Instr.takesFlag,
    Bool.or_eq_false_iff] at hflag
  have habits := ha.bits_eq hflag.1
  have hbbits := hb.bits_eq hflag.2
  have hok : ¬(arithmeticWidth o ≠ some a.bits ∨ arithmeticWidth o ≠ some b.bits) := by
    rw [(arithmetic_of_bin hop).1, habits, hbbits]
    simp
  simp only [executeArithmetic, hpop, hpop', bind, Except.bind, if_neg hok]
  refine ⟨_, rfl, h₂.push (Or.inl ?_)⟩
  cases a.known <;> cases b.known <;> exact habits

lemma executeArithmetic_fails {op : Wasm.BinOp} (hop : Wasm.binOpcode o = some (t, op))
    (h : Sizes s Γ (.int t :: .int t :: types))
    (hflag : (Wasm.Instr.bin t op).takesFlag s.flags.stack = true) :
    ∃ err, executeArithmetic s o = .error err := by
  obtain ⟨b, s₁, hpop, hstack, -, h₁⟩ := h.pop
  obtain ⟨a, s₂, hpop', hstack', -, -⟩ := h₁.pop
  simp only [SymbolicState.flags, hstack, hstack', map_cons, Wasm.Instr.takesFlag,
    Bool.or_eq_true, isFlag_eq_true] at hflag
  have hwidth := width_eq t
  have hbad : arithmeticWidth o ≠ some a.bits ∨ arithmeticWidth o ≠ some b.bits := by
    rw [(arithmetic_of_bin hop).1]
    simp only [ne_eq, Option.some.injEq]
    omega
  simp only [executeArithmetic, hpop, hpop', bind, Except.bind, if_pos hbad]
  exact ⟨_, rfl⟩

end Instructions

inductive Executes (o : UInt8) (index : Nat) (value : BitVec 64) :
    Wasm.Instr → (SymbolicState → Except GoError SymbolicState) → Prop where
  | rel {t op} : Wasm.relOpcode o = some (t, op) →
      Executes o index value (.rel t op) fun s => executeComparison s o
  | bin {t op} : Wasm.binOpcode o = some (t, op) →
      Executes o index value (.bin t op) fun s => executeArithmetic s o
  | localGet : Executes o index value (.localGet index) fun s => executeGet s index
  | localSet : Executes o index value (.localSet index) fun s => executeSet s index false
  | localTee : Executes o index value (.localTee index) fun s => executeSet s index true
  | i32Const : Executes o index value (.i32Const (value.setWidth 32))
      fun s => .ok (s.push (typedConstant value 32))
  | i64Const : Executes o index value (.i64Const value)
      fun s => .ok (s.push (typedConstant value 64))
  | eqz (t) : Executes o index value (.eqz t) fun s => executeEqz s t.width
  | drop : Executes o index value .drop executeDrop
  | foreign {op exec} : (∀ s s', exec s ≠ .ok s') → Executes o index value (.foreign op []) exec

lemma executes (o : UInt8) (index : Nat) (value : BitVec 64)
    (thenCode otherwise : List Instruction) : Executes o index value (wasmBasic o index value)
      fun s => executeInstruction s (.mk o index value thenCode otherwise) := by
  have houtside : ∀ op, wasmBasic o index value = .foreign op [] → Executes o index value
      (.foreign op []) fun s => executeInstruction s (.mk o index value thenCode otherwise) :=
    fun op hop => .foreign fun s s' => executeInstruction_outside (by rw [hop]; rfl)
  unfold wasmBasic at *
  split at *
  · rename_i t op hop
    simp only [executeInstruction_rel hop]
    exact .rel hop
  · rename_i t op _ hop
    simp only [executeInstruction_bin hop]
    exact .bin hop
  · split at *
    · exact .localGet
    · exact .localSet
    · exact .localTee
    · exact .i32Const
    · exact .i64Const
    · exact .eqz .i32
    · exact .eqz .i64
    · exact .drop
    · exact houtside _ rfl

section Instructions

variable {s s' : SymbolicState} {Γ a b f : List Wasm.ValType} {o : UInt8} {index : Nat}
  {value : BitVec 64} {i : Wasm.Instr} {exec : SymbolicState → Except GoError SymbolicState}

/-- An instruction of valid code succeeds unless it takes a truth value. -/
lemma Executes.progress (hx : Executes o index value i exec) (hty : Wasm.Basic Γ i a b)
    (h : Sizes s Γ (a ++ f)) (hflag : i.takesFlag s.flags.stack = false) :
    ∃ s', exec s = .ok s' ∧ Sizes s' Γ (b ++ f) := by
  cases hx <;> cases hty
  · exact executeComparison_progress ‹_› h hflag
  · exact executeArithmetic_progress ‹_› h hflag
  · exact executeGet_progress h ‹_›
  · exact executeSet_progress h ‹_› false
  · exact executeSet_progress h ‹_› true
  · exact ⟨_, rfl, h.push (Or.inl rfl)⟩
  · exact ⟨_, rfl, h.push (Or.inl rfl)⟩
  · exact executeEqz_progress h hflag
  · exact executeDrop_progress h

lemma Executes.fails (hx : Executes o index value i exec) (hty : Wasm.Basic Γ i a b)
    (h : Sizes s Γ (a ++ f)) (hflag : i.takesFlag s.flags.stack = true) :
    ∃ err, exec s = .error err := by
  cases hx with
  | rel =>
    cases hty
    exact executeComparison_fails h hflag
  | bin hop =>
    cases hty
    exact executeArithmetic_fails hop h hflag
  | eqz t =>
    cases hty
    exact executeEqz_fails h hflag
  | _ => cases hflag

lemma Executes.isIte (hx : Executes o index value i exec) : i.isIte = false := by
  cases hx <;> rfl

lemma pop_flags {v : SymbolicValue} (h : s.pop = .ok (v, s')) :
    s.flags.stack = v.isFlag :: s'.flags.stack ∧ s'.flags.locals = s.flags.locals ∧
      s'.flags.steps = s.flags.steps := by
  obtain ⟨hstack, hlocals, hpath⟩ := pop_eq_ok h
  simp only [SymbolicState.flags, hstack, hlocals, hpath.depth, map_cons, and_self]

lemma pop_pop_flags {s₁ : SymbolicState} {x y : SymbolicValue} (hy : s.pop = .ok (y, s₁))
    (hx : s₁.pop = .ok (x, s')) (v : SymbolicValue) : (s'.push v).flags =
      { s.flags with stack := v.isFlag :: s.flags.stack.drop 2 } := by
  obtain ⟨hstack, hlocals, hsteps⟩ := pop_flags hy
  obtain ⟨hstack', hlocals', hsteps'⟩ := pop_flags hx
  rw [hstack, hstack']
  exact Wasm.Flags.mk.injEq .. ▸ ⟨hlocals'.trans hlocals, rfl, hsteps'.trans hsteps⟩

lemma Executes.flags (hx : Executes o index value i exec)
    (hexec : exec { s with depth := s.depth + 1 } = .ok s') : s'.flags = i.flagStep s.flags := by
  cases hx with
  | rel =>
    obtain ⟨⟨y, s₁⟩, hy, hexec⟩ := bind_eq_ok.mp hexec
    obtain ⟨⟨x, s₂⟩, hx, hexec⟩ := bind_eq_ok.mp hexec
    simp only at hexec
    split at hexec
    · cases hexec
    · split at hexec <;> cases hexec
      rw [pop_pop_flags hy hx, isFlag_boolValue]
      rfl
  | @bin t op hop =>
    obtain ⟨⟨y, s₁⟩, hy, hexec⟩ := bind_eq_ok.mp hexec
    obtain ⟨⟨x, s₂⟩, hx, hexec⟩ := bind_eq_ok.mp hexec
    simp only [(arithmetic_of_bin hop).1] at hexec
    split at hexec
    · cases hexec
    · rename_i hwidth
      cases hexec
      simp only [Option.some.injEq, not_or, not_not] at hwidth
      rw [pop_pop_flags hy hx, isFlag_of_width (t := t)]
      · rfl
      · cases x.known <;> cases y.known <;> exact hwidth.1.symm
  | localGet =>
    simp only [executeGet] at hexec
    split at hexec
    · cases hexec
    · rename_i v hv
      cases hexec
      simp [SymbolicState.flags, SymbolicState.push, Wasm.Instr.flagStep, hv]
  | localSet =>
    obtain ⟨v, s₁, hpop, rfl⟩ := executeSet_eq_ok hexec
    obtain ⟨hstack, hlocals, hpath⟩ := pop_eq_ok hpop
    simp only at hstack hlocals
    simp [SymbolicState.flags, Wasm.Instr.flagStep, Wasm.Flags.enter, hstack, hlocals, hpath.depth]
  | localTee =>
    obtain ⟨v, s₁, hpop, rfl⟩ := executeSet_eq_ok hexec
    obtain ⟨hstack, hlocals, hpath⟩ := pop_eq_ok hpop
    simp only at hstack hlocals
    simp [SymbolicState.flags, SymbolicState.push, Wasm.Instr.flagStep, hstack, hlocals,
      hpath.depth]
  | i32Const =>
    cases hexec
    rfl
  | i64Const =>
    cases hexec
    rfl
  | eqz t =>
    obtain ⟨⟨v, s₁⟩, hpop, hexec⟩ := bind_eq_ok.mp hexec
    simp only at hexec
    split at hexec
    · cases hexec
    · cases hexec
      obtain ⟨hstack, hlocals, hpath⟩ := pop_eq_ok hpop
      simp only at hstack hlocals
      simp [SymbolicState.flags, SymbolicState.push, Wasm.Instr.flagStep, hstack, hlocals,
        hpath.depth]
  | drop =>
    obtain ⟨⟨v, s₁⟩, hpop, hexec⟩ := bind_eq_ok.mp hexec
    cases hexec
    obtain ⟨hstack, hlocals, hpath⟩ := pop_eq_ok hpop
    simp only at hstack hlocals
    simp [SymbolicState.flags, Wasm.Instr.flagStep, Wasm.Flags.enter, hstack, hlocals, hpath.depth]
  | foreign hno => exact absurd hexec (hno _ _)

end Instructions

end Symkernel.Verify
