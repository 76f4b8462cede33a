import Symkernel.Verify.Values

/-!
# The executor follows WebAssembly

Fix an assignment of the symbolic parameters. Among the states the executor holds, those whose
constraints are true under it are *live*.
-/

namespace Symkernel.Verify

open Library Library.Smt

def wasmBasic (opcode : UInt8) (index : Nat) (value : BitVec 64) : Wasm.Instr :=
  match Wasm.relOpcode opcode, Wasm.binOpcode opcode with
  | some (t, op), _ => .rel t op
  | none, some (t, op) => .bin t op
  | none, none =>
    match opcode with
    | 0x20 => .localGet index
    | 0x21 => .localSet index
    | 0x22 => .localTee index
    | 0x41 => .i32Const (value.setWidth 32)
    | 0x42 => .i64Const value
    | 0x45 => .eqz .i32
    | 0x50 => .eqz .i64
    | 0x1a => .drop
    | op => .foreign op []

mutual

def Instruction.toWasm : Instruction → Wasm.Instr
  | .mk opcode index value thenCode otherwise =>
    if opcode = 0x04 then .ite [] (wasmOf thenCode) (wasmOf otherwise)
    else wasmBasic opcode index value

def wasmOf : List Instruction → List Wasm.Instr
  | [] => []
  | i :: program => i.toWasm :: wasmOf program

end

section Basic

variable {ρ : Assignment}

structure Holds (ρ : Assignment) (s : SymbolicState) (locals stack : List Wasm.Value) : Prop where
  locals : List.Forall₂ (Represents ρ) s.locals locals
  stack : List.Forall₂ (Represents ρ) s.stack stack

structure SamePath (s s' : SymbolicState) : Prop where
  constraints : s'.constraints = s.constraints
  depth : s'.depth = s.depth

variable {s s' s₁ s₂ : SymbolicState} {a b v : SymbolicValue}

lemma pop_eq_ok (h : s.pop = .ok (v, s')) :
    s.stack = v :: s'.stack ∧ s'.locals = s.locals ∧ SamePath s s' := by
  unfold SymbolicState.pop at h
  split at h
  · cases h
  · rename_i stack hstack
    cases h
    exact ⟨hstack, rfl, rfl, rfl⟩

lemma SamePath.trans (h : SamePath s s₁) (h' : SamePath s₁ s₂) : SamePath s s₂ :=
  ⟨h'.constraints.trans h.constraints, h'.depth.trans h.depth⟩

variable {index : Nat}

lemma executeGet_samePath (h : executeGet s index = .ok s') : SamePath s s' := by
  unfold executeGet at h
  split at h <;> cases h
  exact ⟨rfl, rfl⟩

lemma executeSet_samePath {tee : Bool} (h : executeSet s index tee = .ok s') : SamePath s s' := by
  obtain ⟨⟨v, s₁⟩, hpop, h⟩ := bind_eq_ok.mp h
  obtain ⟨-, -, hpath⟩ := pop_eq_ok hpop
  simp only at h
  split at h <;> cases h
  cases tee
  · exact ⟨hpath.constraints, hpath.depth⟩
  · exact ⟨hpath.constraints, hpath.depth⟩

lemma executeEqz_samePath {width : Nat} (h : executeEqz s width = .ok s') : SamePath s s' := by
  obtain ⟨⟨v, s₁⟩, hpop, h⟩ := bind_eq_ok.mp h
  obtain ⟨-, -, hpath⟩ := pop_eq_ok hpop
  simp only at h
  split at h <;> cases h
  exact ⟨hpath.constraints, hpath.depth⟩

lemma pop_pop_samePath (hb : s.pop = .ok (b, s₁)) (ha : s₁.pop = .ok (a, s₂)) : SamePath s s₂ :=
  (pop_eq_ok hb).2.2.trans (pop_eq_ok ha).2.2

variable {o : UInt8}

lemma executeComparison_samePath (h : executeComparison s o = .ok s') : SamePath s s' := by
  obtain ⟨⟨b, s₁⟩, hb, h⟩ := bind_eq_ok.mp h
  obtain ⟨⟨a, s₂⟩, ha, h⟩ := bind_eq_ok.mp h
  have hpath := pop_pop_samePath hb ha
  simp only at h
  split at h
  · cases h
  · split at h <;> cases h
    exact ⟨hpath.constraints, hpath.depth⟩

lemma executeArithmetic_samePath (h : executeArithmetic s o = .ok s') : SamePath s s' := by
  obtain ⟨⟨b, s₁⟩, hb, h⟩ := bind_eq_ok.mp h
  obtain ⟨⟨a, s₂⟩, ha, h⟩ := bind_eq_ok.mp h
  have hpath := pop_pop_samePath hb ha
  simp only at h
  split at h <;> cases h
  exact ⟨hpath.constraints, hpath.depth⟩

lemma executeDrop_samePath (h : executeDrop s = .ok s') : SamePath s s' := by
  obtain ⟨⟨v, s₁⟩, hpop, h⟩ := bind_eq_ok.mp h
  cases h
  exact (pop_eq_ok hpop).2.2

lemma executeInstruction_samePath {i : Instruction} (h : executeInstruction s i = .ok s') :
    SamePath s s' := by
  unfold executeInstruction at h
  split at h <;> first
    | exact executeGet_samePath h
    | exact executeSet_samePath h
    | exact executeEqz_samePath h
    | exact executeComparison_samePath h
    | exact executeArithmetic_samePath h
    | exact executeDrop_samePath h
    | (cases h; exact ⟨rfl, rfl⟩)
    | cases h

variable {rest stack locals stack' locals' : List Wasm.Value} {x : Wasm.Value}

lemma Holds.pop (h : Holds ρ s locals (x :: stack)) (hpop : s.pop = .ok (v, s')) :
    Represents ρ v x ∧ Holds ρ s' locals stack := by
  obtain ⟨hstack, hlocals, -⟩ := pop_eq_ok hpop
  have hall := h.stack
  rw [hstack, List.forall₂_cons] at hall
  exact ⟨hall.1, hlocals ▸ h.locals, hall.2⟩

lemma Holds.push (h : Holds ρ s locals stack) (hv : Represents ρ v x) :
    Holds ρ (s.push v) locals (x :: stack) :=
  ⟨h.locals, List.Forall₂.cons hv h.stack⟩

variable {t : Wasm.IntType}

lemma executeEqz_holds (h : Holds ρ s locals stack) (hexec : executeEqz s t.width = .ok s')
    (hwasm : (Wasm.Instr.eqz t).basic locals stack = some (locals', stack')) :
    Holds ρ s' locals' stack' := by
  obtain ⟨x, rest, rfl, rfl, rfl⟩ := Wasm.basic_eqz_inv hwasm
  obtain ⟨⟨v, s₁⟩, hpop, hexec⟩ := bind_eq_ok.mp hexec
  obtain ⟨hv, h₁⟩ := h.pop hpop
  simp only at hexec
  split at hexec
  · cases hexec
  · rename_i hbits
    cases hexec
    have hint : IsInt ρ v x := hv.isInt (by have := width_eq t; omega)
    exact h₁.push (.bool (hint.eqz (width_le t)))

lemma Holds.pop_operands {x y : BitVec t.width}
    (h : Holds ρ s locals (t.value y :: t.value x :: rest)) (hb : s.pop = .ok (b, s₁))
    (ha : s₁.pop = .ok (a, s₂)) :
    Represents ρ b (t.value y) ∧ Represents ρ a (t.value x) ∧ Holds ρ s₂ locals rest := by
  obtain ⟨hvb, h₁⟩ := h.pop hb
  obtain ⟨hva, h₂⟩ := h₁.pop ha
  exact ⟨hvb, hva, h₂⟩

lemma executeComparison_holds {op : Wasm.RelOp} (hop : Wasm.relOpcode o = some (t, op))
    (h : Holds ρ s locals stack) (hexec : executeComparison s o = .ok s')
    (hwasm : (Wasm.Instr.rel t op).basic locals stack = some (locals', stack')) :
    Holds ρ s' locals' stack' := by
  obtain ⟨x, y, rest, rfl, rfl, rfl⟩ := Wasm.basic_rel_inv hwasm
  obtain ⟨⟨b, s₁⟩, hb, hexec⟩ := bind_eq_ok.mp hexec
  obtain ⟨⟨a, s₂⟩, ha, hexec⟩ := bind_eq_ok.mp hexec
  obtain ⟨hvb, hva, h₂⟩ := h.pop_operands hb ha
  simp only [comparisonOperator_of_rel hop] at hexec
  split at hexec
  · cases hexec
  · rename_i hbits
    cases hexec
    push Not at hbits
    have hia : IsInt ρ a x := hva.isInt hbits.1
    have hib : IsInt ρ b y := hvb.isInt (hbits.2 ▸ hbits.1)
    exact h₂.push (.bool (hia.compare (width_le t) hib hop))

lemma executeArithmetic_holds {op : Wasm.BinOp} (hop : Wasm.binOpcode o = some (t, op))
    (h : Holds ρ s locals stack) (hexec : executeArithmetic s o = .ok s')
    (hwasm : (Wasm.Instr.bin t op).basic locals stack = some (locals', stack')) :
    Holds ρ s' locals' stack' := by
  obtain ⟨x, y, rest, rfl, rfl, rfl⟩ := Wasm.basic_bin_inv hwasm
  obtain ⟨⟨b, s₁⟩, hb, hexec⟩ := bind_eq_ok.mp hexec
  obtain ⟨⟨a, s₂⟩, ha, hexec⟩ := bind_eq_ok.mp hexec
  obtain ⟨hvb, hva, h₂⟩ := h.pop_operands hb ha
  simp only [(arithmetic_of_bin hop).1] at hexec
  split at hexec
  · cases hexec
  · rename_i hbits
    cases hexec
    simp only [Option.some.injEq, not_or, not_not] at hbits
    have hwidth := width_eq t
    have hia : IsInt ρ a x := hva.isInt (by omega)
    have hib : IsInt ρ b y := hvb.isInt (by omega)
    exact h₂.push (.int t (hia.arithmetic hwidth hib hop))

lemma executeGet_holds (h : Holds ρ s locals stack) (hexec : executeGet s index = .ok s')
    (hwasm : (Wasm.Instr.localGet index).basic locals stack = some (locals', stack')) :
    Holds ρ s' locals' stack' := by
  unfold executeGet at hexec
  split at hexec
  · cases hexec
  · rename_i v hv
    cases hexec
    obtain ⟨x, hx, hres⟩ := Option.map_eq_some_iff.mp hwasm
    cases hres
    have hrep : Represents ρ v x := by
      obtain ⟨hi, rfl⟩ := List.getElem?_eq_some_iff.mp hv
      obtain ⟨hj, rfl⟩ := List.getElem?_eq_some_iff.mp hx
      exact (List.forall₂_iff_get.mp h.locals).2 index hi hj
    exact h.push hrep

lemma forall₂_set {α β : Type} {R : α → β → Prop} {l : List α} {m : List β}
    (h : List.Forall₂ R l m) (index : Nat) {a : α} {b : β} (hab : R a b) :
    List.Forall₂ R (l.set index a) (m.set index b) := by
  induction h generalizing index with
  | nil => exact .nil
  | cons hhead htail ih =>
    cases index with
    | zero => exact .cons hab htail
    | succ index => exact .cons hhead (ih index)

lemma executeSet_eq_ok {tee : Bool} (hexec : executeSet s index tee = .ok s') :
    ∃ v s₁, s.pop = .ok (v, s₁) ∧
      s' = if tee then { s₁ with locals := s₁.locals.set index v }.push v
        else { s₁ with locals := s₁.locals.set index v } := by
  obtain ⟨⟨v, s₁⟩, hpop, hexec⟩ := bind_eq_ok.mp hexec
  simp only at hexec
  split at hexec
  · cases hexec
  · cases hexec
    exact ⟨v, s₁, hpop, rfl⟩

lemma Holds.setLocal (h : Holds ρ s locals (x :: rest)) (hpop : s.pop = .ok (v, s₁)) :
    Represents ρ v x ∧
      Holds ρ { s₁ with locals := s₁.locals.set index v } (locals.set index x) rest := by
  obtain ⟨hv, h₁⟩ := h.pop hpop
  exact ⟨hv, forall₂_set h₁.locals index hv, h₁.stack⟩

lemma executeSet_holds (h : Holds ρ s locals stack) (hexec : executeSet s index false = .ok s')
    (hwasm : (Wasm.Instr.localSet index).basic locals stack = some (locals', stack')) :
    Holds ρ s' locals' stack' := by
  obtain ⟨v, s₁, hpop, rfl⟩ := executeSet_eq_ok hexec
  cases stack with
  | nil => cases hwasm
  | cons x rest =>
    simp only [Wasm.Instr.basic, Option.ite_none_right_eq_some] at hwasm
    obtain ⟨-, rfl, rfl⟩ := hwasm
    exact (h.setLocal hpop).2

lemma executeTee_holds (h : Holds ρ s locals stack) (hexec : executeSet s index true = .ok s')
    (hwasm : (Wasm.Instr.localTee index).basic locals stack = some (locals', stack')) :
    Holds ρ s' locals' stack' := by
  obtain ⟨v, s₁, hpop, rfl⟩ := executeSet_eq_ok hexec
  cases stack with
  | nil => cases hwasm
  | cons x rest =>
    simp only [Wasm.Instr.basic, Option.ite_none_right_eq_some] at hwasm
    obtain ⟨-, rfl, rfl⟩ := hwasm
    obtain ⟨hv, h₁⟩ := h.setLocal hpop
    exact h₁.push hv

lemma executeDrop_holds (h : Holds ρ s locals stack) (hexec : executeDrop s = .ok s')
    (hwasm : Wasm.Instr.drop.basic locals stack = some (locals', stack')) :
    Holds ρ s' locals' stack' := by
  obtain ⟨⟨v, s₁⟩, hpop, hexec⟩ := bind_eq_ok.mp hexec
  cases hexec
  cases stack with
  | nil => cases hwasm
  | cons x rest =>
    cases hwasm
    exact (h.pop hpop).2

lemma executeInstruction_rel {op : Wasm.RelOp} (hop : Wasm.relOpcode o = some (t, op))
    (s : SymbolicState) (index : Nat) (value : BitVec 64) (thenCode otherwise : List Instruction) :
    executeInstruction s (.mk o index value thenCode otherwise) = executeComparison s o := by
  unfold Wasm.relOpcode at hop
  split at hop <;> cases hop <;> rfl

lemma executeInstruction_bin {op : Wasm.BinOp} (hop : Wasm.binOpcode o = some (t, op))
    (s : SymbolicState) (index : Nat) (value : BitVec 64) (thenCode otherwise : List Instruction) :
    executeInstruction s (.mk o index value thenCode otherwise) = executeArithmetic s o := by
  unfold Wasm.binOpcode at hop
  split at hop <;> cases hop <;> rfl

variable {thenCode otherwise : List Instruction}

/-- An instruction other than `if` does on a state that holds a configuration what WebAssembly
does on the configuration. -/
lemma executeInstruction_holds {value : BitVec 64} (h : Holds ρ s locals stack)
    (hexec : executeInstruction s (.mk o index value thenCode otherwise) = .ok s')
    (hwasm : (wasmBasic o index value).basic locals stack = some (locals', stack')) :
    Holds ρ s' locals' stack' := by
  unfold wasmBasic at hwasm
  split at hwasm
  · rename_i t op hop
    rw [executeInstruction_rel hop] at hexec
    exact executeComparison_holds hop h hexec hwasm
  · rename_i t op _ hop
    rw [executeInstruction_bin hop] at hexec
    exact executeArithmetic_holds hop h hexec hwasm
  · split at hwasm
    · exact executeGet_holds h hexec hwasm
    · exact executeSet_holds h hexec hwasm
    · exact executeTee_holds h hexec hwasm
    · cases hexec
      cases hwasm
      exact h.push (.int .i32 (typedConstant_isInt (Or.inl rfl) value))
    · cases hexec
      cases hwasm
      have hint := typedConstant_isInt (ρ := ρ) (Or.inr rfl) value
      exact h.push (.int .i64 hint)
    · exact executeEqz_holds (t := .i32) h hexec hwasm
    · exact executeEqz_holds (t := .i64) h hexec hwasm
    · exact executeDrop_holds h hexec hwasm
    · cases hwasm

lemma executeInstruction_outside {value : BitVec 64}
    (hout : (wasmBasic o index value).isOutside = true) :
    executeInstruction s (.mk o index value thenCode otherwise) ≠ .ok s' := by
  intro hexec
  unfold wasmBasic at hout
  split at hout
  · cases hout
  · cases hout
  · rename_i hrel hbin
    simp only [executeInstruction, Instruction.opcode] at hexec
    -- every opcode that is handled is one that `wasmBasic` reads
    split at hexec <;> first
      | (cases hout; done)
      | exact absurd hrel (by decide)
      | exact absurd hbin (by decide)
      | cases hexec

end Basic

end Symkernel.Verify
