import Symkernel.Library.Leb128
import Symkernel.Library.Wasm.Core

/-!
# The binary format of WebAssembly code

The grammar of instruction sequences and function bodies, as relations between the syntax of
`Core` and bytes. The immediates of instructions outside the integer core are given by the
shapes of their operands.
-/

namespace Symkernel.Library.Wasm

open Leb128

def valTypeOf (code : UInt8) : ValType :=
  if code = 0x7f then .int .i32
  else if code = 0x7e then .int .i64
  else .other code

def relOpcode : UInt8 → Option (IntType × RelOp)
  | 0x46 => some (.i32, .eq)
  | 0x47 => some (.i32, .ne)
  | 0x48 => some (.i32, .ltS)
  | 0x49 => some (.i32, .ltU)
  | 0x4a => some (.i32, .gtS)
  | 0x4b => some (.i32, .gtU)
  | 0x4c => some (.i32, .leS)
  | 0x4d => some (.i32, .leU)
  | 0x4e => some (.i32, .geS)
  | 0x4f => some (.i32, .geU)
  | 0x51 => some (.i64, .eq)
  | 0x52 => some (.i64, .ne)
  | 0x53 => some (.i64, .ltS)
  | 0x54 => some (.i64, .ltU)
  | 0x55 => some (.i64, .gtS)
  | 0x56 => some (.i64, .gtU)
  | 0x57 => some (.i64, .leS)
  | 0x58 => some (.i64, .leU)
  | 0x59 => some (.i64, .geS)
  | 0x5a => some (.i64, .geU)
  | _ => none

def binOpcode : UInt8 → Option (IntType × BinOp)
  | 0x6a => some (.i32, .add)
  | 0x6b => some (.i32, .sub)
  | 0x6c => some (.i32, .mul)
  | 0x7c => some (.i64, .add)
  | 0x7d => some (.i64, .sub)
  | 0x7e => some (.i64, .mul)
  | _ => none

def RelOp.index : RelOp → UInt8
  | .eq => 0
  | .ne => 1
  | .ltS => 2
  | .ltU => 3
  | .gtS => 4
  | .gtU => 5
  | .leS => 6
  | .leU => 7
  | .geS => 8
  | .geU => 9

def BinOp.index : BinOp → UInt8
  | .add => 0
  | .sub => 1
  | .mul => 2

def Instr.opcode : Instr → UInt8
  | .localGet _ => 0x20
  | .localSet _ => 0x21
  | .localTee _ => 0x22
  | .i32Const _ => 0x41
  | .i64Const _ => 0x42
  | .eqz .i32 => 0x45
  | .eqz .i64 => 0x50
  | .rel .i32 op => 0x46 + op.index
  | .rel .i64 op => 0x51 + op.index
  | .bin .i32 op => 0x6a + op.index
  | .bin .i64 op => 0x7c + op.index
  | .drop => 0x1a
  | .ite .. => 0x04
  | .block opcode .. => opcode
  | .foreign opcode _ => opcode

/-- The instruction of the core that is encoded by its opcode alone. -/
def bareInstr (op : UInt8) : Option Instr :=
  match relOpcode op, binOpcode op with
  | some (t, op), _ => some (.rel t op)
  | none, some (t, op) => some (.bin t op)
  | none, none =>
    match op with
    | 0x1a => some .drop
    | 0x45 => some (.eqz .i32)
    | 0x50 => some (.eqz .i64)
    | _ => none

/-- The opcodes of the core that have operands, and the delimiters of structured code. -/
def operandOpcodes : List UInt8 :=
  [0x04, 0x05, 0x0b, 0x20, 0x21, 0x22, 0x41, 0x42]

inductive Operand where
  | u32
  | bytes (n : Nat)

inductive Operands : List Operand → List UInt8 → Prop where
  | nil : Operands [] []
  | u32 {os bs cs n} : Unsigned 32 bs n → Operands os cs → Operands (.u32 :: os) (bs ++ cs)
  | bytes {os bs cs} : Operands os cs → Operands (.bytes bs.length :: os) (bs ++ cs)

/-- The operands of the one-byte opcodes, without structured control, `br_table` and the typed
`select`. -/
def operandsOf (op : UInt8) : Option (List Operand) :=
  if op ∈ [0x00, 0x01, 0x0f, 0x1b, 0xd1] then some []
  else if 0x45 ≤ op ∧ op ≤ 0xc4 then if (bareInstr op).isSome then none else some []
  else if op ∈ [0x0c, 0x0d, 0x10, 0x23, 0x24, 0x25, 0x26, 0xd2] then some [.u32]
  else if op = 0x11 ∨ (0x28 ≤ op ∧ op ≤ 0x3e) then some [.u32, .u32]
  else if op = 0x3f ∨ op = 0x40 ∨ op = 0xd0 then some [.bytes 1]
  else if op = 0x43 then some [.bytes 4]
  else if op = 0x44 then some [.bytes 8]
  else none

def miscOperands (n : Nat) : Option (List Operand) :=
  if n ≤ 7 then some []
  else if n = 8 then some [.u32, .bytes 1]
  else if n = 10 then some [.bytes 1, .bytes 1]
  else if n = 11 then some [.bytes 1]
  else if n = 12 ∨ n = 14 then some [.u32, .u32]
  else if n ≤ 17 then some [.u32]
  else none

def vectorOperands (n : Nat) : Option (List Operand) :=
  if n ≤ 11 ∨ n = 92 ∨ n = 93 then some [.u32, .u32]
  else if n = 12 ∨ n = 13 then some [.bytes 16]
  else if 21 ≤ n ∧ n ≤ 34 then some [.bytes 1]
  else if 84 ≤ n ∧ n ≤ 91 then some [.u32, .u32, .bytes 1]
  else if n ≤ 255 then some []
  else none

/-- The immediates of the instruction with the opcode `op`. -/
inductive Immediate : UInt8 → List UInt8 → Prop where
  | fixed {op os bs} : operandsOf op = some os → Operands os bs → Immediate op bs
  | brTable {n count labels} : Unsigned 32 count n →
      Operands (List.replicate (n + 1) .u32) labels → Immediate 0x0e (count ++ labels)
  | select {count types} : Unsigned 32 count types.length → Immediate 0x1c (count ++ types)
  | misc {n os sub bs} : Unsigned 32 sub n → miscOperands n = some os → Operands os bs →
      Immediate 0xfc (sub ++ bs)
  | vector {n os sub bs} : Unsigned 32 sub n → vectorOperands n = some os → Operands os bs →
      Immediate 0xfd (sub ++ bs)

/-- The empty type, a value type, or the index of a function type. -/
inductive BlockType : List UInt8 → Prop where
  | empty : BlockType [0x40]
  | value {t : UInt8} : t ∈ [0x7f, 0x7e, 0x7d, 0x7c, 0x7b, 0x70, 0x6f] → BlockType [t]
  | index {bs n} : Signed 33 bs n → 0 ≤ n → BlockType bs

inductive EncodesInstr : Instr → List UInt8 → Prop where
  | localGet {x bs} : Unsigned 32 bs x → EncodesInstr (.localGet x) (0x20 :: bs)
  | localSet {x bs} : Unsigned 32 bs x → EncodesInstr (.localSet x) (0x21 :: bs)
  | localTee {x bs} : Unsigned 32 bs x → EncodesInstr (.localTee x) (0x22 :: bs)
  | i32Const {n bs} : Signed 32 bs n → EncodesInstr (.i32Const (BitVec.ofInt 32 n)) (0x41 :: bs)
  | i64Const {n bs} : Signed 64 bs n → EncodesInstr (.i64Const (BitVec.ofInt 64 n)) (0x42 :: bs)
  | bare {i op} : bareInstr op = some i → EncodesInstr i [op]
  | foreign {op bs} : Immediate op bs → EncodesInstr (.foreign op bs) (op :: bs)

inductive Encodes : List Instr → List UInt8 → Prop where
  | nil : Encodes [] []
  | instr {i is bs cs} : EncodesInstr i bs → Encodes is cs → Encodes (i :: is) (bs ++ cs)
  | ite {bt thn els is bs cs ds} : BlockType bt → Encodes thn bs → Encodes els cs →
      Encodes is ds → Encodes (.ite bt thn els :: is) (0x04 :: bt ++ bs ++ 0x05 :: cs ++ 0x0b :: ds)
  | iteThen {bt thn is bs ds} : BlockType bt → Encodes thn bs → Encodes is ds →
      Encodes (.ite bt thn [] :: is) (0x04 :: bt ++ bs ++ 0x0b :: ds)
  | block {op bt body is bs ds} : op ∈ [0x02, 0x03] → BlockType bt → Encodes body bs →
      Encodes is ds → Encodes (.block op bt body :: is) (op :: bt ++ bs ++ 0x0b :: ds)

/-- `k` groups of local declarations and the types they declare. -/
inductive EncodesLocals : Nat → List UInt8 → List UInt8 → Prop where
  | nil : EncodesLocals 0 [] []
  | group {k n t types bs cs} : Unsigned 32 bs n → EncodesLocals k types cs →
      EncodesLocals (k + 1) (List.replicate n t ++ types) (bs ++ t :: cs)

inductive EncodesCode : List UInt8 → List Instr → List UInt8 → Prop where
  | mk {k locals body bs cs ds} : Unsigned 32 bs k → EncodesLocals k locals cs →
      Encodes body ds → EncodesCode locals body (bs ++ cs ++ ds ++ [0x0b])

def ValidBody (params results locals : List UInt8) (body : List Instr) : Prop :=
  HasType true ((params ++ locals).map valTypeOf) body [] (results.map valTypeOf).reverse

lemma BlockType.ne_nil {bt : List UInt8} (h : BlockType bt) : bt ≠ [] := by
  cases h with
  | empty => nofun
  | value => nofun
  | index hn => cases hn <;> nofun

variable {op : UInt8}

lemma Immediate.notMem_operandOpcodes {bs : List UInt8} (h : Immediate op bs) :
    op ∉ operandOpcodes := by
  cases h with
  | @fixed _ os _ hos =>
    have htable : ∀ op : UInt8, op ∈ operandOpcodes → (operandsOf op).isNone := by decide +kernel
    intro hmem
    have hnone := htable op hmem
    rw [hos] at hnone
    cases hnone
  | brTable => decide
  | select => decide
  | misc => decide
  | vector => decide

lemma Immediate.bareInstr_eq_none {bs : List UInt8} (h : Immediate op bs) :
    bareInstr op = none := by
  cases h with
  | @fixed _ os _ hos =>
    have htable : ∀ op : UInt8, (operandsOf op).isSome → (bareInstr op).isNone := by
      decide +kernel
    exact Option.isNone_iff_eq_none.mp (htable op (by rw [hos]; rfl))
  | brTable => rfl
  | select => rfl
  | misc => rfl
  | vector => rfl

lemma bareInstr_cases {i : Instr} (h : bareInstr op = some i) :
    i.opcode = op ∧ (i = .drop ∨ (∃ t, i = .eqz t) ∨ (∃ t r, i = .rel t r) ∨ ∃ t b, i = .bin t b) := by
  unfold bareInstr at h
  split at h
  · rename_i t r _ hrel
    cases h
    unfold relOpcode at hrel
    split at hrel <;> cases hrel <;> exact ⟨rfl, by simp⟩
  · rename_i t b _ hbin
    cases h
    unfold binOpcode at hbin
    split at hbin <;> cases hbin <;> exact ⟨rfl, by simp⟩
  · split at h <;> cases h <;> exact ⟨rfl, by simp⟩

lemma bareInstr_notMem_operandOpcodes {i : Instr} (h : bareInstr op = some i) :
    op ∉ operandOpcodes := by
  have htable : ∀ op : UInt8, op ∈ operandOpcodes → (bareInstr op).isNone := by
    decide +kernel
  intro hmem
  have hnone := htable op hmem
  rw [h] at hnone
  cases hnone

end Symkernel.Library.Wasm
