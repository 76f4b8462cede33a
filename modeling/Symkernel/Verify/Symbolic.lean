import Symkernel.Library.GoText
import Symkernel.Library.Smt
import Symkernel.Library.Words

/-!
# The symbolic executor

`internal/verify/symbolic.go` from `symbolicValue` to `executeInstruction`. An expression is
kept as the term its text denotes (`Term.render` gives the text). The answers of the context
and of the solver are inputs: an `Executor` says what the n-th question is answered.
-/

namespace Symkernel.Verify

open Library Library.Smt

def maxSymbolicExplored : Nat := 4096

/-- `known` is an `int64`. A boolean has width 0. -/
structure SymbolicValue where
  expr : Term
  known : Option (BitVec 64)
  boolean : Bool
  bits : Nat
  deriving DecidableEq, Repr

def wrapSigned (v : BitVec 64) (bits : Nat) : BitVec 64 :=
  if bits = 32 then (v.setWidth 32).signExtend 64 else v

def typedConstant (v : BitVec 64) (bits : Nat) : SymbolicValue :=
  let v := wrapSigned v bits
  { expr := .literal (unsignedWord v bits).toNat bits, known := some v, boolean := false, bits }

namespace SymbolicValue

def zeroExpr (v : SymbolicValue) : Term :=
  .literal 0 v.bits

def condition (v : SymbolicValue) : Term :=
  if v.boolean then
    match v.known with
    | some k => if k = 0 then .bool false else .bool true
    | none => v.expr
  else
    match v.known with
    | some k => if k = 0 then .bool false else .bool true
    | none => .not (.app .eq v.expr v.zeroExpr)

end SymbolicValue

def boolValue (expr : Term) : Option Bool → SymbolicValue
  | some b => { expr := .bool b, known := some (if b then 1 else 0), boolean := true, bits := 0 }
  | none => { expr, known := none, boolean := true, bits := 0 }

/-- The top of the stack is its first element. -/
structure SymbolicState where
  locals : List SymbolicValue
  stack : List SymbolicValue
  constraints : List Term
  depth : Nat
  deriving DecidableEq, Repr

namespace SymbolicState

def pop (s : SymbolicState) : Except GoError (SymbolicValue × SymbolicState) :=
  match s.stack with
  | [] => .error (.text "wasm stack underflow")
  | v :: stack => .ok (v, { s with stack })

def push (s : SymbolicState) (v : SymbolicValue) : SymbolicState :=
  { s with stack := v :: s.stack }

def assume (s : SymbolicState) (c : Term) : SymbolicState :=
  { s with constraints := s.constraints ++ [c] }

end SymbolicState

inductive Instruction where
  | mk (opcode : UInt8) (index : Nat) (value : BitVec 64) (thenCode otherwise : List Instruction)

namespace Instruction

def opcode : Instruction → UInt8
  | mk opcode _ _ _ _ => opcode

def index : Instruction → Nat
  | mk _ index _ _ _ => index

def value : Instruction → BitVec 64
  | mk _ _ value _ _ => value

end Instruction

def comparisonOperator : UInt8 → Option Op
  | 0x46 | 0x51 => some .eq
  | 0x47 | 0x52 => some .distinct
  | 0x48 | 0x53 => some .bvslt
  | 0x49 | 0x54 => some .bvult
  | 0x4a | 0x55 => some .bvsgt
  | 0x4b | 0x56 => some .bvugt
  | 0x4c | 0x57 => some .bvsle
  | 0x4d | 0x58 => some .bvule
  | 0x4e | 0x59 => some .bvsge
  | 0x4f | 0x5a => some .bvuge
  | _ => none

def compare (op : UInt8) (a b : BitVec 64) (bits : Nat) : Bool :=
  let unsignedA := unsignedWord a bits
  let unsignedB := unsignedWord b bits
  match op with
  | 0x46 | 0x51 => a == b
  | 0x47 | 0x52 => a != b
  | 0x48 | 0x53 => a.slt b
  | 0x49 | 0x54 => unsignedA.ult unsignedB
  | 0x4a | 0x55 => b.slt a
  | 0x4b | 0x56 => unsignedB.ult unsignedA
  | 0x4c | 0x57 => a.sle b
  | 0x4d | 0x58 => unsignedA.ule unsignedB
  | 0x4e | 0x59 => b.sle a
  | _ => unsignedB.ule unsignedA

def arithmeticWidth : UInt8 → Option Nat
  | 0x6a | 0x6b | 0x6c => some 32
  | 0x7c | 0x7d | 0x7e => some 64
  | _ => none

def arithmeticOperator : UInt8 → Op
  | 0x6a | 0x7c => .bvadd
  | 0x6b | 0x7d => .bvsub
  | _ => .bvmul

def wrappedArithmetic (a b : BitVec 64) (opcode : UInt8) (bits : Nat) : BitVec 64 :=
  let value :=
    match opcode with
    | 0x6a | 0x7c => a + b
    | 0x6b | 0x7d => a - b
    | _ => a * b
  if bits = 32 then (value.setWidth 32).signExtend 64 else value

def executeGet (s : SymbolicState) (index : Nat) : Except GoError SymbolicState :=
  match s.locals[index]? with
  | none => .error (.text s!"local index {index} out of range")
  | some v => .ok (s.push v)

def executeSet (s : SymbolicState) (index : Nat) (tee : Bool) : Except GoError SymbolicState := do
  let (v, s) ← s.pop
  if s.locals.length ≤ index then .error (.text s!"local index {index} out of range")
  else
    let s := { s with locals := s.locals.set index v }
    .ok (if tee then s.push v else s)

def executeEqz (s : SymbolicState) (width : Nat) : Except GoError SymbolicState := do
  let (v, s) ← s.pop
  if v.bits ≠ width then .error (.text s!"eqz operand has width {v.bits}")
  else .ok (s.push (boolValue (.app .eq v.expr v.zeroExpr) (v.known.map (fun k => k == 0))))

def executeComparison (s : SymbolicState) (opcode : UInt8) : Except GoError SymbolicState := do
  let (b, s) ← s.pop
  let (a, s) ← s.pop
  if a.bits = 0 ∨ a.bits ≠ b.bits then
    .error (.text s!"comparison operands have incompatible widths {a.bits} and {b.bits}")
  else
    match comparisonOperator opcode with
    | none => .error (.text ("unsupported comparison opcode 0x" ++ goHex opcode.toNat))
    | some op =>
      let known :=
        match a.known, b.known with
        | some x, some y => some (compare opcode x y a.bits)
        | _, _ => none
      .ok (s.push (boolValue (.app op a.expr b.expr) known))

def executeArithmetic (s : SymbolicState) (opcode : UInt8) : Except GoError SymbolicState := do
  let (b, s) ← s.pop
  let (a, s) ← s.pop
  let width := arithmeticWidth opcode
  if width ≠ some a.bits ∨ width ≠ some b.bits then
    .error (.text s!"arithmetic operands have invalid widths {a.bits} and {b.bits}")
  else
    let value :=
      match a.known, b.known with
      | some x, some y => typedConstant (wrappedArithmetic x y opcode a.bits) a.bits
      | _, _ => { expr := .app (arithmeticOperator opcode) a.expr b.expr, known := none
                  boolean := false, bits := a.bits }
    .ok (s.push value)

def executeDrop (s : SymbolicState) : Except GoError SymbolicState := do
  let (_, s) ← s.pop
  .ok s

def executeInstruction (s : SymbolicState) (i : Instruction) : Except GoError SymbolicState :=
  match i.opcode with
  | 0x20 => executeGet s i.index
  | 0x21 => executeSet s i.index false
  | 0x22 => executeSet s i.index true
  | 0x41 => .ok (s.push (typedConstant i.value 32))
  | 0x42 => .ok (s.push (typedConstant i.value 64))
  | 0x45 => executeEqz s 32
  | 0x50 => executeEqz s 64
  | 0x46 | 0x47 | 0x48 | 0x49 | 0x4a | 0x4b | 0x4c | 0x4d | 0x4e | 0x4f
  | 0x51 | 0x52 | 0x53 | 0x54 | 0x55 | 0x56 | 0x57 | 0x58 | 0x59 | 0x5a =>
    executeComparison s i.opcode
  | 0x6a | 0x6b | 0x6c | 0x7c | 0x7d | 0x7e => executeArithmetic s i.opcode
  | 0x1a => executeDrop s
  | op => .error (.text ("unsupported symbolic wasm opcode 0x" ++ goHex op.toNat))

abbrev SolverModel := List (String × String)

inductive SolverReply where
  | failed (err : GoError)
  | solution (sat : String) (model : SolverModel)

/-- What does not change while the executor runs. `cancelled n` is what the n-th call of
`ctx.Err` returns; `solve n` answers the n-th query, made of the assertions and the declared
symbols `model`. `Run` refuses a negative `maxDepth`. -/
structure Executor where
  cancelled : Nat → Option GoError
  solve : Nat → List Term → SolverModel → SolverReply
  maxDepth : Nat
  prune : Bool
  model : SolverModel

structure Counters where
  explored : Nat
  pruned : Nat
  polls : Nat
  queries : Nat
  deriving DecidableEq

/-- A computation of the executor: it may fail, and it moves the counters. -/
abbrev Step (α : Type) := Counters → Except GoError (α × Counters)

namespace Executor

variable (e : Executor)

def poll : Step Unit := fun n =>
  match e.cancelled n.polls with
  | some err => .error err
  | none => .ok ((), { n with polls := n.polls + 1 })

def feasibility (constraints : List Term) : Step (Bool × SolverModel) := fun n =>
  match constraints with
  | [] => .ok ((true, []), n)
  | _ =>
    match e.solve n.queries constraints e.model with
    | .failed err => .error (err.wrap "check path feasibility: ")
    | .solution sat model =>
      let n := { n with queries := n.queries + 1 }
      if sat = "sat" then .ok ((true, model), n)
      else if sat = "unsat" then .ok ((false, []), n)
      else .error (.quoted "check path feasibility: z3 returned " sat "")

def feasible (constraints : List Term) : Step Bool := fun n => do
  let ((ok, _), n) ← e.feasibility constraints n
  .ok (ok, n)

/-- Without pruning no path is refused. -/
def keeps (constraints : List Term) : Step Bool := fun n =>
  if e.prune then e.feasible constraints n else .ok (true, n)

def branch (follow : List SymbolicState → Step (List SymbolicState)) (state : SymbolicState)
    (constraint : Term) : Step (List SymbolicState) := fun n => do
  let candidate := state.assume constraint
  if maxSymbolicExplored ≤ n.explored then
    .error (.text s!"symbolic execution exceeded the {maxSymbolicExplored} path limit")
  else
    let n := { n with explored := n.explored + 1 }
    let (ok, n) ← e.keeps candidate.constraints n
    if ok then follow [candidate] n else .ok ([], { n with pruned := n.pruned + 1 })

def forEach (step : SymbolicState → Step (List SymbolicState)) :
    List SymbolicState → Step (List SymbolicState)
  | [], n => .ok ([], n)
  | state :: states, n => do
    let (out, n) ← step state n
    let (next, n) ← forEach step states n
    .ok (out ++ next, n)

mutual

def advance : Instruction → SymbolicState → Step (List SymbolicState)
  | .mk opcode index value thenCode otherwise, state, n => do
    let (_, n) ← e.poll n
    let state := { state with depth := state.depth + 1 }
    if e.maxDepth < state.depth then .ok ([], { n with pruned := n.pruned + 1 })
    else if opcode = 0x04 then
      let (condition, state) ← state.pop
      let (yes, n) ← e.branch (run thenCode) state condition.condition n
      let (no, n) ← e.branch (run otherwise) state (.not condition.condition) n
      .ok (yes ++ no, n)
    else
      let state ← executeInstruction state (.mk opcode index value thenCode otherwise)
      .ok ([state], n)

def run : List Instruction → List SymbolicState → Step (List SymbolicState)
  | [], states, n => .ok (states, n)
  | i :: program, states, n => do
    let (next, n) ← forEach (advance i) states n
    run program next n

end

end Executor

end Symkernel.Verify
