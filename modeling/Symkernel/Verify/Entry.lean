import Symkernel.Verify.Symbolic

/-!
# Entering a function
-/

namespace Symkernel.Verify

open Library Library.Smt

def valueI32 : UInt8 := 0x7f
def valueI64 : UInt8 := 0x7e

def wasmIntegerWidth (typ : UInt8) : Option Nat :=
  if typ = valueI32 then some 32
  else if typ = valueI64 then some 64
  else none

inductive Float64 where
  | nan
  | inf
  | finite (q : ℚ)

/-- The dynamic types an element of `Args` can have. Signed and unsigned integers of every
size are given as they are converted to 64 bits, a float with its text under `%v`, and any
other value by the name of its type. -/
inductive Arg where
  | null
  | signed (v : BitVec 64)
  | unsigned (v : BitVec 64)
  | float (v : Float64) (text : String)
  | number (text : String)
  | other (typeName : String)

def parseUint64 (s : List Char) : Option Nat :=
  if s ≠ [] ∧ s.all Char.isDigit then
    let n := s.foldl (fun n c => 10 * n + (c.toNat - '0'.toNat)) 0
    if n < 2 ^ 64 then some n else none
  else none

def parseInt64 (s : List Char) : Option Int :=
  match s with
  | '-' :: digits => (parseUint64 digits).bind (fun n => if n ≤ 2 ^ 63 then some (-n) else none)
  | '+' :: digits => (parseUint64 digits).bind (fun n => if n < 2 ^ 63 then some n else none)
  | digits => (parseUint64 digits).bind (fun n => if n < 2 ^ 63 then some n else none)

def Arg.toInt64 : Arg → Except GoError (BitVec 64)
  | .signed v => .ok v
  | .unsigned v => .ok v
  | .float (.finite q) text =>
    if q.den = 1 ∧ -2 ^ 63 ≤ q.num ∧ q.num < 2 ^ 63 then .ok (BitVec.ofInt 64 q.num)
    else .error (.text s!"value {text} is not an integer")
  | .float _ text => .error (.text s!"value {text} is not an integer")
  | .number text =>
    match parseInt64 text.toList with
    | some n => .ok (BitVec.ofInt 64 n)
    | none =>
      match parseUint64 text.toList with
      | some n => .ok (BitVec.ofNat 64 n)
      | none => .error (.quoted "value " text " is not an integer")
  | .null => .error (.text "unsupported concrete value <nil>")
  | .other typeName => .error (.text s!"unsupported concrete value {typeName}")

def concreteArgument (value : Arg) (bits : Nat) : Except GoError SymbolicValue := do
  .ok (typedConstant (← value.toInt64) bits)

def argName (i : Nat) : String :=
  s!"arg{i}"

def boundArg (args : List Arg) (i : Nat) : Option Arg :=
  match args[i]? with
  | some .null => none
  | arg => arg

def bindParam (args : List Arg) (i : Nat) (typ : UInt8) :
    Except GoError (SymbolicValue × SolverModel) :=
  match wasmIntegerWidth typ with
  | none => .error (.text (s!"entrypoint parameter {i} has unsupported type 0x" ++ goHex typ.toNat))
  | some bits =>
    match boundArg args i with
    | none =>
      .ok ({ expr := .sym (argName i) bits, known := none, boolean := false, bits },
        [(argName i, s!"BitVec_{bits}")])
    | some arg =>
      match concreteArgument arg bits with
      | .error err => .error (err.wrap s!"argument {i}: ")
      | .ok value => .ok (value, [])

def bindParams (args : List Arg) : Nat → List UInt8 →
    Except GoError (List SymbolicValue × SolverModel)
  | _, [] => .ok ([], [])
  | i, typ :: params => do
    let (value, decl) ← bindParam args i typ
    let (values, model) ← bindParams args (i + 1) params
    .ok (value :: values, decl ++ model)

def bindLocals : Nat → List UInt8 → Except GoError (List SymbolicValue)
  | _, [] => .ok []
  | i, typ :: locals =>
    match wasmIntegerWidth typ with
    | none => .error (.text (s!"entrypoint local {i} has unsupported type 0x" ++ goHex typ.toNat))
    | some bits => do .ok (typedConstant 0 bits :: (← bindLocals (i + 1) locals))

def initialState (params locals : List UInt8) (args : List Arg) :
    Except GoError (SymbolicState × SolverModel) := do
  let (values, model) ← bindParams args 0 params
  let zeros ← bindLocals 0 locals
  .ok ({ locals := values ++ zeros, stack := [], constraints := [], depth := 0 }, model)

/-- A result as `Run` returns it: a Go integer of 32 or 64 bits, or the text of a term, which
is kept as the term. -/
inductive Output where
  | int32 (v : BitVec 32)
  | int64 (v : BitVec 64)
  | expr (term : Term)
  deriving DecidableEq

def SymbolicValue.output (v : SymbolicValue) (result : UInt8) : Output :=
  match v.known with
  | some k => if result = valueI32 then .int32 (k.setWidth 32) else .int64 k
  | none => .expr v.expr

/-- The last `results.length` values of the stack; `nil`, a value or a list of values in Go. -/
def SymbolicState.output (s : SymbolicState) (results : List UInt8) : List Output :=
  ((s.stack.take results.length).reverse).zipWith SymbolicValue.output results

end Symkernel.Verify
