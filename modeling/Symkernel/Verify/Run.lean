import Symkernel.Verify.Decode
import Symkernel.Verify.Entry

/-!
# `Run`

The checks of the request, the decoder, the executor and the collection of the paths. The
identifiers `Run` draws for paths and results are left out. `decodeBase64` stands for
`base64.StdEncoding.DecodeString`.
-/

namespace Symkernel.Verify

open Library Library.Smt

def defaultSymbolicMaxDepth : Nat := 100
def maxSymbolicMaxDepth : Nat := 256
def maxSymbolicModuleBytes : Nat := 1048576
def maxSymbolicEntrypointLen : Nat := 256

structure SymbolicInput where
  module : String
  entrypoint : String
  maxDepth : Int
  pruneInfeasible : Bool
  wasmBinary : String
  entry : String
  args : List Arg

def smt2Assertions (constraints : List Term) : String :=
  String.join (constraints.map (fun c => "(assert " ++ c.render ++ ")\n"))

/-- The text `Constraints` of the source is `smt2Assertions constraints`. -/
structure SymbolicPath where
  constraints : List Term
  model : SolverModel
  feasible : Bool
  output : List Output
  deriving DecidableEq

structure SymbolicResult where
  paths : List SymbolicPath
  explored : Nat
  pruned : Nat
  deriving DecidableEq

namespace Executor

variable (e : Executor)

def collect (entrypoint : String) (results : List UInt8) :
    List SymbolicState → Step (List SymbolicPath)
  | [], n => .ok ([], n)
  | state :: states, n => do
    let ((feasible, model), n) ← e.feasibility state.constraints n
    if !feasible && e.prune then
      collect entrypoint results states { n with pruned := n.pruned + 1 }
    else if state.stack.length < results.length then
      .error (.quoted "entrypoint " entrypoint " did not produce its declared results")
    else
      let path := { constraints := state.constraints, model, feasible, output := state.output results }
      let (paths, n) ← collect entrypoint results states n
      .ok (path :: paths, n)

end Executor

/-- The answers of the context and of the solver during a call of `Run`. -/
structure Environment where
  cancelled : Nat → Option GoError
  solve : Nat → List Term → SolverModel → SolverReply

namespace Environment

variable (env : Environment)

def runFunction (fn : WasmFunction) (entrypoint : String) (args : List Arg) (maxDepth : Nat)
    (prune : Bool) : Except GoError SymbolicResult := do
  let (initial, model) ← initialState fn.params fn.locals args
  let e : Executor := { cancelled := env.cancelled, solve := env.solve, maxDepth, prune, model }
  let (states, n) ← e.run fn.body [initial] { explored := 1, pruned := 0, polls := 1, queries := 0 }
  let (paths, n) ← e.collect entrypoint fn.results states n
  .ok { paths, explored := n.explored, pruned := n.pruned }

/-- A field and its legacy name: they agree, or one of them is empty. -/
def agreedField (value legacy disagree required : String) : Except GoError String :=
  let value := goTrimSpace value
  let legacy := goTrimSpace legacy
  if value ≠ "" ∧ legacy ≠ "" ∧ legacy ≠ value then .error (.text disagree)
  else
    let value := if value = "" then legacy else value
    if value = "" then .error (.text required) else .ok value

def checkedDepth (maxDepth : Int) : Except GoError Nat :=
  if maxDepth < 0 then .error (.text "maxDepth must not be negative")
  else if maxDepth = 0 then .ok defaultSymbolicMaxDepth
  else if maxSymbolicMaxDepth < maxDepth then
    .error (.text s!"maxDepth must not exceed {maxSymbolicMaxDepth}")
  else .ok maxDepth.toNat

def maxEncodedModule : Nat :=
  4 * ((maxSymbolicModuleBytes + 2) / 3)

def lift {α : Type} : Except GoError α → Except Failure α
  | .error err => .error (.error err)
  | .ok a => .ok a

def run (decodeBase64 : String → Except GoError (List UInt8)) (input : SymbolicInput) :
    Except Failure SymbolicResult := do
  let module ← lift (agreedField input.module input.wasmBinary
    "module and wasmBinary disagree" "module is required")
  let entrypoint ← lift (agreedField input.entrypoint input.entry
    "entrypoint and entry disagree" "entrypoint is required")
  if maxSymbolicEntrypointLen < entrypoint.utf8ByteSize then
    fail s!"entrypoint exceeds {maxSymbolicEntrypointLen} bytes"
  else
    match env.cancelled 0 with
    | some err => .error (.error err)
    | none => do
      let maxDepth ← lift (checkedDepth input.maxDepth)
      if maxEncodedModule < module.utf8ByteSize then
        fail s!"module exceeds {maxSymbolicModuleBytes} decoded bytes"
      else
        match decodeBase64 module with
        | .error err => .error (.error (err.wrap "decode module: "))
        | .ok wasm =>
          if maxSymbolicModuleBytes < wasm.length then
            fail s!"module exceeds {maxSymbolicModuleBytes} bytes"
          else do
            let fn ← parseExportedFunction wasm entrypoint
            lift (env.runFunction fn entrypoint input.args maxDepth input.pruneInfeasible)

end Environment

end Symkernel.Verify
