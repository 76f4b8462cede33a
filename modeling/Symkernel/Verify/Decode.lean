import Symkernel.Verify.Symbolic

/-!
# The Wasm decoder

`internal/verify/symbolic.go` from `parseExportedFunction` on. A reader takes the bytes that
are left and returns what it read with the bytes after it; the position in the source is the
number of bytes consumed. An index or a slice that is not guarded in the source is a `panic`
when it is out of range.
-/

namespace Symkernel.Verify

open Library

def maxWasmVectorItems : Nat := 4096
def maxWasmParams : Nat := 64
def maxWasmLocals : Nat := 4096
def maxWasmInstructions : Nat := 16384
def maxWasmControlDepth : Nat := 256

/-- An error that the source returns, a panic, or a loop of the model that has used up the
rounds it was given. -/
inductive Failure where
  | error (err : GoError)
  | panic
  | exhausted
  deriving DecidableEq, Repr

def fail {α : Type} (message : String) : Except Failure α :=
  .error (.error (.text message))

def splitSlice (b : List UInt8) (n : Nat) : Except Failure (List UInt8 × List UInt8) :=
  if n ≤ b.length then .ok (b.take n, b.drop n) else .error .panic

def splitFirst : List UInt8 → Except Failure (UInt8 × List UInt8)
  | [] => .error .panic
  | x :: b => .ok (x, b)

/-- The loop of `readU32` with `k` rounds left, the next one at `shift`. -/
def readU32Loop : Nat → Nat → BitVec 32 → List UInt8 → Except Failure (Nat × List UInt8)
  | 0, _, _, _ => fail "invalid wasm integer"
  | _ + 1, _, _, [] => fail "truncated wasm integer"
  | k + 1, shift, v, x :: b =>
    let v := v ||| (BitVec.ofNat 32 (x &&& 127).toNat <<< shift)
    if x &&& 128 = 0 then .ok (v.toNat, b) else readU32Loop k (shift + 7) v b

def readU32 (b : List UInt8) : Except Failure (Nat × List UInt8) :=
  readU32Loop 5 0 0 b

def readS64Loop (shift : Nat) (v : BitVec 64) : List UInt8 → Except Failure (BitVec 64 × List UInt8)
  | [] => fail "invalid wasm signed integer"
  | x :: b =>
    if 64 ≤ shift then fail "invalid wasm signed integer"
    else
      let v := v ||| (BitVec.ofNat 64 (x &&& 127).toNat <<< shift)
      let shift := shift + 7
      if x &&& 128 = 0 then
        .ok (if shift < 64 ∧ x &&& 64 ≠ 0 then v ||| (BitVec.allOnes 64 <<< shift) else v, b)
      else readS64Loop shift v b

def readS64 (b : List UInt8) : Except Failure (BitVec 64 × List UInt8) :=
  readS64Loop 0 0 b

/-- What `parseInstructionsWithBudget` returns: the instructions, the bytes after them, the
opcode that stopped it and the instruction count. -/
structure Parsed where
  code : List Instruction
  rest : List UInt8
  stop : UInt8
  count : Nat

def readImmediate (op : UInt8) (b : List UInt8) : Except Failure (Instruction × List UInt8) :=
  match op with
  | 0x20 | 0x21 | 0x22 => do
    let (index, b) ← readU32 b
    .ok (.mk op index 0 [] [], b)
  | 0x41 | 0x42 => do
    let (value, b) ← readS64 b
    .ok (.mk op 0 value [] [], b)
  | _ => .ok (.mk op 0 0 [] [], b)

/-- The code of an `if` after its block type; `parse` reads one of its branches. -/
def parseIf (parse : List UInt8 → Nat → Except Failure Parsed) (b : List UInt8) (count : Nat) :
    Except Failure (Instruction × List UInt8 × Nat) := do
  let yes ← parse b count
  if yes.stop = 0x05 then
    let no ← parse yes.rest yes.count
    if no.stop ≠ 0x0b then fail "invalid wasm if: else must end with end opcode"
    else .ok (.mk 0x04 0 0 yes.code no.code, no.rest, no.count)
  else .ok (.mk 0x04 0 0 yes.code [], yes.rest, yes.count)

/-- One instruction; `parse` reads a branch of an `if`, one level deeper. -/
def parseInstruction (parse : List UInt8 → Nat → Except Failure Parsed) (controlDepth : Nat)
    (op : UInt8) (b : List UInt8) (count : Nat) :
    Except Failure (Instruction × List UInt8 × Nat) :=
  if op = 0x04 then
    if maxWasmControlDepth ≤ controlDepth then
      fail s!"wasm control nesting exceeds {maxWasmControlDepth}"
    else
      match b with
      | [] => fail "truncated if"
      | _ :: b => parseIf parse b count
  else do
    let (i, b) ← readImmediate op b
    .ok (i, b, count)

/-- Every round and every nested call consumes a byte, so more fuel than bytes is enough. -/
def parseInstructionsWithBudget : Nat → Nat → List UInt8 → Nat → Except Failure Parsed
  | 0, _, _, _ => .error .exhausted
  | _ + 1, _, [], _ => fail "unterminated wasm instructions"
  | fuel + 1, controlDepth, op :: b, count =>
    if op = 0x0b ∨ op = 0x05 then .ok ⟨[], b, op, count⟩
    else if maxWasmInstructions < count + 1 then fail "too many wasm instructions"
    else do
      let (i, b, count) ← parseInstruction
        (parseInstructionsWithBudget fuel (controlDepth + 1)) controlDepth op b (count + 1)
      let tail ← parseInstructionsWithBudget fuel controlDepth b count
      .ok { tail with code := i :: tail.code }

def parseInstructions (b : List UInt8) : Except Failure Parsed :=
  parseInstructionsWithBudget (b.length + 1) 0 b 0

/-- The local declarations, `k` groups of them left. -/
def parseLocals : Nat → List UInt8 → List UInt8 → Except Failure (List UInt8 × List UInt8)
  | 0, locals, b => .ok (locals, b)
  | k + 1, locals, b =>
    match readU32 b with
    | .error (.error _) => fail "invalid wasm locals"
    | .error failure => .error failure
    | .ok (_, []) => fail "invalid wasm locals"
    | .ok (n, typ :: b) =>
      if maxWasmLocals < n ∨ maxWasmLocals < locals.length + n then fail "invalid wasm locals"
      else parseLocals k (locals ++ List.replicate n typ) b

def parseCode (b : List UInt8) : Except Failure (List UInt8 × List Instruction) := do
  let (groups, b) ← readU32 b
  if maxWasmVectorItems < groups ∨ b.length < groups then fail "too many wasm local groups"
  else
    let (locals, b) ← parseLocals groups [] b
    let body ← parseInstructions b
    if body.stop ≠ 0x0b ∨ body.rest ≠ [] then fail "invalid wasm function body"
    else .ok (locals, body.code)

/-- `k` items of a vector, read by `item` from left to right. -/
def readItems {α : Type} (item : List UInt8 → Except Failure (α × List UInt8)) :
    Nat → List UInt8 → Except Failure (List α × List UInt8)
  | 0, b => .ok ([], b)
  | k + 1, b => do
    let (x, b) ← item b
    let (xs, b) ← readItems item k b
    .ok (x :: xs, b)

/-- A length-prefixed run of bytes; every failure has the text `message`. -/
def readBytes (message : String) (b : List UInt8) : Except Failure (List UInt8 × List UInt8) :=
  match readU32 b with
  | .error (.error _) => fail message
  | .error failure => .error failure
  | .ok (n, b) => if b.length < n then fail message else splitSlice b n

/-- A vector whose item count is checked against the bytes left in the section. -/
def readVector {α : Type} (message : String)
    (item : List UInt8 → Except Failure (α × List UInt8)) (b : List UInt8) :
    Except Failure (List α × List UInt8) := do
  let (count, b) ← readU32 b
  if maxWasmVectorItems < count ∨ b.length < count then fail message
  else readItems item count b

/-- The signature of a function type: the number of parameters, the parameters, the number of
results, the results. -/
def parseType (b : List UInt8) : Except Failure (List UInt8 × List UInt8) :=
  match b with
  | 0x60 :: b => do
    let (pc, b) ← readU32 b
    if maxWasmParams < pc ∨ b.length < pc then fail "truncated function params"
    else
      let (params, b) ← splitSlice b pc
      let (rc, b) ← readU32 b
      if maxWasmParams < rc ∨ b.length < rc then fail "truncated function results"
      else
        let (results, b) ← splitSlice b rc
        .ok (UInt8.ofNat pc :: params ++ UInt8.ofNat rc :: results, b)
  | _ => fail "invalid wasm function type"

/-- The item count is checked against the length of the whole section. -/
def parseTypes (b : List UInt8) : Except Failure (List (List UInt8)) := do
  let (count, rest) ← readU32 b
  if maxWasmVectorItems < count ∨ b.length < count then fail "too many wasm types"
  else
    let (types, _) ← readItems parseType count rest
    .ok types

def parseU32Vector (b : List UInt8) : Except Failure (List Nat) := do
  let (items, _) ← readVector "too many wasm vector items" readU32 b
  .ok items

def skipWasmLimits (b : List UInt8) : Except Failure (List UInt8) := do
  let (flags, b) ← readU32 b
  if 1 < flags then fail "unsupported wasm limits"
  else
    let (_, b) ← readU32 b
    if flags = 0 then .ok b
    else
      let (_, b) ← readU32 b
      .ok b

/-- One import; the result says whether it is a function. -/
def parseImport (b : List UInt8) : Except Failure (Bool × List UInt8) := do
  let (_, b) ← readBytes "invalid wasm import" b
  let (_, b) ← readBytes "invalid wasm import" b
  match b with
  | [] => fail "truncated wasm import"
  | 0 :: b => do
    let (_, b) ← readU32 b
    .ok (true, b)
  | 1 :: [] => fail "truncated wasm table import"
  | 1 :: _ :: b => do .ok (false, ← skipWasmLimits b)
  | 2 :: b => do .ok (false, ← skipWasmLimits b)
  | 3 :: _ :: _ :: b => .ok (false, b)
  | 3 :: _ => fail "truncated wasm global import"
  | _ => fail "invalid wasm import kind"

def parseImportedFunctionCount (b : List UInt8) : Except Failure Nat := do
  let (imports, b) ← readVector "too many wasm imports" parseImport b
  if b ≠ [] then fail "invalid wasm import section"
  else .ok (imports.count true)

def parseExport (b : List UInt8) : Except Failure ((List UInt8 × UInt8 × Nat) × List UInt8) := do
  let (name, b) ← readBytes "invalid wasm export" b
  match b with
  | [] => fail "truncated wasm export"
  | kind :: b => do
    let (index, b) ← readU32 b
    .ok ((name, kind, index), b)

/-- The exported functions, the last export of a name first. -/
def parseExports (b : List UInt8) : Except Failure (List (List UInt8 × Nat)) := do
  let (exports, _) ← readVector "too many wasm exports" parseExport b
  .ok ((exports.filter (fun x => x.2.1 = 0)).map (fun x => (x.1, x.2.2))).reverse

def parseCodes (b : List UInt8) : Except Failure (List (List UInt8)) := do
  let (codes, _) ← readVector "too many wasm code bodies" (readBytes "invalid wasm code") b
  .ok codes

structure WasmFunction where
  params : List UInt8
  results : List UInt8
  locals : List UInt8
  body : List Instruction

/-- What the section loop has collected. -/
structure Sections where
  types : List (List UInt8)
  functions : List Nat
  codes : List (List UInt8)
  exports : List (List UInt8 × Nat)
  imported : Nat

def readSection (s : Sections) (id : UInt8) (section_ : List UInt8) : Except Failure Sections :=
  match id with
  | 1 => do .ok { s with types := ← parseTypes section_ }
  | 2 => do .ok { s with imported := ← parseImportedFunctionCount section_ }
  | 3 => do .ok { s with functions := ← parseU32Vector section_ }
  | 7 => do .ok { s with exports := ← parseExports section_ }
  | 10 => do .ok { s with codes := ← parseCodes section_ }
  | _ => .ok s

/-- The section loop. Every round consumes a byte, so as much fuel as bytes is enough. -/
def readSections : Nat → Sections → List UInt8 → Except Failure Sections
  | _, s, [] => .ok s
  | 0, _, _ => .error .exhausted
  | fuel + 1, s, id :: b => do
    let (n, b) ← readU32 b
    if b.length < n then fail "truncated wasm section"
    else
      let (section_, b) ← splitSlice b n
      let s ← readSection s id section_
      readSections fuel s b

def splitSignature (sig : List UInt8) : Except Failure (List UInt8 × List UInt8) := do
  let (count, rest) ← splitFirst sig
  let (params, rest) ← splitSlice rest count.toNat
  let (_, results) ← splitFirst rest
  .ok (params, results)

def wasmHeader : List UInt8 := [0x00, 0x61, 0x73, 0x6d, 0x01, 0x00, 0x00, 0x00]

/-- `parseExportedFunction` for an entrypoint of the bytes `name`, which `%q` shows as
`entrypoint`: a Go string need not be valid UTF-8. -/
def parseExportedNamed (wasm name : List UInt8) (entrypoint : String) :
    Except Failure WasmFunction := do
  if wasm.take 8 ≠ wasmHeader then fail "invalid wasm module"
  else
    let b := wasm.drop 8
    let s ← readSections b.length ⟨[], [], [], [], 0⟩ b
    match s.exports.lookup name with
    | none => .error (.error (.quoted "entrypoint " entrypoint " is not an exported function"))
    | some index =>
      if index < s.imported then
        .error (.error (.quoted "entrypoint " entrypoint " uses an unsupported imported function"))
      else
        match s.functions[index - s.imported]?, s.codes[index - s.imported]? with
        | some typeIndex, some code =>
          match s.types[typeIndex]? with
          | none => fail "invalid entrypoint type"
          | some sig => do
            let (params, results) ← splitSignature sig
            let (locals, body) ← parseCode code
            .ok { params, results, locals, body }
        | _, _ =>
          .error (.error (.quoted "entrypoint " entrypoint
            " uses an unsupported imported function"))

def parseExportedFunction (wasm : List UInt8) (entrypoint : String) :
    Except Failure WasmFunction :=
  parseExportedNamed wasm entrypoint.toUTF8.toList entrypoint

end Symkernel.Verify
