import Symkernel.Library.GoMap

/-!
# Running a guest

`internal/sandbox`: `Run` decodes a module, hands it to the runtime with a page limit, a deadline
and arguments, and classifies what the runtime reports. The page limit is computed in 32 bits.
-/

namespace Symkernel.Sandbox

open Library

abbrev Text := List Char

inductive TrapKind where
  | unreachable
  | memoryOOB
  | stackOverflow
  | timeout
  deriving DecidableEq

structure TrapInfo where
  kind : TrapKind
  message : Text
  deriving DecidableEq

structure SandboxResult where
  stdout : List UInt8
  stderr : List UInt8
  exitCode : Int
  trap : Option TrapInfo
  deriving DecidableEq

/-- An error of the runtime: its text, the code if it has one, and whether it is a deadline. -/
structure RuntimeError where
  message : Text
  exitCode : Option Nat
  deadlineExceeded : Bool

structure RuntimeConfig where
  memoryLimitPages : Nat
  closeOnContextDone : Bool

structure Launch where
  timeoutMs : Option Int
  config : RuntimeConfig
  wasmBytes : List UInt8
  args : List Text
  startFunctions : List Text

/-- What the guest has written when `InstantiateWithConfig` returns, and its error. -/
structure Outcome where
  stdout : List UInt8
  stderr : List UInt8
  err : Option RuntimeError

/-- The libraries: base64, the verb `%v`, the order in which a map is visited, and the runtime. -/
structure Host (A : Type) where
  decode : Text → Except Text (List UInt8)
  format : A → Text
  order : RangeOrder Text
  instantiate : Launch → Outcome

def wasmPageSize : Nat := 65536

/-- Products of `uint32` are taken modulo `2 ^ 32`. -/
def memLimitMBToPages (mb : Int) : Nat :=
  if mb ≤ 0 then 1
  else
    let pages := (mb % 2 ^ 32).toNat * 1024 % 2 ^ 32 * 1024 % 2 ^ 32 / wasmPageSize
    if pages = 0 then 1 else pages

variable {A : Type} (host : Host A)

def buildArgs (args : GoMap Text A) : List Text :=
  (host.order.keys args.keys).filterMap fun k =>
    (args.lookup k).map fun v => k ++ '=' :: host.format v

def int32 (n : Nat) : Int := (n : Int).bmod (2 ^ 32)

def exitCodeFromErr (err : RuntimeError) : Int :=
  (err.exitCode.map int32).getD 0

def contains (msg : Text) (part : String) : Bool := decide (part.toList <:+: msg)

def trapFromErr (err : RuntimeError) : Option TrapInfo :=
  if err.deadlineExceeded then some ⟨.timeout, err.message⟩
  else if contains err.message "unreachable" then some ⟨.unreachable, err.message⟩
  else if contains err.message "out of bounds memory access" then some ⟨.memoryOOB, err.message⟩
  else if contains err.message "stack overflow" then some ⟨.stackOverflow, err.message⟩
  else none

def launch (wasmModuleB64 : Text) (args : GoMap Text A) (memLimitMB timeoutMs : Int) :
    Except Text Launch := do
  let wasmBytes ← (host.decode wasmModuleB64).mapError ("sandbox: base64 decode: ".toList ++ ·)
  .ok {
    timeoutMs := if 0 < timeoutMs then some timeoutMs else none
    config := ⟨memLimitMBToPages memLimitMB, true⟩
    wasmBytes
    args := buildArgs host args
    startFunctions := ["_start".toList] }

/-- The result, and the text of the error if there is one. -/
def run (wasmModuleB64 : Text) (args : GoMap Text A) (memLimitMB timeoutMs : Int) :
    SandboxResult × Option Text :=
  match launch host wasmModuleB64 args memLimitMB timeoutMs with
  | .error err => (⟨[], [], 0, none⟩, some err)
  | .ok l =>
    let out := host.instantiate l
    match out.err with
    | some err => (⟨out.stdout, out.stderr, exitCodeFromErr err, trapFromErr err⟩, some err.message)
    | none => (⟨out.stdout, out.stderr, 0, none⟩, none)

lemma memLimitMBToPages_eq {mb : Int} (h : 0 < mb) :
    memLimitMBToPages mb = max 1 (16 * (mb % 4096).toNat) := by
  have hpages : (mb % 2 ^ 32).toNat * 1024 % 2 ^ 32 * 1024 % 2 ^ 32 / wasmPageSize =
      16 * (mb % 4096).toNat := by
    unfold wasmPageSize
    omega
  rw [memLimitMBToPages, if_neg (by omega)]
  dsimp only
  split <;> omega

lemma launch_pages {wasmModuleB64 : Text} {args : GoMap Text A} {memLimitMB timeoutMs : Int}
    {l : Launch} (h : launch host wasmModuleB64 args memLimitMB timeoutMs = .ok l) :
    l.config.memoryLimitPages = memLimitMBToPages memLimitMB := by
  unfold launch at h
  cases hdecode : host.decode wasmModuleB64 with
  | error err =>
    rw [hdecode] at h
    cases h
  | ok wasmBytes =>
    rw [hdecode] at h
    cases h
    rfl

variable {host}

/-- The guest gets the memory that was asked for, and no less than for a smaller request, exactly
for requests below four gigabytes. -/
theorem memory_cap_iff {wasmModuleB64 : Text} {args : GoMap Text A} {memLimitMB timeoutMs : Int}
    {l : Launch} (hpos : 0 < memLimitMB)
    (hl : launch host wasmModuleB64 args memLimitMB timeoutMs = .ok l) :
    ((l.config.memoryLimitPages : Int) = min (16 * memLimitMB) 65536 ∧
      ∀ smaller, 0 < smaller → smaller ≤ memLimitMB → ∀ l',
        launch host wasmModuleB64 args smaller timeoutMs = .ok l' →
          l'.config.memoryLimitPages ≤ l.config.memoryLimitPages) ↔ memLimitMB ≤ 4095 := by
  rw [launch_pages host hl, memLimitMBToPages_eq hpos]
  constructor
  · intro h
    omega
  · intro hsmall
    constructor
    · omega
    · intro smaller hsmaller hle l' hl'
      rw [launch_pages host hl', memLimitMBToPages_eq hsmaller]
      omega

def idleHost : Host Unit where
  decode _ := .ok []
  format _ := []
  order := RangeOrder.ascending Text
  instantiate _ := ⟨[], [], none⟩

theorem four_gigabytes_one_page :
    (launch idleHost [] ∅ 4095 0).map (·.config.memoryLimitPages) = .ok 65520 ∧
    (launch idleHost [] ∅ 4096 0).map (·.config.memoryLimitPages) = .ok 1 ∧
    min (16 * 4096) 65536 = 65536 := by
  decide +kernel

theorem sixty_four_megabytes :
    ((launch idleHost [] ∅ 64 0).map (·.config.memoryLimitPages) = .ok 1024) ∧
      ∀ l, launch idleHost [] ∅ 64 0 = .ok l →
        (l.config.memoryLimitPages : Int) = min (16 * 64) 65536 :=
  ⟨by decide +kernel, fun _ hl => ((memory_cap_iff (by decide) hl).mpr (by decide)).1⟩

end Symkernel.Sandbox
