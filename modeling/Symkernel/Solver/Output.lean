import Symkernel.Library.GoStrings
import Symkernel.Library.GoMap

/-!
# The output of Z3

`parseOutput`, `parseModel` and `parseUnsatCore` of `internal/z3/z3.go`, the functions of the
same names in `internal/smt/smt.go`, and the parser inside `Solve` of `internal/verify/z3.go`.
A model is a map from names to value texts; the absent map is Go's nil map.
-/

namespace Symkernel.Solver

open Library

local instance lawfulBEqLine : LawfulBEq Text := inferInstanceAs (LawfulBEq (List Char))

inductive Status where
  | sat
  | unsat
  | unknown
  deriving DecidableEq, Repr

abbrev Model := GoMap Text Text

/-- A parsed answer, the time it took left out. -/
structure Solution where
  sat : Status
  model : Option Model := none
  unsatCore : Option (List Text) := none
  deriving DecidableEq

def stripPair : Text → Option Text
  | '(' :: rest => if rest.getLast? = some ')' then some rest.dropLast else none
  | _ => none

def stripParensFrom : Nat → Text → Text
  | 0, line => line
  | n + 1, line => ((stripPair line).map (stripParensFrom n)).getD line

/-- The loop that strips outer parentheses: `((x 6))` becomes `x 6`. -/
def stripParens (line : Text) : Text :=
  stripParensFrom line.length line

lemma stripPair_cons (rest : Text) : stripPair ('(' :: rest) =
    if rest.getLast? = some ')' then some rest.dropLast else none := rfl

variable {line inner : Text}

lemma length_stripPair (h : stripPair line = some inner) : inner.length + 2 = line.length := by
  unfold stripPair at h
  split at h
  · split at h
    · rename_i rest hlast
      obtain ⟨front, rfl⟩ := List.getLast?_eq_some_iff.mp hlast
      cases h
      simp
    · cases h
  · cases h

lemma stripParensFrom_eq {n : Nat} (hn : line.length ≤ n) :
    stripParensFrom n line = stripParens line := by
  have h : ∀ (n m : Nat) (line : Text), line.length ≤ n → line.length ≤ m →
      stripParensFrom n line = stripParensFrom m line := by
    intro n
    induction n with
    | zero =>
      intro m line hn _
      rw [List.length_eq_zero_iff.mp (Nat.le_zero.mp hn)]
      cases m <;> rfl
    | succ n ih =>
      intro m line hn hm
      cases hpair : stripPair line with
      | none => cases m <;> simp [stripParensFrom, hpair]
      | some inner =>
        have hlen := length_stripPair hpair
        cases m with
        | zero => omega
        | succ m =>
          simp only [stripParensFrom, hpair]
          exact ih m inner (by omega) (by omega)
  exact h n line.length line hn le_rfl

lemma stripParens_of_some (h : stripPair line = some inner) :
    stripParens line = stripParens inner := by
  have hlen := length_stripPair h
  have hfuel : stripParensFrom (inner.length + 1) inner = stripParens inner :=
    stripParensFrom_eq (Nat.le_succ _)
  rw [← hfuel, stripParens, ← hlen]
  simp only [stripParensFrom, h, Option.map_some, Option.getD_some]

lemma stripParens_of_none (h : stripPair line = none) : stripParens line = line := by
  unfold stripParens
  cases line.length <;> simp [stripParensFrom, h]

/-- The first two fields of a line in the compact format. -/
def compactBinding (line : Text) : Option (Text × Text) :=
  match Text.fields (stripParens line) with
  | name :: value :: _ => some (name, value)
  | _ => none

lemma compactBinding_of_fields {name value : Text} {rest : List Text}
    (h : Text.fields (stripParens line) = name :: value :: rest) :
    compactBinding line = some (name, value) := by
  unfold compactBinding
  rw [h]

def bindCompact (m : Model) (line : Text) : Model :=
  match compactBinding line with
  | some (name, value) => m.insert name value
  | none => m

def nonempty (m : Model) : Option Model :=
  if m = ∅ then none else some m

def coreOf (skip : Text → Bool) (lines : List Text) : Option (List Text) :=
  lines.findSome? fun line =>
    let line := Text.trimSpace line
    if skip line then none
    else match Text.fields (stripParens line) with
      | [] => none
      | tokens => some tokens

namespace Z3

/-- The model read so far, and the name whose value is on the next line. -/
structure Reading where
  m : Model
  pendingName : Text

def isError (line : Text) : Bool :=
  "(error".toList.isPrefixOf line

def isEntry (line : Text) : Bool :=
  "(define-fun ".toList.isPrefixOf line

def skipsModel (line : Text) : Bool :=
  line ∈ ["".toList, "(model".toList, ")".toList, "(".toList, "unsat".toList, "unknown".toList]

/-- The line of an entry: with its value, or the header before the line of the value. -/
def readEntry (m : Model) (line : Text) : Reading :=
  let inner := Text.trimSuffix ')' (line.drop "(define-fun ".length)
  match Text.fields inner with
  | name :: args :: _ :: value :: values =>
    if args = "()".toList then ⟨m.insert name (Text.join (value :: values)), []⟩ else ⟨m, []⟩
  | [name, args, _] => if args = "()".toList then ⟨m, name⟩ else ⟨m, []⟩
  | _ => ⟨m, []⟩

def readValue (s : Reading) (line : Text) : Reading :=
  let val := Text.trimSpace (Text.trimRight ')' line)
  ⟨if val = [] then s.m else s.m.insert s.pendingName val, []⟩

/-- One round of the loop; an error line ends it without a model. -/
def readLine (s : Reading) (line : Text) : Option Reading :=
  let line := Text.trimSpace line
  if skipsModel line then some s
  else if isError line then none
  else if isEntry line then some (readEntry s.m line)
  else if s.pendingName ≠ [] then some (readValue s line)
  else some ⟨bindCompact s.m line, []⟩

def parseModel (lines : List Text) : Option Model :=
  (lines.foldlM readLine ⟨∅, []⟩).bind fun s => nonempty s.m

def skipsCore (line : Text) : Bool :=
  line ∈ ["".toList, "()".toList, "sat".toList, "unknown".toList] || isError line

def parseUnsatCore (lines : List Text) : Option (List Text) :=
  coreOf skipsCore lines

def parseOutput (output : Text) : Except GoError Solution :=
  match Text.split '\n' (Text.trimSpace output) with
  | [] => .error (.text "z3: empty output")
  | first :: lines =>
    if first = [] ∧ lines = [] then .error (.text "z3: empty output")
    else if first = "sat".toList then .ok { sat := .sat, model := parseModel lines }
    else if first = "unsat".toList then
      .ok { sat := .unsat, unsatCore := parseUnsatCore lines }
    else if first = "unknown".toList then .ok { sat := .unknown }
    else .error (.quoted "z3: unexpected result " (String.ofList first) "")

end Z3

def skipsCompact (line : Text) : Bool :=
  line ∈ ["".toList, "(model".toList, ")".toList]

def compactModel (lines : List Text) : Option Model :=
  nonempty (lines.foldl (fun m line =>
    let line := Text.trimSpace line
    if skipsCompact line then m else bindCompact m line) ∅)

namespace Smt

def parseModel (lines : List Text) : Option Model :=
  compactModel lines

def skipsCore (line : Text) : Bool :=
  line ∈ ["".toList, "()".toList]

def parseUnsatCore (lines : List Text) : Option (List Text) :=
  coreOf skipsCore lines

def parseOutput (output : Text) : Except GoError Solution :=
  match Text.split '\n' (Text.trimSpace output) with
  | [] => .error (.text "z3: empty output")
  | first :: lines =>
    if first = "sat".toList then .ok { sat := .sat, model := parseModel lines }
    else if first = "unsat".toList then
      .ok { sat := .unsat, unsatCore := parseUnsatCore lines }
    else if first = "unknown".toList then .ok { sat := .unknown }
    else .error (.quoted "z3: unexpected result " (String.ofList first) "")

end Smt

namespace Verify

structure Result where
  sat : Status
  model : Option Model
  deriving DecidableEq

def parseModel (lines : List Text) : Option Model :=
  compactModel lines

def parseOutput (output : Text) : Except GoError Result :=
  match Text.split '\n' (Text.trimSpace output) with
  | [] => .error (.text "z3: empty output")
  | first :: lines =>
    if first = "sat".toList then .ok ⟨.sat, parseModel lines⟩
    else if first = "unsat".toList then .ok ⟨.unsat, none⟩
    else if first = "unknown".toList then .ok ⟨.unknown, none⟩
    else .error (.quoted "z3: unexpected result " (String.ofList first) "")

end Verify

end Symkernel.Solver
