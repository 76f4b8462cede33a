import Symkernel.Library.GoStrings
import Symkernel.Library.GoMap

/-!
# The program sent to Z3

`buildSMT2` and `inferSort` of `internal/z3/z3.go`.
-/

namespace Symkernel.Solver

open Library

/-- An entry of the model map: a string hint, or a Go value of which only the type is read. -/
inductive Hint where
  | text (hint : Text)
  | bool
  | integer
  | float
  | other
  deriving DecidableEq, Repr

abbrev Hints := GoMap Text Hint

def hasNamedAssertions (constraints : Text) : Bool :=
  ":named".toList <:+: constraints

def hintSort (x : Text) : Text :=
  if "BitVec_".toList.isPrefixOf x then
    "(_ BitVec ".toList ++ x.drop "BitVec_".length ++ ")".toList
  else
    match "Array_".toList.isPrefixOf x, (x.drop "Array_".length).span (· ≠ '_') with
    -- `SplitN` with two parts, cut at the first underscore
    | true, (key, '_' :: value) => "(Array ".toList ++ key ++ " ".toList ++ value ++ ")".toList
    | _, _ => if x = [] then "Int".toList else x

def inferSort : Hint → Text
  | .text x => hintSort x
  | .bool => "Bool".toList
  | .integer => "Int".toList
  | .float => "Real".toList
  | .other => "Int".toList

def declareConst (name sort : Text) : Text :=
  "(declare-const ".toList ++ name ++ " ".toList ++ sort ++ ")\n".toList

def sortedNames (model : Hints) : List Text :=
  (RangeOrder.ascending Text).keys model.keys

def setOption (constraints : Text) : Text :=
  if hasNamedAssertions constraints then "(set-option :produce-unsat-cores true)\n".toList else []

def declarations (model : Hints) : Text :=
  (sortedNames model).flatMap fun name =>
    declareConst name (inferSort ((model.lookup name).getD .other))

def commands (constraints : Text) : Text :=
  "\n(check-sat)\n(get-model)\n".toList ++
    (if hasNamedAssertions constraints then "(get-unsat-core)\n".toList else []) ++
    "(exit)\n".toList

def buildSMT2 (constraints : Text) (model : Hints) : Text :=
  setOption constraints ++ declarations model ++ constraints ++ commands constraints

end Symkernel.Solver
