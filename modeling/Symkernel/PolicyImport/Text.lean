import Symkernel.Library.GoText

/-!
# The texts of the translators

`internal/policyimport/policyimport.go` and the literals of `cel_literals.go` that both
translators write. Strings are sequences of Unicode characters: what Go makes of bytes that
are not UTF-8 is left out.
-/

namespace Symkernel.PolicyImport

structure UnsupportedError where
  lang : String
  construct : String
  detail : String
  deriving DecidableEq, Repr

inductive Effect where
  | permit
  | forbid
  deriving DecidableEq, Repr

structure Result where
  cel : String
  effect : Effect
  sourceLang : String
  deriving DecidableEq, Repr

def unsupported {α : Type} (lang construct detail : String) : Except UnsupportedError α :=
  .error ⟨lang, construct, detail⟩

def celChar (c : Char) : List Char :=
  match c with
  | '"' => ['\\', '"']
  | '\\' => ['\\', '\\']
  | '\n' => ['\\', 'n']
  | '\r' => ['\\', 'r']
  | '\t' => ['\\', 't']
  | c => [c]

def celString (s : String) : String :=
  String.ofList ('"' :: s.toList.flatMap celChar ++ ['"'])

def wrap (terms : List String) : List String :=
  terms.map (fun t => "(" ++ t ++ ")")

end Symkernel.PolicyImport
