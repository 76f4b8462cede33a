import Mathlib

/-!
# Text as Go formats it

Hexadecimal numbers, quoted strings and error values. Which characters are printable is a
property of the Unicode tables that `strconv` is built with, so it is a parameter.
-/

namespace Symkernel.Library

def goHex (n : Nat) : String :=
  String.ofList (Nat.toDigits 16 n)

def goHexPadded (width n : Nat) : List Char :=
  let digits := Nat.toDigits 16 n
  List.replicate (width - digits.length) '0' ++ digits

def goQuoteChar (isPrint : Char → Bool) (c : Char) : List Char :=
  if c = '"' ∨ c = '\\' then ['\\', c]
  else if isPrint c then [c]
  else if c = '\x07' then ['\\', 'a']
  else if c = '\x08' then ['\\', 'b']
  else if c = '\x0c' then ['\\', 'f']
  else if c = '\n' then ['\\', 'n']
  else if c = '\r' then ['\\', 'r']
  else if c = '\t' then ['\\', 't']
  else if c = '\x0b' then ['\\', 'v']
  else if c.toNat < 0x20 ∨ c.toNat = 0x7f then '\\' :: 'x' :: goHexPadded 2 c.toNat
  else if c.toNat < 0x10000 then '\\' :: 'u' :: goHexPadded 4 c.toNat
  else '\\' :: 'U' :: goHexPadded 8 c.toNat

/-- `strconv.Quote`, the verb `%q`. -/
def goQuote (isPrint : Char → Bool) (s : String) : String :=
  String.ofList ('"' :: s.toList.flatMap (goQuoteChar isPrint) ++ ['"'])

def goIsSpace (c : Char) : Bool :=
  let n := c.toNat
  (0x09 ≤ n ∧ n ≤ 0x0d) ∨ n = 0x20 ∨ n = 0x85 ∨ n = 0xa0 ∨ n = 0x1680 ∨
    (0x2000 ≤ n ∧ n ≤ 0x200a) ∨ n = 0x2028 ∨ n = 0x2029 ∨ n = 0x202f ∨ n = 0x205f ∨ n = 0x3000

def goTrimSpace (s : String) : String :=
  String.ofList (((s.toList.dropWhile goIsSpace).reverse.dropWhile goIsSpace).reverse)

/-- An error text, possibly with one argument under `%q`. -/
inductive GoError where
  | text (message : String)
  | quoted (before arg after : String)
  deriving DecidableEq, Repr

def GoError.message (isPrint : Char → Bool) : GoError → String
  | .text message => message
  | .quoted before arg after => before ++ goQuote isPrint arg ++ after

def GoError.wrap (context : String) : GoError → GoError
  | .text message => .text (context ++ message)
  | .quoted before arg after => .quoted (context ++ before) arg after

lemma bind_eq_ok {ε α β : Type} {x : Except ε α} {f : α → Except ε β} {b : β} :
    (x >>= f) = .ok b ↔ ∃ a, x = .ok a ∧ f a = .ok b := by
  cases x <;> simp [bind, Except.bind]

lemma bind_eq_error {ε α β : Type} {x : Except ε α} {f : α → Except ε β} {e : ε} :
    (x >>= f) = .error e ↔ x = .error e ∨ ∃ a, x = .ok a ∧ f a = .error e := by
  cases x <;> simp [bind, Except.bind]

end Symkernel.Library
