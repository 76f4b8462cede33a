import Symkernel.Library.Cel.Numbers
import Symkernel.PolicyImport.Literals
import Symkernel.PolicyImport.Rego

/-!
# The CEL trees of Rego rules

The trees differ from what the parser makes of the texts only where a number is written as a
string.
-/

namespace Symkernel.PolicyImport.Rego

open Library Library.Cel

inductive Operator where
  | equal | notEqual | less | lessEqual | greater | greaterEqual | plus | minus
  deriving DecidableEq, Repr

def Operator.name : Operator → String
  | .equal => "equal"
  | .notEqual => "neq"
  | .less => "lt"
  | .lessEqual => "lte"
  | .greater => "gt"
  | .greaterEqual => "gte"
  | .plus => "plus"
  | .minus => "minus"

def Operator.celOp : Operator → BinOp
  | .equal => .eq
  | .notEqual => .ne
  | .less => .lt
  | .lessEqual => .le
  | .greater => .gt
  | .greaterEqual => .ge
  | .plus => .add
  | .minus => .sub

def Operator.all : List Operator :=
  [.equal, .notEqual, .less, .lessEqual, .greater, .greaterEqual, .plus, .minus]

def operatorOf (name : String) : Option Operator :=
  Operator.all.find? (fun op => op.name == name)

def numberTree (n : Numeral) : Cel.Expr :=
  if n.isInteger then .lit (.int n.intValue) else .lit (.double n.text)

def numberExpr (n : Numeral) : Cel.Expr :=
  if parsesInt n || parsesFloat n then numberTree n else .lit (.string n.text)

variable (isPrint : Char → Bool) (isBuiltin : String → Bool)

def segmentsTree (e : Cel.Expr) : List Term → Cel.Expr
  | [] => e
  | .string s :: rest => segmentsTree (.select e s) rest
  | _ :: rest => segmentsTree e rest

section Trees

variable (number : Numeral → Cel.Expr)

mutual

/-- The tree of a term, with the numbers as given. The elements of a set are in the order of
their texts. -/
def termTree : Term → Cel.Expr
  | .boolean b => .lit (.bool b)
  | .number n => number n
  | .string s => .lit (.string s)
  | .null => .lit .null
  | .ref r => segmentsTree (.ident "input") r.tail
  | .array elements => .list ((termTrees elements).map Prod.snd)
  | .set elements =>
    .list (((termTrees elements).mergeSort (fun a b => decide (a.1 ≤ b.1))).map Prod.snd)
  | _ => .lit .null

def termTrees : List Term → List (String × Cel.Expr)
  | [] => []
  | t :: ts => ((term isPrint t).toOption.getD "", termTree t) :: termTrees ts

end

def termsTree : Terms → Cel.Expr
  | .call operator operands =>
    match operator.bind operatorOf, operands with
    | some op, [left, right] =>
      .bin op.celOp (termTree isPrint number left) (termTree isPrint number right)
    | _, _ => .lit .null
  | .term t => termTree isPrint number t
  | _ => .lit .null

def exprTree (e : Expr) : Cel.Expr :=
  if e.negated then .not (termsTree isPrint number e.terms) else termsTree isPrint number e.terms

def bodyTree (b : List Expr) : Cel.Expr :=
  Cel.Expr.join .and (.lit (.bool true)) (b.map (exprTree isPrint number))

end Trees

def chosen (ruleName : String) (rules : List Rule) : List Rule :=
  rules.filter (fun r => r.head.any (fun h => h.name == ruleName) && !r.isDefault)

def rulesTree (number : Numeral → Cel.Expr) (ruleName : String) (rules : List Rule) : Cel.Expr :=
  Cel.Expr.join .or (.lit (.bool false))
    ((chosen ruleName rules).map (fun r => bodyTree isPrint number r.body))

section Conditions

variable (number : Numeral → Bool) (segment : String → Bool)

def segmentsOk : List Term → Bool
  | [] => true
  | .string s :: rest => segment s && segmentsOk rest
  | _ :: rest => segmentsOk rest

mutual

/-- The numbers and the segments of references in a term satisfy the given conditions. -/
def termOk : Term → Bool
  | .number n => number n
  | .ref r => segmentsOk segment r.tail
  | .array elements => termOkAll elements
  | .set elements => termOkAll elements
  | _ => true

def termOkAll : List Term → Bool
  | [] => true
  | t :: ts => termOk t && termOkAll ts

end

def termsOk : Terms → Bool
  | .call _ operands => termOkAll number segment operands
  | .term t => termOk number segment t
  | _ => true

def bodyOk (b : List Expr) : Bool :=
  b.all (fun e => termsOk number segment e.terms)

def rulesOk (ruleName : String) (rules : List Rule) : Bool :=
  (chosen ruleName rules).all (fun r => bodyOk number segment r.body)

end Conditions

/-- A number that is written as a number of the same value. -/
def numeralOk (n : Numeral) : Bool :=
  if n.isInteger then parsesInt n else parsesFloat n

end Symkernel.PolicyImport.Rego
