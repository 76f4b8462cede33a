import Symkernel.Library.Cel.Eval
import Symkernel.PolicyImport.RegoTree

/-!
# The meaning of Rego rules

Rego's own evaluation of a rule on a JSON document. A term that reads a missing field is
undefined; an expression holds when it is defined and not `false`, and its negation when it does
not hold. Values of all types are in one order. In CEL the document is bound to `input`, and its
numbers are doubles.
-/

namespace Symkernel.PolicyImport.Rego

open Library

/-- The fields of an object are in the order of their names, the elements of a set in their
order. -/
inductive Value where
  | null
  | bool (b : Bool)
  | number (q : Rat)
  | string (s : String)
  | array (elements : List Value)
  | object (fields : List (String × Value))
  | set (elements : List Value)

mutual

def Value.isJson : Value → Bool
  | .array elements => Value.isJsonAll elements
  | .object fields =>
    decide ((fields.map Prod.fst).Pairwise (· < ·)) && Value.isJsonFields fields
  | .set _ => false
  | _ => true

def Value.isJsonAll : List Value → Bool
  | [] => true
  | v :: vs => v.isJson && Value.isJsonAll vs

def Value.isJsonFields : List (String × Value) → Bool
  | [] => true
  | (_, v) :: fs => v.isJson && Value.isJsonFields fs

end

structure Document where
  value : Value
  json : value.isJson = true

def Value.rank : Value → Nat
  | .null => 0
  | .bool _ => 1
  | .number _ => 2
  | .string _ => 3
  | .array _ => 4
  | .object _ => 5
  | .set _ => 6

mutual

def Value.compare : Value → Value → Ordering
  | .bool a, .bool b => Ord.compare a b
  | .number a, .number b => Ord.compare a b
  | .string a, .string b => Ord.compare a b
  | .array as, .array bs => Value.compareAll as bs
  | .object as, .object bs => Value.compareFields as bs
  | .set as, .set bs => Value.compareAll as bs
  | a, b => Ord.compare a.rank b.rank

def Value.compareAll : List Value → List Value → Ordering
  | [], [] => .eq
  | [], _ :: _ => .lt
  | _ :: _, [] => .gt
  | a :: as, b :: bs => (a.compare b).then (Value.compareAll as bs)

def Value.compareFields : List (String × Value) → List (String × Value) → Ordering
  | [], [] => .eq
  | [], _ :: _ => .lt
  | _ :: _, [] => .gt
  | (f, a) :: as, (g, b) :: bs =>
    (Ord.compare f g).then ((a.compare b).then (Value.compareFields as bs))

end

def Value.insert (v : Value) : List Value → List Value
  | [] => [v]
  | w :: ws =>
    match v.compare w with
    | .lt => v :: w :: ws
    | .eq => w :: ws
    | .gt => w :: Value.insert v ws

def Value.setOf (elements : List Value) : Value :=
  .set (elements.foldr Value.insert [])

def follow : Value → List Term → Option Value
  | v, [] => some v
  | .object fields, .string s :: rest => do
    let v ← fields.lookup s
    follow v rest
  | _, _ :: _ => none

def Operator.apply (op : Operator) (v w : Value) : Option Value :=
  match op with
  | .equal => some (.bool (v.compare w).isEq)
  | .notEqual => some (.bool (!(v.compare w).isEq))
  | .less => some (.bool (v.compare w).isLT)
  | .lessEqual => some (.bool (v.compare w).isLE)
  | .greater => some (.bool (v.compare w).isGT)
  | .greaterEqual => some (.bool (v.compare w).isGE)
  | .plus =>
    match v, w with
    | .number a, .number b => some (.number (a + b))
    | _, _ => none
  | .minus =>
    match v, w with
    | .number a, .number b => some (.number (a - b))
    | .set as, .set bs => some (.set (as.filter (fun a => bs.all (fun b => !(a.compare b).isEq))))
    | _, _ => none

namespace Document

variable (doc : Document)

def ref : List Term → Option Value
  | .var root :: rest => if root = "input" then follow doc.value rest else none
  | _ => none

mutual

/-- What the translator refuses has no meaning here. -/
def term : Term → Option Value
  | .boolean b => some (.bool b)
  | .number n => some (.number n.value)
  | .string s => some (.string s)
  | .null => some .null
  | .ref r => doc.ref r
  | .array elements => do
    let vs ← terms elements
    some (.array vs)
  | .set elements => do
    let vs ← terms elements
    some (Value.setOf vs)
  | _ => none

def terms : List Term → Option (List Value)
  | [] => some []
  | t :: ts => do
    let v ← term t
    let vs ← terms ts
    some (v :: vs)

end

def result : Terms → Option Value
  | .call operator operands =>
    match operator.bind operatorOf, operands with
    | some op, [left, right] => do
      let v ← doc.term left
      let w ← doc.term right
      op.apply v w
    | _, _ => none
  | .term t => doc.term t
  | _ => none

def satisfied : Option Value → Bool
  | none => false
  | some (.bool b) => b
  | some _ => true

def holds (e : Expr) : Bool :=
  e.negated ^^ satisfied (doc.result e.terms)

def fires (ruleName : String) (rule : Rule) : Bool :=
  rule.head.any (fun h => h.name == ruleName && boolTermValue h.value == some true) &&
    !rule.isDefault && rule.body.all doc.holds

def allows (ruleName : String) (rules : List Rule) : Bool :=
  rules.any (doc.fires ruleName)

end Document

variable (rounding : Cel.Rounding)

mutual

def celValue : Value → Cel.Value Empty
  | .null => .null
  | .bool b => .bool b
  | .number q => .double (rounding.round q)
  | .string s => .string s
  | .array elements => .list (celValues elements)
  | .object fields => .map (celFields fields)
  | .set elements => .list (celValues elements)

def celValues : List Value → List (Cel.Value Empty)
  | [] => []
  | v :: vs => celValue v :: celValues vs

def celFields : List (String × Value) → List (String × Cel.Value Empty)
  | [] => []
  | (f, v) :: fs => (f, celValue v) :: celFields fs

end

def Document.host (doc : Document) : Cel.Host Empty where
  vars name := if name = "input" then some (celValue rounding doc.value) else none
  text := Empty.elim
  field := Empty.elim
  rounding := rounding

end Symkernel.PolicyImport.Rego
