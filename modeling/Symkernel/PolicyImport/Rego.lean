import Symkernel.Library.Numeral
import Symkernel.PolicyImport.Text

/-!
# Translating Rego

`internal/policyimport/rego.go`: the syntax trees of `opa/v1/ast` and their translation. A
number is a numeral of JSON, as the parser of OPA leaves it. The operands of constructs that are
refused are left out of the trees; `other` stands for types that the source does not name.
-/

namespace Symkernel.PolicyImport.Rego

open Library

inductive Term where
  | boolean (b : Bool)
  | number (n : Numeral)
  | string (s : String)
  | null
  | ref (r : List Term)
  | call (operator : Option String)
  | var (name : String)
  | array (elements : List Term)
  | set (elements : List Term)
  | other (typeName : String)

inductive Terms where
  | call (operator : Option String) (operands : List Term)
  | every
  | someDecl
  | term (t : Term)
  | other (typeName : String)

structure Expr where
  withs : Nat
  negated : Bool
  terms : Terms

/-- The head of a rule: its name, the number of its arguments, whether it has a key, and its
value. -/
structure Head where
  name : String
  args : Nat
  hasKey : Bool
  value : Option Term

structure Rule where
  head : Option Head
  isDefault : Bool
  hasElse : Bool
  body : List Expr

/-- The built-ins of `ast.BuiltinMap` that have an infix form. -/
def infixes : List (String × String) :=
  [("assign", ":="), ("eq", "="), ("equal", "=="), ("neq", "!="), ("lt", "<"), ("lte", "<="),
    ("gt", ">"), ("gte", ">="), ("plus", "+"), ("minus", "-"), ("mul", "*"), ("div", "/"),
    ("rem", "%"), ("and", "&"), ("or", "|"), ("internal.member_2", "in"),
    ("internal.member_3", "in")]

def builtinMap (isBuiltin : String → Bool) (name : String) : Option String :=
  match infixes.lookup name with
  | some form => some form
  | none => if isBuiltin name then some "" else none

def regoInfixToCEL : List (String × String) :=
  [("==", "=="), ("!=", "!="), ("<", "<"), ("<=", "<="), (">", ">"), (">=", ">="), ("+", "+"),
    ("-", "-")]

def parsesInt (n : Numeral) : Bool :=
  n.isInteger && decide (-2 ^ 63 ≤ n.intValue) && decide (n.intValue < 2 ^ 63)

/-- Whether `strconv.ParseFloat(s, 64)` accepts the text: values that round to an infinity are
out of range. -/
def parsesFloat (n : Numeral) : Bool :=
  decide (-(2 ^ 1024 - 2 ^ 970) < n.value) && decide (n.value < 2 ^ 1024 - 2 ^ 970)

def celNumber (n : Numeral) : String :=
  if parsesInt n then n.text
  else if parsesFloat n then n.text
  else celString n.text

variable (isPrint : Char → Bool) (isBuiltin : String → Bool)

def segments : List Term → Except UnsupportedError String
  | [] => .ok ""
  | .string s :: rest => do
    let path ← segments rest
    .ok ("." ++ s ++ path)
  | _ :: _ => unsupported "rego" "rego.ref.dynamic"
      "dynamic or non-string reference segment is not translated"

def ref (r : List Term) : Except UnsupportedError String :=
  match r with
  | [] => unsupported "rego" "rego.ref.empty" "empty reference"
  | .var root :: rest =>
    if root ≠ "input" then
      unsupported "rego" ("rego.ref.root:" ++ root)
        ("only `input`-rooted references are translated, got " ++ goQuote isPrint root)
    else do
      let path ← segments rest
      .ok ("input" ++ path)
  | _ :: _ => unsupported "rego" "rego.ref.head" "reference does not start with a variable"

mutual

def term : Term → Except UnsupportedError String
  | .boolean b => .ok (if b then "true" else "false")
  | .number n => .ok (celNumber n)
  | .string s => .ok (celString s)
  | .null => .ok "null"
  | .ref r => ref isPrint r
  | .call operator =>
    let name := operator.getD "?"
    unsupported "rego" ("rego.builtin:" ++ name)
      ("function " ++ goQuote isPrint name ++ " used as a value is not translated")
  | .var name => unsupported "rego" "rego.var"
      ("bare variable " ++ goQuote isPrint name ++ " is not translated (dynamic value)")
  | .array elements => do
    let parts ← termList elements
    .ok ("[" ++ String.intercalate ", " parts ++ "]")
  | .set elements => do
    let parts ← termList elements
    .ok ("[" ++ String.intercalate ", " (parts.mergeSort (fun a b => decide (a ≤ b))) ++ "]")
  | .other typeName => unsupported "rego" ("rego.term:" ++ typeName) "unsupported term value"

/-- The elements of an array or a set; the first error ends the loop. -/
def termList : List Term → Except UnsupportedError (List String)
  | [] => .ok []
  | t :: ts => do
    let s ← term t
    let rest ← termList ts
    .ok (s :: rest)

end

def call (operator : Option String) (operands : List Term) : Except UnsupportedError String :=
  match operator with
  | none => unsupported "rego" "rego.call.no-operator" "call expression without an operator"
  | some name =>
    match builtinMap isBuiltin name with
    | none => unsupported "rego" ("rego.builtin:" ++ name)
        ("unknown or user-defined function " ++ goQuote isPrint name)
    | some form =>
      match regoInfixToCEL.lookup form with
      | none => unsupported "rego" ("rego.builtin:" ++ name)
          ("built-in " ++ goQuote isPrint name ++ " (infix " ++ goQuote isPrint form ++
            ") has no CEL operator mapping")
      | some celOp =>
        match operands with
        | [left, right] => do
          let l ← term isPrint left
          let r ← term isPrint right
          .ok ("(" ++ l ++ " " ++ celOp ++ " " ++ r ++ ")")
        | _ => unsupported "rego" ("rego.builtin:" ++ name)
            ("expected 2 operands for " ++ goQuote isPrint name ++ ", got " ++
              toString operands.length)

def negate (negated : Bool) (s : String) : String :=
  if negated then "!(" ++ s ++ ")" else s

def expr (e : Expr) : Except UnsupportedError String :=
  if 0 < e.withs then unsupported "rego" "rego.with" "`with` modifiers are not translated"
  else
    match e.terms with
    | .call operator operands => do
      let s ← call isPrint isBuiltin operator operands
      .ok (negate e.negated s)
    | .every => unsupported "rego" "rego.quantifier"
        "`some`/`every` quantifiers are not translated"
    | .someDecl => unsupported "rego" "rego.quantifier"
        "`some`/`every` quantifiers are not translated"
    | .term t => do
      let s ← term isPrint t
      .ok (negate e.negated s)
    | .other typeName => unsupported "rego" "rego.expr" ("unsupported expression shape " ++ typeName)

def exprs : List Expr → Except UnsupportedError (List String)
  | [] => .ok []
  | e :: es => do
    let s ← expr isPrint isBuiltin e
    let rest ← exprs es
    .ok (s :: rest)

def body (b : List Expr) : Except UnsupportedError String :=
  if b.length = 0 then .ok "true"
  else do
    let terms ← exprs isPrint isBuiltin b
    .ok (String.intercalate " && " (wrap terms))

def boolTermValue : Option Term → Option Bool
  | some (.boolean b) => some b
  | _ => none

structure Found where
  disjuncts : List String
  sawDefaultFalse : Bool
  sawRule : Bool

def ruleStep (ruleName : String) (found : Found) (rule : Rule) : Except UnsupportedError Found :=
  match rule.head with
  | none => .ok found
  | some head =>
    if head.name ≠ ruleName then .ok found
    else if 0 < head.args then
      unsupported "rego" "rego.function"
        ("rule " ++ goQuote isPrint ruleName ++ " takes arguments; functions are not translated")
    else if head.hasKey then
      unsupported "rego" "rego.partial-set"
        ("partial-set/object rule " ++ goQuote isPrint ruleName ++ " is not translated")
    else if rule.isDefault then
      match boolTermValue head.value with
      | some true => unsupported "rego" "rego.default-true"
          ("`default " ++ ruleName ++ " := true` (allow-by-default) is not translated")
      | some false => .ok { found with sawDefaultFalse := true }
      | none => .ok found
    else if rule.hasElse then
      unsupported "rego" "rego.else"
        ("`else` clauses on rule " ++ goQuote isPrint ruleName ++ " are not translated")
    else if boolTermValue head.value ≠ some true then
      unsupported "rego" "rego.non-bool-head"
        ("rule " ++ goQuote isPrint ruleName ++ " does not produce boolean true")
    else do
      let disjunct ← body isPrint isBuiltin rule.body
      .ok { found with disjuncts := found.disjuncts ++ [disjunct], sawRule := true }

def decisionName (ruleName : String) : String :=
  if ruleName = "" then "allow" else ruleName

def translateRego (mod : Option (List Rule)) (ruleName : String) :
    Except UnsupportedError Result :=
  let ruleName := decisionName ruleName
  match mod with
  | none => unsupported "rego" "rego.empty" "empty module"
  | some rules => do
    let found ← rules.foldlM (ruleStep isPrint isBuiltin ruleName) ⟨[], false, false⟩
    if !found.sawRule then
      unsupported "rego" "rego.no-rule"
        ("no translatable rule named " ++ goQuote isPrint ruleName ++ " found")
    else
      .ok {
        cel := String.intercalate " || " (wrap found.disjuncts)
        effect := .permit
        sourceLang := "rego" }

end Symkernel.PolicyImport.Rego
