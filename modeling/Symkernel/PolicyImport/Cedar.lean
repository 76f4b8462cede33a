import Symkernel.PolicyImport.Text

/-!
# Translating Cedar

`internal/policyimport/cedar.go`: the syntax trees of `cedar-go` and their translation. The
operands of constructs that are refused are left out of the trees; `other` stands for node and
value types that the source does not name.
-/

namespace Symkernel.PolicyImport.Cedar

open Library

structure Long where
  val : Int
  lower : -2 ^ 63 ≤ val
  upper : val < 2 ^ 63
  deriving DecidableEq

structure EntityUID where
  type : String
  id : String
  deriving DecidableEq, Repr

/-- The elements of a set and the fields of a record are given in the order in which Go
iterates over them. -/
inductive Value where
  | boolean (b : Bool)
  | long (n : Long)
  | string (s : String)
  | entityUID (e : EntityUID)
  | set (elements : List Value)
  | record (fields : List (String × Value))
  | other (typeName : String)

inductive Variable where
  | principal | action | resource | context
  deriving DecidableEq, Repr

def Variable.name : Variable → String
  | .principal => "principal"
  | .action => "action"
  | .resource => "resource"
  | .context => "context"

inductive Operator where
  | equals | notEquals | lessThan | lessThanOrEqual | greaterThan | greaterThanOrEqual
  | and | or | add | sub | mult
  deriving DecidableEq, Repr

def Operator.text : Operator → String
  | .equals => "=="
  | .notEquals => "!="
  | .lessThan => "<"
  | .lessThanOrEqual => "<="
  | .greaterThan => ">"
  | .greaterThanOrEqual => ">="
  | .and => "&&"
  | .or => "||"
  | .add => "+"
  | .sub => "-"
  | .mult => "*"

inductive Method where
  | contains | containsAll | containsAny
  deriving DecidableEq, Repr

def Method.name : Method → String
  | .contains => "contains"
  | .containsAll => "containsAll"
  | .containsAny => "containsAny"

inductive Node where
  | value (v : Value)
  | variable (name : Variable)
  | access (arg : Node) (attr : String)
  | has (arg : Node) (attr : String)
  | binary (op : Operator) (left right : Node)
  | not (arg : Node)
  | negate (arg : Node)
  | isIn (left right : Node)
  | method (m : Method) (left right : Node)
  | ifThenElse (c t e : Node)
  | set (elements : List Node)
  | record (elements : List (String × Node))
  | is (left : Node) (entityType : String)
  | like
  | isInType
  | tag
  | isEmpty
  | extensionCall (name : String)
  | other (typeName : String)

inductive Scope where
  | all
  | eq (entity : EntityUID)
  | isIn (entity : EntityUID)
  | inSet (entities : List EntityUID)
  | is (type : String)
  | isInType (type : String) (entity : EntityUID)

def Scope.typeName : Scope → String
  | .all => "ast.ScopeTypeAll"
  | .eq _ => "ast.ScopeTypeEq"
  | .isIn _ => "ast.ScopeTypeIn"
  | .inSet _ => "ast.ScopeTypeInSet"
  | .is _ => "ast.ScopeTypeIs"
  | .isInType .. => "ast.ScopeTypeIsIn"

inductive ConditionKind where
  | when
  | unless
  deriving DecidableEq, Repr

structure Condition where
  kind : ConditionKind
  body : Node

structure Policy where
  effect : Effect
  principal : Scope
  action : Scope
  resource : Scope
  conditions : List Condition

variable (isPrint : Char → Bool)

def celEntityUID (e : EntityUID) : String :=
  celString (e.type ++ "::" ++ goQuote isPrint e.id)

mutual

def value : Value → Except UnsupportedError String
  | .boolean b => .ok (if b then "true" else "false")
  | .long n => .ok (toString n.val)
  | .string s => .ok (celString s)
  | .entityUID e => .ok (celEntityUID isPrint e)
  | .set elements => do
    let parts ← values elements
    .ok ("[" ++ String.intercalate ", " (parts.mergeSort (fun a b => decide (a ≤ b))) ++ "]")
  | .record fields => do
    let items ← valueFields fields
    let sorted := items.mergeSort (fun a b => decide (a.1 ≤ b.1))
    .ok ("\x7b" ++ String.intercalate ", " (sorted.map (fun it => it.1 ++ ": " ++ it.2)) ++ "\x7d")
  | .other typeName =>
    unsupported "cedar" ("cedar.value:" ++ typeName) "literal value type has no CEL equivalent"

def values : List Value → Except UnsupportedError (List String)
  | [] => .ok []
  | v :: vs => do
    let s ← value v
    let rest ← values vs
    .ok (s :: rest)

def valueFields : List (String × Value) → Except UnsupportedError (List (String × String))
  | [] => .ok []
  | (k, v) :: fs => do
    let s ← value v
    let rest ← valueFields fs
    .ok ((celString k, s) :: rest)

end

mutual

def node : Node → Except UnsupportedError String
  | .value v => value isPrint v
  | .variable name => .ok name.name
  | .access arg attr => do
    let base ← node arg
    .ok (base ++ "." ++ attr)
  | .has arg attr => do
    let base ← node arg
    .ok ("has(" ++ base ++ "." ++ attr ++ ")")
  | .binary op left right => do
    let ls ← node left
    let rs ← node right
    .ok ("(" ++ ls ++ " " ++ op.text ++ " " ++ rs ++ ")")
  | .not arg => do
    let s ← node arg
    .ok ("!(" ++ s ++ ")")
  | .negate arg => do
    let s ← node arg
    .ok ("-(" ++ s ++ ")")
  | .isIn left right => do
    let l ← node left
    let r ← node right
    .ok ("(" ++ l ++ " == " ++ r ++ " || " ++ l ++ " in " ++ r ++ ".ancestors)")
  | .method m left right => do
    let rs ← node left
    let as ← node right
    .ok (rs ++ "." ++ m.name ++ "(" ++ as ++ ")")
  | .ifThenElse c t e => do
    let cond ← node c
    let thn ← node t
    let els ← node e
    .ok ("(" ++ cond ++ " ? " ++ thn ++ " : " ++ els ++ ")")
  | .set elements => do
    let parts ← nodes elements
    .ok ("[" ++ String.intercalate ", " parts ++ "]")
  | .record elements => do
    let parts ← nodeFields elements
    .ok ("\x7b" ++ String.intercalate ", " parts ++ "\x7d")
  | .is left entityType => do
    let l ← node left
    .ok (l ++ ".__entity_type == " ++ celString entityType)
  | .like => unsupported "cedar" "cedar.node:like"
      "the `like` wildcard-pattern operator has no exact CEL equivalent"
  | .isInType => unsupported "cedar" "cedar.node:isIn"
      "combined `is ... in` in a condition is not translated; express as separate `is` and `in`"
  | .tag => unsupported "cedar" "cedar.node:tag" "entity tags have no CEL equivalent"
  | .isEmpty => unsupported "cedar" "cedar.node:isEmpty"
      "isEmpty() is not translated; use `.size() == 0` semantics explicitly"
  | .extensionCall name => unsupported "cedar" ("cedar.node:extensionCall:" ++ name)
      ("extension/method call " ++ goQuote isPrint name ++
        " (decimal/ip/datetime/duration) has no CEL equivalent")
  | .other typeName => unsupported "cedar" ("cedar.node:" ++ typeName) "unhandled expression node"

def nodes : List Node → Except UnsupportedError (List String)
  | [] => .ok []
  | n :: ns => do
    let s ← node n
    let rest ← nodes ns
    .ok (s :: rest)

def nodeFields : List (String × Node) → Except UnsupportedError (List String)
  | [] => .ok []
  | (k, n) :: ns => do
    let v ← node n
    let rest ← nodeFields ns
    .ok ((celString k ++ ": " ++ v) :: rest)

end

def scope (varName : String) (s : Scope) : Except UnsupportedError String :=
  match s with
  | .all => .ok ""
  | .eq e => .ok (varName ++ " == " ++ celEntityUID isPrint e)
  | .isIn e =>
    .ok ("(" ++ varName ++ " == " ++ celEntityUID isPrint e ++ " || " ++ celEntityUID isPrint e ++
      " in " ++ varName ++ ".ancestors)")
  | .is type => .ok (varName ++ ".__entity_type == " ++ celString type)
  | .isInType type e =>
    .ok ("(" ++ varName ++ ".__entity_type == " ++ celString type ++ " && (" ++ varName ++ " == " ++
      celEntityUID isPrint e ++ " || " ++ celEntityUID isPrint e ++ " in " ++ varName ++
      ".ancestors))")
  | s => unsupported "cedar" ("cedar.scope:" ++ s.typeName) ("unhandled " ++ varName ++ " scope form")

def actionScope (s : Scope) : Except UnsupportedError String :=
  match s with
  | .all => .ok ""
  | .eq e => .ok ("action == " ++ celEntityUID isPrint e)
  | .isIn e =>
    .ok ("(action == " ++ celEntityUID isPrint e ++ " || " ++ celEntityUID isPrint e ++
      " in action.ancestors)")
  | .inSet entities =>
    let parts := entities.map (fun e => "action == " ++ celEntityUID isPrint e)
    .ok (if parts.length = 0 then "false" else "(" ++ String.intercalate " || " parts ++ ")")
  | s => unsupported "cedar" ("cedar.scope:" ++ s.typeName) "unhandled action scope form"

/-- `when { e }` requires `e`, `unless { e }` requires `!e`. -/
def conditionTerm (c : Condition) : Except UnsupportedError String := do
  let body ← node isPrint c.body
  match c.kind with
  | .when => .ok body
  | .unless => .ok ("!(" ++ body ++ ")")

def conditionTerms : List Condition → Except UnsupportedError (List String)
  | [] => .ok []
  | c :: cs => do
    let t ← conditionTerm isPrint c
    let rest ← conditionTerms cs
    .ok (t :: rest)

def policy (p : Policy) : Except UnsupportedError String := do
  let principal ← scope isPrint "principal" p.principal
  let action ← actionScope isPrint p.action
  let resource ← scope isPrint "resource" p.resource
  let conditions ← conditionTerms isPrint p.conditions
  let terms := [principal, action, resource].filter (fun s => s ≠ "") ++ conditions
  if terms.length = 0 then .ok "true"
  else .ok (String.intercalate " && " (wrap terms))

def translateCedar (policies : List Policy) : Except UnsupportedError Result :=
  match policies with
  | [p] => do
    let cel ← policy isPrint p
    .ok { cel, effect := p.effect, sourceLang := "cedar" }
  | _ => unsupported "cedar" "cedar.multi-policy"
      ("expected exactly one policy, got " ++ toString policies.length ++
        "; translate policies individually")

end Symkernel.PolicyImport.Cedar
