import Symkernel.Library.Cel.Lexer

/-!
# The grammar of CEL

A parser with an explicit stack for the expressions of the Common Expression Language. Binary
operators associate to the left, in five ranks from `||` up to `*`, `/`, `%`; the conditional
associates to the right and is below them all; `!` and `-` are above them and apply to a
member, which is a primary expression with selections, calls and indices. Constructors of
messages are left out.
-/

namespace Symkernel.Library.Cel

def BinOp.prec : BinOp → Nat
  | .or => 1
  | .and => 2
  | .lt | .le | .gt | .ge | .eq | .ne | .isIn => 3
  | .add | .sub => 4
  | .mul | .div | .mod => 5

/-- Floating-point literals are kept as they are written. -/
inductive Literal where
  | null
  | bool (b : Bool)
  | int (n : Int)
  | double (text : String)
  | string (s : String)
  deriving DecidableEq, Repr

inductive Expr where
  | lit (l : Literal)
  | ident (name : String)
  | select (e : Expr) (field : String)
  | index (e i : Expr)
  | call (fn : String) (args : List Expr)
  | method (e : Expr) (fn : String) (args : List Expr)
  | list (es : List Expr)
  | map (keys values : List Expr)
  | not (e : Expr)
  | neg (e : Expr)
  | bin (op : BinOp) (l r : Expr)
  | cond (c t e : Expr)

def keywords : List String := ["in", "true", "false", "null"]

def reserved : List String :=
  ["as", "break", "const", "continue", "else", "for", "function", "if", "import", "let", "loop",
    "package", "namespace", "return", "var", "void", "while"]

def isSelector (w : String) : Bool :=
  isWord w.toList && !keywords.contains w

/-- Constructs that are open: brackets with what they hold so far, and operators that wait for
their last operand. -/
inductive Frame where
  | paren
  | list (done : List Expr)
  | mapKey (keys values : List Expr)
  | mapValue (keys values : List Expr) (key : Expr)
  | args (fn : String) (done : List Expr)
  | methodArgs (e : Expr) (fn : String) (done : List Expr)
  | index (e : Expr)
  | not
  | neg
  | bin (op : BinOp) (l : Expr)
  | condThen (c : Expr)
  | condElse (c t : Expr)

/-- The place in the text: in front of an operand, possibly after a sign; after the point of a
selection; or after an operand, where a name can still become that of a function. -/
inductive Place where
  | operand
  | sign
  | field (e : Expr)
  | after (e : Expr)
  | named (w : String)
  | selected (e : Expr) (w : String)

structure State where
  stack : List Frame
  place : Place

def Place.value : Place → Option Expr
  | .after e => some e
  | .named w => some (.ident w)
  | .selected e w => some (.select e w)
  | _ => none

/-- Closes the operators of rank at least `p` on the operand `e`. -/
def reduce (p : Nat) : List Frame → Expr → List Frame × Expr
  | .not :: stack, e => reduce p stack (.not e)
  | .neg :: stack, e => reduce p stack (.neg e)
  | .bin op l :: stack, e =>
    if p ≤ op.prec then reduce p stack (.bin op l e) else (.bin op l :: stack, e)
  | .condElse c t :: stack, e =>
    if p = 0 then reduce p stack (.cond c t e) else (.condElse c t :: stack, e)
  | stack, e => (stack, e)

def wordOperand (w : String) : Option Place :=
  if w = "true" then some (.after (.lit (.bool true)))
  else if w = "false" then some (.after (.lit (.bool false)))
  else if w = "null" then some (.after (.lit .null))
  else if w = "in" ∨ reserved.contains w then none
  else some (.named w)

def operandStep (stack : List Frame) : Token → Option State
  | .word w => (wordOperand w).map (fun p => ⟨stack, p⟩)
  | .int n => if n < 2 ^ 63 then some ⟨stack, .after (.lit (.int n))⟩ else none
  | .float text => some ⟨stack, .after (.lit (.double text))⟩
  | .string s => some ⟨stack, .after (.lit (.string s))⟩
  | .minus => some ⟨stack, .sign⟩
  | .bang =>
    match stack with
    | .neg :: _ => none
    | _ => some ⟨.not :: stack, .operand⟩
  | .lparen => some ⟨.paren :: stack, .operand⟩
  | .lbrack => some ⟨.list [] :: stack, .operand⟩
  | .lbrace => some ⟨.mapKey [] [] :: stack, .operand⟩
  | .rparen =>
    match stack with
    | .args fn [] :: stack => some ⟨stack, .after (.call fn [])⟩
    | .methodArgs e fn [] :: stack => some ⟨stack, .after (.method e fn [])⟩
    | _ => none
  -- a comma may stand before the closing bracket
  | .rbrack =>
    match stack with
    | .list done :: stack => some ⟨stack, .after (.list done)⟩
    | _ => none
  | .rbrace =>
    match stack with
    | .mapKey keys values :: stack => some ⟨stack, .after (.map keys values)⟩
    | _ => none
  | _ => none

/-- A token after a sign: the sign is part of a number, or negates a member. -/
def signStep (stack : List Frame) : Token → Option State
  | .int n => if n ≤ 2 ^ 63 then some ⟨stack, .after (.lit (.int (-n)))⟩ else none
  | .float text => some ⟨stack, .after (.lit (.double ("-" ++ text)))⟩
  | t =>
    match stack with
    | .not :: _ => none
    | _ => operandStep (.neg :: stack) t

def Token.binary : Token → Option BinOp
  | .op o => some o
  | .minus => some .sub
  | .word "in" => some .isIn
  | _ => none

def commaStep : List Frame × Expr → Option State
  | (.list done :: stack, e) => some ⟨.list (done ++ [e]) :: stack, .operand⟩
  | (.args fn done :: stack, e) => some ⟨.args fn (done ++ [e]) :: stack, .operand⟩
  | (.methodArgs r fn done :: stack, e) =>
    some ⟨.methodArgs r fn (done ++ [e]) :: stack, .operand⟩
  | (.mapValue keys values key :: stack, e) =>
    some ⟨.mapKey (keys ++ [key]) (values ++ [e]) :: stack, .operand⟩
  | _ => none

def rparenStep : List Frame × Expr → Option State
  | (.paren :: stack, e) => some ⟨stack, .after e⟩
  | (.args fn done :: stack, e) => some ⟨stack, .after (.call fn (done ++ [e]))⟩
  | (.methodArgs r fn done :: stack, e) => some ⟨stack, .after (.method r fn (done ++ [e]))⟩
  | _ => none

def rbrackStep : List Frame × Expr → Option State
  | (.list done :: stack, e) => some ⟨stack, .after (.list (done ++ [e]))⟩
  | (.index r :: stack, e) => some ⟨stack, .after (.index r e)⟩
  | _ => none

def rbraceStep : List Frame × Expr → Option State
  | (.mapValue keys values key :: stack, e) =>
    some ⟨stack, .after (.map (keys ++ [key]) (values ++ [e]))⟩
  | _ => none

/-- The condition of a conditional; the part before its colon is no conditional. -/
def questionStep : List Frame × Expr → Option State
  | (.condThen _ :: _, _) => none
  | (stack, e) => some ⟨.condThen e :: stack, .operand⟩

def colonStep : List Frame × Expr → Option State
  | (.condThen c :: stack, e) => some ⟨.condElse c e :: stack, .operand⟩
  | (stack, e) =>
    match reduce 0 stack e with
    | (.mapKey keys values :: stack, e) => some ⟨.mapValue keys values e :: stack, .operand⟩
    | _ => none

def afterStep (stack : List Frame) (e : Expr) (t : Token) : Option State :=
  match t.binary with
  | some op =>
    let r := reduce op.prec stack e
    some ⟨.bin op r.2 :: r.1, .operand⟩
  | none =>
    match t with
    | .dot => some ⟨stack, .field e⟩
    | .lbrack => some ⟨.index e :: stack, .operand⟩
    | .question => questionStep (reduce 1 stack e)
    | .colon => colonStep (reduce 1 stack e)
    | .comma => commaStep (reduce 0 stack e)
    | .rparen => rparenStep (reduce 0 stack e)
    | .rbrack => rbrackStep (reduce 0 stack e)
    | .rbrace => rbraceStep (reduce 0 stack e)
    | _ => none

def State.step : State → Token → Option State
  | ⟨stack, .operand⟩, t => operandStep stack t
  | ⟨stack, .sign⟩, t => signStep stack t
  | ⟨stack, .field e⟩, .word w => if isSelector w then some ⟨stack, .selected e w⟩ else none
  | ⟨_, .field _⟩, _ => none
  | ⟨stack, .after e⟩, t => afterStep stack e t
  | ⟨stack, .named w⟩, .lparen => some ⟨.args w [] :: stack, .operand⟩
  | ⟨stack, .named w⟩, t => afterStep stack (.ident w) t
  | ⟨stack, .selected e w⟩, .lparen => some ⟨.methodArgs e w [] :: stack, .operand⟩
  | ⟨stack, .selected e w⟩, t => afterStep stack (.select e w) t

def State.finish (s : State) : Option Expr := do
  let e ← s.place.value
  match reduce 0 s.stack e with
  | ([], e) => some e
  | _ => none

def parseFrom (s : State) (cs : List Char) : Option Expr := do
  let ts ← lexFrom .start cs
  let s ← ts.foldlM State.step s
  s.finish

def parse (text : String) : Option Expr :=
  parseFrom ⟨[], .operand⟩ text.toList

end Symkernel.Library.Cel
