import Symkernel.Library.Cel.Eval
import Symkernel.Library.GoQuote
import Symkernel.PolicyImport.CedarPolicy

/-!
# The meaning of Cedar policies

Cedar's own evaluation of a policy on a request, from left to right, where an error ends the
evaluation. In CEL an entity of the request is an object that is equal to its text and has its
ancestors, its type and its attributes as fields. Values of extension types are known by their
texts; no operator but the equality takes them.
-/

namespace Symkernel.PolicyImport.Cedar

open Library Library.Cel

inductive EvalError where
  | attributeMissing
  | entityMissing
  | typeMismatch
  | overflow
  deriving DecidableEq, Repr

/-- An entity with all that is above it in the hierarchy. -/
structure Entity where
  attributes : List (String × Value)
  ancestors : List EntityUID

structure Request where
  principal : EntityUID
  action : EntityUID
  resource : EntityUID
  context : List (String × Value)
  entities : List (EntityUID × Entity)

mutual

/-- Sets are equal when they have the same elements, records when they have the same fields. -/
def Value.equal : Value → Value → Bool
  | .boolean a, .boolean b => decide (a = b)
  | .long a, .long b => decide (a = b)
  | .string a, .string b => decide (a = b)
  | .entityUID a, .entityUID b => decide (a = b)
  | .set as, .set bs => Value.allIn as bs && bs.all (fun b => Value.anyEqual as b)
  | .record as, .record bs => as.length == bs.length && Value.fieldsIn as bs
  | .other a, .other b => decide (a = b)
  | _, _ => false
termination_by structural v => v

def Value.allIn : List Value → List Value → Bool
  | [], _ => true
  | a :: as, bs => bs.any (fun b => a.equal b) && Value.allIn as bs
termination_by structural vs => vs

def Value.anyEqual : List Value → Value → Bool
  | [], _ => false
  | a :: as, b => a.equal b || Value.anyEqual as b
termination_by structural vs => vs

def Value.fieldsIn : List (String × Value) → List (String × Value) → Bool
  | [], _ => true
  | (f, a) :: as, bs => (bs.lookup f).any (fun b => a.equal b) && Value.fieldsIn as bs
termination_by structural fields => fields

end

def asBoolean : Value → Except EvalError Bool
  | .boolean b => .ok b
  | _ => .error .typeMismatch

def asLong : Value → Except EvalError Long
  | .long n => .ok n
  | _ => .error .typeMismatch

def asEntity : Value → Except EvalError EntityUID
  | .entityUID e => .ok e
  | _ => .error .typeMismatch

def long (n : Int) : Except EvalError Value :=
  if h : -2 ^ 63 ≤ n ∧ n < 2 ^ 63 then .ok (.long ⟨n, h.1, h.2⟩) else .error .overflow

def Operator.onLongs (op : Operator) (a b : Int) : Except EvalError Value :=
  match op with
  | .lessThan => .ok (.boolean (decide (a < b)))
  | .lessThanOrEqual => .ok (.boolean (decide (a ≤ b)))
  | .greaterThan => .ok (.boolean (decide (b < a)))
  | .greaterThanOrEqual => .ok (.boolean (decide (b ≤ a)))
  | .add => long (a + b)
  | .sub => long (a - b)
  | .mult => long (a * b)
  | _ => .error .typeMismatch

def Operator.isNumeric : Operator → Bool
  | .and | .or | .equals | .notEquals => false
  | _ => true

def Operator.goesOn : Operator → Option Bool
  | .and => some true
  | .or => some false
  | _ => none

def Method.apply (m : Method) (v w : Value) : Except EvalError Value :=
  match m, v, w with
  | .contains, .set vs, w => .ok (.boolean (Value.anyEqual vs w))
  | .containsAll, .set vs, .set ws => .ok (.boolean (ws.all (fun w => Value.anyEqual vs w)))
  | .containsAny, .set vs, .set ws => .ok (.boolean (ws.any (fun w => Value.anyEqual vs w)))
  | _, _, _ => .error .typeMismatch

namespace Request

variable (req : Request)

def var : Variable → Value
  | .principal => .entityUID req.principal
  | .action => .entityUID req.action
  | .resource => .entityUID req.resource
  | .context => .record req.context

def ancestors (e : EntityUID) : List EntityUID :=
  ((req.entities.lookup e).map (·.ancestors)).getD []

def isIn (a b : EntityUID) : Bool :=
  decide (a = b) || decide (b ∈ req.ancestors a)

/-- The attributes of a value that can have some; none for an entity that does not exist. -/
def attributes : Value → Except EvalError (Option (List (String × Value)))
  | .record fields => .ok (some fields)
  | .entityUID e => .ok ((req.entities.lookup e).map (·.attributes))
  | _ => .error .typeMismatch

def access (v : Value) (attr : String) : Except EvalError Value := do
  match ← req.attributes v with
  | none => .error .entityMissing
  | some fields =>
    match fields.lookup attr with
    | none => .error .attributeMissing
    | some w => .ok w

def has (v : Value) (attr : String) : Except EvalError Value := do
  match ← req.attributes v with
  | none => .ok (.boolean false)
  | some fields => .ok (.boolean (fields.lookup attr).isSome)

/-- `v in w` for an entity `v` and an entity or a set of entities `w`. -/
def member (v w : Value) : Except EvalError Value := do
  let a ← asEntity v
  match w with
  | .entityUID b => .ok (.boolean (req.isIn a b))
  | .set ws => do
    let bs ← ws.mapM asEntity
    .ok (.boolean (bs.any (req.isIn a)))
  | _ => .error .typeMismatch

mutual

/-- What the translator refuses has no meaning here. -/
def eval : Node → Except EvalError Value
  | .value v => .ok v
  | .variable name => .ok (req.var name)
  | .access arg attr => do
    let v ← eval arg
    req.access v attr
  | .has arg attr => do
    let v ← eval arg
    req.has v attr
  | .binary .and left right => do
    let v ← eval left
    if ← asBoolean v then
      let w ← eval right
      let b ← asBoolean w
      .ok (.boolean b)
    else .ok (.boolean false)
  | .binary .or left right => do
    let v ← eval left
    if ← asBoolean v then .ok (.boolean true)
    else
      let w ← eval right
      let b ← asBoolean w
      .ok (.boolean b)
  | .binary .equals left right => do
    let v ← eval left
    let w ← eval right
    .ok (.boolean (v.equal w))
  | .binary .notEquals left right => do
    let v ← eval left
    let w ← eval right
    .ok (.boolean (!v.equal w))
  | .binary op left right => do
    let v ← eval left
    let w ← eval right
    let a ← asLong v
    let b ← asLong w
    op.onLongs a.val b.val
  | .not arg => do
    let v ← eval arg
    let b ← asBoolean v
    .ok (.boolean (!b))
  | .negate arg => do
    let v ← eval arg
    let n ← asLong v
    long (-n.val)
  | .isIn left right => do
    let v ← eval left
    let w ← eval right
    req.member v w
  | .method m left right => do
    let v ← eval left
    let w ← eval right
    m.apply v w
  | .ifThenElse c t e => do
    let v ← eval c
    if ← asBoolean v then eval t else eval e
  | .set elements => do
    let vs ← evalAll elements
    .ok (.set vs)
  | .record elements => do
    let fields ← evalFields elements
    .ok (.record fields)
  | .is left type => do
    let v ← eval left
    let e ← asEntity v
    .ok (.boolean (decide (e.type = type)))
  | _ => .error .typeMismatch

def evalAll : List Node → Except EvalError (List Value)
  | [] => .ok []
  | n :: ns => do
    let v ← eval n
    let vs ← evalAll ns
    .ok (v :: vs)

def evalFields : List (String × Node) → Except EvalError (List (String × Value))
  | [] => .ok []
  | (f, n) :: ns => do
    let v ← eval n
    let vs ← evalFields ns
    .ok ((f, v) :: vs)

end

def truth (n : Node) : Except EvalError Bool := do
  let v ← req.eval n
  asBoolean v

def condition (c : Condition) : Except EvalError Bool := do
  let b ← req.truth c.body
  match c.kind with
  | .when => .ok b
  | .unless => .ok (!b)

def scope (e : EntityUID) : Scope → Bool
  | .all => true
  | .eq entity => decide (e = entity)
  | .isIn entity => req.isIn e entity
  | .inSet entities => entities.any (req.isIn e)
  | .is type => decide (e.type = type)
  | .isInType type entity => decide (e.type = type) && req.isIn e entity

def scopes (p : Policy) : Bool :=
  req.scope req.principal p.principal && req.scope req.action p.action &&
    req.scope req.resource p.resource

def conditions : List Condition → Except EvalError Bool
  | [] => .ok true
  | c :: cs => do
    if ← req.condition c then conditions cs else .ok false

def evaluate (p : Policy) : Except EvalError Bool :=
  if req.scopes p then req.conditions p.conditions else .ok false

end Request

lemma asBoolean_eq_ok {v : Value} {b : Bool} : asBoolean v = .ok b ↔ v = .boolean b := by
  cases v <;> simp [asBoolean]

lemma asLong_eq_ok {v : Value} {n : Long} : asLong v = .ok n ↔ v = .long n := by
  cases v <;> simp [asLong]

lemma asEntity_eq_ok {v : Value} {e : EntityUID} : asEntity v = .ok e ↔ v = .entityUID e := by
  cases v <;> simp [asEntity]

namespace Request

variable {req : Request}

lemma truth_eq_ok {n : Node} {b : Bool} : req.truth n = .ok b ↔ req.eval n = .ok (.boolean b) := by
  rw [truth, bind_eq_ok]
  constructor
  · rintro ⟨v, hv, hb⟩
    rw [hv, asBoolean_eq_ok.mp hb]
  · intro hv
    exact ⟨_, hv, rfl⟩

lemma eval_logical {op : Operator} {g : Bool} (hop : op.goesOn = some g) (left right : Node) :
    req.eval (.binary op left right) = (do
      let b ← req.truth left
      if b = g then
        let c ← req.truth right
        .ok (.boolean c)
      else .ok (.boolean (!g))) := by
  cases op <;> cases hop <;> simp only [eval, truth, bind_assoc]
  · rfl
  · congr 1
    funext v
    congr 1
    funext b
    cases b <;> rfl

lemma eval_not (arg : Node) : req.eval (.not arg) = (do
      let b ← req.truth arg
      .ok (.boolean (!b))) := by
  simp only [eval, truth, bind_assoc]

lemma eval_ifThenElse (c t e : Node) : req.eval (.ifThenElse c t e) = (do
      if ← req.truth c then req.eval t else req.eval e) := by
  simp only [eval, truth, bind_assoc]

lemma conditions_eq_ok {cs : List Condition} :
    req.conditions cs = .ok true ↔ ∀ c ∈ cs, req.condition c = .ok true := by
  induction cs with
  | nil => simp [conditions]
  | cons c cs ih =>
    rw [conditions, bind_eq_ok, List.forall_mem_cons, ← ih]
    constructor
    · rintro ⟨b, hb, hrest⟩
      cases b with
      | false => cases hrest
      | true => exact ⟨hb, hrest⟩
    · rintro ⟨hc, hrest⟩
      exact ⟨true, hc, hrest⟩

lemma evaluate_eq_ok {p : Policy} : req.evaluate p = .ok true ↔
      req.scopes p = true ∧ ∀ c ∈ p.conditions, req.condition c = .ok true := by
  rw [evaluate, ← conditions_eq_ok]
  by_cases hscopes : req.scopes p = true
  · simp [hscopes]
  · simp [hscopes]

lemma eval_numeric {op : Operator} (hop : op.isNumeric = true) (left right : Node) :
    req.eval (.binary op left right) = (do
      let v ← req.eval left
      let w ← req.eval right
      let a ← asLong v
      let b ← asLong w
      op.onLongs a.val b.val) := by
  cases op <;> first | rfl | cases hop

end Request

mutual

def celValue : Value → Cel.Value EntityUID
  | .boolean b => .bool b
  | .long n => .int n.val
  | .string s => .string s
  | .entityUID e => .object e
  | .set elements => .list (celValues elements)
  | .record fields => .map (celFields fields)
  | .other text => .abstract text

def celValues : List Value → List (Cel.Value EntityUID)
  | [] => []
  | v :: vs => celValue v :: celValues vs

def celFields : List (String × Value) → List (String × Cel.Value EntityUID)
  | [] => []
  | (f, v) :: fs => (f, celValue v) :: celFields fs

end

def Request.celField (req : Request) (e : EntityUID) (f : String) : Option (Cel.Value EntityUID) :=
  if f = Cedar.ancestors then some (.list ((req.ancestors e).map .object))
  else if f = entityType then some (.string e.type)
  else do
    let entity ← req.entities.lookup e
    let v ← entity.attributes.lookup f
    some (celValue v)

/-- Cedar has no fractions, so nothing is rounded. -/
def Request.host (req : Request) (isPrint : Char → Bool) : Host EntityUID where
  vars name :=
    [Variable.principal, .action, .resource, .context].findSome?
      (fun x => if x.name = name then some (celValue (req.var x)) else none)
  text := uidText isPrint
  field := req.celField
  rounding := ⟨id, monotone_id⟩

end Symkernel.PolicyImport.Cedar
