import Symkernel.Library.Cel.Grouping
import Symkernel.Library.GoText

/-!
# The meaning of CEL

Evaluation of expressions without the optional type check. Values of different types are not
equal, numbers are compared by value, and `&&` and `||` absorb an error on either side when the
other side decides. Of the functions only the macro `has` and the method `contains` of strings
are here; unsigned numbers, bytes, infinities and maps with other keys than strings are left out.

A host program supplies the variables. Its objects are known by a text which they are equal to,
and it says what their fields are. A text has no fields, unless the host takes it for an object.
-/

namespace Symkernel.Library.Cel

structure Rounding where
  round : Rat → Rat
  mono : Monotone round

inductive Value (κ : Type) where
  | null
  | bool (b : Bool)
  | int (n : Int)
  | double (q : Rat)
  | string (s : String)
  | list (items : List (Value κ))
  | map (fields : List (String × Value κ))
  | object (key : κ)
  | abstract (text : String)

inductive Error where
  | undeclared (name : String)
  | noSuchField (name : String)
  | noSuchOverload
  | outOfBounds
  | overflow
  | divideByZero
  | repeatedKey
  deriving DecidableEq, Repr

structure Host (κ : Type) where
  vars : String → Option (Value κ)
  text : κ → String
  field : κ → String → Option (Value κ)
  rounding : Rounding
  textField : String → String → Option (Value κ) := fun _ _ => none

variable {κ : Type}

def isBool (b : Bool) : Except Error (Value κ) → Bool
  | .ok (.bool c) => b == c
  | _ => false

lemma isBool_iff {b : Bool} {o : Except Error (Value κ)} : isBool b o = true ↔ o = .ok (.bool b) := by
  cases o with
  | error e => simp [isBool]
  | ok v => cases v <;> simp [isBool, eq_comm (a := b)]

/-! ### Values -/

def Value.number? : Value κ → Option Rat
  | .int n => some n
  | .double q => some q
  | _ => none

/-- What an equality of values that are no lists or maps looks at. -/
inductive Atom where
  | null
  | bool (b : Bool)
  | number (q : Rat)
  | text (s : String)
  | abstract (s : String)
  deriving DecidableEq

def Value.atom? (text : κ → String) : Value κ → Option Atom
  | .null => some .null
  | .bool b => some (.bool b)
  | .int n => some (.number n)
  | .double q => some (.number q)
  | .string s => some (.text s)
  | .object key => some (.text (text key))
  | .abstract s => some (.abstract s)
  | .list _ => none
  | .map _ => none

def sameAtom (text : κ → String) (a b : Value κ) : Bool :=
  match a.atom? text, b.atom? text with
  | some x, some y => decide (x = y)
  | _, _ => false

mutual

def Value.equal (text : κ → String) : Value κ → Value κ → Bool
  | .list as, .list bs => equalAll text as bs
  | .map as, .map bs => as.length == bs.length && fieldsIn text as bs
  | a, b => sameAtom text a b

def equalAll (text : κ → String) : List (Value κ) → List (Value κ) → Bool
  | [], [] => true
  | a :: as, b :: bs => a.equal text b && equalAll text as bs
  | _, _ => false

/-- Every field is one of `bs`, with an equal value. -/
def fieldsIn (text : κ → String) : List (String × Value κ) → List (String × Value κ) → Bool
  | [], _ => true
  | (f, a) :: as, bs => (bs.lookup f).any (fun b => a.equal text b) && fieldsIn text as bs

end

variable {text : κ → String} {a b : Value κ}

lemma sameAtom_iff :
    sameAtom text a b = true ↔ a.atom? text = b.atom? text ∧ a.atom? text ≠ none := by
  unfold sameAtom
  cases a.atom? text <;> cases b.atom? text <;> simp

lemma equal_iff_atom (h : a.atom? text ≠ none ∨ b.atom? text ≠ none) :
    a.equal text b = true ↔ a.atom? text = b.atom? text := by
  have hequal : a.equal text b = sameAtom text a b := by
    cases a <;> cases b <;> first | rfl | simp [Value.atom?] at h
  rw [hequal, sameAtom_iff, and_iff_left_iff_imp]
  intro heq hnone
  rw [← heq] at h
  exact h.elim (fun ha => ha hnone) (fun hb => hb hnone)

lemma fieldsIn_iff {as bs : List (String × Value κ)} : fieldsIn text as bs = true ↔
      ∀ f ∈ as, ∃ b, bs.lookup f.1 = some b ∧ f.2.equal text b = true := by
  induction as with
  | nil => simp [fieldsIn]
  | cons f as ih =>
    rw [fieldsIn, Bool.and_eq_true, ih, List.forall_mem_cons]
    cases bs.lookup f.1 <;> simp

@[simp] lemma equal_string (text : κ → String) (s t : String) :
    (Value.string s).equal text (.string t) = decide (s = t) := by
  simp [Value.equal, sameAtom, Value.atom?]

lemma equal_text_left (text : κ → String) (key : κ) (b : Value κ) :
    (Value.string (text key)).equal text b = (Value.object key).equal text b := by
  cases b <;> rfl

lemma equal_text_right (text : κ → String) (key : κ) (a : Value κ) :
    a.equal text (.string (text key)) = a.equal text (.object key) := by
  cases a <;> rfl

def Value.order? : Value κ → Value κ → Option Ordering
  | .bool a, .bool b => some (compare a b)
  | .string a, .string b => some (compare a b)
  | a, b =>
    match a.number?, b.number? with
    | some x, some y => some (compare x y)
    | _, _ => none

/-- The types whose values are ordered among each other; 0 for the others. -/
def Value.orderClass : Value κ → Nat
  | .bool _ => 1
  | .int _ => 2
  | .double _ => 2
  | .string _ => 3
  | _ => 0

lemma order?_eq_none (h : a.orderClass ≠ b.orderClass ∨ a.orderClass = 0) : a.order? b = none := by
  cases a <;> cases b <;> first | rfl | simp [Value.orderClass] at h

lemma order?_of_number {x y : Rat} (ha : a.number? = some x) (hb : b.number? = some y) :
    a.order? b = some (compare x y) := by
  cases a <;> cases ha <;> cases b <;> cases hb <;> rfl

/-! ### Operators -/

def int64 (n : Int) : Except Error (Value κ) :=
  if -2 ^ 63 ≤ n ∧ n < 2 ^ 63 then .ok (.int n) else .error .overflow

namespace Value

def ordered (holds : Ordering → Bool) (a b : Value κ) : Except Error (Value κ) :=
  match a.order? b with
  | some o => .ok (.bool (holds o))
  | none => .error .noSuchOverload

def not : Value κ → Except Error (Value κ)
  | .bool b => .ok (.bool (!b))
  | _ => .error .noSuchOverload

def neg : Value κ → Except Error (Value κ)
  | .int n => int64 (-n)
  | .double q => .ok (.double (-q))
  | _ => .error .noSuchOverload

def mod : Value κ → Value κ → Except Error (Value κ)
  | .int a, .int b => if b = 0 then .error .divideByZero else int64 (a.tmod b)
  | _, _ => .error .noSuchOverload

def index : Value κ → Value κ → Except Error (Value κ)
  | .list items, .int n =>
    match if n < 0 then none else items[n.toNat]? with
    | some v => .ok v
    | none => .error .outOfBounds
  | .map fields, .string f =>
    match fields.lookup f with
    | some v => .ok v
    | none => .error (.noSuchField f)
  | _, _ => .error .noSuchOverload

def method (fn : String) (v : Value κ) (args : List (Value κ)) : Except Error (Value κ) :=
  match v, args with
  | .string s, [.string t] =>
    if fn = "contains" then .ok (.bool (decide (t.toList <:+: s.toList)))
    else .error .noSuchOverload
  | _, _ => .error .noSuchOverload

def fieldName : Value κ → Except Error String
  | .string s => .ok s
  | _ => .error .noSuchOverload

end Value

def mapOf (keys values : List (Value κ)) : Except Error (Value κ) := do
  let names ← keys.mapM Value.fieldName
  if names.Nodup then .ok (.map (names.zip values)) else .error .repeatedKey

/-- `&&` for `d = false`, `||` for `d = true`: an operand `d` decides, whatever the other one
is. -/
def decided (d : Bool) (l r : Except Error (Value κ)) : Except Error (Value κ) :=
  if isBool d l || isBool d r then .ok (.bool d)
  else do
    let a ← l
    let b ← r
    match a, b with
    | .bool _, .bool _ => .ok (.bool (!d))
    | _, _ => .error .noSuchOverload

namespace Host

variable (h : Host κ)

def double (q : Rat) : Except Error (Value κ) :=
  .ok (.double (h.rounding.round q))

def add : Value κ → Value κ → Except Error (Value κ)
  | .int a, .int b => int64 (a + b)
  | .double a, .double b => h.double (a + b)
  | .string a, .string b => .ok (.string (a ++ b))
  | .list as, .list bs => .ok (.list (as ++ bs))
  | _, _ => .error .noSuchOverload

def sub : Value κ → Value κ → Except Error (Value κ)
  | .int a, .int b => int64 (a - b)
  | .double a, .double b => h.double (a - b)
  | _, _ => .error .noSuchOverload

def mul : Value κ → Value κ → Except Error (Value κ)
  | .int a, .int b => int64 (a * b)
  | .double a, .double b => h.double (a * b)
  | _, _ => .error .noSuchOverload

def div : Value κ → Value κ → Except Error (Value κ)
  | .int a, .int b => if b = 0 then .error .divideByZero else int64 (a.tdiv b)
  | .double a, .double b => if b = 0 then .error .divideByZero else h.double (a / b)
  | _, _ => .error .noSuchOverload

def isIn : Value κ → Value κ → Except Error (Value κ)
  | a, .list bs => .ok (.bool (bs.any (fun b => a.equal h.text b)))
  | .string s, .map fields => .ok (.bool (fields.lookup s).isSome)
  | _, _ => .error .noSuchOverload

def strict (op : BinOp) (a b : Value κ) : Except Error (Value κ) :=
  match op with
  | .eq => .ok (.bool (a.equal h.text b))
  | .ne => .ok (.bool (!a.equal h.text b))
  | .lt => a.ordered Ordering.isLT b
  | .le => a.ordered Ordering.isLE b
  | .gt => a.ordered Ordering.isGT b
  | .ge => a.ordered Ordering.isGE b
  | .isIn => h.isIn a b
  | .add => h.add a b
  | .sub => h.sub a b
  | .mul => h.mul a b
  | .div => h.div a b
  | .mod => a.mod b
  | .and => .error .noSuchOverload
  | .or => .error .noSuchOverload

def literal : Literal → Value κ
  | .null => .null
  | .bool b => .bool b
  | .int n => .int n
  | .double text => .double (h.rounding.round (decimalValue text.toList))
  | .string s => .string s

def field? (v : Value κ) (f : String) : Except Error (Option (Value κ)) :=
  match v with
  | .map fields => .ok (fields.lookup f)
  | .object key => .ok (h.field key f)
  | .string s =>
    match h.textField s f with
    | some w => .ok (some w)
    | none => .error .noSuchOverload
  | _ => .error .noSuchOverload

def select (v : Value κ) (f : String) : Except Error (Value κ) := do
  match ← h.field? v f with
  | some w => .ok w
  | none => .error (.noSuchField f)

def has (v : Value κ) (f : String) : Except Error (Value κ) := do
  let found ← h.field? v f
  .ok (.bool found.isSome)

def read (name : String) : Except Error (Value κ) :=
  match h.vars name with
  | some v => .ok v
  | none => .error (.undeclared name)

end Host

mutual

def eval (h : Host κ) : Expr → Except Error (Value κ)
  | .lit l => .ok (h.literal l)
  | .ident name => h.read name
  | .select e f => do
    let v ← eval h e
    h.select v f
  | .index e i => do
    let v ← eval h e
    let w ← eval h i
    v.index w
  | .call "has" [.select e f] => do
    let v ← eval h e
    h.has v f
  | .call _ _ => .error .noSuchOverload
  | .method e fn args => do
    let v ← eval h e
    let ws ← evalAll h args
    v.method fn ws
  | .list es => do
    let vs ← evalAll h es
    .ok (.list vs)
  | .map keys values => do
    let ks ← evalAll h keys
    let vs ← evalAll h values
    mapOf ks vs
  | .not e => do
    let v ← eval h e
    v.not
  | .neg e => do
    let v ← eval h e
    v.neg
  | .bin .and l r => decided false (eval h l) (eval h r)
  | .bin .or l r => decided true (eval h l) (eval h r)
  | .bin op l r => do
    let a ← eval h l
    let b ← eval h r
    h.strict op a b
  | .cond c t e => do
    match ← eval h c with
    | .bool true => eval h t
    | .bool false => eval h e
    | _ => .error .noSuchOverload

def evalAll (h : Host κ) : List Expr → Except Error (List (Value κ))
  | [] => .ok []
  | e :: es => do
    let v ← eval h e
    let vs ← evalAll h es
    .ok (v :: vs)

end

def Host.Grants (h : Host κ) (text : String) : Prop :=
  ∃ e, parse text = some e ∧ eval h e = .ok (.bool true)

variable {h : Host κ}

lemma Host.grants_iff {text : String} {e : Expr} (hparse : parse text = some e) :
    h.Grants text ↔ eval h e = .ok (.bool true) := by
  constructor
  · rintro ⟨e', hparse', heval⟩
    rw [hparse, Option.some_inj] at hparse'
    rwa [hparse']
  · intro heval
    exact ⟨e, hparse, heval⟩

def BinOp.isLogical : BinOp → Bool
  | .and | .or => true
  | _ => false

lemma eval_strict {op : BinOp} (hop : op.isLogical = false) (l r : Expr) :
    eval h (.bin op l r) = (do
      let a ← eval h l
      let b ← eval h r
      h.strict op a b) := by
  cases op <;> first | rfl | cases hop

lemma eval_strict_ok {op : BinOp} {l r : Expr} (hop : op.isLogical = false)
    (hl : eval h l = .ok a) (hr : eval h r = .ok b) : eval h (.bin op l r) = h.strict op a b := by
  rw [eval_strict hop, hl, hr]
  rfl

lemma eval_strict_error {op : BinOp} {l r : Expr} (hop : op.isLogical = false)
    (herr : (∃ e, eval h l = .error e) ∨ ∃ e, eval h r = .error e) :
    ∃ e, eval h (.bin op l r) = .error e := by
  rw [eval_strict hop]
  obtain ⟨e, he⟩ | ⟨e, he⟩ := herr
  · exact ⟨e, by rw [he]; rfl⟩
  · cases hl : eval h l with
    | error e' => exact ⟨e', rfl⟩
    | ok a => exact ⟨e, by rw [he]; rfl⟩

variable {es : List Expr}

lemma evalAll_error {e : Expr} (herr : (∃ x, eval h e = .error x) ∨ ∃ x, evalAll h es = .error x) :
    ∃ x, evalAll h (e :: es) = .error x := by
  rw [evalAll]
  obtain ⟨x, hx⟩ | ⟨x, hx⟩ := herr
  · exact ⟨x, by rw [hx]; rfl⟩
  · cases he : eval h e with
    | error y => exact ⟨y, rfl⟩
    | ok v => exact ⟨x, by rw [hx]; rfl⟩

lemma evalAll_strings (h : Host κ) (names : List String) :
    evalAll h (names.map (fun f => .lit (.string f))) = .ok (names.map .string) := by
  induction names with
  | nil => rfl
  | cons f names ih =>
    rw [List.map_cons, evalAll, ih]
    rfl

lemma mapOf_strings {names : List String} (hnd : names.Nodup) (values : List (Value κ)) :
    mapOf (names.map .string) values = .ok (.map (names.zip values)) := by
  have hnames : ∀ names : List String,
      (names.map (Value.string (κ := κ))).mapM Value.fieldName = .ok names := by
    intro names
    induction names with
    | nil => rfl
    | cons f names ih =>
      rw [List.map_cons, List.mapM_cons, ih]
      rfl
  rw [mapOf, hnames]
  exact if_pos hnd

/-! ### Logical operators -/

variable {d : Bool} {l r : Except Error (Value κ)}

lemma decided_of_decides (h : l = .ok (.bool d) ∨ r = .ok (.bool d)) :
    decided d l r = .ok (.bool d) := by
  rw [← isBool_iff, ← isBool_iff, ← Bool.or_eq_true] at h
  rw [decided, if_pos h]

lemma decided_eq_ok {v : Value κ} (hl : l ≠ .ok (.bool d)) (hr : r ≠ .ok (.bool d))
    (h : decided d l r = .ok v) : v = .bool (!d) ∧ l = .ok (.bool (!d)) ∧ r = .ok (.bool (!d)) := by
  have hne : ¬ (isBool d l || isBool d r) = true := by
    rw [Bool.or_eq_true, isBool_iff, isBool_iff]
    exact not_or.mpr ⟨hl, hr⟩
  rw [decided, if_neg hne] at h
  obtain ⟨a, ha, hright⟩ := bind_eq_ok.mp h
  obtain ⟨b, hb, hmatch⟩ := bind_eq_ok.mp hright
  split at hmatch
  · rename_i x y
    cases hmatch
    have hx : x = !d := Bool.eq_not.mpr (fun hx => hl (by rw [ha, hx]))
    have hy : y = !d := Bool.eq_not.mpr (fun hy => hr (by rw [hb, hy]))
    exact ⟨rfl, by rw [ha, hx], by rw [hb, hy]⟩
  · cases hmatch

lemma decided_self_iff : decided d l r = .ok (.bool d) ↔ l = .ok (.bool d) ∨ r = .ok (.bool d) := by
  constructor
  · intro h
    by_contra hne
    rw [not_or] at hne
    have hv := (decided_eq_ok hne.1 hne.2 h).1
    cases d <;> cases hv
  · exact decided_of_decides

lemma decided_not_iff :
    decided d l r = .ok (.bool (!d)) ↔ l = .ok (.bool (!d)) ∧ r = .ok (.bool (!d)) := by
  constructor
  · intro h
    have hl : l ≠ .ok (.bool d) := by
      intro hl
      rw [decided_of_decides (.inl hl)] at h
      cases d <;> cases h
    have hr : r ≠ .ok (.bool d) := by
      intro hr
      rw [decided_of_decides (.inr hr)] at h
      cases d <;> cases h
    exact (decided_eq_ok hl hr h).2
  · rintro ⟨rfl, rfl⟩
    cases d <;> rfl

lemma decided_goes_iff {g : Bool} :
    decided (!g) l r = .ok (.bool g) ↔ l = .ok (.bool g) ∧ r = .ok (.bool g) := by
  simpa using decided_not_iff (d := !g) (l := l) (r := r)

lemma decided_error (hl : l ≠ .ok (.bool d)) (hr : r ≠ .ok (.bool d))
    (hne : l ≠ .ok (.bool (!d)) ∨ r ≠ .ok (.bool (!d))) : ∃ e, decided d l r = .error e := by
  cases h : decided d l r with
  | error e => exact ⟨e, rfl⟩
  | ok v =>
    obtain ⟨-, hboth⟩ := decided_eq_ok hl hr h
    exact absurd hboth (not_and_or.mpr hne)

lemma decided_not_left (a b : Bool) :
    decided (!a) (.ok (.bool a)) (.ok (.bool b)) = .ok (.bool b : Value κ) := by
  cases a <;> cases b <;> rfl

lemma decided_or (a b : Bool) :
    decided true (.ok (.bool a)) (.ok (.bool b)) = .ok (.bool (a || b) : Value κ) := by
  cases a <;> cases b <;> rfl

lemma eval_and_true {l r : Expr} : eval h (.bin .and l r) = .ok (.bool true) ↔
      eval h l = .ok (.bool true) ∧ eval h r = .ok (.bool true) :=
  decided_not_iff (d := false)

lemma eval_or_true {l r : Expr} : eval h (.bin .or l r) = .ok (.bool true) ↔
      eval h l = .ok (.bool true) ∨ eval h r = .ok (.bool true) :=
  decided_self_iff (d := true)

lemma eval_not_iff {e : Expr} {b : Bool} :
    eval h (.not e) = .ok (.bool b) ↔ eval h e = .ok (.bool (!b)) := by
  rw [eval, bind_eq_ok]
  constructor
  · rintro ⟨v, hv, hnot⟩
    cases v <;> cases hnot
    rw [hv, Bool.not_not]
  · intro hv
    exact ⟨_, hv, by simp [Value.not]⟩

lemma foldl_iff_forall {p : Expr → Prop} {f : Expr → Expr → Expr}
    (hf : ∀ a b, p (f a b) ↔ p a ∧ p b) (es : List Expr) (e : Expr) :
    p (es.foldl f e) ↔ ∀ x ∈ e :: es, p x := by
  induction es generalizing e with
  | nil => simp
  | cons e' es ih =>
    rw [List.foldl_cons, ih, List.forall_mem_cons, hf]
    simp [and_assoc]

lemma eval_join_and : eval h (Expr.join .and (.lit (.bool true)) es) = .ok (.bool true) ↔
      ∀ e ∈ es, eval h e = .ok (.bool true) := by
  cases es with
  | nil => simp [Expr.join, eval, Host.literal]
  | cons e es =>
    exact foldl_iff_forall (p := fun e => eval h e = .ok (.bool true)) (fun _ _ => eval_and_true) es e

lemma eval_join_or : eval h (Expr.join .or (.lit (.bool false)) es) = .ok (.bool true) ↔
      ∃ e ∈ es, eval h e = .ok (.bool true) := by
  cases es with
  | nil => simp [Expr.join, eval, Host.literal]
  | cons e es =>
    have hnone := foldl_iff_forall (p := fun e => ¬eval h e = .ok (.bool true))
      (f := .bin .or) (fun a b => by rw [eval_or_true, not_or]) es e
    simpa only [Expr.join, not_forall, not_not, exists_prop] using not_congr hnone

end Symkernel.Library.Cel
