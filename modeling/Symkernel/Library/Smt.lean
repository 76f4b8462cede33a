import Mathlib

/-!
# Bitvector terms of SMT-LIB

The terms a path condition is made of, the text each of them is written as, and their value
under an assignment of bitvectors to the declared symbols. A term that mixes sorts has no
value.
-/

namespace Symkernel.Library.Smt

inductive Op where
  | eq | distinct
  | bvslt | bvult | bvsgt | bvugt | bvsle | bvule | bvsge | bvuge
  | bvadd | bvsub | bvmul
  deriving DecidableEq, Repr

def Op.name : Op → String
  | .eq => "="
  | .distinct => "distinct"
  | .bvslt => "bvslt"
  | .bvult => "bvult"
  | .bvsgt => "bvsgt"
  | .bvugt => "bvugt"
  | .bvsle => "bvsle"
  | .bvule => "bvule"
  | .bvsge => "bvsge"
  | .bvuge => "bvuge"
  | .bvadd => "bvadd"
  | .bvsub => "bvsub"
  | .bvmul => "bvmul"

/-- A symbol carries the width it is declared with. -/
inductive Term where
  | sym (name : String) (width : Nat)
  | literal (value width : Nat)
  | bool (b : Bool)
  | app (op : Op) (a b : Term)
  | not (a : Term)
  deriving DecidableEq, Repr

def Term.render : Term → String
  | .sym name _ => name
  | .literal value width => "(_ bv" ++ toString value ++ " " ++ toString width ++ ")"
  | .bool b => toString b
  | .app op a b => "(" ++ op.name ++ " " ++ a.render ++ " " ++ b.render ++ ")"
  | .not a => "(not " ++ a.render ++ ")"

inductive Value where
  | bool (b : Bool)
  | bits {w : Nat} (v : BitVec w)
  deriving DecidableEq

def Op.onBits {w : Nat} (a b : BitVec w) : Op → Value
  | .eq => .bool (a == b)
  | .distinct => .bool (a != b)
  | .bvslt => .bool (a.slt b)
  | .bvult => .bool (a.ult b)
  | .bvsgt => .bool (b.slt a)
  | .bvugt => .bool (b.ult a)
  | .bvsle => .bool (a.sle b)
  | .bvule => .bool (a.ule b)
  | .bvsge => .bool (b.sle a)
  | .bvuge => .bool (b.ule a)
  | .bvadd => .bits (a + b)
  | .bvsub => .bits (a - b)
  | .bvmul => .bits (a * b)

def Op.onBools (a b : Bool) : Op → Option Value
  | .eq => some (.bool (a == b))
  | .distinct => some (.bool (a != b))
  | _ => none

def Op.apply (op : Op) : Value → Value → Option Value
  | .bits (w := n) a, .bits (w := m) b =>
    if h : m = n then some (op.onBits a (b.cast h)) else none
  | .bool a, .bool b => op.onBools a b
  | _, _ => none

@[simp] lemma Op.apply_bits (op : Op) {w : Nat} (a b : BitVec w) :
    op.apply (.bits a) (.bits b) = some (op.onBits a b) := by
  simp [Op.apply]

abbrev Assignment := String → (w : Nat) → BitVec w

def Term.eval (ρ : Assignment) : Term → Option Value
  | .sym name width => some (.bits (ρ name width))
  | .literal value width => some (.bits (BitVec.ofNat width value))
  | .bool b => some (.bool b)
  | .app op a b => do op.apply (← a.eval ρ) (← b.eval ρ)
  | .not a =>
    match a.eval ρ with
    | some (.bool b) => some (.bool !b)
    | _ => none

variable {ρ : Assignment}

lemma Term.eval_app {a b : Term} {w : Nat} {x y : BitVec w} (op : Op)
    (ha : a.eval ρ = some (.bits x)) (hb : b.eval ρ = some (.bits y)) :
    (Term.app op a b).eval ρ = some (op.onBits x y) := by
  simp [Term.eval, ha, hb]

lemma Term.eval_not {a : Term} {b : Bool} (ha : a.eval ρ = some (.bool b)) :
    (Term.not a).eval ρ = some (.bool !b) := by
  simp [Term.eval, ha]

def Term.holds (ρ : Assignment) (t : Term) : Bool :=
  t.eval ρ == some (.bool true)

lemma Term.holds_of_eval {t : Term} {b : Bool} (h : t.eval ρ = some (.bool b)) : t.holds ρ = b := by
  cases b <;> simp [Term.holds, h]

def Satisfiable (assertions : List Term) : Prop :=
  ∃ ρ : Assignment, assertions.all (Term.holds ρ) = true

lemma satisfiable_nil : Satisfiable [] :=
  ⟨fun _ _ => 0, rfl⟩

end Symkernel.Library.Smt
