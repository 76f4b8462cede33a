import Symkernel.Library.Cel.Range
import Symkernel.Library.Cel.Reading

/-!
# How operators group
-/

namespace Symkernel.Library.Cel

open Spine

variable {op : BinOp} {sl sr : Spine} {a b : Expr}

/-- What an operand is for the parser: a member, a negation or sign in front of one, or an
equation. -/
inductive Shape where
  | member
  | unary
  | relation
  deriving DecidableEq

def Spine.shape : Spine → Shape
  | .member _ => .member
  | .unary .. => .unary
  | .relation .. => .relation

lemma shape_extend (f : Expr → Expr) (sp : Spine) : (sp.extend f).shape = sp.shape := by
  cases sp <;> rfl

/-- Operands of these shapes stay the operands of the operator. -/
def groups (op : BinOp) (l r : Shape) : Bool :=
  decide (op.prec < 3) || (r != .relation && (decide (op.prec = 3) || l != .relation))

lemma chain_single (hop : op.prec ≤ 3) : sl.chain [(op, sr)] =
      (reduce 0 (sr.push [.bin op sl.expr]).1 (sr.push [.bin op sl.expr]).2).2 := by
  have hempty : Bounded [] = true := rfl
  simp only [chain, chainFrom, reduce_push sl hempty hop, reduce]

lemma chain_single_tight (hop : 3 < op.prec) : sl.chain [(op, sr)] =
      match sl, sr with
      | .relation f ms m, .relation f' ms' m' =>
        .bin .eq (ms'.foldl (.bin .eq) (.bin .eq (ms.foldl (.bin .eq) f) (.bin op m f'))) m'
      | .relation f ms m, sr => .bin .eq (ms.foldl (.bin .eq) f) (.bin op m sr.expr)
      | sl, .relation f' ms' m' => .bin .eq (ms'.foldl (.bin .eq) (.bin op sl.expr f')) m'
      | sl, sr => .bin op sl.expr sr.expr := by
  have hloose : ¬ op.prec ≤ 3 := by omega
  have hclose : 3 ≤ op.prec := by omega
  cases sl with
  | member e =>
    cases sr with
    | member => rfl
    | unary neg => cases neg <;> rfl
    | relation => simp [chain, chainFrom, push, reduce, hclose, expr]
  | unary neg e =>
    cases sr with
    | member => cases neg <;> rfl
    | unary neg' => cases neg <;> cases neg' <;> rfl
    | relation => cases neg <;> simp [chain, chainFrom, push, reduce, hclose, expr]
  | relation f ms m =>
    have heq : BinOp.eq.prec = 3 := rfl
    cases sr with
    | member => simp [chain, chainFrom, push, reduce, expr, heq, hloose]
    | unary neg => cases neg <;> simp [chain, chainFrom, push, reduce, expr, heq, hloose]
    | relation =>
      simp [chain, chainFrom, push, reduce, heq, hloose, hclose]

/-- An operation is read as written just if its operands are and group as operands. A relation
at the right end must not end in what is expected as a whole. -/
lemma chain_single_eq_iff (hlast : ∀ f ms m, sr = .relation f ms m → m ≠ b) :
    sl.chain [(op, sr)] = .bin op a b ↔ sl.expr = a ∧ sr.expr = b ∧ groups op sl.shape sr.shape = true := by
  by_cases htight : 3 < op.prec
  · rw [chain_single_tight htight]
    have hne : BinOp.eq ≠ op := by
      rintro rfl
      exact absurd htight (by decide)
    have hlow : ¬ op.prec < 3 := by omega
    have hthree : op.prec ≠ 3 := by omega
    cases sl <;> cases sr <;> simp [groups, shape, hne, hlow, hthree]
  · rw [chain_single (by omega)]
    by_cases hthree : op.prec = 3
    · cases sr with
      | member e => simp [push, reduce, groups, shape, hthree, expr]
      | unary neg e => cases neg <;> simp [push, reduce, groups, shape, hthree, expr]
      | relation f ms m =>
        have hm := hlast f ms m rfl
        simp [push, reduce, groups, shape, hthree, hm]
    · have hlow : op.prec < 3 := by omega
      have hloose : ¬ 3 ≤ op.prec := by omega
      cases sr with
      | member e => simp [push, reduce, groups, hlow, expr]
      | unary neg e => cases neg <;> simp [push, reduce, groups, hlow, expr]
      | relation f ms m => simp [push, reduce, groups, hlow, hloose, expr]

def Expr.join (op : BinOp) (unit : Expr) : List Expr → Expr
  | [] => unit
  | e :: es => es.foldl (.bin op) e

variable {op : BinOp}

lemma reduce_push_loose (hop : op.prec < 3) (l : Expr) (sp : Spine) {p : Nat} (hp : p ≤ op.prec) :
    reduce p (sp.push [.bin op l]).1 (sp.push [.bin op l]).2 = ([], .bin op l sp.expr) := by
  have hloose : ¬ 3 ≤ op.prec := by omega
  have hthree : p ≤ BinOp.eq.prec := by
    have heq : BinOp.eq.prec = 3 := rfl
    omega
  cases sp with
  | member => simp [push, reduce, hp, expr]
  | unary neg => cases neg <;> simp [push, reduce, hp, expr]
  | relation => simp [push, reduce, hp, hloose, hthree, expr]

lemma chainFrom_loose (hop : op.prec < 3) (l : Expr) (sp : Spine) (sps : List Spine) :
    let q := chainFrom (sp.push [.bin op l]) (sps.map (fun s => (op, s)))
    (reduce 0 q.1 q.2).2 = (sps.map Spine.expr).foldl (.bin op) (.bin op l sp.expr) := by
  induction sps generalizing l sp with
  | nil =>
    simp only [List.map_nil, chainFrom, reduce_push_loose hop l sp (Nat.zero_le _)]
    rfl
  | cons s sps ih =>
    simp only [List.map_cons, chainFrom, reduce_push_loose hop l sp (Nat.le_refl _)]
    exact ih _ s

/-- The operands of a conjunction or a disjunction are grouped from the left. -/
lemma chain_loose (hop : op.prec < 3) (unit : Expr) (sp : Spine) (sps : List Spine) :
    sp.chain (sps.map (fun s => (op, s))) = Expr.join op unit ((sp :: sps).map Spine.expr) := by
  have hempty : Bounded [] = true := rfl
  have hthree : op.prec ≤ 3 := by omega
  cases sps with
  | nil =>
    simp only [List.map_nil, chain, chainFrom, reduce_push sp hempty (Nat.zero_le 3)]
    rfl
  | cons s sps =>
    simp only [chain, List.map_cons, chainFrom, reduce_push sp hempty hthree]
    exact chainFrom_loose hop sp.expr s sps

lemma intercalate_eq_chainText (op : BinOp) (text : List Char) (texts : List (List Char)) :
    List.intercalate (' ' :: (op.symbol ++ [' '])) (text :: texts) =
      text ++ chainText (texts.map (fun t => (op, t))) := by
  induction texts generalizing text with
  | nil => simp [chainText]
  | cons t texts ih =>
    rw [List.intercalate_cons_cons, ih]
    simp [chainText]

lemma forall₂_operator (op : BinOp) {texts : List (List Char)} {sps : List Spine}
    (h : List.Forall₂ Reads texts sps) :
    List.Forall₂ (fun t s => t.1 = s.1 ∧ Reads t.2 s.2) (texts.map (fun t => (op, t)))
      (sps.map (fun s => (op, s))) := by
  induction h with
  | nil => exact .nil
  | cons hfirst _ ih => exact .cons ⟨rfl, hfirst⟩ ih

variable {es es' : List Expr}

lemma foldl_bin_inj (hlen : es.length = es'.length) {e e' : Expr} :
    es.foldl (.bin op) e = es'.foldl (.bin op) e' ↔ e = e' ∧ es = es' := by
  induction es generalizing es' e e' with
  | nil =>
    cases es' with
    | nil => simp
    | cons => cases hlen
  | cons x es ih =>
    cases es' with
    | nil => cases hlen
    | cons x' es' =>
      rw [List.foldl_cons, List.foldl_cons, ih (by simpa using hlen)]
      simp [and_assoc]

lemma join_inj {unit : Expr} (hlen : es.length = es'.length) :
    Expr.join op unit es = Expr.join op unit es' ↔ es = es' := by
  cases es with
  | nil =>
    cases es' with
    | nil => simp
    | cons => cases hlen
  | cons e es =>
    cases es' with
    | nil => cases hlen
    | cons e' es' =>
      rw [Expr.join, Expr.join, foldl_bin_inj (by simpa using hlen)]
      simp

lemma inRange_foldl {e : Expr} :
    (es.foldl (.bin op) e).inRange = (e.inRange && es.all Expr.inRange) := by
  induction es generalizing e with
  | nil => simp
  | cons x es ih =>
    rw [List.foldl_cons, ih]
    simp [Expr.inRange, Bool.and_assoc]

lemma inRange_join {unit : Expr} (hunit : unit.inRange = true) (es : List Expr) :
    (Expr.join op unit es).inRange = es.all Expr.inRange := by
  cases es with
  | nil => simpa [Expr.join] using hunit
  | cons e es => rw [Expr.join, inRange_foldl, List.all_cons]

end Symkernel.Library.Cel
