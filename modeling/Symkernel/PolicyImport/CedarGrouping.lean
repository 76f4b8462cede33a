import Symkernel.PolicyImport.CedarTree
import Symkernel.Library.Cel.Grouping

/-!
# When the text of a Cedar expression means what the expression means
-/

namespace Symkernel.PolicyImport.Cedar

open Library Library.Cel

def Node.shape : Node → Shape
  | .not _ => .unary
  | .negate _ => .unary
  | .is .. => .relation
  | _ => .member

mutual

/-- No operand regroups in the text of the node. -/
def grouped : Node → Bool
  | .access arg _ => grouped arg && arg.shape == .member
  | .has arg _ => grouped arg && arg.shape == .member
  | .binary op left right =>
    grouped left && grouped right && groups op.celOp left.shape right.shape
  | .not arg => grouped arg
  | .negate arg => grouped arg
  | .isIn left right => grouped left && grouped right && right.shape == .member
  | .method _ left right => grouped left && left.shape == .member && grouped right
  | .ifThenElse c t e => grouped c && grouped t && grouped e
  | .set elements => groupedAll elements
  | .record elements => groupedFields elements
  | .is left _ => grouped left && left.shape == .member
  | _ => true

def groupedAll : List Node → Bool
  | [] => true
  | n :: ns => grouped n && groupedAll ns

def groupedFields : List (String × Node) → Bool
  | [] => true
  | (_, n) :: ns => grouped n && groupedFields ns

end

variable (isPrint : Char → Bool)

lemma shape_equate (sp : Spine) (e : Expr) : (sp.equate e).shape = .relation := by
  cases sp <;> rfl

lemma nodeSpine_shape (n : Node) (h : grouped n = true) :
    (nodeSpine isPrint n).shape = n.shape := by
  cases n with
  | access arg attr =>
    simp only [grouped, Bool.and_eq_true, beq_iff_eq] at h
    rw [nodeSpine, shape_extend, nodeSpine_shape arg h.1, h.2]
    rfl
  | method m left right =>
    simp only [grouped, Bool.and_eq_true, beq_iff_eq] at h
    rw [nodeSpine, shape_extend, nodeSpine_shape left h.1.1, h.1.2]
    rfl
  | is left type => rw [nodeSpine, shape_equate, Node.shape]
  | _ => rfl

lemma nodeSpine_last (n : Node) (first : Expr) (mids : List Expr) (last : Expr)
    (h : nodeSpine isPrint n = .relation first mids last) : last ≠ nodeTree isPrint n := by
  cases n with
  | access arg attr =>
    cases hs : nodeSpine isPrint arg with
    | relation f ms m =>
      rw [nodeSpine, hs] at h
      cases h
      have hm := nodeSpine_last arg _ _ _ hs
      simpa [nodeTree] using hm
    | _ => simp [nodeSpine, hs, Spine.extend] at h
  | method m left right =>
    cases hs : nodeSpine isPrint left with
    | relation f ms m =>
      rw [nodeSpine, hs] at h
      cases h
      have hm := nodeSpine_last left _ _ _ hs
      simp [nodeTree, hm]
    | _ => simp [nodeSpine, hs, Spine.extend] at h
  | is left type =>
    have hlast : last = .lit (.string type) := by
      cases hs : nodeSpine isPrint left <;> simp_all [nodeSpine, Spine.extend, Spine.equate]
    simp [nodeTree, hlast]
  | _ => simp [nodeSpine] at h

variable {f : String}

lemma select_eq_iff {sp : Spine} {e : Expr} :
    (sp.extend (.select · f)).expr = .select e f ↔ sp.expr = e ∧ sp.shape = .member := by
  cases sp with
  | member => simp [Spine.extend, Spine.expr, Spine.shape]
  | unary neg => cases neg <;> simp [Spine.extend, Spine.expr, Spine.shape]
  | relation => simp [Spine.extend, Spine.expr, Spine.shape]

lemma method_eq_iff {sp : Spine} {e : Expr} {args args' : List Expr} :
    (sp.extend (fun e => .method e f args)).expr = .method e f args' ↔
      sp.expr = e ∧ sp.shape = .member ∧ args = args' := by
  cases sp with
  | member => simp [Spine.extend, Spine.expr, Spine.shape]
  | unary neg => cases neg <;> simp [Spine.extend, Spine.expr, Spine.shape]
  | relation => simp [Spine.extend, Spine.expr, Spine.shape]

lemma equate_eq_iff {sp : Spine} {e lit : Expr} :
    ((sp.extend (.select · f)).equate lit).expr = .bin .eq (.select e f) lit ↔
      sp.expr = e ∧ sp.shape = .member := by
  cases sp with
  | member => simp [Spine.extend, Spine.equate, Spine.expr, Spine.shape]
  | unary neg => cases neg <;> simp [Spine.extend, Spine.equate, Spine.expr, Spine.shape]
  | relation => simp [Spine.extend, Spine.equate, Spine.expr, Spine.shape]

lemma in_eq_iff {sl sr : Spine} {a b : Expr} :
    sl.chain [(.eq, sr), (.or, sl), (.isIn, sr.extend (.select · f))] =
        .bin .or (.bin .eq a b) (.bin .isIn a (.select b f)) ↔
      sl.expr = a ∧ sr.expr = b ∧ sr.shape = .member := by
  rcases sl with x | ⟨_ | _, x⟩ | ⟨x, xs, x'⟩ <;> rcases sr with y | ⟨_ | _, y⟩ | ⟨y, ys, y'⟩ <;>
    simp +contextual [Spine.chain, chainFrom, Spine.push, reduce, BinOp.prec, Spine.extend,
      Spine.expr, Spine.shape, ← and_assoc]

lemma nodeFieldSpines_keys (ns : List (String × Node)) :
    (nodeFieldSpines isPrint ns).map Prod.fst = ns.map (fun f => .lit (.string f.1)) := by
  induction ns with
  | nil => rfl
  | cons f ns ih =>
    obtain ⟨k, n⟩ := f
    simp [nodeFieldSpines, ih]

mutual

/-- The text of a node is read as its tree just if nothing in it regroups. -/
theorem nodeSpine_expr_iff (n : Node) :
    (nodeSpine isPrint n).expr = nodeTree isPrint n ↔ grouped n = true := by
  have hmember : ∀ m : Node, ((nodeSpine isPrint m).expr = nodeTree isPrint m ↔ grouped m = true) →
      ((nodeSpine isPrint m).expr = nodeTree isPrint m ∧ (nodeSpine isPrint m).shape = .member ↔
        grouped m = true ∧ m.shape = .member) := by
    intro m hm
    rw [hm]
    refine and_congr_right (fun hg => ?_)
    rw [nodeSpine_shape isPrint m hg]
  cases n with
  | access arg attr =>
    rw [nodeSpine, nodeTree, select_eq_iff, hmember arg (nodeSpine_expr_iff arg)]
    simp [grouped]
  | has arg attr =>
    rw [nodeSpine, nodeTree, Spine.expr, Expr.call.injEq]
    simp only [List.cons.injEq]
    rw [select_eq_iff, hmember arg (nodeSpine_expr_iff arg)]
    simp [grouped]
  | binary op left right =>
    rw [nodeSpine, nodeTree, Spine.expr, chain_single_eq_iff (nodeSpine_last isPrint right),
      nodeSpine_expr_iff left, nodeSpine_expr_iff right, grouped, Bool.and_eq_true,
      Bool.and_eq_true, and_assoc]
    refine and_congr_right (fun hl => and_congr_right (fun hr => ?_))
    rw [nodeSpine_shape isPrint left hl, nodeSpine_shape isPrint right hr]
  | not arg =>
    simpa [nodeSpine, nodeTree, Spine.expr, grouped] using nodeSpine_expr_iff arg
  | negate arg =>
    simpa [nodeSpine, nodeTree, Spine.expr, grouped] using nodeSpine_expr_iff arg
  | isIn left right =>
    rw [nodeSpine, nodeTree, Spine.expr, in_eq_iff, nodeSpine_expr_iff left,
      hmember right (nodeSpine_expr_iff right)]
    simp [grouped, and_assoc]
  | method m left right =>
    rw [nodeSpine, nodeTree, method_eq_iff, ← and_assoc, hmember left (nodeSpine_expr_iff left)]
    simp [grouped, nodeSpine_expr_iff right]
  | ifThenElse c t e =>
    rw [nodeSpine, nodeTree, Spine.expr, Expr.cond.injEq, nodeSpine_expr_iff c,
      nodeSpine_expr_iff t, nodeSpine_expr_iff e]
    simp [grouped, and_assoc]
  | set elements =>
    rw [nodeSpine, nodeTree, Spine.expr, Expr.list.injEq, nodeSpines_expr_iff elements, grouped]
  | record elements =>
    rw [nodeSpine, nodeTree, Spine.expr, Expr.map.injEq, nodeFieldSpines_keys,
      nodeFieldSpines_expr_iff elements, grouped]
    simp
  | is left type =>
    rw [nodeSpine, nodeTree, equate_eq_iff, hmember left (nodeSpine_expr_iff left)]
    simp [grouped]
  | _ => simp [nodeSpine, nodeTree, Spine.expr, grouped]

theorem nodeSpines_expr_iff (ns : List Node) :
    (nodeSpines isPrint ns).map Spine.expr = nodeTrees isPrint ns ↔ groupedAll ns = true := by
  cases ns with
  | nil => simp [nodeSpines, nodeTrees, groupedAll]
  | cons n ns =>
    rw [nodeSpines, nodeTrees, List.map_cons, List.cons.injEq, nodeSpine_expr_iff n,
      nodeSpines_expr_iff ns, groupedAll, Bool.and_eq_true]

theorem nodeFieldSpines_expr_iff (ns : List (String × Node)) :
    (nodeFieldSpines isPrint ns).map (fun f => f.2.expr) = nodeFieldTrees isPrint ns ↔
      groupedFields ns = true := by
  cases ns with
  | nil => simp [nodeFieldSpines, nodeFieldTrees, groupedFields]
  | cons f ns =>
    obtain ⟨k, n⟩ := f
    rw [nodeFieldSpines, nodeFieldTrees, List.map_cons, List.cons.injEq, nodeSpine_expr_iff n,
      nodeFieldSpines_expr_iff ns, groupedFields, Bool.and_eq_true]

end

mutual

lemma namesOk_of_inRange (n : Node) (h : (nodeTree isPrint n).inRange = true) :
    namesOk n = true := by
  cases n with
  | access arg attr =>
    simp only [nodeTree, Expr.inRange, Bool.and_eq_true] at h
    simp [namesOk, namesOk_of_inRange arg h.1, h.2]
  | has arg attr =>
    simp only [nodeTree, Expr.inRange, inRangeAll, Bool.and_eq_true] at h
    simp [namesOk, namesOk_of_inRange arg h.1.1, h.1.2]
  | binary op left right =>
    simp only [nodeTree, Expr.inRange, Bool.and_eq_true] at h
    simp [namesOk, namesOk_of_inRange left h.1, namesOk_of_inRange right h.2]
  | not arg => exact namesOk_of_inRange arg (by simpa [nodeTree, Expr.inRange] using h)
  | negate arg => exact namesOk_of_inRange arg (by simpa [nodeTree, Expr.inRange] using h)
  | isIn left right =>
    simp only [nodeTree, Expr.inRange, Bool.and_eq_true] at h
    simp [namesOk, namesOk_of_inRange left h.1.1, namesOk_of_inRange right h.1.2]
  | method m left right =>
    simp only [nodeTree, Expr.inRange, inRangeAll, Bool.and_eq_true] at h
    simp [namesOk, namesOk_of_inRange left h.1, namesOk_of_inRange right h.2.1]
  | ifThenElse c t e =>
    simp only [nodeTree, Expr.inRange, Bool.and_eq_true] at h
    simp [namesOk, namesOk_of_inRange c h.1.1, namesOk_of_inRange t h.1.2, namesOk_of_inRange e h.2]
  | set elements =>
    exact namesOkAll_of_inRange elements (by simpa [nodeTree, Expr.inRange] using h)
  | record elements =>
    simp only [nodeTree, Expr.inRange, Bool.and_eq_true] at h
    exact namesOkFields_of_inRange elements h.2
  | is left type =>
    simp only [nodeTree, Expr.inRange, Bool.and_eq_true] at h
    exact namesOk_of_inRange left h.1.1
  | _ => rfl

lemma namesOkAll_of_inRange (ns : List Node) (h : inRangeAll (nodeTrees isPrint ns) = true) :
    namesOkAll ns = true := by
  cases ns with
  | nil => rfl
  | cons n ns =>
    simp only [nodeTrees, inRangeAll, Bool.and_eq_true] at h
    simp [namesOkAll, namesOk_of_inRange n h.1, namesOkAll_of_inRange ns h.2]

lemma namesOkFields_of_inRange (ns : List (String × Node))
    (h : inRangeAll (nodeFieldTrees isPrint ns) = true) : namesOkFields ns = true := by
  cases ns with
  | nil => rfl
  | cons f ns =>
    obtain ⟨k, n⟩ := f
    simp only [nodeFieldTrees, inRangeAll, Bool.and_eq_true] at h
    simp [namesOkFields, namesOk_of_inRange n h.1, namesOkFields_of_inRange ns h.2]

end

end Symkernel.PolicyImport.Cedar
