import Symkernel.Library.Wasm.Binary
import Symkernel.Verify.Symbolic

/-!
# What a symbolic value stands for

A symbolic value represents an integer when its expression evaluates to it and a known value is
its signed reading; a boolean value represents 0 or 1.
-/

namespace Symkernel.Verify

open Library Library.Smt BitVec

variable (ρ : Assignment)

structure IsInt (v : SymbolicValue) {w : Nat} (b : BitVec w) : Prop where
  boolean : v.boolean = false
  bits : v.bits = w
  expr : v.expr.eval ρ = some (.bits b)
  known : ∀ k, v.known = some k → k = b.signExtend 64

structure IsBool (v : SymbolicValue) (c : Bool) : Prop where
  boolean : v.boolean = true
  bits : v.bits = 0
  expr : v.expr.eval ρ = some (.bool c)
  known : ∀ k, v.known = some k → k = if c then 1 else 0

inductive Represents (v : SymbolicValue) : Wasm.Value → Prop where
  | int (t : Wasm.IntType) {b : BitVec t.width} : IsInt ρ v b → Represents v (t.value b)
  | bool {c : Bool} : IsBool ρ v c → Represents v (.ofBool c)

variable {ρ}

variable {w : Nat}

lemma wrapSigned_eq (hw : w = 32 ∨ w = 64) (v : BitVec 64) :
    wrapSigned v w = (v.setWidth w).signExtend 64 := by
  obtain rfl | rfl := hw
  · rfl
  · simp [wrapSigned]

lemma typedConstant_isInt (hw : w = 32 ∨ w = 64) (v : BitVec 64) :
    IsInt ρ (typedConstant v w) (v.setWidth w) := by
  have hle : w ≤ 64 := by omega
  refine ⟨rfl, rfl, ?_, ?_⟩
  · simp only [typedConstant, wrapSigned_eq hw, Term.eval, toNat_unsignedWord _ hle,
      ofNat_toNat, setWidth_eq]
  · intro k hk
    simp only [typedConstant, wrapSigned_eq hw, Option.some.injEq] at hk
    exact hk.symm

lemma boolValue_isBool {expr : Term} {c : Bool} {known : Option Bool}
    (hexpr : expr.eval ρ = some (.bool c)) (hknown : ∀ b, known = some b → b = c) :
    IsBool ρ (boolValue expr known) c := by
  cases known with
  | none => exact ⟨rfl, rfl, hexpr, nofun⟩
  | some b =>
    obtain rfl := hknown b rfl
    refine ⟨rfl, rfl, rfl, ?_⟩
    intro k hk
    exact (Option.some.inj hk).symm

lemma signExtend_eq_zero (hw : w ≤ 64) (b : BitVec w) : (b.signExtend 64 == 0) = (b == 0) := by
  have hzero : (0 : BitVec 64) = (0 : BitVec w).signExtend 64 := by
    apply eq_of_toInt_eq
    rw [toInt_signExtend_of_le hw]
    simp
  rw [hzero, beq_signExtend b 0 hw]

variable {v x y : SymbolicValue}

lemma IsInt.eqz (hw : w ≤ 64) {b : BitVec w} (h : IsInt ρ v b) :
    IsBool ρ (boolValue (.app .eq v.expr v.zeroExpr) (v.known.map (fun k => k == 0))) (b == 0) := by
  refine boolValue_isBool ?_ ?_
  · have hzero : v.zeroExpr.eval ρ = some (.bits (0 : BitVec w)) := by
      simp [SymbolicValue.zeroExpr, Term.eval, h.bits]
    rw [Term.eval_app .eq h.expr hzero]
    rfl
  · intro c hc
    rw [Option.map_eq_some_iff] at hc
    obtain ⟨k, hk, rfl⟩ := hc
    rw [h.known k hk, signExtend_eq_zero hw]

lemma condition_of_known {k : BitVec 64} (hk : v.known = some k) :
    v.condition.eval ρ = some (.bool (k != 0)) := by
  have hcond : v.condition = if k = 0 then .bool false else .bool true := by
    unfold SymbolicValue.condition
    cases v.boolean <;> simp [hk]
  rw [hcond]
  by_cases h0 : k = 0
  · rw [if_pos h0, h0]
    rfl
  · rw [if_neg h0, bne_iff_ne.mpr h0]
    rfl

lemma IsInt.condition (hw : w ≤ 64) {b : BitVec w} (h : IsInt ρ v b) :
    v.condition.eval ρ = some (.bool (b != 0)) := by
  cases hk : v.known with
  | none =>
    have hcond : v.condition = .not (.app .eq v.expr v.zeroExpr) := by
      simp [SymbolicValue.condition, h.boolean, hk]
    have heqz := (h.eqz hw).expr
    simp only [hk, Option.map_none, boolValue] at heqz
    rw [hcond, Term.eval_not heqz]
    rfl
  | some k => rw [condition_of_known hk, h.known k hk, bne, signExtend_eq_zero hw, bne]

lemma IsBool.condition {c : Bool} (h : IsBool ρ v c) : v.condition.eval ρ = some (.bool c) := by
  cases hk : v.known with
  | none =>
    have hcond : v.condition = v.expr := by
      simp [SymbolicValue.condition, h.boolean, hk]
    rw [hcond, h.expr]
  | some k =>
    rw [condition_of_known hk, h.known k hk]
    cases c <;> rfl

variable {t : Wasm.IntType}

lemma Represents.isInt {b : BitVec t.width} (h : Represents ρ v (t.value b)) (hbits : v.bits ≠ 0) :
    IsInt ρ v b := by
  generalize hx : t.value b = x at h
  cases h with
  | int t' h =>
    have ht : t = t' := by
      rw [← Wasm.type_value t b, hx, Wasm.type_value]
    subst ht
    have hb := congrArg (fun y => Wasm.popInt t [y]) hx
    simp only [Wasm.popInt_value, Option.some.injEq, Prod.mk.injEq, and_true] at hb
    exact hb ▸ h
  | bool h => exact absurd h.bits hbits

lemma Represents.condition {b : BitVec 32} (h : Represents ρ v (.i32 b)) :
    v.condition.eval ρ = some (.bool (b != 0)) := by
  generalize hx : Wasm.Value.i32 b = x at h
  cases h with
  | int t h =>
    cases t with
    | i32 =>
      cases hx
      exact h.condition (Nat.le_of_ble_eq_true rfl)
    | i64 => cases hx
  | @bool c h =>
    cases hx
    rw [h.condition]
    cases c <;> rfl

lemma width_eq (t : Wasm.IntType) : t.width = 32 ∨ t.width = 64 := by
  cases t
  · exact Or.inl rfl
  · exact Or.inr rfl

lemma width_le (t : Wasm.IntType) : t.width ≤ 64 := by
  cases t <;> decide

def smtRel : Wasm.RelOp → Op
  | .eq => .eq
  | .ne => .distinct
  | .ltS => .bvslt
  | .ltU => .bvult
  | .gtS => .bvsgt
  | .gtU => .bvugt
  | .leS => .bvsle
  | .leU => .bvule
  | .geS => .bvsge
  | .geU => .bvuge

lemma onBits_smtRel (a b : BitVec w) (op : Wasm.RelOp) :
    (smtRel op).onBits a b = .bool (op.eval a b) := by
  cases op <;> rfl

variable {o : UInt8} {op : Wasm.RelOp}

lemma comparisonOperator_of_rel (h : Wasm.relOpcode o = some (t, op)) :
    comparisonOperator o = some (smtRel op) := by
  unfold Wasm.relOpcode at h
  split at h <;> cases h <;> rfl

lemma compare_of_rel (h : Wasm.relOpcode o = some (t, op)) (hw : w ≤ 64) (a b : BitVec w) :
    compare o (a.signExtend 64) (b.signExtend 64) w = op.eval a b := by
  unfold Wasm.relOpcode at h
  split at h <;> cases h <;> simp only [compare, slt_signExtend a b hw, slt_signExtend b a hw,
      sle_signExtend a b hw, sle_signExtend b a hw, ult_unsignedWord a b hw,
      ult_unsignedWord b a hw, ule_unsignedWord a b hw, ule_unsignedWord b a hw, bne,
      beq_signExtend a b hw] <;>
    rfl

lemma IsInt.compare (hw : w ≤ 64) {a b : BitVec w} (hx : IsInt ρ x a) (hy : IsInt ρ y b)
    (h : Wasm.relOpcode o = some (t, op)) : IsBool ρ (boolValue (.app (smtRel op) x.expr y.expr)
      (match x.known, y.known with
        | some k, some l => some (Verify.compare o k l x.bits)
        | _, _ => none)) (op.eval a b) := by
  refine boolValue_isBool ?_ ?_
  · rw [Term.eval_app _ hx.expr hy.expr, onBits_smtRel]
  · intro c hc
    split at hc
    · rename_i k l hk hl
      rw [Option.some.injEq] at hc
      rw [← hc, hx.known k hk, hy.known l hl, hx.bits, compare_of_rel h hw]
    · cases hc

def smtBin : Wasm.BinOp → Op
  | .add => .bvadd
  | .sub => .bvsub
  | .mul => .bvmul

lemma onBits_smtBin (a b : BitVec w) (op : Wasm.BinOp) :
    (smtBin op).onBits a b = .bits (op.eval a b) := by
  cases op <;> rfl

lemma arithmetic_of_bin {op : Wasm.BinOp} (h : Wasm.binOpcode o = some (t, op)) :
    arithmeticWidth o = some t.width ∧ arithmeticOperator o = smtBin op := by
  unfold Wasm.binOpcode at h
  split at h <;> cases h <;> exact ⟨rfl, rfl⟩

lemma setWidth_binOp (hw : w ≤ 64) (a b : BitVec w) (op : Wasm.BinOp) :
    (op.eval (a.signExtend 64) (b.signExtend 64)).setWidth w = op.eval a b := by
  cases op with
  | add => rw [Wasm.BinOp.eval, setWidth_add _ _ hw, setWidth_signExtend a hw,
      setWidth_signExtend b hw, Wasm.BinOp.eval]
  | sub => rw [Wasm.BinOp.eval, setWidth_sub _ _ hw, setWidth_signExtend a hw,
      setWidth_signExtend b hw, Wasm.BinOp.eval]
  | mul => rw [Wasm.BinOp.eval, setWidth_mul _ _ hw, setWidth_signExtend a hw,
      setWidth_signExtend b hw, Wasm.BinOp.eval]

lemma wrappedArithmetic_of_bin {op : Wasm.BinOp} (h : Wasm.binOpcode o = some (t, op))
    (hw : w = 32 ∨ w = 64) (x y : BitVec 64) :
    (wrappedArithmetic x y o w).setWidth w = (op.eval x y).setWidth w := by
  have hwrap : wrappedArithmetic x y o w = wrapSigned (op.eval x y) w := by
    unfold Wasm.binOpcode at h
    split at h <;> cases h <;> rfl
  rw [hwrap, wrapSigned_eq hw, setWidth_signExtend _ (by omega)]

lemma IsInt.arithmetic (hw : w = 32 ∨ w = 64) {a b : BitVec w} (hx : IsInt ρ x a)
    (hy : IsInt ρ y b) {op : Wasm.BinOp} (h : Wasm.binOpcode o = some (t, op)) :
    IsInt ρ (match x.known, y.known with
        | some k, some l => typedConstant (wrappedArithmetic k l o x.bits) x.bits
        | _, _ => { expr := .app (arithmeticOperator o) x.expr y.expr, known := none
                    boolean := false, bits := x.bits }) (op.eval a b) := by
  split
  · rename_i k l hk hl
    have hconst := typedConstant_isInt (ρ := ρ) hw (wrappedArithmetic k l o w)
    have hvalue : (op.eval k l).setWidth w = op.eval a b := by
      rw [hx.known k hk, hy.known l hl, setWidth_binOp (by omega)]
    rw [wrappedArithmetic_of_bin h hw, hvalue] at hconst
    rw [hx.bits]
    exact hconst
  · refine ⟨rfl, hx.bits, ?_, nofun⟩
    rw [(arithmetic_of_bin h).2, Term.eval_app _ hx.expr hy.expr, onBits_smtBin]

end Symkernel.Verify
