import Mathlib

/-!
# The integer core of WebAssembly

Syntax, validation and execution of the loop-free integer fragment: locals, constants,
comparisons, wrap-around arithmetic and structured conditionals. Every other instruction is
part of the syntax; execution stops in front of it and says so. Validation gives such
instructions every type, so whatever is valid WebAssembly is valid here.

Stacks are written with the top first. A configuration counts the instructions executed.
-/

namespace Symkernel.Library.Wasm

inductive IntType where
  | i32 | i64
  deriving DecidableEq, Repr

def IntType.width : IntType → Nat
  | .i32 => 32
  | .i64 => 64

inductive Value where
  | i32 (v : BitVec 32)
  | i64 (v : BitVec 64)
  deriving DecidableEq

def Value.type : Value → IntType
  | .i32 _ => .i32
  | .i64 _ => .i64

def IntType.value : (t : IntType) → BitVec t.width → Value
  | .i32, v => .i32 v
  | .i64, v => .i64 v

def Value.ofBool (b : Bool) : Value :=
  .i32 (if b then 1 else 0)

/-- The types of locals and operands. Types other than the integers are kept as they are
encoded; no value of the fragment has one. -/
inductive ValType where
  | int (t : IntType)
  | other (code : UInt8)
  deriving DecidableEq, Repr

def Value.valType (v : Value) : ValType :=
  .int v.type

inductive RelOp where
  | eq | ne | ltS | ltU | gtS | gtU | leS | leU | geS | geU
  deriving DecidableEq, Repr

def RelOp.eval {w : Nat} (a b : BitVec w) : RelOp → Bool
  | .eq => a == b
  | .ne => a != b
  | .ltS => a.slt b
  | .ltU => a.ult b
  | .gtS => b.slt a
  | .gtU => b.ult a
  | .leS => a.sle b
  | .leU => a.ule b
  | .geS => b.sle a
  | .geU => b.ule a

inductive BinOp where
  | add | sub | mul
  deriving DecidableEq, Repr

def BinOp.eval {w : Nat} (a b : BitVec w) : BinOp → BitVec w
  | .add => a + b
  | .sub => a - b
  | .mul => a * b

/-- Block types and the immediates of instructions outside the fragment are kept in their
encoded form. `block` stands for `block` and `loop`. -/
inductive Instr where
  | localGet (x : Nat)
  | localSet (x : Nat)
  | localTee (x : Nat)
  | i32Const (v : BitVec 32)
  | i64Const (v : BitVec 64)
  | eqz (t : IntType)
  | rel (t : IntType) (op : RelOp)
  | bin (t : IntType) (op : BinOp)
  | drop
  | ite (blockType : List UInt8) (thn els : List Instr)
  | block (opcode : UInt8) (blockType : List UInt8) (body : List Instr)
  | foreign (opcode : UInt8) (immediate : List UInt8)

structure Config where
  locals : List Value
  stack : List Value
  steps : Nat
  deriving DecidableEq

/-! ### Execution -/

def popInt : (t : IntType) → List Value → Option (BitVec t.width × List Value)
  | .i32, .i32 v :: stack => some (v, stack)
  | .i64, .i64 v :: stack => some (v, stack)
  | _, _ => none

@[simp] lemma popInt_value (t : IntType) (v : BitVec t.width) (stack : List Value) :
    popInt t (t.value v :: stack) = some (v, stack) := by
  cases t <;> rfl

variable {t : IntType} {stack locals stack' locals' : List Value}

lemma popInt_eq_some {rest : List Value} {v : BitVec t.width}
    (h : popInt t stack = some (v, rest)) : stack = t.value v :: rest := by
  unfold popInt at h
  split at h <;> cases h <;> rfl

def Instr.basic : Instr → List Value → List Value → Option (List Value × List Value)
  | .localGet x, locals, stack => (locals[x]?).map (fun v => (locals, v :: stack))
  | .localSet x, locals, v :: stack =>
    if x < locals.length then some (locals.set x v, stack) else none
  | .localTee x, locals, v :: stack =>
    if x < locals.length then some (locals.set x v, v :: stack) else none
  | .i32Const v, locals, stack => some (locals, .i32 v :: stack)
  | .i64Const v, locals, stack => some (locals, .i64 v :: stack)
  | .eqz t, locals, stack => do
    let (v, stack) ← popInt t stack
    some (locals, .ofBool (v == 0) :: stack)
  | .rel t op, locals, stack => do
    let (b, stack) ← popInt t stack
    let (a, stack) ← popInt t stack
    some (locals, .ofBool (op.eval a b) :: stack)
  | .bin t op, locals, stack => do
    let (b, stack) ← popInt t stack
    let (a, stack) ← popInt t stack
    some (locals, t.value (op.eval a b) :: stack)
  | .drop, locals, _ :: stack => some (locals, stack)
  | _, _, _ => none

lemma basic_eqz (t : IntType) (v : BitVec t.width) (locals stack : List Value) :
    (Instr.eqz t).basic locals (t.value v :: stack) = some (locals, .ofBool (v == 0) :: stack) := by
  simp [Instr.basic]

lemma basic_rel (t : IntType) (op : RelOp) (a b : BitVec t.width) (locals stack : List Value) :
    (Instr.rel t op).basic locals (t.value b :: t.value a :: stack) =
      some (locals, .ofBool (op.eval a b) :: stack) := by
  simp [Instr.basic]

lemma basic_bin (t : IntType) (op : BinOp) (a b : BitVec t.width) (locals stack : List Value) :
    (Instr.bin t op).basic locals (t.value b :: t.value a :: stack) =
      some (locals, t.value (op.eval a b) :: stack) := by
  simp [Instr.basic]

lemma basic_eqz_inv (h : (Instr.eqz t).basic locals stack = some (locals', stack')) :
    ∃ v rest, stack = t.value v :: rest ∧ locals' = locals ∧
      stack' = .ofBool (v == 0) :: rest := by
  obtain ⟨⟨v, rest⟩, hpop, hres⟩ := Option.bind_eq_some_iff.mp h
  cases hres
  exact ⟨v, rest, popInt_eq_some hpop, rfl, rfl⟩

lemma basic_rel_inv {op : RelOp}
    (h : (Instr.rel t op).basic locals stack = some (locals', stack')) :
    ∃ a b rest, stack = t.value b :: t.value a :: rest ∧ locals' = locals ∧
      stack' = .ofBool (op.eval a b) :: rest := by
  obtain ⟨⟨b, rest₁⟩, hb, h₁⟩ := Option.bind_eq_some_iff.mp h
  obtain ⟨⟨a, rest⟩, ha, hres⟩ := Option.bind_eq_some_iff.mp h₁
  cases hres
  refine ⟨a, b, rest, ?_, rfl, rfl⟩
  rw [popInt_eq_some hb, popInt_eq_some ha]

lemma basic_bin_inv {op : BinOp}
    (h : (Instr.bin t op).basic locals stack = some (locals', stack')) :
    ∃ a b rest, stack = t.value b :: t.value a :: rest ∧ locals' = locals ∧
      stack' = t.value (op.eval a b) :: rest := by
  obtain ⟨⟨b, rest₁⟩, hb, h₁⟩ := Option.bind_eq_some_iff.mp h
  obtain ⟨⟨a, rest⟩, ha, hres⟩ := Option.bind_eq_some_iff.mp h₁
  cases hres
  refine ⟨a, b, rest, ?_, rfl, rfl⟩
  rw [popInt_eq_some hb, popInt_eq_some ha]

/-- `outside`: the next instruction is not one of the fragment. -/
inductive Outcome where
  | done (κ : Config)
  | outside
  | stuck
  deriving DecidableEq

def Instr.isIte : Instr → Bool
  | .ite .. => true
  | _ => false

def Instr.isOutside : Instr → Bool
  | .block .. => true
  | .foreign .. => true
  | _ => false

mutual

def Instr.exec : Instr → Config → Outcome
  | .ite _ thn els, κ =>
    match κ.stack with
    | .i32 c :: stack =>
      if c = 0 then execAll els { κ with stack, steps := κ.steps + 1 }
      else execAll thn { κ with stack, steps := κ.steps + 1 }
    | _ => .stuck
  | .block .., _ => .outside
  | .foreign .., _ => .outside
  | i, κ =>
    match i.basic κ.locals κ.stack with
    | some (locals, stack) => .done ⟨locals, stack, κ.steps + 1⟩
    | none => .stuck

def execAll : List Instr → Config → Outcome
  | [], κ => .done κ
  | i :: is, κ =>
    match i.exec κ with
    | .done κ' => execAll is κ'
    | o => o

end

lemma execAll_singleton (i : Instr) (κ : Config) : execAll [i] κ = i.exec κ := by
  simp only [execAll]
  cases i.exec κ <;> rfl

variable {i : Instr} {is : List Instr} {κ κ' : Config}

lemma execAll_cons_done {κ₁ : Config} (h : i.exec κ = .done κ₁) :
    execAll (i :: is) κ = execAll is κ₁ := by
  simp only [execAll, h]

lemma exec_of_execAll_cons (h : execAll (i :: is) κ = .done κ') :
    ∃ κ₁, i.exec κ = .done κ₁ ∧ execAll is κ₁ = .done κ' := by
  simp only [execAll] at h
  split at h
  · rename_i κ₁ hi
    exact ⟨κ₁, hi, h⟩
  · rename_i hnot
    exact absurd h (hnot κ')

lemma exec_ite {c : BitVec 32} (h : κ.stack = .i32 c :: stack) (bt : List UInt8)
    (thn els : List Instr) : (Instr.ite bt thn els).exec κ =
      execAll (if c = 0 then els else thn) { κ with stack, steps := κ.steps + 1 } := by
  simp only [Instr.exec, h]
  by_cases hc : c = 0
  · rw [if_pos hc, if_pos hc]
  · rw [if_neg hc, if_neg hc]

inductive Basic (Γ : List ValType) : Instr → List ValType → List ValType → Prop where
  | localGet {x t s} : Γ[x]? = some t → Basic Γ (.localGet x) s (t :: s)
  | localSet {x t s} : Γ[x]? = some t → Basic Γ (.localSet x) (t :: s) s
  | localTee {x t s} : Γ[x]? = some t → Basic Γ (.localTee x) (t :: s) (t :: s)
  | i32Const {v s} : Basic Γ (.i32Const v) s (.int .i32 :: s)
  | i64Const {v s} : Basic Γ (.i64Const v) s (.int .i64 :: s)
  | eqz {t s} : Basic Γ (.eqz t) (.int t :: s) (.int .i32 :: s)
  | rel {t op s} : Basic Γ (.rel t op) (.int t :: .int t :: s) (.int .i32 :: s)
  | bin {t op s} : Basic Γ (.bin t op) (.int t :: .int t :: s) (.int t :: s)
  | drop {t s} : Basic Γ .drop (t :: s) s

/-- `HasType ext Γ is s u`: with locals of the types `Γ`, the sequence takes a stack of the
types `s` to one of the types `u`. The code of a conditional sees only the part `a` of the
stack. Instructions outside the fragment are let in, at any type, when `ext` is set. -/
inductive HasType (ext : Bool) (Γ : List ValType) :
    List Instr → List ValType → List ValType → Prop where
  | nil {s} : HasType ext Γ [] s s
  | basic {i is s s' u} : Basic Γ i s s' → HasType ext Γ is s' u → HasType ext Γ (i :: is) s u
  | ite {bt thn els is a b s u} : HasType ext Γ thn a b → HasType ext Γ els a b →
      HasType ext Γ is (b ++ s) u → HasType ext Γ (.ite bt thn els :: is) (.int .i32 :: (a ++ s)) u
  | outside {i is s s' u} : ext = true → i.isOutside = true → HasType ext Γ is s' u →
      HasType ext Γ (i :: is) s u

/-! ### Valid code does not get stuck -/

structure Config.Typed (κ : Config) (Γ s : List ValType) : Prop where
  locals : κ.locals.map Value.valType = Γ
  stack : κ.stack.map Value.valType = s

@[simp] lemma type_value (t : IntType) (v : BitVec t.width) : (t.value v).type = t := by
  cases t <;> rfl

@[simp] lemma valType_value (t : IntType) (v : BitVec t.width) : (t.value v).valType = .int t := by
  rw [Value.valType, type_value]

@[simp] lemma valType_ofBool (b : Bool) : (Value.ofBool b).valType = .int .i32 := rfl

lemma Value.eq_value {v : Value} (h : v.valType = .int t) : ∃ b, v = t.value b := by
  cases h
  cases v with
  | i32 b => exact ⟨b, rfl⟩
  | i64 b => exact ⟨b, rfl⟩

variable {f s u Γ s' : List ValType}

lemma local_set_typed {x : Nat} {t : ValType} {v : Value} (hl : locals.map Value.valType = Γ)
    (hx : Γ[x]? = some t) (hv : v.valType = t) :
    x < locals.length ∧ (locals.set x v).map Value.valType = Γ := by
  subst hl
  obtain ⟨hlt, hget⟩ := List.getElem?_eq_some_iff.mp hx
  refine ⟨by simpa using hlt, ?_⟩
  rw [List.map_set, hv, ← hget, List.set_getElem_self]

lemma Basic.exec (h : Basic Γ i s s') (hl : locals.map Value.valType = Γ)
    (hs : stack.map Value.valType = s ++ f) :
    ∃ locals' stack', i.basic locals stack = some (locals', stack') ∧
      locals'.map Value.valType = Γ ∧ stack'.map Value.valType = s' ++ f := by
  cases h with
  | localGet hx =>
    rename_i x t
    subst hl
    rw [List.getElem?_map, Option.map_eq_some_iff] at hx
    obtain ⟨v, hv, hvt⟩ := hx
    exact ⟨locals, v :: stack, by simp [Instr.basic, hv], rfl, by simp [hvt, hs]⟩
  | localSet hx =>
    obtain ⟨v, stack, rfl, hv, hrest⟩ := List.map_eq_cons_iff.mp hs
    obtain ⟨hlt, hset⟩ := local_set_typed hl hx hv
    exact ⟨_, stack, by simp only [Instr.basic, hlt, if_true], hset, hrest⟩
  | localTee hx =>
    obtain ⟨v, stack, rfl, hv, hrest⟩ := List.map_eq_cons_iff.mp hs
    obtain ⟨hlt, hset⟩ := local_set_typed hl hx hv
    exact ⟨_, v :: stack, by simp only [Instr.basic, hlt, if_true], hset, hs⟩
  | i32Const => exact ⟨locals, _, rfl, hl, by simp [hs, Value.valType, Value.type]⟩
  | i64Const => exact ⟨locals, _, rfl, hl, by simp [hs, Value.valType, Value.type]⟩
  | eqz =>
    obtain ⟨v, stack, rfl, hv, hrest⟩ := List.map_eq_cons_iff.mp hs
    obtain ⟨x, rfl⟩ := Value.eq_value hv
    exact ⟨locals, _, basic_eqz .., hl, by simp [hrest]⟩
  | rel =>
    obtain ⟨b, stack, rfl, hb, hs⟩ := List.map_eq_cons_iff.mp hs
    obtain ⟨a, stack, rfl, ha, hrest⟩ := List.map_eq_cons_iff.mp hs
    obtain ⟨y, rfl⟩ := Value.eq_value hb
    obtain ⟨x, rfl⟩ := Value.eq_value ha
    exact ⟨locals, _, basic_rel .., hl, by simp [hrest]⟩
  | bin =>
    obtain ⟨b, stack, rfl, hb, hs⟩ := List.map_eq_cons_iff.mp hs
    obtain ⟨a, stack, rfl, ha, hrest⟩ := List.map_eq_cons_iff.mp hs
    obtain ⟨y, rfl⟩ := Value.eq_value hb
    obtain ⟨x, rfl⟩ := Value.eq_value ha
    exact ⟨locals, _, basic_bin .., hl, by simp [hrest]⟩
  | drop =>
    obtain ⟨v, stack, rfl, hv, hrest⟩ := List.map_eq_cons_iff.mp hs
    exact ⟨locals, stack, rfl, hl, hrest⟩

lemma Basic.exec_eq (h : Basic Γ i s s') (hi : i.basic κ.locals κ.stack = some (locals, stack)) :
    i.exec κ = .done ⟨locals, stack, κ.steps + 1⟩ := by
  cases h <;> simp [Instr.exec, hi]

lemma exec_outside (h : i.isOutside = true) (κ : Config) : i.exec κ = .outside := by
  cases i <;> first | rfl | cases h

/-- Valid code runs to its end, or up to an instruction outside the fragment. -/
theorem HasType.exec {ext : Bool} {Γ s u : List ValType} {is : List Instr}
    (h : HasType ext Γ is s u) {f : List ValType} {κ : Config} (hκ : κ.Typed Γ (s ++ f)) :
    (∃ κ', execAll is κ = .done κ' ∧ κ'.Typed Γ (u ++ f) ∧ κ.steps ≤ κ'.steps) ∨
      (ext = true ∧ execAll is κ = .outside) := by
  induction h generalizing f κ with
  | nil => exact Or.inl ⟨κ, by simp [execAll], hκ, Nat.le_refl _⟩
  | basic hi _ ih =>
    obtain ⟨locals, stack, hb, hl, hs⟩ := hi.exec hκ.locals hκ.stack
    have hstep := hi.exec_eq hb
    simp only [execAll, hstep]
    have hκ₁ : Config.Typed ⟨locals, stack, κ.steps + 1⟩ Γ (_ ++ f) := ⟨hl, hs⟩
    obtain ⟨κ', he, ht, hle⟩ | hout := ih hκ₁
    · refine Or.inl ⟨κ', he, ht, ?_⟩
      simp only at hle
      omega
    · exact Or.inr hout
  | @ite bt thn els is a b s u _ _ _ ihThn ihEls ihRest =>
    have hstack := hκ.stack
    rw [List.cons_append, List.append_assoc] at hstack
    obtain ⟨v, stack, hκs, hv, hrest⟩ := List.map_eq_cons_iff.mp hstack
    obtain ⟨(c : BitVec 32), rfl⟩ := Value.eq_value hv
    -- whichever branch is taken, it runs on the stack under the condition
    have hbranch : (∃ κ₁, Instr.exec (.ite bt thn els) κ = .done κ₁ ∧
        κ₁.Typed Γ (b ++ (s ++ f)) ∧ κ.steps + 1 ≤ κ₁.steps) ∨
        (ext = true ∧ Instr.exec (.ite bt thn els) κ = .outside) := by
      have hκ₁ : Config.Typed { κ with stack, steps := κ.steps + 1 } Γ (a ++ (s ++ f)) :=
        ⟨hκ.locals, hrest⟩
      rw [exec_ite hκs]
      by_cases hc : c = 0
      · rw [if_pos hc]
        exact ihEls hκ₁
      · rw [if_neg hc]
        exact ihThn hκ₁
    obtain ⟨κ₁, he₁, ht₁, hle₁⟩ | ⟨hext, he₁⟩ := hbranch
    · rw [← List.append_assoc] at ht₁
      simp only [execAll, he₁]
      obtain ⟨κ', he, ht, hle⟩ | hout := ihRest ht₁
      · exact Or.inl ⟨κ', he, ht, by omega⟩
      · exact Or.inr hout
    · exact Or.inr ⟨hext, by simp only [execAll, he₁]⟩
  | outside hext hi _ _ =>
    exact Or.inr ⟨hext, by simp only [execAll, exec_outside hi]⟩

variable {ext : Bool}

lemma HasType.of_done (h : HasType ext Γ is s u) (hκ : κ.Typed Γ (s ++ f))
    (hdone : execAll is κ = .done κ') : κ'.Typed Γ (u ++ f) ∧ κ.steps ≤ κ'.steps := by
  obtain ⟨κ₁, he, ht, hle⟩ | ⟨-, he⟩ := h.exec hκ
  · rw [hdone] at he
    cases he
    exact ⟨ht, hle⟩
  · rw [hdone] at he
    cases he

lemma HasType.uncons (h : HasType ext Γ (i :: is) s u) :
    ∃ v, HasType ext Γ [i] s v ∧ HasType ext Γ is v u := by
  cases h with
  | basic hi hrest => exact ⟨_, .basic hi .nil, hrest⟩
  | ite hthn hels hrest => exact ⟨_, .ite hthn hels .nil, hrest⟩
  | outside hext hi hrest => exact ⟨_, .outside hext hi .nil, hrest⟩

lemma HasType.ite_inv {bt : List UInt8} {thn els : List Instr}
    (h : HasType ext Γ (.ite bt thn els :: is) s u) :
    ∃ a b t, s = .int .i32 :: (a ++ t) ∧ HasType ext Γ thn a b ∧ HasType ext Γ els a b ∧
      HasType ext Γ is (b ++ t) u := by
  cases h with
  | basic hi => cases hi
  | ite hthn hels hrest => exact ⟨_, _, _, rfl, hthn, hels, hrest⟩
  | outside _ hi => cases hi

lemma HasType.basic_inv (h : HasType false Γ (i :: is) s u) (hi : i.isIte = false) :
    ∃ s', Basic Γ i s s' ∧ HasType false Γ is s' u := by
  cases h with
  | basic hi hrest => exact ⟨_, hi, hrest⟩
  | ite => cases hi
  | outside hext => cases hext

mutual

/-- The instruction without block types and immediates, and without the code of a block: what
execution and validation look at. -/
def Instr.strip : Instr → Instr
  | .ite _ thn els => .ite [] (stripAll thn) (stripAll els)
  | .block opcode _ _ => .foreign opcode []
  | .foreign opcode _ => .foreign opcode []
  | i => i

def stripAll : List Instr → List Instr
  | [] => []
  | i :: is => i.strip :: stripAll is

end

mutual

lemma exec_strip : ∀ (i : Instr) (κ : Config), i.strip.exec κ = i.exec κ
  | .ite bt thn els, κ => by
    simp only [Instr.strip, Instr.exec, execAll_strip thn, execAll_strip els]
  | .block .., _ => by simp only [Instr.strip, Instr.exec]
  | .foreign .., _ => by simp only [Instr.strip, Instr.exec]
  | .localGet _, _ | .localSet _, _ | .localTee _, _ | .i32Const _, _ | .i64Const _, _
  | .eqz _, _ | .rel .., _ | .bin .., _ | .drop, _ => by simp only [Instr.strip]

lemma execAll_strip : ∀ (is : List Instr) (κ : Config), execAll (stripAll is) κ = execAll is κ
  | [], _ => by simp only [stripAll]
  | i :: is, κ => by
    simp only [stripAll, execAll, exec_strip i]
    cases i.exec κ with
    | done κ' => exact execAll_strip is κ'
    | outside => rfl
    | stuck => rfl

end

lemma Basic.strip_eq (h : Basic Γ i s s') : i.strip = i := by
  cases h <;> simp only [Instr.strip]

lemma isOutside_strip (h : i.isOutside = true) : i.strip.isOutside = true := by
  cases i <;> first | (simp only [Instr.strip]; rfl) | cases h

lemma HasType.strip (h : HasType ext Γ is s u) : HasType ext Γ (stripAll is) s u := by
  induction h with
  | nil =>
    exact .nil
  | basic hi _ ih =>
    rw [stripAll, hi.strip_eq]
    exact .basic hi ih
  | ite _ _ _ ihThn ihEls ih =>
    exact .ite ihThn ihEls ih
  | outside hext hi _ ih =>
    exact .outside hext (isOutside_strip hi) ih

end Symkernel.Library.Wasm
