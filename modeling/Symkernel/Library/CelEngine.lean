import Symkernel.Library.GoAny

/-!
# A CEL engine for Go

A program declares variables with their types, compiles a text against the declarations and
evaluates the compiled program with Go values for the variables. `Engine.Lawful` is what the engine
promises to programs that do not look into expressions.
-/

namespace Symkernel.Library.CelEngine

inductive VarType where
  | bool
  | int
  | uint
  | double
  | string
  | dyn
  deriving DecidableEq

variable {F : Floats}

inductive Atom (F : Floats) where
  | bool (b : Bool)
  | int (n : Int)
  | uint (n : Nat)
  | double (x : F.F64)
  | string (s : GoString)

inductive Value (F : Floats) where
  | atom (a : Atom F)
  | list (items : List (Value F))
  | map (keys : List (Atom F)) (values : List (Value F))

def Value.type : Value F → VarType
  | .atom (.bool _) => .bool
  | .atom (.int _) => .int
  | .atom (.uint _) => .uint
  | .atom (.double _) => .double
  | .atom (.string _) => .string
  | .list _ | .map _ _ => .dyn

def atomOf : Scalar F → Atom F
  | .bool b => .bool b
  | .int _ n => .int n
  | .uint _ n => .uint n
  | .float32 x => .double (F.widen x)
  | .float64 x => .double x
  | .string s => .string s

mutual

def valueOf : GoAny F → Value F
  | .scalar s => .atom (atomOf s)
  | .list elems => .list (valuesOf elems)
  | .map keys values => .map (keys.scalars.map atomOf) (valuesOf values)
  | .nilList => .list []
  | .nilMap => .map [] []

def valuesOf : List (GoAny F) → List (Value F)
  | [] => []
  | v :: vs => valueOf v :: valuesOf vs

end

structure Engine (F : Floats) where
  Env : Type
  Ast : Type
  Program : Type
  newEnv : List (GoString × VarType) → Except String Env
  compile : Env → GoString → Except String Ast
  program : Env → Ast → Except String Program
  eval : Program → (GoString → Option (Value F)) → Except String (Value F)
  identifier : GoString → Prop
  standard : GoString → Prop

structure Declares (decls : List (GoString × VarType)) (vars : GoString → Option (Value F)) :
    Prop where
  nodup : (decls.map Prod.fst).Nodup
  mem_iff : ∀ n t, (n, t) ∈ decls ↔ ∃ v, vars n = some v ∧ v.type = t

def Engine.run (E : Engine F) (expr : GoString) (decls : List (GoString × VarType))
    (vars : GoString → Option (Value F)) : Except String (Value F) := do
  let env ← E.newEnv decls
  let ast ← E.compile env expr
  let prg ← E.program env ast
  E.eval prg vars

structure Engine.Lawful (E : Engine F) : Prop where
  ascii : ∀ {n}, E.identifier n → ∀ b ∈ n, b < 0x80
  standard_identifier : ∀ {n}, E.standard n → E.identifier n
  run_congr : ∀ {expr decls decls' vars vars'}, Declares decls vars → Declares decls' vars' →
    (∀ n, E.identifier n → vars n = vars' n) →
    (E.run expr decls vars).toOption = (E.run expr decls' vars').toOption
  run_standard : ∀ {expr decls vars n}, Declares decls vars → E.standard n → vars n ≠ none →
    (E.run expr decls vars).toOption = none
  run_identifier : ∀ {decls vars n v}, Declares decls vars →
    (∀ m, E.standard m → vars m = none) → E.identifier n → vars n = some v →
    E.run n decls vars = .ok v

def isLetter : GoString → Bool
  | [b] => 0x61 ≤ b && b ≤ 0x7a
  | _ => false

def compileLetter (decls : List (GoString × VarType)) (expr : GoString) :
    Except String GoString :=
  if isLetter expr && (decls.map Prod.fst).contains expr then .ok expr
  else .error "undeclared reference"

def readVariable (vars : GoString → Option (Value F)) (n : GoString) : Except String (Value F) :=
  match vars n with
  | some v => .ok v
  | none => .error "no such attribute"

/-- The engine for the expressions that are a variable of one letter. -/
def letters (F : Floats) : Engine F where
  Env := List (GoString × VarType)
  Ast := GoString
  Program := GoString
  newEnv decls := .ok decls
  compile := compileLetter
  program _ ast := .ok ast
  eval prg vars := readVariable vars prg
  identifier n := isLetter n = true
  standard _ := False

variable {decls : List (GoString × VarType)} {vars : GoString → Option (Value F)}

lemma Declares.mem_names (h : Declares decls vars) (n : GoString) :
    n ∈ decls.map Prod.fst ↔ vars n ≠ none := by
  rw [List.mem_map]
  constructor
  · rintro ⟨⟨_, t⟩, hmem, rfl⟩ hnone
    obtain ⟨v, hv, -⟩ := (h.mem_iff _ t).mp hmem
    rw [hnone] at hv
    cases hv
  · intro hn
    obtain ⟨v, hv⟩ := Option.ne_none_iff_exists'.mp hn
    exact ⟨(n, v.type), (h.mem_iff n v.type).mpr ⟨v, hv, rfl⟩, rfl⟩

lemma letters_run (h : Declares decls vars) (expr : GoString) :
    ((letters F).run expr decls vars).toOption = if isLetter expr then vars expr else none := by
  have hdeclared : (decls.map Prod.fst).contains expr = (vars expr).isSome := by
    rw [Bool.eq_iff_iff, List.contains_iff_mem, h.mem_names, Option.isSome_iff_ne_none]
  have hrun : (letters F).run expr decls vars =
      compileLetter decls expr >>= readVariable vars := rfl
  rw [hrun, compileLetter, hdeclared]
  cases isLetter expr with
  | false => rfl
  | true => cases hvar : vars expr <;> simp [readVariable, hvar, bind, Except.bind, Except.toOption]

lemma letters_lawful (F : Floats) : (letters F).Lawful where
  ascii := by
    intro n hn b hb
    obtain _ | ⟨c, _ | ⟨d, n⟩⟩ := n
    · cases hn
    · rw [List.mem_singleton] at hb
      simp only [letters, isLetter, Bool.and_eq_true, decide_eq_true_eq] at hn
      rw [UInt8.le_iff_toNat_le, UInt8.le_iff_toNat_le] at hn
      rw [hb]
      exact lt_of_le_of_lt hn.2 (by decide)
    · cases hn
  standard_identifier := fun h => h.elim
  run_congr := by
    intro expr decls decls' vars vars' hdecls hdecls' hagree
    rw [letters_run hdecls, letters_run hdecls']
    split
    · exact hagree expr ‹_›
    · rfl
  run_standard := fun _ h => h.elim
  run_identifier := by
    intro decls vars n v hdecls _ hn hv
    have hrun : ((letters F).run n decls vars).toOption = some v := by
      rw [letters_run hdecls, ← hv]
      exact if_pos hn
    generalize (letters F).run n decls vars = result at hrun
    cases result <;> cases hrun
    rfl

end Symkernel.Library.CelEngine
