import Symkernel.Library.Wasm.Binary

/-!
# The binary format of WebAssembly modules

The sections that declare functions: types, imports, functions, exports and code. The contents
of every other section are arbitrary bytes.
-/

namespace Symkernel.Library.Wasm

open Leb128

structure FuncType where
  params : List UInt8
  results : List UInt8

structure Limits where
  least : Nat
  most : Option Nat

inductive ImportDesc where
  | func (type : Nat)
  | table (element : UInt8) (limits : Limits)
  | memory (limits : Limits)
  | global (type mutability : UInt8)

structure Import where
  origin : List UInt8
  name : List UInt8
  desc : ImportDesc

inductive ExternKind where
  | func
  | table
  | memory
  | global
  deriving DecidableEq

structure Export where
  name : List UInt8
  kind : ExternKind
  index : Nat

structure Func where
  type : Nat
  groups : List (Nat × UInt8)
  body : List Instr

structure Module where
  types : List FuncType
  imports : List Import
  functions : List Func
  exports : List Export
  exports_nodup : (exports.map Export.name).Nodup

def Func.locals (f : Func) : List UInt8 :=
  f.groups.flatMap fun g => List.replicate g.1 g.2

def ImportDesc.isFunc : ImportDesc → Bool
  | .func _ => true
  | _ => false

/-- Imported functions come first in the index space of functions. -/
def Module.importedFuncs (m : Module) : Nat :=
  (m.imports.filter fun i => i.desc.isFunc).length

def Module.localFunc? (m : Module) (x : Nat) : Option Func :=
  if x < m.importedFuncs then none else m.functions[x - m.importedFuncs]?

inductive Items {α : Type} (R : α → List UInt8 → Prop) : List α → List UInt8 → Prop where
  | nil : Items R [] []
  | cons {x xs bs cs} : R x bs → Items R xs cs → Items R (x :: xs) (bs ++ cs)

inductive Vec {α : Type} (R : α → List UInt8 → Prop) : List α → List UInt8 → Prop where
  | mk {xs n bs} : Unsigned 32 n xs.length → Items R xs bs → Vec R xs (n ++ bs)

inductive Sized : List UInt8 → List UInt8 → Prop where
  | mk {n bs} : Unsigned 32 n bs.length → Sized bs (n ++ bs)

variable {bs : List UInt8}

lemma Items.length_le {α : Type} {R : α → List UInt8 → Prop} {xs : List α} (h : Items R xs bs)
    (hR : ∀ x bs, R x bs → bs ≠ []) : xs.length ≤ bs.length := by
  induction h with
  | nil => exact Nat.le_refl _
  | @cons x xs bs cs hx _ ih =>
    have hpos := List.length_pos_iff.mpr (hR x bs hx)
    rw [List.length_cons, List.length_append]
    omega

inductive EncodesFuncType : FuncType → List UInt8 → Prop where
  | mk {params results ps rs} : Sized params ps → Sized results rs →
      EncodesFuncType ⟨params, results⟩ (0x60 :: ps ++ rs)

inductive EncodesLimits : Limits → List UInt8 → Prop where
  | unbounded {n bs} : Unsigned 32 bs n → EncodesLimits ⟨n, none⟩ (0x00 :: bs)
  | bounded {n m bs cs} : Unsigned 32 bs n → Unsigned 32 cs m →
      EncodesLimits ⟨n, some m⟩ (0x01 :: bs ++ cs)

inductive EncodesDesc : ImportDesc → List UInt8 → Prop where
  | func {x bs} : Unsigned 32 bs x → EncodesDesc (.func x) (0x00 :: bs)
  | table {e l bs} : EncodesLimits l bs → EncodesDesc (.table e l) (0x01 :: e :: bs)
  | memory {l bs} : EncodesLimits l bs → EncodesDesc (.memory l) (0x02 :: bs)
  | global {t m} : EncodesDesc (.global t m) [0x03, t, m]

inductive EncodesImport : Import → List UInt8 → Prop where
  | mk {origin name desc os ns ds} : Sized origin os → Sized name ns → EncodesDesc desc ds →
      EncodesImport ⟨origin, name, desc⟩ (os ++ ns ++ ds)

def ExternKind.byte : ExternKind → UInt8
  | .func => 0x00
  | .table => 0x01
  | .memory => 0x02
  | .global => 0x03

inductive EncodesExport : Export → List UInt8 → Prop where
  | mk {name kind index ns bs} : Sized name ns → Unsigned 32 bs index →
      EncodesExport ⟨name, kind, index⟩ (ns ++ kind.byte :: bs)

inductive EncodesGroup : Nat × UInt8 → List UInt8 → Prop where
  | mk {n t bs} : Unsigned 32 bs n → EncodesGroup (n, t) (bs ++ [t])

inductive EncodesBody : Func → List UInt8 → Prop where
  | mk {type groups body gs bs} : Vec EncodesGroup groups gs → Encodes body bs →
      EncodesBody ⟨type, groups, body⟩ (gs ++ bs ++ [0x0b])

lemma Items.encodesLocals {groups : List (Nat × UInt8)} (h : Items EncodesGroup groups bs) :
    EncodesLocals groups.length (groups.flatMap fun g => List.replicate g.1 g.2) bs := by
  induction h with
  | nil => exact .nil
  | @cons g groups bs cs hg _ ih =>
    obtain ⟨hn⟩ := hg
    rw [List.append_assoc]
    exact .group hn ih

lemma EncodesBody.encodesCode {f : Func} {code : List UInt8} (h : EncodesBody f code) :
    EncodesCode f.locals f.body code := by
  obtain ⟨⟨hn, hgroups⟩, hbody⟩ := h
  exact .mk hn hgroups.encodesLocals hbody

inductive EncodesEntry : Func → List UInt8 → Prop where
  | mk {f code bs} : EncodesBody f code → Sized code bs → EncodesEntry f bs

lemma Items.bodies {fs : List Func} (h : Items EncodesEntry fs bs) :
    ∃ codes, Items Sized codes bs ∧ List.Forall₂ EncodesBody fs codes := by
  induction h with
  | nil => exact ⟨[], .nil, .nil⟩
  | @cons f fs bs cs hf _ ih =>
    obtain ⟨hbody, hsized⟩ := hf
    obtain ⟨codes, hcodes, hbodies⟩ := ih
    exact ⟨_, .cons hsized hcodes, .cons hbody hbodies⟩

lemma Vec.bodies {fs : List Func} (h : Vec EncodesEntry fs bs) :
    ∃ codes, Vec Sized codes bs ∧ List.Forall₂ EncodesBody fs codes := by
  obtain ⟨hn, hitems⟩ := h
  obtain ⟨codes, hcodes, hbodies⟩ := hitems.bodies
  rw [hbodies.length_eq] at hn
  exact ⟨codes, .mk hn hcodes, hbodies⟩

inductive EncodesSection {α : Type} (id : UInt8) (R : α → List UInt8 → Prop) :
    List α → List UInt8 → Prop where
  | absent : EncodesSection id R [] []
  | present {xs contents bs} : Vec R xs contents → Sized contents bs →
      EncodesSection id R xs (id :: bs)

/-- Sections other than those of types, imports, functions, exports and code. -/
inductive OtherSections : List UInt8 → Prop where
  | nil : OtherSections []
  | cons {id contents bs cs} : id ∉ [1, 2, 3, 7, 10] → Sized contents bs → OtherSections cs →
      OtherSections (id :: bs ++ cs)

def magic : List UInt8 := [0x00, 0x61, 0x73, 0x6d, 0x01, 0x00, 0x00, 0x00]

inductive EncodesModule (m : Module) : List UInt8 → Prop where
  | mk {o₁ o₂ o₃ o₄ o₅ o₆ types imports functions exports codes} :
      OtherSections o₁ → EncodesSection 1 EncodesFuncType m.types types →
      OtherSections o₂ → EncodesSection 2 EncodesImport m.imports imports →
      OtherSections o₃ →
      EncodesSection 3 (fun f bs => Unsigned 32 bs f.type) m.functions functions →
      OtherSections o₄ → EncodesSection 7 EncodesExport m.exports exports →
      OtherSections o₅ → EncodesSection 10 EncodesEntry m.functions codes →
      OtherSections o₆ →
      EncodesModule m (magic ++ (o₁ ++ (types ++ (o₂ ++ (imports ++ (o₃ ++ (functions ++
        (o₄ ++ (exports ++ (o₅ ++ (codes ++ o₆)))))))))))

end Symkernel.Library.Wasm
