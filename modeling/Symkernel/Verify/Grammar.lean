import Symkernel.Verify.Integers
import Symkernel.Verify.Simulation

/-!
# The decoder and the binary grammar
-/

namespace Symkernel.Verify

open Library Library.Leb128 List

mutual

/-- The instruction has no immediates beyond those the decoder reads. -/
def plainInstr : Wasm.Instr → Bool
  | .ite bt thn els => bt.length == 1 && plain thn && plain els
  | .block .. => false
  | .foreign _ immediate => immediate.isEmpty
  | _ => true

def plain : List Wasm.Instr → Bool
  | [] => true
  | i :: is => plainInstr i && plain is

end

mutual

def instructionOf : Wasm.Instr → Instruction
  | .localGet x => .mk 0x20 x 0 [] []
  | .localSet x => .mk 0x21 x 0 [] []
  | .localTee x => .mk 0x22 x 0 [] []
  | .i32Const v => .mk 0x41 0 (v.signExtend 64) [] []
  | .i64Const v => .mk 0x42 0 v [] []
  | .ite _ thn els => .mk 0x04 0 0 (instructionsOf thn) (instructionsOf els)
  | .block opcode _ body => .mk opcode 0 0 (instructionsOf body) []
  | i => .mk i.opcode 0 0 [] []

def instructionsOf : List Wasm.Instr → List Instruction
  | [] => []
  | i :: is => instructionOf i :: instructionsOf is

end

variable {op : UInt8}

lemma ne_of_notMem {x : UInt8} (hop : op ∉ Wasm.operandOpcodes) (hx : x ∈ Wasm.operandOpcodes) :
    op ≠ x :=
  (ne_of_mem_of_not_mem hx hop).symm

variable {i : Wasm.Instr}

lemma instructionOf_bare (h : Wasm.bareInstr op = some i) : instructionOf i = .mk op 0 0 [] [] := by
  obtain ⟨rfl, rfl | ⟨t, rfl⟩ | ⟨t, r, rfl⟩ | ⟨t, b, rfl⟩⟩ := Wasm.bareInstr_cases h <;>
    simp only [instructionOf]

lemma wasmBasic_bare (h : Wasm.bareInstr op = some i) (index : Nat) (value : BitVec 64) :
    wasmBasic op index value = i := by
  unfold Wasm.bareInstr at h
  split at h
  · rename_i hrel
    cases h
    simp only [wasmBasic, hrel]
  · rename_i hrel hbin
    cases h
    simp only [wasmBasic, hrel, hbin]
  · split at h <;> cases h <;> rfl

lemma wasmBasic_foreign (hbare : Wasm.bareInstr op = none) (hop : op ∉ Wasm.operandOpcodes)
    (index : Nat) (value : BitVec 64) : wasmBasic op index value = .foreign op [] := by
  unfold Wasm.bareInstr at hbare
  split at hbare
  · cases hbare
  · cases hbare
  · rename_i hrel hbin
    simp only [wasmBasic, hrel, hbin]
    split at hbare
    · cases hbare
    · cases hbare
    · cases hbare
    · split <;> first | rfl | exact absurd (by decide) hop | contradiction

variable {b bs rest types locals : List UInt8}

lemma wasmOf_instructionsOf {is : List Wasm.Instr} (h : Wasm.Encodes is bs) :
    wasmOf (instructionsOf is) = Wasm.stripAll is := by
  induction h with
  | nil => simp only [instructionsOf, wasmOf, Wasm.stripAll]
  | @instr i is bs cs hi _ ih =>
    have hhead : (instructionOf i).toWasm = i.strip := by
      cases hi with
      | i32Const =>
        simp only [Wasm.Instr.strip]
        show Wasm.Instr.i32Const _ = _
        rw [setWidth_signExtend _ (by omega)]
      | bare hbare =>
        have hop := Wasm.bareInstr_notMem_operandOpcodes hbare
        rw [instructionOf_bare hbare, Instruction.toWasm, if_neg (ne_of_notMem hop (by decide)),
          wasmBasic_bare hbare]
        obtain ⟨-, rfl | ⟨t, rfl⟩ | ⟨t, r, rfl⟩ | ⟨t, b, rfl⟩⟩ := Wasm.bareInstr_cases hbare <;>
          simp only [Wasm.Instr.strip]
      | foreign himm =>
        have hop := himm.notMem_operandOpcodes
        simp only [instructionOf, Wasm.Instr.opcode, Instruction.toWasm, Wasm.Instr.strip]
        rw [if_neg (ne_of_notMem hop (by decide)), wasmBasic_foreign himm.bareInstr_eq_none hop]
      | _ => simp only [Wasm.Instr.strip]; rfl
    rw [instructionsOf, wasmOf, Wasm.stripAll, hhead, ih]
  | ite _ _ _ _ ihThn ihEls ih =>
    simp only [instructionsOf, instructionOf, wasmOf, Instruction.toWasm, Wasm.stripAll,
      Wasm.Instr.strip, if_true, ihThn, ihEls, ih]
  | iteThen _ _ _ ihThn ih =>
    simp only [instructionsOf, instructionOf, wasmOf, Instruction.toWasm, Wasm.stripAll,
      Wasm.Instr.strip, if_true, ihThn, ih]
  | @block op bt body is bs ds hop _ _ _ _ ih =>
    have hfirst : (instructionOf (.block op bt body)).toWasm = .foreign op [] := by
      simp only [mem_cons, not_mem_nil, or_false] at hop
      obtain rfl | rfl := hop <;> simp only [instructionOf] <;> rfl
    rw [instructionsOf, wasmOf, hfirst, Wasm.stripAll, Wasm.Instr.strip, ih]

lemma readImmediate_of_notMem (hop : op ∉ Wasm.operandOpcodes) (b : List UInt8) :
    readImmediate op b = .ok (.mk op 0 0 [] [], b) := by
  unfold readImmediate
  split <;> first | rfl | exact absurd (by decide) hop

lemma signExtend_ofInt {n : Int} (hlo : -2 ^ 31 ≤ n) (hhi : n < 2 ^ 31) :
    (BitVec.ofInt 32 n).signExtend 64 = BitVec.ofInt 64 n := by
  apply BitVec.eq_of_toInt_eq
  rw [BitVec.toInt_signExtend_of_le (by omega), BitVec.toInt_ofInt, BitVec.toInt_ofInt,
    Int.bmod_eq_of_le (by omega) (by omega), Int.bmod_eq_of_le (by omega) (by omega)]

lemma readImmediate_encodes (h : Wasm.EncodesInstr i bs) (hplain : plainInstr i = true) :
    ∃ op b, bs = op :: b ∧ op ≠ 0x04 ∧ op ≠ 0x05 ∧ op ≠ 0x0b ∧
      ∀ rest, readImmediate op (b ++ rest) = .ok (instructionOf i, rest) := by
  cases h with
  | localGet hx =>
    refine ⟨_, _, rfl, by decide, by decide, by decide, fun rest => ?_⟩
    simp only [readImmediate, readU32_unsigned hx rest, instructionOf, bind, Except.bind]
  | localSet hx =>
    refine ⟨_, _, rfl, by decide, by decide, by decide, fun rest => ?_⟩
    simp only [readImmediate, readU32_unsigned hx rest, instructionOf, bind, Except.bind]
  | localTee hx =>
    refine ⟨_, _, rfl, by decide, by decide, by decide, fun rest => ?_⟩
    simp only [readImmediate, readU32_unsigned hx rest, instructionOf, bind, Except.bind]
  | i32Const hn =>
    obtain ⟨hlo, hhi⟩ := hn.bounds (by omega)
    refine ⟨_, _, rfl, by decide, by decide, by decide, fun rest => ?_⟩
    simp only [readImmediate, readS64_signed (by omega) (by omega) hn rest, instructionOf, bind,
      Except.bind, signExtend_ofInt hlo hhi]
  | i64Const hn =>
    refine ⟨_, _, rfl, by decide, by decide, by decide, fun rest => ?_⟩
    simp only [readImmediate, readS64_signed (by omega) (by omega) hn rest, instructionOf, bind,
      Except.bind]
  | bare hbare =>
    have hop := Wasm.bareInstr_notMem_operandOpcodes hbare
    refine ⟨_, [], rfl, ne_of_notMem hop (by decide), ne_of_notMem hop (by decide),
      ne_of_notMem hop (by decide), fun rest => ?_⟩
    rw [nil_append, readImmediate_of_notMem hop, instructionOf_bare hbare]
  | foreign himm =>
    have hop := himm.notMem_operandOpcodes
    simp only [plainInstr, List.isEmpty_iff] at hplain
    subst hplain
    refine ⟨_, [], rfl, ne_of_notMem hop (by decide), ne_of_notMem hop (by decide),
      ne_of_notMem hop (by decide), fun rest => ?_⟩
    rw [nil_append, readImmediate_of_notMem hop]
    simp only [instructionOf, Wasm.Instr.opcode]

variable {fuel count controlDepth : Nat} {p : Parsed}

lemma parse_stop (hop : op = 0x0b ∨ op = 0x05)
    (h : parseInstructionsWithBudget fuel controlDepth (op :: b) count = .ok p) :
    p.code = [] ∧ p.rest = b ∧ p.stop = op := by
  cases fuel with
  | zero => cases h
  | succ fuel =>
    rw [parseInstructionsWithBudget, if_pos hop] at h
    cases h
    exact ⟨rfl, rfl, rfl⟩

lemma parse_cons (hop : ¬(op = 0x0b ∨ op = 0x05))
    (h : parseInstructionsWithBudget fuel controlDepth (op :: b) count = .ok p) :
    ∃ fuel' i b' count' tail,
      parseInstruction (parseInstructionsWithBudget fuel' (controlDepth + 1)) controlDepth op b
        (count + 1) = .ok (i, b', count') ∧
      parseInstructionsWithBudget fuel' controlDepth b' count' = .ok tail ∧
      p = { tail with code := i :: tail.code } := by
  cases fuel with
  | zero => cases h
  | succ fuel =>
    rw [parseInstructionsWithBudget, if_neg hop] at h
    split at h
    · cases h
    · obtain ⟨⟨i, b', count'⟩, hi, h⟩ := bind_eq_ok.mp h
      obtain ⟨tail, htail, h⟩ := bind_eq_ok.mp h
      cases h
      exact ⟨fuel, i, b', count', tail, hi, htail, rfl⟩

lemma parseIf_eq_ok {parse : List UInt8 → Nat → Except Failure Parsed} {b' : List UInt8}
    {count' : Nat} {i : Instruction} (h : parseIf parse b count = .ok (i, b', count')) :
    ∃ yes, parse b count = .ok yes ∧
      (yes.stop ≠ 0x05 ∧ i = .mk 0x04 0 0 yes.code [] ∧ b' = yes.rest ∨
        ∃ no, yes.stop = 0x05 ∧ parse yes.rest yes.count = .ok no ∧
          i = .mk 0x04 0 0 yes.code no.code ∧ b' = no.rest) := by
  obtain ⟨yes, hyes, h⟩ := bind_eq_ok.mp h
  refine ⟨yes, hyes, ?_⟩
  split at h
  · rename_i hstop
    obtain ⟨no, hno, h⟩ := bind_eq_ok.mp h
    split at h
    · cases h
    · cases h
      exact Or.inr ⟨no, hstop, hno, rfl, rfl⟩
  · rename_i hstop
    cases h
    exact Or.inl ⟨hstop, rfl, rfl⟩

lemma parse_if {t : UInt8}
    (h : parseInstructionsWithBudget fuel controlDepth (0x04 :: t :: b) count = .ok p) :
    ∃ fuel' i b' count' tail,
      parseIf (parseInstructionsWithBudget fuel' (controlDepth + 1)) b (count + 1) =
        .ok (i, b', count') ∧
      parseInstructionsWithBudget fuel' controlDepth b' count' = .ok tail ∧
      p = { tail with code := i :: tail.code } := by
  obtain ⟨fuel', i, b', count', tail, hi, htail, rfl⟩ := parse_cons (by decide) h
  simp only [parseInstruction, if_true] at hi
  split at hi
  · cases hi
  · exact ⟨fuel', i, b', count', tail, hi, htail, rfl⟩

/-- The decoder finds the instructions of the grammar and stops where they end. -/
lemma parse_encodes {is : List Wasm.Instr} (h : Wasm.Encodes is bs) (hplain : plain is = true)
    {stop : UInt8} (hstop : stop = 0x0b ∨ stop = 0x05)
    (hparse : parseInstructionsWithBudget fuel controlDepth (bs ++ stop :: rest) count = .ok p) :
    p.code = instructionsOf is ∧ p.rest = rest ∧ p.stop = stop := by
  induction h generalizing fuel controlDepth count stop rest p with
  | nil =>
    exact parse_stop hstop hparse
  | @instr i is bs cs hi _ ih =>
    rw [plain, Bool.and_eq_true] at hplain
    obtain ⟨op, b, rfl, h4, h5, hb, hread⟩ := readImmediate_encodes hi hplain.1
    rw [cons_append, cons_append, append_assoc] at hparse
    obtain ⟨fuel', j, b', count', tail, hj, htail, rfl⟩ := parse_cons (not_or.mpr ⟨hb, h5⟩) hparse
    simp only [parseInstruction, if_neg h4, hread] at hj
    cases hj
    obtain ⟨hcode, hrest, hst⟩ := ih hplain.2 hstop htail
    exact ⟨by rw [instructionsOf, hcode], hrest, hst⟩
  | @ite bt thn els is bs cs ds _ _ _ _ ihThn ihEls ih =>
    simp only [plain, plainInstr, Bool.and_eq_true, beq_iff_eq] at hplain
    obtain ⟨⟨⟨hbt, hthn⟩, hels⟩, his⟩ := hplain
    obtain ⟨t, rfl⟩ := List.length_eq_one_iff.mp hbt
    simp only [append_assoc] at hparse
    obtain ⟨fuel', j, b', count', tail, hj, htail, rfl⟩ := parse_if hparse
    obtain ⟨yes, hyes, hcases⟩ := parseIf_eq_ok hj
    obtain ⟨hyesCode, hyesRest, hyesStop⟩ := ihThn hthn (Or.inr rfl) hyes
    obtain ⟨hne, -⟩ | ⟨no, -, hno, rfl, rfl⟩ := hcases
    · exact absurd hyesStop hne
    · rw [hyesRest] at hno
      obtain ⟨hnoCode, hnoRest, -⟩ := ihEls hels (Or.inl rfl) hno
      rw [hnoRest] at htail
      obtain ⟨hcode, hrest, hst⟩ := ih his hstop htail
      refine ⟨?_, hrest, hst⟩
      rw [instructionsOf, instructionOf, hcode, hyesCode, hnoCode]
  | @iteThen bt thn is bs ds _ _ _ ihThn ih =>
    simp only [plain, plainInstr, Bool.and_eq_true, beq_iff_eq] at hplain
    obtain ⟨⟨⟨hbt, hthn⟩, -⟩, his⟩ := hplain
    obtain ⟨t, rfl⟩ := List.length_eq_one_iff.mp hbt
    simp only [append_assoc] at hparse
    obtain ⟨fuel', j, b', count', tail, hj, htail, rfl⟩ := parse_if hparse
    obtain ⟨yes, hyes, hcases⟩ := parseIf_eq_ok hj
    obtain ⟨hyesCode, hyesRest, hyesStop⟩ := ihThn hthn (Or.inl rfl) hyes
    obtain ⟨-, rfl, rfl⟩ | ⟨no, h5, -⟩ := hcases
    · rw [hyesRest] at htail
      obtain ⟨hcode, hrest, hst⟩ := ih his hstop htail
      refine ⟨?_, hrest, hst⟩
      rw [instructionsOf, instructionOf, hcode, hyesCode, instructionsOf]
    · rw [hyesStop] at h5
      cases h5
  | block => simp [plain, plainInstr] at hplain

lemma parseLocals_encodes {k : Nat} (h : Wasm.EncodesLocals k types bs) {locals' : List UInt8}
    (hparse : parseLocals k locals (bs ++ rest) = .ok (locals', b)) :
    locals' = locals ++ types ∧ b = rest := by
  induction h generalizing locals with
  | nil =>
    cases hparse
    exact ⟨(append_nil _).symm, rfl⟩
  | @group k n t types bs cs hn _ ih =>
    rw [append_assoc, cons_append, parseLocals, readU32_unsigned hn] at hparse
    simp only at hparse
    split at hparse
    · cases hparse
    · obtain ⟨rfl, rfl⟩ := ih hparse
      exact ⟨append_assoc .., rfl⟩

lemma parseCode_eq_ok {code : List UInt8} {body : List Wasm.Instr} {program : List Instruction}
    (h : Wasm.EncodesCode types body code) (hparse : parseCode code = .ok (locals, program)) :
    locals = types ∧ ∃ bs fuel p, Wasm.Encodes body bs ∧
      parseInstructionsWithBudget fuel 0 (bs ++ [0x0b]) 0 = .ok p ∧ program = p.code := by
  obtain @⟨k, _, _, bs, cs, ds, hk, hlocals, hbody⟩ := h
  rw [append_assoc, append_assoc, parseCode, readU32_unsigned hk] at hparse
  simp only [bind, Except.bind] at hparse
  split at hparse
  · cases hparse
  · split at hparse
    · cases hparse
    · rename_i r hr
      obtain ⟨hlocals', hrest⟩ := parseLocals_encodes hlocals hr
      split at hparse
      · cases hparse
      · rename_i p hp
        rw [hrest] at hp
        split at hparse
        · cases hparse
        · cases hparse
          exact ⟨by rw [hlocals', nil_append], ds, _, p, hbody, hp, rfl⟩

/-- On a body without foreign immediates the decoder fails or finds the locals and the
instructions that the grammar assigns to the bytes. -/
theorem parseCode_encodes {types locals code : List UInt8} {body : List Wasm.Instr}
    {program : List Instruction} (h : Wasm.EncodesCode types body code)
    (hplain : plain body = true) (hparse : parseCode code = .ok (locals, program)) :
    locals = types ∧ program = instructionsOf body := by
  obtain ⟨hlocals, bs, fuel, p, hbody, hp, rfl⟩ := parseCode_eq_ok h hparse
  exact ⟨hlocals, (parse_encodes hbody hplain (Or.inl rfl) hp).1⟩

end Symkernel.Verify
