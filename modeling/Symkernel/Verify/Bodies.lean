import Symkernel.Library.Wasm.Module
import Symkernel.Verify.Grammar
import Symkernel.Verify.Safety

/-!
# Decoding function bodies
-/

namespace Symkernel.Verify

open Library Library.Leb128 List

lemma sizeAll_cons (i : Instruction) (is : List Instruction) :
    sizeAll (i :: is) = i.size + sizeAll is := by
  rw [sizeAll]

lemma nestingAll_cons (i : Instruction) (is : List Instruction) :
    nestingAll (i :: is) = max i.nesting (nestingAll is) := by
  rw [nestingAll]

variable {n fuel count controlDepth : Nat} {b c bs code rest locals : List UInt8} {i : Instruction}

lemma parse_leaf {op : UInt8} (hstop : ¬(op = 0x0b ∨ op = 0x05)) (hop : op ≠ 0x04)
    (hcount : count + 1 ≤ maxWasmInstructions) (hread : readImmediate op b = .ok (i, c)) :
    parseInstructionsWithBudget (fuel + 1) controlDepth (op :: b) count =
      (do let tail ← parseInstructionsWithBudget fuel controlDepth c (count + 1)
          .ok { tail with code := i :: tail.code }) := by
  rw [parseInstructionsWithBudget, if_neg hstop, if_neg (by omega)]
  simp only [parseInstruction, if_neg hop, hread, bind, Except.bind]

variable {parse : List UInt8 → Nat → Except Failure Parsed}

lemma parseIf_else {d : List UInt8} {k : Nat} {yes no : List Instruction}
    (hyes : parse b count = .ok ⟨yes, c, 0x05, n⟩) (hno : parse c n = .ok ⟨no, d, 0x0b, k⟩) :
    parseIf parse b count = .ok (.mk 0x04 0 0 yes no, d, k) := by
  simp only [parseIf, hyes, hno, bind, Except.bind, if_true, ne_eq, not_true_eq_false, if_false]

lemma parseIf_end {yes : List Instruction} (hyes : parse b count = .ok ⟨yes, c, 0x0b, n⟩) :
    parseIf parse b count = .ok (.mk 0x04 0 0 yes [], c, n) := by
  rw [parseIf, hyes]
  rfl

lemma parse_branches (t : UInt8) {count' : Nat} (hdepth : controlDepth < maxWasmControlDepth)
    (hcount : count + 1 ≤ maxWasmInstructions)
    (hif : parseIf (parseInstructionsWithBudget fuel (controlDepth + 1)) b (count + 1) =
      .ok (i, c, count')) :
    parseInstructionsWithBudget (fuel + 1) controlDepth (0x04 :: t :: b) count =
      (do let tail ← parseInstructionsWithBudget fuel controlDepth c count'
          .ok { tail with code := i :: tail.code }) := by
  rw [parseInstructionsWithBudget, if_neg (by decide), if_neg (by omega)]
  simp only [parseInstruction, if_true, if_neg (Nat.not_le.mpr hdepth), hif, bind, Except.bind]

variable {is : List Wasm.Instr}

/-- With enough fuel and within the limits the decoder finds the instructions of the grammar. -/
lemma parse_complete (h : Wasm.Encodes is bs) (hplain : plain is = true) {stop : UInt8}
    (hstop : stop = 0x0b ∨ stop = 0x05) (hfuel : bs.length < fuel)
    (hcount : count + sizeAll (instructionsOf is) ≤ maxWasmInstructions)
    (hdepth : nestingAll (instructionsOf is) + controlDepth ≤ maxWasmControlDepth) :
    parseInstructionsWithBudget fuel controlDepth (bs ++ stop :: rest) count =
      .ok ⟨instructionsOf is, rest, stop, count + sizeAll (instructionsOf is)⟩ := by
  induction h generalizing fuel controlDepth count stop rest with
  | nil =>
    obtain ⟨fuel, rfl⟩ : ∃ k, fuel = k + 1 := ⟨fuel - 1, by omega⟩
    rw [nil_append, parseInstructionsWithBudget, if_pos hstop]
    rfl
  | @instr i is bs cs hi _ ih =>
    rw [plain, Bool.and_eq_true] at hplain
    obtain ⟨op, b, rfl, h4, h5, hb, hread⟩ := readImmediate_encodes hi hplain.1
    obtain ⟨fuel, rfl⟩ : ∃ k, fuel = k + 1 := ⟨fuel - 1, by omega⟩
    have hleaf : (instructionOf i).isLeaf :=
      ((readImmediate_safe h4 (b ++ [])).of_eq_ok (hread [])).1
    rw [instructionsOf, sizeAll_cons, hleaf.1] at hcount ⊢
    rw [instructionsOf, nestingAll_cons] at hdepth
    simp only [length_append, length_cons] at hfuel
    rw [append_assoc, cons_append, parse_leaf (not_or.mpr ⟨hb, h5⟩) h4 (by omega) (hread _),
      ih hplain.2 hstop (by omega) (by omega) (by omega)]
    simp only [bind, Except.bind, Nat.add_assoc]
  | @ite bt thn els is bs cs ds _ _ _ _ ihThn ihEls ih =>
    simp only [plain, plainInstr, Bool.and_eq_true, beq_iff_eq] at hplain
    obtain ⟨⟨⟨hbt, hthn⟩, hels⟩, his⟩ := hplain
    obtain ⟨t, rfl⟩ := List.length_eq_one_iff.mp hbt
    obtain ⟨fuel, rfl⟩ : ∃ k, fuel = k + 1 := ⟨fuel - 1, by omega⟩
    rw [instructionsOf, instructionOf, sizeAll_cons, Instruction.size] at hcount ⊢
    rw [instructionsOf, instructionOf, nestingAll_cons, Instruction.nesting, if_pos rfl] at hdepth
    simp only [length_append, length_cons] at hfuel
    simp only [cons_append, nil_append, append_assoc]
    have hyes : parseInstructionsWithBudget fuel (controlDepth + 1)
        (bs ++ 0x05 :: (cs ++ 0x0b :: (ds ++ stop :: rest))) (count + 1) = _ :=
      ihThn hthn (Or.inr rfl) (by omega) (by omega) (by omega)
    have hno : parseInstructionsWithBudget fuel (controlDepth + 1)
        (cs ++ 0x0b :: (ds ++ stop :: rest)) (count + 1 + sizeAll (instructionsOf thn)) = _ :=
      ihEls hels (Or.inl rfl) (by omega) (by omega) (by omega)
    rw [parse_branches t (by omega) (by omega) (parseIf_else hyes hno),
      ih his hstop (by omega) (by omega) (by omega)]
    simp only [bind, Except.bind, Nat.add_assoc]
  | @iteThen bt thn is bs ds _ _ _ ihThn ih =>
    simp only [plain, plainInstr, Bool.and_eq_true, beq_iff_eq] at hplain
    obtain ⟨⟨⟨hbt, hthn⟩, -⟩, his⟩ := hplain
    obtain ⟨t, rfl⟩ := List.length_eq_one_iff.mp hbt
    obtain ⟨fuel, rfl⟩ : ∃ k, fuel = k + 1 := ⟨fuel - 1, by omega⟩
    rw [instructionsOf, instructionOf, sizeAll_cons, Instruction.size] at hcount ⊢
    rw [instructionsOf, instructionOf, nestingAll_cons, Instruction.nesting, if_pos rfl] at hdepth
    simp only [length_append, length_cons] at hfuel
    have hempty : sizeAll (instructionsOf []) = 0 := by rw [instructionsOf, sizeAll]
    rw [hempty] at hcount ⊢
    simp only [cons_append, nil_append, append_assoc]
    have hyes : parseInstructionsWithBudget fuel (controlDepth + 1)
        (bs ++ 0x0b :: (ds ++ stop :: rest)) (count + 1) = _ :=
      ihThn hthn (Or.inl rfl) (by omega) (by omega) (by omega)
    rw [parse_branches t (by omega) (by omega) (parseIf_end hyes),
      ih his hstop (by omega) (by omega) (by omega)]
    simp only [bind, Except.bind, instructionsOf, Nat.add_assoc, Nat.add_zero]
  | block => simp [plain, plainInstr] at hplain

mutual

def supportedInstr : Wasm.Instr → Bool
  | .ite _ thn els => supported thn && supported els
  | .block .. => false
  | .foreign .. => false
  | _ => true

def supported : List Wasm.Instr → Bool
  | [] => true
  | i :: is => supportedInstr i && supported is

end

mutual

/-- The block types of all `if` instructions take one byte. -/
def oneByteInstr : Wasm.Instr → Bool
  | .ite bt thn els => bt.length == 1 && oneByteTypes thn && oneByteTypes els
  | _ => true

def oneByteTypes : List Wasm.Instr → Bool
  | [] => true
  | i :: is => oneByteInstr i && oneByteTypes is

end

/-- The second byte of a longer block type is not an opcode of the integer core. -/
def foreignSecond : List UInt8 → Bool
  | _ :: y :: _ => y ∉ Wasm.operandOpcodes && (Wasm.bareInstr y).isNone
  | _ => true

mutual

/-- The second bytes of longer block types cannot be taken for supported instructions. -/
def unmistakableInstr : Wasm.Instr → Bool
  | .ite bt thn els => foreignSecond bt && unmistakable thn && unmistakable els
  | _ => true

def unmistakable : List Wasm.Instr → Bool
  | [] => true
  | i :: is => unmistakableInstr i && unmistakable is

end

mutual

lemma plainInstr_of_supported : ∀ i : Wasm.Instr, supportedInstr i = true →
    oneByteInstr i = true → plainInstr i = true
  | .ite bt thn els, hs, ho => by
    simp only [supportedInstr, oneByteInstr, Bool.and_eq_true] at hs ho
    simp only [plainInstr, ho.1.1, plain_of_supported thn hs.1 ho.1.2,
      plain_of_supported els hs.2 ho.2, Bool.and_true]
  | .block .., hs, _ => by simp [supportedInstr] at hs
  | .foreign .., hs, _ => by simp [supportedInstr] at hs
  | .localGet _, _, _ | .localSet _, _, _ | .localTee _, _, _ | .i32Const _, _, _
  | .i64Const _, _, _ | .eqz _, _, _ | .rel _ _, _, _ | .bin _ _, _, _ | .drop, _, _ => by
    simp only [plainInstr]

lemma plain_of_supported : ∀ is : List Wasm.Instr, supported is = true →
    oneByteTypes is = true → plain is = true
  | [], _, _ => by rw [plain]
  | i :: is, hs, ho => by
    simp only [supported, oneByteTypes, Bool.and_eq_true] at hs ho
    rw [plain, plainInstr_of_supported i hs.1 ho.1, plain_of_supported is hs.2 ho.2, Bool.and_true]

end

lemma opcode_of_supported (h : Wasm.Encodes is bs) (hs : supported is = true)
    {code : List Instruction} (hcode : instructionsOf is = i :: code) :
    i.opcode ∈ Wasm.operandOpcodes ∨ (Wasm.bareInstr i.opcode).isSome := by
  cases h with
  | nil => simp [instructionsOf] at hcode
  | @instr j is bs cs hj _ =>
    obtain ⟨rfl, -⟩ := hcode
    simp only [supported] at hs
    cases hj with
    | bare hbare =>
      rw [instructionOf_bare hbare]
      exact Or.inr (by rw [Instruction.opcode, hbare]; rfl)
    | foreign => simp [supportedInstr] at hs
    | _ => exact Or.inl (by simp only [instructionOf, Instruction.opcode]; decide)
  | ite | iteThen =>
    rw [instructionsOf, instructionOf] at hcode
    obtain ⟨rfl, -⟩ := hcode
    exact Or.inl (by rw [Instruction.opcode]; decide)
  | block => simp [supported, supportedInstr] at hs

lemma branch_ne_of_foreignSecond {thn : List Wasm.Instr} (h : Wasm.Encodes thn bs)
    (hs : supported thn = true) {x y : UInt8} {bt : List UInt8}
    (hy : foreignSecond (x :: y :: bt) = true) {p : Parsed}
    (hparse : parseInstructionsWithBudget fuel controlDepth (y :: b) count = .ok p) :
    p.code ≠ instructionsOf thn := by
  simp only [foreignSecond, Bool.and_eq_true, decide_eq_true_eq, Option.isNone_iff_eq_none] at hy
  obtain ⟨hop, hbare⟩ := hy
  have hstop : ¬(y = 0x0b ∨ y = 0x05) :=
    not_or.mpr ⟨ne_of_notMem hop (by decide), ne_of_notMem hop (by decide)⟩
  obtain ⟨fuel', i, b', count', tail, hi, -, rfl⟩ := parse_cons hstop hparse
  simp only [parseInstruction, if_neg (ne_of_notMem hop (show 0x04 ∈ _ by decide)),
    readImmediate_of_notMem hop] at hi
  cases hi
  intro hcode
  obtain hmem | hsome := opcode_of_supported h hs hcode.symm
  · exact hop hmem
  · rw [Instruction.opcode, hbare] at hsome
    cases hsome

lemma oneByteTypes_of_parse (h : Wasm.Encodes is bs) (hs : supported is = true)
    (hu : unmistakable is = true) {stop : UInt8} {p : Parsed} (hstop : stop = 0x0b ∨ stop = 0x05)
    (hparse : parseInstructionsWithBudget fuel controlDepth (bs ++ stop :: rest) count = .ok p)
    (hcode : p.code = instructionsOf is) : oneByteTypes is = true := by
  induction h generalizing fuel controlDepth count stop rest p with
  | nil => rw [oneByteTypes]
  | @instr i is bs cs hi _ ih =>
    simp only [supported, unmistakable, Bool.and_eq_true] at hs hu
    have hone : oneByteInstr i = true := by
      cases hi with
      | bare hbare =>
        obtain ⟨-, rfl | ⟨t, rfl⟩ | ⟨t, r, rfl⟩ | ⟨t, b, rfl⟩⟩ := Wasm.bareInstr_cases hbare <;>
          rw [oneByteInstr] <;> nofun
      | _ => rw [oneByteInstr]; nofun
    obtain ⟨op, b, rfl, h4, h5, hb, hread⟩ :=
      readImmediate_encodes hi (plainInstr_of_supported i hs.1 hone)
    rw [cons_append, cons_append, append_assoc] at hparse
    obtain ⟨fuel', j, b', count', tail, hj, htail, rfl⟩ := parse_cons (not_or.mpr ⟨hb, h5⟩) hparse
    simp only [parseInstruction, if_neg h4, hread] at hj
    cases hj
    rw [instructionsOf, List.cons.injEq] at hcode
    rw [oneByteTypes, hone, ih hs.2 hu.2 hstop htail hcode.2, Bool.and_true]
  | @ite bt thn els is bs cs ds hbt hthn hels _ ihThn ihEls ih =>
    simp only [supported, supportedInstr, unmistakable, unmistakableInstr, Bool.and_eq_true]
      at hs hu
    obtain ⟨⟨hsThn, hsEls⟩, hsIs⟩ := hs
    obtain ⟨⟨⟨hfirst, huThn⟩, huEls⟩, huIs⟩ := hu
    cases bt with
    | nil => exact absurd hbt.ne_nil (by simp)
    | cons x bt =>
      simp only [append_assoc] at hparse
      obtain ⟨fuel', j, b', count', tail, hj, htail, rfl⟩ := parse_if hparse
      obtain ⟨yes, hyes, hcases⟩ := parseIf_eq_ok hj
      rw [instructionsOf, instructionOf, List.cons.injEq] at hcode
      have hbranch : yes.code = instructionsOf thn := by
        obtain ⟨-, rfl, -⟩ | ⟨no, -, -, rfl, -⟩ := hcases <;>
          exact (Instruction.mk.inj hcode.1).2.2.2.1
      cases bt with
      | cons y bt => exact absurd hbranch (branch_ne_of_foreignSecond hthn hsThn hfirst hyes)
      | nil =>
        have honeThn := ihThn hsThn huThn (Or.inr rfl) hyes hbranch
        obtain ⟨-, hyesRest, hyesStop⟩ :=
          parse_encodes hthn (plain_of_supported thn hsThn honeThn) (Or.inr rfl) hyes
        obtain ⟨hne, -⟩ | ⟨no, -, hno, rfl, rfl⟩ := hcases
        · exact absurd hyesStop hne
        · have hnoCode : no.code = instructionsOf els := (Instruction.mk.inj hcode.1).2.2.2.2
          rw [hyesRest] at hno
          have honeEls := ihEls hsEls huEls (Or.inl rfl) hno hnoCode
          obtain ⟨-, hnoRest, -⟩ :=
            parse_encodes hels (plain_of_supported els hsEls honeEls) (Or.inl rfl) hno
          rw [hnoRest] at htail
          have honeIs := ih hsIs huIs hstop htail hcode.2
          simp [oneByteTypes, oneByteInstr, honeThn, honeEls, honeIs]
  | @iteThen bt thn is bs ds hbt hthn _ ihThn ih =>
    simp only [supported, supportedInstr, unmistakable, unmistakableInstr, Bool.and_eq_true]
      at hs hu
    obtain ⟨⟨hsThn, -⟩, hsIs⟩ := hs
    obtain ⟨⟨⟨hfirst, huThn⟩, -⟩, huIs⟩ := hu
    cases bt with
    | nil => exact absurd hbt.ne_nil (by simp)
    | cons x bt =>
      simp only [append_assoc] at hparse
      obtain ⟨fuel', j, b', count', tail, hj, htail, rfl⟩ := parse_if hparse
      obtain ⟨yes, hyes, hcases⟩ := parseIf_eq_ok hj
      rw [instructionsOf, instructionOf, List.cons.injEq] at hcode
      have hbranch : yes.code = instructionsOf thn := by
        obtain ⟨-, rfl, -⟩ | ⟨no, -, -, rfl, -⟩ := hcases <;>
          exact (Instruction.mk.inj hcode.1).2.2.2.1
      cases bt with
      | cons y bt => exact absurd hbranch (branch_ne_of_foreignSecond hthn hsThn hfirst hyes)
      | nil =>
        have honeThn := ihThn hsThn huThn (Or.inl rfl) hyes hbranch
        obtain ⟨-, hyesRest, hyesStop⟩ :=
          parse_encodes hthn (plain_of_supported thn hsThn honeThn) (Or.inl rfl) hyes
        obtain ⟨-, rfl, rfl⟩ | ⟨no, h5, -⟩ := hcases
        · rw [hyesRest] at htail
          have honeIs := ih hsIs huIs hstop htail hcode.2
          simp [oneByteTypes, oneByteInstr, honeThn, honeIs]
        · rw [hyesStop] at h5
          cases h5
  | block => simp [supported, supportedInstr] at hs

structure FuncFits (f : Wasm.Func) : Prop where
  groups : f.groups.length ≤ maxWasmVectorItems
  locals : f.locals.length ≤ maxWasmLocals
  size : sizeAll (instructionsOf f.body) ≤ maxWasmInstructions
  nesting : nestingAll (instructionsOf f.body) ≤ maxWasmControlDepth

lemma group_ne_nil {g : Nat × UInt8} (h : Wasm.EncodesGroup g bs) : bs ≠ [] := by
  cases h
  simp

lemma parseLocals_complete {groups : List (Nat × UInt8)}
    (h : Wasm.Items Wasm.EncodesGroup groups bs)
    (hlocals : (locals ++ groups.flatMap fun g => List.replicate g.1 g.2).length ≤ maxWasmLocals)
    (rest : List UInt8) : parseLocals groups.length locals (bs ++ rest) =
      .ok (locals ++ groups.flatMap fun g => List.replicate g.1 g.2, rest) := by
  induction h generalizing locals with
  | nil => simp [parseLocals]
  | @cons g groups bs cs hg _ ih =>
    obtain @⟨n, t, bs, hn⟩ := hg
    rw [flatMap_cons, ← append_assoc] at hlocals ⊢
    simp only [length_append, length_replicate] at hlocals
    rw [length_cons, append_assoc, append_assoc, parseLocals, readU32_unsigned hn]
    simp only [singleton_append]
    rw [if_neg (by omega)]
    exact ih (by simp only [length_append, length_replicate]; omega)

lemma parseCode_complete {f : Wasm.Func} (h : Wasm.EncodesBody f code) (hf : FuncFits f)
    (hplain : plain f.body = true) : parseCode code = .ok (f.locals, instructionsOf f.body) := by
  obtain @⟨type, groups, body, _, bs, ⟨hn, hgroups⟩, hbody⟩ := h
  have hlength := hgroups.length_le fun _ _ => group_ne_nil
  have hbound := hf.groups
  have hlocals := hf.locals
  simp only at hbound
  rw [append_assoc, append_assoc, parseCode, readU32_unsigned hn]
  simp only [bind, Except.bind]
  rw [if_neg (by rw [length_append]; omega),
    parseLocals_complete hgroups (by simpa [Wasm.Func.locals] using hlocals)]
  have hcode : parseInstructions (bs ++ [0x0b]) = _ :=
    parse_complete hbody hplain (Or.inl rfl) (by rw [length_append]; omega)
      (by rw [Nat.zero_add]; exact hf.size) hf.nesting
  simp only [hcode, ne_eq, not_true_eq_false, or_self, if_false, Wasm.Func.locals, nil_append]

lemma oneByteTypes_of_parseCode {f : Wasm.Func} (h : Wasm.EncodesBody f code)
    (hs : supported f.body = true) (hu : unmistakable f.body = true)
    (hparse : parseCode code = .ok (locals, instructionsOf f.body)) :
    oneByteTypes f.body = true := by
  obtain ⟨-, bs, fuel, p, hbody, hp, hcode⟩ := parseCode_eq_ok h.encodesCode hparse
  exact oneByteTypes_of_parse hbody hs hu (Or.inl rfl) hp hcode.symm

end Symkernel.Verify
