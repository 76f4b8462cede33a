import Symkernel.Verify.Decode

/-!
# The decoder on arbitrary bytes
-/

namespace Symkernel.Verify

open Library List

/-- The result is a value with `P` or an error of the source. -/
def Safe {α : Type} (P : α → Prop) : Except Failure α → Prop
  | .ok a => P a
  | .error (.error _) => True
  | .error .panic => False
  | .error .exhausted => False

section Rules

variable {α β : Type} {P Q : α → Prop} {x : Except Failure α}

lemma Safe.ok {a : α} (h : P a) : Safe P (.ok a) :=
  h

lemma Safe.fail (message : String) : Safe P (Verify.fail message) :=
  trivial

lemma Safe.error (err : GoError) : Safe P (.error (.error err)) :=
  trivial

lemma Safe.mono (h : Safe P x) (hPQ : ∀ a, P a → Q a) : Safe Q x := by
  match x, h with
  | .ok a, h => exact hPQ a h
  | .error (.error _), _ => trivial

lemma Safe.bind {R : β → Prop} {f : α → Except Failure β} (h : Safe P x)
    (hf : ∀ a, P a → Safe R (f a)) : Safe R (x >>= f) := by
  match x, h with
  | .ok a, h => exact hf a h
  | .error (.error _), _ => trivial

lemma Safe.cases (h : Safe P x) : (∃ a, x = .ok a ∧ P a) ∨ ∃ err, x = .error (.error err) := by
  match x, h with
  | .ok a, h => exact Or.inl ⟨a, rfl, h⟩
  | .error (.error err), _ => exact Or.inr ⟨err, rfl⟩

lemma Safe.of_eq_ok {a : α} (h : Safe P x) (ha : x = .ok a) : P a := by
  subst ha
  exact h

end Rules

lemma readU32Loop_safe (k shift : Nat) (v : BitVec 32) (b : List UInt8) :
    Safe (fun r => r.2.length < b.length) (readU32Loop k shift v b) := by
  induction k generalizing shift v b with
  | zero => exact Safe.fail _
  | succ k ih =>
    cases b with
    | nil => exact Safe.fail _
    | cons x b =>
      rw [readU32Loop]
      split
      · exact Safe.ok (Nat.lt_succ_self _)
      · exact (ih _ _ _).mono fun r hr => Nat.lt_succ_of_lt hr

lemma readU32_safe (b : List UInt8) : Safe (fun r => r.2.length < b.length) (readU32 b) :=
  readU32Loop_safe 5 0 0 b

lemma readS64Loop_safe (shift : Nat) (v : BitVec 64) (b : List UInt8) :
    Safe (fun r => r.2.length < b.length) (readS64Loop shift v b) := by
  induction b generalizing shift v with
  | nil => exact Safe.fail _
  | cons x b ih =>
    rw [readS64Loop]
    split
    · exact Safe.fail _
    · split
      · exact Safe.ok (Nat.lt_succ_self _)
      · exact (ih _ _).mono fun r hr => Nat.lt_succ_of_lt hr

variable {b : List UInt8} {n fuel count controlDepth : Nat}

lemma splitSlice_safe (h : n ≤ b.length) :
    Safe (fun r => r = (b.take n, b.drop n)) (splitSlice b n) := by
  rw [splitSlice, if_pos h]
  exact Safe.ok rfl

/-! ### Instructions -/

mutual

def Instruction.size : Instruction → Nat
  | .mk _ _ _ thenCode otherwise => 1 + sizeAll thenCode + sizeAll otherwise

def sizeAll : List Instruction → Nat
  | [] => 0
  | i :: is => i.size + sizeAll is

end

mutual

def Instruction.nesting : Instruction → Nat
  | .mk op _ _ thenCode otherwise =>
    (if op = 0x04 then 1 else 0) + max (nestingAll thenCode) (nestingAll otherwise)

def nestingAll : List Instruction → Nat
  | [] => 0
  | i :: is => max i.nesting (nestingAll is)

end

/-- What reading `size` instructions nested `nesting` deep from `b` leaves, when `count` were
read before and `controlDepth` levels are open. -/
structure Within (b : List UInt8) (count controlDepth size nesting : Nat) (rest : List UInt8)
    (count' : Nat) : Prop where
  length : rest.length < b.length
  count : count' = count + size
  limit : count' ≤ maxWasmInstructions
  depth : nesting + controlDepth ≤ maxWasmControlDepth

lemma Within.append {c rest : List UInt8} {m s t count' count'' : Nat}
    (hc : Within b count controlDepth m s c count')
    (hrest : Within c count' controlDepth n t rest count'') :
    Within b count controlDepth (m + n) (max s t) rest count'' where
  length := Nat.lt_trans hrest.length hc.length
  count := by rw [hrest.count, hc.count, Nat.add_assoc]
  limit := hrest.limit
  depth := by
    have hs := hc.depth
    have ht := hrest.depth
    omega

/-- The parser keeps the limits on fewer than `fuel` bytes. -/
def ParsesWithin (fuel controlDepth : Nat) (parse : List UInt8 → Nat → Except Failure Parsed) :
    Prop :=
  ∀ b count, b.length < fuel → count ≤ maxWasmInstructions → Safe (fun p =>
    Within b count controlDepth (sizeAll p.code) (nestingAll p.code) p.rest p.count) (parse b count)

variable {parse : List UInt8 → Nat → Except Failure Parsed}

lemma parseIf_safe (hparse : ParsesWithin fuel (controlDepth + 1) parse) (hfuel : b.length < fuel)
    (hcount : count + 1 ≤ maxWasmInstructions) :
    Safe (fun r => Within b count controlDepth r.1.size r.1.nesting r.2.1 r.2.2)
      (parseIf parse b (count + 1)) := by
  refine (hparse b _ hfuel hcount).bind fun yes hyes => ?_
  have hempty : sizeAll [] = 0 ∧ nestingAll [] = 0 := by simp [sizeAll, nestingAll]
  split
  · refine (hparse yes.rest _ (Nat.lt_trans hyes.length hfuel) hyes.limit).bind fun no hno => ?_
    have hboth := hyes.append hno
    split
    · exact Safe.fail _
    · refine Safe.ok ⟨hboth.length, ?_, hboth.limit, ?_⟩
      · simp only [Instruction.size, hboth.count]
        omega
      · have := hboth.depth
        simp only [Instruction.nesting, if_true]
        omega
  · refine Safe.ok ⟨hyes.length, ?_, hyes.limit, ?_⟩
    · simp only [Instruction.size, hyes.count]
      omega
    · have := hyes.depth
      simp only [Instruction.nesting, if_true]
      omega

def Instruction.isLeaf (i : Instruction) : Prop :=
  i.size = 1 ∧ i.nesting = 0

lemma isLeaf_mk {op : UInt8} (hop : op ≠ 0x04) (index : Nat) (value : BitVec 64) :
    (Instruction.mk op index value [] []).isLeaf := by
  simp [Instruction.isLeaf, Instruction.size, Instruction.nesting, sizeAll, nestingAll, hop]

lemma readImmediate_safe {op : UInt8} (hop : op ≠ 0x04) (b : List UInt8) :
    Safe (fun r => r.1.isLeaf ∧ r.2.length ≤ b.length) (readImmediate op b) := by
  unfold readImmediate
  split
  iterate 3 exact (readU32_safe b).bind fun r hr => Safe.ok ⟨isLeaf_mk hop _ _, Nat.le_of_lt hr⟩
  iterate 2
    exact (readS64Loop_safe 0 0 b).bind fun r hr => Safe.ok ⟨isLeaf_mk hop _ _, Nat.le_of_lt hr⟩
  exact Safe.ok ⟨isLeaf_mk hop _ _, Nat.le_refl _⟩

lemma parseInstruction_safe (hdepth : controlDepth ≤ maxWasmControlDepth)
    (hparse : controlDepth + 1 ≤ maxWasmControlDepth → ParsesWithin fuel (controlDepth + 1) parse)
    (op : UInt8) (hfuel : b.length < fuel) (hcount : count + 1 ≤ maxWasmInstructions) :
    Safe (fun r => Within (op :: b) count controlDepth r.1.size r.1.nesting r.2.1 r.2.2)
      (parseInstruction parse controlDepth op b (count + 1)) := by
  unfold parseInstruction
  split
  · split
    · exact Safe.fail _
    · rename_i hopen
      cases b with
      | nil => exact Safe.fail _
      | cons t b =>
        refine (parseIf_safe (hparse (by omega)) (Nat.lt_of_succ_lt hfuel) hcount).mono
          fun r hr => ?_
        exact ⟨by have := hr.length; simp only [length_cons]; omega, hr.count, hr.limit, hr.depth⟩
  · rename_i hop
    refine (readImmediate_safe hop b).bind fun r hr => ?_
    obtain ⟨⟨hsize, hnesting⟩, hlength⟩ := hr
    refine Safe.ok ⟨Nat.lt_succ_of_le hlength, by simp only [hsize], hcount, ?_⟩
    simp only [hnesting]
    omega

lemma parseInstructionsWithBudget_safe (fuel : Nat) (hdepth : controlDepth ≤ maxWasmControlDepth) :
    ParsesWithin fuel controlDepth (parseInstructionsWithBudget fuel controlDepth) := by
  induction fuel generalizing controlDepth with
  | zero => exact fun _ _ hfuel _ => absurd hfuel (Nat.not_lt_zero _)
  | succ fuel ih =>
    intro b count hfuel hcount
    cases b with
    | nil => exact Safe.fail _
    | cons op b =>
      rw [parseInstructionsWithBudget]
      split
      · refine Safe.ok ⟨Nat.lt_succ_self _, ?_, hcount, ?_⟩ <;> simp only [nestingAll]
        · rfl
        · omega
      · split
        · exact Safe.fail _
        · have hb : b.length < fuel := Nat.lt_of_succ_lt_succ hfuel
          refine (parseInstruction_safe hdepth (fun h => ih h) op hb (by omega)).bind fun r hr => ?_
          have hrest : r.2.1.length < fuel := Nat.lt_of_le_of_lt (Nat.le_of_lt_succ hr.length) hb
          refine (ih hdepth r.2.1 r.2.2 hrest hr.limit).bind fun tail htail => ?_
          have hall := hr.append htail
          exact Safe.ok (by simpa only [sizeAll, nestingAll] using hall)

lemma parseLocals_safe (k : Nat) {locals : List UInt8} (hlocals : locals.length ≤ maxWasmLocals)
    (b : List UInt8) : Safe (fun r => r.1.length ≤ maxWasmLocals) (parseLocals k locals b) := by
  induction k generalizing locals b with
  | zero => exact Safe.ok hlocals
  | succ k ih =>
    rw [parseLocals]
    obtain ⟨⟨n, c⟩, heq, -⟩ | ⟨err, heq⟩ := (readU32_safe b).cases
    · rw [heq]
      cases c with
      | nil => exact Safe.fail _
      | cons typ c =>
        dsimp only
        split
        · exact Safe.fail _
        · apply ih
          rw [length_append, length_replicate]
          omega
    · rw [heq]
      exact Safe.fail _

lemma parseCode_safe (b : List UInt8) :
    Safe (fun r => r.1.length ≤ maxWasmLocals ∧ sizeAll r.2 ≤ maxWasmInstructions ∧
      nestingAll r.2 ≤ maxWasmControlDepth) (parseCode b) := by
  refine (readU32_safe b).bind fun r _ => ?_
  dsimp only
  split
  · exact Safe.fail _
  · refine (parseLocals_safe r.1 (Nat.zero_le _) r.2).bind fun locals hlocals => ?_
    refine (parseInstructionsWithBudget_safe _ (Nat.zero_le _) locals.2 0
      (Nat.lt_succ_self _) (Nat.zero_le _)).bind fun body hbody => ?_
    split
    · exact Safe.fail _
    · have hsize : sizeAll body.code = body.count := by rw [hbody.count, Nat.zero_add]
      exact Safe.ok ⟨hlocals, hsize ▸ hbody.limit, hbody.depth⟩

/-! ### Sections -/

lemma readItems_safe {α : Type} {P : α → Prop} {item : List UInt8 → Except Failure (α × List UInt8)}
    (hitem : ∀ b, Safe (fun r => P r.1) (item b)) (k : Nat) (b : List UInt8) :
    Safe (fun r => ∀ x ∈ r.1, P x) (readItems item k b) := by
  induction k generalizing b with
  | zero => exact Safe.ok (by simp)
  | succ k ih =>
    refine (hitem b).bind fun x hx => ?_
    refine (ih x.2).bind fun xs hxs => ?_
    exact Safe.ok (List.forall_mem_cons.mpr ⟨hx, hxs⟩)

lemma readVector_safe {α : Type} (message : String)
    {item : List UInt8 → Except Failure (α × List UInt8)}
    (hitem : ∀ b, Safe (fun _ => True) (item b)) (b : List UInt8) :
    Safe (fun _ => True) (readVector message item b) := by
  refine (readU32_safe b).bind fun r _ => ?_
  dsimp only
  split
  · exact Safe.fail _
  · exact (readItems_safe (P := fun _ => True) hitem r.1 r.2).mono fun _ _ => trivial

lemma readBytes_safe (message : String) (b : List UInt8) :
    Safe (fun _ => True) (readBytes message b) := by
  unfold readBytes
  obtain ⟨⟨n, c⟩, heq, -⟩ | ⟨err, heq⟩ := (readU32_safe b).cases
  · rw [heq]
    dsimp only
    split
    · exact Safe.fail _
    · exact (splitSlice_safe (by omega)).mono fun _ _ => trivial
  · rw [heq]
    exact Safe.fail _

/-- A type signature as the type section stores it: each list of types after its length. -/
structure Signature (sig params results : List UInt8) : Prop where
  params_le : params.length ≤ maxWasmParams
  results_le : results.length ≤ maxWasmParams
  eq : sig = UInt8.ofNat params.length :: params ++ UInt8.ofNat results.length :: results

lemma parseType_safe (b : List UInt8) :
    Safe (fun r => ∃ params results, Signature r.1 params results) (parseType b) := by
  unfold parseType
  split
  · refine (readU32_safe _).bind fun pc _ => ?_
    dsimp only
    split
    · exact Safe.fail _
    · refine (splitSlice_safe (by omega)).bind ?_
      rintro _ rfl
      refine (readU32_safe _).bind fun rc _ => ?_
      split
      · exact Safe.fail _
      · refine (splitSlice_safe (by omega)).bind ?_
        rintro _ rfl
        refine Safe.ok ⟨pc.2.take pc.1, rc.2.take rc.1, ?_, ?_, ?_⟩
        · rw [length_take]
          omega
        · rw [length_take]
          omega
        · rw [length_take, length_take, Nat.min_eq_left (by omega), Nat.min_eq_left (by omega)]
  · exact Safe.fail _

def Signatures (types : List (List UInt8)) : Prop :=
  ∀ sig ∈ types, ∃ params results, Signature sig params results

lemma parseTypes_safe (b : List UInt8) : Safe Signatures (parseTypes b) := by
  refine (readU32_safe b).bind fun r _ => ?_
  dsimp only
  split
  · exact Safe.fail _
  · exact (readItems_safe parseType_safe r.1 r.2).bind fun types htypes => Safe.ok htypes

lemma readU32_unpanicked (b : List UInt8) : Safe (fun _ => True) (readU32 b) :=
  (readU32_safe b).mono fun _ _ => trivial

lemma skipWasmLimits_safe (b : List UInt8) : Safe (fun _ => True) (skipWasmLimits b) := by
  refine (readU32_unpanicked b).bind fun flags _ => ?_
  dsimp only
  split
  · exact Safe.fail _
  · refine (readU32_unpanicked flags.2).bind fun least _ => ?_
    split
    · exact Safe.ok trivial
    · exact (readU32_unpanicked least.2).bind fun _ _ => Safe.ok trivial

lemma parseImport_safe (b : List UInt8) : Safe (fun _ => True) (parseImport b) := by
  refine (readBytes_safe _ b).bind fun r _ => ?_
  refine (readBytes_safe _ r.2).bind fun r _ => ?_
  dsimp only
  split
  · exact Safe.fail _
  · exact (readU32_unpanicked _).bind fun _ _ => Safe.ok trivial
  · exact Safe.fail _
  · exact (skipWasmLimits_safe _).bind fun _ _ => Safe.ok trivial
  · exact (skipWasmLimits_safe _).bind fun _ _ => Safe.ok trivial
  · exact Safe.ok trivial
  · exact Safe.fail _
  · exact Safe.fail _

lemma parseExport_safe (b : List UInt8) : Safe (fun _ => True) (parseExport b) := by
  refine (readBytes_safe _ b).bind fun r _ => ?_
  dsimp only
  split
  · exact Safe.fail _
  · exact (readU32_unpanicked _).bind fun _ _ => Safe.ok trivial

lemma readSection_safe {s : Sections} (hs : Signatures s.types) (id : UInt8) (b : List UInt8) :
    Safe (fun s' => Signatures s'.types) (readSection s id b) := by
  unfold readSection
  split
  · exact (parseTypes_safe b).bind fun types htypes => Safe.ok htypes
  · refine ((readVector_safe _ parseImport_safe b).bind ?_ : Safe (fun _ => True) _).bind
      fun _ _ => Safe.ok hs
    rintro ⟨imports, c⟩ _
    dsimp only
    split
    · exact Safe.fail _
    · exact Safe.ok trivial
  · exact ((readVector_safe _ readU32_unpanicked b).bind
      fun _ _ => Safe.ok trivial : Safe (fun _ => True) _).bind fun _ _ => Safe.ok hs
  · exact ((readVector_safe _ parseExport_safe b).bind
      fun _ _ => Safe.ok trivial : Safe (fun _ => True) _).bind fun _ _ => Safe.ok hs
  · exact ((readVector_safe _ (readBytes_safe _) b).bind
      fun _ _ => Safe.ok trivial : Safe (fun _ => True) _).bind fun _ _ => Safe.ok hs
  · exact Safe.ok hs

lemma readSections_safe {s : Sections} (hs : Signatures s.types) (hfuel : b.length ≤ fuel) :
    Safe (fun s' => Signatures s'.types) (readSections fuel s b) := by
  induction fuel generalizing s b with
  | zero =>
    obtain rfl := List.length_eq_zero_iff.mp (Nat.le_zero.mp hfuel)
    exact Safe.ok hs
  | succ fuel ih =>
    cases b with
    | nil => exact Safe.ok hs
    | cons id b =>
      refine (readU32_safe b).bind fun r hr => ?_
      dsimp only
      split
      · exact Safe.fail _
      · refine (splitSlice_safe (by omega)).bind ?_
        rintro _ rfl
        refine (readSection_safe hs id _).bind fun s' hs' => ih hs' ?_
        simp only [length_cons] at hfuel
        rw [length_drop]
        omega

lemma splitSignature_eq {sig params results : List UInt8} (h : Signature sig params results) :
    splitSignature sig = .ok (params, results) := by
  have hlength := h.params_le
  have hcount : (UInt8.ofNat params.length).toNat = params.length := by
    rw [UInt8.toNat_ofNat', Nat.mod_eq_of_lt (by simp only [maxWasmParams] at hlength; omega)]
  simp only [h.eq, splitSignature, cons_append, splitFirst, bind, Except.bind, hcount,
    splitSlice, length_append, Nat.le_add_right, if_true, take_left, drop_left]

structure WasmFunction.Bounded (f : WasmFunction) : Prop where
  params : f.params.length ≤ maxWasmParams
  results : f.results.length ≤ maxWasmParams
  locals : f.locals.length ≤ maxWasmLocals
  size : sizeAll f.body ≤ maxWasmInstructions
  nesting : nestingAll f.body ≤ maxWasmControlDepth

lemma parseExportedNamed_bounded (wasm name : List UInt8) (entrypoint : String) :
    Safe WasmFunction.Bounded (parseExportedNamed wasm name entrypoint) := by
  unfold parseExportedNamed
  split
  · exact Safe.fail _
  · refine (readSections_safe (s := ⟨[], [], [], [], 0⟩) (by simp [Signatures])
      (Nat.le_refl _)).bind fun s hs => ?_
    split
    · exact Safe.error _
    · split
      · exact Safe.error _
      · split
        · split
          · exact Safe.fail _
          · rename_i sig hsig
            obtain ⟨params, results, h⟩ := hs sig (List.mem_of_getElem? hsig)
            rw [splitSignature_eq h]
            refine (parseCode_safe _).bind fun r hr => ?_
            exact Safe.ok ⟨h.params_le, h.results_le, hr.1, hr.2.1, hr.2.2⟩
        · exact Safe.error _

/-- Untrusted bytes do not crash the decoder, its loops end by themselves, and what it returns
is within its limits. -/
theorem decoder_safe (wasm name : List UInt8) (entrypoint : String) :
    parseExportedNamed wasm name entrypoint ≠ .error .panic ∧
    parseExportedNamed wasm name entrypoint ≠ .error .exhausted ∧
    ∀ f, parseExportedNamed wasm name entrypoint = .ok f →
      f.params.length ≤ 64 ∧ f.results.length ≤ 64 ∧ f.locals.length ≤ 4096 ∧
        sizeAll f.body ≤ 16384 ∧ nestingAll f.body ≤ 256 := by
  obtain ⟨f, heq, hf⟩ | ⟨err, heq⟩ := (parseExportedNamed_bounded wasm name entrypoint).cases
  · rw [heq]
    refine ⟨nofun, nofun, ?_⟩
    rintro _ ⟨⟩
    exact ⟨hf.params, hf.results, hf.locals, hf.size, hf.nesting⟩
  · rw [heq]
    exact ⟨nofun, nofun, nofun⟩

end Symkernel.Verify
