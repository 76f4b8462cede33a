import Symkernel.Verify.Bodies

/-!
# The decoder undoes the encoder
-/

namespace Symkernel.Verify

open Library Library.Leb128 List

def ReadsItem {α β : Type} (R : α → List UInt8 → Prop) (f : α → β) (x : α)
    (item : List UInt8 → Except Failure (β × List UInt8)) : Prop :=
  ∀ bs rest, R x bs → item (bs ++ rest) = .ok (f x, rest)

variable {bs cs : List UInt8}

lemma readItems_complete {α β : Type} {R : α → List UInt8 → Prop} {f : α → β}
    {item : List UInt8 → Except Failure (β × List UInt8)} {xs : List α} (h : Wasm.Items R xs bs)
    (hitem : ∀ x ∈ xs, ReadsItem R f x item) (rest : List UInt8) :
    readItems item xs.length (bs ++ rest) = .ok (xs.map f, rest) := by
  induction h with
  | nil => rfl
  | @cons x xs bs cs hx _ ih =>
    obtain ⟨hfirst, htail⟩ := List.forall_mem_cons.mp hitem
    rw [length_cons, append_assoc, readItems, hfirst bs _ hx]
    simp only [bind, Except.bind, ih htail, map_cons]

lemma readVector_complete {α β : Type} {R : α → List UInt8 → Prop} {f : α → β}
    {item : List UInt8 → Except Failure (β × List UInt8)} {xs : List α} (h : Wasm.Vec R xs bs)
    (hpos : ∀ x bs, R x bs → bs ≠ []) (hlimit : xs.length ≤ maxWasmVectorItems)
    (hitem : ∀ x ∈ xs, ReadsItem R f x item) (message : String) :
    readVector message item bs = .ok (xs.map f, []) := by
  obtain ⟨hn, hitems⟩ := h
  have hlength := hitems.length_le hpos
  rw [readVector, readU32_unsigned hn]
  simp only [bind, Except.bind]
  rw [if_neg (by omega)]
  simpa using readItems_complete hitems hitem []

lemma splitSlice_append (bs rest : List UInt8) :
    splitSlice (bs ++ rest) bs.length = .ok (bs, rest) := by
  rw [splitSlice, if_pos (by rw [length_append]; omega), take_left, drop_left]

lemma readBytes_complete (h : Wasm.Sized bs cs) (message : String) (rest : List UInt8) :
    readBytes message (cs ++ rest) = .ok (bs, rest) := by
  obtain ⟨hn⟩ := h
  rw [append_assoc, readBytes, readU32_unsigned hn]
  simp only [length_append]
  rw [if_neg (by omega), splitSlice_append]

/-! ### The contents of sections -/

def signatureOf (t : Wasm.FuncType) : List UInt8 :=
  UInt8.ofNat t.params.length :: t.params ++ UInt8.ofNat t.results.length :: t.results

lemma parseType_complete {t : Wasm.FuncType} (hparams : t.params.length ≤ maxWasmParams)
    (hresults : t.results.length ≤ maxWasmParams) :
    ReadsItem Wasm.EncodesFuncType signatureOf t parseType := by
  rintro _ rest @⟨params, results, _, _, ⟨hp⟩, ⟨hr⟩⟩
  simp only at hparams hresults
  simp only [cons_append, append_assoc, parseType, readU32_unsigned hp, bind,
    Except.bind, length_append]
  rw [if_neg (by omega), splitSlice_append]
  simp only [readU32_unsigned hr, length_append]
  rw [if_neg (by omega), splitSlice_append]
  simp only [signatureOf, cons_append]

lemma skipWasmLimits_complete {l : Wasm.Limits} (h : Wasm.EncodesLimits l bs) (rest : List UInt8) :
    skipWasmLimits (bs ++ rest) = .ok rest := by
  have hzero : Unsigned 32 [0x00] 0 := .last (by decide) (by decide)
  have hone : Unsigned 32 [0x01] 1 := .last (by decide) (by decide)
  cases h with
  | unbounded hn =>
    rw [cons_append, ← singleton_append, skipWasmLimits, readU32_unsigned hzero]
    simp only [bind, Except.bind, readU32_unsigned hn, Nat.not_lt_zero, if_false, if_true]
  | bounded hn hm =>
    rw [cons_append, cons_append, append_assoc, ← singleton_append,
      skipWasmLimits, readU32_unsigned hone]
    simp only [bind, Except.bind, readU32_unsigned hn, readU32_unsigned hm, Nat.lt_irrefl,
      if_false, Nat.one_ne_zero]

lemma parseImport_complete (i : Wasm.Import) :
    ReadsItem Wasm.EncodesImport (fun i => i.desc.isFunc) i parseImport := by
  rintro _ rest @⟨origin, name, desc, os, ns, ds, ho, hn, hd⟩
  rw [append_assoc, append_assoc, parseImport, readBytes_complete ho]
  simp only [bind, Except.bind, readBytes_complete hn]
  cases hd with
  | func hx => simp only [cons_append, readU32_unsigned hx, Wasm.ImportDesc.isFunc]
  | table hl => simp only [cons_append, skipWasmLimits_complete hl, Wasm.ImportDesc.isFunc]
  | memory hl => simp only [cons_append, skipWasmLimits_complete hl, Wasm.ImportDesc.isFunc]
  | global => simp only [cons_append, nil_append, Wasm.ImportDesc.isFunc]

lemma parseExport_complete (e : Wasm.Export) :
    ReadsItem Wasm.EncodesExport (fun e => (e.name, e.kind.byte, e.index)) e parseExport := by
  rintro _ rest @⟨name, kind, index, ns, bs, hn, hi⟩
  rw [append_assoc, parseExport, readBytes_complete hn]
  simp only [bind, Except.bind, cons_append, readU32_unsigned hi]

lemma unsigned_ne_nil {N n : Nat} (h : Unsigned N bs n) : bs ≠ [] := by
  cases h <;> nofun

lemma sized_ne_nil (h : Wasm.Sized bs cs) : cs ≠ [] := by
  obtain ⟨hn⟩ := h
  exact append_ne_nil_of_left_ne_nil (unsigned_ne_nil hn) _

/-- The declarations are within the limits of the decoder. -/
structure ModuleFits (m : Wasm.Module) : Prop where
  types : m.types.length ≤ maxWasmVectorItems
  imports : m.imports.length ≤ maxWasmVectorItems
  functions : m.functions.length ≤ maxWasmVectorItems
  exports : m.exports.length ≤ maxWasmVectorItems
  params : ∀ t ∈ m.types, t.params.length ≤ maxWasmParams
  results : ∀ t ∈ m.types, t.results.length ≤ maxWasmParams

section Contents

variable {m : Wasm.Module} (hm : ModuleFits m) {bs : List UInt8}
include hm

lemma parseTypes_complete (h : Wasm.Vec Wasm.EncodesFuncType m.types bs) :
    parseTypes bs = .ok (m.types.map signatureOf) := by
  have hpos : ∀ t bs, Wasm.EncodesFuncType t bs → bs ≠ [] := by
    rintro _ _ ⟨⟩
    nofun
  obtain ⟨hn, hitems⟩ := h
  have hlength := hitems.length_le hpos
  have hlimit := hm.types
  have hread := readItems_complete hitems
    (fun t ht => parseType_complete (hm.params t ht) (hm.results t ht)) []
  rw [append_nil] at hread
  rw [parseTypes, readU32_unsigned hn]
  simp only [bind, Except.bind, length_append]
  rw [if_neg (by omega), hread]

lemma parseImportedFunctionCount_complete (h : Wasm.Vec Wasm.EncodesImport m.imports bs) :
    parseImportedFunctionCount bs = .ok m.importedFuncs := by
  have hpos : ∀ i bs, Wasm.EncodesImport i bs → bs ≠ [] := by
    rintro _ _ ⟨ho, -, -⟩
    simp [sized_ne_nil ho]
  rw [parseImportedFunctionCount,
    readVector_complete h hpos hm.imports (fun i _ => parseImport_complete i)]
  have hcount : (m.imports.map fun i => i.desc.isFunc).count true = m.importedFuncs := by
    rw [Wasm.Module.importedFuncs, List.count, countP_map, countP_eq_length_filter]
    congr 2
    funext i
    exact beq_true _
  simp only [bind, Except.bind, ne_eq, not_true_eq_false, if_false, hcount]

lemma parseU32Vector_complete (h : Wasm.Vec (fun f bs => Unsigned 32 bs f.type) m.functions bs) :
    parseU32Vector bs = .ok (m.functions.map Wasm.Func.type) := by
  rw [parseU32Vector, readVector_complete h (fun _ _ => unsigned_ne_nil) hm.functions
    (fun f _ bs rest hf => readU32_unsigned hf rest)]
  rfl

def exportsOf (exports : List Wasm.Export) : List (List UInt8 × Nat) :=
  ((exports.filter fun e => e.kind = .func).map fun e => (e.name, e.index)).reverse

omit hm in
lemma byte_eq_zero_iff (kind : Wasm.ExternKind) : kind.byte = 0 ↔ kind = .func := by
  cases kind <;> decide

lemma parseExports_complete (h : Wasm.Vec Wasm.EncodesExport m.exports bs) :
    parseExports bs = .ok (exportsOf m.exports) := by
  have hpos : ∀ e bs, Wasm.EncodesExport e bs → bs ≠ [] := by
    rintro _ _ ⟨hn, -⟩
    simp
  rw [parseExports, readVector_complete h hpos hm.exports (fun e _ => parseExport_complete e)]
  simp only [bind, Except.bind, filter_map, map_map]
  congr 4
  funext e
  simp [byte_eq_zero_iff]

lemma parseCodes_complete (h : Wasm.Vec Wasm.EncodesEntry m.functions bs) :
    ∃ codes, parseCodes bs = .ok codes ∧ List.Forall₂ Wasm.EncodesBody m.functions codes := by
  obtain ⟨codes, hcodes, hbodies⟩ := h.bodies
  refine ⟨codes, ?_, hbodies⟩
  have hlimit : codes.length ≤ maxWasmVectorItems := hbodies.length_eq ▸ hm.functions
  rw [parseCodes, readVector_complete (f := id) hcodes (fun _ _ => sized_ne_nil) hlimit
    (fun code _ bs rest hsized => readBytes_complete hsized _ rest), map_id]
  rfl

end Contents

/-! ### The section loop -/

/-- The section loop takes `bs` and goes on from `s'` with what follows, whatever it is. -/
def Collects (bs : List UInt8) (s s' : Sections) : Prop :=
  ∀ rest fuel, (bs ++ rest).length ≤ fuel →
    ∃ fuel', rest.length ≤ fuel' ∧ readSections fuel s (bs ++ rest) = readSections fuel' s' rest

lemma Collects.refl (s : Sections) : Collects [] s s :=
  fun _ fuel hfuel => ⟨fuel, hfuel, rfl⟩

variable {s s' : Sections}

lemma Collects.append {s'' : Sections} (h : Collects bs s s') (h' : Collects cs s' s'') :
    Collects (bs ++ cs) s s'' := by
  intro rest fuel hfuel
  rw [append_assoc] at hfuel ⊢
  obtain ⟨fuel', hfuel', heq⟩ := h (cs ++ rest) fuel hfuel
  obtain ⟨fuel'', hfuel'', heq'⟩ := h' rest fuel' hfuel'
  exact ⟨fuel'', hfuel'', heq.trans heq'⟩

lemma collects_section {id : UInt8} {contents : List UInt8} (h : Wasm.Sized contents bs)
    (hread : readSection s id contents = .ok s') : Collects (id :: bs) s s' := by
  obtain ⟨hn⟩ := h
  intro rest fuel hfuel
  rw [cons_append, append_assoc] at hfuel ⊢
  simp only [length_cons, length_append] at hfuel
  obtain ⟨fuel, rfl⟩ : ∃ k, fuel = k + 1 := ⟨fuel - 1, by omega⟩
  refine ⟨fuel, by omega, ?_⟩
  rw [readSections, readU32_unsigned hn]
  simp only [bind, Except.bind, length_append]
  rw [if_neg (by omega), splitSlice_append]
  simp only [hread]

lemma collects_others (h : Wasm.OtherSections bs) (s : Sections) : Collects bs s s := by
  induction h with
  | nil => exact Collects.refl s
  | @cons id contents bs cs hid hsized _ ih =>
    refine (collects_section hsized ?_).append ih
    unfold readSection
    split <;> first | rfl | simp_all

lemma collects_optional {α : Type} {id : UInt8} {R : α → List UInt8 → Prop} {xs : List α}
    (h : Wasm.EncodesSection id R xs bs) (habsent : xs = [] → s = s')
    (hread : ∀ contents, Wasm.Vec R xs contents → readSection s id contents = .ok s') :
    Collects bs s s' := by
  cases h with
  | absent =>
    rw [← habsent rfl]
    exact Collects.refl s
  | present hvec hsized => exact collects_section hsized (hread _ hvec)

lemma collects_codes {m : Wasm.Module} (hm : ModuleFits m)
    (h : Wasm.EncodesSection 10 Wasm.EncodesEntry m.functions bs) (hs : s.codes = []) :
    ∃ codes, List.Forall₂ Wasm.EncodesBody m.functions codes ∧
      Collects bs s { s with codes := codes } := by
  generalize hfunctions : m.functions = functions at h
  cases h with
  | absent =>
    refine ⟨[], .nil, ?_⟩
    rw [← hs]
    exact Collects.refl s
  | present hvec hsized =>
    subst hfunctions
    obtain ⟨codes, hcodes, hbodies⟩ := parseCodes_complete hm hvec
    refine ⟨codes, hbodies, collects_section hsized ?_⟩
    rw [readSection, hcodes]
    rfl

lemma readSections_module {m : Wasm.Module} {wasm : List UInt8} (h : Wasm.EncodesModule m wasm)
    (hm : ModuleFits m) :
    wasm.take 8 = wasmHeader ∧ ∃ codes, List.Forall₂ Wasm.EncodesBody m.functions codes ∧
      readSections (wasm.drop 8).length ⟨[], [], [], [], 0⟩ (wasm.drop 8) =
        .ok ⟨m.types.map signatureOf, m.functions.map Wasm.Func.type, codes,
          exportsOf m.exports, m.importedFuncs⟩ := by
  obtain ⟨h₁, htypes, h₂, himports, h₃, hfunctions, h₄, hexports, h₅, hcodes, h₆⟩ := h
  refine ⟨rfl, ?_⟩
  have ctypes : Collects _ ⟨[], [], [], [], 0⟩ ⟨m.types.map signatureOf, [], [], [], 0⟩ :=
    collects_optional htypes (fun hnil => by rw [hnil]; rfl)
      fun contents hvec => by rw [readSection, parseTypes_complete hm hvec]; rfl
  have cimports : Collects _ ⟨m.types.map signatureOf, [], [], [], 0⟩
      ⟨m.types.map signatureOf, [], [], [], m.importedFuncs⟩ :=
    collects_optional himports (fun hnil => by rw [Wasm.Module.importedFuncs, hnil]; rfl)
      fun contents hvec => by
        rw [readSection, parseImportedFunctionCount_complete hm hvec]
        rfl
  have cfunctions : Collects _ ⟨m.types.map signatureOf, [], [], [], m.importedFuncs⟩
      ⟨m.types.map signatureOf, m.functions.map Wasm.Func.type, [], [], m.importedFuncs⟩ :=
    collects_optional hfunctions (fun hnil => by rw [hnil]; rfl)
      fun contents hvec => by rw [readSection, parseU32Vector_complete hm hvec]; rfl
  have cexports : Collects _
      ⟨m.types.map signatureOf, m.functions.map Wasm.Func.type, [], [], m.importedFuncs⟩
      ⟨m.types.map signatureOf, m.functions.map Wasm.Func.type, [], exportsOf m.exports,
        m.importedFuncs⟩ :=
    collects_optional hexports (fun hnil => by rw [hnil]; rfl)
      fun contents hvec => by rw [readSection, parseExports_complete hm hvec]; rfl
  obtain ⟨codes, hbodies, ccodes⟩ := collects_codes hm hcodes
    (s := ⟨m.types.map signatureOf, m.functions.map Wasm.Func.type, [], exportsOf m.exports,
      m.importedFuncs⟩) rfl
  refine ⟨codes, hbodies, ?_⟩
  have call := (collects_others h₁ _).append (ctypes.append ((collects_others h₂ _).append
    (cimports.append ((collects_others h₃ _).append (cfunctions.append
      ((collects_others h₄ _).append (cexports.append ((collects_others h₅ _).append
        (ccodes.append (collects_others h₆ _))))))))))
  obtain ⟨fuel, -, heq⟩ := call [] _ (Nat.le_refl _)
  rw [append_nil] at heq
  rw [Wasm.magic, drop_append_of_le_length (by decide), drop_of_length_le (by decide),
    nil_append, heq]
  cases fuel <;> rfl

lemma lookup_exportsOf {exports : List Wasm.Export} (h : (exports.map Wasm.Export.name).Nodup)
    {e : Wasm.Export} (he : e ∈ exports) (hfunc : e.kind = .func) :
    (exportsOf exports).lookup e.name = some e.index := by
  have hmem : e ∈ exports.filter fun e => e.kind = .func := by simp [he, hfunc]
  have hnodup : ((exports.filter fun e => e.kind = .func).map Wasm.Export.name).Nodup :=
    h.sublist ((filter_sublist).map _)
  obtain ⟨before, after, hsplit⟩ := append_of_mem hmem
  rw [exportsOf, lookup_eq_some_iff]
  refine ⟨(after.map fun e => (e.name, e.index)).reverse,
    (before.map fun e => (e.name, e.index)).reverse, by simp [hsplit], ?_⟩
  intro p hp
  simp only [mem_reverse, mem_map] at hp
  obtain ⟨e', he', rfl⟩ := hp
  rw [hsplit, map_append, map_cons, nodup_append] at hnodup
  have hne := (List.nodup_cons.mp hnodup.2.1).1
  simp only [bne_iff_ne]
  exact fun heq => hne (heq ▸ mem_map_of_mem he')

/-! ### Exported functions -/

section Exported

variable {m : Wasm.Module} {wasm : List UInt8} (h : Wasm.EncodesModule m wasm) (hm : ModuleFits m)
  {e : Wasm.Export} (he : e ∈ m.exports) (hfunc : e.kind = .func) (entrypoint : String)
include h hm he hfunc

lemma parseExportedNamed_imported (himported : e.index < m.importedFuncs) :
    ∃ err, parseExportedNamed wasm e.name entrypoint = .error (.error err) := by
  obtain ⟨hheader, codes, -, hsections⟩ := readSections_module h hm
  refine ⟨.quoted "entrypoint " entrypoint " uses an unsupported imported function", ?_⟩
  simp only [parseExportedNamed, hheader, ne_eq, not_true_eq_false, if_false, hsections, bind,
    Except.bind, lookup_exportsOf m.exports_nodup he hfunc, if_pos himported]

lemma parseExportedNamed_local {f : Wasm.Func} {t : Wasm.FuncType}
    (hf : m.localFunc? e.index = some f) (ht : m.types[f.type]? = some t) :
    ∃ code, Wasm.EncodesBody f code ∧ parseExportedNamed wasm e.name entrypoint =
      (do let (locals, body) ← parseCode code
          .ok { params := t.params, results := t.results, locals, body }) := by
  obtain ⟨hheader, codes, hbodies, hsections⟩ := readSections_module h hm
  rw [Wasm.Module.localFunc?] at hf
  split at hf
  · cases hf
  · rename_i hindex
    obtain ⟨hlt, hget⟩ := List.getElem?_eq_some_iff.mp hf
    have hlt' : e.index - m.importedFuncs < codes.length := hbodies.length_eq ▸ hlt
    have hbody := hbodies.get hlt hlt'
    rw [get_eq_getElem, hget, get_eq_getElem] at hbody
    have htype : t ∈ m.types := List.mem_of_getElem? ht
    have hsignature : Signature (signatureOf t) t.params t.results :=
      ⟨hm.params t htype, hm.results t htype, rfl⟩
    refine ⟨_, hbody, ?_⟩
    simp only [parseExportedNamed, hheader, ne_eq, not_true_eq_false, if_false, hsections, bind,
      Except.bind, lookup_exportsOf m.exports_nodup he hfunc, if_neg hindex, List.getElem?_map,
      hf, Option.map_some, List.getElem?_eq_getElem hlt', ht, splitSignature_eq hsignature]

/-- For an exported function of the module the decoder returns its parameter types, its result
types, its locals and its instructions when every block type in it takes one byte, and only then
unless the second byte of a longer one is taken for an instruction; for an imported function
it returns an error. -/
theorem decoder_undoes_encoder :
    (∀ f t, m.localFunc? e.index = some f → m.types[f.type]? = some t → FuncFits f →
      supported f.body = true →
      (oneByteTypes f.body = true → parseExportedNamed wasm e.name entrypoint =
        .ok ⟨t.params, t.results, f.locals, instructionsOf f.body⟩) ∧
      (unmistakable f.body = true → parseExportedNamed wasm e.name entrypoint =
        .ok ⟨t.params, t.results, f.locals, instructionsOf f.body⟩ → oneByteTypes f.body = true)) ∧
    (e.index < m.importedFuncs →
      ∃ err, parseExportedNamed wasm e.name entrypoint = .error (.error err)) := by
  refine ⟨fun f t hf ht hfits hs => ?_, parseExportedNamed_imported h hm he hfunc entrypoint⟩
  obtain ⟨code, hcode, heq⟩ := parseExportedNamed_local h hm he hfunc entrypoint hf ht
  rw [heq]
  constructor
  · intro hone
    rw [parseCode_complete hcode hfits (plain_of_supported f.body hs hone)]
    rfl
  · intro hu hok
    obtain ⟨⟨locals, body⟩, hparse, hret⟩ := bind_eq_ok.mp hok
    have hbody : body = instructionsOf f.body := congrArg WasmFunction.body (Except.ok.inj hret)
    exact oneByteTypes_of_parseCode hcode hs hu (hbody ▸ hparse)

end Exported

lemma unsigned_byte {x : UInt8} (hx : x.toNat < 128) : Unsigned 32 [x] x.toNat :=
  .last hx (by omega)

lemma sized_short (bs : List UInt8) (h : bs.length < 128) :
    Wasm.Sized bs (UInt8.ofNat bs.length :: bs) := by
  have hlength : (UInt8.ofNat bs.length).toNat = bs.length := by
    rw [UInt8.toNat_ofNat', Nat.mod_eq_of_lt (by omega)]
  have hbyte := unsigned_byte (x := UInt8.ofNat bs.length) (by omega)
  rw [hlength] at hbyte
  exact .mk hbyte

/-- The imported function `g` and a function `f` with an `if`, after a custom section. -/
def branchingModule : Wasm.Module where
  types := [⟨[0x7f], [0x7f]⟩]
  imports := [⟨[], [], .func 0⟩]
  functions := [⟨0, [], [.localGet 0, .ite [0x7f] [.i32Const 1] [.i32Const 0]]⟩]
  exports := [⟨[0x66], .func, 1⟩, ⟨[0x67], .func, 0⟩]
  exports_nodup := by decide

def branchingCode : List UInt8 :=
  [0x00, 0x20, 0x00, 0x04, 0x7f, 0x41, 0x01, 0x05, 0x41, 0x00, 0x0b, 0x0b]

def branchingWasm : List UInt8 :=
  Wasm.magic ++ ([0x00, 0x01, 0x00] ++ ([0x01, 0x06, 0x01, 0x60, 0x01, 0x7f, 0x01, 0x7f] ++
    ([] ++ ([0x02, 0x05, 0x01, 0x00, 0x00, 0x00, 0x00] ++ ([] ++ ([0x03, 0x02, 0x01, 0x00] ++
      ([] ++ ([0x07, 0x09, 0x02, 0x01, 0x66, 0x00, 0x01, 0x01, 0x67, 0x00, 0x00] ++ ([] ++
        ([0x0a, 0x0e, 0x01, 0x0c] ++ branchingCode ++ []))))))))))

lemma const_encodes (x : UInt8) (hx : x.toNat < 64) :
    Wasm.Encodes [.i32Const (BitVec.ofInt 32 x.toNat)] [0x41, x] :=
  .instr (.i32Const (.nonneg hx (by omega))) .nil

lemma branchingCode_encodes (f : Wasm.Func) (hf : branchingModule.functions = [f]) :
    Wasm.EncodesBody f branchingCode := by
  cases hf
  have hif : Wasm.Encodes [.ite [0x7f] [.i32Const 1] [.i32Const 0]]
      [0x04, 0x7f, 0x41, 0x01, 0x05, 0x41, 0x00, 0x0b] :=
    .ite (.value (by decide)) (const_encodes 1 (by decide)) (const_encodes 0 (by decide)) .nil
  exact .mk (.mk (unsigned_byte (x := 0) (by decide)) .nil)
    (.instr (.localGet (unsigned_byte (x := 0) (by decide))) hif)

lemma branchingWasm_encodes : Wasm.EncodesModule branchingModule branchingWasm := by
  have hbyte : ∀ x : UInt8, x.toNat < 128 → Unsigned 32 [x] x.toNat := fun _ => unsigned_byte
  refine .mk (.cons (by decide) (sized_short [0x00] (by decide)) .nil)
    (.present (.mk (hbyte 1 (by decide)) (.cons (.mk (sized_short [0x7f] (by decide))
      (sized_short [0x7f] (by decide))) .nil)) (sized_short _ (by decide)))
    .nil ?_ .nil ?_ .nil ?_ .nil ?_ .nil
  · exact .present (.mk (hbyte 1 (by decide)) (.cons (.mk (sized_short [] (by decide))
      (sized_short [] (by decide)) (.func (hbyte 0 (by decide)))) .nil))
      (sized_short _ (by decide))
  · exact .present (.mk (hbyte 1 (by decide)) (.cons (hbyte 0 (by decide)) .nil))
      (sized_short _ (by decide))
  · exact .present (.mk (hbyte 2 (by decide)) (.cons (.mk (sized_short [0x66] (by decide))
      (hbyte 1 (by decide))) (.cons (.mk (sized_short [0x67] (by decide))
      (hbyte 0 (by decide))) .nil))) (sized_short _ (by decide))
  · exact .present (.mk (hbyte 1 (by decide)) (.cons (.mk (branchingCode_encodes _ rfl)
      (sized_short _ (by decide))) .nil)) (sized_short _ (by decide))

theorem branchingModule_decoded :
    parseExportedNamed branchingWasm [0x66] "f" = .ok ⟨[0x7f], [0x7f], [],
      instructionsOf [.localGet 0, .ite [0x7f] [.i32Const 1] [.i32Const 0]]⟩ ∧
    ∃ err, parseExportedNamed branchingWasm [0x67] "g" = .error (.error err) := by
  have hfits : ModuleFits branchingModule := by
    constructor <;> decide
  have hf : FuncFits ⟨0, [], [.localGet 0, .ite [0x7f] [.i32Const 1] [.i32Const 0]]⟩ := by
    constructor <;> simp [Wasm.Func.locals, instructionsOf, instructionOf, sizeAll, nestingAll,
      Instruction.size, Instruction.nesting, maxWasmVectorItems, maxWasmLocals,
      maxWasmInstructions, maxWasmControlDepth]
  constructor
  · exact ((decoder_undoes_encoder (e := ⟨[0x66], .func, 1⟩) branchingWasm_encodes hfits
      (by simp [branchingModule]) rfl "f").1 _ ⟨[0x7f], [0x7f]⟩ rfl rfl hf
      (by simp [supported, supportedInstr])).1 (by simp [oneByteTypes, oneByteInstr])
  · exact (decoder_undoes_encoder (e := ⟨[0x67], .func, 0⟩) branchingWasm_encodes hfits
      (by simp [branchingModule]) rfl "g").2 (by decide)

/-! ### A block type of two bytes -/

/-- An empty `if` whose type is the last of 65 function types. -/
def wideFunc : Wasm.Func :=
  ⟨0, [], [.i32Const 0, .ite [0xc0, 0x00] [] []]⟩

def wideModule : Wasm.Module where
  types := List.replicate 65 ⟨[], []⟩
  imports := []
  functions := [wideFunc]
  exports := [⟨[0x66], .func, 0⟩]
  exports_nodup := by decide

def wideTypes : List UInt8 :=
  0x41 :: (List.replicate 65 [0x60, 0x00, 0x00]).flatten

def wideWasm : List UInt8 :=
  Wasm.magic ++ ([] ++ (0x01 :: ([0xc4, 0x01] ++ wideTypes) ++ ([] ++ ([] ++ ([] ++
    ([0x03, 0x02, 0x01, 0x00] ++ ([] ++ ([0x07, 0x05, 0x01, 0x01, 0x66, 0x00, 0x00] ++ ([] ++
      ([0x0a, 0x0a, 0x01, 0x08, 0x00, 0x41, 0x00, 0x04, 0xc0, 0x00, 0x0b, 0x0b] ++ []))))))))))

lemma emptyTypes_encode (k : Nat) : Wasm.Items Wasm.EncodesFuncType (List.replicate k ⟨[], []⟩)
      (List.replicate k [0x60, 0x00, 0x00]).flatten := by
  induction k with
  | zero => exact .nil
  | succ k ih =>
    exact .cons (.mk (sized_short [] (by decide)) (sized_short [] (by decide))) ih

lemma wideWasm_encodes : Wasm.EncodesModule wideModule wideWasm := by
  have hbyte : ∀ x : UInt8, x.toNat < 128 → Unsigned 32 [x] x.toNat := fun _ => unsigned_byte
  have hsize : Unsigned 32 [0xc4, 0x01] wideTypes.length := by
    have hlength : wideTypes.length = 196 := by
      rfl
    rw [hlength]
    exact .more (x := 0xc4) (by decide) (by decide) (.last (x := 0x01) (by decide) (by decide))
  have htype : Wasm.BlockType [0xc0, 0x00] := .index (.more (x := 0xc0) (by decide) (by decide)
      (.nonneg (x := 0x00) (by decide) (by decide))) (by decide)
  have hbody : Wasm.EncodesBody wideFunc [0x00, 0x41, 0x00, 0x04, 0xc0, 0x00, 0x0b, 0x0b] :=
    .mk (.mk (hbyte 0 (by decide)) .nil)
      (.instr (.i32Const (.nonneg (x := 0) (by decide) (by decide))) (.iteThen htype .nil .nil))
  refine .mk .nil (.present (.mk (n := [0x41]) (hbyte 0x41 (by decide)) (emptyTypes_encode 65))
    (.mk hsize)) .nil .absent .nil ?_ .nil ?_ .nil ?_ .nil
  · exact .present (.mk (hbyte 1 (by decide)) (.cons (hbyte 0 (by decide)) .nil))
      (sized_short _ (by decide))
  · exact .present (.mk (hbyte 1 (by decide)) (.cons (.mk (sized_short [0x66] (by decide))
      (hbyte 0 (by decide))) .nil)) (sized_short _ (by decide))
  · exact .present (.mk (hbyte 1 (by decide)) (.cons (.mk hbody
      (sized_short _ (by decide))) .nil)) (sized_short _ (by decide))

set_option maxRecDepth 8000 in
/-- The second byte of the block type becomes an instruction of the branch. -/
theorem wide_block_type_misread :
    Wasm.EncodesModule wideModule wideWasm ∧ ModuleFits wideModule ∧ FuncFits wideFunc ∧
    supported wideFunc.body = true ∧ wideModule.localFunc? 0 = some wideFunc ∧
    parseExportedNamed wideWasm [0x66] "f" =
      .ok ⟨[], [], [], [.mk 0x41 0 0 [] [], .mk 0x04 0 0 [.mk 0x00 0 0 [] []] []]⟩ ∧
    instructionsOf wideFunc.body = [.mk 0x41 0 0 [] [], .mk 0x04 0 0 [] []] := by
  have hfits : ModuleFits wideModule := by
    constructor <;> decide
  have hf : FuncFits wideFunc := by
    constructor <;> simp [wideFunc, Wasm.Func.locals, instructionsOf, instructionOf, sizeAll,
      nestingAll, Instruction.size, Instruction.nesting, maxWasmVectorItems, maxWasmLocals,
      maxWasmInstructions, maxWasmControlDepth]
  refine ⟨wideWasm_encodes, hfits, hf, by simp [wideFunc, supported, supportedInstr], rfl, ?_, ?_⟩
  · rfl
  · simp [wideFunc, instructionsOf, instructionOf]

end Symkernel.Verify
