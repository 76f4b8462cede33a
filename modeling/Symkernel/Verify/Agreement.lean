import Symkernel.Verify.Grammar
import Symkernel.Verify.Run
import Symkernel.Verify.Soundness

/-!
# From the bytes of a function to its paths
-/

namespace Symkernel.Verify

open Library Library.Smt List

def Output.denote (ρ : Assignment) : Output → Option Wasm.Value
  | .int32 v => some (.i32 v)
  | .int64 v => some (.i64 v)
  | .expr term =>
    match term.eval ρ with
    | some (.bool c) => some (.ofBool c)
    | some (.bits (w := n) b) =>
      if h : n = 32 then some (.i32 (b.cast h))
      else if h : n = 64 then some (.i64 (b.cast h))
      else none
    | none => none

lemma eq_typeByte {code : UInt8} {t : Wasm.IntType} (h : Wasm.valTypeOf code = .int t) :
    code = typeByte t := by
  unfold Wasm.valTypeOf at h
  split at h
  · cases h
    assumption
  · split at h
    · cases h
      assumption
    · cases h

lemma denote_constant (ρ : Assignment) : ∀ (t : Wasm.IntType) (b : BitVec t.width),
    (if typeByte t = valueI32 then Output.int32 ((b.signExtend 64).setWidth 32)
      else .int64 (b.signExtend 64)).denote ρ = some (t.value b)
  | .i32, b => congrArg (fun v => some (Wasm.Value.i32 v)) (setWidth_signExtend b (by decide))
  | .i64, b => congrArg (fun v => some (Wasm.Value.i64 v)) (BitVec.signExtend_eq b)

variable {ρ : Assignment}

lemma Represents.output {v : SymbolicValue} {x : Wasm.Value} (h : Represents ρ v x) {code : UInt8}
    (hcode : Wasm.valTypeOf code = x.valType) : (v.output code).denote ρ = some x := by
  unfold SymbolicValue.output
  cases h with
  | @int t b h =>
    rw [Wasm.valType_value] at hcode
    obtain rfl := eq_typeByte hcode
    cases hk : v.known with
    | none =>
      simp only [Output.denote, h.expr]
      cases t <;> rfl
    | some k =>
      rw [h.known k hk]
      exact denote_constant ρ t b
  | @bool c h =>
    obtain rfl := eq_typeByte hcode
    cases hk : v.known with
    | none => simp only [Output.denote, h.expr]
    | some k =>
      rw [h.known k hk]
      cases c <;> rfl

lemma denote_outputs {values : List SymbolicValue} {stack : List Wasm.Value}
    (h : List.Forall₂ (Represents ρ) values stack) {codes : List UInt8}
    (hcodes : codes.map Wasm.valTypeOf = stack.map Wasm.Value.valType) :
    (List.zipWith SymbolicValue.output values codes).map (Output.denote ρ) = stack.map some := by
  induction h generalizing codes with
  | nil => simp
  | cons hv _ ih =>
    obtain ⟨code, codes, rfl, hcode, hrest⟩ := List.map_eq_cons_iff.mp hcodes
    rw [zipWith_cons_cons, map_cons, hv.output hcode, ih hrest, map_cons]

variable {locals params results : List UInt8}

lemma Executor.Simulates.output {s : SymbolicState} {κ : Wasm.Config}
    (h : Executor.Simulates ρ s κ) {Γ : List Wasm.ValType}
    (hκ : κ.Typed Γ (results.map Wasm.valTypeOf).reverse) :
    (s.output results).map (Output.denote ρ) = κ.stack.reverse.map some := by
  have htypes : results.map Wasm.valTypeOf = κ.stack.reverse.map Wasm.Value.valType := by
    rw [map_reverse, hκ.stack, reverse_reverse]
  have hlen : s.stack.length = results.length := by
    rw [h.holds.stack.length_eq, ← length_reverse, ← length_map Wasm.Value.valType,
      ← htypes, length_map]
  rw [SymbolicState.output, ← hlen, take_length]
  exact denote_outputs (List.forall₂_reverse_iff.mpr h.holds.stack) htypes

lemma Executor.collect_eq_ok {e : Executor} {entrypoint : String} {states : List SymbolicState}
    {n n' : Counters} {paths : List SymbolicPath}
    (h : e.collect entrypoint results states n = .ok (paths, n')) {path : SymbolicPath}
    (hpath : path ∈ paths) :
    ∃ s ∈ states, path.constraints = s.constraints ∧ path.output = s.output results := by
  induction states generalizing n paths with
  | nil =>
    cases h
    cases hpath
  | cons state states ih =>
    obtain ⟨⟨⟨feasible, model⟩, n₁⟩, -, h⟩ := bind_eq_ok.mp h
    simp only at h
    split at h
    · obtain ⟨s, hs, hres⟩ := ih h hpath
      exact ⟨s, mem_cons_of_mem _ hs, hres⟩
    · split at h
      · cases h
      · obtain ⟨⟨rest, n₂⟩, hrest, h⟩ := bind_eq_ok.mp h
        cases h
        obtain rfl | hmem := List.mem_cons.mp hpath
        · exact ⟨state, mem_cons_self, rfl, rfl⟩
        · obtain ⟨s, hs, hres⟩ := ih hrest hmem
          exact ⟨s, mem_cons_of_mem _ hs, hres⟩

lemma eq_typeByte_of_width {code : UInt8} {w : Nat} (h : wasmIntegerWidth code = some w) :
    ∃ t, code = typeByte t := by
  unfold wasmIntegerWidth at h
  split at h
  · exact ⟨.i32, by assumption⟩
  · split at h
    · exact ⟨.i64, by assumption⟩
    · cases h

variable {args : List Arg}

lemma bindParams_integers {i : Nat} {r : List SymbolicValue × SolverModel}
    (h : bindParams args i params = .ok r) :
    ∃ types : List Wasm.IntType, params = types.map typeByte := by
  induction params generalizing i r with
  | nil => exact ⟨[], rfl⟩
  | cons code params ih =>
    obtain ⟨r₁, hv, h⟩ := bind_eq_ok.mp h
    obtain ⟨r₂, hvs, -⟩ := bind_eq_ok.mp h
    obtain ⟨types, rfl⟩ := ih hvs
    unfold bindParam at hv
    cases hw : wasmIntegerWidth code with
    | none => simp [hw] at hv
    | some w =>
      obtain ⟨t, rfl⟩ := eq_typeByte_of_width hw
      exact ⟨t :: types, rfl⟩

lemma bindLocals_integers {i : Nat} {values : List SymbolicValue}
    (h : bindLocals i locals = .ok values) :
    ∃ types : List Wasm.IntType, locals = types.map typeByte := by
  induction locals generalizing i values with
  | nil => exact ⟨[], rfl⟩
  | cons code locals ih =>
    rw [bindLocals] at h
    cases hw : wasmIntegerWidth code with
    | none => simp [hw] at h
    | some w =>
      simp only [hw] at h
      obtain ⟨vs, hvs, -⟩ := bind_eq_ok.mp h
      obtain ⟨types, rfl⟩ := ih hvs
      obtain ⟨t, rfl⟩ := eq_typeByte_of_width hw
      exact ⟨t :: types, rfl⟩

lemma initialState_integers {r : SymbolicState × SolverModel}
    (h : initialState params locals args = .ok r) : ∃ paramTypes localTypes : List Wasm.IntType,
      params = paramTypes.map typeByte ∧ locals = localTypes.map typeByte := by
  obtain ⟨r₁, hparams, h⟩ := bind_eq_ok.mp h
  obtain ⟨r₂, hlocals, -⟩ := bind_eq_ok.mp h
  obtain ⟨paramTypes, hp⟩ := bindParams_integers hparams
  obtain ⟨localTypes, hl⟩ := bindLocals_integers hlocals
  exact ⟨paramTypes, localTypes, hp, hl⟩

lemma valTypeOf_typeByte (types : List Wasm.IntType) :
    (types.map typeByte).map Wasm.valTypeOf = types.map .int := by
  rw [map_map]
  apply map_congr_left
  intro t _
  cases t <;> rfl

def Environment.UnsatSound (env : Environment) : Prop :=
  ∀ n constraints declarations model,
    env.solve n constraints declarations = .solution "unsat" model →
      ∀ ρ : Assignment, constraints.all (Term.holds ρ) = false

/-- On these parameters WebAssembly runs `body` to its end, and the outputs of the path are the
results. -/
def SymbolicPath.Agrees (path : SymbolicPath) (ρ : Assignment) (args : List Arg)
    (params locals : List Wasm.IntType) (body : List Wasm.Instr) : Prop :=
  ∃ κ, Wasm.execAll body (initialConfig ρ args params locals) = .done κ ∧
    path.output.map (Output.denote ρ) = κ.stack.reverse.map some

lemma mem_live {states : List SymbolicState} {s : SymbolicState} (h : s ∈ states)
    (hsat : s.satisfied ρ = true) : s ∈ live ρ states :=
  List.mem_filter.mpr ⟨h, hsat⟩

lemma runFunction_agrees {env : Environment} (hz : env.UnsatSound) {code : List UInt8}
    {body : List Wasm.Instr} (henc : Wasm.Encodes body code)
    (hvalid : Wasm.ValidBody params results locals body) {entrypoint : String} {maxDepth : Nat}
    {prune : Bool} {result : SymbolicResult}
    (hrun : env.runFunction ⟨params, results, locals, instructionsOf body⟩ entrypoint args maxDepth
      prune = .ok result) : ∃ paramTypes localTypes : List Wasm.IntType,
      params = paramTypes.map typeByte ∧ locals = localTypes.map typeByte ∧
      ∀ path ∈ result.paths, ∀ ρ : Assignment, path.constraints.all (Term.holds ρ) = true →
        path.Agrees ρ args paramTypes localTypes body := by
  obtain ⟨⟨initial, model⟩, hinit, hrun⟩ := bind_eq_ok.mp hrun
  obtain ⟨⟨states, n₁⟩, hstates, hrun⟩ := bind_eq_ok.mp hrun
  obtain ⟨⟨paths, n₂⟩, hcollect, hrun⟩ := bind_eq_ok.mp hrun
  cases hrun
  obtain ⟨paramTypes, localTypes, rfl, rfl⟩ := initialState_integers hinit
  refine ⟨paramTypes, localTypes, rfl, rfl, ?_⟩
  intro path hpath ρ hρ
  obtain ⟨s, hs, hconstraints, houtput⟩ := Executor.collect_eq_ok hcollect hpath
  have hlive : s ∈ live ρ states := by
    apply mem_live hs
    rw [SymbolicState.satisfied, ← hconstraints]
    exact hρ
  have hsim := initialState_simulates (ρ := ρ) hinit
  have hκ₀ : (initialConfig ρ args paramTypes localTypes).Typed
      ((paramTypes ++ localTypes).map .int) ([] ++ []) := initialConfig_typed paramTypes localTypes
  rw [Wasm.ValidBody, ← map_append, valTypeOf_typeByte] at hvalid
  have hstrip : Wasm.HasType true ((paramTypes ++ localTypes).map .int)
      (wasmOf (instructionsOf body)) [] (results.map Wasm.valTypeOf).reverse := by
    rw [wasmOf_instructionsOf henc]
    exact hvalid.strip
  have hfollow := Executor.run_follows (fun n cs => hz n cs _) hstrip rfl hstates
    (live_singleton hsim.satisfied) hsim hκ₀ (Nat.zero_le _)
  obtain ⟨s', κ, hone, hdone, -, hsim'⟩ | ⟨hnone, -⟩ := hfollow
  · rw [hone, mem_singleton] at hlive
    subst hlive
    have htyped := (hstrip.of_done hκ₀ hdone).1
    rw [append_nil] at htyped
    refine ⟨κ, ?_, ?_⟩
    · rw [← hdone, wasmOf_instructionsOf henc, Wasm.execAll_strip]
    · rw [houtput]
      exact hsim'.output htyped
  · rw [hnone] at hlive
    cases hlive

/-- Let a valid function body have no immediates beyond those the decoder reads. If it is
decoded, then to the instructions that the grammar assigns to its bytes; if it is run, then
for all parameters that satisfy the constraints of a path, the outputs of the path are the
results of WebAssembly. -/
theorem paths_agree_on_plain_bodies (env : Environment) (hz : env.UnsatSound)
    (params results locals code : List UInt8) (body : List Wasm.Instr)
    (henc : Wasm.EncodesCode locals body code)
    (hvalid : Wasm.ValidBody params results locals body) (hplain : plain body = true)
    (types : List UInt8) (program : List Instruction)
    (hparse : parseCode code = .ok (types, program)) :
    types = locals ∧ program = instructionsOf body ∧
    ∀ (entrypoint : String) (args : List Arg) (maxDepth : Nat) (prune : Bool)
      (result : SymbolicResult),
      env.runFunction ⟨params, results, types, program⟩ entrypoint args maxDepth prune =
        .ok result → ∃ paramTypes localTypes : List Wasm.IntType,
        params = paramTypes.map typeByte ∧ locals = localTypes.map typeByte ∧
        ∀ path ∈ result.paths, ∀ ρ : Assignment, path.constraints.all (Term.holds ρ) = true →
          path.Agrees ρ args paramTypes localTypes body := by
  obtain ⟨rfl, rfl⟩ := parseCode_encodes henc hplain hparse
  refine ⟨rfl, rfl, ?_⟩
  intro entrypoint args maxDepth prune result hrun
  obtain @⟨_, _, _, _, _, ds, -, -, hbody⟩ := henc
  exact runFunction_agrees hz hbody hvalid hrun

/-- A solver that refuses the constraint `false` and no other. -/
def refusesFalse : Environment where
  cancelled := fun _ => none
  solve := fun _ constraints _ =>
    if constraints.contains (.bool false) then .solution "unsat" [] else .solution "sat" []

lemma refusesFalse_unsatSound : refusesFalse.UnsatSound := by
  intro n constraints declarations model hunsat ρ
  simp only [refusesFalse] at hunsat
  split at hunsat
  · rename_i hmem
    rw [contains_iff_mem] at hmem
    exact List.all_eq_false.mpr ⟨_, hmem, by simp [Term.holds, Term.eval]⟩
  · simp at hunsat

/-- `if arg0 < 5 then 1 else arg1`. -/
def smallOrSecondBody : List Wasm.Instr :=
  [.localGet 0, .i32Const 5, .rel .i32 .ltS, .ite [0x7f] [.i32Const 1] [.localGet 1]]

def smallOrSecondCode : List UInt8 :=
  [0x00, 0x20, 0x00, 0x41, 0x05, 0x48, 0x04, 0x7f, 0x41, 0x01, 0x05, 0x20, 0x01, 0x0b, 0x0b]

theorem paths_agree_smallOrSecond :
    ∃ result, refusesFalse.runFunction ⟨[0x7f, 0x7f], [0x7f], [], smallOrSecond⟩ "f" [] 10 true =
        .ok result ∧ result.paths.length = 2 ∧
      ∀ path ∈ result.paths, ∀ ρ : Assignment, path.constraints.all (Term.holds ρ) = true →
        ∃ paramTypes localTypes, path.Agrees ρ [] paramTypes localTypes smallOrSecondBody := by
  have hget : ∀ x : UInt8, x.toNat < 128 → Leb128.Unsigned 32 [x] x.toNat := fun x hx =>
    .last hx (Nat.lt_of_lt_of_le hx (by decide))
  have henc : Wasm.EncodesCode [] smallOrSecondBody smallOrSecondCode :=
    @Wasm.EncodesCode.mk 0 [] _ [0x00] [] _ (hget 0 (by decide)) .nil
      (.instr (.localGet (hget 0 (by decide))) (.instr (.i32Const (.nonneg (x := 5) (by decide)
        (by decide))) (.instr (.bare rfl) (.ite (.value (by decide)) (.instr (.i32Const (.nonneg
          (x := 1) (by decide) (by decide))) .nil) (.instr (.localGet (hget 1 (by decide))) .nil)
            .nil))))
  have hvalid : Wasm.ValidBody [0x7f, 0x7f] [0x7f] [] smallOrSecondBody :=
    .basic (.localGet rfl) (.basic .i32Const (.basic .rel
      (.ite (s := []) (a := []) (b := [.int .i32]) (.basic .i32Const .nil)
        (.basic (.localGet rfl) .nil) .nil)))
  obtain ⟨-, -, hpaths⟩ := paths_agree_on_plain_bodies refusesFalse refusesFalse_unsatSound
    [0x7f, 0x7f] [0x7f] [] smallOrSecondCode _ henc hvalid rfl [] smallOrSecond rfl
  obtain ⟨paramTypes, localTypes, -, -, hagree⟩ := hpaths "f" [] 10 true _ rfl
  exact ⟨_, rfl, rfl, fun path hpath ρ hρ => ⟨_, _, hagree path hpath ρ hρ⟩⟩

/-- The body `i32.const 0; if {call 5; i32.const 1; local.set 0}; local.get 0`. -/
def skippedCall : List Wasm.Instr :=
  [.i32Const 0, .ite [0x40] [.foreign 0x10 [0x05], .i32Const 1, .localSet 0] [], .localGet 0]

def skippedCallCode : List UInt8 :=
  [0x00, 0x41, 0x00, 0x04, 0x40, 0x10, 0x05, 0x41, 0x01, 0x21, 0x00, 0x0b, 0x20, 0x00, 0x0b]

def misread : List Instruction :=
  [.mk 0x41 0 0 [] [],
    .mk 0x04 0 0 [.mk 0x10 0 0 [] []] [.mk 0x41 0 1 [] [], .mk 0x21 0 0 [] []],
    .mk 0x20 0 0 [] []]

/-- The index of the called function is read as `else`: the path returned has the output 1
for every argument, where WebAssembly skips the branch and returns the argument. -/
theorem skippedCall_disagrees : Wasm.EncodesCode [] skippedCall skippedCallCode ∧
    Wasm.ValidBody [0x7f] [0x7f] [] skippedCall ∧
    parseCode skippedCallCode = .ok ([], misread) ∧
    ∃ result path,
      refusesFalse.runFunction ⟨[0x7f], [0x7f], [], misread⟩ "f" [] 10 true = .ok result ∧
      result.paths = [path] ∧
      ∀ ρ : Assignment, path.constraints.all (Term.holds ρ) = true ∧
        path.output.map (Output.denote ρ) = [some (.i32 1)] ∧
        ∃ κ, Wasm.execAll skippedCall (initialConfig ρ [] [.i32] []) = .done κ ∧
          κ.stack = [.i32 (ρ "arg0" 32)] := by
  have hbyte : ∀ x : UInt8, x.toNat < 128 → Leb128.Unsigned 32 [x] x.toNat := fun x hx =>
    .last hx (Nat.lt_of_lt_of_le hx (by decide))
  refine ⟨?_, ?_, rfl, _, _, rfl, rfl, ?_⟩
  · exact @Wasm.EncodesCode.mk 0 [] _ [0x00] [] _ (hbyte 0 (by decide)) .nil
      (.instr (.i32Const (.nonneg (x := 0) (by decide) (by decide)))
        (.iteThen .empty
          (.instr (.foreign (.fixed rfl (.u32 (hbyte 5 (by decide)) .nil)))
            (.instr (.i32Const (.nonneg (x := 1) (by decide) (by decide)))
              (.instr (.localSet (hbyte 0 (by decide))) .nil)))
          (.instr (.localGet (hbyte 0 (by decide))) .nil)))
  · exact .basic .i32Const (.ite (s := []) (a := []) (b := [])
      (.outside rfl rfl (.basic .i32Const (.basic (.localSet rfl) .nil))) .nil
      (.basic (.localGet rfl) .nil))
  · intro ρ
    exact ⟨rfl, rfl, _, rfl, rfl⟩

end Symkernel.Verify
