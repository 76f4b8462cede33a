import Symkernel.Verify.Entry
import Symkernel.Verify.Paths

/-!
# Symbolic execution is sound and complete
-/

namespace Symkernel.Verify

open Library Library.Smt List

def typeByte : Wasm.IntType → UInt8
  | .i32 => valueI32
  | .i64 => valueI64

lemma wasmIntegerWidth_typeByte (t : Wasm.IntType) :
    wasmIntegerWidth (typeByte t) = some t.width := by
  cases t <;> rfl

section Initial

variable (ρ : Assignment) (args : List Arg)

def paramValue (i : Nat) (t : Wasm.IntType) : Wasm.Value :=
  match boundArg args i with
  | none => t.value (ρ (argName i) t.width)
  | some arg =>
    match arg.toInt64 with
    | .ok k => t.value (k.setWidth t.width)
    | .error _ => t.value 0

def paramValues : Nat → List Wasm.IntType → List Wasm.Value
  | _, [] => []
  | i, t :: params => paramValue ρ args i t :: paramValues (i + 1) params

def initialConfig (params locals : List Wasm.IntType) : Wasm.Config where
  locals := paramValues ρ args 0 params ++ locals.map (fun t => t.value 0)
  stack := []
  steps := 0

variable {ρ args}

lemma bindParam_represents {i : Nat} {t : Wasm.IntType} {v : SymbolicValue} {decl : SolverModel}
    (h : bindParam args i (typeByte t) = .ok (v, decl)) :
    Represents ρ v (paramValue ρ args i t) := by
  unfold bindParam at h
  unfold paramValue
  simp only [wasmIntegerWidth_typeByte] at h
  cases harg : boundArg args i with
  | none =>
    rw [harg] at h
    cases h
    exact .int t ⟨rfl, rfl, rfl, nofun⟩
  | some arg =>
    simp only [harg] at h ⊢
    cases hk : arg.toInt64 with
    | error err => simp [concreteArgument, hk, bind, Except.bind] at h
    | ok k =>
      simp only [concreteArgument, hk, bind, Except.bind, Except.ok.injEq, Prod.mk.injEq] at h
      rw [← h.1]
      exact .int t (typedConstant_isInt (width_eq t) k)

variable {locals params : List Wasm.IntType}

lemma bindParams_represents {i : Nat} {values : List SymbolicValue} {model : SolverModel}
    (h : bindParams args i (params.map typeByte) = .ok (values, model)) :
    List.Forall₂ (Represents ρ) values (paramValues ρ args i params) := by
  induction params generalizing i values model with
  | nil =>
    cases h
    exact .nil
  | cons t params ih =>
    obtain ⟨⟨v, decl⟩, hv, h⟩ := bind_eq_ok.mp h
    obtain ⟨⟨vs, rest⟩, hvs, h⟩ := bind_eq_ok.mp h
    cases h
    exact .cons (bindParam_represents hv) (ih hvs)

lemma bindLocals_represents {i : Nat} {values : List SymbolicValue}
    (h : bindLocals i (locals.map typeByte) = .ok values) :
    List.Forall₂ (Represents ρ) values (locals.map (fun t => t.value 0)) := by
  induction locals generalizing i values with
  | nil =>
    cases h
    exact .nil
  | cons t locals ih =>
    simp only [map_cons, bindLocals, wasmIntegerWidth_typeByte] at h
    obtain ⟨vs, hvs, h⟩ := bind_eq_ok.mp h
    cases h
    have hzero : IsInt ρ (typedConstant 0 t.width) (0 : BitVec t.width) := by
      simpa using typedConstant_isInt (ρ := ρ) (width_eq t) 0
    exact .cons (.int t hzero) (ih hvs)

lemma paramValues_type (i : Nat) (params : List Wasm.IntType) :
    (paramValues ρ args i params).map Wasm.Value.valType = params.map .int := by
  induction params generalizing i with
  | nil => rfl
  | cons t params ih =>
    rw [paramValues, map_cons, ih]
    congr 1
    unfold paramValue
    split
    · exact Wasm.valType_value t _
    · split
      · exact Wasm.valType_value t _
      · exact Wasm.valType_value t _

lemma initialConfig_typed (params locals : List Wasm.IntType) :
    (initialConfig ρ args params locals).Typed ((params ++ locals).map .int) [] := by
  refine ⟨?_, rfl⟩
  simp only [initialConfig, map_append, paramValues_type, map_map]
  congr 1
  exact map_congr_left (fun t _ => Wasm.valType_value t 0)

lemma initialState_simulates {s : SymbolicState} {model : SolverModel}
    (h : initialState (params.map typeByte) (locals.map typeByte) args = .ok (s, model)) :
    Executor.Simulates ρ s (initialConfig ρ args params locals) := by
  obtain ⟨⟨values, model'⟩, hparams, h⟩ := bind_eq_ok.mp h
  obtain ⟨zeros, hlocals, h⟩ := bind_eq_ok.mp h
  cases h
  refine ⟨rfl, ⟨?_, .nil⟩, rfl⟩
  exact rel_append (bindParams_represents hparams) (bindLocals_represents hlocals)

end Initial

/-- The value of type `t` that `v` denotes: the known constant, the bitvector, or the truth
value read as 0 or 1. -/
def SymbolicValue.denote (ρ : Assignment) (v : SymbolicValue) (t : Wasm.IntType) :
    Option Wasm.Value :=
  match v.known with
  | some k => some (t.value (k.setWidth t.width))
  | none =>
    match v.expr.eval ρ with
    | some (.bool c) => some (.ofBool c)
    | some (.bits (w := n) b) => if h : n = t.width then some (t.value (b.cast h)) else none
    | none => none

def SymbolicState.results (ρ : Assignment) (s : SymbolicState) (results : List Wasm.IntType) :
    List (Option Wasm.Value) :=
  List.zipWith (SymbolicValue.denote ρ) (s.stack.take results.length).reverse results

variable {ρ : Assignment}

lemma Represents.denote {v : SymbolicValue} {x : Wasm.Value} (h : Represents ρ v x) :
    v.denote ρ x.type = some x := by
  unfold SymbolicValue.denote
  cases h with
  | @int t b h =>
    rw [Wasm.type_value]
    cases hk : v.known with
    | none => simp [h.expr]
    | some k => simp only [h.known k hk, setWidth_signExtend b (width_le t)]
  | @bool c h =>
    cases hk : v.known with
    | none => simp [h.expr]
    | some k =>
      rw [h.known k hk]
      cases c <;> rfl

lemma denote_stack {values : List SymbolicValue} {stack : List Wasm.Value}
    (h : List.Forall₂ (Represents ρ) values stack) :
    List.zipWith (SymbolicValue.denote ρ) values (stack.map Wasm.Value.type) = stack.map some := by
  induction h with
  | nil => rfl
  | cons hv _ ih => rw [map_cons, zipWith_cons_cons, hv.denote, ih, map_cons]

lemma Executor.Simulates.results {s : SymbolicState} {κ : Wasm.Config}
    (h : Executor.Simulates ρ s κ) {Γ : List Wasm.ValType} {results : List Wasm.IntType}
    (hκ : κ.Typed Γ (results.reverse.map .int)) :
    s.results ρ results = κ.stack.reverse.map some := by
  have htypes : κ.stack.reverse.map Wasm.Value.type = results := by
    have hstack : (κ.stack.map Wasm.Value.type).map Wasm.ValType.int = results.reverse.map .int := by
      rw [map_map]
      exact hκ.stack
    have hinj : Function.Injective Wasm.ValType.int := fun _ _ heq => Wasm.ValType.int.inj heq
    rw [map_reverse, List.map_injective_iff.mpr hinj hstack, reverse_reverse]
  have hlen : s.stack.length = results.length := by
    rw [h.holds.stack.length_eq, ← htypes, length_map, length_reverse]
  rw [SymbolicState.results, ← hlen, take_length, ← htypes]
  exact denote_stack (List.forall₂_reverse_iff.mpr h.holds.stack)

/-- **Soundness and completeness.** Let `run` return on a valid program over the supported
instructions, from the initial state for any arguments. For all values of the symbolic
parameters, WebAssembly executes the program to an end; if that takes at most `maxDepth`
instructions, exactly one returned state has only true constraints and its results are those
of WebAssembly, and if it takes more, no returned state has. -/
theorem run_agrees_with_wasm (e : Executor) (hz : e.UnsatSound)
    (params locals results : List Wasm.IntType) (args : List Arg) (program : List Instruction)
    (hty : Wasm.HasType false ((params ++ locals).map .int) (wasmOf program) []
      (results.reverse.map .int)) (initial : SymbolicState) (model : SolverModel)
    (hinit : initialState (params.map typeByte) (locals.map typeByte) args = .ok (initial, model))
    (n n' : Counters) (states : List SymbolicState)
    (hrun : e.run program [initial] n = .ok (states, n')) (ρ : Assignment) :
    ∃ κ, Wasm.execAll (wasmOf program) (initialConfig ρ args params locals) = .done κ ∧
      (κ.steps ≤ e.maxDepth →
        ∃ s, live ρ states = [s] ∧ s.results ρ results = κ.stack.reverse.map some) ∧
      (e.maxDepth < κ.steps → live ρ states = []) := by
  have hsim := initialState_simulates (ρ := ρ) hinit
  have hκ₀ : (initialConfig ρ args params locals).Typed ((params ++ locals).map .int) ([] ++ []) :=
    initialConfig_typed params locals
  obtain ⟨κ, hdone, hκ, -⟩ | ⟨hext, -⟩ := hty.exec hκ₀
  · refine ⟨κ, hdone, ?_⟩
    rw [append_nil] at hκ
    have hfollow := Executor.run_follows hz hty rfl hrun (live_singleton hsim.satisfied) hsim hκ₀
      (Nat.zero_le _)
    obtain ⟨s, κ', hlive, hdone', hle, hsim'⟩ | ⟨hnone, hlong⟩ := hfollow
    · rw [hdone] at hdone'
      cases hdone'
      exact ⟨fun _ => ⟨s, hlive, hsim'.results hκ⟩, fun hlt => absurd hle (Nat.not_le.mpr hlt)⟩
    · exact ⟨fun hle => absurd (hlong κ hdone) (Nat.not_lt.mpr hle), fun _ => hnone⟩
  · cases hext

def permissive : Executor where
  cancelled := fun _ => none
  solve := fun _ _ _ => .solution "sat" []
  maxDepth := 10
  prune := true
  model := []

/-- `if arg0 < 5 then 1 else arg1`. -/
def smallOrSecond : List Instruction :=
  [.mk 0x20 0 0 [] [], .mk 0x41 0 5 [] [], .mk 0x48 0 0 [] [],
    .mk 0x04 0 0 [.mk 0x41 0 1 [] []] [.mk 0x20 1 0 [] []]]

theorem run_agrees_with_wasm_smallOrSecond : ∃ initial model states n',
      initialState [valueI32, valueI32] [] [.null, .signed 7] = .ok (initial, model) ∧
      permissive.run smallOrSecond [initial] ⟨1, 0, 0, 0⟩ = .ok (states, n') ∧
      ∃ s, live (fun _ w => BitVec.ofNat w 6) states = [s] ∧
        s.results (fun _ w => BitVec.ofNat w 6) [.i32] = [some (.i32 7)] := by
  refine ⟨_, _, _, _, rfl, rfl, ?_⟩
  have hsound : permissive.UnsatSound := by
    intro n constraints model hunsat
    simp [permissive] at hunsat
  have hty : Wasm.HasType false [.int .i32, .int .i32] (wasmOf smallOrSecond) [] [.int .i32] :=
    .basic (.localGet rfl) (.basic .i32Const (.basic .rel
      (.ite (s := []) (a := []) (b := [.int .i32]) (.basic .i32Const .nil)
        (.basic (.localGet rfl) .nil) .nil)))
  obtain ⟨κ, hdone, hshort, -⟩ := run_agrees_with_wasm permissive hsound [.i32, .i32] [] [.i32]
    [.null, .signed 7] smallOrSecond hty _ _ rfl ⟨1, 0, 0, 0⟩ _ _ rfl (fun _ w => BitVec.ofNat w 6)
  cases hdone
  exact hshort (by decide)

end Symkernel.Verify
