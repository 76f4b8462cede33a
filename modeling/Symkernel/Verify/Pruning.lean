import Symkernel.Verify.Paths
import Symkernel.Verify.Run

/-!
# Pruning
-/

namespace Symkernel.Verify

open Library Library.Smt

open Classical in
noncomputable def possible (states : List SymbolicState) : List SymbolicState :=
  states.filter fun s => Satisfiable s.constraints

lemma possible_append (a b : List SymbolicState) : possible (a ++ b) = possible a ++ possible b :=
  List.filter_append a b

variable {s : SymbolicState}

lemma possible_singleton (h : Satisfiable s.constraints) : possible [s] = [s] := by
  simp [possible, h]

lemma possible_singleton_dead (h : ¬Satisfiable s.constraints) : possible [s] = [] := by
  simp [possible, h]

lemma possible_cons (s : SymbolicState) (states : List SymbolicState) :
    possible (s :: states) = possible [s] ++ possible states :=
  possible_append [s] states

lemma satisfied_eq_false (h : ¬Satisfiable s.constraints) (ρ : Assignment) :
    s.satisfied ρ = false :=
  Bool.eq_false_iff.mpr fun hs => h ⟨ρ, hs⟩

lemma possible_eq_nil {states : List SymbolicState} (h : ∀ ρ, live ρ states = []) :
    possible states = [] := by
  rw [possible, List.filter_eq_nil_iff]
  intro s hs hsat
  obtain ⟨ρ, hρ⟩ : Satisfiable s.constraints := by simpa using hsat
  exact List.filter_eq_nil_iff.mp (h ρ) s hs hρ

namespace Executor

def Decides (e : Executor) : Prop :=
  ∀ n constraints model,
    (e.solve n constraints e.model = .solution "sat" model → Satisfiable constraints) ∧
    (e.solve n constraints e.model = .solution "unsat" model → ¬Satisfiable constraints)

variable {e : Executor}

lemma feasibility_iff (hz : e.Decides) {constraints : List Term} {ok : Bool}
    {model : SolverModel} {n n' : Counters}
    (h : e.feasibility constraints n = .ok ((ok, model), n')) :
    ok = true ↔ Satisfiable constraints := by
  unfold feasibility at h
  split at h
  · cases h
    exact iff_of_true rfl satisfiable_nil
  · split at h
    · cases h
    · rename_i sat model' hsolve
      split at h
      · rename_i hsat
        cases h
        exact iff_of_true rfl ((hz _ _ _).1 (hsat ▸ hsolve))
      · split at h
        · rename_i hunsat
          cases h
          exact iff_of_false (by decide) ((hz _ _ _).2 (hunsat ▸ hsolve))
        · cases h

lemma feasible_iff (hz : e.Decides) {constraints : List Term} {ok : Bool} {n n' : Counters}
    (h : e.feasible constraints n = .ok (ok, n')) : ok = true ↔ Satisfiable constraints := by
  obtain ⟨⟨⟨ok', model⟩, n₁⟩, hf, h⟩ := bind_eq_ok.mp h
  cases h
  exact feasibility_iff hz hf

/-! ### The two explorations -/

lemma run_nil_states (e : Executor) (program : List Instruction) (n : Counters) :
    e.run program [] n = .ok ([], n) := by
  induction program with
  | nil => rw [run]
  | cons i program ih =>
    exact ih

section Relation

variable {p u : Executor}

variable {out states : List SymbolicState} {m n m' n' : Counters}

/-- The states the pruning executor follows are the possible ones of the other. -/
lemma forEach_possible {stepP stepU : SymbolicState → Step (List SymbolicState)}
    (hstep : ∀ s n m out out' n' m', Satisfiable s.constraints → stepP s n = .ok (out, n') →
      stepU s m = .ok (out', m') → out = possible out')
    (hdead : ∀ s m out' m', ¬Satisfiable s.constraints → stepU s m = .ok (out', m') →
      possible out' = []) {out' : List SymbolicState}
    (hP : forEach stepP (possible states) n = .ok (out, n'))
    (hU : forEach stepU states m = .ok (out', m')) : out = possible out' := by
  induction states generalizing n m out out' with
  | nil =>
    cases hP
    cases hU
    rfl
  | cons s states ih =>
    obtain ⟨⟨first', m₁⟩, hs', hU⟩ := bind_eq_ok.mp hU
    obtain ⟨⟨rest', m₂⟩, hrest', hU⟩ := bind_eq_ok.mp hU
    cases hU
    rw [possible_append]
    by_cases hsat : Satisfiable s.constraints
    · rw [possible_cons, possible_singleton hsat] at hP
      obtain ⟨⟨first, n₁⟩, hs, hP⟩ := bind_eq_ok.mp hP
      obtain ⟨⟨rest, n₂⟩, hrest, hP⟩ := bind_eq_ok.mp hP
      cases hP
      rw [hstep s n m first first' n₁ m₁ hsat hs hs', ih hrest hrest']
    · rw [possible_cons, possible_singleton_dead hsat] at hP
      rw [hdead s m first' m₁ hsat hs']
      exact ih hP hrest'

variable {follow : List SymbolicState → Step (List SymbolicState)} {s : SymbolicState}

lemma branch_keeping (hprune : u.prune = false) {c : Term}
    (h : u.branch follow s c n = .ok (out, n')) :
    ∃ n₁ n₂, follow [s.assume c] n₁ = .ok (out, n₂) := by
  unfold branch keeps at h
  simp only [hprune] at h
  split at h
  · cases h
  · exact ⟨_, _, h⟩

lemma branch_pruning (hz : p.Decides) (hprune : p.prune = true)
    (hnil : ∀ n, follow [] n = .ok ([], n)) {c : Term} (h : p.branch follow s c n = .ok (out, n')) :
    ∃ n₁ n₂, follow (possible [s.assume c]) n₁ = .ok (out, n₂) := by
  unfold branch keeps at h
  split at h
  · cases h
  · obtain ⟨⟨ok, n₁⟩, hok, h⟩ := bind_eq_ok.mp h
    have hiff := feasible_iff hz hok
    cases ok with
    | true =>
      rw [possible_singleton (hiff.mp rfl)]
      exact ⟨n₁, n', h⟩
    | false =>
      cases h
      rw [possible_singleton_dead (fun hsat => Bool.noConfusion (hiff.mpr hsat))]
      exact ⟨n₁, n₁, hnil n₁⟩

mutual

lemma advance_possible (hz : p.Decides) (hp : p.prune = true) (hu : u.prune = false)
    (hdepth : p.maxDepth = u.maxDepth) : ∀ (i : Instruction) (s : SymbolicState)
    (n m : Counters) (out out' : List SymbolicState) (n' m' : Counters),
    Satisfiable s.constraints → p.advance i s n = .ok (out, n') →
    u.advance i s m = .ok (out', m') → out = possible out'
  | .mk o index value thenCode otherwise, s, n, m, out, out', n', m', hsat, hP, hU => by
    have hadvP := advance_eq_ok hP
    cases advance_eq_ok hU with
    | cut hcut =>
      cases hadvP with
      | cut => rfl
      | split hle => omega
      | execute hle => omega
    | @split condition s₁ yes' no' m₁ m₂ m₃ m₄ hle ho hpop hyes' hno' =>
      cases hadvP with
      | cut hcut => omega
      | execute _ hne => exact absurd ho hne
      | @split condition' s₂ yes no n₁ n₂ n₃ n₄ _ _ hpop' hyes hno =>
        rw [hpop] at hpop'
        cases hpop'
        obtain ⟨k₁, k₂, hyes⟩ := branch_pruning hz hp (run_nil_states p thenCode) hyes
        obtain ⟨k₃, k₄, hno⟩ := branch_pruning hz hp (run_nil_states p otherwise) hno
        obtain ⟨l₁, l₂, hyes'⟩ := branch_keeping hu hyes'
        obtain ⟨l₃, l₄, hno'⟩ := branch_keeping hu hno'
        rw [possible_append, run_possible hz hp hu hdepth thenCode _ _ _ _ _ _ _ hyes hyes',
          run_possible hz hp hu hdepth otherwise _ _ _ _ _ _ _ hno hno']
    | @execute s₁ hle ho hexec =>
      cases hadvP with
      | cut hcut => omega
      | split _ h4 => exact absurd h4 ho
      | execute _ _ hexec' =>
        rw [hexec] at hexec'
        cases hexec'
        have hpath := (executeInstruction_samePath hexec).constraints
        rw [possible_singleton (by rw [hpath]; exact hsat)]

lemma run_possible (hz : p.Decides) (hp : p.prune = true) (hu : u.prune = false)
    (hdepth : p.maxDepth = u.maxDepth) : ∀ (program : List Instruction)
    (states : List SymbolicState) (n m : Counters) (out out' : List SymbolicState)
    (n' m' : Counters), p.run program (possible states) n = .ok (out, n') →
    u.run program states m = .ok (out', m') → out = possible out'
  | [], states, n, m, out, out', n', m', hP, hU => by
    cases hP
    cases hU
    rfl
  | i :: program, states, n, m, out, out', n', m', hP, hU => by
    obtain ⟨next, n₁, n₂, hforP, hP⟩ := run_cons_eq_ok hP
    obtain ⟨next', m₁, m₂, hforU, hU⟩ := run_cons_eq_ok hU
    have hnext : next = possible next' := by
      refine forEach_possible (advance_possible hz hp hu hdepth i) ?_ hforP hforU
      intro s m out' m' hdead hs
      exact possible_eq_nil fun ρ =>
        advance_dead i s m out' m' (satisfied_eq_false hdead ρ) hs
    subst hnext
    exact run_possible hz hp hu hdepth program next' n₂ m₂ out out' n' m' hP hU

end

/-! ### The paths -/

def SameReplies (p u : Executor) : Prop :=
  ∀ n m constraints, p.solve n constraints p.model = u.solve m constraints u.model

lemma feasibility_model (hsame : SameReplies p u) {constraints : List Term}
    {r r' : Bool × SolverModel} (hP : p.feasibility constraints n = .ok (r, n'))
    (hU : u.feasibility constraints m = .ok (r', m')) : r = r' := by
  unfold feasibility at hP hU
  split at hP
  · cases hP
    cases hU
    rfl
  · simp only [hsame n.queries m.queries] at hP
    split at hP
    · cases hP
    · rename_i hsolve
      rw [hsolve] at hU
      simp only at hP hU
      split at hP
      · rename_i hsat
        rw [if_pos hsat] at hU
        cases hP
        cases hU
        rfl
      · rename_i hsat
        rw [if_neg hsat] at hU
        split at hP
        · rename_i hunsat
          rw [if_pos hunsat] at hU
          cases hP
          cases hU
          rfl
        · cases hP

structure SamePath (p u : Executor) (a b : SymbolicPath) : Prop where
  constraints : a.constraints = b.constraints
  feasible : a.feasible = b.feasible
  output : a.output = b.output
  model : SameReplies p u → a.model = b.model

lemma collect_cons_eq_ok {e : Executor} {entrypoint : String} {results : List UInt8}
    {paths : List SymbolicPath}
    (h : e.collect entrypoint results (s :: states) n = .ok (paths, n')) :
    ∃ ok model n₁, e.feasibility s.constraints n = .ok ((ok, model), n₁) ∧
      ((ok = false ∧ e.prune = true ∧
        ∃ n₂, e.collect entrypoint results states n₂ = .ok (paths, n')) ∨
      (¬(ok = false ∧ e.prune = true) ∧ ∃ rest n₂ n₃,
        e.collect entrypoint results states n₂ = .ok (rest, n₃) ∧
        paths = ⟨s.constraints, model, ok, s.output results⟩ :: rest)) := by
  obtain ⟨⟨⟨ok, model⟩, n₁⟩, hf, h⟩ := bind_eq_ok.mp h
  refine ⟨ok, model, n₁, hf, ?_⟩
  simp only at h
  split at h
  · rename_i hdrop
    simp only [Bool.and_eq_true, Bool.not_eq_true'] at hdrop
    exact Or.inl ⟨hdrop.1, hdrop.2, _, h⟩
  · rename_i hkeep
    simp only [Bool.and_eq_true, Bool.not_eq_true'] at hkeep
    split at h
    · cases h
    · obtain ⟨⟨rest, n₂⟩, hrest, h⟩ := bind_eq_ok.mp h
      cases h
      exact Or.inr ⟨hkeep, rest, _, _, hrest, rfl⟩

lemma collect_possible (hzp : p.Decides) (hzu : u.Decides) (hu : u.prune = false)
    {entrypoint : String} {results : List UInt8} {paths paths' : List SymbolicPath}
    (hP : p.collect entrypoint results (possible states) n = .ok (paths, n'))
    (hU : u.collect entrypoint results states m = .ok (paths', m')) :
    List.Forall₂ (SamePath p u) paths (paths'.filter SymbolicPath.feasible) := by
  induction states generalizing n m n' m' paths paths' with
  | nil =>
    cases hP
    cases hU
    exact .nil
  | cons s states ih =>
    obtain ⟨ok', model', m₁, hf', ⟨-, hprune, -⟩ | ⟨-, rest', m₂, m₃, hrest', rfl⟩⟩ :=
      collect_cons_eq_ok hU
    · rw [hu] at hprune
      cases hprune
    · have hiff' := feasibility_iff hzu hf'
      by_cases hsat : Satisfiable s.constraints
      · rw [possible_cons, possible_singleton hsat] at hP
        obtain ⟨ok, model, n₁, hf, ⟨hno, -⟩ | ⟨-, rest, n₂, n₃, hrest, rfl⟩⟩ :=
          collect_cons_eq_ok hP
        · rw [(feasibility_iff hzp hf).mpr hsat] at hno
          cases hno
        · obtain rfl := (feasibility_iff hzp hf).mpr hsat
          obtain rfl := hiff'.mpr hsat
          refine .cons ⟨rfl, rfl, rfl, fun hsame => ?_⟩ (ih hrest hrest')
          exact congrArg Prod.snd (feasibility_model hsame hf hf')
      · rw [possible_cons, possible_singleton_dead hsat] at hP
        have hno : ok' ≠ true := fun h => hsat (hiff'.mp h)
        rw [List.filter_cons_of_neg hno]
        exact ih hP hrest'

end Relation

end Executor

/-! ### Whole calls -/

def Environment.Decides (env : Environment) : Prop :=
  ∀ n constraints declarations model,
    (env.solve n constraints declarations = .solution "sat" model → Satisfiable constraints) ∧
    (env.solve n constraints declarations = .solution "unsat" model → ¬Satisfiable constraints)

/-- What the pruned run returns, `r`, are the feasible paths of the run without pruning, `r'`. -/
structure FeasiblePaths (env env' : Environment) (r r' : SymbolicResult) : Prop where
  paths : r.paths.map (fun p => (p.constraints, p.feasible, p.output)) =
    (r'.paths.filter SymbolicPath.feasible).map fun p => (p.constraints, p.feasible, p.output)
  models : (∀ n m constraints declarations,
    env.solve n constraints declarations = env'.solve m constraints declarations) →
      r.paths = r'.paths.filter SymbolicPath.feasible

lemma runFunction_feasiblePaths {env env' : Environment} (hz : env.Decides) (hz' : env'.Decides)
    {fn : WasmFunction} {entrypoint : String} {args : List Arg} {maxDepth : Nat}
    {r r' : SymbolicResult} (h : env.runFunction fn entrypoint args maxDepth true = .ok r)
    (h' : env'.runFunction fn entrypoint args maxDepth false = .ok r') :
    FeasiblePaths env env' r r' := by
  obtain ⟨⟨initial, model⟩, hinit, h⟩ := bind_eq_ok.mp h
  obtain ⟨⟨states, n₁⟩, hstates, h⟩ := bind_eq_ok.mp h
  obtain ⟨⟨paths, n₂⟩, hcollect, h⟩ := bind_eq_ok.mp h
  cases h
  obtain ⟨⟨initial', model'⟩, hinit', h'⟩ := bind_eq_ok.mp h'
  obtain ⟨⟨states', n₁'⟩, hstates', h'⟩ := bind_eq_ok.mp h'
  obtain ⟨⟨paths', n₂'⟩, hcollect', h'⟩ := bind_eq_ok.mp h'
  cases h'
  rw [hinit] at hinit'
  cases hinit'
  have hfirst : possible [initial] = [initial] := by
    obtain ⟨values, -, hrest⟩ := bind_eq_ok.mp hinit
    obtain ⟨zeros, -, hstate⟩ := bind_eq_ok.mp hrest
    cases hstate
    exact possible_singleton satisfiable_nil
  rw [← hfirst] at hstates
  obtain rfl := Executor.run_possible (p := ⟨env.cancelled, env.solve, maxDepth, true, model⟩)
    (u := ⟨env'.cancelled, env'.solve, maxDepth, false, model⟩) (fun n cs => hz n cs _) rfl rfl rfl
    fn.body [initial] _ _ states states' _ _ hstates hstates'
  have hsame := Executor.collect_possible (fun n cs => hz n cs _) (fun n cs => hz' n cs _) rfl
    hcollect hcollect'
  constructor
  · exact List.forall₂_eq_eq_eq ▸ List.forall₂_map_left_iff.mpr (List.forall₂_map_right_iff.mpr
      (hsame.imp fun a b h => by rw [h.constraints, h.feasible, h.output]))
  · intro hreplies
    refine List.forall₂_eq_eq_eq ▸ hsame.imp ?_
    rintro ⟨constraints, model, feasible, output⟩ ⟨_, _, _, _⟩ ⟨rfl, rfl, rfl, hmodel⟩
    obtain rfl := hmodel fun n m cs => hreplies n m cs _
    rfl

lemma Environment.run_eq_ok {env : Environment}
    {decodeBase64 : String → Except GoError (List UInt8)} {input : SymbolicInput}
    {r : SymbolicResult} (h : env.run decodeBase64 input = .ok r) :
    ∃ module entrypoint maxDepth wasm fn,
      agreedField input.module input.wasmBinary "module and wasmBinary disagree"
        "module is required" = .ok module ∧
      agreedField input.entrypoint input.entry "entrypoint and entry disagree"
        "entrypoint is required" = .ok entrypoint ∧
      checkedDepth input.maxDepth = .ok maxDepth ∧ decodeBase64 module = .ok wasm ∧
      parseExportedFunction wasm entrypoint = .ok fn ∧
      env.runFunction fn entrypoint input.args maxDepth input.pruneInfeasible = .ok r := by
  have hlift : ∀ {α : Type} {x : Except GoError α} {a : α}, lift x = .ok a → x = .ok a := by
    intro α x a hx
    cases x <;> cases hx
    rfl
  obtain ⟨module, hmodule, h⟩ := bind_eq_ok.mp h
  obtain ⟨entrypoint, hentrypoint, h⟩ := bind_eq_ok.mp h
  split at h
  · cases h
  · split at h
    · cases h
    · obtain ⟨maxDepth, hdepth, h⟩ := bind_eq_ok.mp h
      split at h
      · cases h
      · split at h
        · cases h
        · rename_i wasm hwasm
          split at h
          · cases h
          · obtain ⟨fn, hfn, h⟩ := bind_eq_ok.mp h
            exact ⟨module, entrypoint, maxDepth, wasm, fn, hlift hmodule, hlift hentrypoint,
              hlift hdepth, hwasm, hfn, hlift h⟩

/-- If the solver decides every query correctly, the paths of a run that prunes infeasible
branches are the feasible paths of the run that does not. -/
theorem pruning_keeps_feasible_paths (env env' : Environment) (hz : env.Decides)
    (hz' : env'.Decides) (decodeBase64 : String → Except GoError (List UInt8))
    (input : SymbolicInput) (r r' : SymbolicResult)
    (h : env.run decodeBase64 { input with pruneInfeasible := true } = .ok r)
    (h' : env'.run decodeBase64 { input with pruneInfeasible := false } = .ok r') :
    FeasiblePaths env env' r r' := by
  obtain ⟨module, entrypoint, maxDepth, wasm, fn, hmodule, hentrypoint, hdepth, hwasm, hfn, hrun⟩ :=
    Environment.run_eq_ok h
  obtain ⟨module', entrypoint', maxDepth', wasm', fn', hmodule', hentrypoint', hdepth', hwasm',
    hfn', hrun'⟩ := Environment.run_eq_ok h'
  obtain rfl := Except.ok.inj (hmodule.symm.trans hmodule')
  obtain rfl := Except.ok.inj (hentrypoint.symm.trans hentrypoint')
  obtain rfl := Except.ok.inj (hdepth.symm.trans hdepth')
  obtain rfl := Except.ok.inj (hwasm.symm.trans hwasm')
  obtain rfl := Except.ok.inj (hfn.symm.trans hfn')
  exact runFunction_feasiblePaths hz hz' hrun hrun'

/-- A solver for closed constraints: it tries one assignment and knows the false constants. -/
def closedSolver : Environment where
  cancelled := fun _ => none
  solve := fun _ constraints _ =>
    if constraints.all (Term.holds fun _ _ => 0) then .solution "sat" []
    else if constraints.any (fun c => c = .bool false ∨ c = .not (.bool true)) then
      .solution "unsat" []
    else .failed (.text "unknown")

lemma closedSolver_decides : closedSolver.Decides := by
  intro n constraints declarations model
  simp only [closedSolver]
  split
  · rename_i hall
    exact ⟨fun _ => ⟨_, hall⟩, fun hunsat => by simp at hunsat⟩
  · split
    · rename_i hany
      refine ⟨fun hsat => by simp at hsat, ?_⟩
      rintro - ⟨ρ, hρ⟩
      obtain ⟨c, hc, hfalse⟩ := List.any_eq_true.mp hany
      have hholds := List.all_eq_true.mp hρ c hc
      simp only [decide_eq_true_eq] at hfalse
      obtain rfl | rfl := hfalse <;> simp [Term.holds, Term.eval] at hholds
    · refine ⟨fun hsat => ?_, fun hunsat => ?_⟩
      · cases hsat
      · cases hunsat

/-- A function `f` without parameters whose condition is the constant 0. -/
def constantBranch : List UInt8 :=
  wasmHeader ++ [0x01, 0x05, 0x01, 0x60, 0x00, 0x01, 0x7f, 0x03, 0x02, 0x01, 0x00,
    0x07, 0x05, 0x01, 0x01, 0x66, 0x00, 0x00,
    0x0a, 0x0e, 0x01, 0x0c, 0x00, 0x41, 0x00, 0x04, 0x7f, 0x41, 0x01, 0x05, 0x41, 0x02, 0x0b, 0x0b]

def constantBranchFunction : WasmFunction :=
  ⟨[], [0x7f], [], [.mk 0x41 0 0 [] [],
    .mk 0x04 0 0 [.mk 0x41 0 1 [] []] [.mk 0x41 0 2 [] []]]⟩

lemma run_constantBranch (maxDepth : Int) (bound : Nat)
    (hdepth : Environment.checkedDepth maxDepth = .ok bound) (prune : Bool) :
    closedSolver.run (fun _ => .ok constantBranch) ⟨"AA", "f", maxDepth, prune, "", "", []⟩ =
      Environment.lift (closedSolver.runFunction constantBranchFunction "f" [] bound prune) := by
  have hname : "f".toUTF8.toList = [0x66] := by decide +kernel
  have hparse : parseExportedFunction constantBranch "f" = .ok constantBranchFunction := by
    rw [parseExportedFunction, hname]
    rfl
  have hmodule : Environment.agreedField "AA" "" "module and wasmBinary disagree"
      "module is required" = .ok "AA" := by rfl
  have hentry : Environment.agreedField "f" "" "entrypoint and entry disagree"
      "entrypoint is required" = .ok "f" := by rfl
  have hlimits : ¬maxSymbolicEntrypointLen < "f".utf8ByteSize ∧
      ¬Environment.maxEncodedModule < "AA".utf8ByteSize ∧
      ¬maxSymbolicModuleBytes < constantBranch.length := by decide
  rw [Environment.run]
  simp only [hmodule, hentry, hdepth, hlimits, hparse, closedSolver, Environment.lift, bind,
    Except.bind, if_false]

theorem constantBranch_pruned : ∃ r r', closedSolver.run (fun _ => .ok constantBranch)
        ⟨"AA", "f", 0, true, "", "", []⟩ = .ok r ∧
      closedSolver.run (fun _ => .ok constantBranch) ⟨"AA", "f", 0, false, "", "", []⟩ = .ok r' ∧
      r.paths.length = 1 ∧ r'.paths.length = 2 ∧ FeasiblePaths closedSolver closedSolver r r' := by
  refine ⟨_, _, run_constantBranch 0 100 rfl true, run_constantBranch 0 100 rfl false, rfl, rfl, ?_⟩
  exact pruning_keeps_feasible_paths closedSolver closedSolver closedSolver_decides
    closedSolver_decides (fun _ => .ok constantBranch) ⟨"AA", "f", 0, true, "", "", []⟩ _ _
    (run_constantBranch 0 100 rfl true) (run_constantBranch 0 100 rfl false)

end Symkernel.Verify
