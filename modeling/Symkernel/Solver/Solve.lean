import Symkernel.Library.Runs
import Symkernel.Solver.Decisions
import Symkernel.Solver.Program

/-!
# Solving with the cache

`SolveConstraintsCtx` of `internal/z3/z3.go`. Z3 is a function from programs to what a run that
is left alone writes and how it exits. What the context does to a call is part of the call. The
times that a solution reports are left out.
-/

namespace Symkernel.Solver

open Library

/-- What a run of `z3 -in` writes, and the error of `cmd.Run` if it exits with one. -/
structure ProcessResult where
  stdout : Text
  err : Option String

structure Call where
  constraints : Text
  model : Hints
  /-- `ctx.Err()` is not nil on entry. -/
  ended : Bool
  /-- The context kills the run after this output. -/
  killed : Option Text
  /-- `ctx.Err()` is not nil after a run that failed by itself. -/
  endedAfter : Bool

def Call.program (call : Call) : Text :=
  buildSMT2 call.constraints call.model

def Call.cancelled (call : Call) : Bool :=
  call.ended || call.killed.isSome || call.endedAfter

/-- The outcome of `cmd.Run`, and whether `ctx.Err()` is set afterwards. -/
def Call.run (z3 : Text → ProcessResult) (call : Call) : ProcessResult × Bool :=
  match call.killed with
  | some stdout => (⟨stdout, some "signal: killed"⟩, true)
  | none => (z3 call.program, call.endedAfter)

def decisionFromSolution (solution : Solution) : Decision :=
  ⟨solution.sat, solution.model, solution.unsatCore⟩

def solutionFromDecision (decision : Decision) : Solution :=
  ⟨decision.sat, decision.model, decision.unsatCore⟩

/-- What a run is read as when the context has not ended. A run that exits with an error still
counts if its output can be read. -/
def ProcessResult.solution (result : ProcessResult) : Except GoError Solution :=
  match result.err with
  | none => Z3.parseOutput result.stdout
  | some err =>
    if result.stdout = [] then .error (.text ("z3: " ++ err))
    else match Z3.parseOutput result.stdout with
      | .ok solution => .ok solution
      | .error _ => .error (.text ("z3: " ++ err))

section Solve

variable {κ : Type*} [DecidableEq κ] (hash : Text → κ) (z3 : Text → ProcessResult)

def store (c : DecisionCache κ) (smt2 : Text) (solution : Solution) : DecisionCache κ :=
  if solution.sat = .unknown then c else c.setByHash (hash smt2) (decisionFromSolution solution)

def solveConstraintsCtx (c : DecisionCache κ) (call : Call) :
    DecisionCache κ × Except GoError Solution :=
  if call.ended then (c, .ok { sat := .unknown })
  else match c.getByHash (hash call.program) with
    | (c, some decision) => (c, .ok (solutionFromDecision decision))
    | (c, none) =>
      let (result, ended) := call.run z3
      if result.err.isSome ∧ ended then (c, .ok { sat := .unknown })
      else match result.solution with
        | .ok solution => (store hash c call.program solution, .ok solution)
        | .error err => (c, .error err)

variable {hash z3}

variable {call : Call}

lemma solveConstraintsCtx_hit {c : DecisionCache κ} (hended : call.ended = false)
    {decision : Decision} (h : (c.getByHash (hash call.program)).2 = some decision) :
    solveConstraintsCtx hash z3 c call =
      ((c.getByHash (hash call.program)).1, .ok (solutionFromDecision decision)) := by
  unfold solveConstraintsCtx
  rw [hended]
  generalize c.getByHash (hash call.program) = r at h
  obtain ⟨c', found⟩ := r
  cases h
  rfl

variable (z3) in
lemma solveConstraintsCtx_miss {c : DecisionCache κ} (hended : call.ended = false)
    (h : (c.getByHash (hash call.program)).2 = none) :
    (call.cancelled = true ∧ solveConstraintsCtx hash z3 c call =
        ((c.getByHash (hash call.program)).1, .ok { sat := .unknown })) ∨
      (∃ solution, (z3 call.program).solution = .ok solution ∧
        solveConstraintsCtx hash z3 c call =
          (store hash (c.getByHash (hash call.program)).1 call.program solution, .ok solution)) ∨
      ∃ err, (z3 call.program).solution = .error err ∧
        solveConstraintsCtx hash z3 c call =
          ((c.getByHash (hash call.program)).1, .error err) := by
  unfold solveConstraintsCtx
  rw [hended, if_neg Bool.false_ne_true]
  generalize c.getByHash (hash call.program) = r at h
  obtain ⟨c', found⟩ := r
  cases h
  cases hkilled : call.killed with
  | some stdout =>
    left
    simp [Call.cancelled, Call.run, hkilled]
  | none =>
    simp only [Call.run, hkilled]
    split
    · rename_i hcut
      left
      simp [Call.cancelled, hcut.2]
    · right
      cases hsol : (z3 call.program).solution with
      | ok solution => exact Or.inl ⟨solution, rfl, rfl⟩
      | error err => exact Or.inr ⟨err, rfl, rfl⟩

lemma coreOf_ne_nil (skip : Text → Bool) (lines : List Text) : coreOf skip lines ≠ some [] := by
  intro h
  obtain ⟨line, -, hline⟩ := List.exists_of_findSome?_eq_some h
  simp only at hline
  split at hline
  · cases hline
  · split at hline
    · cases hline
    · rename_i hne
      exact hne (Option.some.inj hline)

lemma cloneNames_of_ne {names : Option (List Text)} (h : names ≠ some []) :
    cloneNames names = names := by
  cases names with
  | none => rfl
  | some names =>
    cases names with
    | nil => exact absurd rfl h
    | cons name names => rfl

variable {solution : Solution}

lemma cloneNames_parseOutput {output : Text} (h : Z3.parseOutput output = .ok solution) :
    cloneNames solution.unsatCore = solution.unsatCore := by
  unfold Z3.parseOutput at h
  split at h
  · cases h
  · split_ifs at h
    · cases h
      rfl
    · cases h
      exact cloneNames_of_ne (coreOf_ne_nil _ _)
    · cases h
      rfl

lemma cloneDecision_of_solution {result : ProcessResult} (h : result.solution = .ok solution) :
    cloneDecision (decisionFromSolution solution) = decisionFromSolution solution := by
  have hnames : cloneNames solution.unsatCore = solution.unsatCore := by
    unfold ProcessResult.solution at h
    split at h
    · exact cloneNames_parseOutput h
    · split_ifs at h
      split at h
      · rename_i hparse
        cases h
        exact cloneNames_parseOutput hparse
      · cases h
  simp only [cloneDecision, decisionFromSolution, hnames]

variable (hash z3) in
/-- Every decision in the cache is what Z3 says about a program in `P` with its hash. -/
structure Sound (P : Set Text) (c : DecisionCache κ) : Prop extends c.Consistent where
  answers : ∀ e ∈ c.lru, ∃ p ∈ P, e.hash = hash p ∧ ∃ solution,
    (z3 p).solution = .ok solution ∧ solution.sat ≠ .unknown ∧
      e.decision = decisionFromSolution solution

variable {P : Set Text} {c : DecisionCache κ}

lemma sound_new (maxEntries : Int) : Sound hash z3 P (DecisionCache.new maxEntries) :=
  ⟨DecisionCache.consistent_new maxEntries, fun e he => by cases he⟩

section Cached

variable (hc : Sound hash z3 P c)
include hc

lemma Sound.getByHash (key : κ) : Sound hash z3 P (c.getByHash key).1 :=
  ⟨hc.toConsistent.getByHash key, fun e he => hc.answers e (hc.mem_getByHash he)⟩

lemma Sound.store {p : Text} (hp : p ∈ P)
    (h : (z3 p).solution = .ok solution) : Sound hash z3 P (store hash c p solution) := by
  unfold Solver.store
  split
  · exact hc
  · rename_i hsat
    refine ⟨hc.toConsistent.setByHash _ _, fun e he => ?_⟩
    obtain ⟨hhash, hdecision⟩ | he := DecisionCache.mem_setByHash he
    · rw [cloneDecision_of_solution h] at hdecision
      exact ⟨p, hp, hhash, solution, h, hsat, hdecision⟩
    · exact hc.answers e he

lemma Sound.step (hp : call.program ∈ P) :
    Sound hash z3 P (solveConstraintsCtx hash z3 c call).1 := by
  cases hended : call.ended with
  | true =>
    rw [solveConstraintsCtx, if_pos hended]
    exact hc
  | false =>
    have hget := hc.getByHash (hash call.program)
    cases h : (c.getByHash (hash call.program)).2 with
    | some decision =>
      rw [solveConstraintsCtx_hit hended h]
      exact hget
    | none =>
      obtain ⟨-, hsolve⟩ | ⟨solution, hsol, hsolve⟩ | ⟨err, -, hsolve⟩ :=
        solveConstraintsCtx_miss z3 hended h
      · rw [hsolve]
        exact hget
      · rw [hsolve]
        exact hget.store hp hsol
      · rw [hsolve]
        exact hget

/-- A hit is Z3's answer to the very program of the call. -/
lemma Sound.hit (hinj : Set.InjOn hash P) {p : Text} (hp : p ∈ P)
    {decision : Decision} (h : (c.getByHash (hash p)).2 = some decision) :
    (z3 p).solution = .ok (solutionFromDecision decision) ∧ decision.sat ≠ .unknown := by
  obtain ⟨e, he, hhash, hdecision⟩ := hc.getByHash_hit h
  obtain ⟨q, hq, hqhash, solution, hsol, hsat, hed⟩ := hc.answers e he
  have hpq : q = p := hinj hq hp (hqhash.symm.trans hhash)
  rw [hed, cloneDecision_of_solution hsol] at hdecision
  rw [hdecision, ← hpq]
  exact ⟨hsol, hsat⟩

lemma Sound.answer (hinj : Set.InjOn hash P) (hp : call.program ∈ P)
    (hcall : call.cancelled = false) :
    (solveConstraintsCtx hash z3 c call).2 = (z3 call.program).solution := by
  have hended : call.ended = false := by
    simp only [Call.cancelled, Bool.or_eq_false_iff] at hcall
    exact hcall.1.1
  cases h : (c.getByHash (hash call.program)).2 with
  | some decision =>
    rw [solveConstraintsCtx_hit hended h, (hc.hit hinj hp h).1]
  | none =>
    obtain ⟨hcut, -⟩ | ⟨solution, hsol, hsolve⟩ | ⟨err, hsol, hsolve⟩ :=
      solveConstraintsCtx_miss z3 hended h
    · rw [hcall] at hcut
      cases hcut
    · rw [hsolve, hsol]
    · rw [hsolve, hsol]

end Cached

def submitted (calls : List Call) : Set Text :=
  {p | ∃ call ∈ calls, call.program = p}

/-- The same calls with a cache of any size and with caching disabled: every call that is not
cancelled returns the same, and a decision found in the cache is never unknown. -/
theorem cached_calls_transparent (hash : Text → κ) (z3 : Text → ProcessResult) (maxEntries : Int)
    (calls : List Call) (hinj : Set.InjOn hash (submitted calls)) : EveryStep
      (fun s call => ((solveConstraintsCtx hash z3 s.1 call).1,
        (solveConstraintsCtx hash z3 s.2 call).1)) (fun s call => (call.cancelled = false →
          (solveConstraintsCtx hash z3 s.1 call).2 = (solveConstraintsCtx hash z3 s.2 call).2) ∧
        ∀ decision, (s.1.getByHash (hash call.program)).2 = some decision → decision.sat ≠ .unknown)
      (DecisionCache.new maxEntries, DecisionCache.new 0) calls := by
  have hsubmitted : EveryStep (fun s call => ((solveConstraintsCtx hash z3 s.1 call).1,
        (solveConstraintsCtx hash z3 s.2 call).1))
      (fun _ call => call.program ∈ submitted calls)
      (DecisionCache.new maxEntries, DecisionCache.new 0) calls :=
    EveryStep.of_forall_mem fun call hcall => ⟨call, hcall, rfl⟩
  refine EveryStep.of_known (P := fun s => Sound hash z3 (submitted calls) s.1 ∧
    Sound hash z3 (submitted calls) s.2) ?_ ?_ ⟨sound_new maxEntries, sound_new 0⟩ hsubmitted
  · rintro ⟨c, d⟩ call ⟨hc, hd⟩ hp
    refine ⟨fun hcall => ?_, fun decision h => (hc.hit hinj hp h).2⟩
    rw [hc.answer hinj hp hcall, hd.answer hinj hp hcall]
  · rintro ⟨c, d⟩ call ⟨hc, hd⟩ hp
    exact ⟨hc.step hp, hd.step hp⟩

end Solve

/-- One call twice, with room for one decision: the second one is a hit. -/
theorem repeated_call_transparent :
    let call : Call := ⟨"(assert (= x 6))".toList, ∅, false, none, false⟩
    let z3 : Text → ProcessResult := fun _ => ⟨"sat\n((x 6))\n".toList, none⟩
    (runFrom (fun c call => (solveConstraintsCtx id z3 c call).1) (DecisionCache.new 1)
        [call, call]).hits = 1 ∧
      EveryStep
        (fun s call => ((solveConstraintsCtx id z3 s.1 call).1,
          (solveConstraintsCtx id z3 s.2 call).1))
        (fun s call =>
          (call.cancelled = false →
            (solveConstraintsCtx id z3 s.1 call).2 = (solveConstraintsCtx id z3 s.2 call).2) ∧
          ∀ decision, (s.1.getByHash (id call.program)).2 = some decision →
            decision.sat ≠ .unknown)
        (DecisionCache.new 1, DecisionCache.new 0) [call, call] := by
  intro call z3
  exact ⟨by decide, cached_calls_transparent id z3 1 [call, call] Function.injective_id.injOn⟩

end Symkernel.Solver
