import Symkernel.Verify.Pruning

/-!
# What an exploration accounts for
-/

namespace Symkernel.Verify

open Library Library.Smt

namespace Executor

variable {e : Executor}

/-- From `k` states and the counters `n` to `k'` states and the counters `n'`: a fork takes two
candidates from the budget and leaves one state more, or drops a state and counts it. -/
def Balanced (k : Nat) (n : Counters) (k' : Nat) (n' : Counters) : Prop :=
  2 * (k' + n'.pruned) + n.explored = 2 * (k + n.pruned) + n'.explored

/-- Asking the context or the solver moves neither counter. -/
structure SameCounts (n n' : Counters) : Prop where
  explored : n'.explored = n.explored
  pruned : n'.pruned = n.pruned

variable {n n' : Counters}

lemma poll_sameCounts {u : Unit} (h : e.poll n = .ok (u, n')) : SameCounts n n' := by
  unfold poll at h
  split at h
  · cases h
  · cases h
    exact ⟨rfl, rfl⟩

lemma feasibility_sameCounts {constraints : List Term} {r : Bool × SolverModel}
    (h : e.feasibility constraints n = .ok (r, n')) : SameCounts n n' := by
  unfold feasibility at h
  split at h
  · cases h
    exact ⟨rfl, rfl⟩
  · split at h
    · cases h
    · split at h
      · cases h
        exact ⟨rfl, rfl⟩
      · split at h
        · cases h
          exact ⟨rfl, rfl⟩
        · cases h

lemma keeps_sameCounts {constraints : List Term} {ok : Bool}
    (h : e.keeps constraints n = .ok (ok, n')) : SameCounts n n' := by
  unfold keeps at h
  split at h
  · obtain ⟨⟨⟨_, model⟩, n₁⟩, hf, h⟩ := bind_eq_ok.mp h
    cases h
    exact feasibility_sameCounts hf
  · cases h
    exact ⟨rfl, rfl⟩

lemma branch_counts {follow : List SymbolicState → Step (List SymbolicState)}
    (hfollow : ∀ s n out n', follow [s] n = .ok (out, n') → Balanced 1 n out.length n')
    {s : SymbolicState} {c : Term} {out : List SymbolicState}
    (h : e.branch follow s c n = .ok (out, n')) :
    2 * (out.length + n'.pruned) + n.explored = 2 * n.pruned + 1 + n'.explored := by
  unfold branch at h
  split at h
  · cases h
  · obtain ⟨⟨ok, n₁⟩, hok, h⟩ := bind_eq_ok.mp h
    obtain ⟨hexplored, hpruned⟩ := keeps_sameCounts hok
    simp only at hexplored hpruned
    cases ok with
    | true =>
      have hbal : Balanced 1 n₁ out.length n' := hfollow _ _ _ _ h
      unfold Balanced at hbal
      omega
    | false =>
      cases h
      simp only [List.length_nil]
      omega

lemma forEach_balanced {step : SymbolicState → Step (List SymbolicState)}
    (hstep : ∀ s n out n', step s n = .ok (out, n') → Balanced 1 n out.length n')
    {states next : List SymbolicState} (h : forEach step states n = .ok (next, n')) :
    Balanced states.length n next.length n' := by
  induction states generalizing n next with
  | nil =>
    cases h
    rfl
  | cons s states ih =>
    obtain ⟨⟨out, n₁⟩, hs, h⟩ := bind_eq_ok.mp h
    obtain ⟨⟨rest, n₂⟩, hrest, h⟩ := bind_eq_ok.mp h
    cases h
    have hhead := hstep s n out n₁ hs
    have htail := ih hrest
    unfold Balanced at *
    rw [List.length_append, List.length_cons]
    omega

mutual

lemma advance_balanced : ∀ (i : Instruction) (s : SymbolicState) (n : Counters)
    (out : List SymbolicState) (n' : Counters), e.advance i s n = .ok (out, n') →
    Balanced 1 n out.length n'
  | .mk o index value thenCode otherwise, s, n, out, n', h => by
    obtain ⟨⟨_, n₁⟩, hpoll, h⟩ := bind_eq_ok.mp h
    obtain ⟨hexplored, hpruned⟩ := poll_sameCounts hpoll
    simp only at h
    unfold Balanced
    split at h
    · cases h
      simp only [List.length_nil]
      omega
    · split at h
      · obtain ⟨⟨condition, s₁⟩, -, h⟩ := bind_eq_ok.mp h
        obtain ⟨⟨yes, n₂⟩, hyes, h⟩ := bind_eq_ok.mp h
        obtain ⟨⟨no, n₃⟩, hno, h⟩ := bind_eq_ok.mp h
        cases h
        have hthen := branch_counts (fun s n out n' => run_balanced thenCode [s] n out n') hyes
        have helse := branch_counts (fun s n out n' => run_balanced otherwise [s] n out n') hno
        simp only [List.length_append] at hthen helse ⊢
        omega
      · obtain ⟨s₁, -, h⟩ := bind_eq_ok.mp h
        cases h
        rw [List.length_singleton]
        omega

lemma run_balanced : ∀ (program : List Instruction) (states : List SymbolicState) (n : Counters)
    (out : List SymbolicState) (n' : Counters), e.run program states n = .ok (out, n') →
    Balanced states.length n out.length n'
  | [], states, n, out, n', h => by
    cases h
    rfl
  | i :: program, states, n, out, n', h => by
    obtain ⟨⟨next, n₁⟩, hfor, h⟩ := bind_eq_ok.mp h
    have hfirst := forEach_balanced (advance_balanced i) hfor
    have hrest := run_balanced program next n₁ out n' h
    unfold Balanced at *
    omega

end

lemma collect_balanced {entrypoint : String} {results : List UInt8} {states : List SymbolicState}
    {paths : List SymbolicPath} (h : e.collect entrypoint results states n = .ok (paths, n')) :
    Balanced states.length n paths.length n' := by
  induction states generalizing n paths with
  | nil =>
    cases h
    rfl
  | cons s states ih =>
    obtain ⟨⟨⟨ok, model⟩, n₁⟩, hf, h⟩ := bind_eq_ok.mp h
    obtain ⟨hexplored, hpruned⟩ := feasibility_sameCounts hf
    simp only at h
    split at h
    · have hrest := ih h
      unfold Balanced at *
      simp only [List.length_cons] at *
      omega
    · split at h
      · cases h
      · obtain ⟨⟨rest, n₂⟩, hcollect, h⟩ := bind_eq_ok.mp h
        cases h
        have hrest := ih hcollect
        unfold Balanced at *
        simp only [List.length_cons] at *
        omega

section Depth

variable {p u : Executor}

variable {m n m' n' : Counters}

lemma keeps_same (hsame : SameReplies p u) (hprune : p.prune = u.prune) {constraints : List Term}
    {ok ok' : Bool} (hP : p.keeps constraints n = .ok (ok, n'))
    (hU : u.keeps constraints m = .ok (ok', m')) : ok = ok' := by
  unfold keeps at hP hU
  rw [hprune] at hP
  split at hP
  · rename_i hon
    rw [if_pos hon] at hU
    obtain ⟨⟨r, n₁⟩, hf, hP⟩ := bind_eq_ok.mp hP
    obtain ⟨⟨r', m₁⟩, hf', hU⟩ := bind_eq_ok.mp hU
    obtain rfl := feasibility_model hsame hf hf'
    cases hP
    cases hU
    rfl
  · rename_i hoff
    rw [if_neg hoff] at hU
    cases hP
    cases hU
    rfl

variable {out out' states states' : List SymbolicState}

lemma branch_sublist (hsame : SameReplies p u) (hprune : p.prune = u.prune)
    {follow follow' : List SymbolicState → Step (List SymbolicState)}
    (hfollow : ∀ s n m out out' n' m', follow [s] n = .ok (out, n') →
      follow' [s] m = .ok (out', m') → out.Sublist out') {s : SymbolicState} {c : Term}
    (hP : p.branch follow s c n = .ok (out, n')) (hU : u.branch follow' s c m = .ok (out', m')) :
    out.Sublist out' := by
  unfold branch at hP hU
  split at hP
  · cases hP
  · split at hU
    · cases hU
    · obtain ⟨⟨ok, n₁⟩, hok, hP⟩ := bind_eq_ok.mp hP
      obtain ⟨⟨ok', m₁⟩, hok', hU⟩ := bind_eq_ok.mp hU
      obtain rfl := keeps_same hsame hprune hok hok'
      cases ok with
      | true => exact hfollow _ _ _ _ _ _ _ hP hU
      | false =>
        cases hP
        exact List.nil_sublist out'

/-- The second list may hold more states; they only add to what comes out. -/
lemma forEach_sublist {step step' : SymbolicState → Step (List SymbolicState)}
    (hstep : ∀ s n m out out' n' m', step s n = .ok (out, n') → step' s m = .ok (out', m') →
      out.Sublist out') (hsub : states.Sublist states')
    (hP : forEach step states n = .ok (out, n')) (hU : forEach step' states' m = .ok (out', m')) :
    out.Sublist out' := by
  induction hsub generalizing n m out out' with
  | slnil =>
    cases hP
    exact List.nil_sublist out'
  | cons s _ ih =>
    obtain ⟨⟨first', m₁⟩, hs', hU⟩ := bind_eq_ok.mp hU
    obtain ⟨⟨rest', m₂⟩, hrest', hU⟩ := bind_eq_ok.mp hU
    cases hU
    exact (ih hP hrest').trans (List.sublist_append_right first' rest')
  | cons_cons s _ ih =>
    obtain ⟨⟨first, n₁⟩, hs, hP⟩ := bind_eq_ok.mp hP
    obtain ⟨⟨rest, n₂⟩, hrest, hP⟩ := bind_eq_ok.mp hP
    obtain ⟨⟨first', m₁⟩, hs', hU⟩ := bind_eq_ok.mp hU
    obtain ⟨⟨rest', m₂⟩, hrest', hU⟩ := bind_eq_ok.mp hU
    cases hP
    cases hU
    exact (hstep s _ _ _ _ _ _ hs hs').append (ih hrest hrest')

mutual

lemma advance_sublist (hsame : SameReplies p u) (hprune : p.prune = u.prune)
    (hdepth : p.maxDepth ≤ u.maxDepth) : ∀ (i : Instruction) (s : SymbolicState)
    (n m : Counters) (out out' : List SymbolicState) (n' m' : Counters),
    p.advance i s n = .ok (out, n') → u.advance i s m = .ok (out', m') → out.Sublist out'
  | .mk o index value thenCode otherwise, s, n, m, out, out', n', m', hP, hU => by
    have hadvU := advance_eq_ok hU
    cases advance_eq_ok hP with
    | cut => exact List.nil_sublist out'
    | @split condition s₁ yes no n₁ n₂ n₃ n₄ hle ho hpop hyes hno =>
      cases hadvU with
      | cut hcut => omega
      | execute _ hne => exact absurd ho hne
      | @split condition' s₂ yes' no' m₁ m₂ m₃ m₄ _ _ hpop' hyes' hno' =>
        rw [hpop] at hpop'
        cases hpop'
        have hthen := branch_sublist hsame hprune
          (fun s => run_sublist hsame hprune hdepth thenCode (List.Sublist.refl [s])) hyes hyes'
        have helse := branch_sublist hsame hprune
          (fun s => run_sublist hsame hprune hdepth otherwise (List.Sublist.refl [s])) hno hno'
        exact hthen.append helse
    | @execute s₁ hle ho hexec =>
      cases hadvU with
      | cut hcut => omega
      | split _ h4 => exact absurd h4 ho
      | execute _ _ hexec' =>
        rw [hexec] at hexec'
        cases hexec'
        exact List.Sublist.refl [s₁]

lemma run_sublist (hsame : SameReplies p u) (hprune : p.prune = u.prune)
    (hdepth : p.maxDepth ≤ u.maxDepth) : ∀ (program : List Instruction)
    {states states' : List SymbolicState}, states.Sublist states' →
    ∀ (n m : Counters) (out out' : List SymbolicState) (n' m' : Counters),
    p.run program states n = .ok (out, n') → u.run program states' m = .ok (out', m') →
    out.Sublist out'
  | [], states, states', hsub, n, m, out, out', n', m', hP, hU => by
    cases hP
    cases hU
    exact hsub
  | i :: program, states, states', hsub, n, m, out, out', n', m', hP, hU => by
    obtain ⟨next, n₁, n₂, hforP, hP⟩ := run_cons_eq_ok hP
    obtain ⟨next', m₁, m₂, hforU, hU⟩ := run_cons_eq_ok hU
    have hnext : next.Sublist next' :=
      forEach_sublist (advance_sublist hsame hprune hdepth i) hsub hforP hforU
    exact run_sublist hsame hprune hdepth program hnext n₂ m₂ out out' n' m' hP hU

end

lemma collect_sublist (hsame : SameReplies p u) (hprune : p.prune = u.prune) {entrypoint : String}
    {results : List UInt8} {paths paths' : List SymbolicPath} (hsub : states.Sublist states')
    (hP : p.collect entrypoint results states n = .ok (paths, n'))
    (hU : u.collect entrypoint results states' m = .ok (paths', m')) : paths.Sublist paths' := by
  induction hsub generalizing n m paths paths' n' m' with
  | slnil =>
    cases hP
    exact List.nil_sublist paths'
  | cons s _ ih =>
    obtain ⟨-, -, -, -, ⟨-, -, m₂, hrest⟩ | ⟨-, rest', m₂, m₃, hrest, rfl⟩⟩ := collect_cons_eq_ok hU
    · exact ih hP hrest
    · exact (ih hP hrest).cons _
  | cons_cons s _ ih =>
    obtain ⟨ok, model, n₁, hf, hP⟩ := collect_cons_eq_ok hP
    obtain ⟨ok', model', m₁, hf', hU⟩ := collect_cons_eq_ok hU
    cases feasibility_model hsame hf hf'
    rw [hprune] at hP
    obtain ⟨hno, hon, n₂, hrest⟩ | ⟨hkeep, rest, n₂, n₃, hrest, rfl⟩ := hP
    · obtain ⟨-, -, m₂, hrest'⟩ | ⟨hkeep, -⟩ := hU
      · exact ih hrest hrest'
      · exact absurd ⟨hno, hon⟩ hkeep
    · obtain ⟨hno, hon, -⟩ | ⟨-, rest', m₂, m₃, hrest', rfl⟩ := hU
      · exact absurd ⟨hno, hon⟩ hkeep
      · exact (ih hrest hrest').cons_cons _

end Depth

end Executor

/-- Whenever `Run` succeeds, the paths it returns and the paths it pruned are all the leaves of
the forks it explored, whatever the context and the solver answer. -/
theorem run_accounts_for_paths (env : Environment)
    (decodeBase64 : String → Except GoError (List UInt8)) (input : SymbolicInput)
    (r : SymbolicResult) (h : env.run decodeBase64 input = .ok r) :
    2 * (r.paths.length + r.pruned) = r.explored + 1 := by
  obtain ⟨module, entrypoint, maxDepth, wasm, fn, -, -, -, -, -, h⟩ := Environment.run_eq_ok h
  obtain ⟨⟨initial, model⟩, -, h⟩ := bind_eq_ok.mp h
  obtain ⟨⟨states, n₁⟩, hstates, h⟩ := bind_eq_ok.mp h
  obtain ⟨⟨paths, n₂⟩, hcollect, h⟩ := bind_eq_ok.mp h
  cases h
  have hrun := Executor.run_balanced fn.body [initial] _ states n₁ hstates
  have hfilter := Executor.collect_balanced hcollect
  unfold Executor.Balanced at hrun hfilter
  simp only [List.length_singleton] at hrun ⊢
  omega

theorem constantBranch_accounted :
    ∃ r, closedSolver.run (fun _ => .ok constantBranch) ⟨"AA", "f", 0, true, "", "", []⟩ = .ok r ∧
      r.explored = 3 ∧ r.pruned = 1 ∧ 2 * (r.paths.length + r.pruned) = r.explored + 1 := by
  refine ⟨_, run_constantBranch 0 100 rfl true, rfl, rfl, ?_⟩
  exact run_accounts_for_paths closedSolver (fun _ => .ok constantBranch)
    ⟨"AA", "f", 0, true, "", "", []⟩ _ (run_constantBranch 0 100 rfl true)

lemma checkedDepth_of_pos {d : Int} {bound : Nat} (hd : 0 < d)
    (h : Environment.checkedDepth d = .ok bound) : (bound : Int) = d := by
  unfold Environment.checkedDepth at h
  split at h
  · cases h
  · split at h
    · omega
    · split at h
      · cases h
      · cases h
        omega

/-- With a solver that answers a query the same way whenever it is asked, the paths found with a
depth bound are found, in the same order, with every larger bound. -/
theorem deeper_run_keeps_paths (env env' : Environment) (hsolver : ∀ n m constraints declarations,
      env.solve n constraints declarations = env'.solve m constraints declarations)
    (decodeBase64 : String → Except GoError (List UInt8)) (input : SymbolicInput) (d d' : Int)
    (hpos : 0 < d) (hle : d ≤ d') (r r' : SymbolicResult)
    (h : env.run decodeBase64 { input with maxDepth := d } = .ok r)
    (h' : env'.run decodeBase64 { input with maxDepth := d' } = .ok r') :
    r.paths.Sublist r'.paths := by
  obtain ⟨module, entrypoint, bound, wasm, fn, hmodule, hentrypoint, hdepth, hwasm, hfn, h⟩ :=
    Environment.run_eq_ok h
  obtain ⟨module', entrypoint', bound', wasm', fn', hmodule', hentrypoint', hdepth', hwasm', hfn',
    h'⟩ := Environment.run_eq_ok h'
  obtain rfl := Except.ok.inj (hmodule.symm.trans hmodule')
  obtain rfl := Except.ok.inj (hentrypoint.symm.trans hentrypoint')
  obtain rfl := Except.ok.inj (hwasm.symm.trans hwasm')
  obtain rfl := Except.ok.inj (hfn.symm.trans hfn')
  have hbound := checkedDepth_of_pos hpos hdepth
  have hbound' := checkedDepth_of_pos (Int.lt_of_lt_of_le hpos hle) hdepth'
  obtain ⟨⟨initial, model⟩, hinit, h⟩ := bind_eq_ok.mp h
  obtain ⟨⟨states, n₁⟩, hstates, h⟩ := bind_eq_ok.mp h
  obtain ⟨⟨paths, n₂⟩, hcollect, h⟩ := bind_eq_ok.mp h
  cases h
  obtain ⟨⟨initial', model'⟩, hinit', h'⟩ := bind_eq_ok.mp h'
  obtain ⟨⟨states', n₁'⟩, hstates', h'⟩ := bind_eq_ok.mp h'
  obtain ⟨⟨paths', n₂'⟩, hcollect', h'⟩ := bind_eq_ok.mp h'
  cases h'
  rw [hinit] at hinit'
  cases hinit'
  have hsame : Executor.SameReplies ⟨env.cancelled, env.solve, bound, input.pruneInfeasible, model⟩
      ⟨env'.cancelled, env'.solve, bound', input.pruneInfeasible, model⟩ :=
    fun n m constraints => hsolver n m constraints model
  have hsub : states.Sublist states' := by
    refine Executor.run_sublist hsame rfl ?_ fn.body (List.Sublist.refl [initial]) _ _ _ _ _ _
      hstates hstates'
    show bound ≤ bound'
    omega
  exact Executor.collect_sublist hsame rfl hsub hcollect hcollect'

theorem constantBranch_deeper :
    ∃ r r', closedSolver.run (fun _ => .ok constantBranch) ⟨"AA", "f", 3, true, "", "", []⟩ = .ok r ∧
      closedSolver.run (fun _ => .ok constantBranch) ⟨"AA", "f", 100, true, "", "", []⟩ = .ok r' ∧
      r.paths.length = 1 ∧ r.paths.Sublist r'.paths := by
  refine ⟨_, _, run_constantBranch 3 3 rfl true, run_constantBranch 100 100 rfl true, rfl, ?_⟩
  exact deeper_run_keeps_paths closedSolver closedSolver (fun _ _ _ _ => rfl)
    (fun _ => .ok constantBranch) ⟨"AA", "f", 3, true, "", "", []⟩ 3 100 (by decide) (by decide) _ _
    (run_constantBranch 3 3 rfl true) (run_constantBranch 100 100 rfl true)

end Symkernel.Verify
