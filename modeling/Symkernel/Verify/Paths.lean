import Symkernel.Verify.Simulation

/-!
# Whole runs of the executor
-/

namespace Symkernel.Verify

open Library Library.Smt List

def SymbolicState.satisfied (ρ : Assignment) (s : SymbolicState) : Bool :=
  s.constraints.all (Term.holds ρ)

def live (ρ : Assignment) (states : List SymbolicState) : List SymbolicState :=
  states.filter (SymbolicState.satisfied ρ)

@[simp] lemma live_append (ρ : Assignment) (a b : List SymbolicState) :
    live ρ (a ++ b) = live ρ a ++ live ρ b :=
  filter_append a b

variable {ρ : Assignment} {s : SymbolicState}

lemma live_singleton (h : s.satisfied ρ = true) : live ρ [s] = [s] := by
  simp [live, h]

lemma live_singleton_dead (h : s.satisfied ρ = false) : live ρ [s] = [] := by
  simp [live, h]

lemma satisfied_assume {c : Term} {b : Bool} (h : c.eval ρ = some (.bool b)) :
    (s.assume c).satisfied ρ = (s.satisfied ρ && b) := by
  simp [SymbolicState.satisfied, SymbolicState.assume, Term.holds_of_eval h]

lemma satisfied_assume_of_dead (h : s.satisfied ρ = false) (c : Term) :
    (s.assume c).satisfied ρ = false := by
  unfold SymbolicState.satisfied SymbolicState.assume at *
  simp only [all_append, h, Bool.false_and]

lemma satisfied_congr {s' : SymbolicState} (h : s'.constraints = s.constraints) :
    s'.satisfied ρ = s.satisfied ρ := by
  simp only [SymbolicState.satisfied, h]

namespace Executor

variable {e : Executor}

/-! ### Inversion -/

/-- The solver answers `unsat` only when no assignment satisfies the constraints. -/
def UnsatSound (e : Executor) : Prop :=
  ∀ n constraints model, e.solve n constraints e.model = .solution "unsat" model →
    ∀ ρ : Assignment, constraints.all (Term.holds ρ) = false

variable {n n' : Counters}

lemma feasible_false (hz : e.UnsatSound) {constraints : List Term}
    (h : e.feasible constraints n = .ok (false, n')) (ρ : Assignment) :
    constraints.all (Term.holds ρ) = false := by
  obtain ⟨⟨⟨ok, model⟩, n₁⟩, hf, h⟩ := bind_eq_ok.mp h
  cases h
  unfold feasibility at hf
  split at hf
  · cases hf
  · split at hf
    · cases hf
    · rename_i sat model' hsolve
      split at hf
      · cases hf
      · split at hf
        · rename_i hunsat
          subst hunsat
          exact hz _ _ _ hsolve ρ
        · cases hf

lemma branch_eq_ok {follow : List SymbolicState → Step (List SymbolicState)} {s : SymbolicState}
    {c : Term} {out : List SymbolicState} (h : e.branch follow s c n = .ok (out, n')) :
    (∃ n₁ n₂, follow [s.assume c] n₁ = .ok (out, n₂)) ∨
      (out = [] ∧ ∃ n₁ n₂, e.feasible (s.assume c).constraints n₁ = .ok (false, n₂)) := by
  unfold branch at h
  split at h
  · cases h
  · obtain ⟨⟨ok, n₁⟩, hok, h⟩ := bind_eq_ok.mp h
    cases ok with
    | true => exact Or.inl ⟨n₁, n', h⟩
    | false =>
      cases h
      unfold keeps at hok
      split at hok
      · exact Or.inr ⟨rfl, _, _, hok⟩
      · cases hok

inductive Advances (e : Executor) (o : UInt8) (index : Nat) (value : BitVec 64)
    (thenCode otherwise : List Instruction) (s : SymbolicState) : List SymbolicState → Prop where
  | cut : e.maxDepth < s.depth + 1 → Advances e o index value thenCode otherwise s []
  | split {condition s₁ yes no n₁ n₂ n₃ n₄} : s.depth + 1 ≤ e.maxDepth → o = 0x04 →
      { s with depth := s.depth + 1 }.pop = .ok (condition, s₁) →
      e.branch (e.run thenCode) s₁ condition.condition n₁ = .ok (yes, n₂) →
      e.branch (e.run otherwise) s₁ (.not condition.condition) n₃ = .ok (no, n₄) →
      Advances e o index value thenCode otherwise s (yes ++ no)
  | execute {s₁} : s.depth + 1 ≤ e.maxDepth → o ≠ 0x04 →
      executeInstruction { s with depth := s.depth + 1 } (.mk o index value thenCode otherwise) =
        .ok s₁ →
      Advances e o index value thenCode otherwise s [s₁]

lemma advance_eq_ok {o : UInt8} {index : Nat} {value : BitVec 64}
    {thenCode otherwise : List Instruction} {s : SymbolicState} {out : List SymbolicState}
    (h : e.advance (.mk o index value thenCode otherwise) s n = .ok (out, n')) :
    Advances e o index value thenCode otherwise s out := by
  obtain ⟨⟨_, n₁⟩, -, h⟩ := bind_eq_ok.mp h
  simp only at h
  split at h
  · cases h
    exact .cut ‹_›
  · rename_i hdepth
    split at h
    · obtain ⟨⟨condition, s₁⟩, hpop, h⟩ := bind_eq_ok.mp h
      obtain ⟨⟨yes, n₂⟩, hyes, h⟩ := bind_eq_ok.mp h
      obtain ⟨⟨no, n₃⟩, hno, h⟩ := bind_eq_ok.mp h
      cases h
      exact .split (Nat.le_of_not_lt hdepth) ‹_› hpop hyes hno
    · obtain ⟨s₁, hs, h⟩ := bind_eq_ok.mp h
      cases h
      exact .execute (Nat.le_of_not_lt hdepth) ‹_› hs

lemma run_cons_eq_ok {i : Instruction} {program : List Instruction}
    {states out : List SymbolicState} (h : e.run (i :: program) states n = .ok (out, n')) :
    ∃ next n₁ n₂, forEach (e.advance i) states n = .ok (next, n₁) ∧
      e.run program next n₂ = .ok (out, n') := by
  obtain ⟨⟨next, n₁⟩, hfor, h⟩ := bind_eq_ok.mp h
  exact ⟨next, n₁, n₁, hfor, h⟩

section Dead

variable {ρ : Assignment}

lemma forEach_dead {step : SymbolicState → Step (List SymbolicState)}
    (hstep : ∀ s n out n', s.satisfied ρ = false → step s n = .ok (out, n') → live ρ out = [])
    {states next : List SymbolicState} {n n' : Counters} (hdead : live ρ states = [])
    (h : forEach step states n = .ok (next, n')) : live ρ next = [] := by
  induction states generalizing n next with
  | nil =>
    cases h
    rfl
  | cons s states ih =>
    rw [live, filter_eq_nil_iff] at hdead
    obtain ⟨⟨out, n₁⟩, hs, h⟩ := bind_eq_ok.mp h
    obtain ⟨⟨rest, n₂⟩, hrest, h⟩ := bind_eq_ok.mp h
    cases h
    have hhead : live ρ out = [] :=
      hstep s n out n₁ (Bool.eq_false_iff.mpr (hdead s mem_cons_self)) hs
    have htail : live ρ rest = [] :=
      ih (List.filter_eq_nil_iff.mpr (fun x hx => hdead x (mem_cons_of_mem s hx))) hrest
    rw [live_append, hhead, htail, append_nil]

lemma branch_dead {follow : List SymbolicState → Step (List SymbolicState)}
    (hfollow : ∀ states n out n', live ρ states = [] → follow states n = .ok (out, n') →
      live ρ out = []) {s : SymbolicState} {c : Term} {out : List SymbolicState} {n n' : Counters}
    (hdead : (s.assume c).satisfied ρ = false) (h : e.branch follow s c n = .ok (out, n')) :
    live ρ out = [] := by
  obtain ⟨n₁, n₂, hrun⟩ | ⟨rfl, -⟩ := branch_eq_ok h
  · exact hfollow _ _ _ _ (live_singleton_dead hdead) hrun
  · rfl

mutual

lemma advance_dead : ∀ (i : Instruction) (s : SymbolicState) (n : Counters)
    (out : List SymbolicState) (n' : Counters), s.satisfied ρ = false →
    e.advance i s n = .ok (out, n') → live ρ out = []
  | .mk o index value thenCode otherwise, s, n, out, n', hdead, h => by
    cases advance_eq_ok h with
    | cut => rfl
    | @split condition s₁ yes no n₁ n₂ n₃ n₄ _ _ hpop hyes hno =>
      have hs₁ : s₁.satisfied ρ = false := by
        rw [satisfied_congr (pop_eq_ok hpop).2.2.constraints]
        exact hdead
      rw [live_append, branch_dead (run_dead thenCode) (satisfied_assume_of_dead hs₁ _) hyes,
        branch_dead (run_dead otherwise) (satisfied_assume_of_dead hs₁ _) hno, append_nil]
    | execute _ _ hexec =>
      apply live_singleton_dead
      rw [satisfied_congr (executeInstruction_samePath hexec).constraints]
      exact hdead

lemma run_dead : ∀ (program : List Instruction) (states : List SymbolicState) (n : Counters)
    (out : List SymbolicState) (n' : Counters), live ρ states = [] →
    e.run program states n = .ok (out, n') → live ρ out = []
  | [], states, n, out, n', hdead, h => by
    cases h
    exact hdead
  | i :: program, states, n, out, n', hdead, h => by
    obtain ⟨next, n₁, n₂, hfor, hrun⟩ := run_cons_eq_ok h
    exact run_dead program next n₂ out n' (forEach_dead (advance_dead i) hdead hfor) hrun

end

end Dead

/-! ### The live state -/

section Live

variable {ρ : Assignment}

variable {out next : List SymbolicState}

/-- Only the live state of a list leaves live states. -/
lemma forEach_live {step : SymbolicState → Step (List SymbolicState)}
    (hstep : ∀ s n out n', s.satisfied ρ = false → step s n = .ok (out, n') → live ρ out = [])
    {states : List SymbolicState} {n n' : Counters} {s₀ : SymbolicState}
    (hlive : live ρ states = [s₀]) (h : forEach step states n = .ok (next, n')) :
    ∃ n₁ n₂ out, step s₀ n₁ = .ok (out, n₂) ∧ live ρ next = live ρ out := by
  induction states generalizing n next with
  | nil => cases hlive
  | cons s states ih =>
    obtain ⟨⟨out, n₁⟩, hs, h⟩ := bind_eq_ok.mp h
    obtain ⟨⟨rest, n₂⟩, hrest, h⟩ := bind_eq_ok.mp h
    cases h
    cases hsat : s.satisfied ρ with
    | true =>
      simp only [live, filter_cons, hsat, if_true, List.cons.injEq] at hlive
      obtain ⟨rfl, hdead⟩ := hlive
      refine ⟨n, n₁, out, hs, ?_⟩
      rw [live_append, forEach_dead hstep hdead hrest, append_nil]
    | false =>
      have hlive' : live ρ states = [s₀] := by
        simpa [live, hsat] using hlive
      obtain ⟨m₁, m₂, out', hs', heq⟩ := ih hlive' hrest
      refine ⟨m₁, m₂, out', hs', ?_⟩
      rw [live_append, hstep s n out n₁ hsat hs, nil_append, heq]

structure Simulates (ρ : Assignment) (s : SymbolicState) (κ : Wasm.Config) : Prop where
  satisfied : s.satisfied ρ = true
  holds : Holds ρ s κ.locals κ.stack
  depth : s.depth = κ.steps

/-- The live states `out` after the code `is` has been run from `κ`: one that stands for the
result, or none when the run is longer than the bound. -/
def Follows (e : Executor) (ρ : Assignment) (out : List SymbolicState) (is : List Wasm.Instr)
    (κ : Wasm.Config) : Prop :=
  (∃ s' κ', live ρ out = [s'] ∧ Wasm.execAll is κ = .done κ' ∧ κ'.steps ≤ e.maxDepth ∧
    Simulates ρ s' κ') ∨
  (live ρ out = [] ∧ ∀ κ', Wasm.execAll is κ = .done κ' → e.maxDepth < κ'.steps)

variable {is : List Wasm.Instr} {κ : Wasm.Config}

lemma Follows.congr {out' : List SymbolicState} (h : e.Follows ρ out is κ)
    (hlive : live ρ out' = live ρ out) : e.Follows ρ out' is κ := by
  unfold Follows at *
  rw [hlive]
  exact h

lemma Follows.cons {i : Wasm.Instr} (hfirst : e.Follows ρ next [i] κ)
    (hmono : ∀ κ₁ κ', i.exec κ = .done κ₁ → Wasm.execAll is κ₁ = .done κ' → κ₁.steps ≤ κ'.steps)
    (hdead : live ρ next = [] → live ρ out = [])
    (hrest : ∀ s' κ₁, live ρ next = [s'] → i.exec κ = .done κ₁ → κ₁.steps ≤ e.maxDepth →
      Simulates ρ s' κ₁ → e.Follows ρ out is κ₁) : e.Follows ρ out (i :: is) κ := by
  unfold Follows at hfirst
  rw [Wasm.execAll_singleton] at hfirst
  obtain ⟨s', κ₁, hlive, hexec, hle, hsim⟩ | ⟨hnone, hlong⟩ := hfirst
  · have hout := hrest s' κ₁ hlive hexec hle hsim
    unfold Follows at *
    rw [Wasm.execAll_cons_done hexec]
    exact hout
  · refine Or.inr ⟨hdead hnone, ?_⟩
    intro κ' hdone
    obtain ⟨κ₁, hi, his⟩ := Wasm.exec_of_execAll_cons hdone
    have hlt := hlong κ₁ hi
    have hle := hmono κ₁ κ' hi his
    omega

variable {value : BitVec 64} {thenCode otherwise : List Instruction} {s : SymbolicState}

lemma Advances.follows_basic {o : UInt8} {index : Nat}
    (h : Advances e o index value thenCode otherwise s out) {Γ a b f : List Wasm.ValType}
    (hty : Wasm.Basic Γ (wasmBasic o index value) a b) (ho : o ≠ 0x04) (hκ : κ.Typed Γ (a ++ f))
    (hsim : Simulates ρ s κ) : e.Follows ρ out [wasmBasic o index value] κ := by
  obtain ⟨locals, stack, hbasic, -, -⟩ := hty.exec hκ.locals hκ.stack
  have hexec := hty.exec_eq hbasic
  unfold Follows
  rw [Wasm.execAll_singleton, hexec]
  cases h with
  | cut hdeep =>
    refine Or.inr ⟨rfl, ?_⟩
    intro κ' hκ'
    cases hκ'
    rw [hsim.depth] at hdeep
    exact hdeep
  | split _ h4 => exact absurd h4 ho
  | @execute s₁ hle _ hs₁ =>
    have hpath := executeInstruction_samePath hs₁
    have hsat : s₁.satisfied ρ = true := by
      rw [satisfied_congr hpath.constraints]
      exact hsim.satisfied
    have hdeeper : Holds ρ { s with depth := s.depth + 1 } κ.locals κ.stack :=
      ⟨hsim.holds.locals, hsim.holds.stack⟩
    have hholds : Holds ρ s₁ locals stack := executeInstruction_holds hdeeper hs₁ hbasic
    refine Or.inl ⟨s₁, _, live_singleton hsat, rfl, ?_, hsat, hholds, ?_⟩
    · rw [← hsim.depth]
      exact hle
    · rw [hpath.depth]
      rw [hsim.depth]

/-- The solver does not refuse a branch that is possible. -/
lemma branch_live (hz : e.UnsatSound) {follow : List SymbolicState → Step (List SymbolicState)}
    {c : Term} {n n' : Counters} (hlive : (s.assume c).satisfied ρ = true)
    (h : e.branch follow s c n = .ok (out, n')) :
    ∃ n₁ n₂, follow [s.assume c] n₁ = .ok (out, n₂) := by
  obtain hrun | ⟨-, n₁, n₂, hno⟩ := branch_eq_ok h
  · exact hrun
  · have hfalse := feasible_false hz hno ρ
    rw [SymbolicState.satisfied, hfalse] at hlive
    cases hlive

/-- A conditional: the branch that the operand selects is followed, the other one is dead. -/
lemma Advances.follows_ite (hz : e.UnsatSound) {index : Nat}
    (h : Advances e 0x04 index value thenCode otherwise s out) {c : BitVec 32}
    {stack : List Wasm.Value} (hκ : κ.stack = .i32 c :: stack) (hsim : Simulates ρ s κ)
    {thn els : List Wasm.Instr} (hcode : ∀ s' n res n', κ.steps + 1 ≤ e.maxDepth →
      Simulates ρ s' { κ with stack, steps := κ.steps + 1 } →
      e.run (if c = 0 then otherwise else thenCode) [s'] n = .ok (res, n') →
      e.Follows ρ res (if c = 0 then els else thn) { κ with stack, steps := κ.steps + 1 })
    (hmono : ∀ κ', Wasm.execAll (if c = 0 then els else thn)
      { κ with stack, steps := κ.steps + 1 } = .done κ' → κ.steps + 1 ≤ κ'.steps) :
    e.Follows ρ out [.ite [] thn els] κ := by
  have hexec : Wasm.execAll [.ite [] thn els] κ = Wasm.execAll (if c = 0 then els else thn)
      { κ with stack, steps := κ.steps + 1 } := by
    rw [Wasm.execAll_singleton, Wasm.exec_ite hκ]
  unfold Follows
  rw [hexec]
  cases h with
  | cut hdeep =>
    refine Or.inr ⟨rfl, ?_⟩
    intro κ' hκ'
    have hle := hmono κ' hκ'
    rw [hsim.depth] at hdeep
    omega
  | execute _ h4 => exact absurd rfl h4
  | @split condition s₁ yes no n₁ n₂ n₃ n₄ hle _ hpop hyes hno =>
    have hpath := (pop_eq_ok hpop).2.2
    have hdeeper : Holds ρ { s with depth := s.depth + 1 } κ.locals (.i32 c :: stack) :=
      ⟨hsim.holds.locals, hκ ▸ hsim.holds.stack⟩
    obtain ⟨hcond, hholds⟩ := hdeeper.pop hpop
    have heval := hcond.condition
    have hsat : s₁.satisfied ρ = true := by
      rw [satisfied_congr hpath.constraints]
      exact hsim.satisfied
    have hbound : κ.steps + 1 ≤ e.maxDepth := hsim.depth ▸ hle
    have hnext : ∀ t, (s₁.assume t).satisfied ρ = true →
        Simulates ρ (s₁.assume t) { κ with stack, steps := κ.steps + 1 } := by
      intro t ht
      refine ⟨ht, ⟨hholds.locals, hholds.stack⟩, ?_⟩
      show s₁.depth = κ.steps + 1
      rw [hpath.depth, hsim.depth]
    have hyes' := satisfied_assume (s := s₁) heval
    have hno' := satisfied_assume (s := s₁) (Term.eval_not heval)
    rw [hsat, Bool.true_and] at hyes' hno'
    by_cases hc : c = 0
    · have hdead : (s₁.assume condition.condition).satisfied ρ = false := by
        rw [hyes', hc]
        rfl
      have hlive : (s₁.assume (.not condition.condition)).satisfied ρ = true := by
        rw [hno', hc]
        rfl
      obtain ⟨m₁, m₂, hrun⟩ := branch_live hz hlive hno
      have hout : live ρ (yes ++ no) = live ρ no := by
        rw [live_append, branch_dead (run_dead thenCode) hdead hyes, nil_append]
      have hfollow := hcode _ m₁ no m₂ hbound (hnext _ hlive) (by rw [if_pos hc]; exact hrun)
      exact hfollow.congr hout
    · have hne : (c != 0) = true := bne_iff_ne.mpr hc
      have hlive : (s₁.assume condition.condition).satisfied ρ = true := by
        rw [hyes', hne]
      have hdead : (s₁.assume (.not condition.condition)).satisfied ρ = false := by
        rw [hno', hne]
        rfl
      obtain ⟨m₁, m₂, hrun⟩ := branch_live hz hlive hyes
      have hout : live ρ (yes ++ no) = live ρ yes := by
        rw [live_append, branch_dead (run_dead otherwise) hdead hno, append_nil]
      have hfollow := hcode _ m₁ yes m₂ hbound (hnext _ hlive) (by rw [if_neg hc]; exact hrun)
      exact hfollow.congr hout

lemma Advances.follows_outside {o : UInt8} {index : Nat}
    (h : Advances e o index value thenCode otherwise s out)
    (hout : (wasmBasic o index value).isOutside = true) (ho : o ≠ 0x04) (κ : Wasm.Config) :
    e.Follows ρ out [wasmBasic o index value] κ := by
  unfold Follows
  rw [Wasm.execAll_singleton, Wasm.exec_outside hout]
  cases h with
  | cut => exact Or.inr ⟨rfl, nofun⟩
  | split _ h4 => exact absurd h4 ho
  | execute _ _ hs₁ => exact absurd hs₁ (executeInstruction_outside hout)

lemma wasmBasic_ne_ite (o : UInt8) (index : Nat) (value : BitVec 64) (bt : List UInt8)
    (thn els : List Wasm.Instr) : wasmBasic o index value ≠ .ite bt thn els := by
  unfold wasmBasic
  split
  · exact Wasm.Instr.noConfusion
  · exact Wasm.Instr.noConfusion
  · split <;> exact Wasm.Instr.noConfusion

lemma wasmOf_eq_cons {program : List Instruction} {i : Wasm.Instr} (h : wasmOf program = i :: is) :
    ∃ o index value thenCode otherwise rest,
      program = .mk o index value thenCode otherwise :: rest ∧ wasmOf rest = is ∧
      ((o = 0x04 ∧ i = .ite [] (wasmOf thenCode) (wasmOf otherwise)) ∨
        (o ≠ 0x04 ∧ i = wasmBasic o index value)) := by
  match program with
  | [] => cases h
  | .mk o index value thenCode otherwise :: rest =>
    rw [wasmOf, List.cons.injEq, Instruction.toWasm] at h
    obtain ⟨hi, his⟩ := h
    refine ⟨o, index, value, thenCode, otherwise, rest, rfl, his, ?_⟩
    by_cases ho : o = 0x04
    · rw [if_pos ho] at hi
      exact Or.inl ⟨ho, hi.symm⟩
    · rw [if_neg ho] at hi
      exact Or.inr ⟨ho, hi.symm⟩

/-- **Simulation.** A run of the executor on valid code follows WebAssembly under every
assignment. -/
theorem run_follows (hz : e.UnsatSound) {ext : Bool} {Γ a b : List Wasm.ValType}
    {is : List Wasm.Instr} (hty : Wasm.HasType ext Γ is a b) {f : List Wasm.ValType}
    {program : List Instruction} (hprog : wasmOf program = is) {states out : List SymbolicState}
    {n n' : Counters} (hrun : e.run program states n = .ok (out, n')) {s₀ : SymbolicState}
    (hlive : live ρ states = [s₀]) {κ : Wasm.Config} (hsim : Simulates ρ s₀ κ)
    (hκ : κ.Typed Γ (a ++ f)) (hbound : κ.steps ≤ e.maxDepth) : e.Follows ρ out is κ := by
  induction hty generalizing f program states out n n' s₀ κ with
  | nil =>
    cases program with
    | nil =>
      cases hrun
      exact Or.inl ⟨s₀, κ, hlive, by rw [Wasm.execAll], hbound, hsim⟩
    | cons => cases hprog
  | @basic i is a a' b hi hrest ih =>
    obtain ⟨o, index, value, thenCode, otherwise, rest, rfl, his, ⟨ho, rfl⟩ | ⟨ho, rfl⟩⟩ :=
      wasmOf_eq_cons hprog
    · cases hi
    · obtain ⟨next, n₁, n₂, hfor, hrun⟩ := run_cons_eq_ok hrun
      obtain ⟨m₁, m₂, res, hadv, hnext⟩ := forEach_live (advance_dead _) hlive hfor
      have hfirst := (advance_eq_ok hadv).follows_basic hi ho hκ hsim
      have htyped : ∀ κ₁, (wasmBasic o index value).exec κ = .done κ₁ → κ₁.Typed Γ (a' ++ f) := by
        intro κ₁ hκ₁
        obtain ⟨locals, stack, hb, hl, hs⟩ := hi.exec hκ.locals hκ.stack
        rw [hi.exec_eq hb] at hκ₁
        cases hκ₁
        exact ⟨hl, hs⟩
      refine (hfirst.congr hnext).cons ?_ (fun hnone => run_dead _ _ _ _ _ hnone hrun) ?_
      · intro κ₁ κ' hκ₁ hκ'
        exact (hrest.of_done (htyped κ₁ hκ₁) hκ').2
      · intro s' κ₁ hs' hκ₁ hle hsim₁
        exact ih his hrun hs' hsim₁ (htyped κ₁ hκ₁) hle
  | @ite bt thn els is a b s u hthn hels hrest ihThn ihEls ihRest =>
    obtain ⟨o, index, value, thenCode, otherwise, rest, rfl, his, ⟨rfl, hi⟩ | ⟨-, hi⟩⟩ :=
      wasmOf_eq_cons hprog
    · cases hi
      have hstack := hκ.stack
      rw [cons_append, append_assoc] at hstack
      obtain ⟨v, stack, hκs, hv, hunder⟩ := List.map_eq_cons_iff.mp hstack
      obtain ⟨(c : BitVec 32), rfl⟩ := Wasm.Value.eq_value hv
      have hκ₁ : Wasm.Config.Typed { κ with stack, steps := κ.steps + 1 } Γ (a ++ (s ++ f)) :=
        ⟨hκ.locals, hunder⟩
      have hchosen : Wasm.HasType ext Γ
          (if c = 0 then wasmOf otherwise else wasmOf thenCode) a b := by
        by_cases hc : c = 0
        · rw [if_pos hc]
          exact hels
        · rw [if_neg hc]
          exact hthn
      obtain ⟨next, n₁, n₂, hfor, hrun⟩ := run_cons_eq_ok hrun
      obtain ⟨m₁, m₂, res, hadv, hnext⟩ := forEach_live (advance_dead _) hlive hfor
      have hfirst : e.Follows ρ res [.ite [] (wasmOf thenCode) (wasmOf otherwise)] κ := by
        refine (advance_eq_ok hadv).follows_ite hz hκs hsim ?_ ?_
        · intro s' m res' m' hle hsim₁ hbranch
          by_cases hc : c = 0
          · rw [if_pos hc] at hbranch ⊢
            exact ihEls rfl hbranch (live_singleton hsim₁.satisfied) hsim₁ hκ₁ hle
          · rw [if_neg hc] at hbranch ⊢
            exact ihThn rfl hbranch (live_singleton hsim₁.satisfied) hsim₁ hκ₁ hle
        · intro κ' hκ'
          exact (hchosen.of_done hκ₁ hκ').2
      have htyped : ∀ κ₁, Wasm.Instr.exec (.ite [] (wasmOf thenCode) (wasmOf otherwise)) κ =
          .done κ₁ → κ₁.Typed Γ ((b ++ s) ++ f) := by
        intro κ₁ hκ₁'
        rw [Wasm.exec_ite hκs] at hκ₁'
        rw [append_assoc]
        exact (hchosen.of_done hκ₁ hκ₁').1
      refine (hfirst.congr hnext).cons ?_ (fun hnone => run_dead _ _ _ _ _ hnone hrun) ?_
      · intro κ₁ κ' hκ₁' hκ'
        exact (hrest.of_done (htyped κ₁ hκ₁') hκ').2
      · intro s' κ₁ hs' hκ₁' hle hsim₁
        exact ihRest his hrun hs' hsim₁ (htyped κ₁ hκ₁') hle
    · exact absurd hi.symm (wasmBasic_ne_ite o index value bt thn els)
  | @outside i is a a' b hext hi hrest ih =>
    obtain ⟨o, index, value, thenCode, otherwise, rest, rfl, his, ⟨ho, rfl⟩ | ⟨ho, rfl⟩⟩ :=
      wasmOf_eq_cons hprog
    · cases hi
    · obtain ⟨next, n₁, n₂, hfor, hrun⟩ := run_cons_eq_ok hrun
      obtain ⟨m₁, m₂, res, hadv, hnext⟩ := forEach_live (advance_dead _) hlive hfor
      have hfirst := (advance_eq_ok hadv).follows_outside (ρ := ρ) hi ho κ
      have hnever : ∀ κ₁, (wasmBasic o index value).exec κ ≠ .done κ₁ := by
        intro κ₁ hκ₁
        rw [Wasm.exec_outside hi] at hκ₁
        cases hκ₁
      exact (hfirst.congr hnext).cons (fun κ₁ _ hκ₁ => absurd hκ₁ (hnever κ₁))
        (fun hnone => run_dead _ _ _ _ _ hnone hrun) (fun _ κ₁ _ hκ₁ => absurd hκ₁ (hnever κ₁))

end Live

end Executor

end Symkernel.Verify
