import Symkernel.Verify.Exploration
import Symkernel.Verify.Soundness
import Symkernel.Verify.Widths

/-!
# Progress on valid code
-/

namespace Symkernel.Verify

open Library Library.Smt List

namespace Executor

variable {e : Executor}

/-! ### The instructions of a run -/

structure Enters (e : Executor) (s : SymbolicState) (c : Term) (n n' : Counters) : Prop where
  below : n.explored < maxSymbolicExplored
  kept : e.keeps (s.assume c).constraints { n with explored := n.explored + 1 } = .ok (true, n')

/-- In the course of `e.run program states n` the instruction `i` is started on the state `s`. -/
inductive Starts (e : Executor) :
    List Instruction → List SymbolicState → Counters → Instruction → SymbolicState → Prop where
  | here {i program s states n u n'} : e.poll n = .ok (u, n') → s.depth + 1 ≤ e.maxDepth →
      Starts e (i :: program) (s :: states) n i { s with depth := s.depth + 1 }
  | yes {index value thenCode otherwise program s states n u n₁ condition s₁ n₂ i s'} :
      e.poll n = .ok (u, n₁) → s.depth + 1 ≤ e.maxDepth →
      { s with depth := s.depth + 1 }.pop = .ok (condition, s₁) →
      e.Enters s₁ condition.condition n₁ n₂ →
      Starts e thenCode [s₁.assume condition.condition] n₂ i s' →
      Starts e (.mk 0x04 index value thenCode otherwise :: program) (s :: states) n i s'
  | no {index value thenCode otherwise program s states n u n₁ condition s₁ out n₂ n₃ i s'} :
      e.poll n = .ok (u, n₁) → s.depth + 1 ≤ e.maxDepth →
      { s with depth := s.depth + 1 }.pop = .ok (condition, s₁) →
      e.branch (e.run thenCode) s₁ condition.condition n₁ = .ok (out, n₂) →
      e.Enters s₁ (.not condition.condition) n₂ n₃ →
      Starts e otherwise [s₁.assume (.not condition.condition)] n₃ i s' →
      Starts e (.mk 0x04 index value thenCode otherwise :: program) (s :: states) n i s'
  | next {j program s states n out n₁ i s'} : e.advance j s n = .ok (out, n₁) →
      Starts e [j] states n₁ i s' → Starts e (j :: program) (s :: states) n i s'
  | later {j program states n next n₁ i s'} : forEach (e.advance j) states n = .ok (next, n₁) →
      Starts e program next n₁ i s' → Starts e (j :: program) states n i s'

/-- What `run` makes of an instruction first: the condition of an `if` is popped, any other
instruction is executed. -/
def attempt (i : Instruction) (s : SymbolicState) : Except GoError Unit :=
  if i.opcode = 0x04 then s.pop.map fun _ => () else (executeInstruction s i).map fun _ => ()

/-- An error that the context, the limit on paths or the solver accounts for. -/
inductive Excused (e : Executor) : GoError → Prop where
  | context {k err} : e.cancelled k = some err → Excused e err
  | limit : Excused e
      (.text s!"symbolic execution exceeded the {maxSymbolicExplored} path limit")
  | solver {k constraints err} : e.solve k constraints e.model = .failed err →
      Excused e (err.wrap "check path feasibility: ")
  | answer {k constraints sat model} : e.solve k constraints e.model = .solution sat model →
      sat ≠ "sat" → sat ≠ "unsat" →
      Excused e (.quoted "check path feasibility: z3 returned " sat "")

variable {n n' : Counters} {err : GoError}

lemma feasibility_excused {constraints : List Term} (h : e.feasibility constraints n = .error err) :
    e.Excused err := by
  unfold feasibility at h
  split at h
  · cases h
  · split at h
    · rename_i hsolve
      cases h
      exact .solver hsolve
    · rename_i sat model hsolve
      split at h
      · cases h
      · split at h
        · cases h
        · cases h
          exact .answer hsolve ‹_› ‹_›

variable {s s₁ : SymbolicState}

lemma branch_error {follow : List SymbolicState → Step (List SymbolicState)} {c : Term}
    (h : e.branch follow s c n = .error err) :
    e.Excused err ∨ ∃ n', e.Enters s c n n' ∧ follow [s.assume c] n' = .error err := by
  unfold branch at h
  split at h
  · cases h
    exact Or.inl .limit
  · rename_i hbelow
    obtain hkeeps | ⟨⟨ok, n₁⟩, hok, h⟩ := bind_eq_error.mp h
    · unfold keeps at hkeeps
      split at hkeeps
      · obtain hf | ⟨_, -, hf⟩ := bind_eq_error.mp hkeeps
        · exact Or.inl (feasibility_excused hf)
        · cases hf
      · cases hkeeps
    · cases ok with
      | true => exact Or.inr ⟨n₁, ⟨Nat.lt_of_not_le hbelow, hok⟩, h⟩
      | false => cases h

lemma attempt_error {o : UInt8} {index : Nat} {value : BitVec 64}
    {thenCode otherwise : List Instruction} (ho : o ≠ 0x04)
    (h : executeInstruction s (.mk o index value thenCode otherwise) = .error err) :
    attempt (.mk o index value thenCode otherwise) s = .error err := by
  rw [attempt, Instruction.opcode, if_neg ho, h]
  rfl

variable {i : Instruction} {states : List SymbolicState}

/-- The first state at which the instruction fails. -/
lemma forEach_error (hstep : ∀ s n, e.advance i s n = .error err → e.Excused err ∨
      ∃ j s', attempt j s' = .error err ∧
        ∀ program states, e.Starts (i :: program) (s :: states) n j s')
    (h : forEach (e.advance i) states n = .error err) :
    e.Excused err ∨ ∃ j s', attempt j s' = .error err ∧
      ∀ program, e.Starts (i :: program) states n j s' := by
  induction states generalizing n with
  | nil => cases h
  | cons s states ih =>
    obtain hs | ⟨⟨out, n₁⟩, hs, hfor⟩ := bind_eq_error.mp h
    · obtain hexc | ⟨j, s', herr, hstart⟩ := hstep s n hs
      · exact Or.inl hexc
      · exact Or.inr ⟨j, s', herr, fun program => hstart program states⟩
    · obtain hrest | ⟨_, -, hend⟩ := bind_eq_error.mp hfor
      · obtain hexc | ⟨j, s', herr, hstart⟩ := ih hrest
        · exact Or.inl hexc
        · exact Or.inr ⟨j, s', herr, fun _ => .next hs (hstart [])⟩
      · cases hend

mutual

/-- A run fails for a reason of its environment, or because an instruction cannot be
attempted. -/
lemma advance_error : ∀ (i : Instruction) (s : SymbolicState) (n : Counters) (err : GoError),
    e.advance i s n = .error err → e.Excused err ∨ ∃ j s', attempt j s' = .error err ∧
      ∀ program states, e.Starts (i :: program) (s :: states) n j s'
  | .mk o index value thenCode otherwise, s, n, err, h => by
    obtain hpoll | ⟨⟨u, n₁⟩, hpoll, hbody⟩ := bind_eq_error.mp h
    · unfold poll at hpoll
      split at hpoll
      · cases hpoll
        exact Or.inl (.context ‹_›)
      · cases hpoll
    · simp only at hbody
      split at hbody
      · cases hbody
      · rename_i hdepth
        have hle := Nat.le_of_not_lt hdepth
        split at hbody
        · rename_i ho
          subst ho
          obtain hpop | ⟨⟨condition, s₁⟩, hpop, hsplit⟩ := bind_eq_error.mp hbody
          · refine Or.inr ⟨_, _, ?_, fun program states => .here hpoll hle⟩
            rw [attempt, Instruction.opcode, if_pos rfl, hpop]
            rfl
          · obtain hyes | ⟨⟨yes, n₂⟩, hyes, helse⟩ := bind_eq_error.mp hsplit
            · obtain hexc | ⟨n₂, henter, hrun⟩ := branch_error hyes
              · exact Or.inl hexc
              · obtain hexc | ⟨j, s', herr, hstart⟩ := run_error thenCode _ n₂ err hrun
                · exact Or.inl hexc
                · exact Or.inr ⟨j, s', herr, fun _ _ => .yes hpoll hle hpop henter hstart⟩
            · obtain hno | ⟨_, -, hend⟩ := bind_eq_error.mp helse
              · obtain hexc | ⟨n₃, henter, hrun⟩ := branch_error hno
                · exact Or.inl hexc
                · obtain hexc | ⟨j, s', herr, hstart⟩ := run_error otherwise _ n₃ err hrun
                  · exact Or.inl hexc
                  · exact Or.inr ⟨j, s', herr, fun _ _ => .no hpoll hle hpop hyes henter hstart⟩
              · cases hend
        · rename_i ho
          obtain hexec | ⟨s₁, -, hend⟩ := bind_eq_error.mp hbody
          · exact Or.inr ⟨_, _, attempt_error ho hexec, fun _ _ => .here hpoll hle⟩
          · cases hend

lemma run_error : ∀ (program : List Instruction) (states : List SymbolicState) (n : Counters)
    (err : GoError), e.run program states n = .error err → e.Excused err ∨
      ∃ j s', attempt j s' = .error err ∧ e.Starts program states n j s'
  | [], states, n, err, h => by
    cases h
  | i :: program, states, n, err, h => by
    obtain hfor | ⟨⟨next, n₁⟩, hfor, hrest⟩ := bind_eq_error.mp h
    · obtain hexc | ⟨j, s', herr, hstart⟩ := forEach_error (fun s n => advance_error i s n err) hfor
      · exact Or.inl hexc
      · exact Or.inr ⟨j, s', herr, hstart program⟩
    · obtain hexc | ⟨j, s', herr, hstart⟩ := run_error program next n₁ err hrest
      · exact Or.inl hexc
      · exact Or.inr ⟨j, s', herr, .later hfor hstart⟩

end

/-! ### States along the paths of valid code -/

lemma enter_flags {v : SymbolicValue} (h : { s with depth := s.depth + 1 }.pop = .ok (v, s₁))
    (c : Term) : (s₁.assume c).flags = s.flags.enter := by
  obtain ⟨hstack, hlocals, hpath⟩ := pop_eq_ok h
  simp only at hstack hlocals
  simp [SymbolicState.flags, SymbolicState.assume, Wasm.Flags.enter, hstack, hlocals, hpath.depth]

lemma branch_path {program : List Instruction} {Γ a b f : List Wasm.ValType}
    (hrun : ∀ states n out n', (∀ s ∈ states, Sizes s Γ (a ++ f)) →
      e.run program states n = .ok (out, n') → ∀ s' ∈ out, Sizes s' Γ (b ++ f) ∧
        ∃ s ∈ states, Wasm.Path e.maxDepth (wasmOf program) s.flags s'.flags) {v : SymbolicValue}
    (hpop : { s with depth := s.depth + 1 }.pop = .ok (v, s₁)) (hs : Sizes s₁ Γ (a ++ f))
    {c : Term} {out : List SymbolicState} (h : e.branch (e.run program) s₁ c n = .ok (out, n')) :
    ∀ s' ∈ out, Sizes s' Γ (b ++ f) ∧
      Wasm.Path e.maxDepth (wasmOf program) s.flags.enter s'.flags := by
  intro s' hs'
  obtain ⟨n₁, n₂, hfollow⟩ | ⟨rfl, -⟩ := branch_eq_ok h
  · have hfirst : ∀ x ∈ [s₁.assume c], Sizes x Γ (a ++ f) := by
      intro x hx
      rw [List.mem_singleton.mp hx]
      exact hs.assume c
    obtain ⟨hsize, x, hx, hpath⟩ := hrun _ _ _ _ hfirst hfollow s' hs'
    rw [List.mem_singleton.mp hx, enter_flags hpop] at hpath
    exact ⟨hsize, hpath⟩
  · cases hs'

lemma forEach_path {step : SymbolicState → Step (List SymbolicState)}
    {P : SymbolicState → SymbolicState → Prop} {next : List SymbolicState}
    (hstep : ∀ s ∈ states, ∀ n out n', step s n = .ok (out, n') → ∀ s' ∈ out, P s s')
    (h : forEach step states n = .ok (next, n')) : ∀ s' ∈ next, ∃ s ∈ states, P s s' := by
  induction states generalizing n next with
  | nil =>
    cases h
    intro s' hs'
    cases hs'
  | cons s states ih =>
    obtain ⟨⟨out, n₁⟩, hs, h⟩ := bind_eq_ok.mp h
    obtain ⟨⟨rest, n₂⟩, hrest, h⟩ := bind_eq_ok.mp h
    cases h
    intro s' hs'
    obtain hhead | htail := List.mem_append.mp hs'
    · exact ⟨s, mem_cons_self, hstep s mem_cons_self n out n₁ hs s' hhead⟩
    · obtain ⟨x, hx, hP⟩ := ih (fun x hx => hstep x (mem_cons_of_mem s hx)) hrest s' htail
      exact ⟨x, mem_cons_of_mem s hx, hP⟩

mutual

lemma advance_path {Γ : List Wasm.ValType} : ∀ (i : Instruction) {a b f : List Wasm.ValType},
    Wasm.HasType false Γ [i.toWasm] a b → ∀ (s : SymbolicState), Sizes s Γ (a ++ f) →
    ∀ (n : Counters) (out : List SymbolicState) (n' : Counters),
    e.advance i s n = .ok (out, n') → ∀ s' ∈ out, Sizes s' Γ (b ++ f) ∧
      Wasm.Path e.maxDepth [i.toWasm] s.flags s'.flags
  | .mk o index value thenCode otherwise, a, b, f, hty, s, hs, n, out, n', h => by
    cases advance_eq_ok h with
    | cut =>
      intro s' hs'
      cases hs'
    | @split condition s₁ yes no n₁ n₂ n₃ n₄ hle ho hpop hyes hno =>
      subst ho
      obtain ⟨a, b, t, rfl, hthn, hels, hnil⟩ := hty.ite_inv
      cases hnil
      obtain ⟨v, s₂, hpop', hs₂⟩ := hs.condition
      rw [hpop] at hpop'
      cases hpop'
      rw [List.append_assoc]
      intro s' hs'
      obtain hmem | hmem := List.mem_append.mp hs'
      · obtain ⟨hsize, hpath⟩ := branch_path (run_path thenCode hthn) hpop hs₂ hyes s' hmem
        exact ⟨hsize, .ite hle (Or.inl rfl) hpath .nil⟩
      · obtain ⟨hsize, hpath⟩ := branch_path (run_path otherwise hels) hpop hs₂ hno s' hmem
        exact ⟨hsize, .ite hle (Or.inr rfl) hpath .nil⟩
    | @execute s₁ hle ho hexec =>
      rw [Instruction.toWasm, if_neg ho] at hty ⊢
      intro s' hs'
      rw [List.mem_singleton.mp hs']
      have hx := executes o index value thenCode otherwise
      generalize wasmBasic o index value = w at hty hx ⊢
      obtain ⟨c, hi, hnil⟩ := hty.basic_inv hx.isIte
      cases hnil
      have hclean : w.takesFlag s.flags.stack = false := by
        by_contra hflag
        rw [Bool.not_eq_false] at hflag
        obtain ⟨err, herr⟩ := hx.fails hi hs.deeper hflag
        rw [hexec] at herr
        cases herr
      obtain ⟨s₂, hs₂, hsize⟩ := hx.progress hi hs.deeper hclean
      rw [hexec] at hs₂
      cases hs₂
      refine ⟨hsize, .basic hx.isIte hle hclean ?_⟩
      rw [hx.flags hexec]
      exact .nil

lemma run_path {Γ : List Wasm.ValType} : ∀ (program : List Instruction)
    {a b f : List Wasm.ValType}, Wasm.HasType false Γ (wasmOf program) a b →
    ∀ (states : List SymbolicState) (n : Counters) (out : List SymbolicState) (n' : Counters),
    (∀ s ∈ states, Sizes s Γ (a ++ f)) → e.run program states n = .ok (out, n') →
    ∀ s' ∈ out, Sizes s' Γ (b ++ f) ∧
      ∃ s ∈ states, Wasm.Path e.maxDepth (wasmOf program) s.flags s'.flags
  | [], a, b, f, hty, states, n, out, n', hs, h => by
    cases h
    cases hty
    exact fun s' hs' => ⟨hs s' hs', s', hs', .nil⟩
  | i :: program, a, b, f, hty, states, n, out, n', hs, h => by
    obtain ⟨c, hfirst, hrest⟩ := hty.uncons
    obtain ⟨next, n₁, n₂, hfor, hrun⟩ := run_cons_eq_ok h
    have hnext := forEach_path (fun s hmem => advance_path i hfirst s (hs s hmem)) hfor
    have hsizes : ∀ s ∈ next, Sizes s Γ (c ++ f) := fun s hmem => by
      obtain ⟨-, -, hsize, -⟩ := hnext s hmem
      exact hsize
    intro s' hs'
    obtain ⟨hsize, x, hx, hpath⟩ := run_path program hrest next n₂ out n' hsizes hrun s' hs'
    obtain ⟨s, hmem, -, hstep⟩ := hnext x hx
    exact ⟨hsize, s, hmem, hstep.cons hpath⟩

end

lemma attempt_eq_ok : attempt i s = .ok () ↔ if i.opcode = 0x04 then ∃ r, s.pop = .ok r
      else ∃ s', executeInstruction s i = .ok s' := by
  unfold attempt
  split
  · cases s.pop <;> simp [Except.map]
  · cases executeInstruction s i <;> simp [Except.map]

lemma Starts.succeeds {program : List Instruction} {s' : SymbolicState}
    (h : e.Starts program states n i s') {Γ a b f : List Wasm.ValType}
    (hty : Wasm.HasType false Γ (wasmOf program) a b)
    (hs : ∀ s ∈ states, Sizes s Γ (a ++ f) ∧ ¬Wasm.UsesFlag e.maxDepth (wasmOf program) s.flags) :
    attempt i s' = .ok () := by
  induction h generalizing a b f with
  | @here i program s states n u n' hpoll hle =>
    obtain ⟨hsize, hclean⟩ := hs s mem_cons_self
    obtain ⟨o, index, value, thenCode, otherwise⟩ := i
    rw [attempt_eq_ok, Instruction.opcode]
    rw [wasmOf, Instruction.toWasm] at hty hclean
    split
    · rename_i ho
      rw [if_pos ho] at hty
      obtain ⟨a, b, t, rfl, -⟩ := hty.ite_inv
      obtain ⟨v, s₁, hpop, -⟩ := hsize.condition
      exact ⟨_, hpop⟩
    · rename_i ho
      have hx := executes o index value thenCode otherwise
      rw [if_neg ho] at hty hclean
      generalize wasmBasic o index value = w at hty hclean hx
      obtain ⟨c, hi, -⟩ := hty.basic_inv hx.isIte
      have hflag : w.takesFlag s.flags.stack = false :=
        Bool.eq_false_iff.mpr fun hflag => hclean (.here hle hflag)
      obtain ⟨s₁, hexec, -⟩ := hx.progress hi hsize.deeper hflag
      exact ⟨s₁, hexec⟩
  | @yes index value thenCode otherwise program s states n u n₁ condition s₁ n₂ i s' hpoll hle hpop
      henter hstart ih =>
    obtain ⟨hsize, hclean⟩ := hs s mem_cons_self
    obtain ⟨a, b, t, rfl, hthn, hels, -⟩ := hty.ite_inv
    obtain ⟨v, s₂, hpop', hs₂⟩ := hsize.condition
    rw [hpop] at hpop'
    cases hpop'
    refine ih (f := t ++ f) hthn fun x hx => ?_
    rw [List.mem_singleton.mp hx, enter_flags hpop]
    exact ⟨hs₂.assume _, fun hu => hclean (.inside hle (Or.inl rfl) hu)⟩
  | @no index value thenCode otherwise program s states n u n₁ condition s₁ out n₂ n₃ i s' hpoll hle
      hpop hyes henter hstart ih =>
    obtain ⟨hsize, hclean⟩ := hs s mem_cons_self
    obtain ⟨a, b, t, rfl, hthn, hels, -⟩ := hty.ite_inv
    obtain ⟨v, s₂, hpop', hs₂⟩ := hsize.condition
    rw [hpop] at hpop'
    cases hpop'
    refine ih (f := t ++ f) hels fun x hx => ?_
    rw [List.mem_singleton.mp hx, enter_flags hpop]
    exact ⟨hs₂.assume _, fun hu => hclean (.inside hle (Or.inr rfl) hu)⟩
  | @next j program s states n out n₁ i s' hadv hstart ih =>
    obtain ⟨c, hfirst, -⟩ := hty.uncons
    refine ih (f := f) hfirst fun x hx => ?_
    obtain ⟨hsize, hclean⟩ := hs x (mem_cons_of_mem s hx)
    exact ⟨hsize, fun hu => hclean (hu.extend _)⟩
  | @later j program states n next n₁ i s' hfor hstart ih =>
    obtain ⟨c, hfirst, hrest⟩ := hty.uncons
    refine ih (f := f) hrest fun x hx => ?_
    obtain ⟨s, hmem, hsize, hpath⟩ :=
      forEach_path (fun s hmem => advance_path j hfirst s (hs s hmem).1) hfor x hx
    exact ⟨hsize, fun hu => (hs s hmem).2 (.later hpath hu)⟩

/-! ### Leading a run along a path -/

end Executor

/-- A solver that finds a list of constraints satisfiable when `path` begins with it. -/
def guide (path : List Term) : Environment where
  cancelled := fun _ => none
  solve := fun _ constraints _ =>
    if constraints <+: path then .solution "sat" [] else .solution "unsat" []

def Counters.taken (n : Counters) : Counters :=
  { n with explored := n.explored + 1, queries := n.queries + 1 }

def Environment.executor (env : Environment) (maxDepth : Nat) (prune : Bool)
    (model : SolverModel) : Executor :=
  { cancelled := env.cancelled, solve := env.solve, maxDepth, prune, model }

namespace Executor

section Guide

variable {e : Executor} {path : List Term} {d : Nat} {M : SolverModel}

lemma guide_poll (n : Counters) : ((guide path).executor d true M).poll n =
    .ok ((), { n with polls := n.polls + 1 }) := rfl

lemma guide_keeps (s : SymbolicState) (c : Term) (n : Counters) :
    ((guide path).executor d true M).keeps (s.assume c).constraints n =
      .ok (decide ((s.assume c).constraints <+: path), { n with queries := n.queries + 1 }) := by
  have hne : (s.assume c).constraints ≠ [] := by simp [SymbolicState.assume]
  obtain ⟨x, xs, hcons⟩ := exists_cons_of_ne_nil hne
  rw [hcons]
  by_cases hpath : x :: xs <+: path
  · simp [keeps, feasible, feasibility, Environment.executor, guide, hpath, bind, Except.bind]
  · simp [keeps, feasible, feasibility, Environment.executor, guide, hpath, bind, Except.bind]

variable {s s' s₁ : SymbolicState}

lemma guide_enters {c : Term} (hpath : (s.assume c).constraints <+: path) {n : Counters}
    (hn : n.explored < maxSymbolicExplored) :
    ((guide path).executor d true M).Enters s c n (Counters.taken n) :=
  ⟨hn, by rw [guide_keeps, decide_eq_true hpath]; rfl⟩

lemma guide_branch {c : Term} (hpath : (s.assume c).constraints <+: path) {n : Counters}
    (hn : n.explored < maxSymbolicExplored)
    (follow : List SymbolicState → Step (List SymbolicState)) :
    ((guide path).executor d true M).branch follow s c n =
      follow [s.assume c] (Counters.taken n) := by
  simp only [branch, if_neg (Nat.not_le_of_lt hn), guide_keeps, decide_eq_true hpath]
  rfl

lemma guide_branch_dropped {c : Term} (hpath : ¬(s.assume c).constraints <+: path) {n : Counters}
    (hn : n.explored < maxSymbolicExplored)
    (follow : List SymbolicState → Step (List SymbolicState)) :
    ((guide path).executor d true M).branch follow s c n =
      .ok ([], { Counters.taken n with pruned := n.pruned + 1 }) := by
  simp only [branch, if_neg (Nat.not_le_of_lt hn), guide_keeps, decide_eq_false hpath]
  rfl

lemma assume_diverges {c c' : Term} (hne : c ≠ c') (hpath : (s.assume c).constraints <+: path) :
    ¬(s.assume c').constraints <+: path := by
  intro hpath'
  have hlen : (s.assume c).constraints.length = (s.assume c').constraints.length := by
    simp [SymbolicState.assume]
  have heq := (prefix_of_prefix_length_le hpath hpath' (Nat.le_of_eq hlen)).eq_of_length hlen
  simp only [SymbolicState.assume, append_cancel_left_eq, List.cons.injEq, and_true] at heq
  exact hne heq

lemma ne_not (c : Term) : c ≠ .not c := by
  intro h
  have hsize := congrArg sizeOf h
  simp at hsize

lemma run_singleton (i : Instruction) (states : List SymbolicState) (n : Counters) :
    e.run [i] states n = forEach (e.advance i) states n := by
  rw [run]
  cases forEach (e.advance i) states n with
  | error err => rfl
  | ok r => simp only [bind, Except.bind, run]

lemma forEach_singleton (step : SymbolicState → Step (List SymbolicState)) (s : SymbolicState)
    (n : Counters) : forEach step [s] n = step s n := by
  rw [forEach]
  cases step s n with
  | error err => rfl
  | ok r => simp only [bind, Except.bind, forEach, append_nil]

/-- A guide along the constraints of `s'` leads a run of the code from `s` to `s'` alone. The
counter of branches moves by at most two for every instruction. -/
structure Leads (d : Nat) (M : SolverModel) (program : List Instruction)
    (s s' : SymbolicState) : Prop where
  constraints : s.constraints <+: s'.constraints
  run : ∀ path, s'.constraints <+: path → ∀ n : Counters,
    n.explored + 2 * d < maxSymbolicExplored + 2 * s.depth →
    ∃ n', ((guide path).executor d true M).run program [s] n = .ok ([s'], n') ∧
      n'.explored + 2 * s.depth ≤ n.explored + 2 * s'.depth

variable {i : Instruction} {program thenCode otherwise : List Instruction}

lemma Leads.cons (h : Leads d M [i] s s₁) (hrest : Leads d M program s₁ s') :
    Leads d M (i :: program) s s' := by
  refine ⟨h.constraints.trans hrest.constraints, fun path hpath n hn => ?_⟩
  obtain ⟨n₁, hfirst, hn₁⟩ := h.run path (hrest.constraints.trans hpath) n hn
  obtain ⟨n', hrun, hn'⟩ := hrest.run path hpath n₁ (by omega)
  rw [run_singleton] at hfirst
  refine ⟨n', ?_, by omega⟩
  rw [Executor.run, hfirst]
  exact hrun

variable {index : Nat} {value : BitVec 64}

lemma leads_basic {o : UInt8} (ho : o ≠ 0x04) (hle : s.depth + 1 ≤ d)
    (hexec : executeInstruction { s with depth := s.depth + 1 }
      (.mk o index value thenCode otherwise) = .ok s') :
    Leads d M [.mk o index value thenCode otherwise] s s' := by
  have hsame := executeInstruction_samePath hexec
  refine ⟨by rw [hsame.constraints], fun path _ n _ => ⟨{ n with polls := n.polls + 1 }, ?_, ?_⟩⟩
  · have hdepth : ¬((guide path).executor d true M).maxDepth < s.depth + 1 := Nat.not_lt_of_le hle
    rw [run_singleton, forEach_singleton, advance, guide_poll]
    simp only [bind, Except.bind, if_neg hdepth, if_neg ho, hexec]
  · have hdepth := hsame.depth
    simp only at hdepth ⊢
    omega

variable {condition : SymbolicValue}

lemma guide_advance_ite (hle : s.depth + 1 ≤ d)
    (hpop : { s with depth := s.depth + 1 }.pop = .ok (condition, s₁)) (n : Counters) :
    ((guide path).executor d true M).advance (.mk 0x04 index value thenCode otherwise) s n =
      (do
        let e := (guide path).executor d true M
        let (yes, n) ← e.branch (e.run thenCode) s₁ condition.condition
          { n with polls := n.polls + 1 }
        let (no, n) ← e.branch (e.run otherwise) s₁ (.not condition.condition) n
        .ok (yes ++ no, n)) := by
  have hdepth : ¬((guide path).executor d true M).maxDepth < s.depth + 1 := Nat.not_lt_of_le hle
  rw [advance, guide_poll]
  simp only [bind, Except.bind, if_neg hdepth, if_true, hpop]

lemma assume_of_pop (hpop : { s with depth := s.depth + 1 }.pop = .ok (condition, s₁)) (c : Term) :
    (s₁.assume c).depth = s.depth + 1 ∧ s.constraints <+: (s₁.assume c).constraints := by
  have hsame := (pop_eq_ok hpop).2.2
  exact ⟨hsame.depth, [c], by rw [SymbolicState.assume, hsame.constraints]⟩

lemma leads_yes (hle : s.depth + 1 ≤ d)
    (hpop : { s with depth := s.depth + 1 }.pop = .ok (condition, s₁))
    (h : Leads d M thenCode (s₁.assume condition.condition) s') (hs' : s'.depth ≤ d) :
    Leads d M [.mk 0x04 index value thenCode otherwise] s s' := by
  obtain ⟨hdepth, hbegins⟩ := assume_of_pop hpop condition.condition
  refine ⟨hbegins.trans h.constraints, fun path hpath n hn => ?_⟩
  have hon := h.constraints.trans hpath
  obtain ⟨n₁, hrun, hn₁⟩ := h.run path hpath (Counters.taken { n with polls := n.polls + 1 })
    (by simp only [Counters.taken]; omega)
  simp only [Counters.taken] at hn₁
  have hyes := guide_branch (d := d) (M := M) hon (n := { n with polls := n.polls + 1 })
    (by simp only; omega) (((guide path).executor d true M).run thenCode)
  have hno := guide_branch_dropped (d := d) (M := M) (n := n₁)
    (assume_diverges (ne_not condition.condition) hon) (by omega)
    (((guide path).executor d true M).run otherwise)
  refine ⟨{ Counters.taken n₁ with pruned := n₁.pruned + 1 }, ?_, ?_⟩
  · rw [run_singleton, forEach_singleton, guide_advance_ite hle hpop]
    simp only [hyes, hrun, hno, bind, Except.bind, append_nil]
  · simp only [Counters.taken]
    omega

lemma leads_no (hle : s.depth + 1 ≤ d)
    (hpop : { s with depth := s.depth + 1 }.pop = .ok (condition, s₁))
    (h : Leads d M otherwise (s₁.assume (.not condition.condition)) s') :
    Leads d M [.mk 0x04 index value thenCode otherwise] s s' := by
  obtain ⟨hdepth, hbegins⟩ := assume_of_pop hpop (.not condition.condition)
  refine ⟨hbegins.trans h.constraints, fun path hpath n hn => ?_⟩
  have hon := h.constraints.trans hpath
  have hyes := guide_branch_dropped (d := d) (M := M)
    (assume_diverges (ne_not condition.condition).symm hon)
    (n := { n with polls := n.polls + 1 }) (by simp only; omega)
    (((guide path).executor d true M).run thenCode)
  have hno := guide_branch (d := d) (M := M) hon
    (n := { Counters.taken { n with polls := n.polls + 1 } with pruned := n.pruned + 1 })
    (by simp only [Counters.taken]; omega) (((guide path).executor d true M).run otherwise)
  obtain ⟨n₁, hrun, hn₁⟩ := h.run path hpath (Counters.taken
    { Counters.taken { n with polls := n.polls + 1 } with pruned := n.pruned + 1 })
    (by simp only [Counters.taken]; omega)
  simp only [Counters.taken] at hn₁
  refine ⟨n₁, ?_, by omega⟩
  rw [run_singleton, forEach_singleton, guide_advance_ite hle hpop]
  simp only [hyes, hno, hrun, bind, Except.bind, nil_append]

/-- Every path through valid code is one that the executor can be led along. -/
lemma exists_leads {is : List Wasm.Instr} {φ φ' : Wasm.Flags} (h : Wasm.Path d is φ φ')
    (hprog : wasmOf program = is) {Γ a b f : List Wasm.ValType}
    (hty : Wasm.HasType false Γ is a b) (hs : Sizes s Γ (a ++ f)) (hφ : s.flags = φ) :
    ∃ s', s'.flags = φ' ∧ Sizes s' Γ (b ++ f) ∧ Leads d M program s s' := by
  induction h generalizing program a b f s with
  | nil =>
    cases program with
    | cons => cases hprog
    | nil =>
      cases hty
      refine ⟨s, hφ, hs, prefix_rfl, fun path _ n _ => ⟨n, ?_, Nat.le_refl _⟩⟩
      rw [Executor.run]
  | @basic i is φ φ' hi hk hclean _ ih =>
    obtain ⟨o, index, value, thenCode, otherwise, rest, rfl, his, ⟨ho, rfl⟩ | ⟨ho, rfl⟩⟩ :=
      wasmOf_eq_cons hprog
    · cases hi
    · have hx := executes o index value thenCode otherwise
      obtain ⟨c, hbasic, hrest⟩ := hty.basic_inv hi
      subst hφ
      obtain ⟨s₁, hexec, hs₁⟩ := hx.progress hbasic hs.deeper hclean
      obtain ⟨s', hs', hsize, hleads⟩ := ih his hrest hs₁ (hx.flags hexec)
      exact ⟨s', hs', hsize, (leads_basic ho hk hexec).cons hleads⟩
  | @ite bt thn els is code φ ψ φ' hk hcode hpath _ ihCode ih =>
    obtain ⟨o, index, value, thenCode, otherwise, rest, rfl, his, ⟨rfl, hi⟩ | ⟨ho, hi⟩⟩ :=
      wasmOf_eq_cons hprog
    · cases hi
      subst hφ
      obtain ⟨a, b, t, rfl, hthn, hels, hrest⟩ := hty.ite_inv
      obtain ⟨condition, s₁, hpop, hs₁⟩ := hs.condition
      have hbranch : ∃ s₂, s₂.flags = ψ ∧ Sizes s₂ Γ (b ++ (t ++ f)) ∧
          Leads d M [.mk 0x04 index value thenCode otherwise] s s₂ := by
        obtain rfl | rfl := hcode
        · obtain ⟨s₂, hs₂, hsize, hleads⟩ := ihCode rfl hthn (hs₁.assume condition.condition)
            (enter_flags hpop _)
          have hbound : s₂.depth ≤ d := by
            have hsteps := hpath.steps_le (show s.flags.enter.steps ≤ d from hk)
            rw [← hs₂] at hsteps
            exact hsteps
          exact ⟨s₂, hs₂, hsize, leads_yes hk hpop hleads hbound⟩
        · obtain ⟨s₂, hs₂, hsize, hleads⟩ := ihCode rfl hels
            (hs₁.assume (.not condition.condition)) (enter_flags hpop _)
          exact ⟨s₂, hs₂, hsize, leads_no hk hpop hleads⟩
      obtain ⟨s₂, hs₂, hsize₂, hleads₂⟩ := hbranch
      rw [← append_assoc] at hsize₂
      obtain ⟨s', hs', hsize, hleads⟩ := ih his hrest hsize₂ hs₂
      exact ⟨s', hs', hsize, hleads₂.cons hleads⟩
    · exact absurd hi.symm (wasmBasic_ne_ite o index value bt thn els)

/-- A guide along the constraints of `s'` leads the run to start `i` on `s'`. -/
structure Reaches (d : Nat) (M : SolverModel) (program : List Instruction)
    (s : SymbolicState) (i : Instruction) (s' : SymbolicState) : Prop where
  constraints : s.constraints <+: s'.constraints
  starts : ∀ path, s'.constraints <+: path → ∀ n : Counters,
    n.explored + 2 * d < maxSymbolicExplored + 2 * s.depth →
    ((guide path).executor d true M).Starts program [s] n i s'

lemma reaches_yes (hle : s.depth + 1 ≤ d)
    (hpop : { s with depth := s.depth + 1 }.pop = .ok (condition, s₁))
    (h : Reaches d M thenCode (s₁.assume condition.condition) i s') (program : List Instruction) :
    Reaches d M (.mk 0x04 index value thenCode otherwise :: program) s i s' := by
  obtain ⟨hdepth, hbegins⟩ := assume_of_pop hpop condition.condition
  refine ⟨hbegins.trans h.constraints, fun path hpath n hn => ?_⟩
  have henter := guide_enters (d := d) (M := M) (h.constraints.trans hpath)
    (n := { n with polls := n.polls + 1 }) (by simp only; omega)
  refine .yes (guide_poll n) hle hpop henter (h.starts path hpath _ ?_)
  simp only [Counters.taken]
  omega

lemma reaches_no (hle : s.depth + 1 ≤ d)
    (hpop : { s with depth := s.depth + 1 }.pop = .ok (condition, s₁))
    (h : Reaches d M otherwise (s₁.assume (.not condition.condition)) i s')
    (program : List Instruction) :
    Reaches d M (.mk 0x04 index value thenCode otherwise :: program) s i s' := by
  obtain ⟨hdepth, hbegins⟩ := assume_of_pop hpop (.not condition.condition)
  refine ⟨hbegins.trans h.constraints, fun path hpath n hn => ?_⟩
  have hon := h.constraints.trans hpath
  have hyes := guide_branch_dropped (d := d) (M := M)
    (assume_diverges (ne_not condition.condition).symm hon)
    (n := { n with polls := n.polls + 1 }) (by simp only; omega)
    (((guide path).executor d true M).run thenCode)
  have henter := guide_enters (d := d) (M := M) hon
    (n := { Counters.taken { n with polls := n.polls + 1 } with pruned := n.pruned + 1 })
    (by simp only [Counters.taken]; omega)
  refine .no (guide_poll n) hle hpop hyes henter (h.starts path hpath _ ?_)
  simp only [Counters.taken]
  omega

lemma Leads.reaches {j : Instruction} (h : Leads d M [j] s s₁)
    (hrest : Reaches d M program s₁ i s') : Reaches d M (j :: program) s i s' := by
  refine ⟨h.constraints.trans hrest.constraints, fun path hpath n hn => ?_⟩
  obtain ⟨n₁, hfirst, hn₁⟩ := h.run path (hrest.constraints.trans hpath) n hn
  rw [run_singleton] at hfirst
  exact .later hfirst (hrest.starts path hpath n₁ (by omega))

/-- Where valid code uses a truth value, the executor can be led to the instruction, which
fails. -/
lemma exists_failing {is : List Wasm.Instr} {φ : Wasm.Flags} (h : Wasm.UsesFlag d is φ)
    (hprog : wasmOf program = is) {Γ a b f : List Wasm.ValType}
    (hty : Wasm.HasType false Γ is a b) (hs : Sizes s Γ (a ++ f)) (hφ : s.flags = φ) :
    ∃ i s' err, i.opcode ≠ 0x04 ∧ executeInstruction s' i = .error err ∧
      Reaches d M program s i s' := by
  induction h generalizing program a b f s with
  | @here i is φ hk hflag =>
    obtain ⟨o, index, value, thenCode, otherwise, rest, rfl, his, ⟨ho, rfl⟩ | ⟨ho, rfl⟩⟩ :=
      wasmOf_eq_cons hprog
    · cases hflag
    · have hx := executes o index value thenCode otherwise
      obtain ⟨c, hbasic, -⟩ := hty.basic_inv hx.isIte
      subst hφ
      obtain ⟨err, hexec⟩ := hx.fails hbasic hs.deeper hflag
      refine ⟨.mk o index value thenCode otherwise, { s with depth := s.depth + 1 }, err, ho, hexec,
        prefix_rfl, ?_⟩
      exact fun path _ n _ => .here (guide_poll n) hk
  | @inside bt thn els is code φ hk hcode _ ih =>
    obtain ⟨o, index, value, thenCode, otherwise, rest, rfl, his, ⟨rfl, hi⟩ | ⟨ho, hi⟩⟩ :=
      wasmOf_eq_cons hprog
    · cases hi
      subst hφ
      obtain ⟨a, b, t, rfl, hthn, hels, hrest⟩ := hty.ite_inv
      obtain ⟨condition, s₁, hpop, hs₁⟩ := hs.condition
      obtain rfl | rfl := hcode
      · obtain ⟨i, s', err, hi, herr, hreach⟩ := ih rfl hthn (hs₁.assume condition.condition)
          (enter_flags hpop _)
        exact ⟨i, s', err, hi, herr, reaches_yes hk hpop hreach rest⟩
      · obtain ⟨i, s', err, hi, herr, hreach⟩ := ih rfl hels
          (hs₁.assume (.not condition.condition)) (enter_flags hpop _)
        exact ⟨i, s', err, hi, herr, reaches_no hk hpop hreach rest⟩
    · exact absurd hi.symm (wasmBasic_ne_ite o index value bt thn els)
  | @later i is φ ψ hpath _ ih =>
    cases program with
    | nil => cases hprog
    | cons j rest =>
      rw [wasmOf, List.cons.injEq] at hprog
      obtain ⟨c, hfirst, hrest⟩ := hty.uncons
      obtain ⟨s₁, hs₁, hsize, hleads⟩ := exists_leads (M := M) hpath
        (show wasmOf [j] = _ by rw [wasmOf, wasmOf, hprog.1]) hfirst hs hφ
      obtain ⟨k, s', err, hk, herr, hreach⟩ := ih hprog.2 hrest hsize hs₁
      exact ⟨k, s', err, hk, herr, hleads.reaches hreach⟩

end Guide

end Executor

/-! ### Calls of `Run` -/

variable {args : List Arg}

lemma bindParam_bits {i : Nat} {t : Wasm.IntType} {v : SymbolicValue} {decl : SolverModel}
    (h : bindParam args i (typeByte t) = .ok (v, decl)) : v.bits = t.width := by
  unfold bindParam at h
  simp only [wasmIntegerWidth_typeByte] at h
  split at h
  · cases h
    rfl
  · split at h
    · cases h
    · rename_i hconcrete
      cases h
      obtain ⟨k, -, hk⟩ := bind_eq_ok.mp hconcrete
      cases hk
      rfl

variable {locals params : List Wasm.IntType} {values : List SymbolicValue}

lemma bindParams_bits {i : Nat} {model : SolverModel}
    (h : bindParams args i (params.map typeByte) = .ok (values, model)) :
    List.Forall₂ (fun v t => v.bits = Wasm.IntType.width t) values params := by
  induction params generalizing i values model with
  | nil =>
    cases h
    exact .nil
  | cons t params ih =>
    obtain ⟨⟨v, decl⟩, hv, h⟩ := bind_eq_ok.mp h
    obtain ⟨⟨vs, rest⟩, hvs, h⟩ := bind_eq_ok.mp h
    cases h
    exact .cons (bindParam_bits hv) (ih hvs)

lemma bindLocals_bits {i : Nat} (h : bindLocals i (locals.map typeByte) = .ok values) :
    List.Forall₂ (fun v t => v.bits = Wasm.IntType.width t) values locals := by
  induction locals generalizing i values with
  | nil =>
    cases h
    exact .nil
  | cons t locals ih =>
    simp only [map_cons, bindLocals, wasmIntegerWidth_typeByte] at h
    obtain ⟨vs, hvs, h⟩ := bind_eq_ok.mp h
    cases h
    exact .cons rfl (ih hvs)

lemma isFlag_of_bits {types : List Wasm.IntType}
    (h : List.Forall₂ (fun v t => v.bits = Wasm.IntType.width t) values types) :
    values.map SymbolicValue.isFlag = List.replicate types.length false := by
  induction h with
  | nil => rfl
  | cons hv _ ih => rw [map_cons, isFlag_of_width hv, ih, length_cons, replicate_succ]

lemma initialState_sizes {initial : SymbolicState} {model : SolverModel}
    (h : initialState (params.map typeByte) (locals.map typeByte) args = .ok (initial, model)) :
    Sizes initial ((params ++ locals).map .int) [] ∧
      initial.flags = ⟨List.replicate (params ++ locals).length false, [], 0⟩ ∧
      initial.depth = 0 := by
  obtain ⟨⟨values, model'⟩, hparams, h⟩ := bind_eq_ok.mp h
  obtain ⟨zeros, hlocals, h⟩ := bind_eq_ok.mp h
  cases h
  have hbits := rel_append (bindParams_bits hparams) (bindLocals_bits hlocals)
  refine ⟨⟨?_, .nil⟩, ?_, rfl⟩
  · exact List.forall₂_map_right_iff.mpr (hbits.imp fun v t hv => Or.inl hv)
  · rw [SymbolicState.flags, isFlag_of_bits hbits]
    rfl

/-- No instruction of the run fails; the run fails for reasons of its environment only. -/
structure InstructionsSucceed (e : Executor) (program : List Instruction)
    (states : List SymbolicState) (n : Counters) : Prop where
  instructions : ∀ i s, e.Starts program states n i s → i.opcode ≠ 0x04 →
    ∃ s', executeInstruction s i = .ok s'
  errors : ∀ err, e.run program states n = .error err → e.Excused err

/-- Let a function have a valid body of supported instructions. Its instructions are executed
without error, for all answers of the context and the solver, exactly when on no path within the
depth bound the result of a comparison or of `eqz` is an operand of `eqz`, of a comparison or of
arithmetic. -/
theorem instructions_succeed_iff (params locals : List Wasm.IntType) (args : List Arg)
    (body : List Instruction) (results : List Wasm.ValType)
    (hvalid : Wasm.HasType false ((params ++ locals).map .int) (wasmOf body) [] results)
    (initial : SymbolicState) (model : SolverModel)
    (hinit : initialState (params.map typeByte) (locals.map typeByte) args = .ok (initial, model))
    (maxDepth : Int) (d : Nat) (hdepth : Environment.checkedDepth maxDepth = .ok d) :
    (∀ (env : Environment) (prune : Bool),
      InstructionsSucceed (env.executor d prune model) body [initial] ⟨1, 0, 1, 0⟩) ↔
      ¬Wasm.UsesFlag d (wasmOf body) ⟨List.replicate (params ++ locals).length false, [], 0⟩ := by
  obtain ⟨hsize, hflags, hzero⟩ := initialState_sizes hinit
  constructor
  · intro hall huses
    obtain ⟨i, s', err, hi, herr, hreach⟩ := Executor.exists_failing (M := model) huses rfl
      hvalid (f := []) hsize hflags
    have hbound : d ≤ maxSymbolicMaxDepth := by
      unfold Environment.checkedDepth at hdepth
      split at hdepth
      · cases hdepth
      · split at hdepth
        · cases hdepth
          decide
        · split at hdepth
          · cases hdepth
          · cases hdepth
            omega
    have hstart := hreach.starts s'.constraints prefix_rfl ⟨1, 0, 1, 0⟩ (by
      simp only [maxSymbolicMaxDepth, maxSymbolicExplored] at *
      omega)
    obtain ⟨s₁, hs₁⟩ := (hall (guide s'.constraints) true).instructions i s' hstart hi
    rw [herr] at hs₁
    cases hs₁
  · intro hclean env prune
    have hstates : ∀ s ∈ [initial], Sizes s ((params ++ locals).map .int) ([] ++ []) ∧
        ¬Wasm.UsesFlag d (wasmOf body) s.flags := by
      intro s hs
      rw [List.mem_singleton.mp hs, hflags]
      exact ⟨hsize, hclean⟩
    constructor
    · intro i s hstart hi
      have hok := hstart.succeeds hvalid hstates
      rwa [Executor.attempt_eq_ok, if_neg hi] at hok
    · intro err herr
      obtain hexc | ⟨i, s, hfail, hstart⟩ := Executor.run_error body [initial] _ err herr
      · exact hexc
      · rw [hstart.succeeds hvalid hstates] at hfail
        cases hfail

/-- `arg0 < 5`, as the operand of what follows. -/
def belowFive (rest : List Instruction) : List Instruction :=
  [.mk 0x20 0 0 [] [], .mk 0x41 0 5 [] [], .mk 0x48 0 0 [] []] ++ rest

theorem instructions_succeed_belowFive :
    InstructionsSucceed (closedSolver.executor 10 true [("arg0", "BitVec_32")])
      (belowFive [.mk 0x04 0 0 [.mk 0x41 0 1 [] []] [.mk 0x41 0 2 [] []]])
      [⟨[⟨.sym "arg0" 32, none, false, 32⟩], [], [], 0⟩] ⟨1, 0, 1, 0⟩ := by
  refine (instructions_succeed_iff [.i32] [] [] _ [.int .i32] ?_ _ _ rfl 10 10 rfl).mpr ?_
    closedSolver true
  · exact .basic (.localGet rfl) (.basic .i32Const (.basic .rel (.ite (a := []) (b := [.int .i32])
      (.basic .i32Const .nil) (.basic .i32Const .nil) .nil)))
  · apply Wasm.not_usesFlag_basic rfl rfl
    apply Wasm.not_usesFlag_basic rfl rfl
    apply Wasm.not_usesFlag_basic rfl rfl
    apply Wasm.not_usesFlag_ite
    · exact Wasm.not_usesFlag_basic rfl rfl (Wasm.not_usesFlag_nil _)
    · exact Wasm.not_usesFlag_basic rfl rfl (Wasm.not_usesFlag_nil _)

/-- The body of `!(arg0 < 5)` is valid and cannot be executed: the result of the comparison has
width 0. -/
theorem negated_comparison_fails :
    Wasm.HasType false [.int .i32] (wasmOf (belowFive [.mk 0x45 0 0 [] []])) [] [.int .i32] ∧
      closedSolver.runFunction ⟨[valueI32], [valueI32], [], belowFive [.mk 0x45 0 0 [] []]⟩ "f" []
        100 false = .error (.text "eqz operand has width 0") := by
  refine ⟨?_, by rfl⟩
  exact .basic (.localGet rfl) (.basic .i32Const (.basic .rel (.basic .eqz .nil)))

end Symkernel.Verify
