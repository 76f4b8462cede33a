import Symkernel.Library.SmtLib.Script
import Symkernel.Solver.Program

/-!
# The declarations before the constraints

`buildSMT2` splices names and sort hints into its text as they are.
-/

namespace Symkernel.Solver

open Library Library.SmtLib List Finmap

def setOptionCommand : SExpr :=
  .list [.atom (.reserved "set-option".toList), .atom (.keyword ":produce-unsat-cores".toList),
    .atom (.symbol "true".toList)]

def optionCommands (constraints : Text) : List SExpr :=
  if hasNamedAssertions constraints then [setOptionCommand] else []

def headerCommands (constraints : Text) (model : Hints) (sorts : Text → SExpr) : List SExpr :=
  optionCommands constraints ++ (sortedNames model).map fun name => declareCommand name (sorts name)

/-- The text before the constraints declares the entries and does nothing else. -/
def DeclaresOnly (constraints : Text) (model : Hints) : Prop :=
  ∃ sorts : Text → SExpr, (∀ name ∈ model, (sorts name).isSort = true) ∧
    tokens (setOption constraints ++ declarations model) =
      some (flattenAll (headerCommands constraints model sorts))

def SatisfiableText (M : Semantics) (text : Text) : Prop :=
  ∃ script, tokens text = some (flattenAll script) ∧ Satisfiable M script

def Unmentioned (constraints name : Text) : Prop :=
  ∀ script, tokens (constraints ++ commands constraints) = some (flattenAll script) →
    ¬Mentions script (symbolName name)

/-- No entry for an unmentioned name makes a difference. -/
def Inert (constraints : Text) (model : Hints) : Prop :=
  ∀ name ∈ model, Unmentioned constraints name → ∀ M : Semantics,
    (SatisfiableText M (buildSMT2 constraints model) ↔
      SatisfiableText M (buildSMT2 constraints (model.erase name)))

/-- A sort where it stands, before a closing parenthesis. -/
def IsSortText (text : Text) : Prop :=
  ∃ sort : SExpr, sort.isSort = true ∧ tokens (text ++ [')']) = some (sort.flatten ++ [.closes])

def Declarable (model : Hints) : Prop :=
  ∀ name hint, model.lookup name = some hint → isSymbol name = true ∧ IsSortText (inferSort hint)

def declareLine (name sort : Text) : Text :=
  "(declare-const ".toList ++ (name ++ [' ']) ++ (sort ++ [')'])

lemma declareConst_eq (name sort : Text) :
    declareConst name sort = declareLine name sort ++ ['\n'] := by
  have hblank : " ".toList = [' '] := rfl
  have hend : ")\n".toList = [')'] ++ ['\n'] := rfl
  unfold declareConst declareLine
  rw [hblank, hend]
  simp only [append_assoc]

lemma flatten_declareCommand (name : Text) (s : SExpr) : (declareCommand name s).flatten =
    [.opens, .atom (.reserved "declare-const".toList), .atom (.symbol name)] ++
      (s.flatten ++ [.closes]) := by
  simp only [declareCommand, SExpr.flatten, flattenAll, append_nil, cons_append, nil_append]

variable {name sort : Text}

lemma reads_declare (h : isSymbol name = true) :
    Mode.Reads .between ("(declare-const ".toList ++ (name ++ [' ']))
      [.opens, .atom (.reserved "declare-const".toList), .atom (.symbol name)] .between := by
  have hopen : Mode.between.step '(' = some ([.opens], .between) := rfl
  have hword : Mode.Reads .between ("declare-const".toList ++ [' '])
      [.atom (.reserved "declare-const".toList)] .between :=
    reads_word_blank (by decide +kernel) (by decide +kernel)
  exact (Mode.Reads.cons hopen hword).append (reads_symbol h)

lemma tokens_declareLine (hname : isSymbol name = true) {s : SExpr}
    (hsort : tokens (sort ++ [')']) = some (s.flatten ++ [.closes])) :
    tokens (declareLine name sort) = some (declareCommand name s).flatten := by
  unfold declareLine
  rw [(reads_declare hname).tokens_append, hsort, flatten_declareCommand, Option.map_some]

lemma of_tokens_declareConst {s : SExpr}
    (h : tokens (declareConst name sort) = some (declareCommand name s).flatten) :
    isSymbol name = true ∧ tokens (sort ++ [')']) = some (s.flatten ++ [.closes]) := by
  rw [declareConst_eq, tokens_newline, flatten_declareCommand] at h
  have hname : isSymbol name = true :=
    isSymbol_of_mem_tokens h (mem_append_left _ (by simp only [mem_cons, true_or, or_true]))
  refine ⟨hname, ?_⟩
  unfold declareLine at h
  rw [(reads_declare hname).tokens_append] at h
  obtain ⟨ts, hts, heq⟩ := Option.map_eq_some_iff.mp h
  rw [hts, append_cancel_left heq]

lemma reads_setOption (constraints : Text) :
    Mode.Reads .between (setOption constraints) (flattenAll (optionCommands constraints))
      .between := by
  unfold setOption optionCommands
  split
  · have hline : tokens "(set-option :produce-unsat-cores true)".toList =
        some (flattenAll [setOptionCommand]) := by decide +kernel
    exact reads_line hline
  · exact .nil _

variable {sorts : Text → SExpr}

lemma reads_declarations {lookup : Text → Hint} {names : List Text}
    (h : ∀ name ∈ names, isSymbol name = true ∧
      tokens (inferSort (lookup name) ++ [')']) = some ((sorts name).flatten ++ [.closes])) :
    Mode.Reads .between (names.flatMap fun name => declareConst name (inferSort (lookup name)))
      (flattenAll (names.map fun name => declareCommand name (sorts name))) .between := by
  induction names with
  | nil => exact .nil _
  | cons name names ih =>
    obtain ⟨hname, hsort⟩ := h name mem_cons_self
    have hline := reads_line (tokens_declareLine hname hsort)
    rw [← declareConst_eq] at hline
    exact hline.append (ih fun n hn => h n (mem_cons_of_mem name hn))

variable {model : Hints}

lemma mem_sortedNames : name ∈ sortedNames model ↔ name ∈ model := by
  rw [sortedNames, RangeOrder.mem_keys, Finmap.mem_keys]

/-- `sorts` are the sorts of the entries, each read where it stands. -/
def ReadsSorts (model : Hints) (sorts : Text → SExpr) : Prop :=
  ∀ name ∈ model, isSymbol name = true ∧ (sorts name).isSort = true ∧
    tokens (inferSort ((model.lookup name).getD .other) ++ [')']) =
      some ((sorts name).flatten ++ [.closes])

lemma Declarable.readsSorts (h : Declarable model) : ∃ sorts, ReadsSorts model sorts := by
  have hsort : ∀ name, ∃ s : SExpr, name ∈ model → isSymbol name = true ∧ s.isSort = true ∧
      tokens (inferSort ((model.lookup name).getD .other) ++ [')']) =
        some (s.flatten ++ [.closes]) := by
    intro name
    cases hlookup : model.lookup name with
    | none =>
      refine ⟨.list [], fun hmem => absurd hmem ?_⟩
      exact Finmap.lookup_eq_none.mp hlookup
    | some hint =>
      obtain ⟨hname, s, hs, htokens⟩ := h name hint hlookup
      exact ⟨s, fun _ => ⟨hname, hs, htokens⟩⟩
  choose sorts hsorts using hsort
  exact ⟨sorts, hsorts⟩

lemma ReadsSorts.erase (h : ReadsSorts model sorts) (name : Text) :
    ReadsSorts (model.erase name) sorts := by
  intro n hn
  obtain ⟨hne, hmem⟩ := Finmap.mem_erase.mp hn
  rw [lookup_erase_ne hne]
  exact h n hmem

lemma ReadsSorts.reads (h : ReadsSorts model sorts) (constraints : Text) :
    Mode.Reads .between (setOption constraints ++ declarations model)
      (flattenAll (headerCommands constraints model sorts)) .between := by
  have hdeclarations : Mode.Reads .between (declarations model)
      (flattenAll ((sortedNames model).map fun name => declareCommand name (sorts name)))
      .between := by
    refine reads_declarations fun name hname => ?_
    obtain ⟨hsymbol, -, htokens⟩ := h name (mem_sortedNames.mp hname)
    exact ⟨hsymbol, htokens⟩
  rw [headerCommands, flattenAll_append]
  exact (reads_setOption constraints).append hdeclarations

lemma ReadsSorts.declaresOnly (h : ReadsSorts model sorts) (constraints : Text) :
    DeclaresOnly constraints model :=
  ⟨sorts, fun name hname => (h name hname).2.1, (h.reads constraints).tokens⟩

/-- A program is satisfiable when its declarations and some script of the rest are. -/
lemma ReadsSorts.satisfiableText_iff (h : ReadsSorts model sorts) (constraints : Text)
    (M : Semantics) : SatisfiableText M (buildSMT2 constraints model) ↔
      ∃ rest, tokens (constraints ++ commands constraints) = some (flattenAll rest) ∧
        Satisfiable M (headerCommands constraints model sorts ++ rest) := by
  have htext : buildSMT2 constraints model =
      (setOption constraints ++ declarations model) ++ (constraints ++ commands constraints) := by
    unfold buildSMT2
    rw [append_assoc _ constraints]
  unfold SatisfiableText
  rw [htext, (h.reads constraints).tokens_append]
  constructor
  · rintro ⟨script, htokens, hsat⟩
    obtain ⟨ts, hts, hflat⟩ := Option.map_eq_some_iff.mp htokens
    obtain ⟨rest, rfl, rfl⟩ := eq_append_of_flattenAll hflat.symm
    exact ⟨rest, hts, hsat⟩
  · rintro ⟨rest, htokens, hsat⟩
    refine ⟨_, ?_, hsat⟩
    rw [htokens, Option.map_some, flattenAll_append]

lemma body_headerCommands (constraints : Text) (names : List Text) (sorts : Text → SExpr)
    (rest : List SExpr) :
    body (optionCommands constraints ++ names.map (fun name => declareCommand name (sorts name)) ++
      rest) = body rest := by
  have hoption : body (optionCommands constraints) = [] := by
    unfold optionCommands
    split
    · rfl
    · rfl
  have hnames : body (names.map fun name => declareCommand name (sorts name)) = [] := by
    induction names with
    | nil => rfl
    | cons name names ih =>
      rw [map_cons, body, filter_cons_of_neg]
      · exact ih
      · exact Bool.false_ne_true
  rw [body, filter_append, filter_append, ← body, ← body, hoption, hnames]
  rfl

lemma ReadsSorts.inert (h : ReadsSorts model sorts) (constraints : Text) :
    Inert constraints model := by
  intro name hname hunmentioned M
  obtain ⟨front, back, hnames⟩ := append_of_mem (mem_sortedNames.mpr hname)
  have herased : sortedNames (model.erase name) = front ++ back := by
    refine RangeOrder.ascending_erase hnames fun n => ?_
    rw [Finmap.mem_keys, Finmap.mem_keys, mem_erase]
  rw [h.satisfiableText_iff, (h.erase name).satisfiableText_iff]
  refine exists_congr fun rest => and_congr_right fun htokens => ?_
  have hwith : headerCommands constraints model sorts ++ rest =
      (optionCommands constraints ++ front.map fun n => declareCommand n (sorts n)) ++
        declareCommand name (sorts name) ::
          ((back.map fun n => declareCommand n (sorts n)) ++ rest) := by
    rw [headerCommands, hnames]
    simp only [map_append, map_cons, append_assoc, cons_append]
  have hwithout : headerCommands constraints (model.erase name) sorts ++ rest =
      (optionCommands constraints ++ front.map fun n => declareCommand n (sorts n)) ++
        ((back.map fun n => declareCommand n (sorts n)) ++ rest) := by
    rw [headerCommands, herased]
    simp only [map_append, append_assoc]
  rw [hwith, hwithout]
  refine satisfiable_declare_iff M (declaration_declareCommand name (sorts name)) ?_
  rw [← hwithout, headerCommands, body_headerCommands]
  exact fun hmentions => hunmentioned rest htokens hmentions.of_body

lemma DeclaresOnly.of_singleton {constraints : Text} {hint : Hint}
    (h : DeclaresOnly constraints (Finmap.singleton name hint)) :
    isSymbol name = true ∧ IsSortText (inferSort hint) := by
  obtain ⟨sorts, hsorts, htokens⟩ := h
  have hnames : sortedNames (singleton name hint) = [name] := rfl
  have hdeclarations : declarations (singleton name hint) = declareConst name (inferSort hint) := by
    unfold declarations
    rw [hnames, flatMap_singleton, lookup_singleton_eq]
    rfl
  rw [headerCommands, hnames, hdeclarations, (reads_setOption constraints).tokens_append,
    flattenAll_append] at htokens
  obtain ⟨ts, hts, hflat⟩ := Option.map_eq_some_iff.mp htokens
  rw [append_cancel_left hflat] at hts
  have hline : tokens (declareConst name (inferSort hint)) =
      some (declareCommand name (sorts name)).flatten := by
    rw [hts, map_singleton, flattenAll, flattenAll, append_nil]
  obtain ⟨hsymbol, hsort⟩ := of_tokens_declareConst hline
  exact ⟨hsymbol, sorts name, hsorts name (Finmap.mem_singleton _ _ _ |>.mpr rfl), hsort⟩

/-- All maps with entries of `model` are declared properly exactly when each of its entries has a
symbol for its name and a sort where its sort text stands. -/
theorem declarations_read_iff (constraints : Text) (model : Hints) :
    (∀ m : Hints, (∀ name hint, m.lookup name = some hint → model.lookup name = some hint) →
        DeclaresOnly constraints m ∧ Inert constraints m) ↔ Declarable model := by
  constructor
  · intro h name hint hlookup
    refine (h (singleton name hint) fun n k hk => ?_).1.of_singleton
    by_cases hn : n = name
    · subst hn
      rw [lookup_singleton_eq] at hk
      rw [hlookup, Option.some.inj hk]
    · rw [Finmap.lookup_eq_none.mpr (mt (Finmap.mem_singleton _ _ _).mp hn)] at hk
      cases hk
  · intro h m hsub
    have hm : Declarable m := fun name hint hlookup => h name hint (hsub name hint hlookup)
    obtain ⟨sorts, hsorts⟩ := hm.readsSorts
    exact ⟨hsorts.declaresOnly constraints, hsorts.inert constraints⟩

/-- A name that ends its own declaration, asserts `false` and begins another one. -/
def smuggler : Text := "x Int)(assert false)(declare-const y".toList

def assertFalse : SExpr :=
  .list [.atom (.reserved "assert".toList), .atom (.symbol "false".toList)]

/-- Everything holds but the assertion of `false`. -/
def onlyFalseFails : Semantics where
  Value := Unit
  carrier _ := Set.univ
  nonempty _ := Set.univ_nonempty
  holds _ script := assertFalse ∉ script
  congr _ _ _ _ := Iff.rfl

def checkScript : List SExpr :=
  [.list [.atom (.reserved "assert".toList), .atom (.symbol "true".toList)],
    .list [.atom (.reserved "check-sat".toList)], .list [.atom (.reserved "get-model".toList)],
    .list [.atom (.reserved "exit".toList)]]

def smuggledScript : List SExpr :=
  [declareCommand "x".toList (.atom (.symbol "Int".toList)), assertFalse,
    declareCommand "y".toList (.atom (.symbol "Int".toList))] ++ checkScript

lemma tokens_check : tokens ("(assert true)".toList ++ commands "(assert true)".toList) =
    some (flattenAll checkScript) := by decide +kernel

lemma tokens_smuggled :
    tokens (buildSMT2 "(assert true)".toList (Finmap.singleton smuggler .integer)) =
      some (flattenAll smuggledScript) := by decide +kernel

theorem smuggler_asserts_false :
    ¬DeclaresOnly "(assert true)".toList (Finmap.singleton smuggler .integer) ∧
      ¬Inert "(assert true)".toList (Finmap.singleton smuggler .integer) := by
  constructor
  · intro h
    have hsymbol := h.of_singleton.1
    revert hsymbol
    decide
  · intro h
    have hunmentioned : Unmentioned "(assert true)".toList smuggler := by
      rintro script hscript ⟨w, hw, hname⟩
      rw [tokens_check] at hscript
      rw [← Option.some.inj hscript] at hw
      obtain rfl : w = "true".toList := by
        simpa only [checkScript, flattenAll, SExpr.flatten, append_nil, cons_append,
          nil_append, mem_cons, not_mem_nil, Token.atom.injEq, Atom.symbol.injEq,
          reduceCtorEq, false_or, or_false] using hw
      revert hname
      decide
    have hwith : ¬SatisfiableText onlyFalseFails
        (buildSMT2 "(assert true)".toList (singleton smuggler .integer)) := by
      rintro ⟨script, hscript, a, -, hholds⟩
      rw [tokens_smuggled] at hscript
      rw [← flattenAll_injective (Option.some.inj hscript)] at hholds
      exact hholds (mem_cons_self)
    have hwithout : SatisfiableText onlyFalseFails (buildSMT2 "(assert true)".toList
        (erase smuggler (singleton smuggler .integer))) := by
      have htokens : tokens (buildSMT2 "(assert true)".toList
          (erase smuggler (singleton smuggler .integer))) =
          some (flattenAll checkScript) := by decide +kernel
      refine ⟨checkScript, htokens, fun _ => (), fun _ _ _ => trivial, ?_⟩
      simp [onlyFalseFails, body, checkScript, assertFalse]
    exact hwith ((h smuggler (Finmap.mem_singleton _ _ _ |>.mpr rfl) hunmentioned
      onlyFalseFails).mpr hwithout)

end Symkernel.Solver
