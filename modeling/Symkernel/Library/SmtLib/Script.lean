import Symkernel.Library.SmtLib.Lexer

/-!
# Scripts of SMT-LIB

A script is a list of s-expressions. What it means is left open but for two things: every sort has
a value, and commands only depend on the symbols that they mention.
-/

namespace Symkernel.Library.SmtLib

open List

inductive SExpr where
  | atom (a : Atom)
  | list (es : List SExpr)

mutual

def SExpr.flatten : SExpr → List Token
  | .atom a => [.atom a]
  | .list es => .opens :: (flattenAll es ++ [.closes])

def flattenAll : List SExpr → List Token
  | [] => []
  | e :: es => e.flatten ++ flattenAll es

end

lemma flattenAll_append (es fs : List SExpr) :
    flattenAll (es ++ fs) = flattenAll es ++ flattenAll fs := by
  induction es with
  | nil => rfl
  | cons e es ih => rw [cons_append, flattenAll, ih, flattenAll, append_assoc]

lemma flatten_ne_closes (e : SExpr) (s t : List Token) : e.flatten ++ s ≠ .closes :: t := by
  cases e with
  | atom a =>
    intro h
    cases h
  | list es =>
    intro h
    cases h

mutual

/-- An expression ends where its tokens end. -/
theorem flatten_inj (e f : SExpr) (s t : List Token) (h : e.flatten ++ s = f.flatten ++ t) :
    e = f ∧ s = t := by
  cases e with
  | atom a =>
    cases f with
    | atom b =>
      cases h
      exact ⟨rfl, rfl⟩
    | list fs => cases h
  | list es =>
    cases f with
    | atom b => cases h
    | list fs =>
      rw [SExpr.flatten, SExpr.flatten, cons_append, cons_append, append_assoc, append_assoc] at h
      obtain ⟨rfl, rfl⟩ := flattenAll_inj es fs s t (List.cons.inj h).2
      exact ⟨rfl, rfl⟩

theorem flattenAll_inj (es fs : List SExpr) (s t : List Token)
    (h : flattenAll es ++ ([.closes] ++ s) = flattenAll fs ++ ([.closes] ++ t)) :
    es = fs ∧ s = t := by
  cases es with
  | nil =>
    cases fs with
    | nil =>
      cases h
      exact ⟨rfl, rfl⟩
    | cons f fs =>
      rw [flattenAll, flattenAll, append_assoc] at h
      exact absurd h.symm (flatten_ne_closes f _ _)
  | cons e es =>
    cases fs with
    | nil =>
      rw [flattenAll, flattenAll, append_assoc] at h
      exact absurd h (flatten_ne_closes e _ _)
    | cons f fs =>
      rw [flattenAll, flattenAll, append_assoc, append_assoc] at h
      obtain ⟨rfl, hrest⟩ := flatten_inj e f _ _ h
      obtain ⟨rfl, rfl⟩ := flattenAll_inj es fs s t hrest
      exact ⟨rfl, rfl⟩

end

variable {es fs script : List SExpr}

lemma flattenAll_injective (h : flattenAll es = flattenAll fs) : es = fs :=
  (flattenAll_inj es fs [] [] (by rw [h])).1

/-- A script that begins with the tokens of another one begins with that one. -/
lemma eq_append_of_flattenAll {s : List Token} (h : flattenAll es = flattenAll fs ++ s) :
    ∃ gs, es = fs ++ gs ∧ s = flattenAll gs := by
  induction fs generalizing es with
  | nil => exact ⟨es, rfl, h.symm⟩
  | cons f fs ih =>
    cases es with
    | nil =>
      cases f <;> cases h
    | cons e es =>
      rw [flattenAll, flattenAll, append_assoc] at h
      obtain ⟨rfl, hrest⟩ := flatten_inj e f _ _ h
      obtain ⟨gs, rfl, rfl⟩ := ih hrest
      exact ⟨gs, rfl, rfl⟩

def SExpr.isIndex : SExpr → Bool
  | .atom (.numeral _) => true
  | .atom (.symbol _) => true
  | _ => false

def SExpr.isIdentifier : SExpr → Bool
  | .atom (.symbol _) => true
  | .list (.atom (.reserved w) :: .atom (.symbol _) :: i :: is) =>
    w = "_".toList && (i :: is).all isIndex
  | _ => false

mutual

def SExpr.isSort : SExpr → Bool
  | .atom a => SExpr.isIdentifier (.atom a)
  | .list es => SExpr.isIdentifier (.list es) || isApplication es

def isApplication : List SExpr → Bool
  | [] => false
  | f :: args => f.isIdentifier && !args.isEmpty && allSorts args

def allSorts : List SExpr → Bool
  | [] => true
  | e :: es => e.isSort && allSorts es

end

def declareCommand (name : Text) (sort : SExpr) : SExpr :=
  .list [.atom (.reserved "declare-const".toList), .atom (.symbol name), sort]

def SExpr.declaration : SExpr → Option (Text × SExpr)
  | .list [.atom (.reserved w), .atom (.symbol name), sort] =>
    if w = "declare-const".toList then some (symbolName name, sort) else none
  | _ => none

lemma declaration_declareCommand (name : Text) (sort : SExpr) :
    (declareCommand name sort).declaration = some (symbolName name, sort) := rfl

def declared (script : List SExpr) : List (Text × SExpr) :=
  script.filterMap SExpr.declaration

def SExpr.isOption : SExpr → Bool
  | .list (.atom (.reserved w) :: _) => w = "set-option".toList
  | _ => false

def body (script : List SExpr) : List SExpr :=
  script.filter fun e => e.declaration.isNone && !e.isOption

def Mentions (script : List SExpr) (x : Text) : Prop :=
  ∃ w, .atom (.symbol w) ∈ flattenAll script ∧ symbolName w = x

lemma mem_flattenAll {t : Token} : t ∈ flattenAll es ↔ ∃ e ∈ es, t ∈ e.flatten := by
  induction es with
  | nil => simp [flattenAll]
  | cons e es ih => simp [flattenAll, ih]

lemma Mentions.of_body {x : Text} (h : Mentions (body script) x) : Mentions script x := by
  obtain ⟨w, hw, hname⟩ := h
  obtain ⟨e, he, hmem⟩ := mem_flattenAll.mp hw
  exact ⟨w, mem_flattenAll.mpr ⟨e, mem_of_mem_filter he, hmem⟩, hname⟩

/-- What scripts mean: the values of a sort, and when commands hold of the values given to the
symbols. -/
structure Semantics where
  Value : Type
  carrier : SExpr → Set Value
  nonempty : ∀ sort, (carrier sort).Nonempty
  holds : (Text → Value) → List SExpr → Prop
  congr : ∀ a b script, (∀ x, Mentions script x → a x = b x) → (holds a script ↔ holds b script)

/-- Some values of the declared sorts make the commands hold. Of two declarations of a symbol the
second one is an error without effect. -/
def Satisfiable (M : Semantics) (script : List SExpr) : Prop :=
  ∃ a : Text → M.Value,
    (∀ x sort, (declared script).lookup x = some sort → a x ∈ M.carrier sort) ∧
      M.holds a (body script)

lemma lookup_append_cons {α β : Type*} [BEq α] [LawfulBEq α] (l l' : List (α × β)) {x y : α}
    (b : β) (h : y ≠ x) : (l ++ (x, b) :: l').lookup y = (l ++ l').lookup y := by
  induction l with
  | nil => rw [nil_append, nil_append, lookup_cons, beq_eq_false_iff_ne.mpr h]
  | cons p l ih => rw [cons_append, cons_append, lookup_cons, lookup_cons, ih]

lemma satisfiable_of_agree {M : Semantics} {script' : List SExpr} {x : Text}
    (hbody : body script' = body script) (hx : ¬Mentions (body script) x)
    (hlookup : ∀ y, y ≠ x → (declared script').lookup y = (declared script).lookup y)
    (h : Satisfiable M script) : Satisfiable M script' := by
  obtain ⟨a, hcarrier, hholds⟩ := h
  obtain ⟨v, hv⟩ : ∃ v, ∀ sort, (declared script').lookup x = some sort → v ∈ M.carrier sort := by
    cases hfirst : (declared script').lookup x with
    | none => exact ⟨a x, fun sort hsort => by cases hsort⟩
    | some sort =>
      obtain ⟨v, hv⟩ := M.nonempty sort
      exact ⟨v, fun sort' hsort => Option.some.inj hsort ▸ hv⟩
  refine ⟨Function.update a x v, fun y sort hy => ?_, ?_⟩
  · by_cases hyx : y = x
    · subst hyx
      rw [Function.update_self]
      exact hv sort hy
    · rw [Function.update_of_ne hyx]
      exact hcarrier y sort (hlookup y hyx ▸ hy)
  · rw [hbody]
    refine (M.congr a _ (body script) fun y hy => ?_).mp hholds
    rw [Function.update_of_ne]
    rintro rfl
    exact hx hy

/-- The declaration of a symbol that the commands do not mention makes no difference. -/
theorem satisfiable_declare_iff (M : Semantics) {front back : List SExpr} {d : SExpr} {x : Text}
    {sort : SExpr} (hd : d.declaration = some (x, sort)) (hx : ¬Mentions (body (front ++ back)) x) :
    Satisfiable M (front ++ d :: back) ↔ Satisfiable M (front ++ back) := by
  have hbody : body (front ++ d :: back) = body (front ++ back) := by
    simp [body, hd]
  have hdeclared : declared (front ++ d :: back) = declared front ++ (x, sort) :: declared back := by
    simp [declared, hd]
  have hlookup : ∀ y, y ≠ x → (declared (front ++ d :: back)).lookup y =
      (declared (front ++ back)).lookup y := by
    intro y hy
    rw [hdeclared, lookup_append_cons _ _ sort hy, declared, declared, declared, filterMap_append]
  constructor
  · exact satisfiable_of_agree hbody.symm (hbody ▸ hx) fun y hy => (hlookup y hy).symm
  · exact satisfiable_of_agree hbody hx hlookup

end Symkernel.Library.SmtLib
