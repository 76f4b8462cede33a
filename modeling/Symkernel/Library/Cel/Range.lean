import Symkernel.Library.Cel.Parser

/-!
# The range of the parser
-/

namespace Symkernel.Library.Cel

def Literal.inRange : Literal → Bool
  | .int n => decide (-2 ^ 63 ≤ n) && decide (n < 2 ^ 63)
  | _ => true

mutual

def Expr.inRange : Expr → Bool
  | .lit l => l.inRange
  | .ident _ => true
  | .select e f => e.inRange && isSelector f
  | .index e i => e.inRange && i.inRange
  | .call _ args => inRangeAll args
  | .method e _ args => e.inRange && inRangeAll args
  | .list es => inRangeAll es
  | .map keys values => inRangeAll keys && inRangeAll values
  | .not e => e.inRange
  | .neg e => e.inRange
  | .bin _ l r => l.inRange && r.inRange
  | .cond c t e => c.inRange && t.inRange && e.inRange

def inRangeAll : List Expr → Bool
  | [] => true
  | e :: es => e.inRange && inRangeAll es

end

lemma inRangeAll_concat (es : List Expr) (e : Expr) :
    inRangeAll (es ++ [e]) = (inRangeAll es && e.inRange) := by
  induction es with
  | nil => simp [inRangeAll]
  | cons x es ih => simp [inRangeAll, ih, Bool.and_assoc]

def Frame.inRange : Frame → Bool
  | .paren | .not | .neg => true
  | .list done => inRangeAll done
  | .mapKey keys values => inRangeAll keys && inRangeAll values
  | .mapValue keys values key => inRangeAll keys && inRangeAll values && key.inRange
  | .args _ done => inRangeAll done
  | .methodArgs e _ done => e.inRange && inRangeAll done
  | .index e => e.inRange
  | .bin _ l => l.inRange
  | .condThen c => c.inRange
  | .condElse c t => c.inRange && t.inRange

def Place.inRange : Place → Bool
  | .field e => e.inRange
  | .after e => e.inRange
  | .selected e f => e.inRange && isSelector f
  | _ => true

def stackOk (stack : List Frame) : Bool :=
  stack.all Frame.inRange

def State.inRange (s : State) : Bool :=
  stackOk s.stack && s.place.inRange

lemma stackOk_cons (f : Frame) (stack : List Frame) :
    stackOk (f :: stack) = (f.inRange && stackOk stack) := rfl

variable {stack : List Frame}

lemma reduce_inRange (p : Nat) {e : Expr} (hs : stackOk stack = true) (he : e.inRange = true) :
    stackOk (reduce p stack e).1 = true ∧ (reduce p stack e).2.inRange = true := by
  induction stack generalizing e with
  | nil => exact ⟨hs, he⟩
  | cons f stack ih =>
    have hcons := hs
    rw [stackOk_cons, Bool.and_eq_true] at hs
    cases f with
    | not => exact ih hs.2 (by simpa [Expr.inRange] using he)
    | neg => exact ih hs.2 (by simpa [Expr.inRange] using he)
    | bin op l =>
      simp only [reduce]
      split
      · apply ih hs.2
        rw [Expr.inRange, he, Bool.and_true]
        exact hs.1
      · exact ⟨hcons, he⟩
    | condElse c t =>
      simp only [reduce]
      split
      · apply ih hs.2
        rw [Expr.inRange, he, Bool.and_true]
        exact hs.1
      · exact ⟨hcons, he⟩
    | _ => exact ⟨hcons, he⟩

variable {s s' : State}

lemma closing_inRange {r : List Frame × Expr} (hs : stackOk r.1 = true) (he : r.2.inRange = true)
    (h : commaStep r = some s ∨ rparenStep r = some s ∨ rbrackStep r = some s ∨
      rbraceStep r = some s ∨ questionStep r = some s) : s.inRange = true := by
  obtain ⟨stack, e⟩ := r
  obtain h | h | h | h | h := h
  · unfold commaStep at h
    split at h <;> cases h <;> rename_i heq <;> cases heq <;>
      simp_all [State.inRange, stackOk_cons, Frame.inRange, Place.inRange, inRangeAll_concat]
  · unfold rparenStep at h
    split at h <;> cases h <;> rename_i heq <;> cases heq <;>
      simp_all [State.inRange, stackOk_cons, Frame.inRange, Place.inRange, inRangeAll_concat,
        Expr.inRange]
  · unfold rbrackStep at h
    split at h <;> cases h <;> rename_i heq <;> cases heq <;>
      simp_all [State.inRange, stackOk_cons, Frame.inRange, Place.inRange, inRangeAll_concat,
        Expr.inRange]
  · unfold rbraceStep at h
    split at h <;> cases h
    rename_i heq
    cases heq
    simp_all [State.inRange, stackOk_cons, Frame.inRange, Place.inRange, inRangeAll_concat,
      Expr.inRange]
  · unfold questionStep at h
    split at h <;> cases h
    rename_i heq
    cases heq
    simp_all [State.inRange, stackOk_cons, Frame.inRange, Place.inRange]

lemma colonStep_inRange {r : List Frame × Expr} (hs : stackOk r.1 = true)
    (he : r.2.inRange = true) (h : colonStep r = some s) : s.inRange = true := by
  obtain ⟨stack, e⟩ := r
  unfold colonStep at h
  split at h
  · rename_i heq cases heq
    cases h
    simp_all [State.inRange, stackOk_cons, Frame.inRange, Place.inRange]
  · rename_i heq cases heq
    have hred := reduce_inRange 0 hs he
    split at h
    · rename_i hr
      cases h
      simp_all [State.inRange, stackOk_cons, Frame.inRange, Place.inRange]
    · cases h

variable {t : Token}

lemma afterStep_inRange {e : Expr} (hs : stackOk stack = true) (he : e.inRange = true)
    (h : afterStep stack e t = some s) : s.inRange = true := by
  have hred := fun p => reduce_inRange p hs he
  unfold afterStep at h
  split at h
  · rename_i op _
    cases h
    obtain ⟨hr, hl⟩ := hred op.prec
    simp [State.inRange, stackOk_cons, Frame.inRange, Place.inRange, hr, hl]
  · split at h
    · cases h
      simp [State.inRange, Place.inRange, hs, he]
    · cases h
      simp [State.inRange, stackOk_cons, Frame.inRange, Place.inRange, hs, he]
    · exact closing_inRange (hred 1).1 (hred 1).2 (by simp [h])
    · exact colonStep_inRange (hred 1).1 (hred 1).2 h
    · exact closing_inRange (hred 0).1 (hred 0).2 (by simp [h])
    · exact closing_inRange (hred 0).1 (hred 0).2 (by simp [h])
    · exact closing_inRange (hred 0).1 (hred 0).2 (by simp [h])
    · exact closing_inRange (hred 0).1 (hred 0).2 (by simp [h])
    · cases h

lemma wordOperand_inRange {w : String} {p : Place} (h : wordOperand w = some p) :
    p.inRange = true := by
  unfold wordOperand at h
  split_ifs at h <;> cases h <;> rfl

lemma operandStep_inRange (hs : stackOk stack = true) (h : operandStep stack t = some s) :
    s.inRange = true := by
  cases t with
  | word w =>
    obtain ⟨p, hp, rfl⟩ := Option.map_eq_some_iff.mp h
    simp [State.inRange, hs, wordOperand_inRange hp]
  | int n =>
    simp only [operandStep] at h
    split at h <;> cases h
    have hint : (Literal.int n).inRange = true := by
      rw [Literal.inRange, Bool.and_eq_true, decide_eq_true_eq, decide_eq_true_eq]
      omega
    simp [State.inRange, Place.inRange, Expr.inRange, hs, hint]
  | bang =>
    simp only [operandStep] at h
    split at h <;> cases h
    simpa [State.inRange, stackOk_cons, Frame.inRange, Place.inRange] using hs
  | rparen =>
    simp only [operandStep] at h
    split at h <;> cases h <;>
      simpa [State.inRange, stackOk_cons, Frame.inRange, Place.inRange, Expr.inRange, and_comm] using hs
  | rbrack =>
    simp only [operandStep] at h
    split at h <;> cases h
    simpa [State.inRange, stackOk_cons, Frame.inRange, Place.inRange, Expr.inRange,
      and_comm] using hs
  | rbrace =>
    simp only [operandStep] at h
    split at h <;> cases h
    simpa [State.inRange, stackOk_cons, Frame.inRange, Place.inRange, Expr.inRange,
      and_comm] using hs
  | _ =>
    cases h
    try simpa [State.inRange, stackOk_cons, Frame.inRange, Place.inRange, Expr.inRange,
      Literal.inRange, inRangeAll] using hs

lemma signStep_inRange (hs : stackOk stack = true) (h : signStep stack t = some s) :
    s.inRange = true := by
  have hneg : stackOk (.neg :: stack) = true := hs
  unfold signStep at h
  split at h
  · split at h <;> cases h
    rename_i n _
    have hint : (Literal.int (-n)).inRange = true := by
      rw [Literal.inRange, Bool.and_eq_true, decide_eq_true_eq, decide_eq_true_eq]
      omega
    simp [State.inRange, Place.inRange, Expr.inRange, hs, hint]
  · cases h
    simpa [State.inRange, Place.inRange, Expr.inRange, Literal.inRange] using hs
  · split at h
    · cases h
    · exact operandStep_inRange hneg h

lemma step_inRange (hs : s.inRange = true) (h : s.step t = some s') : s'.inRange = true := by
  rw [State.inRange, Bool.and_eq_true] at hs
  unfold State.step at h
  split at h
  · exact operandStep_inRange hs.1 h
  · exact signStep_inRange hs.1 h
  · split at h <;> cases h
    simp_all [State.inRange, Place.inRange]
  · cases h
  · exact afterStep_inRange hs.1 hs.2 h
  · cases h
    simpa [State.inRange, stackOk_cons, Frame.inRange, Place.inRange, inRangeAll] using hs.1
  · exact afterStep_inRange hs.1 rfl h
  · cases h
    simp_all [State.inRange, stackOk_cons, Frame.inRange, Place.inRange, inRangeAll]
  · exact afterStep_inRange hs.1 (show (Expr.select _ _).inRange = true from hs.2) h

lemma steps_inRange {ts : List Token} (hs : s.inRange = true)
    (h : ts.foldlM State.step s = some s') : s'.inRange = true := by
  induction ts generalizing s with
  | nil =>
    cases h
    exact hs
  | cons t ts ih =>
    obtain ⟨s₁, h₁, h₂⟩ := Option.bind_eq_some_iff.mp h
    exact ih (step_inRange hs h₁) h₂

lemma value_inRange {p : Place} {e : Expr} (hp : p.inRange = true) (h : p.value = some e) :
    e.inRange = true := by
  cases p with
  | after e' =>
    cases h
    exact hp
  | named w =>
    cases h
    rfl
  | selected e' w =>
    cases h
    exact hp
  | _ => cases h

/-- A parsed expression selects only selectors and has only integers of 64 bits. -/
theorem parse_inRange {text : String} {e : Expr} (h : parse text = some e) : e.inRange = true := by
  obtain ⟨ts, -, h⟩ := Option.bind_eq_some_iff.mp h
  obtain ⟨s, hs, h⟩ := Option.bind_eq_some_iff.mp h
  obtain ⟨v, hv, h⟩ := Option.bind_eq_some_iff.mp h
  have hok := steps_inRange rfl hs
  rw [State.inRange, Bool.and_eq_true] at hok
  have hred := reduce_inRange 0 hok.1 (value_inRange hok.2 hv)
  split at h
  · rename_i heq
    cases h
    rw [heq] at hred
    exact hred.2
  · cases h

end Symkernel.Library.Cel
