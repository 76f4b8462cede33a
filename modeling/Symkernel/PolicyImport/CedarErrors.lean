import Symkernel.PolicyImport.CedarDecision

/-!
# Errors in translated Cedar policies
-/

namespace Symkernel.PolicyImport.Cedar

open Library Library.Cel Bool

/-- What a node must not evaluate to in CEL when it fails in Cedar: any value, or one of the
booleans. -/
inductive Avoid where
  | value
  | bool (b : Bool)
  deriving DecidableEq

def Avoid.not : Avoid → Avoid
  | .value => .value
  | .bool b => .bool (!b)

def Avoid.Kept : Avoid → Except Cel.Error (Cel.Value EntityUID) → Prop
  | .value, y => ∃ e, y = .error e
  | .bool b, y => y ≠ .ok (.bool b)

def celOrders : Value → Value → Bool
  | .string _, .string _ => true
  | .boolean _, .boolean _ => true
  | _, _ => false

def celAdds : Value → Value → Bool
  | .string _, .string _ => true
  | .set _, .set _ => true
  | _, _ => false

def Operator.overloaded (op : Operator) (v w : Value) : Bool :=
  match op with
  | .add => celAdds v w
  | .sub => false
  | .mult => false
  | _ => celOrders v w

namespace Request

variable (req : Request)

def valuesAt (left right : Node) (p : Value → Value → Bool) : Bool :=
  match req.eval left, req.eval right with
  | .ok v, .ok w => p v w
  | _, _ => true

def valueAt (n : Node) (p : Value → Bool) : Bool :=
  match req.eval n with
  | .ok v => p v
  | _ => true

end Request

def bothStrings : Value → Value → Bool
  | .string _, .string _ => true
  | _, _ => false

/-- A record with a field that is taken for the type of an entity. -/
def hasTypeField : Value → Bool
  | .record fields => (fields.lookup entityType).isSome
  | _ => false

section

variable (req : Request) (isPrint : Char → Bool)

mutual

/-- An error of the node in Cedar is not absorbed or turned into a value in CEL. -/
def closed : Avoid → Node → Bool
  | _, .value _ => true
  | _, .variable _ => true
  | _, .access arg attr => closed .value arg && agrees req isPrint arg && isAttribute attr
  | _, .has arg attr => closed .value arg && agrees req isPrint arg && isAttribute attr
  | a, .binary .and left right =>
    closed a left && agrees req isPrint left &&
      match req.truth left with
      | .ok true => closed a right && agrees req isPrint right
      | .ok false => true
      | .error _ => decide (a = .bool true) ||
        !isBool false (Cel.eval (req.host isPrint) (nodeTree isPrint right))
  | a, .binary .or left right =>
    closed a left && agrees req isPrint left &&
      match req.truth left with
      | .ok true => true
      | .ok false => closed a right && agrees req isPrint right
      | .error _ => decide (a = .bool false) ||
        !isBool true (Cel.eval (req.host isPrint) (nodeTree isPrint right))
  | _, .binary .equals left right => closed .value left && closed .value right
  | _, .binary .notEquals left right => closed .value left && closed .value right
  | _, .binary op left right =>
    closed .value left && agrees req isPrint left && closed .value right &&
      agrees req isPrint right && req.valuesAt left right (fun v w => !op.overloaded v w)
  | a, .not arg => closed a.not arg && agrees req isPrint arg
  | _, .negate arg => closed .value arg && agrees req isPrint arg
  | _, .isIn left right =>
    closed .value left && closed .value right &&
      req.valuesAt left right (fun v w => (req.member v w).toBool)
  | _, .method .contains left right =>
    closed .value left && agrees req isPrint left && closed .value right &&
      agrees req isPrint right && req.valuesAt left right (fun v w => !bothStrings v w)
  | _, .method _ _ _ => true
  | a, .ifThenElse c t e =>
    closed .value c && agrees req isPrint c &&
      match req.truth c with
      | .ok true => closed a t
      | .ok false => closed a e
      | .error _ => true
  | _, .set elements => closedAll elements
  | _, .record elements => closedFields elements
  | _, .is left _ =>
    closed .value left && agrees req isPrint left && req.valueAt left (fun v => !hasTypeField v)
  | _, _ => false

def closedAll : List Node → Bool
  | [] => true
  | n :: ns => closed .value n && closedAll ns

def closedFields : List (String × Node) → Bool
  | [] => true
  | (_, n) :: ns => closed .value n && closedFields ns

end

def Condition.avoid (c : Condition) : Avoid :=
  match c.kind with
  | .when => .bool true
  | .unless => .bool false

/-- The condition under which a policy that fails is not granted. -/
def failsClosed (p : Policy) : Bool :=
  faithful p && p.conditions.all (fun c =>
    match req.condition c with
    | .error _ => closed req isPrint c.avoid c.body && agrees req isPrint c.body
    | .ok _ => true)

end

def Avoid.Undecided : Avoid → Except Cel.Error (Cel.Value EntityUID) → Prop
  | .value, y => ∀ b, y ≠ .ok (.bool b)
  | .bool b, y => y ≠ .ok (.bool b)

variable {a : Avoid} {l r y : Except Cel.Error (Cel.Value EntityUID)}

lemma Avoid.kept_of_error (h : ∃ e, y = .error e) : a.Kept y := by
  cases a with
  | value => exact h
  | bool b =>
    obtain ⟨e, rfl⟩ := h
    exact nofun

lemma Avoid.Kept.undecided (h : a.Kept y) : a.Undecided y := by
  cases a with
  | value =>
    obtain ⟨e, rfl⟩ := h
    exact fun b => nofun
  | bool b => exact h

variable {g : Bool}

lemma decided_kept_left (hl : a.Undecided l) (hr : a = .bool g ∨ r ≠ .ok (.bool (!g))) :
    a.Kept (decided (!g) l r) := by
  cases a with
  | value =>
    have hright : r ≠ .ok (.bool (!g)) := hr.resolve_left nofun
    exact decided_error (hl (!g)) hright (.inl (hl (!!g)))
  | bool b =>
    by_cases hb : b = g
    · subst hb
      exact fun h => hl (decided_goes_iff.mp h).1
    · obtain rfl : b = !g := Bool.eq_not.mpr hb
      have hright : r ≠ .ok (.bool (!g)) := hr.resolve_left (by simp)
      exact fun h => (decided_self_iff.mp h).elim hl hright

lemma decided_kept_right (hl : l = .ok (.bool g)) (hr : a.Undecided r) :
    a.Kept (decided (!g) l r) := by
  have hleft : l ≠ .ok (.bool (!g)) := by simp [hl]
  cases a with
  | value => exact decided_error hleft (hr (!g)) (.inr (hr (!!g)))
  | bool b =>
    by_cases hb : b = g
    · subst hb
      exact fun h => hr (decided_goes_iff.mp h).2
    · obtain rfl : b = !g := Bool.eq_not.mpr hb
      exact fun h => (decided_self_iff.mp h).elim hleft hr

variable {req : Request} {isPrint : Char → Bool}

variable {e : EvalError}

lemma undecided_of_truth {n : Node} (hkept : ∀ e, req.eval n = .error e →
      a.Kept (Cel.eval (req.host isPrint) (nodeTree isPrint n)))
    (hagree : agrees req isPrint n = true) (h : req.truth n = .error e) :
    a.Undecided (Cel.eval (req.host isPrint) (nodeTree isPrint n)) := by
  obtain herr | ⟨v, hv, hnot⟩ := bind_eq_error.mp h
  · exact (hkept e herr).undecided
  · have hne : ∀ b, celValue v ≠ .bool b := by
      cases v with
      | boolean => cases hnot
      | _ => exact fun b => nofun
    rw [eval_agrees n v hagree hv]
    cases a with
    | value => exact fun b hb => hne b (Except.ok.inj hb)
    | bool b => exact fun hb => hne b (Except.ok.inj hb)

variable {v w : Value}

lemma ordered_error (holds : Ordering → Bool) (hlong : ¬ ∃ a b, v = .long a ∧ w = .long b)
    (hnone : celOrders v w = false) : ∃ e, (celValue v).ordered holds (celValue w) = .error e := by
  cases v <;> cases w <;> first | exact ⟨_, rfl⟩ | exact absurd ⟨_, _, rfl, rfl⟩ hlong | cases hnone

variable {h : Host EntityUID}

lemma add_error (hlong : ¬ ∃ a b, v = .long a ∧ w = .long b) (hnone : celAdds v w = false) :
    ∃ e, h.add (celValue v) (celValue w) = .error e := by
  cases v <;> cases w <;> first | exact ⟨_, rfl⟩ | exact absurd ⟨_, _, rfl, rfl⟩ hlong | cases hnone

lemma sub_error (hlong : ¬ ∃ a b, v = .long a ∧ w = .long b) :
    ∃ e, h.sub (celValue v) (celValue w) = .error e := by
  cases v <;> cases w <;> first | exact ⟨_, rfl⟩ | exact absurd ⟨_, _, rfl, rfl⟩ hlong

lemma mul_error (hlong : ¬ ∃ a b, v = .long a ∧ w = .long b) :
    ∃ e, h.mul (celValue v) (celValue w) = .error e := by
  cases v <;> cases w <;> first | exact ⟨_, rfl⟩ | exact absurd ⟨_, _, rfl, rfl⟩ hlong

lemma overload_error {h : Host EntityUID} {op : Operator} {v w : Value} {e : EvalError}
    (hop : op.isNumeric = true) (hnone : op.overloaded v w = false) (herr : (do
      let a ← asLong v
      let b ← asLong w
      op.onLongs a.val b.val) = Except.error e) :
    ∃ e', h.strict op.celOp (celValue v) (celValue w) = .error e' := by
  by_cases hlong : ∃ a b, v = .long a ∧ w = .long b
  · obtain ⟨a, b, rfl, rfl⟩ := hlong
    exact (same_onLongs hop a.val b.val).eval_error herr
  · cases op with
    | lessThan => exact ordered_error _ hlong hnone
    | lessThanOrEqual => exact ordered_error _ hlong hnone
    | greaterThan => exact ordered_error _ hlong hnone
    | greaterThanOrEqual => exact ordered_error _ hlong hnone
    | add => exact add_error hlong hnone
    | sub => exact sub_error hlong
    | mult => exact mul_error hlong
    | _ => cases hop

lemma absorbs_nothing (h : (decide (a = .bool g) || !isBool (!g) y) = true) :
    a = .bool g ∨ y ≠ .ok (.bool (!g)) := by
  rw [or_eq_true, decide_eq_true_eq, not_eq_true', ← not_eq_true, isBool_iff] at h
  exact h

/-! ### Expressions -/

lemma operand_error {arg : Node} {f : Value → Except EvalError Value}
    {g : Cel.Value EntityUID → Except Cel.Error (Cel.Value EntityUID)} {e : EvalError}
    (hkept : ∀ e, req.eval arg = .error e →
      ∃ e', Cel.eval (req.host isPrint) (nodeTree isPrint arg) = .error e')
    (hagree : agrees req isPrint arg = true)
    (hf : ∀ v, req.eval arg = .ok v → f v = .error e → ∃ e', g (celValue v) = .error e') (h : (do
      let v ← req.eval arg
      f v) = .error e) : ∃ e', (do
      let u ← Cel.eval (req.host isPrint) (nodeTree isPrint arg)
      g u) = .error e' := by
  obtain herr | ⟨v, hv, h⟩ := bind_eq_error.mp h
  · obtain ⟨e', he⟩ := hkept e herr
    exact ⟨e', by rw [he]; rfl⟩
  · rw [eval_agrees arg v hagree hv]
    exact hf v hv h

lemma operands_error {left right : Node} {f : Value → Value → Except EvalError Value} {e : EvalError}
    (hl : ∀ e, req.eval left = .error e →
      ∃ e', Cel.eval (req.host isPrint) (nodeTree isPrint left) = .error e')
    (hr : ∀ e, req.eval right = .error e →
      ∃ e', Cel.eval (req.host isPrint) (nodeTree isPrint right) = .error e') (h : (do
      let v ← req.eval left
      let w ← req.eval right
      f v w) = .error e) :
    ((∃ e', Cel.eval (req.host isPrint) (nodeTree isPrint left) = .error e') ∨
      ∃ e', Cel.eval (req.host isPrint) (nodeTree isPrint right) = .error e') ∨
    ∃ v w, req.eval left = .ok v ∧ req.eval right = .ok w ∧ f v w = .error e := by
  obtain herr | ⟨v, hv, h⟩ := bind_eq_error.mp h
  · exact .inl (.inl (hl e herr))
  · obtain herr | ⟨w, hw, h⟩ := bind_eq_error.mp h
    · exact .inl (.inr (hr e herr))
    · exact .inr ⟨v, w, hv, hw, h⟩

lemma logical_kept {op : Operator} {left right : Node} (hop : op.goesOn = some g)
    (hl : ∀ e, req.truth left = .error e →
      a.Undecided (Cel.eval (req.host isPrint) (nodeTree isPrint left)) ∧
        (a = .bool g ∨ Cel.eval (req.host isPrint) (nodeTree isPrint right) ≠ .ok (.bool (!g))))
    (hr : req.truth left = .ok g →
      Cel.eval (req.host isPrint) (nodeTree isPrint left) = .ok (.bool g) ∧
        ∀ e, req.truth right = .error e →
          a.Undecided (Cel.eval (req.host isPrint) (nodeTree isPrint right)))
    (h : req.eval (.binary op left right) = .error e) :
    a.Kept (Cel.eval (req.host isPrint) (nodeTree isPrint (.binary op left right))) := by
  rw [Request.eval_logical hop] at h
  rw [eval_logicalTree hop]
  obtain herr | ⟨b, hb, h⟩ := bind_eq_error.mp h
  · obtain ⟨hund, habsorbs⟩ := hl e herr
    exact decided_kept_left hund habsorbs
  · split_ifs at h with hg
    · obtain herr | ⟨c, -, h⟩ := bind_eq_error.mp h
      · rw [hg] at hb
        obtain ⟨hleft, hright⟩ := hr hb
        exact decided_kept_right hleft (hright e herr)
      · cases h

lemma in_error {left right : Node}
    (herr : (∃ e, Cel.eval (req.host isPrint) (nodeTree isPrint left) = .error e) ∨
      ∃ e, Cel.eval (req.host isPrint) (nodeTree isPrint right) = .error e) :
    ∃ e, Cel.eval (req.host isPrint) (nodeTree isPrint (.isIn left right)) = .error e := by
  have hequal : ∃ e, Cel.eval (req.host isPrint)
      (.bin .eq (nodeTree isPrint left) (nodeTree isPrint right)) = .error e :=
    eval_strict_error rfl herr
  have hin : ∃ e, Cel.eval (req.host isPrint) (.bin .isIn (nodeTree isPrint left)
      (.select (nodeTree isPrint right) ancestors)) = .error e := by
    refine eval_strict_error rfl (herr.imp_right ?_)
    rintro ⟨e, he⟩
    exact ⟨e, by rw [Cel.eval, he]; rfl⟩
  obtain ⟨e, hequal⟩ := hequal
  obtain ⟨e', hin⟩ := hin
  rw [nodeTree, Cel.eval, hequal, hin]
  exact decided_error nofun nofun (.inl nofun)

lemma not_kept {x : Expr} (h : a.not.Undecided (Cel.eval (req.host isPrint) x)) :
    a.Kept (Cel.eval (req.host isPrint) (.not x)) := by
  cases a with
  | value =>
    rw [Cel.eval]
    cases hx : Cel.eval (req.host isPrint) x with
    | error e => exact ⟨e, rfl⟩
    | ok v =>
      rw [hx] at h
      cases v with
      | bool b => exact absurd rfl (h b)
      | _ => exact ⟨_, rfl⟩
  | bool b => exact fun hb => h (eval_not_iff.mp hb)

lemma negate_error {v : Value} {e : EvalError} (h : (do
      let n ← asLong v
      long (-n.val)) = Except.error e) : ∃ e', (celValue v).neg = .error e' := by
  cases v with
  | long n => exact (same_long (-n.val)).eval_error h
  | _ => exact ⟨_, rfl⟩

lemma is_error (hentity : ∀ e, v ≠ .entityUID e) (htype : hasTypeField v = false) :
    ∃ e, (req.host isPrint).select (celValue v) entityType = .error e := by
  cases v with
  | entityUID e => exact absurd rfl (hentity e)
  | record fields =>
    rw [hasTypeField, Option.isSome_eq_false_iff, Option.isNone_iff_eq_none] at htype
    refine ⟨.noSuchField entityType, ?_⟩
    simp [Host.select, Host.field?, celValue, lookup_celFields, htype, bind, Except.bind]
  | _ => exact ⟨_, rfl⟩

lemma method_error {l r : Expr} {fn : String}
    (h : ∀ v w, Cel.eval (req.host isPrint) l = .ok v → Cel.eval (req.host isPrint) r = .ok w →
      ∃ e, v.method fn [w] = .error e) :
    ∃ e, Cel.eval (req.host isPrint) (.method l fn [r]) = .error e := by
  rw [Cel.eval]
  cases hl : Cel.eval (req.host isPrint) l with
  | error e => exact ⟨e, rfl⟩
  | ok v =>
    cases hr : Cel.eval (req.host isPrint) r with
    | error e => exact ⟨e, by rw [Cel.evalAll, hr]; rfl⟩
    | ok w =>
      obtain ⟨e, he⟩ := h v w hl hr
      exact ⟨e, by rw [Cel.evalAll, Cel.evalAll, hr]; exact he⟩

lemma method_unknown {fn : String} (hfn : fn ≠ "contains") (v w : Cel.Value EntityUID) :
    ∃ e, v.method fn [w] = .error e := by
  unfold Cel.Value.method
  split
  · exact ⟨_, if_neg hfn⟩
  · exact ⟨_, rfl⟩

lemma contains_error (h : Method.contains.apply v w = .error e)
    (hstrings : bothStrings v w = false) :
    ∃ e', (celValue v).method "contains" [celValue w] = .error e' := by
  cases v with
  | set => cases h
  | string =>
    cases w with
    | string => cases hstrings
    | _ => exact ⟨_, rfl⟩
  | _ => exact ⟨_, rfl⟩

mutual

/-- A node that is `closed` and fails in Cedar does not evaluate to what is to be avoided. -/
theorem closed_kept : ∀ (n : Node) (a : Avoid) (e : EvalError), closed req isPrint a n = true →
    req.eval n = .error e → a.Kept (Cel.eval (req.host isPrint) (nodeTree isPrint n))
  | .value v, a, e, _, h => by cases h
  | .variable x, a, e, _, h => by cases h
  | .access arg attr, a, e, hok, h => by
    rw [closed, Bool.and_eq_true, Bool.and_eq_true] at hok
    apply Avoid.kept_of_error
    exact operand_error (fun e => closed_kept arg .value e hok.1.1) hok.1.2
      (fun v _ => (same_access hok.2 v).eval_error) h
  | .has arg attr, a, e, hok, h => by
    rw [closed, Bool.and_eq_true, Bool.and_eq_true] at hok
    apply Avoid.kept_of_error
    exact operand_error (fun e => closed_kept arg .value e hok.1.1) hok.1.2
      (fun v _ => (same_has hok.2 v).eval_error) h
  | .binary op left right, a, e, hok, h => by
    cases op with
    | and | or =>
      rw [closed, Bool.and_eq_true, Bool.and_eq_true] at hok
      refine logical_kept rfl (fun e herr => ?_) (fun hg => ?_) h
      · rw [herr] at hok
        exact ⟨undecided_of_truth (fun e => closed_kept left a e hok.1.1) hok.1.2 herr,
          absorbs_nothing hok.2⟩
      · rw [hg, Bool.and_eq_true] at hok
        exact ⟨eval_agrees left _ hok.1.2 (Request.truth_eq_ok.mp hg),
          fun e => undecided_of_truth (fun e => closed_kept right a e hok.2.1) hok.2.2⟩
    | equals | notEquals =>
      rw [closed, Bool.and_eq_true] at hok
      apply Avoid.kept_of_error
      obtain herr | ⟨v, w, -, -, h⟩ := operands_error (fun e => closed_kept left .value e hok.1)
        (fun e => closed_kept right .value e hok.2) h
      · exact eval_strict_error rfl herr
      · cases h
    | _ =>
      rw [closed, Bool.and_eq_true, Bool.and_eq_true, Bool.and_eq_true, Bool.and_eq_true] at hok
      · apply Avoid.kept_of_error
        obtain herr | ⟨v, w, hv, hw, h⟩ := operands_error
          (fun e => closed_kept left .value e hok.1.1.1.1)
          (fun e => closed_kept right .value e hok.1.1.2) h
        · exact eval_strict_error rfl herr
        · rw [Request.valuesAt, hv, hw, Bool.not_eq_true'] at hok
          rw [nodeTree, eval_strict_ok rfl (eval_agrees left v hok.1.1.1.2 hv)
            (eval_agrees right w hok.1.2 hw)]
          exact overload_error rfl hok.2 h
      all_goals exact fun hne => by cases hne
  | .not arg, a, e, hok, h => by
    rw [closed, Bool.and_eq_true] at hok
    rw [Request.eval_not] at h
    obtain herr | ⟨b, -, h⟩ := bind_eq_error.mp h
    · exact not_kept (undecided_of_truth (fun e => closed_kept arg a.not e hok.1) hok.2 herr)
    · cases h
  | .negate arg, a, e, hok, h => by
    rw [closed, Bool.and_eq_true] at hok
    apply Avoid.kept_of_error
    exact operand_error (fun e => closed_kept arg .value e hok.1) hok.2 (fun _ _ => negate_error) h
  | .isIn left right, a, e, hok, h => by
    rw [closed, Bool.and_eq_true, Bool.and_eq_true] at hok
    apply Avoid.kept_of_error
    obtain herr | ⟨v, w, hv, hw, h⟩ := operands_error (fun e => closed_kept left .value e hok.1.1)
      (fun e => closed_kept right .value e hok.1.2) h
    · exact in_error herr
    · rw [Request.valuesAt, hv, hw] at hok
      have hmember : (req.member v w).toBool = true := hok.2
      rw [h] at hmember
      cases hmember
  | .method m left right, a, e, hok, h => by
    apply Avoid.kept_of_error
    cases m with
    | contains =>
      rw [closed, Bool.and_eq_true, Bool.and_eq_true, Bool.and_eq_true, Bool.and_eq_true] at hok
      apply method_error
      intro x y hx hy
      obtain (⟨_, herr⟩ | ⟨_, herr⟩) | ⟨v, w, hv, hw, h⟩ := operands_error
        (fun e => closed_kept left .value e hok.1.1.1.1)
        (fun e => closed_kept right .value e hok.1.1.2) h
      · rw [hx] at herr
        cases herr
      · rw [hy] at herr
        cases herr
      · rw [Request.valuesAt, hv, hw, Bool.not_eq_true'] at hok
        rw [eval_agrees left v hok.1.1.1.2 hv] at hx
        rw [eval_agrees right w hok.1.2 hw] at hy
        cases hx
        cases hy
        exact contains_error h hok.2
    | containsAll => exact method_error (fun v w _ _ => method_unknown (by decide) v w)
    | containsAny => exact method_error (fun v w _ _ => method_unknown (by decide) v w)
  | .ifThenElse c t f, a, e, hok, h => by
    rw [closed, Bool.and_eq_true, Bool.and_eq_true] at hok
    rw [Request.eval_ifThenElse] at h
    rw [nodeTree, Cel.eval]
    obtain herr | ⟨b, hb, h⟩ := bind_eq_error.mp h
    · have hund := undecided_of_truth (fun e => closed_kept c .value e hok.1.1) hok.1.2 herr
      apply Avoid.kept_of_error
      cases hc : Cel.eval (req.host isPrint) (nodeTree isPrint c) with
      | error e' => exact ⟨e', rfl⟩
      | ok v =>
        rw [hc] at hund
        cases v with
        | bool b => exact absurd rfl (hund b)
        | _ => exact ⟨_, rfl⟩
    · rw [eval_agrees c _ hok.1.2 (Request.truth_eq_ok.mp hb)]
      rw [hb] at hok
      cases b with
      | true => exact closed_kept t a e hok.2 h
      | false => exact closed_kept f a e hok.2 h
  | .set elements, a, e, hok, h => by
    rw [nodeTree, Cel.eval]
    apply Avoid.kept_of_error
    obtain herr | ⟨vs, -, h⟩ := bind_eq_error.mp h
    · obtain ⟨e', he⟩ := closedAll_error elements e hok herr
      exact ⟨e', by rw [he]; rfl⟩
    · cases h
  | .record elements, a, e, hok, h => by
    have hkeys : elements.map (fun f => Expr.lit (.string f.1)) =
        (elements.map Prod.fst).map (fun f => .lit (.string f)) := by
      rw [List.map_map]
      rfl
    rw [nodeTree, hkeys, Cel.eval, evalAll_strings]
    apply Avoid.kept_of_error
    obtain herr | ⟨fields, -, h⟩ := bind_eq_error.mp h
    · obtain ⟨e', he⟩ := closedFields_error elements e hok herr
      exact ⟨e', by rw [he]; rfl⟩
    · cases h
  | .is left type, a, e, hok, h => by
    rw [closed, and_eq_true, and_eq_true] at hok
    apply Avoid.kept_of_error
    refine eval_strict_error rfl (.inl ?_)
    refine operand_error (fun e => closed_kept left .value e hok.1.1) hok.1.2 (fun v hv h => ?_) h
    rw [Request.valueAt, hv, not_eq_true'] at hok
    refine is_error (fun e' hentity => ?_) hok.2
    rw [hentity] at h
    cases h
  | .like, a, e, hok, _ => by cases hok
  | .isInType, a, e, hok, _ => by cases hok
  | .tag, a, e, hok, _ => by cases hok
  | .isEmpty, a, e, hok, _ => by cases hok
  | .extensionCall _, a, e, hok, _ => by cases hok
  | .other _, a, e, hok, _ => by cases hok

lemma closedAll_error : ∀ (ns : List Node) (e : EvalError), closedAll req isPrint ns = true →
    req.evalAll ns = .error e →
    ∃ e', Cel.evalAll (req.host isPrint) (nodeTrees isPrint ns) = .error e'
  | [], e, _, h => by cases h
  | n :: ns, e, hok, h => by
    rw [closedAll, Bool.and_eq_true] at hok
    apply evalAll_error
    obtain herr | ⟨v, -, h⟩ := bind_eq_error.mp h
    · exact .inl (closed_kept n .value e hok.1 herr)
    · obtain herr | ⟨vs, -, h⟩ := bind_eq_error.mp h
      · exact .inr (closedAll_error ns e hok.2 herr)
      · cases h

lemma closedFields_error : ∀ (ns : List (String × Node)) (e : EvalError),
    closedFields req isPrint ns = true → req.evalFields ns = .error e →
    ∃ e', Cel.evalAll (req.host isPrint) (nodeFieldTrees isPrint ns) = .error e'
  | [], e, _, h => by cases h
  | (f, n) :: ns, e, hok, h => by
    rw [closedFields, Bool.and_eq_true] at hok
    apply evalAll_error
    obtain herr | ⟨v, -, h⟩ := bind_eq_error.mp h
    · exact .inl (closed_kept n .value e hok.1 herr)
    · obtain herr | ⟨vs, -, h⟩ := bind_eq_error.mp h
      · exact .inr (closedFields_error ns e hok.2 herr)
      · cases h

end

/-! ### Policies -/

lemma exists_failing {cs : List Condition} (h : req.conditions cs = .error e) :
    ∃ c ∈ cs, req.condition c = .error e := by
  induction cs with
  | nil => cases h
  | cons c cs ih =>
    obtain herr | ⟨b, -, h⟩ := bind_eq_error.mp h
    · exact ⟨c, List.mem_cons_self, herr⟩
    · cases b with
      | false => cases h
      | true =>
        obtain ⟨c', hc, herr⟩ := ih h
        exact ⟨c', List.mem_cons_of_mem c hc, herr⟩

lemma conditionTree_not_true {c : Condition} (hclosed : closed req isPrint c.avoid c.body = true)
    (hagree : agrees req isPrint c.body = true) (h : req.condition c = .error e) :
    Cel.eval (req.host isPrint) (conditionTree isPrint c) ≠ .ok (.bool true) := by
  have htruth : req.truth c.body = .error e := by
    obtain herr | ⟨b, -, h⟩ := bind_eq_error.mp h
    · exact herr
    · obtain ⟨kind, body⟩ := c
      cases kind <;> cases h
  have hund := undecided_of_truth (fun e => closed_kept c.body c.avoid e hclosed) hagree htruth
  obtain ⟨kind, body⟩ := c
  cases kind
  · exact hund
  · exact fun htrue => hund (eval_not_iff.mp htrue)

/-- `permit (principal, action, resource) unless { context.banned }`. -/
def bannedPolicy : Policy :=
  { effect := .permit, principal := .all, action := .all, resource := .all
    conditions := [⟨.unless, .access (.variable .context) "banned"⟩] }

def emptyRequest : Request :=
  { principal := ⟨"User", "ann"⟩, action := ⟨"Action", "read"⟩, resource := ⟨"File", "f"⟩
    context := [], entities := [] }

/-- `permit (principal, action, resource) when { context.banned || true }`. -/
def absorbingPolicy : Policy :=
  { bannedPolicy with conditions := [⟨.when, .binary .or (.access (.variable .context) "banned")
      (.value (.boolean true))⟩] }

end Symkernel.PolicyImport.Cedar
