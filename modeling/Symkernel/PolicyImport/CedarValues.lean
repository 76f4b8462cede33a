import Symkernel.PolicyImport.CedarMeaning

/-!
# Cedar values in CEL
-/

namespace Symkernel.PolicyImport.Cedar

open Library Library.Cel

/-- Both give the same value, or both fail. -/
inductive Same : Except EvalError Value → Except Cel.Error (Cel.Value EntityUID) → Prop where
  | ok (v : Value) : Same (.ok v) (.ok (celValue v))
  | error (e : EvalError) (e' : Cel.Error) : Same (.error e) (.error e')

variable {y : Except Cel.Error (Cel.Value EntityUID)}

lemma Same.eval_ok {x : Except EvalError Value} (h : Same x y) {v : Value} (hv : x = .ok v) :
    y = .ok (celValue v) := by
  cases h with
  | ok w =>
    cases hv
    rfl
  | error => cases hv

lemma Same.eval_error {x : Except EvalError Value} (h : Same x y) {e : EvalError}
    (he : x = .error e) : ∃ e', y = .error e' := by
  cases h with
  | ok => cases he
  | error _ e' => exact ⟨e', rfl⟩

lemma lookup_celFields (fields : List (String × Value)) (f : String) :
    (celFields fields).lookup f = (fields.lookup f).map celValue := by
  induction fields with
  | nil => rfl
  | cons field fields ih =>
    obtain ⟨k, v⟩ := field
    rw [celFields, List.lookup_cons, List.lookup_cons, ih]
    cases f == k <;> rfl

lemma length_celFields (fields : List (String × Value)) :
    (celFields fields).length = fields.length := by
  induction fields with
  | nil => rfl
  | cons field fields ih => simp [celFields, ih]

def isAttribute (f : String) : Bool :=
  f != ancestors && f != entityType

section

variable {isPrint : Char → Bool} {req : Request}

lemma field_celValue {f : String} (hf : isAttribute f = true) (v : Value) :
    (req.host isPrint).field? (celValue v) f =
      match req.attributes v with
      | .error _ => .error .noSuchOverload
      | .ok fields => .ok ((fields.bind (·.lookup f)).map celValue) := by
  rw [isAttribute, Bool.and_eq_true, bne_iff_ne, bne_iff_ne] at hf
  cases v with
  | record fields => simp [celValue, Host.field?, Request.attributes, lookup_celFields]
  | entityUID e =>
    simp only [celValue, Host.field?, Request.attributes, Request.host, Request.celField, if_neg hf.1,
      if_neg hf.2]
    cases req.entities.lookup e with
    | none => rfl
    | some entity => cases h : entity.attributes.lookup f <;> simp [h]
  | _ => rfl

lemma same_access {f : String} (hf : isAttribute f = true) (v : Value) :
    Same (req.access v f) ((req.host isPrint).select (celValue v) f) := by
  rw [Host.select, field_celValue hf, Request.access]
  cases req.attributes v with
  | error e => exact .error ..
  | ok fields =>
    cases fields with
    | none => exact .error ..
    | some fields =>
      cases h : fields.lookup f with
      | none => simpa [bind, Except.bind, h] using Same.error ..
      | some w => simpa [bind, Except.bind, h] using Same.ok w

lemma same_has {f : String} (hf : isAttribute f = true) (v : Value) :
    Same (req.has v f) ((req.host isPrint).has (celValue v) f) := by
  rw [Host.has, field_celValue hf, Request.has]
  cases req.attributes v with
  | error e => exact .error ..
  | ok fields =>
    cases fields with
    | none => exact .ok (.boolean false)
    | some fields =>
      have hok := Same.ok (.boolean (fields.lookup f).isSome)
      simpa [bind, Except.bind, celValue] using hok

end

lemma same_long (n : Int) : Same (long n) (int64 n) := by
  unfold long int64
  split
  · exact .ok _
  · exact .error ..

lemma same_ordered {holds : Ordering → Bool} {p : Prop} [Decidable p] {a b : Int}
    (hp : holds (compare (a : Rat) b) = true ↔ p) :
    Same (.ok (.boolean (decide p))) ((Cel.Value.int a).ordered holds (.int b)) := by
  have hsame : decide p = holds (compare (a : Rat) b) := by
    rw [Bool.eq_iff_iff, decide_eq_true_eq]
    exact hp.symm
  rw [hsame]
  exact .ok _

lemma same_onLongs {h : Host EntityUID} {op : Operator} (hop : op.isNumeric = true) (a b : Int) :
    Same (op.onLongs a b) (h.strict op.celOp (.int a) (.int b)) := by
  cases op with
  | lessThan => exact same_ordered (by rw [Ordering.isLT_iff_eq_lt, compare_lt_iff_lt, Int.cast_lt])
  | lessThanOrEqual =>
    exact same_ordered (by rw [Ordering.isLE_iff_ne_gt, ← ne_eq, compare_le_iff_le, Int.cast_le])
  | greaterThan =>
    exact same_ordered (by rw [Ordering.isGT_iff_eq_gt, compare_gt_iff_gt, Int.cast_lt])
  | greaterThanOrEqual =>
    exact same_ordered (by rw [Ordering.isGE_iff_ne_lt, ← ne_eq, compare_ge_iff_ge, Int.cast_le])
  | add => exact same_long _
  | sub => exact same_long _
  | mult => exact same_long _
  | and => cases hop
  | or => cases hop
  | equals => cases hop
  | notEquals => cases hop

lemma isLogical_celOp {op : Operator} (hop : op.isNumeric = true) : op.celOp.isLogical = false := by
  cases op <;> first | rfl | cases hop

lemma uidText_inj {isPrint : Char → Bool} {e e' : EntityUID}
    (h : uidText isPrint e = uidText isPrint e') : e = e' := by
  rw [uidText, uidText, ← goQuoteBytes_utf8, ← goQuoteBytes_utf8] at h
  obtain ⟨htype, hid⟩ := name_quoted_inj h
  rw [Array.toList_inj, ← ByteArray.ext_iff, String.toByteArray_inj] at hid
  obtain ⟨t, i⟩ := e
  obtain ⟨t', i'⟩ := e'
  rw [EntityUID.mk.injEq]
  exact ⟨htype, hid⟩

section

variable (isPrint : Char → Bool)

mutual

/-- Values whose equality is the same in CEL: an entity is not compared with its own text, and
a set with a set only if one of them is empty. -/
def comparable : Value → Value → Bool
  | .set as, .set bs => as.isEmpty || bs.isEmpty
  | .record as, .record bs => comparableFields as bs
  | .entityUID e, .string s => uidText isPrint e != s
  | .string s, .entityUID e => s != uidText isPrint e
  | _, _ => true

def comparableFields : List (String × Value) → List (String × Value) → Bool
  | [], _ => true
  | (f, a) :: as, bs => (bs.lookup f).all (fun b => comparable a b) && comparableFields as bs

end

end

variable {isPrint : Char → Bool}

lemma sameAtom_object {v : Value} {e : EntityUID} (h : comparable isPrint (.entityUID e) v = true) :
    sameAtom (uidText isPrint) (.object e) (celValue v) = (Value.entityUID e).equal v := by
  cases v with
  | entityUID e' =>
    have hiff : uidText isPrint e = uidText isPrint e' ↔ e = e' := ⟨uidText_inj, fun h => by rw [h]⟩
    simp [sameAtom, Cel.Value.atom?, celValue, Value.equal, hiff]
  | string s =>
    rw [comparable, bne_iff_ne] at h
    simp [sameAtom, Cel.Value.atom?, celValue, Value.equal, h]
  | _ => rfl

mutual

lemma equal_celValue : ∀ (v w : Value), comparable isPrint v w = true →
    (celValue v).equal (uidText isPrint) (celValue w) = v.equal w
  | .boolean a, w, _ => by
    cases w with
    | boolean b => cases a <;> cases b <;> rfl
    | _ => rfl
  | .long a, w, _ => by
    cases w with
    | long b =>
      have hiff : a.val = b.val ↔ a = b := by
        obtain ⟨a, _, _⟩ := a
        obtain ⟨b, _, _⟩ := b
        rw [Long.mk.injEq]
      simp [celValue, Cel.Value.equal, Value.equal, sameAtom, Cel.Value.atom?, hiff]
    | _ => rfl
  | .string a, w, h => by
    cases w with
    | string b => simp [celValue, Value.equal]
    | entityUID e =>
      rw [comparable, bne_iff_ne] at h
      simp [celValue, Cel.Value.equal, Value.equal, sameAtom, Cel.Value.atom?, h]
    | _ => rfl
  | .entityUID e, w, h => by
    rw [← sameAtom_object h]
    cases w <;> rfl
  | .other a, w, _ => by
    cases w with
    | other b => simp [celValue, Cel.Value.equal, Value.equal, sameAtom, Cel.Value.atom?]
    | _ => rfl
  | .set as, w, h => by
    cases w with
    | set bs =>
      rw [comparable, Bool.or_eq_true, List.isEmpty_iff, List.isEmpty_iff] at h
      obtain rfl | rfl := h
      · cases bs <;> rfl
      · cases as <;> simp [celValue, celValues, Cel.Value.equal, Cel.equalAll, Value.equal, Value.allIn]
    | _ => rfl
  | .record as, w, h => by
    cases w with
    | record bs =>
      have hfields := fieldsIn_celFields as bs h
      simp only [celValue, Cel.Value.equal, Value.equal, length_celFields, hfields]
    | _ => rfl

lemma fieldsIn_celFields : ∀ (as bs : List (String × Value)), comparableFields isPrint as bs = true →
    Cel.fieldsIn (uidText isPrint) (celFields as) (celFields bs) = Value.fieldsIn as bs
  | [], _, _ => rfl
  | (f, a) :: as, bs, h => by
    rw [comparableFields, Bool.and_eq_true] at h
    have hrest := fieldsIn_celFields as bs h.2
    rw [celFields, Cel.fieldsIn, Value.fieldsIn, lookup_celFields, hrest]
    cases hb : bs.lookup f with
    | none => rfl
    | some b =>
      rw [hb] at h
      simp [equal_celValue a b h.1]

end

/-- What a value is in CEL; the literal of an entity is a string. -/
def Shows (isPrint : Char → Bool) (v : Value) (u : Cel.Value EntityUID) : Prop :=
  u = celValue v ∨ ∃ e, v = .entityUID e ∧ u = .string (uidText isPrint e)

lemma equal_of_shows {v w : Value} {a b : Cel.Value EntityUID} (hv : Shows isPrint v a)
    (hw : Shows isPrint w b) (hc : comparable isPrint v w = true) :
    a.equal (uidText isPrint) b = v.equal w := by
  have hleft : a.equal (uidText isPrint) b = (celValue v).equal (uidText isPrint) b := by
    obtain rfl | ⟨e, rfl, rfl⟩ := hv
    · rfl
    · exact equal_text_left _ e b
  have hright : (celValue v).equal (uidText isPrint) b =
      (celValue v).equal (uidText isPrint) (celValue w) := by
    obtain rfl | ⟨e, rfl, rfl⟩ := hw
    · rfl
    · exact equal_text_right _ e _
  rw [hleft, hright, equal_celValue v w hc]

end Symkernel.PolicyImport.Cedar
