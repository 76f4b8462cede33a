import Symkernel.Library.SortedList
import Symkernel.PolicyImport.RegoMeaning

/-!
# Rego values in CEL

A number of a rule is an integer or a double in CEL, a number of the document always a double.
-/

namespace Symkernel.PolicyImport.Rego

open Library

section

variable (rounding : Cel.Rounding)

mutual

/-- What a value without sets can be in CEL. -/
def Stands : Value → Cel.Value Empty → Prop
  | .null, u => u = .null
  | .bool b, u => u = .bool b
  | .number q, u => u.number? = some (rounding.round q)
  | .string s, u => u = .string s
  | .array vs, .list us => StandsAll vs us
  | .object fs, .map gs => StandsFields fs gs
  | _, _ => False

def StandsAll : List Value → List (Cel.Value Empty) → Prop
  | [], [] => True
  | v :: vs, u :: us => Stands v u ∧ StandsAll vs us
  | _, _ => False

def StandsFields : List (String × Value) → List (String × Cel.Value Empty) → Prop
  | [], [] => True
  | (f, v) :: fs, (g, u) :: gs => f = g ∧ Stands v u ∧ StandsFields fs gs
  | _, _ => False

end

end

mutual

def Value.numbers : Value → List Rat
  | .number q => [q]
  | .array elements => Value.numbersAll elements
  | .object fields => Value.numbersFields fields
  | .set elements => Value.numbersAll elements
  | _ => []

def Value.numbersAll : List Value → List Rat
  | [] => []
  | v :: vs => v.numbers ++ Value.numbersAll vs

def Value.numbersFields : List (String × Value) → List Rat
  | [] => []
  | (_, v) :: fs => v.numbers ++ Value.numbersFields fs

end

/-- No two of the numbers are rounded to one double. -/
def Apart (rounding : Cel.Rounding) (numbers : List Rat) : Prop :=
  ∀ x ∈ numbers, ∀ y ∈ numbers, rounding.round x = rounding.round y → x = y

/-- A value without sets, with its fields in order, whose numbers are among the given ones. -/
structure Value.Within (numbers : List Rat) (v : Value) : Prop where
  json : v.isJson = true
  among : v.numbers ⊆ numbers

variable {rounding : Cel.Rounding} {numbers : List Rat}

lemma Apart.lt_iff (h : Apart rounding numbers) {x y : Rat} (hx : x ∈ numbers) (hy : y ∈ numbers) :
    rounding.round x < rounding.round y ↔ x < y := by
  constructor
  · intro hlt
    by_contra hle
    exact absurd (rounding.mono (not_lt.mp hle)) (not_le.mpr hlt)
  · intro hlt
    exact lt_of_le_of_ne (rounding.mono hlt.le) (fun heq => hlt.ne (h x hx y hy heq))

lemma Apart.compare_eq (h : Apart rounding numbers) {x y : Rat} (hx : x ∈ numbers)
    (hy : y ∈ numbers) : compare (rounding.round x) (rounding.round y) = compare x y := by
  obtain hlt | heq | hgt := lt_trichotomy x y
  · rw [compare_lt_iff_lt.mpr hlt, compare_lt_iff_lt, h.lt_iff hx hy]
    exact hlt
  · rw [heq, compare_eq_iff_eq.mpr rfl, compare_eq_iff_eq.mpr rfl]
  · rw [compare_gt_iff_gt.mpr hgt, compare_gt_iff_gt, h.lt_iff hy hx]
    exact hgt

def Value.atom? (f : Rat → Rat) : Value → Option Cel.Atom
  | .null => some .null
  | .bool b => some (.bool b)
  | .number q => some (.number (f q))
  | .string s => some (.text s)
  | _ => none

variable {v w : Value} {a b : Cel.Value Empty}

lemma Stands.atom (h : Stands rounding v a) : a.atom? Empty.elim = v.atom? rounding.round := by
  cases v with
  | null => cases h; rfl
  | bool => cases h; rfl
  | string => cases h; rfl
  | number q => cases a <;> simp_all [Stands, Cel.Value.number?, Cel.Value.atom?, Value.atom?]
  | array => cases a <;> first | rfl | cases h
  | object => cases a <;> first | rfl | cases h
  | set => cases a <;> cases h

lemma compare_eq_iff_atom (h : v.atom? id ≠ none ∨ w.atom? id ≠ none) :
    v.compare w = .eq ↔ v.atom? id = w.atom? id := by
  cases v <;> cases w <;> simp [Value.compare, Value.atom?, Value.rank] at h ⊢

lemma scalar_equal_iff (hapart : Apart rounding numbers) (ha : Stands rounding v a)
    (hb : Stands rounding w b) (hv : v.numbers ⊆ numbers) (hw : w.numbers ⊆ numbers)
    (h : v.atom? id ≠ none ∨ w.atom? id ≠ none) :
    a.equal Empty.elim b = true ↔ v.compare w = .eq := by
  have hscalar : a.atom? Empty.elim ≠ none ∨ b.atom? Empty.elim ≠ none := by
    rw [ha.atom, hb.atom]
    revert h
    cases v <;> cases w <;> simp [Value.atom?]
  rw [Cel.equal_iff_atom hscalar, ha.atom, hb.atom, compare_eq_iff_atom h]
  cases v with
  | number x =>
    cases w with
    | number y =>
      have hiff : rounding.round x = rounding.round y ↔ x = y :=
        ⟨hapart x (hv (by simp [Value.numbers])) y (hw (by simp [Value.numbers])),
          fun heq => by rw [heq]⟩
      simp [Value.atom?, hiff]
    | _ => simp [Value.atom?]
  | _ => cases w <;> simp [Value.atom?]

lemma StandsFields.names : ∀ {fs : List (String × Value)} {gs : List (String × Cel.Value Empty)},
    StandsFields rounding fs gs → gs.map Prod.fst = fs.map Prod.fst
  | [], [], _ => rfl
  | (f, v) :: fs, (g, u) :: gs, h => by
    rw [List.map_cons, List.map_cons, StandsFields.names h.2.2, h.1]

lemma Stands.of_array {vs : List Value} (h : Stands rounding (.array vs) a) :
    ∃ us, a = .list us ∧ StandsAll rounding vs us := by
  cases a with
  | list us => exact ⟨us, rfl, h⟩
  | _ => cases h

lemma Stands.of_object {fs : List (String × Value)} (h : Stands rounding (.object fs) a) :
    ∃ gs, a = .map gs ∧ StandsFields rounding fs gs := by
  cases a with
  | map gs => exact ⟨gs, rfl, h⟩
  | _ => cases h

lemma Value.Within.of_object {fs : List (String × Value)} (h : (Value.object fs).Within numbers) :
    (fs.map Prod.fst).Pairwise (· < ·) ∧ Value.isJsonFields fs = true := by
  have hjson := h.json
  rwa [Value.isJson, Bool.and_eq_true, decide_eq_true_eq] at hjson

mutual

/-- Values that stand for values without sets are equal in CEL just if they are in Rego. -/
theorem equal_iff (hapart : Apart rounding numbers) : ∀ (v w : Value) (a b : Cel.Value Empty),
    Stands rounding v a → Stands rounding w b → v.Within numbers → w.Within numbers →
    (a.equal Empty.elim b = true ↔ v.compare w = .eq)
  | .array vs, w, a, b, ha, hb, hv, hw => by
    cases w with
    | array ws =>
      obtain ⟨us, rfl, hus⟩ := ha.of_array
      obtain ⟨ts, rfl, hts⟩ := hb.of_array
      exact equalAll_iff hapart vs ws us ts hus hts hv.json hw.json hv.among hw.among
    | object gs =>
      obtain ⟨us, rfl, -⟩ := ha.of_array
      obtain ⟨bs, rfl, -⟩ := hb.of_object
      exact iff_of_false nofun nofun
    | set => cases hw.json
    | _ => exact scalar_equal_iff hapart ha hb hv.among hw.among (.inr nofun)
  | .object fs, w, a, b, ha, hb, hv, hw => by
    cases w with
    | array ws =>
      obtain ⟨as, rfl, -⟩ := ha.of_object
      obtain ⟨ts, rfl, -⟩ := hb.of_array
      exact iff_of_false nofun nofun
    | object gs =>
      obtain ⟨as, rfl, has⟩ := ha.of_object
      obtain ⟨bs, rfl, hbs⟩ := hb.of_object
      obtain ⟨hfs, hjf⟩ := hv.of_object
      obtain ⟨hgs, hjg⟩ := hw.of_object
      have hsorta : (as.map Prod.fst).Pairwise (· < ·) := by rwa [has.names]
      have hsortb : (bs.map Prod.fst).Pairwise (· < ·) := by rwa [hbs.names]
      rw [Cel.Value.equal, Value.compare, Bool.and_eq_true, beq_iff_eq, Cel.fieldsIn_iff,
        ← fields_equal_iff hapart fs gs as bs has hbs hjf hjg hv.among hw.among]
      constructor
      · rintro ⟨hlen, hall⟩
        exact forall₂_of_lookup (R := fun a b => a.equal Empty.elim b = true) hsorta hsortb hlen hall
      · intro hall
        exact ⟨hall.length_eq, fun f hf =>
          lookup_of_forall₂ (R := fun a b => a.equal Empty.elim b = true) hsortb hall hf⟩
    | set => cases hw.json
    | _ => exact scalar_equal_iff hapart ha hb hv.among hw.among (.inr nofun)
  | .set _, _, _, _, _, _, hv, _ => by cases hv.json
  | .null, w, a, b, ha, hb, hv, hw =>
    scalar_equal_iff hapart ha hb hv.among hw.among (.inl nofun)
  | .bool _, w, a, b, ha, hb, hv, hw =>
    scalar_equal_iff hapart ha hb hv.among hw.among (.inl nofun)
  | .number _, w, a, b, ha, hb, hv, hw =>
    scalar_equal_iff hapart ha hb hv.among hw.among (.inl nofun)
  | .string _, w, a, b, ha, hb, hv, hw =>
    scalar_equal_iff hapart ha hb hv.among hw.among (.inl nofun)

lemma equalAll_iff (hapart : Apart rounding numbers) : ∀ (vs ws : List Value)
    (us ts : List (Cel.Value Empty)), StandsAll rounding vs us → StandsAll rounding ws ts →
    Value.isJsonAll vs = true → Value.isJsonAll ws = true → Value.numbersAll vs ⊆ numbers →
    Value.numbersAll ws ⊆ numbers →
    (Cel.equalAll Empty.elim us ts = true ↔ Value.compareAll vs ws = .eq)
  | [], [], [], [], _, _, _, _, _, _ => by simp [Cel.equalAll, Value.compareAll]
  | [], _ :: _, [], _ :: _, _, _, _, _, _, _ => by simp [Cel.equalAll, Value.compareAll]
  | _ :: _, [], _ :: _, [], _, _, _, _, _, _ => by simp [Cel.equalAll, Value.compareAll]
  | v :: vs, w :: ws, u :: us, t :: ts, hvs, hws, hjv, hjw, hnv, hnw => by
    rw [Value.isJsonAll, Bool.and_eq_true] at hjv hjw
    rw [Value.numbersAll, List.append_subset] at hnv hnw
    rw [Cel.equalAll, Value.compareAll, Bool.and_eq_true, Ordering.then_eq_eq,
      equal_iff hapart v w u t hvs.1 hws.1 ⟨hjv.1, hnv.1⟩ ⟨hjw.1, hnw.1⟩,
      equalAll_iff hapart vs ws us ts hvs.2 hws.2 hjv.2 hjw.2 hnv.2 hnw.2]

lemma fields_equal_iff (hapart : Apart rounding numbers) : ∀ (fs gs : List (String × Value))
    (as bs : List (String × Cel.Value Empty)), StandsFields rounding fs as →
    StandsFields rounding gs bs → Value.isJsonFields fs = true → Value.isJsonFields gs = true →
    Value.numbersFields fs ⊆ numbers → Value.numbersFields gs ⊆ numbers →
    (List.Forall₂ (fun f g => f.1 = g.1 ∧ f.2.equal Empty.elim g.2 = true) as bs ↔
      Value.compareFields fs gs = .eq)
  | [], [], [], [], _, _, _, _, _, _ => by simp [Value.compareFields]
  | [], _ :: _, [], _ :: _, _, _, _, _, _, _ => by simp [Value.compareFields]
  | _ :: _, [], _ :: _, [], _, _, _, _, _, _ => by simp [Value.compareFields]
  | (f, v) :: fs, (g, w) :: gs, (f', a) :: as, (g', b) :: bs, has, hbs, hjf, hjg, hnf, hng => by
    obtain ⟨rfl, hva, has⟩ := has
    obtain ⟨rfl, hwb, hbs⟩ := hbs
    rw [Value.isJsonFields, Bool.and_eq_true] at hjf hjg
    rw [Value.numbersFields, List.append_subset] at hnf hng
    rw [Value.compareFields, List.forall₂_cons, Ordering.then_eq_eq, Ordering.then_eq_eq,
      equal_iff hapart v w a b hva hwb ⟨hjf.1, hnf.1⟩ ⟨hjg.1, hng.1⟩,
      fields_equal_iff hapart fs gs as bs has hbs hjf.2 hjg.2 hnf.2 hng.2, compare_eq_iff_eq,
      and_assoc]

end

def Value.orderClass : Value → Nat
  | .bool _ => 1
  | .number _ => 2
  | .string _ => 3
  | _ => 0

def Value.ordered (v w : Value) : Bool :=
  v.orderClass == w.orderClass && v.orderClass != 0

lemma Stands.orderClass (h : Stands rounding v a) : a.orderClass = v.orderClass := by
  cases v with
  | null => cases h; rfl
  | bool => cases h; rfl
  | string => cases h; rfl
  | number =>
    have hnumber : a.number? = some _ := h
    cases a <;> first | rfl | cases hnumber
  | array =>
    obtain ⟨us, rfl, -⟩ := h.of_array
    rfl
  | object =>
    obtain ⟨gs, rfl, -⟩ := h.of_object
    rfl
  | set => cases a <;> cases h

lemma order_stands (hapart : Apart rounding numbers) (ha : Stands rounding v a)
    (hb : Stands rounding w b) (hv : v.Within numbers) (hw : w.Within numbers) :
    a.order? b = if v.ordered w then some (v.compare w) else none := by
  by_cases hord : v.ordered w = true
  · rw [if_pos hord]
    rw [Value.ordered, Bool.and_eq_true, beq_iff_eq, bne_iff_ne] at hord
    cases v with
    | bool =>
      cases w <;> first | (cases ha; cases hb; rfl) | cases hord.1
    | number x =>
      cases w with
      | number y =>
        rw [Cel.order?_of_number ha hb, Value.compare,
          hapart.compare_eq (hv.among (by simp [Value.numbers])) (hw.among (by simp [Value.numbers]))]
      | _ => cases hord.1
    | string =>
      cases w <;> first | (cases ha; cases hb; rfl) | cases hord.1
    | _ => exact absurd rfl hord.2
  · rw [if_neg hord]
    apply Cel.order?_eq_none
    rw [ha.orderClass, hb.orderClass]
    simpa [Value.ordered, or_iff_not_imp_left] using hord

end Symkernel.PolicyImport.Rego
