import Symkernel.Library.Numeral

/-!
# JSON as Go writes and reads it

A Go string is a sequence of bytes. `encoding/json` writes bytes that are no UTF-8 as U+FFFD, so
a document holds valid text only. Documents are trees: what `json.Marshal` writes and
`json.Unmarshal` reads differ in more than their text only by a limit on nesting and by the range
of the numbers.
-/

namespace Symkernel.Library

open List

abbrev GoString := List UInt8

def isTail (b : UInt8) : Bool := 0x80 ≤ b && b ≤ 0xbf

def secondOfThree (b₀ b₁ : UInt8) : Bool :=
  if b₀ = 0xe0 then 0xa0 ≤ b₁ && b₁ ≤ 0xbf
  else if b₀ = 0xed then 0x80 ≤ b₁ && b₁ ≤ 0x9f
  else 0xe1 ≤ b₀ && b₀ ≤ 0xef && isTail b₁

def secondOfFour (b₀ b₁ : UInt8) : Bool :=
  if b₀ = 0xf0 then 0x90 ≤ b₁ && b₁ ≤ 0xbf
  else if b₀ = 0xf4 then 0x80 ≤ b₁ && b₁ ≤ 0x8f
  else 0xf1 ≤ b₀ && b₀ ≤ 0xf3 && isTail b₁

/-- The number of bytes of the character at the head of a text, `none` if there is none. -/
def runeLength : GoString → Option Nat
  | [] => none
  | b₀ :: rest =>
    let nextIs (i : Nat) (p : UInt8 → Bool) := rest[i]?.any p
    if b₀ < 0x80 then some 1
    else if 0xc2 ≤ b₀ && b₀ ≤ 0xdf && nextIs 0 isTail then some 2
    else if nextIs 0 (secondOfThree b₀) && nextIs 1 isTail then some 3
    else if nextIs 0 (secondOfFour b₀) && nextIs 1 isTail && nextIs 2 isTail then some 4
    else none

/-- The text with U+FFFD for every byte that belongs to no character, `left` bytes into which the
current character ends. -/
def toValidUTF8From : Nat → GoString → GoString
  | _, [] => []
  | left + 1, b :: bs => b :: toValidUTF8From left bs
  | 0, b :: bs =>
    match runeLength (b :: bs) with
    | some n => b :: toValidUTF8From (n - 1) bs
    | none => 0xef :: 0xbf :: 0xbd :: toValidUTF8From 0 bs

/-- What is left of a string when it has been written and read as JSON. -/
def toValidUTF8 (s : GoString) : GoString := toValidUTF8From 0 s

def ValidUTF8 (s : GoString) : Prop := toValidUTF8 s = s

instance (s : GoString) : Decidable (ValidUTF8 s) :=
  inferInstanceAs (Decidable (toValidUTF8 s = s))

lemma runeLength_ascii {b : UInt8} (hb : b < 0x80) (bs : GoString) :
    runeLength (b :: bs) = some 1 := by
  simp only [runeLength, if_pos hb]

lemma toValidUTF8_of_ascii {s : GoString} (h : ∀ b ∈ s, b < 0x80) : toValidUTF8 s = s := by
  unfold toValidUTF8
  induction s with
  | nil => rfl
  | cons b s ih =>
    rw [forall_mem_cons] at h
    simp only [toValidUTF8From, runeLength_ascii h.1]
    rw [ih h.2]

lemma toValidUTF8From_of_ascii_output {left : Nat} {s : GoString}
    (h : ∀ b ∈ toValidUTF8From left s, b < 0x80) : toValidUTF8From left s = s := by
  induction s generalizing left with
  | nil => cases left <;> rfl
  | cons b s ih =>
    cases left with
    | succ left =>
      rw [toValidUTF8From, forall_mem_cons] at h
      rw [toValidUTF8From, ih h.2]
    | zero =>
      rw [toValidUTF8From] at h ⊢
      split at h
      · rw [forall_mem_cons] at h
        rw [ih h.2]
      · exact absurd (h 0xef mem_cons_self) (by decide)

lemma eq_of_toValidUTF8_ascii {s t : GoString} (ht : ∀ b ∈ t, b < 0x80)
    (h : toValidUTF8 s = t) : s = t := by
  rw [← h] at ht
  rw [← h]
  exact (toValidUTF8From_of_ascii_output ht).symm

inductive Json where
  | null
  | bool (b : Bool)
  | number (n : Numeral)
  | string (s : GoString)
  | array (elems : List Json)
  | object (fields : List (GoString × Json))

/-- `strconv.ParseFloat` accepts the number: it does not round to an infinity. -/
def Numeral.fitsFloat64 (n : Numeral) : Bool :=
  decide (-(2 ^ 1024 - 2 ^ 970) < n.value) && decide (n.value < 2 ^ 1024 - 2 ^ 970)

namespace Json

mutual

def depth : Json → Nat
  | .null | .bool _ | .number _ | .string _ => 0
  | .array elems => depthAll elems + 1
  | .object fields => depthFields fields + 1

def depthAll : List Json → Nat
  | [] => 0
  | elem :: elems => max elem.depth (depthAll elems)

def depthFields : List (GoString × Json) → Nat
  | [] => 0
  | field :: fields => max (depthField field) (depthFields fields)

def depthField : GoString × Json → Nat
  | (_, value) => value.depth

end

mutual

def numbersFit : Json → Bool
  | .null | .bool _ | .string _ => true
  | .number n => n.fitsFloat64
  | .array elems => numbersFitAll elems
  | .object fields => numbersFitFields fields

def numbersFitAll : List Json → Bool
  | [] => true
  | elem :: elems => elem.numbersFit && numbersFitAll elems

def numbersFitFields : List (GoString × Json) → Bool
  | [] => true
  | field :: fields => numbersFitField field && numbersFitFields fields

def numbersFitField : GoString × Json → Bool
  | (_, value) => value.numbersFit

end

mutual

def coerced : Json → Json
  | .null => .null
  | .bool b => .bool b
  | .number n => .number n
  | .string s => .string (toValidUTF8 s)
  | .array elems => .array (coercedAll elems)
  | .object fields => .object (coercedFields fields)

def coercedAll : List Json → List Json
  | [] => []
  | elem :: elems => elem.coerced :: coercedAll elems

def coercedFields : List (GoString × Json) → List (GoString × Json)
  | [] => []
  | field :: fields => coercedField field :: coercedFields fields

def coercedField : GoString × Json → GoString × Json
  | (name, value) => (toValidUTF8 name, value.coerced)

end

lemma coercedAll_eq_map (elems : List Json) : coercedAll elems = elems.map coerced := by
  induction elems with
  | nil => rfl
  | cons elem elems ih => rw [coercedAll, ih, map_cons]

lemma coercedFields_eq_map (fields : List (GoString × Json)) :
    coercedFields fields = fields.map (Prod.map toValidUTF8 coerced) := by
  induction fields with
  | nil => rfl
  | cons field fields ih =>
    obtain ⟨name, value⟩ := field
    rw [coercedFields, coercedField, ih, map_cons, Prod.map_apply]

lemma coerced_object_zip {names names' : List GoString} {docs docs' : List Json}
    (hlen : names.length = docs.length) (hlen' : names'.length = docs'.length)
    (h : coerced (.object (names.zip docs)) = coerced (.object (names'.zip docs'))) :
    names.map toValidUTF8 = names'.map toValidUTF8 ∧ coercedAll docs = coercedAll docs' := by
  rw [coerced, coerced, Json.object.injEq, coercedFields_eq_map, coercedFields_eq_map,
    ← zip_map, ← zip_map] at h
  have hnames := congrArg (List.map Prod.fst) h
  have hdocs := congrArg (List.map Prod.snd) h
  rw [map_fst_zip (by simp [hlen]), map_fst_zip (by simp [hlen'])] at hnames
  rw [map_snd_zip (by simp [hlen]), map_snd_zip (by simp [hlen'])] at hdocs
  rw [coercedAll_eq_map, coercedAll_eq_map]
  exact ⟨hnames, hdocs⟩

def maxNestingDepth : Nat := 10000

def decodes (doc : Json) : Bool :=
  decide (doc.depth ≤ maxNestingDepth) && doc.numbersFit

/-- What an element of an array leaves in a `[]string`, and whether it fits there: `null` leaves
the empty string, and so does what does not fit. -/
def elementString : Json → GoString × Bool
  | .string s => (s, true)
  | .null => ([], true)
  | .bool _ | .number _ | .array _ | .object _ => ([], false)

/-- `json.Unmarshal` into a nil `[]string`: the slice afterwards, which is filled even if the call
fails, and whether it succeeds. -/
def unmarshalStrings (doc : Json) : List GoString × Bool :=
  if maxNestingDepth < doc.depth then ([], false)
  else
    match doc with
    | .null => ([], true)
    | .array elems => (elems.map fun e => e.elementString.1, elems.all fun e => e.elementString.2)
    | .bool _ | .number _ | .string _ | .object _ => ([], false)

def marshalStrings (ss : List GoString) : Json :=
  .array (ss.map fun s => .string (toValidUTF8 s))

lemma depthAll_strings (ss : List GoString) :
    depthAll (ss.map fun s => .string (toValidUTF8 s)) = 0 := by
  induction ss with
  | nil => rfl
  | cons s ss ih => simp [depthAll, depth, ih]

lemma unmarshalStrings_marshalStrings (ss : List GoString) :
    unmarshalStrings (marshalStrings ss) = (ss.map toValidUTF8, true) := by
  have hdepth : ¬ maxNestingDepth < (marshalStrings ss).depth := by
    rw [marshalStrings, depth, depthAll_strings]
    decide
  unfold unmarshalStrings
  rw [if_neg hdepth]
  simp [marshalStrings, elementString]

end Json

end Symkernel.Library
