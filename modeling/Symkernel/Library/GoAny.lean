import Symkernel.Library.GoStrconv
import Symkernel.Library.GoText
import Symkernel.Library.GoMap
import Symkernel.Library.SortedList

/-!
# Go values without a static type

The values that a program keeps in an `any`: booleans, numbers, strings, and slices and maps of
them. A map is given by its keys and their values, in the order in which `json.Marshal` writes them.
Keys whose type has no text are kept, but cannot be written.
-/

namespace Symkernel.Library

/-- The two types of floating-point numbers, and the texts that `strconv.FormatFloat` gives their
values: the shortest decimal text that is read as the value, and an error for what is no number
of JSON. -/
structure Floats where
  F32 : Type
  F64 : Type
  widen : F32 → F64
  numeral32 : F32 → Except String Numeral
  numeral64 : F64 → Except String Numeral
  numeral32_inj : ∀ {x y n}, numeral32 x = .ok n → numeral32 y = .ok n → x = y
  numeral64_inj : ∀ {x y n}, numeral64 x = .ok n → numeral64 y = .ok n → x = y

inductive Width where
  | word
  | w32
  | w64
  deriving DecidableEq

def Width.bits : Width → Nat
  | .word | .w64 => 64
  | .w32 => 32

inductive Scalar (F : Floats) where
  | bool (b : Bool)
  | int (w : Width) (n : Int)
  | uint (w : Width) (n : Nat)
  | float32 (x : F.F32)
  | float64 (x : F.F64)
  | string (s : GoString)

inductive MapKeys (F : Floats) where
  | strings (ks : List GoString)
  | ints (w : Width) (ks : List Int)
  | uints (w : Width) (ks : List Nat)
  | others (mapType : String) (ks : List (Scalar F))

inductive GoAny (F : Floats) where
  | scalar (s : Scalar F)
  | list (elems : List (GoAny F))
  | map (keys : MapKeys F) (values : List (GoAny F))
  | nilList
  | nilMap

variable {F : Floats}

def codes (s : GoString) : List Nat := s.map UInt8.toNat

lemma codes_injective : Function.Injective codes :=
  List.map_injective_iff.mpr fun _ _ => UInt8.toNat_inj.mp

def byteOrder : RangeOrder GoString :=
  letI := LinearOrder.lift' codes codes_injective
  RangeOrder.ascending GoString

def Width.HasInt (w : Width) (n : Int) : Prop := -2 ^ (w.bits - 1) ≤ n ∧ n < 2 ^ (w.bits - 1)

def Width.HasUint (w : Width) (n : Nat) : Prop := n < 2 ^ w.bits

def Scalar.InRange : Scalar F → Prop
  | .int w n => w.HasInt n
  | .uint w n => w.HasUint n
  | .bool _ | .float32 _ | .float64 _ | .string _ => True

namespace MapKeys

def scalars : MapKeys F → List (Scalar F)
  | .strings ks => ks.map .string
  | .ints w ks => ks.map (.int w)
  | .uints w ks => ks.map (.uint w)
  | .others _ ks => ks

def texts : MapKeys F → Except String (List GoString)
  | .strings ks => .ok ks
  | .ints _ ks => .ok (ks.map itoa)
  | .uints _ ks => .ok (ks.map itoaNat)
  | .others mapType _ => .error ("json: unsupported type: " ++ mapType)

/-- The keys are values of their type, and different from each other. -/
structure WellFormed (keys : MapKeys F) : Prop where
  inRange : ∀ k ∈ keys.scalars, k.InRange
  sorted : ∀ ts, keys.texts = .ok ts → ts.Pairwise fun s t => codes s < codes t

lemma length_texts {keys : MapKeys F} {ts : List GoString} (h : keys.texts = .ok ts) :
    ts.length = keys.scalars.length := by
  cases keys with
  | strings ks =>
    cases h
    simp [scalars]
  | ints w ks =>
    cases h
    simp [scalars]
  | uints w ks =>
    cases h
    simp [scalars]
  | others mapType ks => cases h

end MapKeys

mutual

def GoAny.WellFormed : GoAny F → Prop
  | .scalar s => s.InRange
  | .list elems => AllWellFormed elems
  | .map keys values =>
    keys.WellFormed ∧ keys.scalars.length = values.length ∧ AllWellFormed values
  | .nilList | .nilMap => True

def AllWellFormed : List (GoAny F) → Prop
  | [] => True
  | v :: vs => v.WellFormed ∧ AllWellFormed vs

end

def intNumeral (n : Int) : Numeral where
  negative := decide (n < 0)
  whole := n.natAbs
  fraction := []
  exponent := none
  fraction_ok := by simp

lemma intNumeral_inj {m n : Int} (h : intNumeral m = intNumeral n) : m = n := by
  simp only [intNumeral, Numeral.mk.injEq, decide_eq_decide] at h
  omega

def unsupportedValue (text : String) : String := "json: unsupported value: " ++ text

def Scalar.marshal : Scalar F → Except String Json
  | .bool b => .ok (.bool b)
  | .int _ n => .ok (.number (intNumeral n))
  | .uint _ n => .ok (.number (intNumeral n))
  | .float32 x => ((F.numeral32 x).mapError unsupportedValue).map .number
  | .float64 x => ((F.numeral64 x).mapError unsupportedValue).map .number
  | .string s => .ok (.string s)

def sortedEntries (order : RangeOrder GoString) (m : GoMap GoString (GoAny F)) :
    List (GoString × GoAny F) :=
  ((SliceSort.insertion codes).run (order.keys m.keys)).filterMap fun k =>
    (m.lookup k).map fun v => (k, v)

def GoAny.ofMap (order : RangeOrder GoString) (m : GoMap GoString (GoAny F)) : GoAny F :=
  .map (.strings ((sortedEntries order m).map Prod.fst)) ((sortedEntries order m).map Prod.snd)

lemma mem_sortedEntries {order : RangeOrder GoString} {m : GoMap GoString (GoAny F)}
    {k : GoString} {v : GoAny F} : (k, v) ∈ sortedEntries order m ↔ m.lookup k = some v := by
  simp only [sortedEntries, List.mem_filterMap, Option.map_eq_some_iff, Prod.mk.injEq]
  constructor
  · rintro ⟨_, -, _, hv, rfl, rfl⟩
    exact hv
  · intro hv
    have hk : k ∈ order.keys m.keys := by
      rw [order.mem_keys, Finmap.mem_keys, ← Finmap.lookup_isSome, hv]
      rfl
    exact ⟨k, ((SliceSort.insertion codes).perm _).mem_iff.mpr hk, v, hv, rfl, rfl⟩

mutual

/-- The document that `json.Marshal` writes; `Json.coerced` is what can be read from its text. -/
def GoAny.marshal : GoAny F → Except String Json
  | .scalar s => s.marshal
  | .list elems => do
    let docs ← marshalAll elems
    .ok (.array docs)
  | .map keys values => do
    let names ← keys.texts
    let docs ← marshalAll values
    .ok (.object (names.zip docs))
  | .nilList | .nilMap => .ok .null

def marshalAll : List (GoAny F) → Except String (List Json)
  | [] => .ok []
  | v :: vs => do
    let doc ← v.marshal
    let docs ← marshalAll vs
    .ok (doc :: docs)

end

variable {vs ws : List (GoAny F)}

lemma marshal_list_ok {doc : Json} (h : (GoAny.list vs).marshal = .ok doc) :
    ∃ docs, marshalAll vs = .ok docs ∧ doc = .array docs := by
  obtain ⟨docs, hdocs, h⟩ := bind_eq_ok.mp h
  cases h
  exact ⟨docs, hdocs, rfl⟩

lemma marshal_map_ok {keys : MapKeys F} {doc : Json} (h : (GoAny.map keys vs).marshal = .ok doc) :
    ∃ names docs, keys.texts = .ok names ∧ marshalAll vs = .ok docs ∧
      doc = .object (names.zip docs) := by
  obtain ⟨names, hnames, h⟩ := bind_eq_ok.mp h
  obtain ⟨docs, hdocs, h⟩ := bind_eq_ok.mp h
  cases h
  exact ⟨names, docs, hnames, hdocs, rfl⟩

lemma marshalAll_cons_ok {v : GoAny F} {docs : List Json} (h : marshalAll (v :: vs) = .ok docs) :
    ∃ doc rest, v.marshal = .ok doc ∧ marshalAll vs = .ok rest ∧ docs = doc :: rest := by
  obtain ⟨doc, hdoc, h⟩ := bind_eq_ok.mp h
  obtain ⟨rest, hrest, h⟩ := bind_eq_ok.mp h
  cases h
  exact ⟨doc, rest, hdoc, hrest, rfl⟩

lemma length_marshalAll {docs : List Json} (h : marshalAll vs = .ok docs) :
    docs.length = vs.length := by
  induction vs generalizing docs with
  | nil =>
    cases h
    rfl
  | cons v vs ih =>
    obtain ⟨doc, rest, -, hrest, rfl⟩ := marshalAll_cons_ok h
    rw [List.length_cons, List.length_cons, ih hrest]

/-- Both values are written, and the texts are read as the same document. -/
def SameDocument (v w : GoAny F) : Prop :=
  ∃ doc doc', v.marshal = .ok doc ∧ w.marshal = .ok doc' ∧ doc.coerced = doc'.coerced

lemma forall₂_sameDocument {docs docs' : List Json} (hvs : marshalAll vs = .ok docs)
    (hws : marshalAll ws = .ok docs') (h : Json.coercedAll docs = Json.coercedAll docs') :
    List.Forall₂ SameDocument vs ws := by
  induction vs generalizing ws docs docs' with
  | nil =>
    cases hvs
    cases ws with
    | nil => exact .nil
    | cons w ws =>
      obtain ⟨doc, rest, -, -, rfl⟩ := marshalAll_cons_ok hws
      cases h
  | cons v vs ih =>
    obtain ⟨doc, rest, hdoc, hrest, rfl⟩ := marshalAll_cons_ok hvs
    cases ws with
    | nil =>
      cases hws
      cases h
    | cons w ws =>
      obtain ⟨doc', rest', hdoc', hrest', rfl⟩ := marshalAll_cons_ok hws
      rw [Json.coercedAll, Json.coercedAll, List.cons.injEq] at h
      exact .cons ⟨doc, doc', hdoc, hdoc', h.1⟩ (ih hrest hrest' h.2)

lemma SameDocument.list (h : SameDocument (.list vs) (.list ws)) :
    List.Forall₂ SameDocument vs ws := by
  obtain ⟨doc, doc', hv, hw, h⟩ := h
  obtain ⟨docs, hdocs, rfl⟩ := marshal_list_ok hv
  obtain ⟨docs', hdocs', rfl⟩ := marshal_list_ok hw
  rw [Json.coerced, Json.coerced, Json.array.injEq] at h
  exact forall₂_sameDocument hdocs hdocs' h

lemma SameDocument.map {keys keys' : MapKeys F} (h : SameDocument (.map keys vs) (.map keys' ws))
    (hlen : keys.scalars.length = vs.length) (hlen' : keys'.scalars.length = ws.length) :
    ∃ names names', keys.texts = .ok names ∧ keys'.texts = .ok names' ∧
      names.map toValidUTF8 = names'.map toValidUTF8 ∧ List.Forall₂ SameDocument vs ws := by
  obtain ⟨doc, doc', hv, hw, h⟩ := h
  obtain ⟨names, docs, hnames, hdocs, rfl⟩ := marshal_map_ok hv
  obtain ⟨names', docs', hnames', hdocs', rfl⟩ := marshal_map_ok hw
  have hcount : names.length = docs.length := by
    rw [MapKeys.length_texts hnames, length_marshalAll hdocs, hlen]
  have hcount' : names'.length = docs'.length := by
    rw [MapKeys.length_texts hnames', length_marshalAll hdocs', hlen']
  obtain ⟨hn, hd⟩ := Json.coerced_object_zip hcount hcount' h
  exact ⟨names, names', hnames, hnames', hn, forall₂_sameDocument hdocs hdocs' hd⟩

lemma exists_sameDocument {es es' : List (GoString × GoAny F)}
    (hnames : (es.map Prod.fst).map toValidUTF8 = (es'.map Prod.fst).map toValidUTF8)
    (hvalues : List.Forall₂ SameDocument (es.map Prod.snd) (es'.map Prod.snd))
    {k : GoString} {v : GoAny F} (hk : ∀ b ∈ k, b < 0x80) (hmem : (k, v) ∈ es) :
    ∃ w, (k, w) ∈ es' ∧ SameDocument v w := by
  induction es generalizing es' with
  | nil => cases hmem
  | cons e es ih =>
    cases es' with
    | nil => cases hvalues
    | cons e' es' =>
      simp only [List.map_cons, List.cons.injEq, List.forall₂_cons] at hnames hvalues
      obtain rfl | hmem := List.mem_cons.mp hmem
      · have hkey : e'.1 = k := by
          apply eq_of_toValidUTF8_ascii hk
          rw [← hnames.1, toValidUTF8_of_ascii hk]
        exact ⟨e'.2, hkey ▸ List.mem_cons_self, hvalues.1⟩
      · obtain ⟨w, hw, hsame⟩ := ih hnames.2 hvalues.2 hmem
        exact ⟨w, List.mem_cons_of_mem e' hw, hsame⟩

end Symkernel.Library
