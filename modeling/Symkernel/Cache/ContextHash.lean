import Symkernel.Library.CelEngine

/-!
# The context of a cached evaluation

`HashContext` of `internal/cache` stands for the variables of an evaluation in the key of the
result, and `Evaluate` of `internal/cel` declares each variable with the type of its Go value.
-/

namespace Symkernel.CachedEvaluation

open Library CelEngine Finmap Option

structure Context (F : Floats) where
  fields : GoMap GoString (GoAny F)
  wellFormed : ∀ k v, fields.lookup k = some v → v.WellFormed

variable {F : Floats}

/-! ### Hashing -/

/-- The text of a document and its SHA-256 as a hexadecimal string. The text can be read back,
and no two texts have the same hash. -/
structure Encoding where
  Text : Type
  Hash : Type
  write : Json → Text
  sha256 : Text → Hash
  coerced_eq : ∀ {doc doc'}, write doc = write doc' → doc.coerced = doc'.coerced
  sha256_injective : Function.Injective sha256

/-- The inner loop, on the sorted keys from the last to the first: the key moves in front of the
greater ones. -/
def moveDown (k : GoString) : List GoString → List GoString
  | [] => [k]
  | last :: rest => if codes k < codes last then last :: moveDown k rest else k :: last :: rest

def sortKeys (keys : List GoString) : List GoString :=
  (keys.foldl (fun sorted k => moveDown k sorted) []).reverse

def copyFields (ctx : GoMap GoString (GoAny F)) (keys : List GoString) :
    GoMap GoString (GoAny F) :=
  keys.foldl (fun m k => (ctx.lookup k).elim m (m.insert k)) ∅

def hashContext (enc : Encoding) (order : RangeOrder GoString) (ctx : Context F) :
    Except String enc.Hash := do
  let keys := sortKeys (order.keys ctx.fields.keys)
  let m := copyFields ctx.fields keys
  let b ← ((GoAny.ofMap order m).marshal.map enc.write).mapError
    ("cache: cannot marshal context to JSON: " ++ ·)
  .ok (enc.sha256 b)

lemma moveDown_perm (k : GoString) (sorted : List GoString) :
    (moveDown k sorted).Perm (k :: sorted) := by
  induction sorted with
  | nil => exact .refl _
  | cons last rest ih =>
    unfold moveDown
    split
    · exact (ih.cons last).trans (.swap k last rest)
    · exact .refl _

lemma sortKeys_perm (keys : List GoString) : (sortKeys keys).Perm keys := by
  have hloop : ∀ sorted : List GoString,
      (keys.foldl (fun sorted k => moveDown k sorted) sorted).Perm (sorted ++ keys) := by
    induction keys with
    | nil => intro sorted; simp
    | cons k keys ih =>
      intro sorted
      apply (ih _).trans
      apply ((moveDown_perm k sorted).append_right keys).trans
      exact List.perm_middle.symm
  exact (List.reverse_perm _).trans (hloop [])

lemma copyFields_keys (ctx : GoMap GoString (GoAny F)) (order : RangeOrder GoString) :
    copyFields ctx (sortKeys (order.keys ctx.keys)) = ctx := by
  have hperm := sortKeys_perm (order.keys ctx.keys)
  have hnodup := hperm.nodup_iff.mpr (order.nodup ctx.keys)
  have hstep : ∀ (m : GoMap GoString (GoAny F)) (k k' : GoString), True →
      ((ctx.lookup k).elim m (m.insert k)).lookup k' =
        if k' = k then (ctx.lookup k).or (m.lookup k') else m.lookup k' := by
    intro m k k' _
    cases hk : ctx.lookup k with
    | none => simp
    | some v =>
      by_cases hkk : k' = k
      · subst hkk
        simp
      · simp [hkk]
  apply ext_lookup
  intro k
  rw [copyFields, foldl_pointwise (fun m k => lookup k m) (fun k old => (ctx.lookup k).or old)
    (fun _ => True) (fun _ _ _ => trivial) hstep hnodup trivial]
  have hmem : k ∈ sortKeys (order.keys ctx.keys) ↔ k ∈ ctx := by
    rw [hperm.mem_iff, order.mem_keys, mem_keys]
  by_cases hk : k ∈ ctx
  · simp [hmem, hk]
  · simp [Finmap.lookup_eq_none.mpr hk]

lemma hashContext_ok {enc : Encoding} {order : RangeOrder GoString} {ctx : Context F}
    {hash : enc.Hash} (h : hashContext enc order ctx = .ok hash) :
    ∃ doc, (GoAny.ofMap order ctx.fields).marshal = .ok doc ∧
      enc.sha256 (enc.write doc) = hash := by
  simp only [hashContext, copyFields_keys] at h
  cases hdoc : (GoAny.ofMap order ctx.fields).marshal with
  | error e =>
    rw [hdoc] at h
    cases h
  | ok doc =>
    rw [hdoc] at h
    cases h
    exact ⟨doc, rfl, rfl⟩

lemma exists_counterpart {enc : Encoding} {order order' : RangeOrder GoString}
    {c c' : Context F} {hash : enc.Hash} (hc : hashContext enc order c = .ok hash)
    (hc' : hashContext enc order' c' = .ok hash) {n : GoString} (hn : ∀ b ∈ n, b < 0x80)
    {v : GoAny F} (hv : c.fields.lookup n = some v) :
    ∃ w, c'.fields.lookup n = some w ∧ SameDocument v w := by
  obtain ⟨doc, hdoc, hhash⟩ := hashContext_ok hc
  obtain ⟨doc', hdoc', hhash'⟩ := hashContext_ok hc'
  have hcoerced := enc.coerced_eq (enc.sha256_injective (hhash.trans hhash'.symm))
  have hsame : SameDocument (.ofMap order c.fields) (.ofMap order' c'.fields) :=
    ⟨doc, doc', hdoc, hdoc', hcoerced⟩
  obtain ⟨names, names', hnames, hnames', heq, hvalues⟩ :=
    hsame.map (by simp [MapKeys.scalars]) (by simp [MapKeys.scalars])
  cases hnames
  cases hnames'
  obtain ⟨w, hw, hsame⟩ := exists_sameDocument heq hvalues hn (mem_sortedEntries.mpr hv)
  exact ⟨w, mem_sortedEntries.mp hw, hsame⟩

/-! ### Evaluation -/

def celTypeOf : GoAny F → VarType
  | .scalar (.bool _) => .bool
  | .scalar (.int _ _) => .int
  | .scalar (.uint _ _) => .uint
  | .scalar (.float32 _) | .scalar (.float64 _) => .double
  | .scalar (.string _) => .string
  | _ => .dyn

def declarations (order : RangeOrder GoString) (vars : Context F) : List (GoString × VarType) :=
  (order.keys vars.fields.keys).filterMap fun name =>
    (vars.fields.lookup name).map fun val => (name, celTypeOf val)

def activation (vars : Context F) (name : GoString) : Option (Value F) :=
  (vars.fields.lookup name).map valueOf

/-- `timedOut`: the deadline has passed when the program returns. -/
def evaluate (E : Engine F) (order : RangeOrder GoString) (timedOut : Bool) (expr : GoString)
    (vars : Context F) : Except String (Value F) := do
  let env ← (E.newEnv (declarations order vars)).mapError ("cel: create env: " ++ ·)
  let ast ← (E.compile env expr).mapError ("cel: compile: " ++ ·)
  let prg ← (E.program env ast).mapError ("cel: program: " ++ ·)
  (E.eval prg (activation vars)).mapError fun e =>
    if timedOut then "cel: evaluation timeout: context deadline exceeded" else "cel: eval: " ++ e

/-- Every expression has a result under both contexts, and the same one, or under none. -/
def SameResults (E : Engine F) (c c' : Context F) : Prop :=
  ∀ order order' timedOut timedOut' expr,
    (evaluate E order timedOut expr c).toOption = (evaluate E order' timedOut' expr c').toOption

lemma celTypeOf_eq_type (v : GoAny F) : celTypeOf v = (valueOf v).type := by
  cases v with
  | scalar s => cases s <;> simp only [celTypeOf, valueOf, atomOf, Value.type]
  | list elems => simp only [celTypeOf, valueOf, Value.type]
  | map keys values => simp only [celTypeOf, valueOf, Value.type]
  | nilList => simp only [celTypeOf, valueOf, Value.type]
  | nilMap => simp only [celTypeOf, valueOf, Value.type]

lemma declares (order : RangeOrder GoString) (vars : Context F) :
    Declares (declarations order vars) (activation vars) where
  nodup := by
    rw [declarations, List.map_filterMap]
    apply (order.nodup vars.fields.keys).filterMap
    intro m n name hm hn
    simp only [map_map, Option.mem_def, map_eq_some_iff] at hm hn
    obtain ⟨_, -, rfl⟩ := hm
    obtain ⟨_, -, rfl⟩ := hn
    rfl
  mem_iff := by
    intro n t
    simp only [declarations, activation, List.mem_filterMap, map_eq_some_iff,
      Prod.mk.injEq, order.mem_keys, celTypeOf_eq_type]
    constructor
    · rintro ⟨_, -, v, hv, rfl, rfl⟩
      exact ⟨valueOf v, ⟨v, hv, rfl⟩, rfl⟩
    · rintro ⟨_, ⟨v, hv, rfl⟩, rfl⟩
      refine ⟨n, ?_, v, hv, rfl, rfl⟩
      rw [mem_keys, ← lookup_isSome, hv]
      rfl

lemma toOption_mapError_bind {α β : Type} (context : String → String) (x : Except String α)
    (f g : α → Except String β) (h : ∀ a, (f a).toOption = (g a).toOption) :
    (x.mapError context >>= f).toOption = (x >>= g).toOption := by
  cases x with
  | error e => rfl
  | ok a => exact h a

lemma evaluate_toOption (E : Engine F) (order : RangeOrder GoString) (timedOut : Bool)
    (expr : GoString) (vars : Context F) : (evaluate E order timedOut expr vars).toOption =
      (E.run expr (declarations order vars) (activation vars)).toOption := by
  apply toOption_mapError_bind
  intro env
  apply toOption_mapError_bind
  intro ast
  apply toOption_mapError_bind
  intro prg
  cases E.eval prg (activation vars) <;> rfl

/-! ### Alike values -/

def ScalarsAlike : Scalar F → Scalar F → Prop
  | .bool _, .bool _ => True
  | .int _ _, .int _ _ => True
  | .uint _ _, .uint _ _ => True
  | .float32 _, .float32 _ => True
  | .float64 _, .float64 _ => True
  | .float32 x, .float64 y => F.widen x = y
  | .float64 x, .float32 y => x = F.widen y
  | .string s, .string t => s = t
  | _, _ => False

def KeysAlike : MapKeys F → MapKeys F → Prop
  | .strings ks, .strings ks' => ks = ks'
  | .ints _ _, .ints _ _ => True
  | .uints _ _, .uints _ _ => True
  | keys, keys' => keys.scalars = [] ∧ keys'.scalars = []

mutual

/-- Values with the same document are of the same type at every place, up to the width of
integers, and with the same strings; a `float32` and a `float64` are the same number. -/
def Alike : GoAny F → GoAny F → Prop
  | .scalar s, .scalar t => ScalarsAlike s t
  | .list vs, .list ws => AllAlike vs ws
  | .map keys vs, .map keys' ws => KeysAlike keys keys' ∧ AllAlike vs ws
  | .nilList, .nilList => True
  | .nilMap, .nilMap => True
  | _, _ => False

def AllAlike : List (GoAny F) → List (GoAny F) → Prop
  | [], [] => True
  | v :: vs, w :: ws => Alike v w ∧ AllAlike vs ws
  | _, _ => False

end

lemma number_ok {x : Except String Numeral} {doc : Json}
    (h : (x.mapError unsupportedValue).map Json.number = .ok doc) :
    ∃ n, x = .ok n ∧ doc = .number n := by
  cases x with
  | error e => cases h
  | ok n =>
    cases h
    exact ⟨n, rfl, rfl⟩

lemma atomOf_eq_iff {s t : Scalar F} (h : SameDocument (.scalar s) (.scalar t)) :
    atomOf s = atomOf t ↔ ScalarsAlike s t := by
  obtain ⟨doc, doc', hs, ht, h⟩ := h
  cases s with
  | bool b =>
    cases t with
    | bool b' =>
      cases hs
      cases ht
      simpa [Json.coerced, atomOf, ScalarsAlike] using h
    | _ => simp [atomOf, ScalarsAlike]
  | int w n =>
    cases t with
    | int w' n' =>
      cases hs
      cases ht
      rw [Json.coerced, Json.coerced, Json.number.injEq] at h
      simp [atomOf, ScalarsAlike, intNumeral_inj h]
    | _ => simp [atomOf, ScalarsAlike]
  | uint w n =>
    cases t with
    | uint w' n' =>
      cases hs
      cases ht
      rw [Json.coerced, Json.coerced, Json.number.injEq] at h
      simp [atomOf, ScalarsAlike, Int.ofNat_inj.mp (intNumeral_inj h)]
    | _ => simp [atomOf, ScalarsAlike]
  | float32 x =>
    cases t with
    | float32 y =>
      obtain ⟨n, hx, rfl⟩ := number_ok hs
      obtain ⟨n', hy, rfl⟩ := number_ok ht
      rw [Json.coerced, Json.coerced, Json.number.injEq] at h
      simp [ScalarsAlike, F.numeral32_inj hx (h ▸ hy)]
    | _ => simp [atomOf, ScalarsAlike]
  | float64 x =>
    cases t with
    | float64 y =>
      obtain ⟨n, hx, rfl⟩ := number_ok hs
      obtain ⟨n', hy, rfl⟩ := number_ok ht
      rw [Json.coerced, Json.coerced, Json.number.injEq] at h
      simp [ScalarsAlike, F.numeral64_inj hx (h ▸ hy)]
    | _ => simp [atomOf, ScalarsAlike]
  | string s => cases t <;> simp [atomOf, ScalarsAlike]

lemma atoms_eq_iff_nil {ks ks' : List (Scalar F)}
    (hne : ∀ k ∈ ks, ∀ k' ∈ ks', atomOf k ≠ atomOf k') :
    ks.map atomOf = ks'.map atomOf ↔ ks = [] ∧ ks' = [] := by
  cases ks with
  | nil => simp
  | cons k ks =>
    cases ks' with
    | nil => simp
    | cons k' ks' => simp [hne k List.mem_cons_self k' List.mem_cons_self]

lemma map_eq_of_coerced {α : Type} {f : α → GoString} (hf : Function.Injective f)
    (hascii : ∀ a, ∀ b ∈ f a, b < 0x80) {as bs : List α}
    (h : (as.map f).map toValidUTF8 = (bs.map f).map toValidUTF8) : as = bs := by
  have hcoerced : toValidUTF8 ∘ f = f := funext fun a => toValidUTF8_of_ascii (hascii a)
  rw [List.map_map, List.map_map, hcoerced] at h
  exact List.map_injective_iff.mpr hf h

lemma atoms_eq_iff {keys keys' : MapKeys F} {names names' : List GoString}
    (hnames : keys.texts = .ok names) (hnames' : keys'.texts = .ok names')
    (h : names.map toValidUTF8 = names'.map toValidUTF8) :
    keys.scalars.map atomOf = keys'.scalars.map atomOf ↔ KeysAlike keys keys' := by
  cases keys with
  | strings ks =>
    cases keys' with
    | strings ks' =>
      have hinj : Function.Injective (Atom.string (F := F)) := fun _ _ h => by cases h; rfl
      simp only [MapKeys.scalars, List.map_map]
      exact (List.map_injective_iff.mpr hinj).eq_iff
    | ints w ks' => exact atoms_eq_iff_nil (by simp [MapKeys.scalars, atomOf])
    | uints w ks' => exact atoms_eq_iff_nil (by simp [MapKeys.scalars, atomOf])
    | others mapType ks' => cases hnames'
  | ints w ks =>
    cases keys' with
    | strings ks' => exact atoms_eq_iff_nil (by simp [MapKeys.scalars, atomOf])
    | ints w' ks' =>
      cases hnames
      cases hnames'
      rw [map_eq_of_coerced itoa_injective (fun _ => itoa_ascii) h]
      simp [MapKeys.scalars, KeysAlike, atomOf]
    | uints w ks' => exact atoms_eq_iff_nil (by simp [MapKeys.scalars, atomOf])
    | others mapType ks' => cases hnames'
  | uints w ks =>
    cases keys' with
    | strings ks' => exact atoms_eq_iff_nil (by simp [MapKeys.scalars, atomOf])
    | ints w ks' => exact atoms_eq_iff_nil (by simp [MapKeys.scalars, atomOf])
    | uints w' ks' =>
      cases hnames
      cases hnames'
      rw [map_eq_of_coerced itoaNat_injective (fun _ => itoaNat_ascii) h]
      simp [MapKeys.scalars, KeysAlike, atomOf]
    | others mapType ks' => cases hnames'
  | others mapType ks => cases hnames

lemma not_sameDocument_null {v : GoAny F} (hnull : v.marshal = .ok .null)
    {w : GoAny F} (hw : ∀ doc, w.marshal = .ok doc → doc.coerced ≠ .null) :
    ¬ SameDocument v w ∧ ¬ SameDocument w v := by
  constructor
  · rintro ⟨doc, doc', hv, hdoc', h⟩
    rw [hnull] at hv
    cases hv
    exact hw doc' hdoc' h.symm
  · rintro ⟨doc, doc', hdoc, hv, h⟩
    rw [hnull] at hv
    cases hv
    exact hw doc hdoc h

lemma coerced_list_ne_null {vs : List (GoAny F)} (doc : Json)
    (h : (GoAny.list vs).marshal = .ok doc) : doc.coerced ≠ .null := by
  obtain ⟨docs, -, rfl⟩ := marshal_list_ok h
  simp [Json.coerced]

lemma coerced_map_ne_null {keys : MapKeys F} {vs : List (GoAny F)} (doc : Json)
    (h : (GoAny.map keys vs).marshal = .ok doc) : doc.coerced ≠ .null := by
  obtain ⟨names, docs, -, -, rfl⟩ := marshal_map_ok h
  simp [Json.coerced]

mutual

lemma valueOf_eq_iff (v w : GoAny F) (hv : v.WellFormed) (hw : w.WellFormed)
    (h : SameDocument v w) : valueOf v = valueOf w ↔ Alike v w := by
  cases v with
  | scalar s =>
    cases w with
    | scalar t => simpa [valueOf, Alike] using atomOf_eq_iff h
    | _ => simp [valueOf, Alike]
  | list vs =>
    cases w with
    | list ws =>
      simpa [valueOf, Alike] using valuesOf_eq_iff vs ws hv hw h.list
    | nilList => exact absurd h (not_sameDocument_null rfl coerced_list_ne_null).2
    | _ => simp [valueOf, Alike]
  | map keys vs =>
    cases w with
    | map keys' ws =>
      obtain ⟨names, names', hnames, hnames', heq, hvalues⟩ := h.map hv.2.1 hw.2.1
      have hkeys := atoms_eq_iff hnames hnames' heq
      have hall := valuesOf_eq_iff vs ws hv.2.2 hw.2.2 hvalues
      rw [valueOf, valueOf, Alike, Value.map.injEq, hkeys, hall]
    | nilMap => exact absurd h (not_sameDocument_null rfl coerced_map_ne_null).2
    | _ => simp [valueOf, Alike]
  | nilList =>
    cases w with
    | list ws => exact absurd h (not_sameDocument_null rfl coerced_list_ne_null).1
    | _ => simp [valueOf, Alike]
  | nilMap =>
    cases w with
    | map keys' ws => exact absurd h (not_sameDocument_null rfl coerced_map_ne_null).1
    | _ => simp [valueOf, Alike]

lemma valuesOf_eq_iff (vs ws : List (GoAny F)) (hvs : AllWellFormed vs) (hws : AllWellFormed ws)
    (h : List.Forall₂ SameDocument vs ws) : valuesOf vs = valuesOf ws ↔ AllAlike vs ws := by
  cases vs with
  | nil =>
    cases h
    simp [AllAlike]
  | cons v vs =>
    cases ws with
    | nil => cases h
    | cons w ws =>
      rw [List.forall₂_cons] at h
      have hhead := valueOf_eq_iff v w hvs.1 hws.1 h.1
      have htail := valuesOf_eq_iff vs ws hvs.2 hws.2 h.2
      rw [valuesOf, valuesOf, AllAlike, List.cons.injEq, hhead, htail]

end

/-! ### Results of contexts with one hash -/

section OneHash

variable {E : Engine F} (hE : E.Lawful) {enc : Encoding} {order order' : RangeOrder GoString}
  {c c' : Context F} {hash : enc.Hash} (hc : hashContext enc order c = .ok hash)
  (hc' : hashContext enc order' c' = .ok hash)

include hE hc hc'

lemma activation_eq_none_iff {n : GoString} (hn : E.identifier n) :
    activation c n = none ↔ activation c' n = none := by
  have hsome : ∀ {order order'} {c c' : Context F}, hashContext enc order c = .ok hash →
      hashContext enc order' c' = .ok hash → activation c' n = none → activation c n = none := by
    intro order order' c c' hc hc' hnone
    rw [activation, map_eq_none_iff] at hnone ⊢
    by_contra hv
    obtain ⟨v, hv⟩ := Option.ne_none_iff_exists'.mp hv
    obtain ⟨w, hw, -⟩ := exists_counterpart hc hc' (hE.ascii hn) hv
    rw [hnone] at hw
    cases hw
  exact ⟨hsome hc' hc, hsome hc hc'⟩

lemma activation_eq_iff {n : GoString} (hn : E.identifier n) : activation c n = activation c' n ↔
      ∀ v w, c.fields.lookup n = some v → c'.fields.lookup n = some w → Alike v w := by
  cases hv : c.fields.lookup n with
  | none =>
    have hnone := (activation_eq_none_iff hE hc hc' hn).mp (by rw [activation, hv]; rfl)
    rw [hnone]
    simp [activation, hv]
  | some v =>
    obtain ⟨w, hw, hsame⟩ := exists_counterpart hc hc' (hE.ascii hn) hv
    have hvalue := valueOf_eq_iff v w (c.wellFormed n v hv) (c'.wellFormed n w hw) hsame
    simp [activation, hv, hw, hvalue]

lemma activation_eq_of_sameResults (hsame : SameResults E c c')
    (hnone : ∀ m, E.standard m → activation c m = none) {n : GoString} (hn : E.identifier n) :
    activation c n = activation c' n := by
  have hnone' : ∀ m, E.standard m → activation c' m = none := fun m hm =>
    (activation_eq_none_iff hE hc hc' (hE.standard_identifier hm)).mp (hnone m hm)
  have hread := hsame order order' false false n
  rw [evaluate_toOption, evaluate_toOption] at hread
  cases hv : activation c n with
  | none => exact ((activation_eq_none_iff hE hc hc' hn).mp hv).symm
  | some v =>
    have hne : activation c' n ≠ none := by
      rw [Ne, ← activation_eq_none_iff hE hc hc' hn, hv]
      exact some_ne_none v
    obtain ⟨w, hw⟩ := Option.ne_none_iff_exists'.mp hne
    rw [hE.run_identifier (declares order c) hnone hn hv,
      hE.run_identifier (declares order' c') hnone' hn hw] at hread
    rw [hw]
    exact hread

/-- Contexts with one hash give the same results if every expression fails under them, because
they declare a standard identifier, or if the variables that an expression can refer to are
alike. -/
theorem sameResults_iff : SameResults E c c' ↔ (∃ n, E.standard n ∧ n ∈ c.fields) ∨
      ∀ n, E.identifier n → ∀ v w, c.fields.lookup n = some v → c'.fields.lookup n = some w →
        Alike v w := by
  have hmem : ∀ n, n ∈ c.fields ↔ activation c n ≠ none := by
    intro n
    rw [activation, Ne, map_eq_none_iff, lookup_eq_none, not_not]
  constructor
  · intro hsame
    rw [or_iff_not_imp_left]
    intro hstandard n hn
    rw [← activation_eq_iff hE hc hc' hn]
    apply activation_eq_of_sameResults hE hc hc' hsame _ hn
    intro m hm
    by_contra hne
    exact hstandard ⟨m, hm, (hmem m).mpr hne⟩
  · rintro (⟨n, hn, hin⟩ | halike) order₁ order₂ timedOut timedOut' expr
    · have hne := (hmem n).mp hin
      have hne' : activation c' n ≠ none := by
        rwa [Ne, ← activation_eq_none_iff hE hc hc' (hE.standard_identifier hn)]
      rw [evaluate_toOption, evaluate_toOption, hE.run_standard (declares order₁ c) hn hne,
        hE.run_standard (declares order₂ c') hn hne']
    · rw [evaluate_toOption, evaluate_toOption]
      apply hE.run_congr (declares order₁ c) (declares order₂ c')
      intro n hn
      exact (activation_eq_iff hE hc hc' hn).mpr (halike n hn)

end OneHash

/-! ### Contexts of one variable -/

def contextOf (s : Scalar F) (hs : s.InRange) : Context F where
  fields := Finmap.singleton [0x78] (.scalar s)
  wellFormed := by
    intro k v h
    rw [GoMap.lookup_singleton, Option.ite_none_right_eq_some, Option.some_inj] at h
    rw [← h.2, GoAny.WellFormed]
    exact hs

lemma activation_contextOf (s : Scalar F) (hs : s.InRange) (n : GoString) :
    activation (contextOf s hs) n = if n = [0x78] then some (.atom (atomOf s)) else none := by
  rw [activation, contextOf, GoMap.lookup_singleton]
  split
  · rw [map_some, valueOf]
  · rfl

lemma hashContext_contextOf (enc : Encoding) (order : RangeOrder GoString) {s : Scalar F}
    (hs : s.InRange) {doc : Json} (hdoc : s.marshal = .ok doc) :
    hashContext enc order (contextOf s hs) =
      .ok (enc.sha256 (enc.write (.object [([0x78], doc)]))) := by
  have hentries : sortedEntries order (contextOf s hs).fields = [([0x78], .scalar s)] := by
    rw [sortedEntries, contextOf, keys_singleton, order.keys_singleton]
    simp [SliceSort.insertion]
  have hwritten : (GoAny.ofMap order (contextOf s hs).fields).marshal =
      .ok (.object [([0x78], doc)]) := by
    rw [GoAny.ofMap, hentries]
    simp [GoAny.marshal, marshalAll, MapKeys.texts, hdoc, bind, Except.bind]
  simp only [hashContext, copyFields_keys, hwritten]
  rfl

lemma evaluate_contextOf {E : Engine F} (hE : E.Lawful) (hx : E.identifier [0x78])
    (hstandard : ¬ E.standard [0x78]) (order : RangeOrder GoString) (timedOut : Bool)
    (s : Scalar F) (hs : s.InRange) :
    (evaluate E order timedOut [0x78] (contextOf s hs)).toOption = some (.atom (atomOf s)) := by
  have hnone : ∀ m, E.standard m → activation (contextOf s hs) m = none := by
    intro m hm
    rw [activation_contextOf, if_neg]
    rintro rfl
    exact hstandard hm
  have hvalue : activation (contextOf s hs) [0x78] = some (.atom (atomOf s)) := by
    rw [activation_contextOf, if_pos rfl]
  rw [evaluate_toOption, hE.run_identifier (declares order _) hnone hx hvalue]
  rfl

lemma inRange_int_one (w : Width) : (Scalar.int (F := F) w 1).InRange := by
  cases w <;> simp [Scalar.InRange, Width.HasInt, Width.bits]

lemma inRange_uint_one (w : Width) : (Scalar.uint (F := F) w 1).InRange := by
  cases w <;> simp [Scalar.InRange, Width.HasUint, Width.bits]

/-- A signed and an unsigned 1 have one hash, and the expression `x` tells them apart. -/
theorem int_and_uint_differ :
    (∀ (F : Floats) (enc : Encoding) (order order' : RangeOrder GoString), ∃ hash,
      hashContext enc order (contextOf (F := F) (.int .word 1) (inRange_int_one _)) = .ok hash ∧
      hashContext enc order' (contextOf (F := F) (.uint .word 1) (inRange_uint_one _)) =
        .ok hash) ∧
    ∀ (F : Floats) (E : Engine F), E.Lawful → E.identifier [0x78] → ¬ E.standard [0x78] →
      ∀ order timedOut,
        (evaluate E order timedOut [0x78] (contextOf (.int .word 1) (inRange_int_one _))).toOption =
          some (.atom (.int 1)) ∧
        (evaluate E order timedOut [0x78]
          (contextOf (.uint .word 1) (inRange_uint_one _))).toOption = some (.atom (.uint 1)) := by
  constructor
  · intro F enc order order'
    exact ⟨_, hashContext_contextOf enc order _ rfl, hashContext_contextOf enc order' _ rfl⟩
  · intro F E hE hx hstandard order timedOut
    exact ⟨evaluate_contextOf hE hx hstandard order timedOut _ _,
      evaluate_contextOf hE hx hstandard order timedOut _ _⟩

def wholeFloats : Floats where
  F32 := Int
  F64 := Int
  widen x := x
  numeral32 x := .ok (intNumeral x)
  numeral64 x := .ok (intNumeral x)
  numeral32_inj := by
    intro x y n hx hy
    cases hy
    exact intNumeral_inj (Except.ok.inj hx)
  numeral64_inj := by
    intro x y n hx hy
    cases hy
    exact intNumeral_inj (Except.ok.inj hx)

def documents : Encoding where
  Text := Json
  Hash := Json
  write doc := doc.coerced
  sha256 text := text
  coerced_eq h := h
  sha256_injective := Function.injective_id

/-- The width of an integer does not matter. -/
theorem widths_sameResults :
    SameResults (letters wholeFloats) (contextOf (.int .word 1) (inRange_int_one _))
      (contextOf (.int .w32 1) (inRange_int_one _)) := by
  apply (sameResults_iff (letters_lawful wholeFloats)
    (hashContext_contextOf documents byteOrder _ rfl)
    (hashContext_contextOf documents byteOrder _ rfl)).mpr
  right
  intro n _ v w hv hw
  rw [contextOf, GoMap.lookup_singleton, ite_none_right_eq_some, some_inj] at hv hw
  rw [← hv.2, ← hw.2, Alike]
  trivial

end Symkernel.CachedEvaluation
