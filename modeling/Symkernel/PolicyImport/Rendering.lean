import Symkernel.Library.SortedList
import Symkernel.PolicyImport.CedarValues
import Symkernel.PolicyImport.Rego

/-!
# Faithful literals and the order of enumeration

Sets and records are rendered element by element in the order in which Go enumerates them, and
the texts are sorted afterwards.
-/

namespace Symkernel.PolicyImport

open Library Library.Cel List

namespace Cedar

variable (isPrint : Char → Bool)

def celEntityUIDBytes (type : String) (id : GoString) : String :=
  celString (type ++ "::" ++ goQuoteBytes isPrint id)

lemma celEntityUIDBytes_utf8 (e : EntityUID) :
    celEntityUIDBytes isPrint e.type e.id.toByteArray.data.toList = celEntityUID isPrint e := by
  rw [celEntityUIDBytes, goQuoteBytes_utf8, celEntityUID]

variable {isPrint}

lemma celEntityUIDBytes_inj {type type' : String} {id id' : GoString}
    (h : celEntityUIDBytes isPrint type id = celEntityUIDBytes isPrint type' id') :
    type = type' ∧ id = id' :=
  name_quoted_inj (celString_injective h)

lemma celEntityUID_injective : Function.Injective (celEntityUID isPrint) :=
  fun _ _ h => uidText_inj (celString_injective h)

end Cedar

/-- A string literal is one token and has the value of the string; the literals of two entities
differ if their types or the bytes of their ids do. -/
theorem literals_faithful (isPrint : Char → Bool) :
    (∀ s : String, lexFrom .start (celString s).toList = some [.string s]) ∧
      Function.Injective (Cedar.celEntityUID isPrint) ∧
      (∀ e : Cedar.EntityUID, Cedar.celEntityUID isPrint e =
        Cedar.celEntityUIDBytes isPrint e.type e.id.toByteArray.data.toList) ∧
      ∀ (type type' : String) (id id' : GoString),
        Cedar.celEntityUIDBytes isPrint type id = Cedar.celEntityUIDBytes isPrint type' id' →
        type = type' ∧ id = id' :=
  ⟨lexFrom_celString, Cedar.celEntityUID_injective,
    fun e => (Cedar.celEntityUIDBytes_utf8 isPrint e).symm,
    fun _ _ _ _ => Cedar.celEntityUIDBytes_inj⟩

section Loop

variable {ε α β : Type} {f : α → Except ε β} {loop : List α → Except ε (List β)}
  {l l' : List α} {bs : List β}
  (hnil : loop [] = .ok [])
  (hcons : ∀ a l, loop (a :: l) = f a >>= fun b => loop l >>= fun bs => .ok (b :: bs))

include hnil hcons

lemma loop_eq_ok : loop l = .ok bs ↔ List.Forall₂ (fun a b => f a = .ok b) l bs := by
  induction l generalizing bs with
  | nil => rw [hnil, forall₂_nil_left_iff, Except.ok.injEq, eq_comm]
  | cons a l ih =>
    rw [hcons, bind_eq_ok, forall₂_cons_left_iff]
    constructor
    · rintro ⟨b, hb, h⟩
      obtain ⟨rest, hrest, h⟩ := bind_eq_ok.mp h
      cases h
      exact ⟨b, rest, hb, ih.mp hrest, rfl⟩
    · rintro ⟨b, rest, hb, hrest, rfl⟩
      exact ⟨b, hb, bind_eq_ok.mpr ⟨rest, ih.mpr hrest, rfl⟩⟩

lemma loop_forall₂ {R : α → α → Prop} (hl : List.Forall₂ R l l')
    (hR : ∀ a ∈ l, ∀ a' b, R a a' → f a = .ok b → f a' = .ok b) (h : loop l = .ok bs) :
    loop l' = .ok bs := by
  rw [loop_eq_ok hnil hcons] at h ⊢
  induction hl generalizing bs with
  | nil => exact h
  | cons hfirst _ ih =>
    cases h with
    | cons hb hrest =>
      have hrest' := ih (fun a ha => hR a (mem_cons_of_mem _ ha)) hrest
      exact .cons (hR _ mem_cons_self _ _ hfirst hb) hrest'

lemma loop_perm (hperm : l.Perm l') (h : loop l = .ok bs) :
    ∃ bs', loop l' = .ok bs' ∧ bs'.Perm bs := by
  rw [loop_eq_ok hnil hcons] at h
  obtain ⟨bs', hbs', hp⟩ := perm_comp_forall₂ hperm.symm h
  exact ⟨bs', (loop_eq_ok hnil hcons).mpr hbs', hp⟩

end Loop

lemma sorted_texts {parts parts' : List String} (h : parts'.Perm parts) :
    parts'.mergeSort (fun a b => decide (a ≤ b)) = parts.mergeSort (fun a b => decide (a ≤ b)) :=
  mergeSort_eq_of_perm (fun _ _ => decide_eq_true_iff) h (fun _ _ _ _ h => h)

namespace Cedar

/-- The same value with its sets and records enumerated in another order, at every level. A record
is a map, so its keys are distinct. -/
inductive Reordered : Value → Value → Prop where
  | same (v : Value) : Reordered v v
  | set {vs ws vs' : List Value} (h : List.Forall₂ Reordered vs ws) (hperm : ws.Perm vs') :
    Reordered (.set vs) (.set vs')
  | record {fs gs fs' : List (String × Value)} (hkeys : (fs.map Prod.fst).Nodup)
    (hsame : fs.map Prod.fst = gs.map Prod.fst)
    (h : List.Forall₂ Reordered (fs.map Prod.snd) (gs.map Prod.snd)) (hperm : gs.Perm fs') :
    Reordered (.record fs) (.record fs')

variable (isPrint : Char → Bool)

/-- The text of a value is that of its other enumerations. -/
def Settled (v : Value) : Prop :=
  ∀ v' s, Reordered v v' → value isPrint v = .ok s → value isPrint v' = .ok s

def field (f : String × Value) : Except UnsupportedError (String × String) :=
  value isPrint f.2 >>= fun s => .ok (celString f.1, s)

variable {isPrint}

lemma values_nil : values isPrint [] = .ok [] := rfl

lemma values_cons (v : Value) (vs : List Value) : values isPrint (v :: vs) =
    value isPrint v >>= fun s => values isPrint vs >>= fun rest => .ok (s :: rest) := rfl

lemma valueFields_nil : valueFields isPrint [] = .ok [] := rfl

lemma valueFields_cons (f : String × Value) (fs : List (String × Value)) :
    valueFields isPrint (f :: fs) =
      field isPrint f >>= fun it => valueFields isPrint fs >>= fun rest => .ok (it :: rest) := by
  rw [valueFields, field]
  cases value isPrint f.2 <;> rfl

lemma settled_set {vs : List Value} (h : ∀ v ∈ vs, Settled isPrint v) :
    Settled isPrint (.set vs) := by
  intro v' s hv hs
  cases hv with
  | same => exact hs
  | @set _ ws vs' hall hperm =>
    rw [value] at hs ⊢
    obtain ⟨parts, hparts, hs⟩ := bind_eq_ok.mp hs
    have hws := loop_forall₂ values_nil values_cons hall h hparts
    obtain ⟨parts', hparts', hp⟩ := loop_perm values_nil values_cons hperm hws
    rw [hparts', ← hs, ← sorted_texts hp]
    rfl

lemma valueFields_keys {fs : List (String × Value)} {items : List (String × String)}
    (h : valueFields isPrint fs = .ok items) :
    items.map Prod.fst = (fs.map Prod.fst).map celString := by
  rw [loop_eq_ok valueFields_nil valueFields_cons] at h
  induction h with
  | nil => rfl
  | cons hfirst _ ih =>
    obtain ⟨s, -, hs⟩ := bind_eq_ok.mp hfirst
    cases hs
    rw [map_cons, map_cons, map_cons, ih]

lemma settled_record {fs : List (String × Value)} (h : ∀ f ∈ fs, Settled isPrint f.2) :
    Settled isPrint (.record fs) := by
  intro v' s hv hs
  cases hv with
  | same => exact hs
  | @record _ gs fs' hkeys hsame hall hperm =>
    rw [value] at hs ⊢
    obtain ⟨items, hitems, hs⟩ := bind_eq_ok.mp hs
    have hfields : List.Forall₂ (fun f g => f.1 = g.1 ∧ Reordered f.2 g.2) fs gs := by
      rw [← forall₂_eq_eq_eq, forall₂_map_left_iff, forall₂_map_right_iff] at hsame
      rw [forall₂_map_left_iff, forall₂_map_right_iff] at hall
      exact hsame.mp (fun _ _ => And.intro) hall
    have hfield : ∀ f ∈ fs, ∀ g it, (f.1 = g.1 ∧ Reordered f.2 g.2) →
        field isPrint f = .ok it → field isPrint g = .ok it := by
      intro f hf g it hfg hit
      obtain ⟨t, ht, hit⟩ := bind_eq_ok.mp hit
      rw [field, h f hf g.2 t hfg.2 ht, ← hfg.1]
      exact hit
    have hgs := loop_forall₂ valueFields_nil valueFields_cons hfields hfield hitems
    obtain ⟨items', hitems', hp⟩ := loop_perm valueFields_nil valueFields_cons hperm hgs
    have hdistinct : (items.map Prod.fst).Nodup := by
      rw [valueFields_keys hitems]
      exact hkeys.map celString_injective
    have hsort : items.mergeSort (fun a b => decide (a.1 ≤ b.1)) =
        items'.mergeSort (fun a b => decide (a.1 ≤ b.1)) :=
      mergeSort_eq_of_perm (fun _ _ => decide_eq_true_iff) hp.symm (inj_on_of_nodup_map hdistinct)
    rw [hitems', ← hs, hsort]
    rfl

mutual

lemma value_settled : ∀ v : Value, Settled isPrint v
  | .set vs => settled_set (values_settled vs)
  | .record fs => settled_record (fields_settled fs)
  | .boolean _ | .long _ | .string _ | .entityUID _ | .other _ => by
    intro v' s hv hs
    cases hv
    exact hs

lemma values_settled : ∀ (vs : List Value), ∀ v ∈ vs, Settled isPrint v
  | [] => forall_mem_nil _
  | v :: vs => forall_mem_cons.mpr ⟨value_settled v, values_settled vs⟩

lemma fields_settled : ∀ (fs : List (String × Value)), ∀ f ∈ fs, Settled isPrint f.2
  | [] => forall_mem_nil _
  | (_, v) :: fs => forall_mem_cons.mpr ⟨value_settled v, fields_settled fs⟩

end

end Cedar

namespace Rego

/-- The same term with its sets enumerated in another order, at every level. -/
inductive Reordered : Term → Term → Prop where
  | same (t : Term) : Reordered t t
  | array {ts ts' : List Term} (h : List.Forall₂ Reordered ts ts') :
    Reordered (.array ts) (.array ts')
  | set {ts us ts' : List Term} (h : List.Forall₂ Reordered ts us) (hperm : us.Perm ts') :
    Reordered (.set ts) (.set ts')

variable (isPrint : Char → Bool)

def Settled (t : Term) : Prop :=
  ∀ t' s, Reordered t t' → term isPrint t = .ok s → term isPrint t' = .ok s

variable {isPrint}

lemma termList_nil : termList isPrint [] = .ok [] := rfl

lemma termList_cons (t : Term) (ts : List Term) : termList isPrint (t :: ts) =
    term isPrint t >>= fun s => termList isPrint ts >>= fun rest => .ok (s :: rest) := rfl

lemma settled_array {ts : List Term} (h : ∀ t ∈ ts, Settled isPrint t) :
    Settled isPrint (.array ts) := by
  intro t' s ht hs
  cases ht with
  | same => exact hs
  | array hall =>
    rw [term] at hs ⊢
    obtain ⟨parts, hparts, hs⟩ := bind_eq_ok.mp hs
    rw [loop_forall₂ termList_nil termList_cons hall h hparts]
    exact hs

lemma settled_set {ts : List Term} (h : ∀ t ∈ ts, Settled isPrint t) :
    Settled isPrint (.set ts) := by
  intro t' s ht hs
  cases ht with
  | same => exact hs
  | set hall hperm =>
    rw [term] at hs ⊢
    obtain ⟨parts, hparts, hs⟩ := bind_eq_ok.mp hs
    have hus := loop_forall₂ termList_nil termList_cons hall h hparts
    obtain ⟨parts', hparts', hp⟩ := loop_perm termList_nil termList_cons hperm hus
    rw [hparts', ← hs, ← sorted_texts hp]
    rfl

mutual

lemma term_settled : ∀ t : Term, Settled isPrint t
  | .array ts => settled_array (terms_settled ts)
  | .set ts => settled_set (terms_settled ts)
  | .boolean _ | .number _ | .string _ | .null | .ref _ | .call _ | .var _ | .other _ => by
    intro t' s ht hs
    cases ht
    exact hs

lemma terms_settled : ∀ (ts : List Term), ∀ t ∈ ts, Settled isPrint t
  | [] => forall_mem_nil _
  | t :: ts => forall_mem_cons.mpr ⟨term_settled t, terms_settled ts⟩

end

end Rego

/-- The text of an accepted value or term does not depend on the orders in which Go enumerates
its sets and records. -/
theorem rendering_order_independent (isPrint : Char → Bool) :
    (∀ (v v' : Cedar.Value) (s : String), Cedar.Reordered v v' →
      Cedar.value isPrint v = .ok s → Cedar.value isPrint v' = .ok s) ∧
    ∀ (t t' : Rego.Term) (s : String), Rego.Reordered t t' →
      Rego.term isPrint t = .ok s → Rego.term isPrint t' = .ok s :=
  ⟨fun v => Cedar.value_settled v, fun t => Rego.term_settled t⟩

/-- A record with a set, both in two orders. -/
theorem rendering_of_reordered : ∃ s, Cedar.value (fun _ => true)
        (.record [("b", .boolean true), ("a", .set [.string "y", .string "x"])]) = .ok s ∧
      Cedar.value (fun _ => true)
        (.record [("a", .set [.string "x", .string "y"]), ("b", .boolean true)]) = .ok s := by
  have hset : Cedar.Reordered (.set [.string "y", .string "x"]) (.set [.string "x", .string "y"]) :=
    .set (.cons (.same _) (.cons (.same _) .nil)) (.swap ..)
  have hrecord : Cedar.Reordered
      (.record [("b", .boolean true), ("a", .set [.string "y", .string "x"])])
      (.record [("a", .set [.string "x", .string "y"]), ("b", .boolean true)]) :=
    @Cedar.Reordered.record _ [("b", .boolean true), ("a", .set [.string "x", .string "y"])] _
      (by decide) rfl (.cons (.same _) (.cons hset .nil)) (.swap ..)
  exact ⟨_, rfl, (rendering_order_independent _).1 _ _ _ hrecord rfl⟩

end Symkernel.PolicyImport
