import Symkernel.Library.Cel.Grouping
import Symkernel.PolicyImport.Text

/-!
# The literals of the emitted texts

A string literal is read back as the string, whatever characters it has.
-/

namespace Symkernel.PolicyImport

open Library Library.Cel List

lemma forall₂_map {α β γ : Type} {R : β → γ → Prop} {f : α → β} {g : α → γ} {l : List α}
    (h : ∀ a ∈ l, R (f a) (g a)) : List.Forall₂ R (l.map f) (l.map g) := by
  rw [forall₂_map_left_iff, forall₂_map_right_iff, forall₂_same]
  exact h

lemma exists_of_forall₂ {α β : Type} {R : α → β → Prop} {l : List α} {l' : List β}
    (h : List.Forall₂ R l l') {a : α} (ha : a ∈ l) : ∃ b, R a b := by
  induction h with
  | nil => cases ha
  | cons hfirst _ ih =>
    obtain rfl | ha := List.mem_cons.mp ha
    · exact ⟨_, hfirst⟩
    · exact ih ha

lemma mergeSort_map {α β : Type} (f : α → β) (le : β → β → Bool) (l : List α) :
    (l.map f).mergeSort le = (l.mergeSort (fun a b => le (f a) (f b))).map f := by
  symm
  exact map_mergeSort (fun _ _ _ _ => rfl)

lemma lexFrom_celChar (c : Char) (acc cs : List Char) :
    lexFrom (.string '"' acc) (celChar c ++ cs) = lexFrom (.string '"' (c :: acc)) cs := by
  have hescape : ∀ d x, unescape d = some x →
      lexFrom (.string '"' acc) ('\\' :: d :: cs) = lexFrom (.string '"' (x :: acc)) cs := by
    intro d x hd
    have hback : (Mode.string '"' acc).read '\\' = .go [] (.escape '"' acc) := rfl
    have hgo : (Mode.escape '"' acc).read d = .go [] (.string '"' (x :: acc)) := by
      simp only [Mode.read, hd]
    rw [lexFrom_more hback, lexFrom_more hgo]
  unfold celChar
  split
  · exact hescape '"' '"' rfl
  · exact hescape '\\' '\\' rfl
  · exact hescape 'n' '\n' rfl
  · exact hescape 'r' '\r' rfl
  · exact hescape 't' '\t' rfl
  · rename_i hquote hback hn hr _
    have hgo : (Mode.string '"' acc).read c = .go [] (.string '"' (c :: acc)) := by
      simp only [Mode.read]
      rw [if_neg (fun h => hquote h), if_neg (fun h => hback h),
        if_neg (fun h => h.elim (fun h => hn h) (fun h => hr h))]
    exact lexFrom_more hgo

lemma reads_celString (s : String) : Reads (celString s).toList (.member (.lit (.string s))) := by
  rw [celString, String.toList_ofList]
  exact Reads.string lexFrom_celChar s

lemma lexFrom_celString (s : String) : lexFrom .start (celString s).toList = some [.string s] := by
  have hlex := lexFrom_string lexFrom_celChar s.toList (show Follows [] = true from rfl)
  rw [celString, String.toList_ofList, hlex, String.ofList_toList]
  rfl

lemma celString_injective : Function.Injective celString := by
  intro s t h
  have hlex := lexFrom_celString s
  rw [h, lexFrom_celString, Option.some_inj, List.cons.injEq, Token.string.injEq] at hlex
  exact hlex.1.symm

lemma reads_true : Reads "true".toList (.member (.lit (.bool true))) :=
  Reads.word rfl rfl rfl

lemma reads_false : Reads "false".toList (.member (.lit (.bool false))) :=
  Reads.word rfl rfl rfl

lemma parse_true : parse "true" = some (.lit (.bool true)) := rfl

lemma reads_int {n : Int} (hlower : -2 ^ 63 ≤ n) (hupper : n < 2 ^ 63) :
    Reads (toString n).toList (.member (.lit (.int n))) := by
  cases n with
  | ofNat m =>
    have hm : m < 2 ^ 63 := by
      have hcast : ((m : Nat) : Int) < 2 ^ 63 := hupper
      omega
    have htext : (toString (Int.ofNat m)).toList = Nat.toDigits 10 m := by
      show (toString m).toList = _
      rw [Nat.toString_eq_ofList_toDigits, String.toList_ofList]
    rw [htext]
    exact Reads.nat hm
  | negSucc m =>
    have hm : m + 1 ≤ 2 ^ 63 := by omega
    have htext : (toString (Int.negSucc m)).toList = '-' :: Nat.toDigits 10 (m + 1) := by
      show ("-" ++ toString (m + 1)).toList = _
      simp
    rw [htext]
    exact Reads.negNat hm

lemma reads_sorted_list {items : List (String × Expr)}
    (h : ∀ q ∈ items, Reads q.1.toList (.member q.2)) : Reads ("[" ++ String.intercalate ", "
        ((items.map Prod.fst).mergeSort (fun a b => decide (a ≤ b))) ++ "]").toList
      (.member (.list ((items.mergeSort (fun a b => decide (a.1 ≤ b.1))).map Prod.snd))) := by
  have hsort : (items.map Prod.fst).mergeSort (fun a b => decide (a ≤ b)) =
      (items.mergeSort (fun a b => decide (a.1 ≤ b.1))).map Prod.fst :=
    mergeSort_map ..
  have hreads : List.Forall₂ Reads
      ((items.mergeSort (fun a b => decide (a.1 ≤ b.1))).map (fun q => q.1.toList))
      ((items.mergeSort (fun a b => decide (a.1 ≤ b.1))).map (fun q => Spine.member q.2)) :=
    forall₂_map (fun q hq => h q (List.mem_mergeSort.mp hq))
  have hlist := Reads.list hreads
  rw [hsort]
  simp only [String.toList_append, String.toList_intercalate, map_map]
  simp only [map_map] at hlist
  exact hlist

lemma reads_wrap {terms : List String} {sps : List Spine}
    (h : List.Forall₂ (fun t sp => Reads t.toList sp) terms sps) :
    List.Forall₂ (fun t sp => Reads t.toList sp) (wrap terms)
      (sps.map (fun sp => .member sp.expr)) := by
  rw [wrap, forall₂_map_left_iff, forall₂_map_right_iff]
  refine h.imp (fun t sp hread => ?_)
  simpa using hread.paren

section Joined

variable {op : BinOp} {sep : String} {terms : List String} {sps : List Spine}
  (hop : op.prec < 3) (hsep : sep.toList = ' ' :: (op.symbol ++ [' '])) (hne : terms ≠ [])
  (h : List.Forall₂ (fun t sp => Reads t.toList sp) terms sps)

include hop hsep hne h

lemma reads_joined (unit : Expr) : Reads ('(' :: ((String.intercalate sep terms).toList ++ [')']))
      (.member (Expr.join op unit (sps.map Spine.expr))) := by
  rw [String.toList_intercalate, hsep]
  cases h with
  | nil => exact absurd rfl hne
  | @cons t sp terms sps hfirst hrest =>
    have hreads := (forall₂_map_left_iff (f := String.toList)).mpr hrest
    have hchain := hfirst.chain (forall₂_operator op hreads)
    rw [chain_loose hop unit] at hchain
    rw [map_cons, intercalate_eq_chainText, append_assoc]
    exact hchain

lemma parse_joined (unit : Expr) :
    parse (String.intercalate sep terms) = some (Expr.join op unit (sps.map Spine.expr)) := by
  rw [parse, String.toList_intercalate, hsep]
  cases h with
  | nil => exact absurd rfl hne
  | @cons t sp terms sps hfirst hrest =>
    have hreads := (forall₂_map_left_iff (f := String.toList)).mpr hrest
    have hparse := hfirst.parse (forall₂_operator op hreads)
    rw [chain_loose hop unit] at hparse
    rw [map_cons, intercalate_eq_chainText]
    exact hparse

end Joined

end Symkernel.PolicyImport
