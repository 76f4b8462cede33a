import Symkernel.PolicyImport.Cedar
import Symkernel.PolicyImport.Literals

/-!
# The CEL trees of Cedar policies

`nodeTree` is the CEL expression that corresponds to a Cedar expression node for node.
`nodeSpine` is what the parser makes of the text that the translator writes for it.
-/

namespace Symkernel.PolicyImport.Cedar

open Library Library.Cel

def Operator.celOp : Operator → BinOp
  | .equals => .eq
  | .notEquals => .ne
  | .lessThan => .lt
  | .lessThanOrEqual => .le
  | .greaterThan => .gt
  | .greaterThanOrEqual => .ge
  | .and => .and
  | .or => .or
  | .add => .add
  | .sub => .sub
  | .mult => .mul

variable (isPrint : Char → Bool)

def uidText (e : EntityUID) : String :=
  e.type ++ "::" ++ goQuote isPrint e.id

mutual

/-- The literal of a value. The elements of a set are in the order of their texts, the fields
of a record in that of their names. -/
def valueTree : Value → Expr
  | .boolean b => .lit (.bool b)
  | .long n => .lit (.int n.val)
  | .string s => .lit (.string s)
  | .entityUID e => .lit (.string (uidText isPrint e))
  | .set elements =>
    .list (((valueTrees elements).mergeSort (fun a b => decide (a.1 ≤ b.1))).map Prod.snd)
  | .record fields =>
    let sorted := (fieldTrees fields).mergeSort (fun a b => decide (celString a.1 ≤ celString b.1))
    .map (sorted.map (fun f => .lit (.string f.1))) (sorted.map Prod.snd)
  | .other _ => .lit .null

def valueTrees : List Value → List (String × Expr)
  | [] => []
  | v :: vs => ((value isPrint v).toOption.getD "", valueTree v) :: valueTrees vs

def fieldTrees : List (String × Value) → List (String × Expr)
  | [] => []
  | (k, v) :: fs => (k, valueTree v) :: fieldTrees fs

end

def ancestors : String := "ancestors"
def entityType : String := "__entity_type"

mutual

def nodeTree : Node → Expr
  | .value v => valueTree isPrint v
  | .variable name => .ident name.name
  | .access arg attr => .select (nodeTree arg) attr
  | .has arg attr => .call "has" [.select (nodeTree arg) attr]
  | .binary op left right => .bin op.celOp (nodeTree left) (nodeTree right)
  | .not arg => .not (nodeTree arg)
  | .negate arg => .neg (nodeTree arg)
  | .isIn left right =>
    .bin .or (.bin .eq (nodeTree left) (nodeTree right))
      (.bin .isIn (nodeTree left) (.select (nodeTree right) ancestors))
  | .method m left right => .method (nodeTree left) m.name [nodeTree right]
  | .ifThenElse c t e => .cond (nodeTree c) (nodeTree t) (nodeTree e)
  | .set elements => .list (nodeTrees elements)
  | .record elements =>
    .map (elements.map (fun f => .lit (.string f.1))) (nodeFieldTrees elements)
  | .is left type => .bin .eq (.select (nodeTree left) entityType) (.lit (.string type))
  | _ => .lit .null

def nodeTrees : List Node → List Expr
  | [] => []
  | n :: ns => nodeTree n :: nodeTrees ns

def nodeFieldTrees : List (String × Node) → List Expr
  | [] => []
  | (_, n) :: ns => nodeTree n :: nodeFieldTrees ns

end

mutual

def nodeSpine : Node → Spine
  | .value v => .member (valueTree isPrint v)
  | .variable name => .member (.ident name.name)
  | .access arg attr => (nodeSpine arg).extend (.select · attr)
  | .has arg attr => .member (.call "has" [((nodeSpine arg).extend (.select · attr)).expr])
  | .binary op left right => .member ((nodeSpine left).chain [(op.celOp, nodeSpine right)])
  | .not arg => .unary false (nodeSpine arg).expr
  | .negate arg => .unary true (nodeSpine arg).expr
  | .isIn left right =>
    .member ((nodeSpine left).chain [(.eq, nodeSpine right), (.or, nodeSpine left),
      (.isIn, (nodeSpine right).extend (.select · ancestors))])
  | .method m left right =>
    (nodeSpine left).extend (fun e => .method e m.name [(nodeSpine right).expr])
  | .ifThenElse c t e => .member (.cond (nodeSpine c).expr (nodeSpine t).expr (nodeSpine e).expr)
  | .set elements => .member (.list ((nodeSpines elements).map Spine.expr))
  | .record elements =>
    .member (.map ((nodeFieldSpines elements).map Prod.fst)
      ((nodeFieldSpines elements).map (fun f => f.2.expr)))
  | .is left type => ((nodeSpine left).extend (.select · entityType)).equate (.lit (.string type))
  | _ => .member (.lit .null)

def nodeSpines : List Node → List Spine
  | [] => []
  | n :: ns => nodeSpine n :: nodeSpines ns

def nodeFieldSpines : List (String × Node) → List (Expr × Spine)
  | [] => []
  | (k, n) :: ns => (.lit (.string k), nodeSpine n) :: nodeFieldSpines ns

end

mutual

/-- Every attribute that is read or tested is a selector of CEL. -/
def namesOk : Node → Bool
  | .access arg attr => namesOk arg && isSelector attr
  | .has arg attr => namesOk arg && isSelector attr
  | .binary _ left right => namesOk left && namesOk right
  | .not arg => namesOk arg
  | .negate arg => namesOk arg
  | .isIn left right => namesOk left && namesOk right
  | .method _ left right => namesOk left && namesOk right
  | .ifThenElse c t e => namesOk c && namesOk t && namesOk e
  | .set elements => namesOkAll elements
  | .record elements => namesOkFields elements
  | .is left _ => namesOk left
  | _ => true

def namesOkAll : List Node → Bool
  | [] => true
  | n :: ns => namesOk n && namesOkAll ns

def namesOkFields : List (String × Node) → Bool
  | [] => true
  | (_, n) :: ns => namesOk n && namesOkFields ns

end

variable {isPrint}

lemma reads_sorted_map {l : List (String × String × Expr)}
    (h : ∀ f ∈ l, Reads f.2.1.toList (.member f.2.2)) : Reads ("\x7b" ++ String.intercalate ", "
        (((l.map (fun f => (celString f.1, f.2.1))).mergeSort (fun a b => decide (a.1 ≤ b.1))).map
          (fun it => it.1 ++ ": " ++ it.2)) ++ "\x7d").toList (.member (.map
        (((l.map (fun f => (f.1, f.2.2))).mergeSort
          (fun a b => decide (celString a.1 ≤ celString b.1))).map (fun f => .lit (.string f.1)))
        (((l.map (fun f => (f.1, f.2.2))).mergeSort
          (fun a b => decide (celString a.1 ≤ celString b.1))).map Prod.snd))) := by
  have htexts : (l.map (fun f => (celString f.1, f.2.1))).mergeSort
      (fun a b => decide (a.1 ≤ b.1)) =
      (l.mergeSort (fun a b => decide (celString a.1 ≤ celString b.1))).map
        (fun f => (celString f.1, f.2.1)) :=
    mergeSort_map ..
  have htrees : (l.map (fun f => (f.1, f.2.2))).mergeSort
      (fun a b => decide (celString a.1 ≤ celString b.1)) =
      (l.mergeSort (fun a b => decide (celString a.1 ≤ celString b.1))).map
        (fun f => (f.1, f.2.2)) :=
    mergeSort_map ..
  rw [htexts, htrees]
  have hentries : List.Forall₂ (fun text (e : Expr × Spine) => Entry text e.1 e.2)
      ((l.mergeSort (fun a b => decide (celString a.1 ≤ celString b.1))).map
        (fun f => (celString f.1 ++ ": " ++ f.2.1).toList))
      ((l.mergeSort (fun a b => decide (celString a.1 ≤ celString b.1))).map
        (fun f => (Expr.lit (.string f.1), Spine.member f.2.2))) := by
    apply forall₂_map
    intro f hf
    refine ⟨(celString f.1).toList, f.2.1.toList, ?_, reads_celString f.1,
      h f (List.mem_mergeSort.mp hf)⟩
    simp
  have hmap := Reads.map hentries
  simp only [String.toList_append, String.toList_intercalate, List.map_map]
  simp only [List.map_map] at hmap
  exact hmap

mutual

lemma value_reads : ∀ (v : Value) (s : String), value isPrint v = .ok s →
    Reads s.toList (.member (valueTree isPrint v))
  | .boolean b, s, h => by
    cases h
    cases b
    · exact reads_false
    · exact reads_true
  | .long n, s, h => by
    cases h
    exact reads_int n.lower n.upper
  | .string t, s, h => by
    cases h
    exact reads_celString t
  | .entityUID e, s, h => by
    cases h
    exact reads_celString _
  | .set elements, s, h => by
    obtain ⟨parts, hparts, h⟩ := bind_eq_ok.mp h
    cases h
    obtain ⟨rfl, hreads⟩ := values_reads elements parts hparts
    exact reads_sorted_list hreads
  | .record fields, s, h => by
    obtain ⟨items, hitems, h⟩ := bind_eq_ok.mp h
    cases h
    obtain ⟨l, rfl, htrees, hreads⟩ := valueFields_reads fields items hitems
    rw [valueTree, htrees]
    exact reads_sorted_map hreads
  | .other _, s, h => by cases h

lemma values_reads : ∀ (vs : List Value) (parts : List String), values isPrint vs = .ok parts →
    parts = (valueTrees isPrint vs).map Prod.fst ∧
      ∀ q ∈ valueTrees isPrint vs, Reads q.1.toList (.member q.2)
  | [], parts, h => by
    cases h
    exact ⟨rfl, by simp [valueTrees]⟩
  | v :: vs, parts, h => by
    obtain ⟨s, hs, h⟩ := bind_eq_ok.mp h
    obtain ⟨rest, hrest, h⟩ := bind_eq_ok.mp h
    cases h
    obtain ⟨rfl, hreads⟩ := values_reads vs rest hrest
    have htext : (value isPrint v).toOption.getD "" = s := by
      rw [hs]
      rfl
    refine ⟨by rw [valueTrees, List.map_cons, htext], ?_⟩
    intro q hq
    rw [valueTrees, List.mem_cons, htext] at hq
    obtain rfl | hq := hq
    · exact value_reads v s hs
    · exact hreads q hq

lemma valueFields_reads : ∀ (fs : List (String × Value)) (items : List (String × String)),
    valueFields isPrint fs = .ok items →
    ∃ l : List (String × String × Expr), items = l.map (fun f => (celString f.1, f.2.1)) ∧
      fieldTrees isPrint fs = l.map (fun f => (f.1, f.2.2)) ∧
      ∀ f ∈ l, Reads f.2.1.toList (.member f.2.2)
  | [], items, h => by
    cases h
    exact ⟨[], rfl, by rw [fieldTrees]; rfl, nofun⟩
  | (k, v) :: fs, items, h => by
    obtain ⟨s, hs, h⟩ := bind_eq_ok.mp h
    obtain ⟨rest, hrest, h⟩ := bind_eq_ok.mp h
    cases h
    obtain ⟨l, rfl, htrees, hreads⟩ := valueFields_reads fs rest hrest
    refine ⟨(k, s, valueTree isPrint v) :: l, rfl, by rw [fieldTrees, htrees, List.map_cons], ?_⟩
    intro f hf
    obtain rfl | hf := List.mem_cons.mp hf
    · exact value_reads v s hs
    · exact hreads f hf

end

lemma operator_symbol (op : Operator) : op.text.toList = op.celOp.symbol := by
  cases op <;> rfl

lemma reads_variable (x : Variable) : Reads x.name.toList (.member (.ident x.name)) := by
  cases x <;> exact Reads.word rfl rfl rfl

lemma isSelector_method (m : Method) : isSelector m.name = true := by
  cases m <;> decide

mutual

/-- The text of a node is read as its spine. -/
theorem node_reads : ∀ (n : Node) (s : String), node isPrint n = .ok s → namesOk n = true →
    Reads s.toList (nodeSpine isPrint n)
  | .value v, s, h, _ => by
    exact value_reads v s h
  | .variable x, s, h, _ => by
    cases h
    exact reads_variable x
  | .access arg attr, s, h, hok => by
    rw [namesOk, Bool.and_eq_true] at hok
    obtain ⟨base, hbase, h⟩ := bind_eq_ok.mp h
    cases h
    have hread := (node_reads arg base hbase hok.1).select hok.2
    rw [nodeSpine]
    simpa using hread
  | .has arg attr, s, h, hok => by
    rw [namesOk, Bool.and_eq_true] at hok
    obtain ⟨base, hbase, h⟩ := bind_eq_ok.mp h
    cases h
    have hread := (node_reads arg base hbase hok.1).select hok.2
    have hcall := hread.call (f := "has") rfl rfl
    rw [nodeSpine]
    simpa using hcall
  | .binary op left right, s, h, hok => by
    rw [namesOk, Bool.and_eq_true] at hok
    obtain ⟨ls, hl, h⟩ := bind_eq_ok.mp h
    obtain ⟨rs, hr, h⟩ := bind_eq_ok.mp h
    cases h
    have hchain := (node_reads left ls hl hok.1).chain
      (.cons ⟨show (op.celOp, rs.toList).1 = (op.celOp, nodeSpine isPrint right).1 from rfl,
        node_reads right rs hr hok.2⟩ .nil)
    rw [nodeSpine]
    simpa [chainText, operator_symbol] using hchain
  | .not arg, s, h, hok => by
    obtain ⟨t, ht, h⟩ := bind_eq_ok.mp h
    cases h
    have hread := (node_reads arg t ht hok).not
    rw [nodeSpine]
    simpa using hread
  | .negate arg, s, h, hok => by
    obtain ⟨t, ht, h⟩ := bind_eq_ok.mp h
    cases h
    have hread := (node_reads arg t ht hok).neg
    rw [nodeSpine]
    simpa using hread
  | .isIn left right, s, h, hok => by
    rw [namesOk, Bool.and_eq_true] at hok
    obtain ⟨ls, hl, h⟩ := bind_eq_ok.mp h
    obtain ⟨rs, hr, h⟩ := bind_eq_ok.mp h
    cases h
    have hleft := node_reads left ls hl hok.1
    have hright := node_reads right rs hr hok.2
    have hanc := hright.select (f := ancestors) (by decide)
    have hmore : List.Forall₂ (fun (t : BinOp × List Char) (sp : BinOp × Spine) =>
        t.1 = sp.1 ∧ Reads t.2 sp.2)
        [(.eq, rs.toList), (.or, ls.toList), (.isIn, rs.toList ++ '.' :: ancestors.toList)]
        [(.eq, nodeSpine isPrint right), (.or, nodeSpine isPrint left),
          (.isIn, (nodeSpine isPrint right).extend (.select · ancestors))] :=
      .cons ⟨rfl, hright⟩ (.cons ⟨rfl, hleft⟩ (.cons ⟨rfl, hanc⟩ .nil))
    have hchain := hleft.chain hmore
    rw [nodeSpine]
    simpa [chainText, BinOp.symbol, ancestors] using hchain
  | .method m left right, s, h, hok => by
    rw [namesOk, Bool.and_eq_true] at hok
    obtain ⟨ls, hl, h⟩ := bind_eq_ok.mp h
    obtain ⟨rs, hr, h⟩ := bind_eq_ok.mp h
    cases h
    have hread := (node_reads left ls hl hok.1).method (isSelector_method m)
      (node_reads right rs hr hok.2)
    rw [nodeSpine]
    simpa using hread
  | .ifThenElse c t e, s, h, hok => by
    rw [namesOk, Bool.and_eq_true, Bool.and_eq_true] at hok
    obtain ⟨cs, hc, h⟩ := bind_eq_ok.mp h
    obtain ⟨ts, ht, h⟩ := bind_eq_ok.mp h
    obtain ⟨es, he, h⟩ := bind_eq_ok.mp h
    cases h
    have hread := Reads.cond (node_reads c cs hc hok.1.1) (node_reads t ts ht hok.1.2)
      (node_reads e es he hok.2)
    rw [nodeSpine]
    simpa using hread
  | .set elements, s, h, hok => by
    obtain ⟨parts, hparts, h⟩ := bind_eq_ok.mp h
    cases h
    have hread := Reads.list (nodes_read elements parts hparts hok)
    rw [nodeSpine]
    simpa using hread
  | .record elements, s, h, hok => by
    obtain ⟨parts, hparts, h⟩ := bind_eq_ok.mp h
    cases h
    have hread := Reads.map (nodeFields_read elements parts hparts hok)
    rw [nodeSpine]
    simpa using hread
  | .is left type, s, h, hok => by
    obtain ⟨l, hl, h⟩ := bind_eq_ok.mp h
    cases h
    have hselect := (node_reads left l hl hok).select (f := entityType) (by decide)
    have hread := hselect.equate (reads_celString type)
    rw [nodeSpine]
    simpa [entityType] using hread
  | .like, s, h, _ => by cases h
  | .isInType, s, h, _ => by cases h
  | .tag, s, h, _ => by cases h
  | .isEmpty, s, h, _ => by cases h
  | .extensionCall _, s, h, _ => by cases h
  | .other _, s, h, _ => by cases h

lemma nodes_read : ∀ (ns : List Node) (parts : List String), nodes isPrint ns = .ok parts →
    namesOkAll ns = true → List.Forall₂ Reads (parts.map String.toList) (nodeSpines isPrint ns)
  | [], parts, h, _ => by
    cases h
    exact .nil
  | n :: ns, parts, h, hok => by
    rw [namesOkAll, Bool.and_eq_true] at hok
    obtain ⟨s, hs, h⟩ := bind_eq_ok.mp h
    obtain ⟨rest, hrest, h⟩ := bind_eq_ok.mp h
    cases h
    exact .cons (node_reads n s hs hok.1) (nodes_read ns rest hrest hok.2)

lemma nodeFields_read : ∀ (ns : List (String × Node)) (parts : List String),
    nodeFields isPrint ns = .ok parts → namesOkFields ns = true →
    List.Forall₂ (fun text (e : Expr × Spine) => Entry text e.1 e.2) (parts.map String.toList)
      (nodeFieldSpines isPrint ns)
  | [], parts, h, _ => by
    cases h
    exact .nil
  | (k, n) :: ns, parts, h, hok => by
    rw [namesOkFields, Bool.and_eq_true] at hok
    obtain ⟨s, hs, h⟩ := bind_eq_ok.mp h
    obtain ⟨rest, hrest, h⟩ := bind_eq_ok.mp h
    cases h
    refine .cons ⟨(celString k).toList, s.toList, ?_, reads_celString k, node_reads n s hs hok.1⟩
      (nodeFields_read ns rest hrest hok.2)
    simp

end

end Symkernel.PolicyImport.Cedar
