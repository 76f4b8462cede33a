import Symkernel.Library.Cel.Parser

/-!
# How the parser reads composed texts

For a program that writes CEL. A text that begins with `!` or `-`, or that has an equation at its
end, leaves an operator open, and what is written behind it belongs to its last member.
-/

namespace Symkernel.Library.Cel

open List Option

section Characters

variable {s s' : State} {c : Char} {cs rest : List Char} {ts : List Token} {t : Token}
  {stack : List Frame} {p : Place} {e : Expr}

lemma parseFrom_tokens (hlex : lexFrom .start cs = (lexFrom .start rest).map (ts ++ ·))
    (hrun : ts.foldlM State.step s = some s') : parseFrom s cs = parseFrom s' rest := by
  unfold parseFrom
  rw [hlex]
  cases lexFrom .start rest with
  | none => rfl
  | some us => simp only [map_some, bind_eq_bind, bind_some, foldlM_append, hrun]

lemma parseFrom_token (hlex : lexFrom .start cs = (lexFrom .start rest).map ([t] ++ ·))
    (hstep : s.step t = some s') : parseFrom s cs = parseFrom s' rest :=
  parseFrom_tokens hlex (by simp [hstep])

lemma parseFrom_blank (s : State) (cs : List Char) : parseFrom s (' ' :: cs) = parseFrom s cs := by
  have hstart : startStep ' ' = some ([], .start) := rfl
  unfold parseFrom
  rw [lexFrom_begin hstart]

lemma parseFrom_char (hc : startStep c = some ([t], .start)) (h : s.step t = some s') :
    parseFrom s (c :: cs) = parseFrom s' cs :=
  parseFrom_token (lexFrom_start hc) h

lemma step_value (hp : p.value = some e) (ht : t ≠ .lparen) :
    State.step ⟨stack, p⟩ t = afterStep stack e t := by
  cases p with
  | operand | sign | field => cases hp
  | after => cases hp; rfl
  | named w =>
    cases hp
    cases t <;> first | rfl | exact absurd rfl ht
  | selected e w =>
    cases hp
    cases t <;> first | rfl | exact absurd rfl ht

lemma parseFrom_after (hp : p.value = some e) (hc : startStep c = some ([t], .start))
    (ht : t ≠ .lparen) (h : afterStep stack e t = some s') :
    parseFrom ⟨stack, p⟩ (c :: cs) = parseFrom s' cs :=
  parseFrom_char hc (by rw [step_value hp ht, h])

end Characters

def BinOp.symbol : BinOp → List Char
  | .or => ['|', '|']
  | .and => ['&', '&']
  | .lt => ['<']
  | .le => ['<', '=']
  | .gt => ['>']
  | .ge => ['>', '=']
  | .eq => ['=', '=']
  | .ne => ['!', '=']
  | .isIn => ['i', 'n']
  | .add => ['+']
  | .sub => ['-']
  | .mul => ['*']
  | .div => ['/']
  | .mod => ['%']

def BinOp.token : BinOp → Token
  | .sub => .minus
  | .isIn => .word "in"
  | op => .op op

lemma binary_token (op : BinOp) : op.token.binary = some op := by
  cases op <;> rfl

lemma lexFrom_blank (cs : List Char) : lexFrom .start (' ' :: cs) = lexFrom .start cs :=
  lexFrom_begin rfl

lemma lexFrom_pair {c d : Char} {t : Token} (hc : startStep c = some ([], .symbol c))
    (hd : symbolPair c d = some t) (cs : List Char) :
    lexFrom .start (c :: d :: cs) = (lexFrom .start cs).map ([t] ++ ·) := by
  have hgo : (Mode.symbol c).read d = .go [t] .start := by
    simp only [Mode.read, hd]
  rw [lexFrom_begin hc, lexFrom_go hgo]

lemma lexFrom_ended {c : Char} {m : Mode} {t : Token} (hc : startStep c = some ([], m))
    (hends : m.ends = some [t]) {d : Char} (hread : m.read d = .stop) (cs : List Char) :
    lexFrom .start (c :: d :: cs) = (lexFrom .start (d :: cs)).map ([t] ++ ·) := by
  have hstop : m.StopsAt (d :: cs) := by
    intro x hx
    cases hx
    exact hread
  rw [lexFrom_begin hc, lexFrom_stop hends hstop]

lemma lexFrom_operator (op : BinOp) (cs : List Char) :
    lexFrom .start (op.symbol ++ ' ' :: cs) = (lexFrom .start cs).map ([op.token] ++ ·) := by
  rw [← lexFrom_blank cs]
  cases op with
  | or | and | le | ge | eq | ne => exact lexFrom_pair rfl rfl _
  | lt | gt | div => exact lexFrom_ended rfl rfl rfl _
  | isIn =>
    have hword : isWord ['i', 'n'] = true := rfl
    exact lexFrom_word_operand hword rfl
  | add | sub | mul | mod => exact lexFrom_start rfl

lemma parseFrom_operator (op : BinOp) (stack : List Frame) {p : Place} {e : Expr}
    (hp : p.value = some e) (cs : List Char) :
    parseFrom ⟨stack, p⟩ (' ' :: (op.symbol ++ ' ' :: cs)) =
      parseFrom ⟨.bin op (reduce op.prec stack e).2 :: (reduce op.prec stack e).1, .operand⟩ cs := by
  have hne : op.token ≠ .lparen := by
    intro heq
    have hbin := binary_token op
    rw [heq] at hbin
    cases hbin
  rw [parseFrom_blank]
  refine parseFrom_token (lexFrom_operator op cs) ?_
  rw [step_value hp hne]
  simp only [afterStep, binary_token]

/-! ### Operands -/

/-- What the parser makes of the text of an operand. In a relation, the equations between the
operands `first`, `mids` and `last` are not separated by parentheses. -/
inductive Spine where
  | member (e : Expr)
  | unary (neg : Bool) (e : Expr)
  | relation (first : Expr) (mids : List Expr) (last : Expr)

namespace Spine

def expr : Spine → Expr
  | .member e => e
  | .unary neg e => if neg then .neg e else .not e
  | .relation first mids last => .bin .eq (mids.foldl (.bin .eq) first) last

def extend (f : Expr → Expr) : Spine → Spine
  | .member e => .member (f e)
  | .unary neg e => .unary neg (f e)
  | .relation first mids last => .relation first mids (f last)

def equate (e : Expr) : Spine → Spine
  | .relation first mids last => .relation first (mids ++ [last]) e
  | sp => .relation sp.expr [] e

/-- The stack and the last member after the operand. -/
def push (sp : Spine) (stack : List Frame) : List Frame × Expr :=
  match sp with
  | .member e => (stack, e)
  | .unary neg e => ((if neg then .neg else .not) :: stack, e)
  | .relation first mids last =>
    let r := reduce 3 stack first
    (.bin .eq (mids.foldl (.bin .eq) r.2) :: r.1, last)

end Spine

def Bounded : List Frame → Bool
  | .not :: _ => false
  | .neg :: _ => false
  | .bin .. :: _ => false
  | _ => true

def Clear : List Frame → Bool
  | .not :: _ => false
  | .neg :: _ => false
  | _ => true

variable {stack : List Frame}

lemma clear_of_bounded (h : Bounded stack = true) : Clear stack = true := by
  cases stack with
  | nil => rfl
  | cons f stack =>
    cases f with
    | not | neg | bin => cases h
    | _ => rfl

lemma reduce_of_bounded (h : Bounded stack = true) {p : Nat} (hp : 1 ≤ p) (e : Expr) :
    reduce p stack e = (stack, e) := by
  have hne : p ≠ 0 := by omega
  cases stack with
  | nil => rfl
  | cons f stack =>
    cases f with
    | not | neg | bin => cases h
    | condElse => simp only [reduce, hne, if_false]
    | _ => rfl

lemma reduce_push (sp : Spine) (h : Bounded stack = true) {p : Nat} (hp : p ≤ 3) :
    reduce p (sp.push stack).1 (sp.push stack).2 = reduce p stack sp.expr := by
  cases sp with
  | member e => rfl
  | unary neg e => cases neg <;> rfl
  | relation first mids last =>
    rw [Spine.push, reduce_of_bounded h (by omega)]
    simp only [reduce, BinOp.prec, hp]
    rfl

/-- The text is read as the operand, in front of every separator and every selection. -/
def Reads (text : List Char) (sp : Spine) : Prop :=
  ∀ (stack : List Frame) (rest : List Char), Clear stack = true → Follows rest = true →
    ∃ p : Place, p.value = some (sp.push stack).2 ∧
      parseFrom ⟨stack, .operand⟩ (text ++ rest) = parseFrom ⟨(sp.push stack).1, p⟩ rest

section Reads

variable {text l r : List Char} {sp sl sr : Spine}

variable {t : Token} {p : Place} {e : Expr}

lemma Reads.of_token (hlex : ∀ rest, Follows rest = true →
      lexFrom .start (text ++ rest) = (lexFrom .start rest).map ([t] ++ ·))
    (hstep : ∀ stack, operandStep stack t = some ⟨stack, p⟩) (hp : p.value = some e) :
    Reads text (.member e) := by
  intro stack rest _ hrest
  exact ⟨p, hp, parseFrom_token (hlex rest hrest) (hstep stack)⟩

lemma Reads.word {w : String} (hw : isWord w.toList = true) (hop : wordOperand w = some p)
    (hp : p.value = some e) : Reads w.toList (.member e) := by
  have hstep : ∀ stack, operandStep stack (.word w) = some ⟨stack, p⟩ := by
    intro stack
    simp only [operandStep, hop, map_some]
  refine Reads.of_token ?_ hstep hp
  intro rest hrest
  rw [lexFrom_word_operand hw hrest, String.ofList_toList]

lemma Reads.string {esc : Char → List Char} (hesc : ∀ c acc cs,
      lexFrom (.string '"' acc) (esc c ++ cs) = lexFrom (.string '"' (c :: acc)) cs) (s : String) :
    Reads ('"' :: s.toList.flatMap esc ++ ['"']) (.member (.lit (.string s))) := by
  have hstep : ∀ stack, operandStep stack (.string s) =
      some ⟨stack, .after (.lit (.string s))⟩ := fun _ => rfl
  refine Reads.of_token ?_ hstep rfl
  intro rest hrest
  have hlex := lexFrom_string hesc s.toList hrest
  rw [String.ofList_toList] at hlex
  rw [← hlex, append_assoc, singleton_append]

lemma Reads.nat {n : Nat} (hn : n < 2 ^ 63) :
    Reads (Nat.toDigits 10 n) (.member (.lit (.int n))) := by
  have hstep : ∀ stack, operandStep stack (.int n) = some ⟨stack, .after (.lit (.int n))⟩ := by
    intro stack
    simp only [operandStep, hn, if_true]
  exact Reads.of_token (fun rest hrest => lexFrom_nat n hrest) hstep rfl

lemma Reads.negNat {n : Nat} (hn : n ≤ 2 ^ 63) :
    Reads ('-' :: Nat.toDigits 10 n) (.member (.lit (.int (-n)))) := by
  intro stack rest _ hrest
  refine ⟨.after (.lit (.int (-n))), rfl, ?_⟩
  have hminus : startStep '-' = some ([.minus], .start) := rfl
  have hsign : State.step ⟨stack, .operand⟩ .minus = some ⟨stack, .sign⟩ := rfl
  have hint : State.step ⟨stack, .sign⟩ (.int n) = some ⟨stack, .after (.lit (.int (-n)))⟩ := by
    simp only [State.step, signStep, hn, if_true]
  rw [cons_append, parseFrom_char hminus hsign, parseFrom_token (lexFrom_nat n hrest) hint]
  rfl

variable {f : String}

lemma follows_of_selector (hf : isSelector f = true) (rest : List Char) :
    Follows ('.' :: (f.toList ++ rest)) = true := by
  rw [isSelector, Bool.and_eq_true] at hf
  cases hlist : f.toList with
  | nil =>
    rw [hlist] at hf
    cases hf.1
  | cons c cs =>
    rw [hlist, isWord, Bool.and_eq_true] at hf
    exact hf.1.1

variable {below stack : List Frame} {rest : List Char}

lemma parseFrom_select (hf : isSelector f = true) (hp : p.value = some e)
    (hrest : (Mode.word []).StopsAt rest) : parseFrom ⟨stack, p⟩ ('.' :: (f.toList ++ rest)) =
      parseFrom ⟨stack, .selected e f⟩ rest := by
  have hfollow := follows_of_selector hf rest
  have hword : isWord f.toList = true := (Bool.and_eq_true _ _ ▸ hf).1
  have hlex : lexFrom .start ('.' :: (f.toList ++ rest)) =
      (lexFrom .start (f.toList ++ rest)).map ([.dot] ++ ·) := by
    cases hlist : f.toList with
    | nil =>
      rw [hlist] at hword
      cases hword
    | cons c cs =>
      rw [hlist] at hfollow
      exact lexFrom_select hfollow
  have hdot : State.step ⟨stack, p⟩ .dot = some ⟨stack, .field e⟩ := by
    rw [step_value hp (by decide)]
    rfl
  have hlexWord := lexFrom_word hword hrest
  rw [String.ofList_toList] at hlexWord
  have hfield : State.step ⟨stack, .field e⟩ (.word f) = some ⟨stack, .selected e f⟩ := by
    simp only [State.step, hf, if_true]
  rw [parseFrom_token hlex hdot, parseFrom_token hlexWord hfield]

lemma Reads.select (h : Reads text sp) (hf : isSelector f = true) :
    Reads (text ++ '.' :: f.toList) (sp.extend (.select · f)) := by
  intro stack rest hclear hrest
  obtain ⟨p, hp, hparse⟩ := h stack ('.' :: (f.toList ++ rest)) hclear (follows_of_selector hf rest)
  refine ⟨.selected (sp.push stack).2 f, ?_, ?_⟩
  · cases sp <;> rfl
  · rw [append_assoc, cons_append, hparse, parseFrom_select hf hp (stopsAt_of_follows hrest rfl)]
    cases sp <;> rfl

/-! ### Brackets -/

def Token.closes : Token → Bool
  | .question | .colon | .comma | .rparen | .rbrack | .rbrace => true
  | _ => false

lemma afterStep_push (sp : Spine) (h : Bounded stack = true) (ht : t.closes = true) :
    afterStep (sp.push stack).1 (sp.push stack).2 t = afterStep stack sp.expr t := by
  have hzero := reduce_push sp h (show 0 ≤ 3 by omega)
  have hone := reduce_push sp h (show 1 ≤ 3 by omega)
  cases t <;> cases ht <;> simp only [afterStep, Token.binary, hzero, hone]

lemma Reads.closed (h : Reads text sp) (hstack : Bounded stack = true) {c : Char}
    (hc : startStep c = some ([t], .start)) (ht : t.closes = true)
    (hrest : Follows (c :: rest) = true) {s : State} (hs : afterStep stack sp.expr t = some s) :
    parseFrom ⟨stack, .operand⟩ (text ++ c :: rest) = parseFrom s rest := by
  obtain ⟨p, hp, hparse⟩ := h stack (c :: rest) (clear_of_bounded hstack) hrest
  rw [hparse]
  refine parseFrom_after hp hc ?_ (by rw [afterStep_push sp hstack ht, hs])
  rintro rfl
  cases ht

lemma Reads.closed_blank (h : Reads text sp) (hstack : Bounded stack = true) {c : Char}
    (hc : startStep c = some ([t], .start)) (ht : t.closes = true) {s : State}
    (hs : afterStep stack sp.expr t = some s) :
    parseFrom ⟨stack, .operand⟩ (text ++ ' ' :: c :: rest) = parseFrom s rest := by
  obtain ⟨p, hp, hparse⟩ := h stack (' ' :: c :: rest) (clear_of_bounded hstack) rfl
  rw [hparse, parseFrom_blank]
  refine parseFrom_after hp hc ?_ (by rw [afterStep_push sp hstack ht, hs])
  rintro rfl
  cases ht

lemma parseFrom_lparen (stack : List Frame) (cs : List Char) :
    parseFrom ⟨stack, .operand⟩ ('(' :: cs) = parseFrom ⟨.paren :: stack, .operand⟩ cs :=
  parseFrom_char (t := .lparen) rfl rfl

lemma Reads.paren (h : Reads text sp) : Reads ('(' :: (text ++ [')'])) (.member sp.expr) := by
  intro stack rest _ _
  refine ⟨.after sp.expr, rfl, ?_⟩
  rw [cons_append, append_assoc, parseFrom_lparen]
  exact h.closed (t := .rparen) rfl rfl rfl rfl rfl

lemma Reads.not (h : Reads text sp) :
    Reads ('!' :: '(' :: (text ++ [')'])) (.unary false sp.expr) := by
  intro stack rest hclear hrest
  have hlex : lexFrom .start ('!' :: '(' :: (text ++ [')'] ++ rest)) =
      (lexFrom .start ('(' :: (text ++ [')'] ++ rest))).map ([.bang] ++ ·) :=
    lexFrom_ended rfl rfl rfl _
  have hbang : State.step ⟨stack, .operand⟩ .bang = some ⟨.not :: stack, .operand⟩ := by
    cases stack with
    | nil => rfl
    | cons f stack => cases f <;> first | rfl | cases hclear
  refine ⟨.after sp.expr, rfl, ?_⟩
  rw [cons_append, cons_append, parseFrom_token hlex hbang, parseFrom_lparen, append_assoc]
  exact h.closed (t := .rparen) rfl rfl rfl rfl rfl

lemma Reads.neg (h : Reads text sp) :
    Reads ('-' :: '(' :: (text ++ [')'])) (.unary true sp.expr) := by
  intro stack rest hclear hrest
  have hminus : startStep '-' = some ([.minus], .start) := rfl
  have hsign : State.step ⟨stack, .operand⟩ .minus = some ⟨stack, .sign⟩ := rfl
  have hparen : State.step ⟨stack, .sign⟩ .lparen = some ⟨.paren :: .neg :: stack, .operand⟩ := by
    cases stack with
    | nil => rfl
    | cons f stack => cases f <;> first | rfl | cases hclear
  refine ⟨.after sp.expr, rfl, ?_⟩
  rw [cons_append, cons_append, parseFrom_char hminus hsign,
    parseFrom_char (t := .lparen) rfl hparen, append_assoc]
  exact h.closed (t := .rparen) rfl rfl rfl rfl rfl

lemma Reads.cond {c t e : List Char} {sc st se : Spine} (hc : Reads c sc) (ht : Reads t st)
    (he : Reads e se) :
    Reads ('(' :: (c ++ ' ' :: '?' :: ' ' :: (t ++ ' ' :: ':' :: ' ' :: (e ++ [')']))))
      (.member (.cond sc.expr st.expr se.expr)) := by
  intro stack rest _ _
  refine ⟨.after (.cond sc.expr st.expr se.expr), rfl, ?_⟩
  simp only [cons_append, append_assoc]
  rw [parseFrom_lparen, hc.closed_blank (t := .question) rfl rfl rfl rfl, parseFrom_blank,
    ht.closed_blank (t := .colon) rfl rfl rfl rfl, parseFrom_blank]
  exact he.closed (t := .rparen) rfl rfl rfl rfl rfl

lemma Reads.method (h : Reads text sp) (hf : isSelector f = true) (hr : Reads r sr) :
    Reads (text ++ '.' :: (f.toList ++ '(' :: (r ++ [')'])))
      (sp.extend (fun e => .method e f [sr.expr])) := by
  intro stack rest hclear _
  obtain ⟨p, hp, hparse⟩ := h stack ('.' :: (f.toList ++ '(' :: (r ++ ')' :: rest))) hclear
    (follows_of_selector hf _)
  have hstop : (Mode.word []).StopsAt ('(' :: (r ++ ')' :: rest)) := by
    intro c hc
    cases hc
    rfl
  have hparen : State.step ⟨(sp.push stack).1, .selected (sp.push stack).2 f⟩ .lparen =
      some ⟨.methodArgs (sp.push stack).2 f [] :: (sp.push stack).1, .operand⟩ := rfl
  refine ⟨.after (.method (sp.push stack).2 f [sr.expr]), ?_, ?_⟩
  · cases sp <;> rfl
  · simp only [append_assoc, cons_append, nil_append]
    rw [hparse, parseFrom_select hf hp hstop, parseFrom_char (t := .lparen) rfl hparen,
      hr.closed (t := .rparen) rfl rfl rfl rfl rfl]
    cases sp <;> rfl

lemma Reads.call (hf : isWord f.toList = true) (hop : wordOperand f = some (.named f))
    (hr : Reads r sr) : Reads (f.toList ++ '(' :: (r ++ [')'])) (.member (.call f [sr.expr])) := by
  intro stack rest _ _
  have hstop : (Mode.word []).StopsAt ('(' :: (r ++ ')' :: rest)) := by
    intro c hc
    cases hc
    rfl
  have hlex := lexFrom_word hf hstop
  rw [String.ofList_toList] at hlex
  have hname : State.step ⟨stack, .operand⟩ (.word f) = some ⟨stack, .named f⟩ := by
    simp only [State.step, operandStep, hop, map_some]
  have hparen : State.step ⟨stack, .named f⟩ .lparen = some ⟨.args f [] :: stack, .operand⟩ := rfl
  refine ⟨.after (.call f [sr.expr]), rfl, ?_⟩
  simp only [append_assoc, cons_append, nil_append]
  rw [parseFrom_token hlex hname, parseFrom_char (t := .lparen) rfl hparen]
  exact hr.closed (t := .rparen) rfl rfl rfl rfl rfl

variable {texts : List (List Char)}

lemma parseFrom_items {sps : List Spine} (h : List.Forall₂ Reads texts sps) (hne : texts ≠ [])
    (done : List Expr) (stack : List Frame) (rest : List Char) :
    parseFrom ⟨.list done :: stack, .operand⟩ (List.intercalate [',', ' '] texts ++ ']' :: rest) =
      parseFrom ⟨stack, .after (.list (done ++ sps.map Spine.expr))⟩ rest := by
  induction h generalizing done with
  | nil => exact absurd rfl hne
  | @cons text sp texts sps hitem hitems ih =>
    cases hitems with
    | nil =>
      rw [intercalate_singleton]
      exact hitem.closed (t := .rbrack) rfl rfl rfl rfl rfl
    | cons hnext hmore =>
      rw [intercalate_cons_cons, append_assoc, append_assoc]
      simp only [cons_append, nil_append]
      rw [hitem.closed (t := .comma) rfl rfl rfl rfl rfl, parseFrom_blank, ih (by simp)]
      simp

lemma Reads.list {sps : List Spine} (h : List.Forall₂ Reads texts sps) :
    Reads ('[' :: (List.intercalate [',', ' '] texts ++ [']']))
      (.member (.list (sps.map Spine.expr))) := by
  intro stack rest _ _
  refine ⟨.after (.list (sps.map Spine.expr)), rfl, ?_⟩
  simp only [cons_append, append_assoc]
  rw [parseFrom_char (t := .lbrack) rfl rfl]
  cases h with
  | nil => exact parseFrom_char (t := .rbrack) rfl rfl
  | cons hitem hitems => exact parseFrom_items (.cons hitem hitems) (by simp) [] stack rest

lemma parseFrom_key {key : List Char} {k : Expr} (hkey : Reads key (.member k))
    (keys values : List Expr) (stack : List Frame) (rest : List Char) :
    parseFrom ⟨.mapKey keys values :: stack, .operand⟩ (key ++ ':' :: ' ' :: rest) =
      parseFrom ⟨.mapValue keys values k :: stack, .operand⟩ rest := by
  rw [hkey.closed (t := .colon) rfl rfl rfl rfl rfl, parseFrom_blank]
  rfl

structure Entry (text : List Char) (k : Expr) (sp : Spine) : Prop where
  split : ∃ key value, text = key ++ ':' :: ' ' :: value ∧ Reads key (.member k) ∧ Reads value sp

variable {entries : List (Expr × Spine)}

lemma parseFrom_entries (h : List.Forall₂ (fun text e => Entry text e.1 e.2) texts entries)
    (hne : texts ≠ []) (keys values : List Expr) (stack : List Frame) (rest : List Char) :
    parseFrom ⟨.mapKey keys values :: stack, .operand⟩
        (List.intercalate [',', ' '] texts ++ '\x7d' :: rest) =
      parseFrom ⟨stack, .after (.map (keys ++ entries.map Prod.fst)
        (values ++ entries.map (fun e => e.2.expr)))⟩ rest := by
  induction h generalizing keys values with
  | nil => exact absurd rfl hne
  | @cons text e texts entries hentry hentries ih =>
    obtain ⟨key, value, rfl, hkey, hvalue⟩ := hentry.split
    cases hentries with
    | nil =>
      rw [intercalate_singleton]
      simp only [append_assoc, cons_append]
      rw [parseFrom_key hkey]
      exact hvalue.closed (t := .rbrace) rfl rfl rfl rfl rfl
    | cons hnext hmore =>
      rw [intercalate_cons_cons]
      simp only [append_assoc, cons_append, nil_append]
      rw [parseFrom_key hkey, hvalue.closed (t := .comma) rfl rfl rfl rfl rfl, parseFrom_blank,
        ih (by simp)]
      simp

lemma Reads.map (h : List.Forall₂ (fun text e => Entry text e.1 e.2) texts entries) :
    Reads ('\x7b' :: (List.intercalate [',', ' '] texts ++ ['\x7d']))
      (.member (.map (entries.map Prod.fst) (entries.map (fun e => e.2.expr)))) := by
  intro stack rest _ _
  refine ⟨.after (.map (entries.map Prod.fst) (entries.map (fun e => e.2.expr))), rfl, ?_⟩
  simp only [cons_append, append_assoc]
  rw [parseFrom_char (t := .lbrace) rfl rfl]
  cases h with
  | nil => exact parseFrom_char (t := .rbrace) rfl rfl
  | cons hentry hentries =>
    exact parseFrom_entries (.cons hentry hentries) (by simp) [] [] stack rest

/-! ### Chains of binary operators -/

lemma reduce_reduce (p : Nat) (stack : List Frame) (e x : Expr) :
    reduce p (reduce p stack e).1 x = ((reduce p stack e).1, x) := by
  fun_induction reduce p stack e with
  | case1 _ _ ih => exact ih
  | case2 _ _ ih => exact ih
  | case3 _ _ _ _ _ ih => exact ih
  | case4 _ _ _ _ hp => simp only [reduce, hp, if_false]
  | case5 _ _ _ _ _ ih => exact ih
  | case6 _ _ _ _ hp => simp only [reduce, hp, if_false]
  | case7 stack e hnot hneg hbin hcond =>
    cases stack with
    | nil => rfl
    | cons f stack =>
      cases f with
      | not => exact absurd rfl (hnot stack)
      | neg => exact absurd rfl (hneg stack)
      | bin op l => exact absurd rfl (hbin op l stack)
      | condElse c t => exact absurd rfl (hcond c t stack)
      | _ => rfl

lemma Reads.equate (h : Reads text sp) {r : List Char} (hr : Reads r (.member e)) :
    Reads (text ++ ' ' :: '=' :: '=' :: ' ' :: r) (sp.equate e) := by
  intro stack rest hclear hrest
  obtain ⟨p, hp, hparse⟩ := h stack (' ' :: '=' :: '=' :: ' ' :: (r ++ rest)) hclear rfl
  have hop := parseFrom_operator .eq (sp.push stack).1 hp (r ++ rest)
  obtain ⟨q, hq, hlast⟩ := hr (.bin .eq (reduce 3 (sp.push stack).1 (sp.push stack).2).2 ::
    (reduce 3 (sp.push stack).1 (sp.push stack).2).1) rest rfl hrest
  have hpush : (sp.equate e).push stack =
      (.bin .eq (reduce 3 (sp.push stack).1 (sp.push stack).2).2 ::
        (reduce 3 (sp.push stack).1 (sp.push stack).2).1, e) := by
    cases sp with
    | member => rfl
    | unary neg e => cases neg <;> rfl
    | relation first mids last =>
      simp only [Spine.equate, Spine.push, foldl_append, foldl_cons, foldl_nil]
      rw [show reduce 3 (.bin .eq (mids.foldl (.bin .eq) (reduce 3 stack first).2) ::
          (reduce 3 stack first).1) last = reduce 3 (reduce 3 stack first).1
            (.bin .eq (mids.foldl (.bin .eq) (reduce 3 stack first).2) last) from rfl,
        reduce_reduce]
  refine ⟨q, ?_, ?_⟩
  · rw [hpush]
    exact hq
  · rw [hpush]
    simp only [append_assoc, cons_append]
    rw [hparse]
    exact hop.trans hlast

def chainText : List (BinOp × List Char) → List Char
  | [] => []
  | (op, text) :: more => ' ' :: (op.symbol ++ ' ' :: (text ++ chainText more))

def chainFrom : List Frame × Expr → List (BinOp × Spine) → List Frame × Expr
  | q, [] => q
  | q, (op, sp) :: more =>
    let r := reduce op.prec q.1 q.2
    chainFrom (sp.push (.bin op r.2 :: r.1)) more

/-- What the operators make of the operands when no parentheses are between them. -/
def Spine.chain (sp : Spine) (more : List (BinOp × Spine)) : Expr :=
  let q := chainFrom (sp.push []) more
  (reduce 0 q.1 q.2).2

lemma follows_chainText (more : List (BinOp × List Char)) (h : Follows rest = true) :
    Follows (chainText more ++ rest) = true := by
  cases more with
  | nil => exact h
  | cons => rfl

lemma parseFrom_chain {more : List (BinOp × List Char)} {sps : List (BinOp × Spine)}
    (h : List.Forall₂ (fun t s => t.1 = s.1 ∧ Reads t.2 s.2) more sps) {q : List Frame × Expr}
    (hp : p.value = some q.2) (hrest : Follows rest = true) :
    ∃ p' : Place, p'.value = some (chainFrom q sps).2 ∧
      parseFrom ⟨q.1, p⟩ (chainText more ++ rest) = parseFrom ⟨(chainFrom q sps).1, p'⟩ rest := by
  induction h generalizing q p with
  | nil => exact ⟨p, hp, rfl⟩
  | @cons t s more sps hfirst _ ih =>
    obtain ⟨op, text⟩ := t
    obtain ⟨op', sp⟩ := s
    obtain ⟨rfl, hreads⟩ := hfirst
    obtain ⟨p₁, hp₁, hparse⟩ := hreads (.bin op (reduce op.prec q.1 q.2).2 ::
      (reduce op.prec q.1 q.2).1) (chainText more ++ rest) rfl (follows_chainText more hrest)
    obtain ⟨p₂, hp₂, hrun⟩ := ih hp₁
    refine ⟨p₂, hp₂, ?_⟩
    simp only [chainText, cons_append, append_assoc]
    rw [parseFrom_operator op q.1 hp, hparse, hrun]
    rfl

lemma reduce_append (hbelow : ∀ p e, reduce p below e = (below, e)) (p : Nat) (stack : List Frame)
    (e : Expr) :
    reduce p (stack ++ below) e = ((reduce p stack e).1 ++ below, (reduce p stack e).2) := by
  induction stack generalizing e with
  | nil => exact hbelow p e
  | cons f stack ih =>
    cases f with
    | not => exact ih _
    | neg => exact ih _
    | bin op l =>
      simp only [cons_append, reduce]
      split
      · exact ih _
      · rfl
    | condElse c t =>
      simp only [cons_append, reduce]
      split
      · exact ih _
      · rfl
    | _ => rfl

lemma push_append (hbelow : ∀ p e, reduce p below e = (below, e)) (sp : Spine)
    (stack : List Frame) :
    sp.push (stack ++ below) = ((sp.push stack).1 ++ below, (sp.push stack).2) := by
  cases sp with
  | member => rfl
  | unary => rfl
  | relation first mids last =>
    simp only [Spine.push, reduce_append hbelow]
    rfl

lemma chainFrom_append (hbelow : ∀ p e, reduce p below e = (below, e))
    (sps : List (BinOp × Spine)) (q : List Frame × Expr) :
    chainFrom (q.1 ++ below, q.2) sps = ((chainFrom q sps).1 ++ below, (chainFrom q sps).2) := by
  induction sps generalizing q with
  | nil => rfl
  | cons s sps ih =>
    obtain ⟨op, sp⟩ := s
    simp only [chainFrom, reduce_append hbelow]
    rw [← cons_append, push_append hbelow, ih]

def Frame.isOperator : Frame → Bool
  | .not | .neg | .bin .. => true
  | _ => false

lemma reduce_operators (h : stack.all Frame.isOperator = true) (p : Nat) (e : Expr) :
    (reduce p stack e).1.all Frame.isOperator = true := by
  induction stack generalizing e with
  | nil => exact h
  | cons f stack ih =>
    rw [all_cons, Bool.and_eq_true] at h
    cases f with
    | not => exact ih h.2 _
    | neg => exact ih h.2 _
    | bin op l =>
      simp only [reduce]
      split
      · exact ih h.2 _
      · rw [all_cons, h.1, h.2]
        rfl
    | _ => cases h.1

lemma reduce_zero_operators (h : stack.all Frame.isOperator = true) (e : Expr) :
    (reduce 0 stack e).1 = [] := by
  induction stack generalizing e with
  | nil => rfl
  | cons f stack ih =>
    rw [all_cons, Bool.and_eq_true] at h
    cases f with
    | not => exact ih h.2 _
    | neg => exact ih h.2 _
    | bin op l => exact ih h.2 _
    | _ => cases h.1

lemma push_operators (sp : Spine) (h : stack.all Frame.isOperator = true) :
    (sp.push stack).1.all Frame.isOperator = true := by
  cases sp with
  | member => exact h
  | unary neg e =>
    cases neg
    · simpa [Spine.push, Frame.isOperator] using h
    · simpa [Spine.push, Frame.isOperator] using h
  | relation first mids last =>
    simp only [Spine.push, all_cons, reduce_operators h]
    rfl

lemma chainFrom_operators (sps : List (BinOp × Spine)) {q : List Frame × Expr}
    (h : q.1.all Frame.isOperator = true) : (chainFrom q sps).1.all Frame.isOperator = true := by
  induction sps generalizing q with
  | nil => exact h
  | cons s sps ih =>
    apply ih
    apply push_operators
    rw [all_cons, reduce_operators h]
    rfl

lemma reduce_chain (sp : Spine) (sps : List (BinOp × Spine)) :
    reduce 0 (chainFrom (sp.push []) sps).1 (chainFrom (sp.push []) sps).2 =
      ([], sp.chain sps) := by
  have hnone : ([] : List Frame).all Frame.isOperator = true := rfl
  have hops := chainFrom_operators sps (push_operators sp hnone)
  exact Prod.ext (reduce_zero_operators hops _) rfl

section Chain

variable {more : List (BinOp × List Char)} {sps : List (BinOp × Spine)}

lemma Reads.chain (h : Reads text sp)
    (hmore : List.Forall₂ (fun t s => t.1 = s.1 ∧ Reads t.2 s.2) more sps) :
    Reads ('(' :: (text ++ (chainText more ++ [')']))) (.member (sp.chain sps)) := by
  intro stack rest _ _
  have hbelow : ∀ p e, reduce p (.paren :: stack) e = (.paren :: stack, e) := fun _ _ => rfl
  obtain ⟨p, hp, hparse⟩ := h (.paren :: stack) (chainText more ++ ')' :: rest) rfl
    (follows_chainText more rfl)
  have hclose : Follows (')' :: rest) = true := rfl
  obtain ⟨p', hp', hchain⟩ := parseFrom_chain hmore hp hclose
  have hpush := push_append hbelow sp []
  rw [nil_append] at hpush
  rw [hpush, chainFrom_append hbelow] at hp' hchain
  refine ⟨.after (sp.chain sps), rfl, ?_⟩
  simp only [cons_append, append_assoc, nil_append]
  rw [parseFrom_lparen, hparse, hpush, hchain]
  refine parseFrom_after (t := .rparen) hp' rfl (by decide) ?_
  simp only [afterStep]
  rw [reduce_append hbelow, reduce_chain]
  rfl

lemma Reads.parse (h : Reads text sp)
    (hmore : List.Forall₂ (fun t s => t.1 = s.1 ∧ Reads t.2 s.2) more sps) :
    parseFrom ⟨[], .operand⟩ (text ++ chainText more) = some (sp.chain sps) := by
  obtain ⟨p, hp, hparse⟩ := h [] (chainText more ++ []) rfl (follows_chainText more rfl)
  have hend : Follows [] = true := rfl
  obtain ⟨p', hp', hchain⟩ := parseFrom_chain hmore hp hend
  rw [append_nil] at hparse hchain
  rw [hparse, hchain]
  simp only [parseFrom, lexFrom, start_ends, bind_eq_bind, bind_some,
    foldlM_nil, State.finish, Option.pure_def, hp', reduce_chain]

end Chain

end Reads

end Symkernel.Library.Cel
