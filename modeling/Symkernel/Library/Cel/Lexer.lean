import Symkernel.Library.Numeral

/-!
# The tokens of CEL

The lexer of the Common Expression Language as a transducer that reads one character at a
time. Hexadecimal and unsigned numbers, numeric escapes, and raw, byte and triple-quoted
strings are left out: the lexer refuses them.
-/

namespace Symkernel.Library.Cel

open List

inductive BinOp where
  | or | and | lt | le | gt | ge | eq | ne | isIn | add | sub | mul | div | mod
  deriving DecidableEq, Repr

inductive Token where
  | word (w : String)
  | int (n : Nat)
  | float (text : String)
  | string (s : String)
  | op (op : BinOp)
  | minus | bang | question | colon | comma | dot
  | lparen | rparen | lbrack | rbrack | lbrace | rbrace
  deriving DecidableEq, Repr

def isIdentStart (c : Char) : Bool :=
  c.isAlpha || c == '_'

def isIdentChar (c : Char) : Bool :=
  c.isAlphanum || c == '_'

def isWord : List Char → Bool
  | [] => false
  | c :: cs => isIdentStart c && cs.all isIdentChar

def isQuote (c : Char) : Bool :=
  c == '"' || c == '\''

def isBlank (c : Char) : Bool :=
  c == ' ' || c == '\t' || c == '\n' || c == '\r' || c == '\x0c'

def unescape : Char → Option Char
  | 'a' => some '\x07'
  | 'b' => some '\x08'
  | 'f' => some '\x0c'
  | 'n' => some '\n'
  | 'r' => some '\r'
  | 't' => some '\t'
  | 'v' => some '\x0b'
  | c => if c = '\\' ∨ c = '"' ∨ c = '\'' ∨ c = '?' then some c else none

/-- What has been read of the current token, the last character first. -/
inductive Mode where
  | start
  | word (acc : List Char)
  | digits (acc : List Char)
  | point (acc : List Char)
  | fraction (acc : List Char)
  | exponent (acc : List Char)
  | exponentSign (acc : List Char)
  | exponentDigits (acc : List Char)
  | dot
  | symbol (c : Char)
  | string (quote : Char) (acc : List Char)
  | escape (quote : Char) (acc : List Char)
  | empty (quote : Char)
  | slash
  | comment
  deriving DecidableEq

/-- The tokens that are complete when the current token ends here. -/
def Mode.ends : Mode → Option (List Token)
  | .start => some []
  | .word acc => some [.word (String.ofList acc.reverse)]
  | .digits acc => some [.int (decimalNat acc.reverse)]
  | .point acc => some [.int (decimalNat acc.reverse), .dot]
  | .fraction acc => some [.float (String.ofList acc.reverse)]
  | .exponentDigits acc => some [.float (String.ofList acc.reverse)]
  | .dot => some [.dot]
  | .symbol '<' => some [.op .lt]
  | .symbol '>' => some [.op .gt]
  | .symbol '!' => some [.bang]
  | .empty _ => some [.string ""]
  | .slash => some [.op .div]
  | .comment => some []
  | _ => none

def startStep (c : Char) : Option (List Token × Mode) :=
  if isBlank c then some ([], .start)
  else if isIdentStart c then some ([], .word [c])
  else if c.isDigit then some ([], .digits [c])
  else if isQuote c then some ([], .string c [])
  else
    match c with
    | '.' => some ([], .dot)
    | '/' => some ([], .slash)
    | '<' | '>' | '=' | '!' | '&' | '|' => some ([], .symbol c)
    | '+' => some ([.op .add], .start)
    | '*' => some ([.op .mul], .start)
    | '%' => some ([.op .mod], .start)
    | '-' => some ([.minus], .start)
    | '?' => some ([.question], .start)
    | ':' => some ([.colon], .start)
    | ',' => some ([.comma], .start)
    | '(' => some ([.lparen], .start)
    | ')' => some ([.rparen], .start)
    | '[' => some ([.lbrack], .start)
    | ']' => some ([.rbrack], .start)
    | '\x7b' => some ([.lbrace], .start)
    | '\x7d' => some ([.rbrace], .start)
    | _ => none

def symbolPair : Char → Char → Option Token
  | '<', '=' => some (.op .le)
  | '>', '=' => some (.op .ge)
  | '=', '=' => some (.op .eq)
  | '!', '=' => some (.op .ne)
  | '&', '&' => some (.op .and)
  | '|', '|' => some (.op .or)
  | _, _ => none

/-- What a character does to the current token: go on with it, end it before the character,
or make it ill-formed. -/
inductive Reading where
  | go (tokens : List Token) (m : Mode)
  | stop
  | bad
  deriving DecidableEq

def numberEnd (c : Char) : Reading :=
  if isIdentChar c || isQuote c then .bad else .stop

def Mode.read : Mode → Char → Reading
  | .start, _ => .stop
  | .word acc, c =>
    if isIdentChar c then .go [] (.word (c :: acc))
    else if isQuote c then .bad
    else .stop
  | .digits acc, c =>
    if c.isDigit then .go [] (.digits (c :: acc))
    else if c = '.' then .go [] (.point acc)
    else if c = 'e' ∨ c = 'E' then .go [] (.exponent (c :: acc))
    else numberEnd c
  | .point acc, c => if c.isDigit then .go [] (.fraction (c :: '.' :: acc)) else .stop
  | .fraction acc, c =>
    if c.isDigit then .go [] (.fraction (c :: acc))
    else if c = 'e' ∨ c = 'E' then .go [] (.exponent (c :: acc))
    else numberEnd c
  | .exponent acc, c =>
    if c.isDigit then .go [] (.exponentDigits (c :: acc))
    else if c = '+' ∨ c = '-' then .go [] (.exponentSign (c :: acc))
    else .bad
  | .exponentSign acc, c => if c.isDigit then .go [] (.exponentDigits (c :: acc)) else .bad
  | .exponentDigits acc, c =>
    if c.isDigit then .go [] (.exponentDigits (c :: acc)) else numberEnd c
  | .dot, c => if c.isDigit then .go [] (.fraction [c, '.']) else .stop
  | .symbol d, c =>
    match symbolPair d c with
    | some t => .go [t] .start
    | none => .stop
  | .string q acc, c =>
    if c = q then if acc = [] then .go [] (.empty q) else .go [.string (String.ofList acc.reverse)] .start
    else if c = '\\' then .go [] (.escape q acc)
    else if c = '\n' ∨ c = '\r' then .bad
    else .go [] (.string q (c :: acc))
  | .escape q acc, c =>
    match unescape c with
    | some x => .go [] (.string q (x :: acc))
    | none => .bad
  | .empty q, c => if c = q then .bad else .stop
  | .slash, c => if c = '/' then .go [] .comment else .stop
  | .comment, c => .go [] (if c = '\n' then .start else .comment)

def Mode.step (m : Mode) (c : Char) : Option (List Token × Mode) :=
  match m.read c with
  | .go tokens m' => some (tokens, m')
  | .bad => none
  | .stop => do
    let ended ← m.ends
    let (tokens, m') ← startStep c
    some (ended ++ tokens, m')

def lexFrom : Mode → List Char → Option (List Token)
  | m, [] => m.ends
  | m, c :: cs => do
    let (tokens, m') ← m.step c
    let rest ← lexFrom m' cs
    some (tokens ++ rest)

section Reading

variable {m m' : Mode} {c : Char} {cs rest : List Char} {ts : List Token}

lemma start_ends : Mode.start.ends = some [] := rfl

lemma Mode.ends_word (acc : List Char) :
    (Mode.word acc).ends = some [.word (String.ofList acc.reverse)] := rfl

lemma Mode.ends_fraction (acc : List Char) :
    (Mode.fraction acc).ends = some [.float (String.ofList acc.reverse)] := rfl

lemma Mode.ends_exponentDigits (acc : List Char) :
    (Mode.exponentDigits acc).ends = some [.float (String.ofList acc.reverse)] := rfl

lemma start_step (c : Char) : Mode.start.step c = startStep c := by
  show (startStep c).bind (fun r => some ([] ++ r.1, r.2)) = startStep c
  cases startStep c <;> rfl

lemma lexFrom_start (h : startStep c = some (ts, m)) :
    lexFrom .start (c :: cs) = (lexFrom m cs).map (ts ++ ·) := by
  simp only [lexFrom, start_step, h, Option.bind_eq_bind, Option.bind_some]
  cases lexFrom m cs <;> rfl

lemma lexFrom_go (h : m.read c = .go ts m') :
    lexFrom m (c :: cs) = (lexFrom m' cs).map (ts ++ ·) := by
  simp only [lexFrom, Mode.step, h, Option.bind_eq_bind, Option.bind_some]
  cases lexFrom m' cs <;> rfl

lemma lexFrom_more (h : m.read c = .go [] m') : lexFrom m (c :: cs) = lexFrom m' cs := by
  rw [lexFrom_go h]
  cases lexFrom m' cs <;> rfl

lemma lexFrom_begin (h : startStep c = some ([], m)) : lexFrom .start (c :: cs) = lexFrom m cs := by
  rw [lexFrom_start h]
  cases lexFrom m cs <;> rfl

lemma step_stop (hread : m.read c = .stop) (hends : m.ends = some ts) :
    m.step c = (startStep c).map (fun r => (ts ++ r.1, r.2)) := by
  simp only [Mode.step, hread, hends]
  cases startStep c <;> rfl

def Mode.StopsAt (m : Mode) (rest : List Char) : Prop :=
  ∀ c ∈ rest.head?, m.read c = .stop

lemma lexFrom_stop (hends : m.ends = some ts) (h : m.StopsAt rest) :
    lexFrom m rest = (lexFrom .start rest).map (ts ++ ·) := by
  cases rest with
  | nil => simp only [lexFrom, hends, start_ends, Option.map_some, append_nil]
  | cons c cs =>
    have hc : m.read c = .stop := h c rfl
    simp only [lexFrom, start_step, step_stop hc hends, Option.bind_eq_bind]
    cases startStep c with
    | none => rfl
    | some r =>
      simp only [Option.map_some, Option.bind_some]
      cases lexFrom r.2 cs with
      | none => rfl
      | some rest => simp only [Option.bind_some, Option.map_some, append_assoc]

variable {w : List Char}

lemma lexFrom_run {f : List Char → Mode} {p : Char → Bool}
    (hf : ∀ acc c, p c = true → (f acc).read c = .go [] (f (c :: acc))) (hw : ∀ c ∈ w, p c = true)
    (acc : List Char) : lexFrom (f acc) (w ++ rest) = lexFrom (f (w.reverse ++ acc)) rest := by
  induction w generalizing acc with
  | nil => rfl
  | cons c w ih =>
    have hgo := hf acc c (hw c mem_cons_self)
    rw [cons_append, lexFrom_more hgo, ih (fun d hd => hw d (mem_cons_of_mem c hd)),
      reverse_cons, append_assoc, singleton_append]

lemma word_run (acc : List Char) (c : Char) (h : isIdentChar c = true) :
    (Mode.word acc).read c = .go [] (.word (c :: acc)) := by
  simp only [Mode.read, h, if_true]

lemma digits_run (acc : List Char) (c : Char) (h : c.isDigit = true) :
    (Mode.digits acc).read c = .go [] (.digits (c :: acc)) := by
  simp only [Mode.read, h, if_true]

lemma fraction_run (acc : List Char) (c : Char) (h : c.isDigit = true) :
    (Mode.fraction acc).read c = .go [] (.fraction (c :: acc)) := by
  simp only [Mode.read, h, if_true]

lemma exponentDigits_run (acc : List Char) (c : Char) (h : c.isDigit = true) :
    (Mode.exponentDigits acc).read c = .go [] (.exponentDigits (c :: acc)) := by
  simp only [Mode.read, h, if_true]

lemma lexFrom_escaped {q : Char} {esc : Char → List Char}
    (hesc : ∀ c acc cs, lexFrom (.string q acc) (esc c ++ cs) = lexFrom (.string q (c :: acc)) cs)
    (s acc : List Char) : lexFrom (.string q acc) (s.flatMap esc ++ rest) =
      lexFrom (.string q (s.reverse ++ acc)) rest := by
  induction s generalizing acc with
  | nil => rfl
  | cons c s ih =>
    rw [flatMap_cons, append_assoc, hesc, ih, reverse_cons, append_assoc, singleton_append]

lemma not_isBlank_of_isIdentStart (h : isIdentStart c = true) : isBlank c = false := by
  rw [isBlank]
  simp only [Bool.or_eq_false_iff, beq_eq_false_iff_ne]
  refine ⟨⟨⟨⟨?_, ?_⟩, ?_⟩, ?_⟩, ?_⟩ <;> rintro rfl <;> exact absurd h (by decide)

lemma lexFrom_word (hw : isWord w = true) (hstop : (Mode.word []).StopsAt rest) :
    lexFrom .start (w ++ rest) = (lexFrom .start rest).map ([.word (String.ofList w)] ++ ·) := by
  cases w with
  | nil => cases hw
  | cons c w =>
    rw [isWord, Bool.and_eq_true] at hw
    have hstart : startStep c = some ([], .word [c]) := by
      simp only [startStep, not_isBlank_of_isIdentStart hw.1, hw.1, if_true, Bool.false_eq_true,
        if_false]
    have hends : (Mode.word (w.reverse ++ [c])).ends = some [.word (String.ofList (c :: w))] := by
      rw [← reverse_cons, Mode.ends_word, reverse_reverse]
    have hstops : (Mode.word (w.reverse ++ [c])).StopsAt rest := by
      intro d hd
      have hread := hstop d hd
      simp only [Mode.read] at hread ⊢
      split at hread
      · cases hread
      · rename_i hident
        simp only [hident]
        exact hread
    rw [cons_append, lexFrom_begin hstart, lexFrom_run word_run (List.all_eq_true.mp hw.2),
      lexFrom_stop hends hstops]

/-- The text after a complete operand: a separator or a selection. -/
def Follows : List Char → Bool
  | [] => true
  | '.' :: c :: _ => isIdentStart c
  | c :: _ => [' ', ')', ',', ']', '\x7d', ':'].contains c

lemma mem_of_follows (h : Follows (c :: cs) = true) :
    c ∈ [' ', ')', ',', ']', '\x7d', ':', '.'] := by
  by_cases hdot : c = '.'
  · simp [hdot]
  · unfold Follows at h
    split at h
    · cases ‹_ :: _ = []›
    · rename_i heq
      cases heq
      exact absurd rfl hdot
    · rename_i heq
      cases heq
      rw [contains_iff_mem] at h
      simp only [mem_cons] at h ⊢
      tauto

lemma stopsAt_of_follows (h : Follows rest = true) {m : Mode}
    (hm : ([' ', ')', ',', ']', '\x7d', ':', '.'].all fun c => m.read c = .stop) = true) :
    m.StopsAt rest := by
  intro c hc
  cases rest with
  | nil => cases hc
  | cons d cs =>
    cases hc
    exact of_decide_eq_true (List.all_eq_true.mp hm _ (mem_of_follows h))

lemma lexFrom_word_operand (hw : isWord w = true) (h : Follows rest = true) :
    lexFrom .start (w ++ rest) = (lexFrom .start rest).map ([.word (String.ofList w)] ++ ·) :=
  lexFrom_word hw (stopsAt_of_follows h rfl)

lemma not_isDigit_of_isIdentStart (h : isIdentStart c = true) : c.isDigit = false := by
  rw [isIdentStart, Bool.or_eq_true, beq_iff_eq] at h
  obtain halpha | rfl := h
  · rw [← Bool.not_eq_true]
    intro hdigit
    simp only [Char.isAlpha, Char.isUpper, Char.isLower, Char.isDigit, Bool.or_eq_true,
      Bool.and_eq_true, decide_eq_true_eq, UInt32.le_iff_toNat_le] at halpha hdigit
    have hA : 'A'.val.toNat = 65 := rfl
    have ha : 'a'.val.toNat = 97 := rfl
    have h9 : '9'.val.toNat = 57 := rfl
    omega
  · rfl

lemma lexFrom_select (h : isIdentStart c = true) :
    lexFrom .start ('.' :: c :: cs) = (lexFrom .start (c :: cs)).map ([.dot] ++ ·) := by
  have hstop : Mode.dot.StopsAt (c :: cs) := by
    intro d hd
    cases hd
    simp only [Mode.read, not_isDigit_of_isIdentStart h, Bool.false_eq_true, if_false]
  have hstart : startStep '.' = some ([], .dot) := rfl
  rw [lexFrom_begin hstart, lexFrom_stop rfl hstop]

lemma lexFrom_digits (h : Follows rest = true) (acc : List Char) : lexFrom (.digits acc) rest =
      (lexFrom .start rest).map ([.int (decimalNat acc.reverse)] ++ ·) := by
  by_cases hdot : ∃ c cs, rest = '.' :: c :: cs
  · obtain ⟨c, cs, rfl⟩ := hdot
    have hc : isIdentStart c = true := h
    have hgo : (Mode.digits acc).read '.' = .go [] (.point acc) := rfl
    have hstop : (Mode.point acc).StopsAt (c :: cs) := by
      intro d hd
      cases hd
      simp only [Mode.read, not_isDigit_of_isIdentStart hc, Bool.false_eq_true, if_false]
    rw [lexFrom_more hgo, lexFrom_stop rfl hstop, lexFrom_select hc, Option.map_map]
    rfl
  · refine lexFrom_stop rfl ?_
    intro c hc
    cases rest with
    | nil => cases hc
    | cons d cs =>
      cases hc
      have hmem := mem_of_follows h
      simp only [mem_cons, not_mem_nil, or_false] at hmem
      obtain rfl | rfl | rfl | rfl | rfl | rfl | rfl := hmem
      all_goals first | rfl | skip
      cases cs with
      | nil => cases h
      | cons e cs => exact absurd ⟨e, cs, rfl⟩ hdot

lemma startStep_digit (h : c.isDigit = true) : startStep c = some ([], .digits [c]) := by
  have hblank : isBlank c = false := by
    rw [isBlank]
    simp only [Bool.or_eq_false_iff, beq_eq_false_iff_ne]
    refine ⟨⟨⟨⟨?_, ?_⟩, ?_⟩, ?_⟩, ?_⟩ <;> rintro rfl <;> exact absurd h (by decide)
  have hident : isIdentStart c = false := by
    rw [← Bool.not_eq_true]
    intro hstart
    rw [not_isDigit_of_isIdentStart hstart] at h
    cases h
  simp only [startStep, hblank, hident, h, Bool.false_eq_true, if_false, if_true]

lemma lexFrom_numeral {ds : List Char} (hne : ds ≠ []) (hds : ∀ d ∈ ds, d.isDigit = true) :
    lexFrom .start (ds ++ rest) = lexFrom (.digits ds.reverse) rest := by
  cases ds with
  | nil => exact absurd rfl hne
  | cons d ds =>
    rw [cons_append, lexFrom_begin (startStep_digit (hds d mem_cons_self)),
      lexFrom_run digits_run (fun c hc => hds c (mem_cons_of_mem d hc)), reverse_cons]

lemma lexFrom_nat (n : Nat) (h : Follows rest = true) :
    lexFrom .start (Nat.toDigits 10 n ++ rest) = (lexFrom .start rest).map ([.int n] ++ ·) := by
  have hdigit : ∀ c ∈ Nat.toDigits 10 n, c.isDigit = true := fun c hc => isDigit_of_mem_toDigits hc
  have hval : decimalNat (Nat.toDigits 10 n) = n := Nat.ofDigitChars_ten_toDigits
  rw [lexFrom_numeral Nat.toDigits_ne_nil hdigit, lexFrom_digits h, reverse_reverse, hval]

lemma lexFrom_string {esc : Char → List Char} (hesc : ∀ c acc cs,
      lexFrom (.string '"' acc) (esc c ++ cs) = lexFrom (.string '"' (c :: acc)) cs)
    (s : List Char) (h : Follows rest = true) :
    lexFrom .start ('"' :: s.flatMap esc ++ '"' :: rest) =
      (lexFrom .start rest).map ([.string (String.ofList s)] ++ ·) := by
  have hstart : startStep '"' = some ([], .string '"' []) := rfl
  rw [cons_append, lexFrom_begin hstart, lexFrom_escaped hesc, append_nil]
  by_cases hs : s = []
  · subst hs
    have hgo : (Mode.string '"' []).read '"' = .go [] (.empty '"') := rfl
    rw [reverse_nil, lexFrom_more hgo, lexFrom_stop rfl (stopsAt_of_follows h rfl)]
  · have hgo : (Mode.string '"' s.reverse).read '"' = .go [.string (String.ofList s)] .start := by
      simp [Mode.read, hs]
    rw [lexFrom_go hgo]

end Reading

end Symkernel.Library.Cel
