import Symkernel.Library.SmtLib.Terms

/-!
# The lexicon of SMT-LIB

A scanner for the tokens of a script: parentheses, symbols (simple or between bars), reserved
words, keywords, numbers and string literals; comments reach to the end of the line. Tokens keep
their spelling. A text that ends inside a quoted symbol or a string has no tokens.
-/

namespace Symkernel.Library.SmtLib

open List

local instance lawfulBEqWord : LawfulBEq Text := inferInstanceAs (LawfulBEq (List Char))

inductive Atom where
  | symbol (text : Text)
  | reserved (text : Text)
  | keyword (text : Text)
  | numeral (text : Text)
  | decimal (text : Text)
  | hexadecimal (text : Text)
  | binary (text : Text)
  | string (text : Text)
  deriving DecidableEq, Repr

inductive Token where
  | opens
  | closes
  | atom (a : Atom)
  deriving DecidableEq, Repr

def isBlank (c : Char) : Bool :=
  c = ' ' ∨ c = '\t' ∨ c = '\n' ∨ c = '\r'

def isPrintable (c : Char) : Bool :=
  (32 ≤ c.toNat ∧ c.toNat ≤ 126) ∨ 128 ≤ c.toNat ∨ isBlank c

def isQuotable (c : Char) : Bool :=
  isPrintable c && c != '|' && c != '\\'

def isWordChar (c : Char) : Bool :=
  isSymbolChar c || c == ':' || c == '#'

def isHexDigit (c : Char) : Bool :=
  c.isDigit || ('a' ≤ c && c ≤ 'f') || ('A' ≤ c && c ≤ 'F')

def isNumeral (w : Text) : Bool :=
  w.all Char.isDigit && !w.isEmpty && (w.head? ≠ some '0' || w.length = 1)

def isDecimal (w : Text) : Bool :=
  match w.span (· ≠ '.') with
  | (whole, '.' :: digits) => isNumeral whole && digits.all Char.isDigit && !digits.isEmpty
  | _ => false

def wordAtom (w : Text) : Option Atom :=
  if isSimpleSymbol w then some (.symbol w)
  else if w ∈ reservedWords then some (.reserved w)
  else if isNumeral w then some (.numeral w)
  else if isDecimal w then some (.decimal w)
  else match w with
    | '#' :: 'x' :: d :: digits =>
      if (d :: digits).all isHexDigit then some (.hexadecimal w) else none
    | '#' :: 'b' :: d :: digits =>
      if (d :: digits).all (fun c => c = '0' ∨ c = '1') then some (.binary w) else none
    | ':' :: c :: name => if (c :: name).all isSymbolChar && !c.isDigit then some (.keyword w) else none
    | _ => none

/-- Where the scanner is, with the characters of an unfinished token, the last one in front. -/
inductive Mode where
  | between
  | word (read : Text)
  | quoted (read : Text)
  | string (read : Text)
  | stringEnd (read : Text)
  | comment
  deriving DecidableEq, Repr

namespace Mode

/-- A character that does not belong to the token before it. -/
def start (c : Char) : Option (List Token × Mode) :=
  if isBlank c then some ([], between)
  else if c = ';' then some ([], comment)
  else if c = '(' then some ([.opens], between)
  else if c = ')' then some ([.closes], between)
  else if c = '|' then some ([], quoted [])
  else if c = '"' then some ([], string [])
  else if isWordChar c then some ([], word [c])
  else none

def step : Mode → Char → Option (List Token × Mode)
  | between, c => start c
  | word read, c =>
    if isWordChar c then some ([], word (c :: read))
    else (wordAtom read.reverse).bind fun a => (start c).map fun r => (.atom a :: r.1, r.2)
  | quoted read, c =>
    if c = '|' then some ([.atom (.symbol ('|' :: read.reverse ++ ['|']))], between)
    else if isQuotable c then some ([], quoted (c :: read))
    else none
  | string read, c =>
    if c = '"' then some ([], stringEnd read)
    else if isPrintable c then some ([], string (c :: read))
    else none
  | stringEnd read, c =>
    -- two quotes in a row stand for one of them
    if c = '"' then some ([], string ('"' :: read))
    else (start c).map fun r => (.atom (.string read.reverse) :: r.1, r.2)
  | comment, c => some ([], if c = '\n' ∨ c = '\r' then between else comment)

def finish : Mode → Option (List Token)
  | between => some []
  | word read => (wordAtom read.reverse).map fun a => [.atom a]
  | quoted _ => none
  | string _ => none
  | stringEnd read => some [.atom (.string read.reverse)]
  | comment => some []

def scan : Mode → Text → Option (List Token)
  | m, [] => m.finish
  | m, c :: s => (m.step c).bind fun r => (r.2.scan s).map (r.1 ++ ·)

end Mode

def tokens (s : Text) : Option (List Token) :=
  Mode.between.scan s

namespace Mode

inductive Reads : Mode → Text → List Token → Mode → Prop where
  | nil (m : Mode) : Reads m [] [] m
  | cons {m m' m'' : Mode} {c : Char} {s : Text} {out out' : List Token}
      (hstep : m.step c = some (out, m')) (hrest : Reads m' s out' m'') :
      Reads m (c :: s) (out ++ out') m''

namespace Reads

variable {m m' m'' : Mode} {s t : Text} {out out' : List Token}

lemma append (hs : Reads m s out m') (ht : Reads m' t out' m'') :
    Reads m (s ++ t) (out ++ out') m'' := by
  induction hs with
  | nil m => exact ht
  | cons hstep _ ih =>
    rw [append_assoc]
    exact .cons hstep (ih ht)

lemma scan_append (hs : Reads m s out m') (t : Text) :
    m.scan (s ++ t) = (m'.scan t).map (out ++ ·) := by
  induction hs with
  | nil m => simp
  | cons hstep _ ih =>
    rw [cons_append, scan, hstep, Option.bind_some, ih]
    simp [Function.comp_def]

end Reads

lemma exists_reads {m : Mode} {s : Text} {ts : List Token} (h : m.scan s = some ts) :
    ∃ out m' last, Reads m s out m' ∧ m'.finish = some last ∧ ts = out ++ last := by
  induction s generalizing m ts with
  | nil => exact ⟨[], m, ts, .nil m, h, rfl⟩
  | cons c s ih =>
    obtain ⟨⟨out, m₁⟩, hstep, hrest⟩ := Option.bind_eq_some_iff.mp h
    obtain ⟨ts', hscan, rfl⟩ := Option.map_eq_some_iff.mp hrest
    obtain ⟨out', m', last, hreads, hfinish, rfl⟩ := ih hscan
    exact ⟨out ++ out', m', last, .cons hstep hreads, hfinish, by rw [append_assoc]⟩

lemma step_newline {m : Mode} {last : List Token} (h : m.finish = some last) :
    m.step '\n' = some (last, between) := by
  cases m with
  | between =>
    cases h
    rfl
  | word read =>
    obtain ⟨a, ha, rfl⟩ := Option.map_eq_some_iff.mp h
    have hchar : isWordChar '\n' = false := by decide
    simp only [step, ha]
    rfl
  | quoted read => cases h
  | string read => cases h
  | stringEnd read =>
    cases h
    rfl
  | comment =>
    cases h
    rfl

lemma scan_newline (m : Mode) (s : Text) : m.scan (s ++ ['\n']) = m.scan s := by
  induction s generalizing m with
  | nil =>
    cases hfinish : m.finish with
    | some last =>
      have hend : between.scan [] = some [] := rfl
      rw [nil_append, show m.scan [] = m.finish from rfl, hfinish]
      simp only [scan, step_newline hfinish, Option.bind_some] at hend ⊢
      rw [hend, Option.map_some, append_nil]
    | none =>
      cases m with
      | word read =>
        have hatom : wordAtom read.reverse = none := Option.map_eq_none_iff.mp hfinish
        have hchar : isWordChar '\n' = false := by decide
        simp [scan, step, hchar, hatom, finish]
      | quoted read => rfl
      | string read => rfl
      | between => cases hfinish
      | stringEnd read => cases hfinish
      | comment => cases hfinish
  | cons c s ih =>
    rw [cons_append, scan, scan]
    simp only [ih]

end Mode

variable {s w : Text} {ts out : List Token}

lemma Mode.Reads.tokens_append (h : Reads .between s out .between) (t : Text) :
    tokens (s ++ t) = (tokens t).map (out ++ ·) :=
  h.scan_append t

lemma Mode.Reads.tokens (h : Reads .between s out .between) : tokens s = some out := by
  have happend := h.tokens_append []
  rwa [append_nil, show SmtLib.tokens [] = some [] from rfl, Option.map_some, append_nil] at happend

lemma tokens_newline (s : Text) : tokens (s ++ ['\n']) = tokens s :=
  Mode.between.scan_newline s

open Mode in
lemma reads_line (h : tokens s = some ts) : Reads .between (s ++ ['\n']) ts .between := by
  obtain ⟨out, m, last, hreads, hfinish, rfl⟩ := exists_reads h
  have hnewline := hreads.append (.cons (step_newline hfinish) (.nil _))
  rwa [append_nil] at hnewline

def isQuotedSymbol : Text → Bool
  | '|' :: rest => rest.getLast? = some '|' && rest.dropLast.all isQuotable
  | _ => false

def isSymbol (w : Text) : Bool :=
  isSimpleSymbol w || isQuotedSymbol w

/-- The name that a spelling stands for: bars do not make a new symbol of a simple one. -/
def symbolName : Text → Text
  | '|' :: rest => rest.dropLast
  | w => w

variable {c : Char}

lemma start_of_isWordChar (h : isWordChar c = true) : Mode.start c = some ([], .word [c]) := by
  have hblank : isBlank c ≠ true := by
    intro hb
    simp only [isBlank, decide_eq_true_eq] at hb
    obtain rfl | rfl | rfl | rfl := hb <;> revert h <;> decide
  have hne : ∀ d : Char, isWordChar d = false → c ≠ d := by
    rintro d hd rfl
    rw [hd] at h
    cases h
  simp only [Mode.start, if_neg hblank, if_neg (hne ';' rfl), if_neg (hne '(' rfl),
    if_neg (hne ')' rfl), if_neg (hne '|' rfl), if_neg (hne '"' rfl), if_pos h]

lemma reads_word (w read : Text) (h : w.all isWordChar = true) :
    Mode.Reads (.word read) w [] (.word (w.reverse ++ read)) := by
  induction w generalizing read with
  | nil => exact .nil _
  | cons c w ih =>
    rw [all_cons, Bool.and_eq_true] at h
    have hstep : (Mode.word read).step c = some ([], .word (c :: read)) := by
      simp only [Mode.step, if_pos h.1]
    have hrest := Mode.Reads.cons hstep (ih (c :: read) h.2)
    rwa [reverse_cons, append_assoc]

lemma reads_quoted (w read : Text) (h : w.all isQuotable = true) :
    Mode.Reads (.quoted read) w [] (.quoted (w.reverse ++ read)) := by
  induction w generalizing read with
  | nil => exact .nil _
  | cons c w ih =>
    rw [all_cons, Bool.and_eq_true] at h
    have hbar : c ≠ '|' := by
      rintro rfl
      exact absurd h.1 (by decide)
    have hstep : (Mode.quoted read).step c = some ([], .quoted (c :: read)) := by
      simp only [Mode.step, if_neg hbar, if_pos h.1]
    have hrest := Mode.Reads.cons hstep (ih (c :: read) h.2)
    rwa [reverse_cons, append_assoc]

lemma reads_word_blank (h : (c :: w).all isWordChar = true) {a : Atom}
    (ha : wordAtom (c :: w) = some a) :
    Mode.Reads .between (c :: w ++ [' ']) [.atom a] .between := by
  rw [all_cons, Bool.and_eq_true] at h
  have hfirst : Mode.between.step c = some ([], .word [c]) := start_of_isWordChar h.1
  have hblank : (Mode.word (w.reverse ++ [c])).step ' ' = some ([.atom a], .between) := by
    have hchar : isWordChar ' ' = false := by decide
    have hread : (w.reverse ++ [c]).reverse = c :: w := by simp
    simp only [Mode.step, hread, ha]
    rfl
  exact (Mode.Reads.cons hfirst (reads_word w [c] h.2)).append (.cons hblank (.nil _))

lemma reads_symbol (h : isSymbol w = true) :
    Mode.Reads .between (w ++ [' ']) [.atom (.symbol w)] .between := by
  rw [isSymbol, Bool.or_eq_true] at h
  obtain h | h := h
  · have hchars : w.all isWordChar = true := by
      rw [isSimpleSymbol, Bool.and_eq_true, Bool.and_eq_true] at h
      rw [all_eq_true] at h ⊢
      intro c hc
      rw [isWordChar, h.1.1 c hc]
      rfl
    cases w with
    | nil => cases h
    | cons c w =>
      refine reads_word_blank hchars ?_
      unfold wordAtom
      rw [if_pos h]
  · unfold isQuotedSymbol at h
    split at h
    · rename_i rest
      rw [Bool.and_eq_true, decide_eq_true_iff] at h
      obtain ⟨hlast, hall⟩ := h
      obtain ⟨body, rfl⟩ := List.getLast?_eq_some_iff.mp hlast
      rw [dropLast_concat] at hall
      have hopen : Mode.between.step '|' = some ([], .quoted []) := by rfl
      have hquoted := Mode.Reads.cons hopen (reads_quoted body [] hall)
      have hclose : (Mode.quoted (body.reverse ++ [])).step '|' =
          some ([.atom (.symbol ('|' :: body ++ ['|']))], .between) := by
        simp only [Mode.step, if_true, append_nil, reverse_reverse]
      have hblank : Mode.between.step ' ' = some ([], .between) := by rfl
      have hend := hquoted.append (.cons hclose (.cons hblank (.nil _)))
      rw [cons_append, append_assoc]
      exact hend
    · cases h

def Mode.Quotable : Mode → Prop
  | .quoted read => read.all isQuotable = true
  | _ => True

lemma wordAtom_symbol {v : Text} (h : wordAtom w = some (.symbol v)) : isSymbol v = true := by
  unfold wordAtom at h
  split at h
  · rename_i hsimple
    cases h
    rw [isSymbol, hsimple, Bool.true_or]
  · split_ifs at h
    · cases h
    · cases h
    · cases h
    · split at h
      · split at h <;> cases h
      · split at h <;> cases h
      · split at h <;> cases h
      · cases h

lemma start_quotable {m : Mode} (h : Mode.start c = some (out, m)) :
    m.Quotable ∧ ∀ w, .atom (.symbol w) ∉ out := by
  unfold Mode.start at h
  split_ifs at h <;> cases h <;> simp [Mode.Quotable]

lemma step_symbols {m m' : Mode} (hm : m.Quotable) (h : m.step c = some (out, m')) :
    m'.Quotable ∧ ∀ w, .atom (.symbol w) ∈ out → isSymbol w = true := by
  cases m with
  | between =>
    obtain ⟨hq, hout⟩ := start_quotable h
    exact ⟨hq, fun w hw => absurd hw (hout w)⟩
  | word read =>
    simp only [Mode.step] at h
    split at h
    · cases h
      exact ⟨trivial, fun w hw => by cases hw⟩
    · obtain ⟨a, ha, hrest⟩ := Option.bind_eq_some_iff.mp h
      obtain ⟨r, hr, hout⟩ := Option.map_eq_some_iff.mp hrest
      cases hout
      obtain ⟨hq, hstart⟩ := start_quotable hr
      refine ⟨hq, fun w hw => ?_⟩
      obtain hw | hw := List.mem_cons.mp hw
      · cases hw
        exact wordAtom_symbol ha
      · exact absurd hw (hstart w)
  | quoted read =>
    simp only [Mode.step] at h
    split at h
    · cases h
      refine ⟨trivial, fun w hw => ?_⟩
      cases List.mem_singleton.mp hw
      have hall : read.reverse.all isQuotable = true := by
        rw [all_reverse]
        exact hm
      simp [isSymbol, isQuotedSymbol, hall]
    · split at h
      · rename_i hc
        cases h
        refine ⟨?_, fun w hw => by cases hw⟩
        rw [Mode.Quotable, all_cons, hc]
        exact hm
      · cases h
  | string read =>
    simp only [Mode.step] at h
    split_ifs at h <;> cases h <;> exact ⟨trivial, fun w hw => by cases hw⟩
  | stringEnd read =>
    simp only [Mode.step] at h
    split at h
    · cases h
      exact ⟨trivial, fun w hw => by cases hw⟩
    · obtain ⟨r, hr, hout⟩ := Option.map_eq_some_iff.mp h
      cases hout
      obtain ⟨hq, hstart⟩ := start_quotable hr
      refine ⟨hq, fun w hw => ?_⟩
      obtain hw | hw := List.mem_cons.mp hw
      · cases hw
      · exact absurd hw (hstart w)
  | comment =>
    cases h
    refine ⟨?_, fun w hw => by cases hw⟩
    split <;> trivial

lemma Mode.Reads.symbols {m m' : Mode} (h : Reads m s out m') (hm : m.Quotable) :
    m'.Quotable ∧ ∀ w, .atom (.symbol w) ∈ out → isSymbol w = true := by
  induction h with
  | nil m => exact ⟨hm, fun w hw => by cases hw⟩
  | cons hstep _ ih =>
    obtain ⟨hq, hout⟩ := step_symbols hm hstep
    obtain ⟨hq', hrest⟩ := ih hq
    exact ⟨hq', fun w hw => (List.mem_append.mp hw).elim (hout w) (hrest w)⟩

lemma isSymbol_of_mem_tokens (h : tokens s = some ts) (hw : .atom (.symbol w) ∈ ts) :
    isSymbol w = true := by
  obtain ⟨out, m, last, hreads, hfinish, rfl⟩ := Mode.exists_reads h
  obtain hw | hw := List.mem_append.mp hw
  · exact (hreads.symbols trivial).2 w hw
  · exact (step_symbols (hreads.symbols trivial).1 (Mode.step_newline hfinish)).2 w hw

end Symkernel.Library.SmtLib
