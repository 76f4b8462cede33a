import Symkernel.Library.GoJson
import Symkernel.Library.GoText

/-!
# Quoted strings

`strconv.Quote` reads a Go string character by character; a byte that belongs to no character is
written in hexadecimal.
-/

namespace Symkernel.Library

open List

def hexDigit (c : Char) : Nat :=
  if c.toNat < 97 then c.toNat - 48 else c.toNat - 87

def hexValue (cs : List Char) : Nat :=
  cs.foldl (fun n c => 16 * n + hexDigit c) 0

lemma hexDigit_digitChar {d : Nat} (h : d < 16) : hexDigit d.digitChar = d := by
  interval_cases d <;> rfl

lemma hexValue_toDigits (n : Nat) : hexValue (Nat.toDigits 16 n) = n := by
  induction n using Nat.strong_induction_on with
  | _ n ih =>
    rw [Nat.toDigits_eq_if (by decide)]
    split
    · rename_i hlt
      simp [hexValue, hexDigit_digitChar hlt]
    · rename_i hge
      have hquot := ih (n / 16) (by omega)
      have hdigit : hexDigit (n % 16).digitChar = n % 16 := hexDigit_digitChar (by omega)
      rw [hexValue] at hquot ⊢
      rw [foldl_append]
      simp only [foldl_cons, foldl_nil]
      omega

lemma hexValue_goHexPadded (width n : Nat) : hexValue (goHexPadded width n) = n := by
  have hzeros : ∀ k : Nat, hexValue (replicate k '0') = 0 := by
    intro k
    induction k with
    | zero => rfl
    | succ k ih => simpa [replicate_succ, hexValue, hexDigit] using ih
  have hdigits := hexValue_toDigits n
  have hpad := hzeros (width - (Nat.toDigits 16 n).length)
  unfold goHexPadded
  rw [hexValue] at hpad hdigits ⊢
  rw [foldl_append, hpad, hdigits]

lemma length_goHexPadded {width n : Nat} (hw : 0 < width) (hn : n < 16 ^ width) :
    (goHexPadded width n).length = width := by
  have hle := Nat.toDigits_length 16 n width hw hn
  simp only [goHexPadded, length_append, length_replicate]
  omega

lemma quote_notMem_toDigits (n : Nat) : '"' ∉ Nat.toDigits 16 n := by
  have hdigit : ∀ d < 16, '"' ∉ [Nat.digitChar d] := by decide
  induction n using Nat.strong_induction_on with
  | _ n ih =>
    rw [Nat.toDigits_eq_if (by decide)]
    split
    · rename_i hlt
      exact hdigit n hlt
    · rw [mem_append, not_or]
      exact ⟨ih (n / 16) (by omega), hdigit (n % 16) (Nat.mod_lt n (by decide))⟩

lemma quote_notMem_goHexPadded (width n : Nat) : '"' ∉ goHexPadded width n := by
  unfold goHexPadded
  simp [quote_notMem_toDigits]

variable {isPrint : Char → Bool}

def runeBytes : Char ⊕ UInt8 → GoString
  | .inl c => String.utf8EncodeChar c
  | .inr b => [b]

/-- The characters of a string and the bytes that belong to none, `left` bytes into which the
current character ends. -/
def runesFrom : Nat → GoString → List (Char ⊕ UInt8)
  | _, [] => []
  | left + 1, _ :: bs => runesFrom left bs
  | 0, b :: bs =>
    match (b :: bs).toByteArray.utf8DecodeChar? 0 with
    | some c => .inl c :: runesFrom (c.utf8Size - 1) bs
    | none => .inr b :: runesFrom 0 bs

def quoteRune (isPrint : Char → Bool) : Char ⊕ UInt8 → List Char
  | .inl c => goQuoteChar isPrint c
  | .inr b => '\\' :: 'x' :: goHexPadded 2 b.toNat

def goQuoteBytes (isPrint : Char → Bool) (s : GoString) : String :=
  String.ofList ('"' :: (runesFrom 0 s).flatMap (quoteRune isPrint) ++ ['"'])

lemma take_of_decodeChar {s : GoString} {c : Char} (h : s.toByteArray.utf8DecodeChar? 0 = some c) :
    s = String.utf8EncodeChar c ++ s.drop c.utf8Size := by
  have hbytes := String.toByteArray_utf8EncodeChar_of_utf8DecodeChar?_eq_some h
  have hdata := congrArg (fun b => b.data.toList) hbytes
  simp at hdata
  rw [hdata, take_append_drop]

lemma flatMap_runesFrom (left : Nat) (s : GoString) :
    (runesFrom left s).flatMap runeBytes = s.drop left := by
  induction s generalizing left with
  | nil => cases left <;> rfl
  | cons b s ih =>
    cases left with
    | succ left => exact ih left
    | zero =>
      rw [runesFrom]
      split
      · rename_i c hc
        have hsize := c.utf8Size_pos
        have hsplit := take_of_decodeChar hc
        have hdrop : (b :: s).drop c.utf8Size = s.drop (c.utf8Size - 1) := by
          obtain ⟨n, hn⟩ := Nat.exists_eq_add_one.mpr hsize
          rw [hn, drop_succ_cons, Nat.add_sub_cancel]
        rw [hdrop] at hsplit
        rw [flatMap_cons, ih]
        exact hsplit.symm
      · rw [flatMap_cons, ih]
        rfl

lemma runesFrom_utf8EncodeChar (c : Char) (s : GoString) :
    runesFrom 0 (String.utf8EncodeChar c ++ s) = .inl c :: runesFrom 0 s := by
  have hdecode : (String.utf8EncodeChar c ++ s).toByteArray.utf8DecodeChar? 0 = some c := by
    rw [toByteArray_append, ← utf8Encode_singleton]
    exact ByteArray.utf8DecodeChar?_append_eq_some utf8DecodeChar?_utf8Encode_singleton _
  have hskip : ∀ (bs : GoString) (left : Nat), left = bs.length →
      runesFrom left (bs ++ s) = runesFrom 0 s := by
    intro bs
    induction bs with
    | nil =>
      rintro left rfl
      rfl
    | cons b bs ih =>
      rintro left rfl
      exact ih _ rfl
  obtain ⟨b, bs, hbytes⟩ := exists_cons_of_length_pos (l := String.utf8EncodeChar c)
    (by rw [String.length_utf8EncodeChar]; exact c.utf8Size_pos)
  have hlen : c.utf8Size - 1 = bs.length := by
    rw [← String.length_utf8EncodeChar, hbytes, length_cons, Nat.add_sub_cancel]
  rw [hbytes, cons_append] at hdecode ⊢
  simp only [runesFrom, hdecode]
  rw [hskip bs _ hlen]

lemma goQuoteBytes_utf8 (isPrint : Char → Bool) (s : String) :
    goQuoteBytes isPrint s.toByteArray.data.toList = goQuote isPrint s := by
  have hrunes : ∀ cs : List Char, runesFrom 0 (cs.flatMap String.utf8EncodeChar) = cs.map .inl := by
    intro cs
    induction cs with
    | nil => rfl
    | cons c cs ih => rw [flatMap_cons, runesFrom_utf8EncodeChar, ih, map_cons]
  have hbytes : s.toByteArray.data.toList = s.toList.flatMap String.utf8EncodeChar := by
    rw [← String.utf8Encode_toList, utf8Encode, toList_data_toByteArray]
  rw [hbytes, goQuoteBytes, hrunes, flatMap_map]
  rfl

def letterEscapes : List (Char × Char) :=
  [('a', '\x07'), ('b', '\x08'), ('f', '\x0c'), ('n', '\n'), ('r', '\r'), ('t', '\t'), ('v', '\x0b')]

def hexEscapes : List (Char × Nat) :=
  [('x', 2), ('u', 4), ('U', 8)]

def codeBytes (width n : Nat) : GoString :=
  if width = 2 then [UInt8.ofNat n] else String.utf8EncodeChar (Char.ofNat n)

def unquoteHex (width : Nat) (cs : List Char) : GoString × List Char :=
  (codeBytes width (hexValue (cs.take width)), cs.drop width)

def unquoteChar : List Char → Option (GoString × List Char)
  | '\\' :: e :: cs =>
    match letterEscapes.lookup e, hexEscapes.lookup e with
    | some c, _ => some (String.utf8EncodeChar c, cs)
    | none, some width => some (unquoteHex width cs)
    | none, none => some (String.utf8EncodeChar e, cs)
  | c :: cs => some (String.utf8EncodeChar c, cs)
  | [] => none

inductive Quoted : GoString → List Char → Prop where
  | escaped {c : Char} (hc : c = '"' ∨ c = '\\') : Quoted (String.utf8EncodeChar c) ['\\', c]
  | plain {c : Char} (hquote : c ≠ '"') (hback : c ≠ '\\') : Quoted (String.utf8EncodeChar c) [c]
  | letter {c : Char} (e : Char) (he : (e, c) ∈ letterEscapes) :
    Quoted (String.utf8EncodeChar c) ['\\', e]
  | hex {n : Nat} (e : Char) (width : Nat) (he : (e, width) ∈ hexEscapes) (hn : n < 16 ^ width) :
    Quoted (codeBytes width n) ('\\' :: e :: goHexPadded width n)

lemma Quoted.wide {c : Char} (e : Char) (width : Nat) (he : (e, width) ∈ hexEscapes)
    (hwidth : width ≠ 2) (hn : c.toNat < 16 ^ width) :
    Quoted (String.utf8EncodeChar c) ('\\' :: e :: goHexPadded width c.toNat) := by
  have hbytes : codeBytes width c.toNat = String.utf8EncodeChar c := by
    rw [codeBytes, if_neg hwidth, Char.ofNat_toNat]
  rw [← hbytes]
  exact .hex e width he hn

lemma codeBytes_ascii {c : Char} (hc : c.toNat < 0x80) :
    codeBytes 2 c.toNat = String.utf8EncodeChar c := by
  have hle : c.val.toNat ≤ 127 := Nat.le_of_lt_succ hc
  rw [codeBytes, if_pos rfl, String.utf8EncodeChar, if_pos hle]
  rfl

lemma quoted_goQuoteChar (isPrint : Char → Bool) (c : Char) :
    Quoted (String.utf8EncodeChar c) (goQuoteChar isPrint c) := by
  have hrange : c.toNat < 16 ^ 8 := lt_of_lt_of_eq c.val.toNat_lt (by decide)
  refine iteInduction (fun hc => .escaped hc) (fun hc => ?_)
  refine iteInduction (fun _ => .plain (not_or.mp hc).1 (not_or.mp hc).2) (fun _ => ?_)
  refine iteInduction (fun ha => .letter 'a' (by simp [letterEscapes, ha])) (fun _ => ?_)
  refine iteInduction (fun hb => .letter 'b' (by simp [letterEscapes, hb])) (fun _ => ?_)
  refine iteInduction (fun hf => .letter 'f' (by simp [letterEscapes, hf])) (fun _ => ?_)
  refine iteInduction (fun hn => .letter 'n' (by simp [letterEscapes, hn])) (fun _ => ?_)
  refine iteInduction (fun hr => .letter 'r' (by simp [letterEscapes, hr])) (fun _ => ?_)
  refine iteInduction (fun ht => .letter 't' (by simp [letterEscapes, ht])) (fun _ => ?_)
  refine iteInduction (fun hv => .letter 'v' (by simp [letterEscapes, hv])) (fun _ => ?_)
  refine iteInduction (fun hx => ?_) (fun _ => ?_)
  · rw [← codeBytes_ascii (by omega)]
    exact .hex 'x' 2 (by simp [hexEscapes]) (by omega)
  refine iteInduction (fun hu => .wide 'u' 4 (by simp [hexEscapes]) (by decide) (by omega))
    (fun _ => ?_)
  exact .wide 'U' 8 (by simp [hexEscapes]) (by decide) hrange

lemma quoted_quoteRune (isPrint : Char → Bool) (r : Char ⊕ UInt8) :
    Quoted (runeBytes r) (quoteRune isPrint r) := by
  cases r with
  | inl c => exact quoted_goQuoteChar isPrint c
  | inr b =>
    have hbyte : runeBytes (.inr b) = codeBytes 2 b.toNat := by
      rw [codeBytes, if_pos rfl, UInt8.ofNat_toNat]
      rfl
    rw [hbyte]
    exact .hex 'x' 2 (by simp [hexEscapes]) b.toNat_lt

lemma unquoteHex_goHexPadded {width n : Nat} (hw : 0 < width) (hn : n < 16 ^ width)
    (cs : List Char) : unquoteHex width (goHexPadded width n ++ cs) = (codeBytes width n, cs) := by
  have hlen := length_goHexPadded hw hn
  rw [unquoteHex, take_append_of_le_length hlen.ge, drop_append_of_le_length hlen.ge,
    take_of_length_le hlen.le, drop_of_length_le hlen.le, hexValue_goHexPadded, nil_append]

lemma unquoteChar_plain {c : Char} (hc : c ≠ '\\') (cs : List Char) :
    unquoteChar (c :: cs) = some (String.utf8EncodeChar c, cs) := by
  unfold unquoteChar
  split <;> simp_all

variable {q u v : List Char} {bs s t : GoString} {rs rs' : List (Char ⊕ UInt8)}

lemma Quoted.unquoteChar_append (h : Quoted bs q) (cs : List Char) :
    unquoteChar (q ++ cs) = some (bs, cs) := by
  cases h with
  | escaped hc => obtain rfl | rfl := hc <;> rfl
  | plain _ hback => exact unquoteChar_plain hback cs
  | @letter c e he =>
    have hlookup : letterEscapes.lookup e = some c := by
      simp only [letterEscapes, mem_cons, not_mem_nil, or_false] at he
      rcases he with ⟨rfl, rfl⟩ | ⟨rfl, rfl⟩ | ⟨rfl, rfl⟩ | ⟨rfl, rfl⟩ | ⟨rfl, rfl⟩ | ⟨rfl, rfl⟩ |
        ⟨rfl, rfl⟩ <;> rfl
    simp [unquoteChar, hlookup]
  | hex e width he hn =>
    have hlookup : letterEscapes.lookup e = none ∧ hexEscapes.lookup e = some width ∧ 0 < width := by
      simp only [hexEscapes, mem_cons, not_mem_nil, or_false] at he
      rcases he with ⟨rfl, rfl⟩ | ⟨rfl, rfl⟩ | ⟨rfl, rfl⟩ <;> exact ⟨rfl, rfl, by decide⟩
    have hread := unquoteHex_goHexPadded hlookup.2.2 hn cs
    simp [unquoteChar, hlookup, hread]

lemma flatMap_quoteRune_inj (h : rs.flatMap (quoteRune isPrint) = rs'.flatMap (quoteRune isPrint)) :
    rs.flatMap runeBytes = rs'.flatMap runeBytes := by
  induction rs generalizing rs' with
  | nil =>
    cases rs' with
    | nil => rfl
    | cons r rs' =>
      have hread := (quoted_quoteRune isPrint r).unquoteChar_append
        (rs'.flatMap (quoteRune isPrint))
      rw [← flatMap_cons, ← h] at hread
      cases hread
  | cons r rs ih =>
    have hread := (quoted_quoteRune isPrint r).unquoteChar_append (rs.flatMap (quoteRune isPrint))
    rw [← flatMap_cons, h] at hread
    cases rs' with
    | nil => cases hread
    | cons r' rs' =>
      rw [flatMap_cons, (quoted_quoteRune isPrint r').unquoteChar_append, Option.some_inj,
        Prod.mk.injEq] at hread
      rw [flatMap_cons, flatMap_cons, hread.1, ih hread.2.symm]

lemma Quoted.quote (hq : Quoted bs q) (h : q = u ++ '"' :: v) : u = ['\\'] := by
  have hmem : '"' ∈ q := by simp [h]
  cases hq with
  | escaped hc =>
    match u, h with
    | [], h => cases h
    | [x], h =>
      cases h
      rfl
    | _ :: _ :: u, h => simp at h
  | plain hquote => exact absurd (List.mem_singleton.mp hmem).symm hquote
  | letter e he =>
    simp only [letterEscapes, mem_cons, not_mem_nil, or_false] at he hmem
    rcases he with ⟨rfl, -⟩ | ⟨rfl, -⟩ | ⟨rfl, -⟩ | ⟨rfl, -⟩ | ⟨rfl, -⟩ | ⟨rfl, -⟩ | ⟨rfl, -⟩ <;>
      simp at hmem
  | @hex n e width he =>
    simp only [hexEscapes, mem_cons, not_mem_nil, or_false] at he hmem
    have hhex := quote_notMem_goHexPadded width n
    rcases he with ⟨rfl, -⟩ | ⟨rfl, -⟩ | ⟨rfl, -⟩ <;> simp [hhex] at hmem

lemma flatMap_quoteRune_quote (h : rs.flatMap (quoteRune isPrint) = u ++ '"' :: v) :
    ∃ u', u = u' ++ ['\\'] := by
  induction rs generalizing u with
  | nil => simp at h
  | cons r rs ih =>
    rw [flatMap_cons, append_eq_append_iff] at h
    obtain ⟨u', rfl, hrest⟩ | ⟨w, hchar, hrest⟩ := h
    · obtain ⟨u'', rfl⟩ := ih hrest
      exact ⟨quoteRune isPrint r ++ u'', by simp⟩
    · cases w with
      | nil =>
        obtain ⟨u'', hu⟩ := ih (u := []) (by simpa using hrest.symm)
        simp at hu
      | cons x w =>
        rw [cons_append, List.cons.injEq] at hrest
        rw [← hrest.1] at hchar
        exact ⟨[], by simpa using (quoted_quoteRune isPrint r).quote hchar⟩

lemma quoted_start {m : List Char} (h : ':' :: '"' :: (rs.flatMap (quoteRune isPrint) ++ ['"']) =
      m ++ ':' :: '"' :: (rs'.flatMap (quoteRune isPrint) ++ ['"'])) : m = [] := by
  match m, h with
  | [], _ => rfl
  | [_], h => simp at h
  | _ :: _ :: m, h =>
    have hinside : rs.flatMap (quoteRune isPrint) =
        (m ++ [':']) ++ '"' :: rs'.flatMap (quoteRune isPrint) := by
      simp only [cons_append, List.cons.injEq] at h
      apply (append_left_inj ['"']).mp
      simpa using h.2.2
    obtain ⟨u, hu⟩ := flatMap_quoteRune_quote hinside
    simp at hu

/-- A name, two colons and a quoted string can be told apart whatever the name is. -/
lemma name_quoted_inj {a b : String}
    (h : a ++ "::" ++ goQuoteBytes isPrint s = b ++ "::" ++ goQuoteBytes isPrint t) :
    a = b ∧ s = t := by
  have hchars := congrArg String.toList h
  simp only [goQuoteBytes, String.toList_append, String.toList_ofList] at hchars
  have hshape : ∀ n q : List Char, n ++ "::".toList ++ ('"' :: q ++ ['"']) =
      (n ++ [':']) ++ ':' :: '"' :: (q ++ ['"']) := by simp
  rw [hshape, hshape] at hchars
  have hname : a.toList ++ [':'] = b.toList ++ [':'] := by
    obtain ⟨m, hm, hrest⟩ | ⟨m, hm, hrest⟩ := List.append_eq_append_iff.mp hchars
    · rw [hm, quoted_start hrest, append_nil]
    · rw [hm, quoted_start hrest, append_nil]
  rw [hname] at hchars
  have hquoted : (runesFrom 0 s).flatMap (quoteRune isPrint) =
      (runesFrom 0 t).flatMap (quoteRune isPrint) := by simpa using hchars
  have hbytes := flatMap_quoteRune_inj hquoted
  rw [flatMap_runesFrom, flatMap_runesFrom] at hbytes
  rw [append_left_inj, String.toList_inj] at hname
  exact ⟨hname, hbytes⟩

end Symkernel.Library
