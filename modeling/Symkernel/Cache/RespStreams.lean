import Symkernel.Cache.RespCodec

/-!
# Any bytes

The lines that `readReply` reads as replies on any bytes, at every level of nesting.
-/

namespace Symkernel.Redis

open Library Resp Resp.Reply List

/-! ### The lines that are read -/

/-- A line that `readReply` has read, and the bytes that follow it. -/
structure Visit where
  tag : UInt8
  text : GoString
  rest : GoString

def visitOf (bs : GoString) : Option Visit :=
  match readLine bs with
  | none => none
  | some (text, rest) =>
    if text.length < 3 ∨ text[text.length - 2]? ≠ some 0x0d ∨
        text[text.length - 1]? ≠ some 0x0a then none
    else
      match text.take (text.length - 2) with
      | [] => none
      | tag :: payload => some { tag, text := payload, rest }

def Visit.count (v : Visit) : Nat :=
  if v.tag = 0x2a then
    match parseInt64 v.text with
    | none => 0
    | some n => if makeAccepts 16 n then n.toNat else 0
  else 0

def visitsElems (visits : GoString → List Visit)
    (read : GoString → Outcome ReplyError Value × GoString) : Nat → GoString → List Visit
  | 0, _ => []
  | n + 1, bs =>
    visits bs ++
      match read bs with
      | (.value _, rest) => visitsElems visits read n rest
      | (.failed _, _) | (.panicked, _) => []

def visitsFrom : Nat → GoString → List Visit
  | 0, _ => []
  | fuel + 1, bs =>
    match visitOf bs with
    | none => []
    | some v => v :: visitsElems (visitsFrom fuel) (readReplyFrom fuel) v.count v.rest

def visits (bs : GoString) : List Visit := visitsFrom (bs.length + 1) bs

variable {bs left text : GoString}

lemma readLine_eq_some {rest : GoString} (h : readLine bs = some (text, rest)) :
    ∃ l, 0x0a ∉ l ∧ text = l ++ [0x0a] ∧ bs = text ++ rest := by
  induction bs generalizing text with
  | nil => cases h
  | cons b bs ih =>
    rw [readLine] at h
    split at h
    · rename_i hb
      cases h
      exact ⟨[], not_mem_nil, by rw [hb]; rfl, rfl⟩
    · rename_i hb
      obtain ⟨⟨text', rest'⟩, hread, heq⟩ := Option.map_eq_some_iff.mp h
      cases heq
      obtain ⟨l, hl, rfl, rfl⟩ := ih hread
      exact ⟨b :: l, not_mem_cons_of_ne_of_not_mem (Ne.symm hb) hl, rfl, rfl⟩

lemma eq_line_of_checked {tag : UInt8} {payload : GoString}
    (h : ¬(text.length < 3 ∨ text[text.length - 2]? ≠ some 0x0d ∨
      text[text.length - 1]? ≠ some 0x0a)) (htake : text.take (text.length - 2) = tag :: payload) :
    text = line tag payload := by
  rw [not_or, not_or, not_not, not_not] at h
  obtain ⟨hlength, hcr, hlf⟩ := h
  have hdrop : text.drop (text.length - 2) = crlf := by
    rw [drop_eq_getElem_cons (by omega), drop_eq_getElem_cons (by omega),
      drop_of_length_le (by omega)]
    rw [List.getElem?_eq_getElem (by omega)] at hcr hlf
    rw [Option.some.inj hcr]
    congr 2
    rw [← Option.some.inj hlf]
    congr 1
    omega
  rw [← take_append_drop (text.length - 2) text, hdrop, htake, line]

variable {v : Visit}

lemma visitOf_eq_some (h : visitOf bs = some v) :
    bs = line v.tag v.text ++ v.rest ∧ v.tag ≠ 0x0a ∧ 0x0a ∉ v.text := by
  unfold visitOf at h
  cases hread : readLine bs with
  | none =>
    rw [hread] at h
    cases h
  | some r =>
    obtain ⟨text, rest⟩ := r
    obtain ⟨l, hl, hlf, hbs⟩ := readLine_eq_some hread
    rw [hread] at h
    simp only at h
    split at h
    · cases h
    · rename_i hchecked
      split at h
      · cases h
      · rename_i tag payload htake
        cases h
        have hline := eq_line_of_checked hchecked htake
        refine ⟨by rw [hbs, hline], ?_⟩
        have hpayload : tag :: payload ++ [0x0d] = l := by
          have heq : (tag :: payload ++ [0x0d]) ++ [0x0a] = l ++ [0x0a] := by
            rw [← hlf, hline, append_assoc]
            rfl
          exact append_cancel_right heq
        have hnone : 0x0a ∉ tag :: payload := by
          intro hmem
          rw [← hpayload] at hl
          exact hl (mem_append_left _ hmem)
        rw [mem_cons, not_or] at hnone
        exact ⟨Ne.symm hnone.1, hnone.2⟩

lemma visitOf_line {tag : UInt8} (htag : tag ≠ 0x0a) (htext : 0x0a ∉ text) (rest : GoString) :
    visitOf (line tag text ++ rest) = some { tag, text, rest } := by
  rw [visitOf, readLine_tagged htag htext]
  simp only
  rw [if_neg (line_checked tag text), line_take]

lemma readReplyFrom_visit (h : visitOf bs = some v) (fuel : Nat) :
    readReplyFrom (fuel + 1) bs = readPayload (readReplyFrom fuel) (v.tag :: v.text) v.rest := by
  obtain ⟨hbs, htag, htext⟩ := visitOf_eq_some h
  rw [hbs, readReplyFrom_line htag htext]

lemma visitsFrom_visit (h : visitOf bs = some v) (fuel : Nat) : visitsFrom (fuel + 1) bs =
      v :: visitsElems (visitsFrom fuel) (readReplyFrom fuel) v.count v.rest := by
  rw [visitsFrom, h]

lemma readReplyFrom_no_visit (h : visitOf bs = none) (fuel : Nat) :
    ∃ err left, readReplyFrom (fuel + 1) bs = (.failed err, left) := by
  unfold visitOf at h
  rw [readReplyFrom]
  cases hread : readLine bs with
  | none => exact ⟨_, _, rfl⟩
  | some r =>
    rw [hread] at h
    simp only at h ⊢
    split
    · exact ⟨_, _, rfl⟩
    · rename_i hchecked
      rw [if_neg hchecked] at h
      cases htake : r.1.take (r.1.length - 2) with
      | nil => exact ⟨_, _, rfl⟩
      | cons tag payload =>
        rw [htake] at h
        cases h

/-- What `readReply` does after a line; `read` reads an element. -/
inductive Visit.Acts (v : Visit) :
    ((GoString → Outcome ReplyError Value × GoString) → Outcome ReplyError Value × GoString) → Prop
  | failed (err : ReplyError) : Acts v fun _ => (.failed err, v.rest)
  | simple (htag : v.tag = 0x2b) : Acts v fun _ => (.value (.string v.text), v.rest)
  | integer {n : Int} (htag : v.tag = 0x3a) (hparse : parseInt64 v.text = some n) :
    Acts v fun _ => (.value (.int64 n), v.rest)
  | nil {n : Int} (htag : v.tag = 0x24 ∨ v.tag = 0x2a) (hparse : parseInt64 v.text = some n)
    (hneg : n < 0) : Acts v fun _ => (.value .nil, v.rest)
  | bulk {n : Nat} (htag : v.tag = 0x24) (hparse : parseInt64 v.text = some (n : Int)) :
    Acts v fun _ => readBulk n v.rest
  | refused {n : Nat} (htag : v.tag = 0x2a) (hparse : parseInt64 v.text = some (n : Int))
    (hrefused : maxAlloc < n * 16) : Acts v fun _ => (.panicked, v.rest)
  | array {n : Nat} (htag : v.tag = 0x2a) (hparse : parseInt64 v.text = some (n : Int))
    (hcount : v.count = n) : Acts v fun read => readElems read n v.rest []

lemma Visit.acts (v : Visit) :
    ∃ act, v.Acts act ∧ ∀ read, readPayload read (v.tag :: v.text) v.rest = act read := by
  unfold readPayload
  simp only
  split
  · exact ⟨_, .simple (by assumption), fun _ => rfl⟩
  split
  · exact ⟨_, .failed _, fun _ => rfl⟩
  split
  · cases hparse : parseInt64 v.text with
    | none => exact ⟨_, .failed _, fun _ => rfl⟩
    | some n => exact ⟨_, .integer (by assumption) hparse, fun _ => rfl⟩
  split
  · rename_i htag
    cases hparse : parseInt64 v.text with
    | none => exact ⟨_, .failed _, fun _ => rfl⟩
    | some n =>
      by_cases hneg : n < 0
      · exact ⟨_, .nil (.inl htag) hparse hneg, fun _ => if_pos hneg⟩
      · obtain ⟨m, rfl⟩ := Int.eq_ofNat_of_zero_le (not_lt.mp hneg)
        exact ⟨_, .bulk htag hparse, fun _ => if_neg hneg⟩
  split
  · rename_i htag
    cases hparse : parseInt64 v.text with
    | none => exact ⟨_, .failed _, fun _ => rfl⟩
    | some n =>
      by_cases hneg : n < 0
      · exact ⟨_, .nil (.inr htag) hparse hneg, fun _ => if_pos hneg⟩
      obtain ⟨m, rfl⟩ := Int.eq_ofNat_of_zero_le (not_lt.mp hneg)
      simp only [makeAccepts_nat, decide_eq_false_iff_not]
      by_cases hmake : m * 16 ≤ maxAlloc
      · refine ⟨_, .array htag hparse ?_, fun _ => if_neg (not_not.mpr hmake)⟩
        rw [Visit.count, if_pos htag, hparse]
        simp only [makeAccepts_nat, hmake, decide_true, if_true, Int.toNat_natCast]
      · exact ⟨_, .refused htag hparse (not_le.mp hmake), fun _ => if_pos hmake⟩
  · exact ⟨_, .failed _, fun _ => rfl⟩

variable {n fuel : Nat}

lemma readBulk_eq (hn : (n : Int) < 2 ^ 63) (bs : GoString) : readBulk n bs =
      if maxAlloc < n + 2 then (.panicked, bs)
      else if bs.length < n + 2 then (.failed .readBulk, [])
      else (.value (.bytes (bs.take n)), bs.drop (n + 2)) := by
  obtain ⟨haccepts, hsum⟩ := makeAccepts_addInt64 (Int.natCast_nonneg n) hn
  unfold readBulk
  simp only
  by_cases hfits : maxAlloc < n + 2
  · have hmake : makeAccepts 1 (addInt64 n 2) = false := by
      rw [← Bool.not_eq_true, haccepts]
      omega
    rw [if_pos hmake, if_pos hfits]
  · have hmake : makeAccepts 1 (addInt64 n 2) = true := by
      rw [haccepts]
      omega
    rw [hmake, if_neg (by decide), if_neg hfits, hsum (haccepts.mp hmake)]
    rfl

lemma readPayload_bulk (read : GoString → Outcome ReplyError Value × GoString)
    (h : parseInt64 text = some (n : Int)) (bs : GoString) :
    readPayload read (0x24 :: text) bs = readBulk n bs := by
  rw [readPayload, if_neg (by decide), if_neg (by decide), if_neg (by decide), if_pos rfl, h]
  exact if_neg (by omega)

/-! ### What is accepted -/

def minusOne : GoString := [0x2d, 0x31]

/-- Whether a line and what follows it are as the protocol has them: no CR in a simple string, for
a length digits alone or `-1`, and CR LF after the data of a bulk string. -/
def Visit.strict (v : Visit) : Bool :=
  if v.tag = 0x2b then 0x0d ∉ v.text
  else if v.tag = 0x24 then
    v.text = minusOne ||
      v.text.all isDigitByte && (v.rest.drop (decimalOf v.text)).take 2 = crlf
  else if v.tag = 0x2a then v.text = minusOne || v.text.all isDigitByte
  else true

section Strict

variable {v : Visit} {n : Nat}

lemma strict_simple (htag : v.tag = 0x2b) : v.strict = true ↔ 0x0d ∉ v.text := by
  rw [Visit.strict, if_pos htag, decide_eq_true_eq]

lemma strict_bulk (htag : v.tag = 0x24) : v.strict = true ↔ v.text = minusOne ∨
      v.text.all isDigitByte = true ∧ (v.rest.drop (decimalOf v.text)).take 2 = crlf := by
  rw [Visit.strict, htag, if_neg (by decide), if_pos rfl, Bool.or_eq_true, decide_eq_true_eq,
    Bool.and_eq_true, decide_eq_true_eq]

lemma strict_array (htag : v.tag = 0x2a) :
    v.strict = true ↔ v.text = minusOne ∨ v.text.all isDigitByte = true := by
  rw [Visit.strict, htag, if_neg (by decide), if_neg (by decide), if_pos rfl, Bool.or_eq_true,
    decide_eq_true_eq]

end Strict

def Encodes (bs : GoString) (val : Value) (left : GoString) : Prop :=
  ∃ reply : Reply, reply.WellFormed ∧ bs = reply.encode ++ left ∧ valueOf reply = val

lemma exists_sign_of_parseInt64 {n : Int} (h : parseInt64 text = some n) :
    ∃ (sign : Sign) (zeros m : Nat), text = sign.text ++ decimalText zeros m ∧ sign.apply m = n ∧
      -2 ^ 63 ≤ n ∧ n < 2 ^ 63 := by
  obtain ⟨zeros, m, ⟨htext, hn, hm⟩ | ⟨htext, hn, hm⟩ | ⟨htext, hn, hm⟩⟩ := parseInt64_cases h
  · exact ⟨.none, zeros, m, htext, hn.symm, by omega, by omega⟩
  · exact ⟨.plus, zeros, m, htext, hn.symm, by omega, by omega⟩
  · exact ⟨.minus, zeros, m, htext, hn.symm, by omega, by omega⟩

lemma minusOne_of_negative {n : Int} (h : parseInt64 text = some n) (hneg : n < 0)
    (hstrict : text = minusOne ∨ text.all isDigitByte = true) : text = minusOne := by
  obtain htext | hdigits := hstrict
  · exact htext
  · obtain ⟨zeros, m, -, hn⟩ := exists_of_parseInt64_digits h hdigits
    omega

lemma digits_of_nat (h : parseInt64 text = some (n : Int))
    (hstrict : text = minusOne ∨ text.all isDigitByte = true) :
    ∃ zeros, text = decimalText zeros n := by
  obtain rfl | hdigits := hstrict
  · cases h
  · obtain ⟨zeros, m, htext, hn⟩ := exists_of_parseInt64_digits h hdigits
    obtain rfl : n = m := by omega
    exact ⟨zeros, htext⟩

lemma encodes_nil {n : Int} (htag : v.tag = 0x24 ∨ v.tag = 0x2a)
    (hparse : parseInt64 v.text = some n) (hneg : n < 0) (hstrict : v.strict = true) :
    Encodes (line v.tag v.text ++ v.rest) .nil v.rest := by
  obtain htag | htag := htag
  · rw [strict_bulk htag] at hstrict
    have hminus := minusOne_of_negative hparse hneg (hstrict.imp_right And.left)
    exact ⟨.nilBulk, trivial, by rw [htag, hminus, encode, minusOne], rfl⟩
  · rw [strict_array htag] at hstrict
    have hminus := minusOne_of_negative hparse hneg hstrict
    exact ⟨.nilArray, trivial, by rw [htag, hminus, encode, minusOne], rfl⟩

lemma encodes_bulk (htag : v.tag = 0x24) (hparse : parseInt64 v.text = some (n : Int))
    (hstrict : v.strict = true) (hlong : n + 2 ≤ v.rest.length) :
    Encodes (line v.tag v.text ++ v.rest) (.bytes (v.rest.take n)) (v.rest.drop (n + 2)) := by
  rw [strict_bulk htag] at hstrict
  obtain ⟨zeros, htext⟩ := digits_of_nat hparse (hstrict.imp_right And.left)
  have hend : (v.rest.drop n).take 2 = crlf := by
    obtain hminus | ⟨-, hend⟩ := hstrict
    · rw [hminus] at hparse
      cases hparse
    · rwa [htext, decimalOf_decimalText] at hend
  have hlength : (v.rest.take n).length = n := by
    rw [length_take]
    omega
  refine ⟨.bulk zeros (v.rest.take n), trivial, ?_, rfl⟩
  rw [encode, bulkHeader, hlength, ← htext, htag, append_assoc, append_assoc,
    ← hend, ← drop_drop, take_append_drop, take_append_drop]

lemma exists_of_readElems (ih : ∀ bs val left, readReplyFrom fuel bs = (.value val, left) →
      (∀ v ∈ visitsFrom fuel bs, v.strict = true) → Encodes bs val left) {arr : List Value}
    {val : Value} (h : readElems (readReplyFrom fuel) n bs arr = (.value val, left))
    (hstrict : ∀ v ∈ visitsElems (visitsFrom fuel) (readReplyFrom fuel) n bs, v.strict = true) :
    ∃ elems, elems.length = n ∧ WellFormedAll elems ∧ bs = encodeAll elems ++ left ∧
      val = .array (arr ++ valuesOf elems) := by
  induction n generalizing bs arr with
  | zero =>
    cases h
    exact ⟨[], rfl, trivial, rfl, by rw [valuesOf, append_nil]⟩
  | succ n ihn =>
    rw [readElems] at h
    rw [visitsElems] at hstrict
    cases hread : readReplyFrom fuel bs with
    | mk out rest =>
      rw [hread] at h hstrict
      cases out with
      | failed err => cases h
      | panicked => cases h
      | value elem =>
        obtain ⟨reply, hwf, rfl, rfl⟩ :=
          ih bs elem rest hread fun v hv => hstrict v (mem_append_left _ hv)
        obtain ⟨elems, rfl, hwfs, rfl, rfl⟩ := ihn h fun v hv => hstrict v (mem_append_right _ hv)
        refine ⟨reply :: elems, rfl, ⟨hwf, hwfs⟩, ?_, ?_⟩
        · rw [encodeAll, append_assoc]
        · rw [valuesOf, append_assoc, singleton_append]

/-- What is accepted from strict lines is an encoding. -/
lemma encodes_of_strict {val : Value} (h : readReplyFrom fuel bs = (.value val, left))
    (hstrict : ∀ v ∈ visitsFrom fuel bs, v.strict = true) : Encodes bs val left := by
  induction fuel generalizing bs val left with
  | zero => cases h
  | succ fuel ih =>
    cases hvisit : visitOf bs with
    | none =>
      obtain ⟨err, left', hfailed⟩ := readReplyFrom_no_visit hvisit fuel
      rw [hfailed] at h
      cases h
    | some v =>
      rw [visitsFrom_visit hvisit, forall_mem_cons] at hstrict
      obtain ⟨hline, hmore⟩ := hstrict
      obtain ⟨rfl, -, htext⟩ := visitOf_eq_some hvisit
      obtain ⟨act, hacts, heq⟩ := v.acts
      rw [readReplyFrom_visit hvisit, heq] at h
      cases hacts with
      | failed err => cases h
      | refused => cases h
      | simple htag =>
        cases h
        exact ⟨.simple v.text, ⟨(strict_simple htag).mp hline, htext⟩, by rw [htag, encode], rfl⟩
      | integer htag hparse =>
        cases h
        obtain ⟨sign, zeros, m, heq, hn, hlow, hhigh⟩ := exists_sign_of_parseInt64 hparse
        refine ⟨.integer sign zeros m, ⟨hn.symm ▸ hlow, hn.symm ▸ hhigh⟩, ?_, ?_⟩
        · rw [htag, heq, encode]
        · rw [valueOf, hn]
      | nil htag hparse hneg =>
        cases h
        exact encodes_nil htag hparse hneg hline
      | bulk htag hparse =>
        rw [readBulk_eq (parseInt64_lt hparse)] at h
        split at h
        · cases h
        split at h
        · cases h
        cases h
        exact encodes_bulk htag hparse hline (by omega)
      | array htag hparse hcount =>
        obtain ⟨zeros, hdigits⟩ := digits_of_nat hparse ((strict_array htag).mp hline)
        rw [hcount] at hmore
        obtain ⟨elems, rfl, hwf, hrest, rfl⟩ := exists_of_readElems (fun bs val left => ih) h hmore
        refine ⟨.array zeros elems, hwf, ?_, ?_⟩
        · rw [hrest, htag, hdigits, encode, arrayHeader, append_assoc]
        · rw [valueOf, nil_append]

lemma visitsFrom_line {tag : UInt8} (htag : tag ≠ 0x0a) (htext : 0x0a ∉ text)
    (hplain : tag ≠ 0x2a) (fuel : Nat) (rest : GoString) :
    visitsFrom (fuel + 1) (line tag text ++ rest) = [{ tag, text, rest }] := by
  rw [visitsFrom_visit (visitOf_line htag htext rest), Visit.count, if_neg hplain]
  rfl

lemma strict_bulkHeader (zeros : Nat) (data rest : GoString) :
    Visit.strict { tag := 0x24, text := decimalText zeros data.length, rest := data ++ crlf ++ rest } =
      true := by
  rw [strict_bulk rfl]
  refine .inr ⟨decimalText_digits _ _, ?_⟩
  rw [decimalOf_decimalText, append_assoc, drop_left]
  rfl

lemma count_arrayHeader (zeros n : Nat) (rest : GoString) :
    Visit.count { tag := 0x2a, text := decimalText zeros n, rest } = n ∨
      Visit.count { tag := 0x2a, text := decimalText zeros n, rest } = 0 := by
  rw [Visit.count, if_pos rfl, parseInt64_decimalText]
  by_cases hn : n < 2 ^ 63
  · rw [if_pos hn]
    simp only
    split
    · exact .inl (Int.toNat_natCast n)
    · exact .inr rfl
  · rw [if_neg hn]
    exact .inr rfl

mutual

lemma strict_of_encode (reply : Reply) (hwf : reply.WellFormed) (fuel : Nat)
    (hfuel : reply.encode.length ≤ fuel) (rest : GoString) :
    ∀ v ∈ visitsFrom fuel (reply.encode ++ rest), v.strict = true := by
  have hpos := encode_length_pos reply
  obtain ⟨fuel, rfl⟩ : ∃ n, fuel = n + 1 := ⟨fuel - 1, by omega⟩
  match reply with
  | .simple s =>
    rw [encode, visitsFrom_line (by decide) hwf.2 (by decide), forall_mem_singleton,
      strict_simple rfl]
    exact hwf.1
  | .error s =>
    rw [encode, visitsFrom_line (by decide) hwf.2 (by decide), forall_mem_singleton]
    rfl
  | .integer sign zeros n =>
    rw [encode, visitsFrom_line (by decide) (lf_notMem_integerText sign zeros n) (by decide),
      forall_mem_singleton]
    rfl
  | .bulk zeros data =>
    rw [encode, bulkHeader, append_assoc, visitsFrom_line (by decide)
      (lf_notMem_decimalText _ _) (by decide), forall_mem_singleton]
    exact strict_bulkHeader zeros data rest
  | .nilBulk =>
    rw [encode, visitsFrom_line (by decide) (by decide) (by decide), forall_mem_singleton,
      strict_bulk rfl]
    exact .inl rfl
  | .nilArray =>
    have hcount : Visit.count { tag := 0x2a, text := minusOne, rest } = 0 := by
      rfl
    change ∀ v ∈ _ :: visitsElems _ _ (Visit.count { tag := 0x2a, text := minusOne, rest }) _, _
    rw [hcount, visitsElems, forall_mem_singleton, strict_array rfl]
    exact .inl rfl
  | .array zeros elems =>
    have hshort : (encodeAll elems).length ≤ fuel := by
      simp only [encode, arrayHeader, line, length_append, length_cons] at hfuel
      omega
    rw [encode, arrayHeader, append_assoc,
      visitsFrom_visit (visitOf_line (by decide) (lf_notMem_decimalText _ _) _),
      forall_mem_cons, strict_array rfl]
    refine ⟨.inr (decimalText_digits _ _), ?_⟩
    obtain hcount | hcount := count_arrayHeader zeros elems.length (encodeAll elems ++ rest)
    · rw [hcount]
      exact strict_of_encodeAll elems hwf fuel hshort rest
    · rw [hcount]
      exact fun v hv => absurd hv not_mem_nil

lemma strict_of_encodeAll (elems : List Reply) (hwf : WellFormedAll elems) (fuel : Nat)
    (hfuel : (encodeAll elems).length ≤ fuel) (rest : GoString) :
    ∀ v ∈ visitsElems (visitsFrom fuel) (readReplyFrom fuel) elems.length
      (encodeAll elems ++ rest), v.strict = true := by
  match elems with
  | [] => exact fun v hv => absurd hv not_mem_nil
  | elem :: elems =>
    rw [encodeAll, length_append] at hfuel
    rw [length_cons, visitsElems, encodeAll, append_assoc, forall_mem_append]
    refine ⟨strict_of_encode elem hwf.1 fuel (by omega) _, ?_⟩
    split
    · rename_i val left hread
      rw [(reading_of_readReplyFrom hwf.1 (by omega) hread).2]
      exact strict_of_encodeAll elems hwf.2 fuel (by omega) rest
    all_goals exact fun v hv => absurd hv not_mem_nil

end

/-- `$1\r\nXYZ`, with other bytes where the line should end. -/
def unterminated : GoString := [0x24, 0x31, 0x0d, 0x0a, 0x58, 0x59, 0x5a]

/-! ### What is allocated -/

/-- A call of `make`: the size of an element, the length meant, and the `int64` passed. -/
structure Make where
  elemSize : Nat
  length : Int
  passed : Int
  deriving DecidableEq

/-- Not negative, computed without wrap-around, and not more than the runtime accepts. -/
def Make.Safe (m : Make) : Prop :=
  0 ≤ m.passed ∧ m.passed = m.length ∧ m.passed * m.elemSize ≤ maxAlloc

namespace Visit

def make (v : Visit) : Option Make :=
  match parseInt64 v.text with
  | none => none
  | some n =>
    if n < 0 then none
    else if v.tag = 0x24 then some { elemSize := 1, length := n + 2, passed := addInt64 n 2 }
    else if v.tag = 0x2a then some { elemSize := 16, length := n, passed := n }
    else none

/-- The line announces at most as many bytes or elements as fit in an allocation. -/
def small (v : Visit) : Bool :=
  match parseInt64 v.text with
  | none => true
  | some n => (v.tag = 0x24 → n + 2 ≤ maxAlloc) ∧ (v.tag = 0x2a → n * 16 ≤ maxAlloc)

lemma small_iff {v : Visit} {n : Int} (hparse : parseInt64 v.text = some n) : v.small = true ↔
      (v.tag = 0x24 → n + 2 ≤ maxAlloc) ∧ (v.tag = 0x2a → n * 16 ≤ maxAlloc) := by
  rw [small, hparse]
  exact decide_eq_true_iff

lemma small_iff_safe (v : Visit) : v.small = true ↔ ∀ m, v.make = some m → m.Safe := by
  cases hparse : parseInt64 v.text with
  | none =>
    rw [small, make, hparse]
    exact ⟨fun _ _ h => (by cases h), fun _ => rfl⟩
  | some n =>
    rw [small_iff hparse, make, hparse]
    simp only
    by_cases hneg : n < 0
    · rw [if_pos hneg]
      refine ⟨fun _ _ h => (by cases h), fun _ => ?_⟩
      simp only [maxAlloc]
      omega
    rw [if_neg hneg]
    obtain ⟨haccepts, hsum⟩ := makeAccepts_addInt64 (not_lt.mp hneg) (parseInt64_lt hparse)
    by_cases hbulk : v.tag = 0x24
    · have harray : v.tag ≠ 0x2a := by
        rw [hbulk]
        decide
      rw [if_pos hbulk]
      constructor
      · rintro ⟨hfits, -⟩ m hm
        cases hm
        have hlen := hsum (hfits hbulk)
        refine ⟨?_, hlen, ?_⟩
        · change 0 ≤ addInt64 n 2
          omega
        · change addInt64 n 2 * 1 ≤ maxAlloc
          have := hfits hbulk
          omega
      · intro h
        obtain ⟨hnonneg, hexact, hfits⟩ := h _ rfl
        simp only at hexact hfits
        exact ⟨fun _ => by omega, fun h => absurd h harray⟩
    rw [if_neg hbulk]
    by_cases harray : v.tag = 0x2a
    · rw [if_pos harray]
      constructor
      · rintro ⟨-, hfits⟩ m hm
        cases hm
        exact ⟨not_lt.mp hneg, rfl, hfits harray⟩
      · intro h
        exact ⟨fun h => absurd h hbulk, fun _ => (h _ rfl).2.2⟩
    · rw [if_neg harray]
      refine ⟨fun _ _ h => (by cases h), fun _ => ⟨?_, ?_⟩⟩
      · exact fun h => absurd h hbulk
      · exact fun h => absurd h harray

end Visit

lemma readElems_not_panicked (ih : ∀ bs, (∀ v ∈ visitsFrom fuel bs, v.small = true) →
      (readReplyFrom fuel bs).1 ≠ .panicked) (n : Nat) (bs : GoString) (arr : List Value)
    (hsmall : ∀ v ∈ visitsElems (visitsFrom fuel) (readReplyFrom fuel) n bs, v.small = true) :
    (readElems (readReplyFrom fuel) n bs arr).1 ≠ .panicked := by
  induction n generalizing bs arr with
  | zero =>
    intro h
    cases h
  | succ n ihn =>
    rw [visitsElems, forall_mem_append] at hsmall
    have helem := ih bs hsmall.1
    rw [readElems]
    cases hread : readReplyFrom fuel bs with
    | mk out rest =>
      rw [hread] at hsmall helem
      cases out with
      | value elem => exact ihn rest _ hsmall.2
      | failed err => exact helem
      | panicked => exact helem

lemma not_panicked_of_small (hsmall : ∀ v ∈ visitsFrom fuel bs, v.small = true) :
    (readReplyFrom fuel bs).1 ≠ .panicked := by
  induction fuel generalizing bs with
  | zero =>
    intro h
    cases h
  | succ fuel ih =>
    cases hvisit : visitOf bs with
    | none =>
      obtain ⟨err, left, hfailed⟩ := readReplyFrom_no_visit hvisit fuel
      rw [hfailed]
      intro h
      cases h
    | some v =>
      rw [visitsFrom_visit hvisit, forall_mem_cons] at hsmall
      obtain ⟨hline, hmore⟩ := hsmall
      obtain ⟨act, hacts, heq⟩ := v.acts
      rw [readReplyFrom_visit hvisit, heq]
      cases hacts with
      | bulk htag hparse =>
        have hfits := ((Visit.small_iff hparse).mp hline).1 htag
        rw [readBulk_eq (parseInt64_lt hparse), if_neg (by omega)]
        split <;> (intro h; cases h)
      | refused htag hparse hrefused =>
        have hfits := ((Visit.small_iff hparse).mp hline).2 htag
        omega
      | array htag hparse hcount =>
        rw [hcount] at hmore
        exact readElems_not_panicked (fun bs => ih) _ _ _ hmore
      | _ =>
        intro h
        cases h

/-- `$9223372036854775806\r\n`: the length with the end of its line is 2^63. -/
def wrapping : GoString := line 0x24 (decimalText 0 (2 ^ 63 - 2))

end Symkernel.Redis
