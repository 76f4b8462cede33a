import Symkernel.Cache.Redis

/-!
# What `readReply` makes of a well-formed reply
-/

namespace Symkernel.Redis

open Library Resp Resp.Reply List

/-! ### More bytes -/

def Settled : Outcome ReplyError Value → Prop
  | .value _ | .panicked => True
  | .failed _ => False

def Extends (read : GoString → Outcome ReplyError Value × GoString) : Prop :=
  ∀ bs more, Settled (read bs).1 → read (bs ++ more) = ((read bs).1, (read bs).2 ++ more)

variable {l bs rest text : GoString}

lemma readLine_append (h : readLine bs = some (l, rest)) (more : GoString) :
    readLine (bs ++ more) = some (l, rest ++ more) := by
  induction bs generalizing l with
  | nil => cases h
  | cons b bs ih =>
    rw [cons_append]
    unfold readLine at h ⊢
    split at h
    · rename_i hb
      cases h
      rw [if_pos hb]
    · rename_i hb
      rw [if_neg hb]
      cases hrest : readLine bs with
      | none => simp [hrest] at h
      | some r =>
        obtain ⟨l', rest'⟩ := r
        rw [hrest] at h
        cases h
        rw [ih hrest]
        rfl

lemma makeAccepts_addInt64 {n : Int} (h0 : 0 ≤ n) (hn : n < 2 ^ 63) :
    (makeAccepts 1 (addInt64 n 2) = true ↔ n + 2 ≤ maxAlloc) ∧
      (n + 2 ≤ maxAlloc → addInt64 n 2 = n + 2) := by
  unfold makeAccepts addInt64
  rw [Bool.and_eq_true, decide_eq_true_eq, decide_eq_true_eq, Int.bmod_def]
  simp only [maxAlloc]
  omega

lemma readBulk_append {n : Int} (h0 : 0 ≤ n) (hn : n < 2 ^ 63) (bs more : GoString)
    (h : Settled (readBulk n bs).1) :
    readBulk n (bs ++ more) = ((readBulk n bs).1, (readBulk n bs).2 ++ more) := by
  obtain ⟨haccepts, hsum⟩ := makeAccepts_addInt64 h0 hn
  unfold readBulk at h ⊢
  by_cases hmake : makeAccepts 1 (addInt64 n 2) = false
  · simp only [hmake, if_true]
  · rw [if_neg hmake] at h ⊢
    rw [if_neg hmake]
    rw [hsum (haccepts.mp (by simpa using hmake))] at h ⊢
    by_cases hlen : bs.length < (n + 2).toNat
    · rw [if_pos hlen] at h
      cases h
    · have hlonger : ¬(bs ++ more).length < (n + 2).toNat := by
        rw [length_append]
        omega
      rw [if_neg hlen, if_neg hlonger, take_append_of_le_length (by omega),
        drop_append_of_le_length (by omega)]

variable {read : GoString → Outcome ReplyError Value × GoString}

lemma Extends.readElems (h : Extends read) (n : Nat) (bs more : GoString) (arr : List Value)
    (hsettled : Settled (readElems read n bs arr).1) : readElems read n (bs ++ more) arr =
      ((readElems read n bs arr).1, (readElems read n bs arr).2 ++ more) := by
  induction n generalizing bs arr with
  | zero => rfl
  | succ n ih =>
    have hread := h bs more
    unfold Redis.readElems at hsettled ⊢
    match hout : read bs with
    | (.value elem, rest) =>
      rw [hout] at hread hsettled
      rw [hread trivial]
      exact ih rest _ hsettled
    | (.failed err, rest) =>
      rw [hout] at hsettled
      cases hsettled
    | (.panicked, rest) =>
      rw [hout] at hread
      rw [hread trivial]

/-- The switch over the tag leaves the bytes alone, or reads a bulk string or elements. -/
lemma readPayload_cases (payload : GoString) :
    (∃ out, ∀ read bs, readPayload read payload bs = (out, bs)) ∨
      (∃ n : Int, 0 ≤ n ∧ n < 2 ^ 63 ∧ ∀ read bs, readPayload read payload bs = readBulk n bs) ∨
      ∃ n, ∀ read bs, readPayload read payload bs = readElems read n bs [] := by
  unfold Redis.readPayload
  cases payload with
  | nil => exact .inl ⟨_, fun _ _ => rfl⟩
  | cons tag text =>
    simp only
    split
    · exact .inl ⟨_, fun _ _ => rfl⟩
    split
    · exact .inl ⟨_, fun _ _ => rfl⟩
    cases hlength : parseInt64 text with
    | none =>
      refine .inl ?_
      split
      · exact ⟨_, fun _ _ => rfl⟩
      split
      · exact ⟨_, fun _ _ => rfl⟩
      split
      · exact ⟨_, fun _ _ => rfl⟩
      · exact ⟨_, fun _ _ => rfl⟩
    | some n =>
      split
      · exact .inl ⟨_, fun _ _ => rfl⟩
      split
      · by_cases h0 : n < 0
        · simp only [h0]
          exact .inl ⟨_, fun _ _ => rfl⟩
        · simp only [h0]
          exact .inr (.inl ⟨n, by omega, parseInt64_lt hlength, fun _ _ => rfl⟩)
      split
      · by_cases h0 : n < 0
        · simp only [h0, if_true]
          exact .inl ⟨_, fun _ _ => rfl⟩
        · by_cases hmake : makeAccepts 16 n = false
          · simp only [h0, hmake, if_true, if_false]
            exact .inl ⟨_, fun _ _ => rfl⟩
          · simp only [h0, hmake, if_false]
            exact .inr (.inr ⟨n.toNat, fun _ _ => rfl⟩)
      · exact .inl ⟨_, fun _ _ => rfl⟩

lemma Extends.readPayload (h : Extends read) (payload bs more : GoString)
    (hsettled : Settled (readPayload read payload bs).1) : readPayload read payload (bs ++ more) =
      ((readPayload read payload bs).1, (readPayload read payload bs).2 ++ more) := by
  rcases readPayload_cases payload with ⟨out, heq⟩ | ⟨n, h0, hn, heq⟩ | ⟨n, heq⟩
  · rw [heq, heq]
  · rw [heq] at hsettled
    rw [heq, heq]
    exact readBulk_append h0 hn bs more hsettled
  · rw [heq] at hsettled
    rw [heq, heq]
    exact h.readElems n bs more [] hsettled

lemma readReplyFrom_extends (fuel : Nat) : Extends (readReplyFrom fuel) := by
  induction fuel with
  | zero =>
    intro bs more h
    cases h
  | succ fuel ih =>
    intro bs more h
    unfold readReplyFrom at h ⊢
    cases hline : readLine bs with
    | none =>
      rw [hline] at h
      cases h
    | some r =>
      obtain ⟨l, rest⟩ := r
      rw [hline] at h
      rw [readLine_append hline]
      simp only at h ⊢
      split
      · rfl
      · rename_i hend
        rw [if_neg hend] at h
        exact ih.readPayload _ rest more h

/-! ### More fuel -/

def Consumes (read : GoString → Outcome ReplyError Value × GoString) : Prop :=
  ∀ bs, (read bs).2.length ≤ bs.length

lemma readLine_length (h : readLine bs = some (l, rest)) : rest.length < bs.length := by
  induction bs generalizing l with
  | nil => cases h
  | cons b bs ih =>
    unfold readLine at h
    split at h
    · cases h
      exact Nat.lt_succ_self _
    · obtain ⟨r, hr, heq⟩ := Option.map_eq_some_iff.mp h
      cases heq
      exact Nat.lt_succ_of_lt (ih hr)

lemma readBulk_length (n : Int) (bs : GoString) : (readBulk n bs).2.length ≤ bs.length := by
  unfold readBulk
  simp only
  split
  · exact Nat.le_refl _
  · split
    · exact Nat.zero_le _
    · rw [length_drop]
      omega

section Fuel

variable {read read' : GoString → Outcome ReplyError Value × GoString}

lemma Consumes.readElems (h : Consumes read) (n : Nat) (bs : GoString) (arr : List Value) :
    (readElems read n bs arr).2.length ≤ bs.length := by
  induction n generalizing bs arr with
  | zero => exact Nat.le_refl _
  | succ n ih =>
    have hread := h bs
    unfold Redis.readElems
    match hout : read bs with
    | (.value elem, rest) =>
      rw [hout] at hread
      exact (ih rest _).trans hread
    | (.failed err, rest) | (.panicked, rest) =>
      rw [hout] at hread
      exact hread

lemma Consumes.readElems_congr (h : Consumes read) {m : Nat}
    (hsame : ∀ bs : GoString, bs.length ≤ m → read bs = read' bs) (n : Nat) (bs : GoString)
    (hbs : bs.length ≤ m) (arr : List Value) :
    Redis.readElems read n bs arr = Redis.readElems read' n bs arr := by
  induction n generalizing bs arr with
  | zero => rfl
  | succ n ih =>
    have hread := h bs
    unfold Redis.readElems
    rw [← hsame bs hbs]
    match hout : read bs with
    | (.value elem, rest) =>
      rw [hout] at hread
      exact ih rest (hread.trans hbs) _
    | (.failed err, rest) | (.panicked, rest) => rfl

end Fuel

lemma readReplyFrom_consumes (fuel : Nat) : Consumes (readReplyFrom fuel) := by
  induction fuel with
  | zero => exact fun bs => Nat.le_refl _
  | succ fuel ih =>
    intro bs
    unfold readReplyFrom
    cases hline : readLine bs with
    | none => exact Nat.zero_le _
    | some r =>
      obtain ⟨l, rest⟩ := r
      have hrest := (readLine_length hline).le
      simp only
      split
      · exact hrest
      · rcases readPayload_cases (l.take (l.length - 2)) with ⟨out, heq⟩ | ⟨n, -, -, heq⟩ | ⟨n, heq⟩
        · rw [heq]
          exact hrest
        · rw [heq]
          exact (readBulk_length n rest).trans hrest
        · rw [heq]
          exact (ih.readElems n rest []).trans hrest

/-- More fuel than bytes is enough. -/
lemma readReplyFrom_fuel {fuel fuel' : Nat} (hfuel : fuel ≤ fuel') (hbs : bs.length < fuel) :
    readReplyFrom fuel bs = readReplyFrom fuel' bs := by
  induction fuel generalizing fuel' bs with
  | zero => cases hbs
  | succ fuel ih =>
    obtain ⟨fuel', rfl⟩ : ∃ n, fuel' = n + 1 := ⟨fuel' - 1, by omega⟩
    unfold readReplyFrom
    cases hline : readLine bs with
    | none => rfl
    | some r =>
      obtain ⟨l, rest⟩ := r
      have hrest := readLine_length hline
      simp only
      split
      · rfl
      · rcases readPayload_cases (l.take (l.length - 2)) with ⟨out, heq⟩ | ⟨n, -, -, heq⟩ | ⟨n, heq⟩
        · rw [heq, heq]
        · rw [heq, heq]
        · rw [heq, heq]
          refine (readReplyFrom_consumes fuel).readElems_congr (m := rest.length) ?_ n rest
            (Nat.le_refl _) []
          intro bs' hbs'
          exact ih (by omega) (by omega)

/-! ### What a reply is read as -/

/-- What a client makes of a reply: its value, an error, or nothing, since it stops at a length
that it cannot allocate, after the bytes `front`. -/
inductive Reading (α : Type) where
  | value (a : α)
  | failed
  | refused (front : GoString)

namespace Reading

variable {α β : Type}

def map (f : α → β) : Reading α → Reading β
  | .value a => .value (f a)
  | .failed => .failed
  | .refused front => .refused front

def after (text : GoString) : Reading α → Reading α
  | .refused front => .refused (text ++ front)
  | .value a => .value a
  | .failed => .failed

lemma map_map_after {γ : Type} (f : α → β) (g : β → γ) (text : GoString) (r : Reading α) :
    ((r.map f).after text).map g = (r.map (g ∘ f)).after text := by
  cases r <;> rfl

end Reading

mutual

/-- The value of a reply. Lengths are numbers of `int64`, and an array with an error in it is an
error. -/
def reading : Reply → Reading Value
  | .simple s => .value (.string s)
  | .error _ => .failed
  | .integer sign _ n => .value (.int64 (sign.apply n))
  | .bulk zeros data =>
    if 2 ^ 63 ≤ data.length then .failed
    else if maxAlloc < data.length + 2 then .refused (bulkHeader zeros data)
    else .value (.bytes data)
  | .nilBulk | .nilArray => .value .nil
  | .array zeros elems =>
    if 2 ^ 63 ≤ elems.length then .failed
    else if maxAlloc < elems.length * 16 then .refused (arrayHeader zeros elems)
    else ((readingAll elems).map .array).after (arrayHeader zeros elems)

def readingAll : List Reply → Reading (List Value)
  | [] => .value []
  | elem :: elems =>
    match reading elem with
    | .value v => ((readingAll elems).map (v :: ·)).after elem.encode
    | .failed => .failed
    | .refused front => .refused front

end

/-- Whatever follows, `read` makes of the bytes `text` what `expected` says. -/
def ReadsAs (read : GoString → Outcome ReplyError Value × GoString) (text : GoString) :
    Reading Value → Prop
  | .value v => ∀ rest, read (text ++ rest) = (.value v, rest)
  | .failed => ∀ rest, ∃ err left, read (text ++ rest) = (.failed err, left)
  | .refused front =>
    (∃ tail, tail ≠ [] ∧ text = front ++ tail) ∧ ∀ rest, read (front ++ rest) = (.panicked, rest)

lemma ReadsAs.after {read' : GoString → Outcome ReplyError Value × GoString} {text' : GoString}
    {r : Reading Value} (h : ReadsAs read' text' r)
    (hread : ∀ rest, read (text ++ rest) = read' rest) :
    ReadsAs read (text ++ text') (r.after text) := by
  cases r with
  | value v =>
    intro rest
    rw [append_assoc, hread]
    exact h rest
  | failed =>
    intro rest
    rw [append_assoc, hread]
    exact h rest
  | refused front =>
    obtain ⟨⟨tail, htail, heq⟩, hpanic⟩ := h
    refine ⟨⟨tail, htail, by rw [heq, append_assoc]⟩, fun rest => ?_⟩
    rw [append_assoc, hread]
    exact hpanic rest

lemma readLine_line (hl : 0x0a ∉ l) (rest : GoString) :
    readLine (l ++ 0x0a :: rest) = some (l ++ [0x0a], rest) := by
  induction l with
  | nil => rfl
  | cons b l ih =>
    rw [mem_cons, not_or] at hl
    rw [cons_append, readLine, if_neg fun hb => hl.1 hb.symm, ih hl.2]
    rfl

lemma readLine_tagged {tag : UInt8} (htag : tag ≠ 0x0a) (htext : 0x0a ∉ text) (rest : GoString) :
    readLine (line tag text ++ rest) = some (line tag text, rest) := by
  have hnone : (0x0a : UInt8) ∉ tag :: (text ++ [0x0d]) := by simp [htag.symm, htext]
  have hline := readLine_line hnone rest
  simpa [line, crlf] using hline

lemma line_checked (tag : UInt8) (text : GoString) :
    ¬((line tag text).length < 3 ∨ (line tag text)[(line tag text).length - 2]? ≠ some 0x0d ∨
      (line tag text)[(line tag text).length - 1]? ≠ some 0x0a) := by
  have hlength : (line tag text).length = text.length + 3 := by simp [line, crlf]
  rintro (hshort | hcr | hlf)
  · omega
  · simp [line, crlf] at hcr
  · simp [line, crlf] at hlf

lemma line_take (tag : UInt8) (text : GoString) :
    (line tag text).take ((line tag text).length - 2) = tag :: text := by
  simp [line, crlf]

/-- A line is read as its tag and its text. -/
lemma readReplyFrom_line {tag : UInt8} (htag : tag ≠ 0x0a) (htext : 0x0a ∉ text) (fuel : Nat)
    (rest : GoString) : readReplyFrom (fuel + 1) (line tag text ++ rest) =
      readPayload (readReplyFrom fuel) (tag :: text) rest := by
  rw [readReplyFrom, readLine_tagged htag htext]
  simp only
  rw [if_neg (line_checked tag text), line_take]

lemma lf_notMem_decimalText (zeros n : Nat) : 0x0a ∉ decimalText zeros n :=
  notMem_decimalText (by decide) zeros n

lemma readReplyFrom_bulkHeader (zeros : Nat) (data : GoString) (fuel : Nat) (rest : GoString) :
    readReplyFrom (fuel + 1) (bulkHeader zeros data ++ rest) =
      if data.length < 2 ^ 63 then readBulk data.length rest
      else (.failed (.badBulkLength (0x24 :: decimalText zeros data.length)), rest) := by
  rw [bulkHeader, readReplyFrom_line (by decide) (lf_notMem_decimalText _ _), readPayload,
    if_neg (by decide), if_neg (by decide), if_neg (by decide), if_pos rfl, parseInt64_decimalText]
  by_cases hlen : data.length < 2 ^ 63
  · rw [if_pos hlen, if_pos hlen]
    exact if_neg (by omega)
  · rw [if_neg hlen, if_neg hlen]

lemma readReplyFrom_arrayHeader (zeros : Nat) (elems : List Reply) (fuel : Nat) (rest : GoString) :
    readReplyFrom (fuel + 1) (arrayHeader zeros elems ++ rest) =
      if elems.length < 2 ^ 63 then
        if makeAccepts 16 elems.length = false then (.panicked, rest)
        else readElems (readReplyFrom fuel) elems.length rest []
      else (.failed (.badArrayLength (0x2a :: decimalText zeros elems.length)), rest) := by
  rw [arrayHeader, readReplyFrom_line (by decide) (lf_notMem_decimalText _ _), readPayload,
    if_neg (by decide), if_neg (by decide), if_neg (by decide), if_neg (by decide), if_pos rfl,
    parseInt64_decimalText]
  by_cases hlen : elems.length < 2 ^ 63
  · rw [if_pos hlen, if_pos hlen]
    exact if_neg (by omega)
  · rw [if_neg hlen, if_neg hlen]

lemma makeAccepts_nat (elemSize n : Nat) :
    makeAccepts elemSize n = decide (n * elemSize ≤ maxAlloc) := by
  unfold makeAccepts
  exact decide_eq_decide.mpr (by norm_cast)

lemma readBulk_data {data : GoString} (hfits : data.length + 2 ≤ maxAlloc) (rest : GoString) :
    readBulk data.length (data ++ crlf ++ rest) = (.value (.bytes data), rest) := by
  have hlen : (data.length : Int) < 2 ^ 63 := by
    simp only [maxAlloc] at hfits
    omega
  obtain ⟨haccepts, hsum⟩ := makeAccepts_addInt64 (Int.natCast_nonneg data.length) hlen
  have hsize : (addInt64 data.length 2).toNat = (data ++ crlf).length := by
    rw [hsum (by omega), length_append, crlf]
    simp only [length_cons, length_nil]
    omega
  have hmake : ¬makeAccepts 1 (addInt64 data.length 2) = false := by
    rw [haccepts.mpr (by omega)]
    decide
  have hlong : ¬(data ++ crlf ++ rest).length < (data ++ crlf).length := by
    rw [length_append]
    omega
  unfold readBulk
  simp only [hsize]
  rw [if_neg hmake, if_neg hlong, drop_left, append_assoc, Int.toNat_natCast, take_left]

lemma readReplyFrom_bulk (zeros : Nat) (data : GoString) (fuel : Nat) :
    ReadsAs (readReplyFrom (fuel + 1)) (encode (.bulk zeros data)) (reading (.bulk zeros data)) := by
  rw [reading, encode]
  split
  · intro rest
    rw [append_assoc, readReplyFrom_bulkHeader, if_neg (by omega)]
    exact ⟨_, _, rfl⟩
  · split
    · rename_i hlen hbig
      obtain ⟨haccepts, -⟩ := makeAccepts_addInt64 (n := data.length) (by omega) (by omega)
      refine ⟨⟨data ++ crlf, by simp [crlf], rfl⟩, fun rest => ?_⟩
      rw [readReplyFrom_bulkHeader, if_pos (by omega), readBulk]
      exact if_pos (Bool.eq_false_iff.mpr fun h => absurd (haccepts.mp h) (by omega))
    · rename_i hlen hbig
      intro rest
      rw [append_assoc, readReplyFrom_bulkHeader, if_pos (by omega)]
      exact readBulk_data (by omega) rest

lemma lf_notMem_integerText (sign : Sign) (zeros n : Nat) :
    0x0a ∉ sign.text ++ decimalText zeros n := by
  rw [mem_append, not_or]
  exact ⟨by cases sign <;> decide, lf_notMem_decimalText zeros n⟩

lemma readReplyFrom_integer {sign : Sign} {n : Nat} (hlow : -2 ^ 63 ≤ sign.apply n)
    (hhigh : sign.apply n < 2 ^ 63) (zeros fuel : Nat) (rest : GoString) :
    readReplyFrom (fuel + 1) (encode (.integer sign zeros n) ++ rest) =
      (.value (.int64 (sign.apply n)), rest) := by
  have hparse : parseInt64 (sign.text ++ decimalText zeros n) = some (sign.apply n) := by
    cases sign with
    | none => exact (parseInt64_decimalText zeros n).trans (if_pos (by simpa [Sign.apply] using hhigh))
    | plus => exact (parseInt64_plus zeros n).trans (if_pos (by simpa [Sign.apply] using hhigh))
    | minus => exact (parseInt64_minus zeros n).trans (if_pos (by simpa [Sign.apply] using hlow))
  rw [encode, readReplyFrom_line (by decide) (lf_notMem_integerText sign zeros n), readPayload,
    if_neg (by decide), if_neg (by decide), if_pos rfl, hparse]

lemma encode_length_pos (reply : Reply) : 0 < reply.encode.length := by
  cases reply <;> simp [encode, line, bulkHeader, arrayHeader]

lemma encodeAll_ne_nil {elems : List Reply} (h : elems ≠ []) : encodeAll elems ≠ [] := by
  cases elems with
  | nil => exact absurd rfl h
  | cons elem elems =>
    intro hnil
    have hpos := encode_length_pos elem
    rw [(List.append_eq_nil_iff.mp hnil).1] at hpos
    cases hpos

mutual

/-- `readReply` makes of every well-formed reply what it is. -/
lemma readReplyFrom_reads (reply : Reply) (hwf : reply.WellFormed) (fuel : Nat)
    (hfuel : reply.encode.length ≤ fuel) :
    ReadsAs (readReplyFrom fuel) reply.encode (reading reply) := by
  have hpos := encode_length_pos reply
  obtain ⟨fuel, rfl⟩ : ∃ n, fuel = n + 1 := ⟨fuel - 1, by omega⟩
  match reply with
  | .simple s =>
    intro rest
    rw [encode, readReplyFrom_line (by decide) hwf.2]
    rfl
  | .error s =>
    intro rest
    rw [encode, readReplyFrom_line (by decide) hwf.2]
    exact ⟨_, _, rfl⟩
  | .integer sign zeros n =>
    intro rest
    exact readReplyFrom_integer hwf.1 hwf.2 zeros fuel rest
  | .bulk zeros data => exact readReplyFrom_bulk zeros data fuel
  | .nilBulk =>
    intro rest
    rfl
  | .nilArray =>
    intro rest
    rfl
  | .array zeros elems =>
    have hshort : (encodeAll elems).length ≤ fuel := by
      simp only [encode, arrayHeader, line, length_append, length_cons] at hfuel
      omega
    have helems := readElems_reads elems hwf fuel hshort []
    have hheader := readReplyFrom_arrayHeader zeros elems fuel
    rw [makeAccepts_nat] at hheader
    rw [reading, encode]
    split
    · intro rest
      rw [append_assoc, hheader, if_neg (by omega)]
      exact ⟨_, _, rfl⟩
    · split
      · rename_i hlen hbig
        refine ⟨⟨encodeAll elems, encodeAll_ne_nil ?_, rfl⟩, fun rest => ?_⟩
        · rintro rfl
          exact absurd hbig (by decide)
        · rw [hheader, if_pos (by omega), if_pos (decide_eq_false (by omega))]
      · rename_i hlen hbig
        refine ReadsAs.after helems fun rest => ?_
        rw [hheader, if_pos (by omega), if_neg]
        rw [decide_eq_false_iff_not]
        omega

lemma readElems_reads (elems : List Reply) (hwf : WellFormedAll elems) (fuel : Nat)
    (hfuel : (encodeAll elems).length ≤ fuel) (arr : List Value) :
    ReadsAs (fun bs => readElems (readReplyFrom fuel) elems.length bs arr) (encodeAll elems)
      ((readingAll elems).map fun vs => .array (arr ++ vs)) := by
  match elems with
  | [] =>
    intro rest
    simp [readElems, encodeAll]
  | elem :: elems =>
    rw [encodeAll, length_append] at hfuel
    have helem := readReplyFrom_reads elem hwf.1 fuel (by omega)
    rw [readingAll, encodeAll]
    match hreading : reading elem with
    | .value v =>
      rw [hreading] at helem
      have hrest := readElems_reads elems hwf.2 fuel (by omega) (arr ++ [v])
      rw [Reading.map_map_after]
      simp only [append_assoc] at hrest
      refine ReadsAs.after hrest fun rest => ?_
      simp only [length_cons, readElems, helem rest]
    | .failed =>
      rw [hreading] at helem
      intro rest
      obtain ⟨err, left, hread⟩ := helem (encodeAll elems ++ rest)
      refine ⟨err, left, ?_⟩
      simp only [length_cons, readElems, append_assoc, hread]
    | .refused front =>
      rw [hreading] at helem
      obtain ⟨⟨tail, htail, heq⟩, hpanic⟩ := helem
      refine ⟨⟨tail ++ encodeAll elems, by simp [htail], by rw [heq, append_assoc]⟩, ?_⟩
      intro rest
      simp only [length_cons, readElems, hpanic rest]

end

lemma readReply_eq {n : Nat} (h : bs.length ≤ n) : readReply bs = readReplyFrom (n + 1) bs :=
  readReplyFrom_fuel (by omega) (Nat.lt_succ_self _)

section Part

variable {reply : Reply} (hwf : reply.WellFormed) {k : Nat}

include hwf

lemma readReply_take_value {v : Value} (hreading : reading reply = .value v)
    (hk : reply.encode.length ≤ k) : readReply (reply.encode.take k) = (.value v, []) := by
  have hreads := readReplyFrom_reads reply hwf (reply.encode.length + 1) (Nat.le_succ _)
  rw [hreading] at hreads
  rw [take_of_length_le hk]
  have hread := hreads []
  rwa [append_nil] at hread

lemma readReply_take_refused {front : GoString} (hreading : reading reply = .refused front)
    (hk : front.length ≤ k) : ∃ tail, tail ≠ [] ∧ reply.encode = front ++ tail ∧
      readReply (reply.encode.take k) = (.panicked, tail.take (k - front.length)) := by
  have hreads := readReplyFrom_reads reply hwf (reply.encode.length + 1) (Nat.le_succ _)
  rw [hreading] at hreads
  obtain ⟨⟨tail, htail, heq⟩, hpanic⟩ := hreads
  refine ⟨tail, htail, heq, ?_⟩
  rw [readReply_eq (length_take_le' k reply.encode), heq, take_append, take_of_length_le hk, ← heq]
  exact hpanic _

/-- What is read from a part of a reply is the reply, or stops at a length in this part. -/
lemma settled_readReply_take (h : Settled (readReply (reply.encode.take k)).1) :
    (∃ v, reading reply = .value v ∧ reply.encode.length ≤ k) ∨
      ∃ front, reading reply = .refused front ∧ front.length ≤ k := by
  have hreads := readReplyFrom_reads reply hwf (reply.encode.length + 1) (Nat.le_succ _)
  rw [readReply_eq (length_take_le' k reply.encode)] at h
  have hwhole := readReplyFrom_extends _ _ (reply.encode.drop k) h
  rw [take_append_drop] at hwhole
  match hreading : reading reply with
  | .value v =>
    rw [hreading] at hreads
    have hread := hreads []
    rw [append_nil, hwhole] at hread
    have hnil := (List.append_eq_nil_iff.mp (Prod.mk.inj hread).2).2
    exact .inl ⟨v, rfl, List.drop_eq_nil_iff.mp hnil⟩
  | .failed =>
    rw [hreading] at hreads
    obtain ⟨err, left, hread⟩ := hreads []
    rw [append_nil, hwhole] at hread
    rw [(Prod.mk.inj hread).1] at h
    cases h
  | .refused front =>
    rw [hreading] at hreads
    obtain ⟨⟨tail, htail, heq⟩, hpanic⟩ := hreads
    have hread := hpanic tail
    rw [← heq, hwhole] at hread
    have hlength := congrArg List.length (Prod.mk.inj hread).2
    have htotal := congrArg List.length heq
    rw [length_append, length_drop] at hlength
    rw [length_append] at htotal
    refine .inr ⟨front, rfl, ?_⟩
    omega

end Part

end Symkernel.Redis
