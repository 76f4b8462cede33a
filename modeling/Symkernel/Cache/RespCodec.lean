import Symkernel.Cache.RedisReading

/-!
# Reading back what was encoded
-/

namespace Symkernel.Redis

open Library Resp Resp.Reply List

mutual

def valueOf : Reply → Value
  | .simple s | .error s => .string s
  | .integer sign _ n => .int64 (sign.apply n)
  | .bulk _ data => .bytes data
  | .nilBulk | .nilArray => .nil
  | .array _ elems => .array (valuesOf elems)

def valuesOf : List Reply → List Value
  | [] => []
  | elem :: elems => valueOf elem :: valuesOf elems

end

mutual

def errorFree : Reply → Bool
  | .error _ => false
  | .array _ elems => errorFreeAll elems
  | _ => true

def errorFreeAll : List Reply → Bool
  | [] => true
  | elem :: elems => errorFree elem && errorFreeAll elems

end

mutual

/-- All lengths are ones that `make` accepts: of bytes with the end of the line, and of interface
values. -/
def fits : Reply → Bool
  | .bulk _ data => data.length + 2 ≤ maxAlloc
  | .array _ elems => elems.length * 16 ≤ maxAlloc && fitsAll elems
  | _ => true

def fitsAll : List Reply → Bool
  | [] => true
  | elem :: elems => fits elem && fitsAll elems

end

def commandFits (args : List GoString) : Bool :=
  args.length * 16 ≤ maxAlloc && args.all fun arg => arg.length + 2 ≤ maxAlloc

lemma lt_of_le_maxAlloc {n : Nat} (h : n ≤ maxAlloc) : ¬2 ^ 63 ≤ n := by
  simp only [maxAlloc] at h
  omega

mutual

lemma reading_of_fits (reply : Reply) (herror : errorFree reply = true)
    (hfits : fits reply = true) : reading reply = .value (valueOf reply) := by
  match reply with
  | .simple s => rfl
  | .error s => cases herror
  | .integer sign zeros n => rfl
  | .bulk zeros data =>
    rw [fits, decide_eq_true_eq] at hfits
    have hsmall := lt_of_le_maxAlloc hfits
    rw [reading, if_neg (by omega), if_neg (by omega), valueOf]
  | .nilBulk => rfl
  | .nilArray => rfl
  | .array zeros elems =>
    rw [fits, Bool.and_eq_true, decide_eq_true_eq] at hfits
    have hsmall := lt_of_le_maxAlloc hfits.1
    rw [reading, if_neg (by omega), if_neg (by omega), readingAll_of_fits elems herror hfits.2]
    rfl

lemma readingAll_of_fits (elems : List Reply) (herror : errorFreeAll elems = true)
    (hfits : fitsAll elems = true) : readingAll elems = .value (valuesOf elems) := by
  match elems with
  | [] => rfl
  | elem :: elems =>
    rw [errorFreeAll, Bool.and_eq_true] at herror
    rw [fitsAll, Bool.and_eq_true] at hfits
    rw [readingAll, reading_of_fits elem herror.1 hfits.1,
      readingAll_of_fits elems herror.2 hfits.2]
    rfl

end

lemma Reading.exists_of_after {α β : Type} {r : Reading α} {f : α → β} {text : GoString} {b : β}
    (h : (r.map f).after text = .value b) : ∃ a, r = .value a := by
  cases r with
  | value a => exact ⟨a, rfl⟩
  | failed => cases h
  | refused front => cases h

mutual

lemma fits_of_reading (reply : Reply) {v : Value} (h : reading reply = .value v) :
    fits reply = true := by
  match reply with
  | .simple s => rfl
  | .error s => rfl
  | .integer sign zeros n => rfl
  | .bulk zeros data =>
    rw [reading] at h
    split at h
    · cases h
    · split at h
      · cases h
      · rename_i hlen
        rw [fits, decide_eq_true_eq]
        omega
  | .nilBulk => rfl
  | .nilArray => rfl
  | .array zeros elems =>
    rw [reading] at h
    split at h
    · cases h
    · split at h
      · cases h
      · rename_i hlen
        obtain ⟨vs, hvs⟩ := Reading.exists_of_after h
        rw [fits, Bool.and_eq_true, decide_eq_true_eq]
        exact ⟨by omega, fitsAll_of_reading elems hvs⟩

lemma fitsAll_of_reading (elems : List Reply) {vs : List Value}
    (h : readingAll elems = .value vs) : fitsAll elems = true := by
  match elems with
  | [] => rfl
  | elem :: elems =>
    rw [readingAll] at h
    rw [fitsAll, Bool.and_eq_true]
    cases helem : reading elem with
    | value v =>
      rw [helem] at h
      obtain ⟨vs', hvs'⟩ := Reading.exists_of_after h
      exact ⟨fits_of_reading elem helem, fitsAll_of_reading elems hvs'⟩
    | failed =>
      rw [helem] at h
      cases h
    | refused front =>
      rw [helem] at h
      cases h

end

lemma reading_of_readReplyFrom {reply : Reply} (hwf : reply.WellFormed) {fuel : Nat}
    (hfuel : reply.encode.length ≤ fuel) {v : Value} {rest left : GoString}
    (h : readReplyFrom fuel (reply.encode ++ rest) = (.value v, left)) :
    reading reply = .value v ∧ left = rest := by
  have hreads := readReplyFrom_reads reply hwf fuel hfuel
  cases hreading : reading reply with
  | value w =>
    rw [hreading] at hreads
    rw [hreads rest] at h
    cases h
    exact ⟨rfl, rfl⟩
  | failed =>
    rw [hreading] at hreads
    obtain ⟨err, left, hread⟩ := hreads rest
    rw [hread] at h
    cases h
  | refused front =>
    rw [hreading] at hreads
    obtain ⟨⟨tail, -, heq⟩, hpanic⟩ := hreads
    have hread := hpanic (tail ++ rest)
    rw [← append_assoc, ← heq] at hread
    rw [hread] at h
    cases h

lemma readReply_encode_iff {reply : Reply} (hwf : reply.WellFormed)
    (herror : errorFree reply = true) :
    (∀ rest, readReply (reply.encode ++ rest) = (.value (valueOf reply), rest)) ↔
      fits reply = true := by
  have hfuel : ∀ rest, reply.encode.length ≤ (reply.encode ++ rest).length + 1 := by
    intro rest
    rw [length_append]
    omega
  constructor
  · intro h
    exact fits_of_reading reply (reading_of_readReplyFrom hwf (hfuel []) (h [])).1
  · intro hfits rest
    have hreads := readReplyFrom_reads reply hwf _ (hfuel rest)
    rw [reading_of_fits reply herror hfits] at hreads
    exact hreads rest

def commandReply (args : List GoString) : Reply :=
  .array 0 (args.map (.bulk 0))

lemma itoa_natCast (n : Nat) : itoa n = decimalText 0 n := by
  unfold itoa decimalText
  rfl

lemma encode_bulk (arg : GoString) : encode (.bulk 0 arg) = bulkString arg := by
  rw [encode, bulkHeader, line, bulkString, itoa_natCast, crlf]
  simp

lemma encodeAll_map_bulk (args : List GoString) :
    encodeAll (args.map (.bulk 0)) = args.flatMap bulkString := by
  induction args with
  | nil => rfl
  | cons arg args ih => rw [map_cons, encodeAll, encode_bulk, ih, flatMap_cons]

lemma encode_commandReply (args : List GoString) :
    (commandReply args).encode = encodeCommand args := by
  rw [commandReply, encode, encodeAll_map_bulk, arrayHeader, line, encodeCommand, itoa_natCast,
    length_map, crlf]
  simp

lemma wellFormed_commandReply (args : List GoString) : (commandReply args).WellFormed := by
  induction args with
  | nil => trivial
  | cons arg args ih => exact ⟨trivial, ih⟩

lemma errorFree_commandReply (args : List GoString) : errorFree (commandReply args) = true := by
  rw [commandReply, errorFree]
  induction args with
  | nil => rfl
  | cons arg args ih =>
    rw [map_cons, errorFreeAll, ih]
    rfl

lemma valueOf_commandReply (args : List GoString) :
    valueOf (commandReply args) = .array (args.map .bytes) := by
  rw [commandReply, valueOf]
  congr 1
  induction args with
  | nil => rfl
  | cons arg args ih => rw [map_cons, valuesOf, valueOf, ih, map_cons]

lemma fits_commandReply (args : List GoString) : fits (commandReply args) = commandFits args := by
  have hall : fitsAll (args.map (.bulk 0)) = args.all fun arg => arg.length + 2 ≤ maxAlloc := by
    induction args with
    | nil => rfl
    | cons arg args ih => rw [map_cons, fitsAll, ih, fits, all_cons]
  rw [commandReply, fits, hall, length_map, commandFits]

def mixedReply : Reply :=
  .array 0 [.simple [0x4f, 0x4b], .integer .minus 0 7, .bulk 0 crlf, .nilBulk]

lemma errorFreeAll_replicate (count : Nat) :
    errorFreeAll (List.replicate count .nilBulk) = true := by
  induction count with
  | zero => rfl
  | succ count ih =>
    rw [replicate_succ, errorFreeAll, ih]
    rfl

lemma wellFormedAll_replicate (count : Nat) : WellFormedAll (List.replicate count .nilBulk) := by
  induction count with
  | zero => trivial
  | succ count ih => exact ⟨trivial, ih⟩

/-- One nil more than `make` accepts in one array. -/
@[irreducible] def manyNils : Reply := .array 0 (List.replicate (2 ^ 44 + 1) .nilBulk)

end Symkernel.Redis
