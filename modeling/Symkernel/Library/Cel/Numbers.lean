import Symkernel.Library.Cel.Reading

/-!
# How numerals are read
-/

namespace Symkernel.Library.Cel

open List

variable {rest : List Char}

lemma lexFrom_float {m : Mode} {text : List Char} (hends : m.ends = some [.float (String.ofList text)])
    (hread : ([' ', ')', ',', ']', '\x7d', ':', '.'].all fun c => m.read c = .stop) = true)
    (h : Follows rest = true) :
    lexFrom m rest = (lexFrom .start rest).map ([.float (String.ofList text)] ++ ·) :=
  lexFrom_stop hends (stopsAt_of_follows h hread)

variable {ds acc : List Char}

lemma lexFrom_exponentDigits {m : Mode}
    (hm : ∀ c, c.isDigit = true → m.read c = .go [] (.exponentDigits (c :: acc))) (hne : ds ≠ [])
    (hds : ∀ d ∈ ds, d.isDigit = true) (h : Follows rest = true) : lexFrom m (ds ++ rest) =
      (lexFrom .start rest).map ([.float (String.ofList (acc.reverse ++ ds))] ++ ·) := by
  cases ds with
  | nil => exact absurd rfl hne
  | cons d ds =>
    have hends : (Mode.exponentDigits (ds.reverse ++ d :: acc)).ends =
        some [.float (String.ofList (acc.reverse ++ d :: ds))] := by
      rw [Mode.ends_exponentDigits]
      simp
    rw [cons_append, lexFrom_more (hm d (hds d mem_cons_self)),
      lexFrom_run exponentDigits_run (fun c hc => hds c (mem_cons_of_mem d hc)),
      lexFrom_float hends rfl h]

lemma lexFrom_exponent (e : Exponent) {m : Mode}
    (hm : m.read e.mark = .go [] (.exponent (e.mark :: acc))) (h : Follows rest = true) :
    lexFrom m (e.mark :: (e.sign ++ (e.digits ++ rest))) = (lexFrom .start rest).map
        ([.float (String.ofList (acc.reverse ++ e.mark :: (e.sign ++ e.digits)))] ++ ·) := by
  have hdirect : ∀ c, c.isDigit = true → (Mode.exponent (e.mark :: acc)).read c =
      .go [] (.exponentDigits (c :: e.mark :: acc)) := by
    intro c hc
    simp only [Mode.read, hc, if_true]
  have hsigned : ∀ s c, c.isDigit = true → (Mode.exponentSign (s :: e.mark :: acc)).read c =
      .go [] (.exponentDigits (c :: s :: e.mark :: acc)) := by
    intro s c hc
    simp only [Mode.read, hc, if_true]
  rw [lexFrom_more hm]
  obtain hs | hs | hs := e.sign_ok
  · rw [hs, nil_append, lexFrom_exponentDigits hdirect e.digits_ne e.digits_ok h]
    simp
  · have hplus : (Mode.exponent (e.mark :: acc)).read '+' =
        .go [] (.exponentSign ('+' :: e.mark :: acc)) := rfl
    rw [hs, singleton_append, lexFrom_more hplus,
      lexFrom_exponentDigits (hsigned '+') e.digits_ne e.digits_ok h]
    simp
  · have hminus : (Mode.exponent (e.mark :: acc)).read '-' =
        .go [] (.exponentSign ('-' :: e.mark :: acc)) := rfl
    rw [hs, singleton_append, lexFrom_more hminus,
      lexFrom_exponentDigits (hsigned '-') e.digits_ne e.digits_ok h]
    simp

lemma digits_mark (e : Exponent) (acc : List Char) :
    (Mode.digits acc).read e.mark = .go [] (.exponent (e.mark :: acc)) := by
  obtain hmark | hmark := e.mark_ok <;> rw [hmark] <;> rfl

lemma fraction_mark (e : Exponent) (acc : List Char) :
    (Mode.fraction acc).read e.mark = .go [] (.exponent (e.mark :: acc)) := by
  obtain hmark | hmark := e.mark_ok <;> rw [hmark] <;> rfl

lemma lexFrom_fraction (hne : ds ≠ []) (hds : ∀ d ∈ ds, d.isDigit = true) (acc : List Char) :
    lexFrom (.digits acc) ('.' :: (ds ++ rest)) =
      lexFrom (.fraction (ds.reverse ++ '.' :: acc)) rest := by
  cases ds with
  | nil => exact absurd rfl hne
  | cons d ds =>
    have hpoint : (Mode.digits acc).read '.' = .go [] (.point acc) := rfl
    have hdigit : (Mode.point acc).read d = .go [] (.fraction (d :: '.' :: acc)) := by
      simp only [Mode.read, hds d mem_cons_self, if_true]
    rw [lexFrom_more hpoint, cons_append, lexFrom_more hdigit,
      lexFrom_run fraction_run (fun c hc => hds c (mem_cons_of_mem d hc))]
    simp

lemma lexFrom_unsigned {n : Numeral} (hn : n.isInteger = false) (h : Follows rest = true) :
    lexFrom .start (n.unsigned ++ rest) =
      (lexFrom .start rest).map ([.float (String.ofList n.unsigned)] ++ ·) := by
  have hwhole : ∀ d ∈ Nat.toDigits 10 n.whole, d.isDigit = true :=
    fun _ hd => isDigit_of_mem_toDigits hd
  rw [Numeral.unsigned, append_assoc, lexFrom_numeral Nat.toDigits_ne_nil hwhole]
  unfold Numeral.fractionText Numeral.exponentText
  by_cases hf : n.fraction = []
  · cases he : n.exponent with
    | none => simp [Numeral.isInteger, hf, he] at hn
    | some e =>
      have hread := lexFrom_exponent e (digits_mark e (Nat.toDigits 10 n.whole).reverse) h
      rw [if_pos hf]
      simpa using hread
  · rw [if_neg hf, append_assoc, cons_append, lexFrom_fraction hf n.fraction_ok]
    cases he : n.exponent with
    | none =>
      have hends : (Mode.fraction (n.fraction.reverse ++ '.' :: (Nat.toDigits 10 n.whole).reverse)).ends =
          some [.float (String.ofList (Nat.toDigits 10 n.whole ++ '.' :: n.fraction))] := by
        rw [Mode.ends_fraction]
        simp
      have hread := lexFrom_float hends rfl h
      simpa using hread
    | some e =>
      have hread := lexFrom_exponent e (fraction_mark e
        (n.fraction.reverse ++ '.' :: (Nat.toDigits 10 n.whole).reverse)) h
      simpa using hread

lemma Reads.float {n : Numeral} (hn : n.isInteger = false) :
    Reads n.chars (.member (.lit (.double n.text))) := by
  rw [Numeral.text, Numeral.chars]
  cases n.negative with
  | false => exact Reads.of_token (fun _ hrest => lexFrom_unsigned hn hrest) (fun _ => rfl) rfl
  | true =>
    intro stack rest _ hrest
    have hminus : startStep '-' = some ([.minus], .start) := rfl
    have hsign : State.step ⟨stack, .operand⟩ .minus = some ⟨stack, .sign⟩ := rfl
    have hfloat : State.step ⟨stack, .sign⟩ (.float (String.ofList n.unsigned)) =
        some ⟨stack, .after (.lit (.double ("-" ++ String.ofList n.unsigned)))⟩ := rfl
    refine ⟨.after (.lit (.double ("-" ++ String.ofList n.unsigned))), ?_, ?_⟩
    · simp [Place.value, Spine.push]
    · simp only [if_true, cons_append]
      rw [parseFrom_char hminus hsign, parseFrom_token (lexFrom_unsigned hn hrest) hfloat]
      rfl

lemma Reads.integer {n : Numeral} (hn : n.isInteger = true) (hlower : -2 ^ 63 ≤ n.intValue)
    (hupper : n.intValue < 2 ^ 63) : Reads n.chars (.member (.lit (.int n.intValue))) := by
  rw [Numeral.isInteger, Bool.and_eq_true, List.isEmpty_iff, Option.isNone_iff_eq_none] at hn
  have hunsigned : n.unsigned = Nat.toDigits 10 n.whole := by
    simp [Numeral.unsigned, Numeral.fractionText, Numeral.exponentText, hn.1, hn.2]
  rw [Numeral.intValue] at hlower hupper ⊢
  rw [Numeral.chars, hunsigned]
  cases hneg : n.negative with
  | false =>
    rw [hneg] at hupper
    simp only [Bool.false_eq_true, if_false] at hupper ⊢
    exact Reads.nat (by omega)
  | true =>
    simp only [if_true] at hlower ⊢
    exact Reads.negNat (by omega)

end Symkernel.Library.Cel
