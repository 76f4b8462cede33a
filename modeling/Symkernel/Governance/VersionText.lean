import Symkernel.Library.GoScan
import Symkernel.Governance.Schema

/-!
# The text of a version
-/

namespace Symkernel.Governance

open Library List

/-- `fmt.Sscanf` with the format `%d.%d.%d`: what follows the third number is not read. -/
def scanVersion (s : Text) : Option SchemaVersion := do
  let (major, s) ← scanInt s
  let s ← scanLiteral '.' s
  let (minor, s) ← scanInt s
  let s ← scanLiteral '.' s
  let (patch, _) ← scanInt s
  return ⟨major, minor, patch⟩

def parseSchemaVersion (s : Text) : Except GoError SchemaVersion :=
  match scanVersion s with
  | none =>
    .error (.quoted "invalid schema version " (String.ofList s) ": expected MAJOR.MINOR.PATCH")
  | some v =>
    if v.major < 0 ∨ v.minor < 0 ∨ v.patch < 0 then
      .error (.quoted "negative component in version " (String.ofList s) "")
    else .ok v

def SchemaVersion.Fits (v : SchemaVersion) : Prop :=
  ∀ n ∈ [v.major, v.minor, v.patch], 0 ≤ n ∧ n < 2 ^ 63

variable {s : Text} {v : SchemaVersion}

lemma scanVersion_eq_some : scanVersion s = some v ↔ ∃ (a b c : ScannedInt) (rest : Text),
      s = a.text ++ '.' :: (b.text ++ '.' :: (c.text ++ rest)) ∧
      v = ⟨a.value, b.value, c.value⟩ ∧ Stops rest := by
  constructor
  · intro h
    obtain ⟨⟨major, s₁⟩, hmajor, h⟩ := Option.bind_eq_some_iff.mp h
    obtain ⟨s₂, hdot, h⟩ := Option.bind_eq_some_iff.mp h
    obtain ⟨⟨minor, s₃⟩, hminor, h⟩ := Option.bind_eq_some_iff.mp h
    obtain ⟨s₄, hdot', h⟩ := Option.bind_eq_some_iff.mp h
    obtain ⟨⟨patch, rest⟩, hpatch, h⟩ := Option.bind_eq_some_iff.mp h
    obtain ⟨a, rfl, rfl, -⟩ := scanInt_eq_some.mp hmajor
    obtain rfl := scanLiteral_eq_some.mp hdot
    obtain ⟨b, rfl, rfl, -⟩ := scanInt_eq_some.mp hminor
    obtain rfl := scanLiteral_eq_some.mp hdot'
    obtain ⟨c, rfl, rfl, hrest⟩ := scanInt_eq_some.mp hpatch
    exact ⟨a, b, c, rest, rfl, (Option.some.inj h).symm, hrest⟩
  · rintro ⟨a, b, c, rest, rfl, rfl, hrest⟩
    have hstop : ∀ s : Text, Stops ('.' :: s) := fun s d hd => Option.some.inj hd ▸ rfl
    have ha := scanInt_eq_some.mpr ⟨a, rfl, rfl, hstop (b.text ++ '.' :: (c.text ++ rest))⟩
    have hb := scanInt_eq_some.mpr ⟨b, rfl, rfl, hstop (c.text ++ rest)⟩
    have hc := scanInt_eq_some.mpr ⟨c, rfl, rfl, hrest⟩
    simp [scanVersion, scanLiteral, ha, hb, hc]

lemma parseSchemaVersion_eq_ok : parseSchemaVersion s = .ok v ↔
    scanVersion s = some v ∧ 0 ≤ v.major ∧ 0 ≤ v.minor ∧ 0 ≤ v.patch := by
  unfold parseSchemaVersion
  cases scanVersion s with
  | none => simp
  | some w =>
    simp only [Option.some.injEq]
    constructor
    · intro h
      split at h
      · cases h
      · cases h
        exact ⟨rfl, by omega⟩
    · rintro ⟨rfl, h⟩
      rw [if_neg (by omega)]

lemma parse_text (h : v.Fits) : parseSchemaVersion v.text = .ok v := by
  obtain ⟨major, minor, patch⟩ := v
  simp only [SchemaVersion.Fits, forall_mem_cons] at h
  obtain ⟨ha, hb, hc, -⟩ := h
  rw [parseSchemaVersion_eq_ok, scanVersion_eq_some]
  refine ⟨⟨.ofInt major ha.1 ha.2, .ofInt minor hb.1 hb.2, .ofInt patch hc.1 hc.2, [], ?_, ?_,
    fun c hc => (by cases hc)⟩, ha.1, hb.1, hc.1⟩
  · simp [ScannedInt.text_ofInt, SchemaVersion.text]
  · simp only [ScannedInt.value_ofInt]

/-- The text of a version is parsed as the version. Other texts are accepted too: blanks, a sign and
zeros in front of a number are skipped, and whatever follows the third number is. -/
theorem parse_canonical_iff (s : Text) : (∀ v, parseSchemaVersion s = .ok v ↔ s = v.text ∧ v.Fits) ↔
      ∀ (a b c : ScannedInt) (rest : Text),
        s = a.text ++ '.' :: (b.text ++ '.' :: (c.text ++ rest)) → Stops rest →
        0 ≤ a.value → 0 ≤ b.value → 0 ≤ c.value → (a.Plain ∧ b.Plain ∧ c.Plain) ∧ rest = [] := by
  constructor
  · intro hexact a b c rest hs hrest ha hb hc
    have hparse := parseSchemaVersion_eq_ok.mpr
      ⟨scanVersion_eq_some.mpr ⟨a, b, c, rest, hs, rfl, hrest⟩, ha, hb, hc⟩
    have htext := ((hexact _).mp hparse).1
    have hdot : ∀ n, '.' ∉ itoaText n := SchemaRegistry.notMem_itoaText (by decide) (by decide)
    rw [hs, SchemaVersion.text, append_assoc, cons_append] at htext
    obtain ⟨hatext, htext⟩ := first_separator_inj a.dot_notMem_text (hdot _) htext
    obtain ⟨hbtext, hctext⟩ := first_separator_inj b.dot_notMem_text (hdot _) htext
    have hnil : rest = [] := by
      cases rest with
      | nil => rfl
      | cons d rest =>
        have hd : d ∈ itoaText c.value := hctext ▸ by simp
        rw [ScannedInt.itoaText_of_nonneg hc] at hd
        have hdigit := hrest d rfl
        rw [isDigit_of_mem_toDigits hd] at hdigit
        cases hdigit
    rw [hnil, append_nil] at hctext
    rw [ScannedInt.plain_iff ha, ScannedInt.plain_iff hb, ScannedInt.plain_iff hc]
    exact ⟨⟨hatext, hbtext, hctext⟩, hnil⟩
  · intro hplain v
    constructor
    · intro hparse
      obtain ⟨hscan, ha, hb, hc⟩ := parseSchemaVersion_eq_ok.mp hparse
      obtain ⟨a, b, c, rest, hs, rfl, hrest⟩ := scanVersion_eq_some.mp hscan
      obtain ⟨⟨hpa, hpb, hpc⟩, rfl⟩ := hplain a b c rest hs hrest ha hb hc
      rw [ScannedInt.plain_iff ha] at hpa
      rw [ScannedInt.plain_iff hb] at hpb
      rw [ScannedInt.plain_iff hc] at hpc
      constructor
      · rw [hs, hpa, hpb, hpc, append_nil, SchemaVersion.text, append_assoc, cons_append]
      · simp only [SchemaVersion.Fits, forall_mem_cons]
        exact ⟨⟨ha, a.fits.2⟩, ⟨hb, b.fits.2⟩, ⟨hc, c.fits.2⟩, by simp⟩
    · rintro ⟨rfl, hfits⟩
      exact parse_text hfits

theorem looseVersion_accepted : parseSchemaVersion " +01. 2.3abc".toList = .ok ⟨1, 2, 3⟩ ∧
      SchemaVersion.text ⟨1, 2, 3⟩ ≠ " +01. 2.3abc".toList := by
  decide +kernel

end Symkernel.Governance
