import Symkernel.Library.GoMap
import Symkernel.Library.GoStrconv
import Symkernel.Library.Runs

/-!
# The audit log

`internal/audit`: `Record` appends to a bounded slice and drops the oldest entries when it is
full, `Rotate` drops the entries at the front that are older than a cutoff, and both count what
they drop.
-/

namespace Symkernel.Audit

open Library List

abbrev Text := List Char

/-- Nanoseconds. -/
abbrev Time := Int

/-- The layout RFC 3339 with nanoseconds, in UTC. Not every time can be read back (a year has
four digits), but what can be read is the time that was written. -/
structure Layout where
  format : Time → Text
  parse : Text → Option Time
  format_injective : Function.Injective format
  parse_format : ∀ {t u}, parse (format t) = some u → u = t

structure Entry where
  decisionID : Text
  inputHash : Text
  tier : Text
  result : Text
  timestamp : Text
  deriving DecidableEq

structure Log where
  entries : List Entry
  maxLen : Nat
  rotationCount : Nat
  deriving DecidableEq

def withMaxLen (n : Int) (l : Log) : Log :=
  if 0 < n then { l with maxLen := n.toNat } else l

/-- `New` with the arguments of its `WithMaxLen` options. -/
def newLog (opts : List Int) : Log :=
  opts.foldl (fun l n => withMaxLen n l) ⟨[], 10000, 0⟩

variable (layout : Layout)

def stamp (entry : Entry) (now : Time) : Entry :=
  { entry with timestamp := layout.format now }

def Log.makeRoom (l : Log) : Log :=
  if l.maxLen ≤ l.entries.length then
    let drop := l.entries.length - l.maxLen + 1
    { l with entries := l.entries.drop drop, rotationCount := l.rotationCount + drop }
  else l

def Log.append (l : Log) (entry : Entry) : Log :=
  { l.makeRoom with entries := l.makeRoom.entries ++ [entry] }

def negDuration (age : Int) : Int :=
  if age = -2 ^ 63 then age else -age

def cutoff (now : Time) (age : Int) : Time :=
  now + negDuration age

def before (bound : Time) (e : Entry) : Bool :=
  (layout.parse e.timestamp).any fun t => t < bound

/-- The loop of `Rotate`: the number of entries in front of the first that is not before the
cutoff or cannot be read. -/
def cutAt (bound : Time) : List Entry → Nat
  | [] => 0
  | e :: entries => if before layout bound e then cutAt bound entries + 1 else 0

/-- The log afterwards and the number of entries removed. -/
def Log.rotate (l : Log) (now : Time) (age : Int) : Log × Nat :=
  let cut := cutAt layout (cutoff now age) l.entries
  if 0 < cut then
    ({ l with entries := l.entries.drop cut, rotationCount := l.rotationCount + cut }, cut)
  else (l, cut)

/-- `Export`; `none` is the zero time. -/
def Log.exportSince (l : Log) (since : Option Time) : List Entry :=
  l.entries.filter fun e =>
    match since with
    | none => true
    | some start => (layout.parse e.timestamp).any fun t => !(t < start)

structure LogStats where
  totalEntries : Nat
  rotationCount : Nat
  maxLen : Nat
  tierBreakdown : GoMap Text Nat

def Log.stats (l : Log) : LogStats where
  totalEntries := l.entries.length
  rotationCount := l.rotationCount
  maxLen := l.maxLen
  tierBreakdown := l.entries.foldl (fun m e => m.insert e.tier ((m.lookup e.tier).getD 0 + 1)) ∅

inductive Call where
  | record (entry : Entry) (now : Time)
  | rotate (age : Int) (now : Time)

def step (l : Log) : Call → Log
  | .record entry now => l.append (stamp layout entry now)
  | .rotate age now => (l.rotate layout now age).1

def recorded (calls : List Call) : List Entry :=
  calls.filterMap fun
    | .record entry now => some (stamp layout entry now)
    | .rotate _ _ => none

/-- Of everything recorded, the log has dropped as many entries from the front as it counts. -/
structure Accounts (maxLen : Nat) (l : Log) (past : List Entry) : Prop where
  positive : 1 ≤ maxLen
  limit : l.maxLen = maxLen
  bounded : l.entries.length ≤ maxLen
  split : ∃ dropped, past = dropped ++ l.entries ∧ dropped.length = l.rotationCount

variable {layout} {maxLen : Nat} {l : Log} {past : List Entry}

lemma Accounts.append (h : Accounts maxLen l past) (e : Entry) :
    Accounts maxLen (l.append e) (past ++ [e]) := by
  obtain ⟨hpos, rfl, hlen, dropped, rfl, hcount⟩ := h
  by_cases hfull : l.maxLen ≤ l.entries.length
  · rw [Log.append, Log.makeRoom, if_pos hfull]
    refine ⟨hpos, rfl, ?_, dropped ++ l.entries.take (l.entries.length - l.maxLen + 1), ?_, ?_⟩
    · simp only [length_append, length_drop, length_singleton]
      omega
    · simp only [append_assoc]
      rw [← append_assoc (l.entries.take _), take_append_drop]
    · simp only [length_append, length_take]
      omega
  · rw [Log.append, Log.makeRoom, if_neg hfull]
    refine ⟨hpos, rfl, ?_, dropped, by simp, hcount⟩
    simp only [length_append, length_singleton]
    omega

lemma cutAt_le (layout : Layout) (bound : Time) (entries : List Entry) :
    cutAt layout bound entries ≤ entries.length := by
  induction entries with
  | nil => simp [cutAt]
  | cons e entries ih =>
    rw [cutAt, length_cons]
    split <;> omega

lemma rotate_eq (l : Log) (now : Time) (age : Int) : (l.rotate layout now age).1 = { l with
        entries := l.entries.drop (cutAt layout (cutoff now age) l.entries)
        rotationCount := l.rotationCount + cutAt layout (cutoff now age) l.entries } := by
  unfold Log.rotate
  dsimp only
  split
  · rfl
  · have hzero : cutAt layout (cutoff now age) l.entries = 0 := by omega
    rw [hzero, drop_zero, Nat.add_zero]

lemma Accounts.rotate (h : Accounts maxLen l past) (now : Time) (age : Int) :
    Accounts maxLen (l.rotate layout now age).1 past := by
  obtain ⟨hpos, rfl, hlen, dropped, rfl, hcount⟩ := h
  have hcut := cutAt_le layout (cutoff now age) l.entries
  rw [rotate_eq]
  refine ⟨hpos, rfl, ?_, dropped ++ l.entries.take (cutAt layout (cutoff now age) l.entries), ?_, ?_⟩
  · rw [length_drop]
    omega
  · rw [append_assoc, take_append_drop]
  · rw [length_append, length_take]
    dsimp only
    omega

lemma Accounts.step (h : Accounts maxLen l past) (call : Call) :
    Accounts maxLen (step layout l call) (past ++ recorded layout [call]) := by
  cases call with
  | record entry now => exact h.append _
  | rotate age now =>
    rw [recorded, filterMap_cons_none rfl, filterMap_nil, append_nil]
    exact h.rotate now age

lemma Accounts.run (layout : Layout) (h : Accounts maxLen l past) (calls : List Call) :
    Accounts maxLen (runFrom (Audit.step layout) l calls) (past ++ recorded layout calls) := by
  induction calls generalizing l past with
  | nil => simpa [recorded] using h
  | cons call calls ih =>
    have hsplit : recorded layout (call :: calls) =
        recorded layout [call] ++ recorded layout calls := by
      rw [recorded, ← singleton_append, filterMap_append]
      rfl
    rw [runFrom_cons, hsplit, ← append_assoc]
    exact ih (h.step call)

lemma accounts_newLog (h : 1 ≤ maxLen) : Accounts maxLen (newLog [maxLen]) [] := by
  have hnew : newLog [maxLen] = ⟨[], maxLen, 0⟩ := by
    simp only [newLog, foldl_cons, foldl_nil, withMaxLen]
    rw [if_pos (by omega), Int.toNat_natCast]
  rw [hnew]
  exact ⟨h, rfl, Nat.zero_le _, [], rfl, rfl⟩

variable (layout)

/-- After any calls the log holds the last entries recorded, no more than its limit, and counts
all others. -/
theorem no_entry_lost (h : 1 ≤ maxLen) (calls : List Call) :
    (runFrom (step layout) (newLog [maxLen]) calls).entries <:+ recorded layout calls ∧
    (runFrom (step layout) (newLog [maxLen]) calls).entries.length ≤ maxLen ∧
    (runFrom (step layout) (newLog [maxLen]) calls).stats.totalEntries +
      (runFrom (step layout) (newLog [maxLen]) calls).stats.rotationCount =
        (recorded layout calls).length := by
  obtain ⟨-, -, hbound, dropped, hsplit, hcount⟩ := (accounts_newLog h).run layout calls
  rw [nil_append] at hsplit
  refine ⟨⟨dropped, hsplit.symm⟩, hbound, ?_⟩
  rw [Log.stats, hsplit, length_append, hcount, Nat.add_comm]

def decimalLayout : Layout where
  format := itoaText
  parse s := if itoaText (decimalInt s) = s then some (decimalInt s) else none
  format_injective := itoaText_injective
  parse_format := by
    intro t u h
    rw [Option.ite_none_right_eq_some, Option.some_inj] at h
    apply itoaText_injective
    rw [← h.2, h.1]

def sampleEntry : Entry where
  decisionID := "d".toList
  inputHash := []
  tier := "cel".toList
  result := "pass".toList
  timestamp := []

/-- Three records in a log of two, and a rotation. -/
theorem two_of_three_accounted : (runFrom (step decimalLayout) (newLog [(2 : Nat)])
      [.record sampleEntry 1, .record sampleEntry 2, .record sampleEntry 3, .rotate 7 10]
      ).stats.rotationCount = 2 ∧
    (runFrom (step decimalLayout) (newLog [(2 : Nat)])
      [.record sampleEntry 1, .record sampleEntry 2, .record sampleEntry 3, .rotate 7 10]
      ).stats.totalEntries + 2 = 3 := by
  have hcount : (runFrom (step decimalLayout) (newLog [(2 : Nat)])
      [.record sampleEntry 1, .record sampleEntry 2, .record sampleEntry 3, .rotate 7 10]
      ).stats.rotationCount = 2 := by decide +kernel
  refine ⟨hcount, ?_⟩
  have htotal := (no_entry_lost decimalLayout (show 1 ≤ 2 by decide)
    [.record sampleEntry 1, .record sampleEntry 2, .record sampleEntry 3, .rotate 7 10]).2.2
  rw [hcount] at htotal
  exact htotal

end Symkernel.Audit
