import Mathlib

/-!
# The circuit breaker

`internal/circuitbreaker/circuitbreaker.go`. Times and durations are integers in nanoseconds;
the clock reading of a call is one of its arguments. The response that `WriteOpen` writes is
left out.
-/

namespace Symkernel.Breaker

inductive State where
  | closed
  | opened
  | halfOpen
  deriving DecidableEq, Repr

structure Config where
  timeoutThreshold : Int
  windowDuration : Int
  failureThreshold : Int
  openDuration : Int
  deriving DecidableEq, Repr

def second : Int := 1000000000

def defaultConfig : Config where
  timeoutThreshold := 30 * second
  windowDuration := 60 * second
  failureThreshold := 3
  openDuration := 90 * second

structure CircuitBreaker where
  cfg : Config
  state : State
  timeoutStamps : List Int
  openedAt : Int
  probeInFlight : Bool
  deriving DecidableEq, Repr

def normalize (cfg : Config) : Config where
  timeoutThreshold :=
    if cfg.timeoutThreshold ≤ 0 then defaultConfig.timeoutThreshold else cfg.timeoutThreshold
  windowDuration :=
    if cfg.windowDuration ≤ 0 then defaultConfig.windowDuration else cfg.windowDuration
  failureThreshold :=
    if cfg.failureThreshold ≤ 0 then defaultConfig.failureThreshold else cfg.failureThreshold
  openDuration := if cfg.openDuration ≤ 0 then defaultConfig.openDuration else cfg.openDuration

def new (cfg : Config) : CircuitBreaker where
  cfg := normalize cfg
  state := .closed
  timeoutStamps := []
  openedAt := 0
  probeInFlight := false

namespace CircuitBreaker

def allow (cb : CircuitBreaker) (now : Int) : CircuitBreaker × Bool :=
  match cb.state with
  | .closed => (cb, true)
  | .opened =>
    if cb.cfg.openDuration ≤ now - cb.openedAt then
      ({ cb with state := .halfOpen, probeInFlight := true }, true)
    else (cb, false)
  | .halfOpen => if cb.probeInFlight then (cb, false) else ({ cb with probeInFlight := true }, true)

def trip (cb : CircuitBreaker) (now : Int) : CircuitBreaker :=
  { cb with state := .opened, openedAt := now, probeInFlight := false, timeoutStamps := [] }

def pruneStamps (cb : CircuitBreaker) (now : Int) : CircuitBreaker :=
  let cutoff := now - cb.cfg.windowDuration
  { cb with timeoutStamps := cb.timeoutStamps.dropWhile (fun t => decide (t < cutoff)) }

def recordTimeout (cb : CircuitBreaker) (elapsed now : Int) : CircuitBreaker :=
  if elapsed < cb.cfg.timeoutThreshold then cb
  else
    match cb.state with
    | .closed =>
      let cb := cb.pruneStamps now
      let cb := { cb with timeoutStamps := cb.timeoutStamps ++ [now] }
      if cb.cfg.failureThreshold ≤ cb.timeoutStamps.length then cb.trip now else cb
    | .halfOpen => cb.trip now
    | .opened => cb

def recordSuccess (cb : CircuitBreaker) : CircuitBreaker :=
  match cb.state with
  | .halfOpen => { cb with state := .closed, timeoutStamps := [], probeInFlight := false }
  | .closed => { cb with timeoutStamps := [] }
  | .opened => cb

variable (cb : CircuitBreaker) (elapsed now : Int)

@[simp] lemma allow_cfg : (cb.allow now).1.cfg = cb.cfg := by
  unfold allow
  split <;> (try split) <;> rfl

@[simp] lemma recordTimeout_cfg : (cb.recordTimeout elapsed now).cfg = cb.cfg := by
  unfold recordTimeout trip pruneStamps
  split
  · rfl
  · split
    · dsimp only
      split <;> rfl
    · rfl
    · rfl

@[simp] lemma recordSuccess_cfg : cb.recordSuccess.cfg = cb.cfg := by
  unfold recordSuccess
  split <;> rfl

/-- What `Allow` can do. -/
lemma allow_cases : (cb.state = .closed ∧ cb.allow now = (cb, true)) ∨
    (cb.state = .opened ∧ cb.cfg.openDuration ≤ now - cb.openedAt ∧
      cb.allow now = ({ cb with state := .halfOpen, probeInFlight := true }, true)) ∨
    (cb.state = .opened ∧ now - cb.openedAt < cb.cfg.openDuration ∧ cb.allow now = (cb, false)) ∨
    (cb.state = .halfOpen ∧ cb.probeInFlight = true ∧ cb.allow now = (cb, false)) ∨
    (cb.state = .halfOpen ∧ cb.probeInFlight = false ∧
      cb.allow now = ({ cb with probeInFlight := true }, true)) := by
  unfold allow
  split
  · rename_i hs
    exact .inl ⟨hs, rfl⟩
  · rename_i hs
    by_cases hcool : cb.cfg.openDuration ≤ now - cb.openedAt
    · exact .inr (.inl ⟨hs, hcool, if_pos hcool⟩)
    · exact .inr (.inr (.inl ⟨hs, by omega, if_neg hcool⟩))
  · rename_i hs
    cases hflight : cb.probeInFlight with
    | true => exact .inr (.inr (.inr (.inl ⟨hs, rfl, rfl⟩)))
    | false => exact .inr (.inr (.inr (.inr ⟨hs, rfl, rfl⟩)))

lemma recordTimeout_of_counts (h : cb.cfg.timeoutThreshold ≤ elapsed) :
    (cb.state = .closed ∧ ((cb.recordTimeout elapsed now).state = .closed ∨
      (cb.recordTimeout elapsed now).state = .opened)) ∨
    (cb.state = .halfOpen ∧ cb.recordTimeout elapsed now = cb.trip now) ∨
    (cb.state = .opened ∧ cb.recordTimeout elapsed now = cb) := by
  unfold recordTimeout
  rw [if_neg (by omega)]
  split
  · rename_i hs
    refine .inl ⟨hs, ?_⟩
    dsimp only
    split
    · exact .inr rfl
    · exact .inl hs
  · rename_i hs
    exact .inr (.inl ⟨hs, rfl⟩)
  · rename_i hs
    exact .inr (.inr ⟨hs, rfl⟩)

lemma recordTimeout_of_short (h : elapsed < cb.cfg.timeoutThreshold) :
    cb.recordTimeout elapsed now = cb :=
  if_pos h

lemma recordSuccess_cases : (cb.state = .opened ∧ cb.recordSuccess = cb) ∨
      (cb.state ≠ .opened ∧ cb.recordSuccess.state = .closed ∧
        cb.recordSuccess.timeoutStamps = []) := by
  unfold recordSuccess
  split <;> rename_i hs <;> simp [hs]

end CircuitBreaker

end Symkernel.Breaker
