import Symkernel.Library.Runs
import Symkernel.Governance.Staging

/-!
# Rollback
-/

namespace Symkernel.Governance

open Library List

structure RollbackRecord where
  policyID : Text
  fromVersion : SchemaVersion
  toVersion : SchemaVersion
  actor : Text
  reason : Text
  timestamp : Time
  deriving DecidableEq

inductive Action where
  | deploy
  | rollback
  deriving DecidableEq, Repr

structure DeploymentRecord where
  policyID : Text
  version : SchemaVersion
  actor : Text
  action : Action
  env : Environment
  timestamp : Time
  deriving DecidableEq

structure RollbackManager where
  history : GoMap Text (List DeploymentRecord)

def newRollbackManager : RollbackManager where
  history := ∅

inductive RollbackError where
  | noPrevious (policyID : Text)
  | transitionFailed (err : TransitionError)
  deriving DecidableEq

def RollbackError.message (isPrint : Char → Bool) : RollbackError → String
  | .noPrevious policyID =>
    "no previous version to roll back to for policy " ++ goQuote isPrint (String.ofList policyID)
  | .transitionFailed err => "rollback transition failed: " ++ err.message isPrint

namespace RollbackManager

variable (m : RollbackManager)

def recorded (policyID : Text) : List DeploymentRecord :=
  (m.history.lookup policyID).getD []

def append (policyID : Text) (r : DeploymentRecord) : RollbackManager where
  history := m.history.insert policyID (m.recorded policyID ++ [r])

def recordDeploy (policyID : Text) (v : SchemaVersion) (actor : Text) (env : Environment)
    (now : Time) : RollbackManager :=
  m.append policyID ⟨policyID, v, actor, .deploy, env, now⟩

def recordRollback (policyID : Text) (source target : SchemaVersion) (actor reason : Text)
    (env : Environment) (now : Time) : RollbackRecord × RollbackManager :=
  (⟨policyID, source, target, actor, reason, now⟩,
    m.append policyID ⟨policyID, target, actor, .rollback, env, now⟩)

def previousVersion (policyID : Text) : Option SchemaVersion :=
  let hist := m.recorded policyID
  if hist.length < 2 then none else (hist[hist.length - 2]?).map DeploymentRecord.version

/-- The manager and the policy after the call come with its result. The clock is read by the
transition and again for the record. -/
def rollback (p : Policy) (actor reason : Text) (env : Environment) (now later : Time) :
    Except RollbackError RollbackRecord × RollbackManager × Policy :=
  match m.previousVersion p.id with
  | none => (.error (.noPrevious p.id), m, p)
  | some previous =>
    match p.transition .rolledBack actor reason now with
    | .error err => (.error (.transitionFailed err), m, p)
    | .ok (_, p') =>
      let (record, m') := m.recordRollback p.id p.version previous actor reason env later
      (.ok record, m', p')

end RollbackManager

inductive Event where
  | deployed (v : SchemaVersion) (env : Environment)
  | rolledBack (source target : SchemaVersion) (env : Environment)
  deriving DecidableEq

def Event.env : Event → Environment
  | .deployed _ env => env
  | .rolledBack _ _ env => env

def Event.version : Event → SchemaVersion
  | .deployed v _ => v
  | .rolledBack _ target _ => target

def activations (events : List Event) (env : Environment) : List SchemaVersion :=
  (events.filter (·.env = env)).map Event.version

def activeBefore (events : List Event) (env : Environment) (v : SchemaVersion) :
    Option SchemaVersion :=
  ((activations events env).reverse.dropWhile (· = v)).head?

/-- The version was rolled back from and has not been deployed since. -/
def RolledBackFrom (events : List Event) (env : Environment) (v : SchemaVersion) : Prop :=
  ∃ front target back, events = front ++ .rolledBack v target env :: back ∧
    .deployed v env ∉ back

inductive HistoryCall where
  | recordDeploy (policyID : Text) (v : SchemaVersion) (actor : Text) (env : Environment)
    (now : Time)
  | rollback (p : Policy) (actor reason : Text) (env : Environment) (now later : Time)

namespace RollbackManager

def step (m : RollbackManager) : HistoryCall → RollbackManager
  | .recordDeploy policyID v actor env now => m.recordDeploy policyID v actor env now
  | .rollback p actor reason env now later => (m.rollback p actor reason env now later).2.1

def happened (policyID : Text) (m : RollbackManager) : HistoryCall → List Event
  | .recordDeploy id v _ env _ => if id = policyID then [.deployed v env] else []
  | .rollback p actor reason env now later =>
    match (m.rollback p actor reason env now later).1 with
    | .ok record =>
      if p.id = policyID then [.rolledBack record.fromVersion record.toVersion env] else []
    | .error _ => []

def events (policyID : Text) (calls : List HistoryCall) : List Event :=
  outputs step (happened policyID) newRollbackManager calls

def ReturnsToActive (calls : List HistoryCall) (p : Policy) (actor reason : Text)
    (env : Environment) (now later : Time) : Prop :=
  let m := runFrom step newRollbackManager calls
  let (result, m', p') := m.rollback p actor reason env now later
  (p.state = .deployed → (activations (events p.id calls) env).getLast? = some p.version →
    ∀ record, result = .ok record →
      activeBefore (events p.id calls) env p.version = some record.toVersion ∧
        ¬RolledBackFrom (events p.id calls) env record.toVersion) ∧
  ∀ err, result = .error err → m' = m ∧ p' = p

/-- Of the last two events of a policy with two or more. -/
def LastTwo (events : List Event) (P : Event → Event → Prop) : Prop :=
  ∀ front q r, events = front ++ [q, r] → P q r

/-- The last but one event made the version active that was active in the environment before. -/
def EndsWithActive (events : List Event) (env : Environment) (v : SchemaVersion) : Prop :=
  LastTwo events fun q r =>
    (q.env = env ∧ r.env = env ∧ q.version ≠ v ∨
      q.env ≠ env ∧ activeBefore events env v = some q.version) ∧
    ¬RolledBackFrom events env q.version

variable {m : RollbackManager}

lemma recorded_append (policyID id : Text) (r : DeploymentRecord) :
    (m.append policyID r).recorded id =
      m.recorded id ++ if policyID = id then [r] else [] := by
  unfold append recorded
  by_cases hid : id = policyID
  · subst hid
    rw [Finmap.lookup_insert, if_pos rfl]
    rfl
  · rw [Finmap.lookup_insert_of_ne _ hid, if_neg (Ne.symm hid), append_nil]

lemma rollback_cases (m : RollbackManager) (p : Policy) (actor reason : Text) (env : Environment)
    (now later : Time) : (∃ err, m.rollback p actor reason env now later = (.error err, m, p)) ∨
      ∃ previous, m.previousVersion p.id = some previous ∧
        m.rollback p actor reason env now later =
          (.ok ⟨p.id, p.version, previous, actor, reason, later⟩,
            m.append p.id ⟨p.id, previous, actor, .rollback, env, later⟩,
            { p with state := .rolledBack, updatedAt := now }) := by
  unfold rollback
  cases hprevious : m.previousVersion p.id with
  | none => exact .inl ⟨_, rfl⟩
  | some previous =>
    cases htransition : p.transition .rolledBack actor reason now with
    | error err => exact .inl ⟨_, rfl⟩
    | ok r =>
      obtain ⟨record, p'⟩ := r
      obtain ⟨-, rfl, -⟩ := Policy.transition_eq_ok htransition
      exact .inr ⟨previous, rfl, rfl⟩

lemma rollback_of_deployed {p : Policy} {previous : SchemaVersion} (hstate : p.state = .deployed)
    (hprevious : m.previousVersion p.id = some previous) (actor reason : Text) (env : Environment)
    (now later : Time) : m.rollback p actor reason env now later =
      (.ok ⟨p.id, p.version, previous, actor, reason, later⟩,
        m.append p.id ⟨p.id, previous, actor, .rollback, env, later⟩,
        { p with state := .rolledBack, updatedAt := now }) := by
  have hcan : canTransition p.state .rolledBack = true := by
    rw [hstate]
    rfl
  obtain ⟨⟨record, p'⟩, htransition⟩ :=
    (p.transition_isOk_iff .rolledBack actor reason now).mpr hcan
  obtain ⟨-, rfl, -⟩ := Policy.transition_eq_ok htransition
  unfold rollback
  rw [hprevious, htransition]
  rfl

lemma versions_step (m : RollbackManager) (c : HistoryCall) (policyID : Text) :
    ((m.step c).recorded policyID).map DeploymentRecord.version =
      (m.recorded policyID).map DeploymentRecord.version ++
        (m.happened policyID c).map Event.version := by
  cases c with
  | recordDeploy id v actor env now =>
    rw [step, recordDeploy, recorded_append, happened, map_append]
    split <;> rfl
  | rollback p actor reason env now later =>
    obtain ⟨err, h⟩ | ⟨previous, -, h⟩ := m.rollback_cases p actor reason env now later
    · rw [step, happened, h, map_nil, append_nil]
    · rw [step, happened, h, recorded_append, map_append]
      split <;> rfl

lemma versions_runFrom (calls : List HistoryCall) (policyID : Text) :
    ((runFrom step newRollbackManager calls).recorded policyID).map DeploymentRecord.version =
      (events policyID calls).map Event.version := by
  have hrun : ∀ m : RollbackManager,
      ((runFrom step m calls).recorded policyID).map DeploymentRecord.version =
        (m.recorded policyID).map DeploymentRecord.version ++
          (outputs step (happened policyID) m calls).map Event.version := by
    induction calls with
    | nil =>
      intro m
      rw [runFrom_nil, outputs, map_nil, append_nil]
    | cons c calls ih =>
      intro m
      rw [runFrom_cons, ih, versions_step, outputs, map_append, append_assoc]
  rw [hrun]
  rfl

lemma exists_lastTwo {α : Type*} {l : List α} (h : 2 ≤ l.length) :
    ∃ front a b, l = front ++ [a, b] := by
  obtain rfl | ⟨back, b, rfl⟩ := eq_nil_or_concat' l
  · cases h
  rw [length_append, length_singleton] at h
  obtain rfl | ⟨front, a, rfl⟩ := eq_nil_or_concat' back
  · rw [length_nil] at h
    omega
  exact ⟨front, a, b, append_assoc front [a] [b]⟩

lemma previousVersion_eq_some_iff {policyID : Text} {es : List Event}
    (h : (m.recorded policyID).map DeploymentRecord.version = es.map Event.version)
    {v : SchemaVersion} :
    m.previousVersion policyID = some v ↔ ∃ front q r, es = front ++ [q, r] ∧ q.version = v := by
  have hlength : (m.recorded policyID).length = es.length := by
    rw [← length_map DeploymentRecord.version, h, length_map]
  have hprevious : m.previousVersion policyID =
      if es.length < 2 then none else es[es.length - 2]?.map Event.version := by
    unfold previousVersion
    dsimp only
    rw [hlength, ← List.getElem?_map, h, List.getElem?_map]
  have hlast : ∀ front q r, es = front ++ [q, r] → m.previousVersion policyID = some q.version := by
    rintro front q r rfl
    have hnot : ¬(front ++ [q, r]).length < 2 := by
      simp only [length_append, length_cons]
      omega
    rw [hprevious]
    simp
  constructor
  · intro hv
    have hlen : ¬es.length < 2 := by
      intro hlt
      rw [hprevious, if_pos hlt] at hv
      cases hv
    obtain ⟨front, q, r, heq⟩ := exists_lastTwo (not_lt.mp hlen)
    refine ⟨front, q, r, heq, ?_⟩
    rw [hlast front q r heq] at hv
    exact Option.some.inj hv
  · rintro ⟨front, q, r, heq, rfl⟩
    exact hlast front q r heq

lemma activeBefore_ne (es : List Event) (env : Environment) (v : SchemaVersion) :
    activeBefore es env v ≠ some v := by
  intro h
  have hnot := List.head?_dropWhile_not (fun w => decide (w = v)) (activations es env).reverse
  rw [activeBefore] at h
  rw [h] at hnot
  simp at hnot

lemma activations_append (es es' : List Event) (env : Environment) :
    activations (es ++ es') env = activations es env ++ activations es' env := by
  rw [activations, filter_append, map_append, activations, activations]

/-- The last but one event is right by itself, or in spite of its environment. -/
lemma activeBefore_eq_some_iff {front : List Event} {q r : Event} {env : Environment}
    {v : SchemaVersion} (h : (activations (front ++ [q, r]) env).getLast? = some v) :
    activeBefore (front ++ [q, r]) env v = some q.version ↔
      (q.env = env ∧ r.env = env ∧ q.version ≠ v ∨
        q.env ≠ env ∧ activeBefore (front ++ [q, r]) env v = some q.version) := by
  by_cases hq : q.env = env
  · have hne : q.version = v → activeBefore (front ++ [q, r]) env v ≠ some q.version := by
      rintro rfl
      exact activeBefore_ne _ env _
    by_cases hr : r.env = env
    · have hpair : activations [q, r] env = [q.version, r.version] := by
        simp [activations, hq, hr]
      have hlast : r.version = v := by
        rw [activations_append, hpair] at h
        simpa using h
      have hbefore : q.version ≠ v → activeBefore (front ++ [q, r]) env v = some q.version := by
        intro hqv
        rw [activeBefore, activations_append, hpair, hlast]
        simp [hqv]
      tauto
    · have hpair : activations [q, r] env = [q.version] := by
        simp [activations, hq, hr]
      have hlast : q.version = v := by
        rw [activations_append, hpair] at h
        simpa using h
      tauto
  · tauto

/-- `Rollback` does what is intended of it exactly where the last but one event of the policy made
the version active that was active in the environment before. -/
theorem returnsToActive_iff (calls : List HistoryCall) (p : Policy) (actor reason : Text)
    (env : Environment) (now later : Time) : ReturnsToActive calls p actor reason env now later ↔
      (p.state = .deployed → (activations (events p.id calls) env).getLast? = some p.version →
        EndsWithActive (events p.id calls) env p.version) := by
  have hprevious := fun v => previousVersion_eq_some_iff (v := v) (versions_runFrom calls p.id)
  constructor
  · intro h hstate hlatest front q r heq
    have hok := rollback_of_deployed hstate ((hprevious q.version).mpr ⟨front, q, r, heq, rfl⟩)
      actor reason env now later
    unfold ReturnsToActive at h
    dsimp only at h
    rw [hok] at h
    obtain ⟨hactive, hfrom⟩ := h.1 hstate hlatest _ rfl
    refine ⟨?_, hfrom⟩
    rw [heq] at hlatest hactive ⊢
    exact (activeBefore_eq_some_iff hlatest).mp hactive
  · intro h
    unfold ReturnsToActive
    dsimp only
    obtain ⟨err, herr⟩ | ⟨previous, hprev, hok⟩ :=
      rollback_cases (runFrom step newRollbackManager calls) p actor reason env now later
    · rw [herr]
      exact ⟨fun _ _ record hrecord => (by cases hrecord), fun _ _ => ⟨rfl, rfl⟩⟩
    · rw [hok]
      refine ⟨fun hstate hlatest record hrecord => ?_, fun err herr => (by cases herr)⟩
      cases hrecord
      obtain ⟨front, q, r, heq, rfl⟩ := (hprevious previous).mp hprev
      obtain ⟨hactive, hfrom⟩ := h hstate hlatest front q r heq
      refine ⟨?_, hfrom⟩
      rw [heq] at hlatest hactive ⊢
      exact (activeBefore_eq_some_iff hlatest).mpr hactive

/-- With dev and prod in one list, the version before the last one is the same version in dev. -/
theorem rollback_returns_same_version : ¬ReturnsToActive
      [.recordDeploy "p".toList ⟨1, 0, 0⟩ "alice".toList .dev 0,
        .recordDeploy "p".toList ⟨1, 0, 0⟩ "alice".toList .prod 1,
        .recordDeploy "p".toList ⟨2, 0, 0⟩ "alice".toList .dev 2,
        .recordDeploy "p".toList ⟨2, 0, 0⟩ "alice".toList .prod 3]
      ⟨"p".toList, ⟨2, 0, 0⟩, .deployed, 4⟩ "alice".toList [] .prod 5 6 := by
  intro h
  have hreturned := (h.1 rfl (by decide) _ rfl).1
  exact absurd hreturned (by decide)

end RollbackManager

end Symkernel.Governance
