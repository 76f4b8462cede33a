import Symkernel.Library.Runs
import Symkernel.Governance.Lifecycle

/-!
# The staging table
-/

namespace Symkernel.Governance

open Library Finmap

def envNames : List Text := ["dev".toList, "staging".toList, "prod".toList]

inductive Environment where
  | dev
  | staging
  | prod
  | unknown (name : Text) (h : name ∉ envNames)
  deriving DecidableEq

def Environment.text : Environment → Text
  | .dev => "dev".toList
  | .staging => "staging".toList
  | .prod => "prod".toList
  | .unknown name _ => name

def envOrder : List Environment := [.dev, .staging, .prod]

/-- `none` where the source has -1. -/
def envIndex (e : Environment) : Option Nat :=
  envOrder.findIdx? (· = e)

def canPromoteTo (source target : Environment) : Bool :=
  match envIndex source, envIndex target with
  | some i, some j => j = i + 1
  | _, _ => false

structure StagedPolicy where
  policyID : Text
  version : SchemaVersion
  env : Environment
  promotedBy : Text
  deriving DecidableEq

structure StagingTable where
  entries : GoMap Text StagedPolicy

def newStagingTable : StagingTable where
  entries := ∅

def stagingKey (policyID : Text) (env : Environment) : Text :=
  policyID ++ ":".toList ++ env.text

namespace StagingTable

variable (t : StagingTable)

def stage (p : Policy) (env : Environment) (actor : Text) : Except Text StagingTable :=
  let key := stagingKey p.id env
  let deployed : StagingTable :=
    ⟨t.entries.insert key ⟨p.id, p.version, env, actor⟩⟩
  match t.entries.lookup key with
  | some current =>
    if canPromoteTo current.env env then .ok deployed
    else .error ("cannot promote ".toList ++ p.id ++ " from ".toList ++ current.env.text ++
      " to ".toList ++ env.text ++ ": invalid environment step".toList)
  | none => .ok deployed

def active (policyID : Text) (env : Environment) : Option StagedPolicy :=
  t.entries.lookup (stagingKey policyID env)

def remove (policyID : Text) (env : Environment) : StagingTable :=
  ⟨t.entries.erase (stagingKey policyID env)⟩

def afterStage (p : Policy) (env : Environment) (actor : Text) : StagingTable :=
  match t.stage p env actor with
  | .ok t' => t'
  | .error _ => t

end StagingTable

lemma canPromoteTo_cases {source target : Environment} (h : canPromoteTo source target = true) :
    (source = .dev ∧ target = .staging) ∨ (source = .staging ∧ target = .prod) := by
  cases source <;> cases target <;> first
    | exact .inl ⟨rfl, rfl⟩
    | exact .inr ⟨rfl, rfl⟩
    | exact absurd h Bool.false_ne_true

lemma stagingKey_ne {e e' : Environment} (h : e.text.getLast?.or (some ':') ≠
    e'.text.getLast?.or (some ':')) (id id' : Text) : stagingKey id e ≠ stagingKey id' e' := by
  have hlast : ∀ id e, (stagingKey id e).getLast? = e.text.getLast?.or (some ':') := by
    intro id e
    rw [stagingKey, List.getLast?_append, List.getLast?_append]
    rfl
  intro hkey
  rw [← hlast id, ← hlast id', hkey] at h
  exact h rfl

def StagingTable.Keyed (t : StagingTable) : Prop :=
  ∀ key record, t.entries.lookup key = some record → key = stagingKey record.policyID record.env

namespace StagingTable

variable {t : StagingTable}

lemma keyed_new : newStagingTable.Keyed := by
  intro key record h
  cases h

lemma Keyed.not_canPromoteTo (h : t.Keyed) {p : Policy} {env : Environment} {record : StagedPolicy}
    (hlookup : t.entries.lookup (stagingKey p.id env) = some record) :
    canPromoteTo record.env env = false := by
  have hkey := h _ _ hlookup
  by_contra hpromote
  rw [Bool.not_eq_false] at hpromote
  obtain ⟨hsource, rfl⟩ | ⟨hsource, rfl⟩ := canPromoteTo_cases hpromote
  · rw [hsource] at hkey
    exact stagingKey_ne (by decide) _ _ hkey
  · rw [hsource] at hkey
    exact stagingKey_ne (by decide) _ _ hkey

lemma stage_of_active_none {p : Policy} {env : Environment} {actor : Text}
    (h : t.active p.id env = none) : t.stage p env actor =
      .ok ⟨t.entries.insert (stagingKey p.id env) ⟨p.id, p.version, env, actor⟩⟩ := by
  unfold active at h
  unfold stage
  dsimp only
  rw [h]

lemma Keyed.stage_isOk_iff (h : t.Keyed) (p : Policy) (env : Environment) (actor : Text) :
    (∃ t', t.stage p env actor = .ok t') ↔ t.active p.id env = none := by
  constructor
  · rintro ⟨t', hstage⟩
    cases hactive : t.active p.id env with
    | none => rfl
    | some record =>
      unfold active at hactive
      unfold stage at hstage
      dsimp only at hstage
      rw [hactive] at hstage
      dsimp only at hstage
      rw [if_neg (by rw [h.not_canPromoteTo hactive]; exact Bool.false_ne_true)] at hstage
      cases hstage
  · intro hactive
    exact ⟨_, stage_of_active_none hactive⟩

lemma Keyed.afterStage_cases (h : t.Keyed) (p : Policy) (env : Environment) (actor : Text) :
    t.afterStage p env actor = t ∨ t.active p.id env = none ∧ t.afterStage p env actor =
      ⟨t.entries.insert (stagingKey p.id env) ⟨p.id, p.version, env, actor⟩⟩ := by
  unfold afterStage
  cases hstage : t.stage p env actor with
  | error e => exact .inl rfl
  | ok t' =>
    have hactive := (h.stage_isOk_iff p env actor).mp ⟨t', hstage⟩
    rw [stage_of_active_none hactive] at hstage
    cases hstage
    exact .inr ⟨hactive, rfl⟩

lemma Keyed.afterStage (h : t.Keyed) (p : Policy) (env : Environment) (actor : Text) :
    (t.afterStage p env actor).Keyed := by
  obtain heq | ⟨-, heq⟩ := h.afterStage_cases p env actor
  · rw [heq]
    exact h
  · rw [heq]
    intro key record hlookup
    by_cases hkey : key = stagingKey p.id env
    · subst hkey
      rw [lookup_insert] at hlookup
      cases hlookup
      rfl
    · rw [lookup_insert_of_ne _ hkey] at hlookup
      exact h key record hlookup

lemma Keyed.remove (h : t.Keyed) (id : Text) (env : Environment) : (t.remove id env).Keyed := by
  intro key record hlookup
  by_cases hkey : key = stagingKey id env
  · subst hkey
    rw [StagingTable.remove, lookup_erase] at hlookup
    cases hlookup
  · rw [StagingTable.remove, lookup_erase_ne hkey] at hlookup
    exact h key record hlookup

end StagingTable

structure Rollout (ι : Type*) where
  table : StagingTable
  policies : ι → Policy

inductive Call (ι : Type*) where
  | transition (p : ι) (target : LifecycleState) (actor reason : Text) (now : Time)
  | stage (p : ι) (env : Environment) (actor : Text)
  | remove (policyID : Text) (env : Environment)

namespace Rollout

variable {ι : Type*} [DecidableEq ι]

def step (s : Rollout ι) : Call ι → Rollout ι
  | .transition p target actor reason now =>
    { s with
      policies := Function.update s.policies p
        ((s.policies p).afterTransition target actor reason now) }
  | .stage p env actor => { s with table := s.table.afterStage (s.policies p) env actor }
  | .remove policyID env => { s with table := s.table.remove policyID env }

def initial (ids : ι → Text) (versions : ι → SchemaVersion) (times : ι → Time) : Rollout ι where
  table := newStagingTable
  policies p := newPolicy (ids p) (versions p) (times p)

def Cleared (p : Policy) : Prop :=
  p.state ≠ .draft ∧ p.state ≠ .pendingApproval

def Earned (s : Rollout ι) (p : Policy) (env : Environment) : Prop :=
  (env = .dev ∨ ∃ before, canPromoteTo before env = true ∧ (s.table.active p.id before).isSome) ∧
    Cleared p

/-- `Stage` succeeds only for a policy that has earned the environment. -/
def OnlyEarned (s : Rollout ι) : Call ι → Prop
  | .stage p env actor =>
    (∃ t, s.table.stage (s.policies p) env actor = .ok t) → Earned s (s.policies p) env
  | _ => True

/-- Whatever is staged to prod has been active in dev and in staging and has been approved. -/
def ProdEarned (start : Rollout ι) (calls : List (Call ι)) : Prop :=
  ∀ before p actor after, calls = before ++ .stage p .prod actor :: after →
    (∃ t, (runFrom step start before).table.stage ((runFrom step start before).policies p) .prod
      actor = .ok t) →
    Once step (fun s => (s.table.active (start.policies p).id .dev).isSome) start before ∧
      Once step (fun s => (s.table.active (start.policies p).id .staging).isSome) start before ∧
      Once step (fun s => (s.policies p).state = .approved) start before

def ByPromotion (start : Rollout ι) (calls : List (Call ι)) : Prop :=
  EveryStep step OnlyEarned start calls ∧ ProdEarned start calls

/-- The caller stages what has earned the environment, or what is active there already. -/
def Ready (s : Rollout ι) : Call ι → Prop
  | .stage p env _ =>
    (s.table.active (s.policies p).id env).isSome ∨ Earned s (s.policies p) env
  | _ => True

variable {s : Rollout ι}

lemma keyed_step (h : s.table.Keyed) (c : Call ι) : (s.step c).table.Keyed := by
  cases c with
  | transition p target actor reason now => exact h
  | stage p env actor => exact h.afterStage _ env actor
  | remove policyID env => exact h.remove policyID env

lemma policies_step (s : Rollout ι) (c : Call ι) (p : ι) : (s.step c).policies p = s.policies p ∨
      ∃ target now, canTransition (s.policies p).state target = true ∧
        (s.step c).policies p = { s.policies p with state := target, updatedAt := now } := by
  cases c with
  | transition q target actor reason now =>
    by_cases hp : p = q
    · subst hp
      have hupdated : (s.step (.transition p target actor reason now)).policies p =
        (s.policies p).afterTransition target actor reason now := Function.update_self _ _ _
      rw [hupdated]
      cases (s.policies p).afterTransition_cases target actor reason now with
      | inl heq => exact .inl heq
      | inr heq => exact .inr ⟨target, now, heq⟩
    · exact .inl (Function.update_of_ne hp _ _)
  | stage q env actor => exact .inl rfl
  | remove policyID env => exact .inl rfl

lemma id_runFrom (s : Rollout ι) (calls : List (Call ι)) (p : ι) :
    ((runFrom step s calls).policies p).id = (s.policies p).id := by
  induction calls generalizing s with
  | nil => rfl
  | cons c calls ih =>
    rw [runFrom_cons, ih]
    obtain heq | ⟨target, now, -, heq⟩ := s.policies_step c p
    · rw [heq]
    · rw [heq]

lemma staged_of_step (h : s.table.Keyed) {c : Call ι} {id : Text} {env : Environment}
    (hbefore : ¬(s.table.active id env).isSome) (hafter : ((s.step c).table.active id env).isSome) :
    ∃ p env' actor, c = .stage p env' actor ∧
      s.table.active (s.policies p).id env' = none ∧
      stagingKey id env = stagingKey (s.policies p).id env' := by
  cases c with
  | transition p target actor reason now => exact absurd hafter hbefore
  | stage p env' actor =>
    refine ⟨p, env', actor, rfl, ?_⟩
    rw [step] at hafter
    obtain heq | ⟨hnone, heq⟩ := h.afterStage_cases (s.policies p) env' actor
    · rw [heq] at hafter
      exact absurd hafter hbefore
    · refine ⟨hnone, ?_⟩
      by_contra hkey
      rw [heq, StagingTable.active, lookup_insert_of_ne _ hkey] at hafter
      exact hbefore hafter
  | remove policyID env' =>
    by_cases hkey : stagingKey id env = stagingKey policyID env'
    · rw [step, StagingTable.active, StagingTable.remove, hkey, lookup_erase] at hafter
      cases hafter
    · rw [step, StagingTable.active, StagingTable.remove, lookup_erase_ne hkey] at hafter
      exact absurd hafter hbefore

lemma Cleared.of_step {p p' : Policy} {target : LifecycleState} {now : Time} (h : ¬Cleared p)
    (hcan : canTransition p.state target = true)
    (hp' : p' = { p with state := target, updatedAt := now }) (hcleared : Cleared p') :
    p'.state = .approved := by
  subst hp'
  have hstate : p.state = .draft ∨ p.state = .pendingApproval := by
    unfold Cleared at h
    tauto
  obtain hstate | hstate := hstate
  · rw [hstate] at hcan
    have htarget : target = .pendingApproval := List.mem_singleton.mp (of_decide_eq_true hcan)
    exact absurd htarget hcleared.2
  · rw [hstate] at hcan
    have htarget : target ∈ [LifecycleState.draft, .approved] := of_decide_eq_true hcan
    rw [List.mem_pair] at htarget
    exact htarget.resolve_left hcleared.1

omit [DecidableEq ι] in
lemma onlyEarned_iff_ready (h : s.table.Keyed) (c : Call ι) : OnlyEarned s c ↔ Ready s c := by
  cases c with
  | transition p target actor reason now => exact Iff.rfl
  | stage p env actor =>
    rw [OnlyEarned, Ready, h.stage_isOk_iff, ← Option.not_isSome_iff_eq_none]
    tauto
  | remove policyID env => exact Iff.rfl

lemma active_dev_of_step {c : Call ι} (h : Ready s c ∧ s.table.Keyed) {id : Text}
    (hbefore : ¬(s.table.active id .staging).isSome)
    (hafter : ((s.step c).table.active id .staging).isSome) : (s.table.active id .dev).isSome := by
  obtain ⟨hready, hkeyed⟩ := h
  obtain ⟨p, env, actor, rfl, hnone, hkey⟩ := staged_of_step hkeyed hbefore hafter
  rw [Ready, hnone] at hready
  obtain ⟨henv, -⟩ := hready.resolve_left Bool.false_ne_true
  obtain rfl | ⟨before, hpromote, hactive⟩ := henv
  · exact absurd hkey (stagingKey_ne (by decide) _ _)
  · obtain ⟨rfl, rfl⟩ | ⟨rfl, rfl⟩ := canPromoteTo_cases hpromote
    · have hid : id = (s.policies p).id := by
        have hcolon := List.append_cancel_right hkey
        exact List.append_cancel_right hcolon
      rw [hid]
      exact hactive
    · exact absurd hkey (stagingKey_ne (by decide) _ _)

lemma prodEarned_of_ready {start : Rollout ι} (hkeyed : start.table.Keyed)
    (hempty : ∀ id, ¬(start.table.active id .staging).isSome)
    (hdraft : ∀ p, ¬Cleared (start.policies p)) {calls : List (Call ι)}
    (hready : EveryStep step Ready start calls) : ProdEarned start calls := by
  intro before p actor after hcalls hstage
  subst hcalls
  obtain ⟨hbefore, hlast, -⟩ := EveryStep.append.mp hready
  have hboth : EveryStep step (fun s c => Ready s c ∧ s.table.Keyed) start before :=
    EveryStep.of_known (P := fun s => s.table.Keyed) (fun s c hs hc => ⟨hc, hs⟩)
      (fun s c hs _ => keyed_step hs c) hkeyed hbefore
  have hnow : (runFrom step start before).table.Keyed :=
    runFrom_invariant (P := fun s => s.table.Keyed) (fun s c hs _ => keyed_step hs c) hkeyed hbefore
  have hearned := (onlyEarned_iff_ready hnow _).mpr hlast hstage
  obtain ⟨henv, hcleared⟩ := hearned
  obtain ⟨source, hpromote, hactive⟩ := henv.resolve_left (by decide)
  obtain ⟨-, hprod⟩ | ⟨rfl, -⟩ := canPromoteTo_cases hpromote
  · cases hprod
  rw [id_runFrom] at hactive
  refine ⟨?_, Once.last hactive, ?_⟩
  · refine Once.of_entered
      (Q := fun s : Rollout ι => (s.table.active (start.policies p).id .staging).isSome)
      (fun s c hc hs hs' => .inl ?_) (hempty _) hboth hactive
    exact active_dev_of_step hc hs hs'
  · refine Once.of_entered (Q := fun s : Rollout ι => Cleared (s.policies p))
      (fun s c _ hs hs' => .inr ?_) (hdraft p) hbefore hcleared
    obtain heq | ⟨target, now, hcan, heq⟩ := s.policies_step c p
    · rw [heq] at hs'
      exact absurd hs' hs
    · exact Cleared.of_step hs hcan heq hs'

/-- Policies reach environments by promotion only, in exactly the runs whose caller is ready at
every `Stage`. -/
theorem byPromotion_iff_ready (ids : ι → Text) (versions : ι → SchemaVersion) (times : ι → Time)
    (calls : List (Call ι)) : ByPromotion (initial ids versions times) calls ↔
      EveryStep step Ready (initial ids versions times) calls := by
  have hkeyed : (initial ids versions times).table.Keyed := StagingTable.keyed_new
  have hiff : EveryStep step OnlyEarned (initial ids versions times) calls ↔
      EveryStep step Ready (initial ids versions times) calls :=
    EveryStep.congr_of_invariant (P := fun s => s.table.Keyed)
      (fun s c hs => onlyEarned_iff_ready hs c)
      (fun s c hs _ => keyed_step hs c) hkeyed calls
  constructor
  · intro h
    exact hiff.mp h.1
  · intro h
    refine ⟨hiff.mpr h, prodEarned_of_ready hkeyed (fun id => ?_) (fun p => ?_) h⟩
    · exact Bool.false_ne_true
    · exact fun hcleared => hcleared.1 rfl

/-- A draft that is in no environment is staged to prod. -/
theorem draft_staged_to_prod :
    ¬ByPromotion (initial (fun _ : Unit => "p".toList) (fun _ => ⟨1, 0, 0⟩) fun _ => 0)
      [.stage () .prod "alice".toList] := by
  intro h
  have hearned := h.1.1 ⟨_, rfl⟩
  exact hearned.2.1 rfl

end Rollout

end Symkernel.Governance
