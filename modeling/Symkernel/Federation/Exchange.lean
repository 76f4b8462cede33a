import Symkernel.Federation.Replicator

/-!
# What a pass does to two stores
-/

namespace Symkernel.Federation

open Symkernel.Library Function Finmap

def exchange (loc rem : Option Policy) : Option Policy × Option Policy :=
  if revisionOf rem < revisionOf loc then (loc, loc)
  else if revisionOf loc < revisionOf rem then (rem, rem)
  else (loc, rem)

lemma revisionOf_exchange (loc rem : Option Policy) :
    revisionOf (exchange loc rem).1 = max (revisionOf loc) (revisionOf rem) ∧
      revisionOf (exchange loc rem).2 = max (revisionOf loc) (revisionOf rem) := by
  unfold exchange
  obtain hlt | heq | hgt := lt_trichotomy (revisionOf loc) (revisionOf rem)
  · rw [if_neg hlt.le.not_gt, if_pos hlt, max_eq_right hlt.le]
    exact ⟨rfl, rfl⟩
  · rw [if_neg heq.le.not_gt, if_neg heq.ge.not_gt, heq, max_self]
    exact ⟨rfl, rfl⟩
  · rw [if_pos hgt, max_eq_left hgt.le]
    exact ⟨rfl, rfl⟩

/-! ### One policy -/

section Policies

variable {self region : String} {f : Fleet}

lemma pull_stores (self : String) (p : Policy) (f : Fleet) :
    (pull self p f).stores = Function.update f.stores self ((f.stores self).put p) := rfl

lemma putPolicy_of_mounted (h : region ∈ f.mounted) (p : Policy) :
    f.putPolicy region p = .ok (f.setStore region ((f.stores region).put p)) := by
  rw [Fleet.putPolicy, Fleet.storeFor, if_pos h]
  rfl

lemma putPolicy_of_not_mounted (h : region ∉ f.mounted) (p : Policy) :
    f.putPolicy region p = .error .regionNotFound := by
  rw [Fleet.putPolicy, Fleet.storeFor, if_neg h]
  rfl

lemma push_of_mounted (h : region ∈ f.mounted) (self : String) (p : Policy) :
    (push self region p f).1.stores =
      Function.update f.stores region ((f.stores region).put p) := by
  rw [push, putPolicy_of_mounted h]
  rfl

lemma push_of_not_mounted (h : region ∉ f.mounted) (self : String) (p : Policy) :
    (push self region p f).1.stores = f.stores := by
  rw [push, putPolicy_of_not_mounted h]
  rfl

lemma push_mounted (self region : String) (p : Policy) (f : Fleet) :
    (push self region p f).1.mounted = f.mounted := by
  by_cases h : region ∈ f.mounted
  · rw [push, putPolicy_of_mounted h]
    rfl
  · rw [push, putPolicy_of_not_mounted h]
    rfl

lemma reconcilePolicy_mounted (self region : String) (loc rem : Option Policy) (f : Fleet) :
    (reconcilePolicy self region loc rem f).1.mounted = f.mounted := by
  cases loc with
  | none => cases rem <;> rfl
  | some lp =>
    cases rem with
    | none => exact push_mounted self region lp f
    | some rp =>
      rw [reconcilePolicy]
      split
      next => exact push_mounted self region lp f
      next => split <;> rfl

/-- Everything that `reconcilePolicy` can do to the stores: a push of a newer local policy, a
pull of a newer remote one, or nothing. -/
lemma reconcilePolicy_cases (self region : String) (loc rem : Option Policy) (f : Fleet) :
    (∃ lp, loc = some lp ∧ revisionOf rem < lp.revision ∧ region ∈ f.mounted ∧
      (reconcilePolicy self region loc rem f).1.stores =
        Function.update f.stores region ((f.stores region).put lp)) ∨
    (∃ rp, rem = some rp ∧ revisionOf loc < rp.revision ∧
      (reconcilePolicy self region loc rem f).1.stores =
        Function.update f.stores self ((f.stores self).put rp)) ∨
    ((revisionOf loc = revisionOf rem ∨ revisionOf rem < revisionOf loc ∧ region ∉ f.mounted) ∧
      (reconcilePolicy self region loc rem f).1.stores = f.stores) := by
  have hpush : ∀ lp, revisionOf rem < lp.revision → loc = some lp →
      (reconcilePolicy self region loc rem f).1 = (push self region lp f).1 →
      (∃ lp, loc = some lp ∧ revisionOf rem < lp.revision ∧ region ∈ f.mounted ∧
        (reconcilePolicy self region loc rem f).1.stores =
          update f.stores region ((f.stores region).put lp)) ∨
      ((revisionOf loc = revisionOf rem ∨ revisionOf rem < revisionOf loc ∧ region ∉ f.mounted) ∧
        (reconcilePolicy self region loc rem f).1.stores = f.stores) := by
    rintro lp hnewer hloc heq
    rw [heq]
    by_cases hm : region ∈ f.mounted
    · exact .inl ⟨lp, hloc, hnewer, hm, push_of_mounted hm self lp⟩
    · refine .inr ⟨.inr ⟨?_, hm⟩, push_of_not_mounted hm self lp⟩
      rw [hloc]
      exact hnewer
  cases loc with
  | none =>
    cases rem with
    | none => exact .inr (.inr ⟨.inl rfl, rfl⟩)
    | some rp => exact .inr (.inl ⟨rp, rfl, WithBot.bot_lt_coe _, rfl⟩)
  | some lp =>
    cases rem with
    | none => exact (hpush lp (WithBot.bot_lt_coe _) rfl rfl).imp_right .inr
    | some rp =>
      obtain ⟨hcmp, hlt⟩ | ⟨hcmp, hlt⟩ | ⟨hcmp, heq⟩ := compareRevision_cases lp rp
      · refine (hpush lp (WithBot.coe_lt_coe.mpr hlt) rfl ?_).imp_right .inr
        rw [reconcilePolicy, if_pos hcmp]
      · refine .inr (.inl ⟨rp, rfl, WithBot.coe_lt_coe.mpr hlt, ?_⟩)
        rw [reconcilePolicy, if_neg (by simp [hcmp]), if_pos hcmp, pull_stores]
      · refine .inr (.inr ⟨.inl (congrArg ((↑) : Revision → WithBot Revision) heq), ?_⟩)
        rw [reconcilePolicy, if_neg (by simp [hcmp]), if_neg (by simp [hcmp])]
        rfl

end Policies

/-! ### One id in a pass -/

section Passes

variable {self region : String}

def both (self region : String) (f : Fleet) (id : String) : Option Policy × Option Policy :=
  ((f.stores self).get id, (f.stores region).get id)

def writeNewer (loc rem : Option Policy) (held : Option Policy × Option Policy) :
    Option Policy × Option Policy :=
  if revisionOf rem < revisionOf loc then (held.1, loc)
  else if revisionOf loc < revisionOf rem then (rem, held.2)
  else held

lemma writeNewer_self (loc rem : Option Policy) : writeNewer loc rem (loc, rem) = exchange loc rem :=
  rfl

variable {f f' f'' : Fleet}

lemma both_reconcilePolicy (hne : region ≠ self) (hm : region ∈ f.mounted)
    (loc rem : Option Policy) (id : String) (hloc : ∀ p, loc = some p → p.id = id)
    (hrem : ∀ p, rem = some p → p.id = id) (k : String) :
    both self region (reconcilePolicy self region loc rem f).1 k =
      if k = id then writeNewer loc rem (both self region f id) else both self region f k := by
  unfold both
  obtain ⟨lp, hl, hnewer, -, hstores⟩ | ⟨rp, hr, hnewer, hstores⟩ | ⟨hsame | ⟨-, habsent⟩, hstores⟩ :=
    reconcilePolicy_cases self region loc rem f
  · rw [hstores, update_self, update_of_ne hne.symm, MemoryStore.get_put,
      hloc lp hl, hl, writeNewer, revisionOf_some, if_pos hnewer]
    by_cases hk : k = id <;> simp [hk]
  · rw [hstores, update_self, update_of_ne hne, MemoryStore.get_put,
      hrem rp hr, hr, writeNewer, revisionOf_some, if_neg hnewer.le.not_gt, if_pos hnewer]
    by_cases hk : k = id <;> simp [hk]
  · rw [hstores, writeNewer, if_neg hsame.le.not_gt, if_neg hsame.ge.not_gt]
    by_cases hk : k = id <;> simp [hk]
  · exact absurd hm habsent

lemma reconcilePolicy_frame {other : String} (hself : other ≠ self) (hregion : other ≠ region)
    (loc rem : Option Policy) :
    (reconcilePolicy self region loc rem f).1.stores other = f.stores other := by
  obtain ⟨lp, -, -, -, hstores⟩ | ⟨rp, -, -, hstores⟩ | ⟨-, hstores⟩ :=
    reconcilePolicy_cases self region loc rem f
  · rw [hstores, update_of_ne hregion]
  · rw [hstores, update_of_ne hself]
  · rw [hstores]

lemma lookup_byID (s : MemoryStore) (order : RangeOrder String) (id : String) :
    Finmap.lookup id ((s.list order).foldl (fun m p => Finmap.insert p.id p m)
      (∅ : GoMap String Policy)) = s.get id := by
  rw [foldl_keyed Policy.id (fun m k => lookup k m) (fun p _ => some p) (fun _ => True)
    (fun _ _ h => h) ?_ (s.nodup_list order) trivial, s.find_list]
  · cases s.get id <;> rfl
  · intro m p k _
    split
    next h =>
      subst h
      exact lookup_insert m
    next h => exact lookup_insert_of_ne m h

/-- What a loop of a pass knows about one id: what the two regions hold, and the entry of the
map of peer policies. -/
def Pass.look (self region : String) (pass : Pass) (id : String) :
    (Option Policy × Option Policy) × Option Policy :=
  (both self region pass.fleet id, pass.remoteByID.lookup id)

/-- Every entry of the map of peer policies stays filed under its id. -/
structure Pass.Ready (region : String) (pass : Pass) : Prop where
  mounted : region ∈ pass.fleet.mounted
  keyed : ∀ id p, pass.remoteByID.lookup id = some p → p.id = id

variable {pass : Pass}

lemma Pass.Ready.reconcileListed (h : pass.Ready region) (lp : Policy) :
    (reconcileListed self region pass lp).Ready region := by
  refine ⟨?_, fun id p hentry => ?_⟩
  · rw [Federation.reconcileListed, reconcilePolicy_mounted]
    exact h.mounted
  · by_cases hid : id = lp.id
    · subst hid
      simp [Federation.reconcileListed] at hentry
    · refine h.keyed id p ?_
      rwa [Federation.reconcileListed, lookup_erase_ne hid] at hentry

lemma Pass.Ready.reconcileRemote (h : pass.Ready region) (id : String) :
    (reconcileRemote self region pass id).Ready region := by
  refine ⟨?_, h.keyed⟩
  rw [Federation.reconcileRemote, reconcilePolicy_mounted]
  exact h.mounted

lemma look_reconcileListed (hne : region ≠ self) (h : pass.Ready region) (lp : Policy)
    (id : String) : (reconcileListed self region pass lp).look self region id =
      if id = lp.id then
        (writeNewer (some lp) (pass.look self region id).2 (pass.look self region id).1, none)
      else pass.look self region id := by
  have hboth := both_reconcilePolicy hne h.mounted (some lp) (pass.remoteByID.lookup lp.id)
    lp.id (by simp) (h.keyed lp.id) id
  rw [Pass.look, reconcileListed, hboth]
  by_cases hid : id = lp.id
  · subst hid
    simp [Pass.look]
  · simp [Pass.look, hid]

lemma look_reconcileRemote (hne : region ≠ self) (h : pass.Ready region) (id id' : String) :
    (reconcileRemote self region pass id).look self region id' =
      if id' = id then
        (writeNewer none (pass.look self region id').2 (pass.look self region id').1,
          (pass.look self region id').2)
      else pass.look self region id' := by
  have hboth := both_reconcilePolicy hne h.mounted none (pass.remoteByID.lookup id) id (by simp)
    (h.keyed id) id'
  rw [Pass.look, reconcileRemote, hboth]
  by_cases hid : id' = id
  · subst hid
    simp [Pass.look]
  · simp [Pass.look, hid]

def listedPass (self : String) (order : PassOrder) (region : String) (f : Fleet) : Pass :=
  ((f.stores self).list order.listed).foldl (reconcileListed self region)
    ⟨f, ((f.stores region).list order.listed).foldl (fun m p => Finmap.insert p.id p m) ∅, []⟩

lemma listPolicies_of_mounted (hm : region ∈ f.mounted) (order : RangeOrder String) :
    f.listPolicies order region = .ok ((f.stores region).list order) := by
  rw [Fleet.listPolicies, Fleet.storeFor, if_pos hm]
  rfl

lemma listPolicies_of_not_mounted (hm : region ∉ f.mounted) (order : RangeOrder String) :
    f.listPolicies order region = .error .regionNotFound := by
  rw [Fleet.listPolicies, Fleet.storeFor, if_neg hm]
  rfl

lemma reconcileRegion_of_mounted (hm : region ∈ f.mounted) (order : PassOrder) :
    (reconcileRegion self order region f).1 =
      (((order.ranged region).keys (listedPass self order region f).remoteByID.keys).foldl
        (reconcileRemote self region) (listedPass self order region f)).fleet := by
  rw [reconcileRegion, listPolicies_of_mounted hm]
  rfl

lemma reconcileRegion_of_not_mounted (hm : region ∉ f.mounted) (order : PassOrder) :
    (reconcileRegion self order region f).1 =
      f.count self fun c => { c with errors := c.errors + 1 } := by
  rw [reconcileRegion, listPolicies_of_not_mounted hm]

lemma ready_start (hm : region ∈ f.mounted) (order : RangeOrder String) : Pass.Ready region
      ⟨f, ((f.stores region).list order).foldl (fun m p => Finmap.insert p.id p m) ∅, []⟩ :=
  ⟨hm, fun id _ hentry =>
    MemoryStore.id_of_get ((lookup_byID (f.stores region) order id).symm.trans hentry)⟩

lemma listedPass_ready (self : String) (hm : region ∈ f.mounted) (order : PassOrder) :
    (listedPass self order region f).Ready region := by
  have hfold : ∀ (loc : List Policy) (pass : Pass), pass.Ready region →
      (loc.foldl (reconcileListed self region) pass).Ready region := by
    intro loc
    induction loc with
    | nil => exact fun _ h => h
    | cons lp loc ih => exact fun _ h => ih _ (h.reconcileListed lp)
  exact hfold _ _ (ready_start hm order.listed)

lemma look_listedPass (hne : region ≠ self) (hm : region ∈ f.mounted) (order : PassOrder)
    (id : String) : (listedPass self order region f).look self region id =
      match (f.stores self).get id with
      | some lp => (exchange (some lp) ((f.stores region).get id), none)
      | none => ((none, (f.stores region).get id), (f.stores region).get id) := by
  have hloop := foldl_keyed Policy.id (Pass.look self region)
    (fun lp entry => (writeNewer (some lp) entry.2 entry.1, none)) (Pass.Ready region)
    (fun _ lp h => h.reconcileListed lp)
    (fun _ lp k h => look_reconcileListed hne h lp k)
    ((f.stores self).nodup_list order.listed) (ready_start hm order.listed) id
  rw [MemoryStore.find_list] at hloop
  refine hloop.trans ?_
  simp only [Pass.look, both, lookup_byID]
  cases (f.stores self).get id with
  | some lp => rfl
  | none => rfl

/-- A pass over a mounted peer exchanges every id. -/
theorem both_reconcileRegion (hne : region ≠ self) {f : Fleet} (hm : region ∈ f.mounted)
    (order : PassOrder) (id : String) :
    both self region (reconcileRegion self order region f).1 id =
      exchange ((f.stores self).get id) ((f.stores region).get id) := by
  have hloop := foldl_pointwise (Pass.look self region)
    (fun _ entry => (writeNewer none entry.2 entry.1, entry.2)) (Pass.Ready region)
    (fun _ k h => h.reconcileRemote k)
    (fun _ k k' h => look_reconcileRemote hne h k k')
    ((order.ranged region).nodup (listedPass self order region f).remoteByID.keys)
    (listedPass_ready self hm order) id
  have hvisited : id ∈ (order.ranged region).keys (listedPass self order region f).remoteByID.keys ↔
      ((listedPass self order region f).look self region id).2 ≠ none := by
    rw [(order.ranged region).mem_keys, mem_keys, Pass.look, Ne, lookup_eq_none, not_not]
  have hlook := look_listedPass hne hm order id
  rw [reconcileRegion_of_mounted hm]
  refine (congrArg Prod.fst hloop).trans ?_
  cases hloc : (f.stores self).get id with
  | some lp =>
    simp only [hloc] at hlook
    rw [if_neg (by rw [hvisited, hlook]; simp), hlook]
  | none =>
    simp only [hloc] at hlook
    rw [hlook] at hvisited ⊢
    by_cases hpeer : (f.stores region).get id = none
    · rw [if_neg (by rw [hvisited]; simpa using hpeer), hpeer]
      simp [exchange]
    · rw [if_pos (hvisited.mpr hpeer)]
      exact writeNewer_self none ((f.stores region).get id)

/-- The part of a fleet that a pass between two regions leaves alone. -/
def Untouched (self region : String) (f f' : Fleet) : Prop :=
  f'.mounted = f.mounted ∧ ∀ other, other ≠ self → other ≠ region → f'.stores other = f.stores other

lemma untouched_reconcilePolicy (self region : String) (loc rem : Option Policy) (f : Fleet) :
    Untouched self region f (reconcilePolicy self region loc rem f).1 :=
  ⟨reconcilePolicy_mounted self region loc rem f,
    fun _ hself hregion => reconcilePolicy_frame hself hregion loc rem⟩

lemma Untouched.trans (h : Untouched self region f f') (h' : Untouched self region f' f'') :
    Untouched self region f f'' :=
  ⟨h'.1.trans h.1, fun other hself hregion =>
    (h'.2 other hself hregion).trans (h.2 other hself hregion)⟩

lemma untouched_foldl {ι : Type} {step : Pass → ι → Pass}
    (hstep : ∀ pass a, Untouched self region pass.fleet (step pass a).fleet) (items : List ι)
    (pass : Pass) : Untouched self region pass.fleet (items.foldl step pass).fleet := by
  induction items generalizing pass with
  | nil => exact ⟨rfl, fun _ _ _ => rfl⟩
  | cons a items ih => exact (hstep pass a).trans (ih (step pass a))

lemma untouched_reconcileRegion (self : String) (order : PassOrder) (region : String) (f : Fleet) :
    Untouched self region f (reconcileRegion self order region f).1 := by
  by_cases hm : region ∈ f.mounted
  · rw [reconcileRegion_of_mounted hm]
    refine Untouched.trans ?_ (untouched_foldl (fun pass id => ?_) _ _)
    · exact untouched_foldl (fun pass lp => untouched_reconcilePolicy self region _ _ pass.fleet) _ _
    · exact untouched_reconcilePolicy self region _ _ pass.fleet
  · rw [reconcileRegion_of_not_mounted hm]
    exact ⟨rfl, fun _ _ _ => rfl⟩

/-! ### Improvement -/

lemma exchange_fst (loc rem : Option Policy) : (exchange loc rem).1 = loc ∨
      revisionOf loc < revisionOf rem ∧ (exchange loc rem).1 = rem := by
  unfold exchange
  split
  next => exact .inl rfl
  next =>
    split
    next hlt => exact .inr ⟨hlt, rfl⟩
    next => exact .inl rfl

lemma exchange_snd (loc rem : Option Policy) : (exchange loc rem).2 = rem ∨
      revisionOf rem < revisionOf loc ∧ (exchange loc rem).2 = loc := by
  unfold exchange
  split
  next hlt => exact .inr ⟨hlt, rfl⟩
  next => split <;> exact .inl rfl

/-- What anti-entropy may do: an entry stays as it is or makes way for a newer one that some
region of `among` holds. -/
structure Improves (among : Set String) (f f' : Fleet) : Prop where
  mounted : f'.mounted = f.mounted
  entry : ∀ region id, (f'.stores region).get id = (f.stores region).get id ∨
    revisionOf ((f.stores region).get id) < revisionOf ((f'.stores region).get id) ∧
      ∃ source ∈ among, (f'.stores region).get id = (f.stores source).get id

lemma Improves.refl (among : Set String) (f : Fleet) : Improves among f f :=
  ⟨rfl, fun _ _ => .inl rfl⟩

variable {among : Set String}

lemma Improves.le (h : Improves among f f') (region id : String) :
    revisionOf ((f.stores region).get id) ≤ revisionOf ((f'.stores region).get id) := by
  obtain heq | ⟨hlt, -⟩ := h.entry region id
  · rw [heq]
  · exact hlt.le

lemma Improves.source (h : Improves among f f') {region : String} (hmem : region ∈ among)
    (id : String) : ∃ source ∈ among, (f'.stores region).get id = (f.stores source).get id := by
  obtain heq | ⟨-, hsource⟩ := h.entry region id
  · exact ⟨region, hmem, heq⟩
  · exact hsource

lemma Improves.trans (h : Improves among f f') (h' : Improves among f' f'') :
    Improves among f f'' := by
  refine ⟨h'.mounted.trans h.mounted, fun region id => ?_⟩
  obtain heq' | ⟨hlt', source', hmem', heq'⟩ := h'.entry region id
  · rw [heq']
    exact h.entry region id
  · obtain ⟨source, hmem, heq⟩ := h.source hmem' id
    exact .inr ⟨(h.le region id).trans_lt hlt', source, hmem, heq'.trans heq⟩

lemma improves_reconcileRegion (hself : self ∈ among) (hregion : region ∈ among)
    (hne : region ≠ self) (order : PassOrder) (f : Fleet) :
    Improves among f (reconcileRegion self order region f).1 := by
  obtain ⟨hmounted, hframe⟩ := untouched_reconcileRegion self order region f
  refine ⟨hmounted, fun r id => ?_⟩
  by_cases hm : region ∈ f.mounted
  · have hboth := both_reconcileRegion hne hm order id
    have hfst := congrArg Prod.fst hboth
    have hsnd := congrArg Prod.snd hboth
    simp only [both] at hfst hsnd
    by_cases hr : r = self
    · subst hr
      rw [hfst]
      obtain heq | ⟨hlt, heq⟩ := exchange_fst ((f.stores r).get id) ((f.stores region).get id)
      · exact .inl heq
      · rw [heq]
        exact .inr ⟨hlt, region, hregion, rfl⟩
    by_cases hr' : r = region
    · subst hr'
      rw [hsnd]
      obtain heq | ⟨hlt, heq⟩ := exchange_snd ((f.stores self).get id) ((f.stores r).get id)
      · exact .inl heq
      · rw [heq]
        exact .inr ⟨hlt, self, hself, rfl⟩
    exact .inl (by rw [hframe r hr hr'])
  · rw [reconcileRegion_of_not_mounted hm]
    exact .inl rfl

end Passes

/-! ### A whole pass -/

section Reconcile

variable {self : String}

lemma mem_allowed {self : String} {regions : List String} {id : String}
    (h : id ∈ allowed self regions) : id ≠ self ∧ id ∈ regions := by
  unfold allowed at h
  induction regions using List.reverseRecOn with
  | nil => simp at h
  | append_singleton regions last ih =>
    rw [List.foldl_append, List.foldl_cons, List.foldl_nil] at h
    split at h
    next => exact ⟨(ih h).1, List.mem_append_left _ (ih h).2⟩
    next hnew =>
      rw [List.mem_append, List.mem_singleton] at h
      obtain h | rfl := h
      · exact ⟨(ih h).1, List.mem_append_left _ (ih h).2⟩
      · exact ⟨fun heq => hnew (.inl heq), by simp⟩

lemma ne_self_of_mem_targets {cfg : Config} {region : String} (h : region ∈ cfg.targets self) :
    region ≠ self := by
  rw [Config.targets] at h
  split at h
  next => exact (mem_allowed h).1
  next =>
    obtain ⟨reg, hreg, rfl⟩ := List.mem_map.mp h
    exact of_decide_eq_true (List.mem_filter.mp hreg).2

def overTargets (self : String) (order : PassOrder) (targets : List String) (f : Fleet) : Fleet :=
  targets.foldl (fun f region => (reconcileRegion self order region f).1) f

lemma reconcile_fleet (self : String) (cfg : Config) (order : PassOrder) (f : Fleet) :
    (reconcile self cfg order f).1 = overTargets self order (cfg.targets self)
        (f.count self fun c => { c with scans := c.scans + 1 }) := by
  rw [reconcile]
  generalize f.count self _ = f
  generalize cfg.targets self = targets
  have hfold : ∀ (errs : List ReplicationError) (f : Fleet), (targets.foldl (fun acc region =>
        ((reconcileRegion self order region acc.1).1, acc.2 ++
          ((reconcileRegion self order region acc.1).2.map (ReplicationError.region region)).toList))
        (f, errs)).1 =
      targets.foldl (fun f region => (reconcileRegion self order region f).1) f := by
    induction targets with
    | nil => exact fun _ _ => rfl
    | cons region targets ih => exact fun _ _ => ih _ _
  exact hfold [] f

lemma improves_overTargets {among : Set String} (hself : self ∈ among) (order : PassOrder)
    {targets : List String} (htargets : ∀ t ∈ targets, t ∈ among ∧ t ≠ self) (f : Fleet) :
    Improves among f (overTargets self order targets f) := by
  induction targets generalizing f with
  | nil => exact Improves.refl among f
  | cons t targets ih =>
    obtain ⟨ht, hne⟩ := htargets t List.mem_cons_self
    exact (improves_reconcileRegion hself ht hne order f).trans
      (ih (fun t' ht' => htargets t' (List.mem_cons_of_mem t ht')) _)

lemma improves_reconcile {among : Set String} (hself : self ∈ among) {cfg : Config}
    (htargets : ∀ t ∈ cfg.targets self, t ∈ among) (order : PassOrder) (f : Fleet) :
    Improves among f (reconcile self cfg order f).1 := by
  rw [reconcile_fleet]
  have hcount : Improves among f (f.count self fun c => { c with scans := c.scans + 1 }) :=
    ⟨rfl, fun _ _ => .inl rfl⟩
  exact hcount.trans (improves_overTargets hself order
    (fun t ht => ⟨htargets t ht, ne_self_of_mem_targets ht⟩) _)

end Reconcile

end Symkernel.Federation
