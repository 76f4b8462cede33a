import Symkernel.Coordination.Cluster

/-!
# A cluster in one process

`Cluster` of the source over its in-memory transport: `TickAll` ticks the members in order, and
what a member sends in its tick is in the inboxes of the others before the next member ticks.
-/

namespace Symkernel.Coordination

open List Function

structure LocalCluster where
  order : List String
  node : String → Node
  group : String → Int

namespace LocalCluster

def send (c : LocalCluster) (m : Message) : LocalCluster :=
  if c.group m.fromId ≠ c.group m.toId then c
  else if m.toId ∈ c.order then
    { c with node := Function.update c.node m.toId ((c.node m.toId).receive m) }
  else c

def tickMember (c : LocalCluster) (i : String) (draw : Nat) : LocalCluster :=
  let r := (c.node i).tickNode draw
  r.2.foldl send { c with node := Function.update c.node i r.1 }

def tickMembers (c : LocalCluster) (ids : List String) (draw : String → Nat) : LocalCluster :=
  ids.foldl (fun c i => c.tickMember i (draw i)) c

def tickAll (c : LocalCluster) (draw : String → Nat) : LocalCluster :=
  c.tickMembers c.order draw

end LocalCluster

def ClusterConfig.start (C : ClusterConfig) : LocalCluster where
  order := C.members
  node := C.initial.node
  group _ := 0

/-- The cluster after `r` calls of `TickAll`; `draws` are the random draws of each round. -/
def ClusterConfig.afterRounds (C : ClusterConfig) (draws : Nat → String → Nat) : Nat → LocalCluster
  | 0 => C.start
  | r + 1 => (C.afterRounds draws r).tickAll (draws r)

namespace LocalCluster

structure Connected (ids : List String) (c : LocalCluster) : Prop where
  order : c.order = ids
  group : ∀ i, c.group i = 0

variable {ids : List String} {c : LocalCluster}

lemma Connected.send_eq (h : Connected ids c) {m : Message} (hm : m.toId ∈ ids) :
    c.send m = { c with node := Function.update c.node m.toId ((c.node m.toId).receive m) } := by
  unfold send
  rw [h.group, h.group, h.order, if_neg (by simp), if_pos hm]

lemma Connected.send (h : Connected ids c) (m : Message) : Connected ids (c.send m) := by
  unfold LocalCluster.send
  split
  · exact h
  · split
    · exact ⟨h.order, h.group⟩
    · exact h

lemma Connected.foldl_send (h : Connected ids c) (ms : List Message) :
    Connected ids (ms.foldl LocalCluster.send c) := by
  induction ms generalizing c with
  | nil => exact h
  | cons m ms ih => exact ih (h.send m)

lemma Connected.tickMember (h : Connected ids c) (i : String) (draw : Nat) :
    Connected ids (c.tickMember i draw) := by
  refine Connected.foldl_send ?_ _
  exact ⟨h.order, h.group⟩

/-- A message to every one of `peers` reaches each of them once. -/
lemma Connected.foldl_send_node (h : Connected ids c) {peers : List String} (hnodup : peers.Nodup)
    (hpeers : ∀ j ∈ peers, j ∈ ids) {msg : String → Message} (hto : ∀ j, (msg j).toId = j)
    (i : String) : ((peers.map msg).foldl LocalCluster.send c).node i =
      if i ∈ peers then (c.node i).receive (msg i) else c.node i := by
  induction peers generalizing c with
  | nil => rfl
  | cons j peers ih =>
    obtain ⟨hj, hnodup⟩ := List.nodup_cons.mp hnodup
    have hmem : (msg j).toId ∈ ids := by
      rw [hto]
      exact hpeers j mem_cons_self
    rw [map_cons, foldl_cons,
      ih (h.send _) hnodup fun k hk => hpeers k (mem_cons_of_mem j hk), h.send_eq hmem, hto]
    by_cases hij : i = j
    · subst hij
      simp [hj]
    · simp [hij]

/-- Whatever is sent, a node changes by what it finds in its inbox only. -/
lemma foldl_send_node_eq (c : LocalCluster) (ms : List Message) (i : String) :
    ∃ inbox, (ms.foldl LocalCluster.send c).node i = { c.node i with inbox := inbox } := by
  induction ms generalizing c with
  | nil => exact ⟨(c.node i).inbox, rfl⟩
  | cons m ms ih =>
    obtain ⟨inbox, heq⟩ := ih (c.send m)
    refine ⟨inbox, ?_⟩
    rw [foldl_cons, heq]
    unfold LocalCluster.send
    split
    · rfl
    · split
      · by_cases hi : i = m.toId
        · subst hi
          simp [Node.receive]
        · simp [hi]
      · rfl

lemma tickMembers_node_eq (c : LocalCluster) {others : List String} {i : String} (hi : i ∉ others)
    (draw : String → Nat) :
    ∃ inbox, (c.tickMembers others draw).node i = { c.node i with inbox := inbox } := by
  induction others generalizing c with
  | nil => exact ⟨(c.node i).inbox, rfl⟩
  | cons j others ih =>
    rw [mem_cons, not_or] at hi
    obtain ⟨hij, hi⟩ := hi
    obtain ⟨inbox, heq⟩ := ih (c.tickMember j (draw j)) hi
    obtain ⟨inbox', heq'⟩ := foldl_send_node_eq
      { c with node := update c.node j ((c.node j).tickNode (draw j)).1 }
      ((c.node j).tickNode (draw j)).2 i
    have htick : (c.tickMember j (draw j)).node i = { c.node i with inbox := inbox' } := by
      refine heq'.trans ?_
      simp [update_of_ne hij]
    refine ⟨inbox, ?_⟩
    show ((c.tickMember j (draw j)).tickMembers others draw).node i = _
    rw [heq, htick]

lemma tickMembers_append (c : LocalCluster) (front back : List String) (draw : String → Nat) :
    c.tickMembers (front ++ back) draw = (c.tickMembers front draw).tickMembers back draw :=
  foldl_append

/-- A request of the member `caller` and the answer to it. A node that satisfies `Asked` answers a
request in its next tick, sends nothing else, and then satisfies `Answered`. -/
structure Exchange (caller : String) where
  request : String → Message
  answer : String → Message
  Asked : String → Node → Prop
  Answered : String → Node → Prop
  request_to : ∀ j, (request j).toId = j
  answer_to : ∀ j, (answer j).toId = caller
  reply : ∀ j n draw, Asked j n → n.inbox = [request j] →
    Answered j (n.tickNode draw).1 ∧ (n.tickNode draw).1.inbox = [] ∧
      (n.tickNode draw).2 = [answer j]

/-- The exchange is under way: `x` is the caller as it was after its call, the members `asked`
have the request in their inbox, and the answers of `answered` wait for the caller. -/
structure Exchange.Open {caller : String} (E : Exchange caller) (ids : List String)
    (c : LocalCluster) (x : Node) (asked answered : List String) : Prop where
  connected : Connected ids c
  caller_eq : c.node caller = { x with inbox := answered.map E.answer }
  asked : ∀ j ∈ asked, E.Asked j (c.node j) ∧ (c.node j).inbox = [E.request j]
  answered : ∀ j ∈ answered, E.Answered j (c.node j) ∧ (c.node j).inbox = []

section Exchange

variable {caller : String} {E : Exchange caller} {x : Node} {asked answered : List String}

lemma Exchange.Open.tickMember {j : String} (h : E.Open ids c x (j :: asked) answered)
    (hcaller : caller ∈ ids) (hnodup : (caller :: (j :: asked) ++ answered).Nodup) (draw : Nat) :
    E.Open ids (c.tickMember j draw) x asked (answered ++ [j]) := by
  obtain ⟨hasked, hinbox⟩ := h.asked j mem_cons_self
  obtain ⟨hanswered, hempty, hout⟩ := E.reply j (c.node j) draw hasked hinbox
  have hj : caller ≠ j := by
    rintro rfl
    simp at hnodup
  have hother : ∀ k, k ∈ asked ∨ k ∈ answered → k ≠ j ∧ k ≠ caller := by
    intro k hk
    constructor
    · rintro rfl
      simp at hnodup
      tauto
    · rintro rfl
      simp at hnodup
      tauto
  have hnode : ∀ k, (c.tickMember j draw).node k =
      if k = caller then (c.node caller).receive (E.answer j)
      else if k = j then ((c.node j).tickNode draw).1 else c.node k := by
    intro k
    have hconn : Connected ids { c with node := update c.node j ((c.node j).tickNode draw).1 } :=
      ⟨h.connected.order, h.connected.group⟩
    unfold LocalCluster.tickMember
    dsimp only
    rw [hout, foldl_cons, foldl_nil, hconn.send_eq (by rw [E.answer_to]; exact hcaller),
      E.answer_to]
    by_cases hk : k = caller
    · subst hk
      simp [hj]
    · by_cases hkj : k = j
      · subst hkj
        simp [hk]
      · simp [hk, hkj]
  refine ⟨h.connected.tickMember j draw, ?_, ?_, ?_⟩
  · rw [hnode, if_pos rfl, h.caller_eq]
    simp [Node.receive]
  · intro k hk
    obtain ⟨hkj, hkc⟩ := hother k (.inl hk)
    rw [hnode, if_neg hkc, if_neg hkj]
    exact h.asked k (mem_cons_of_mem j hk)
  · intro k hk
    rw [hnode]
    rcases List.mem_append.mp hk with hk | hk
    · obtain ⟨hkj, hkc⟩ := hother k (.inr hk)
      rw [if_neg hkc, if_neg hkj]
      exact h.answered k hk
    · obtain rfl := List.mem_singleton.mp hk
      rw [if_neg (Ne.symm hj), if_pos rfl]
      exact ⟨hanswered, hempty⟩

variable {back front peers : List String}

lemma Exchange.Open.tickMembers (h : E.Open ids c x (front ++ asked) answered)
    (hcaller : caller ∈ ids) (hnodup : (caller :: (front ++ asked) ++ answered).Nodup)
    (draw : String → Nat) : E.Open ids (c.tickMembers front draw) x asked (answered ++ front) := by
  induction front generalizing c answered with
  | nil => simpa [LocalCluster.tickMembers] using h
  | cons j front ih =>
    have hnext := h.tickMember hcaller hnodup (draw j)
    have hperm : (caller :: (j :: front ++ asked) ++ answered).Perm
        (caller :: (front ++ asked) ++ (answered ++ [j])) := by
      simp only [cons_append]
      refine List.Perm.cons caller ?_
      rw [← append_assoc]
      exact (perm_append_singleton j _).symm
    have hrest := ih hnext (hperm.nodup_iff.mp hnodup)
    rw [append_assoc] at hrest
    exact hrest

lemma Exchange.Open.call {others : List String} (hconn : Connected ids c) {draw : Nat} {x : Node}
    (hperm : peers.Perm others) (hnodup : (caller :: others).Nodup) (hsub : ∀ j ∈ others, j ∈ ids)
    (htick : (c.node caller).tickNode draw = (x, peers.map E.request)) (hinbox : x.inbox = [])
    (hothers : ∀ j ∈ others, (c.node j).inbox = [] ∧ E.Asked j ((c.node j).receive (E.request j))) :
    E.Open ids (c.tickMember caller draw) x others [] := by
  obtain ⟨hcaller, hnodup⟩ := List.nodup_cons.mp hnodup
  have hnode : ∀ k, (c.tickMember caller draw).node k =
      if k ∈ peers then (update c.node caller x k).receive (E.request k)
      else update c.node caller x k := by
    intro k
    have hconn' : Connected ids { c with node := update c.node caller x } :=
      ⟨hconn.order, hconn.group⟩
    unfold LocalCluster.tickMember
    rw [htick]
    exact hconn'.foldl_send_node (hperm.nodup_iff.mpr hnodup)
      (fun j hj => hsub j (hperm.mem_iff.mp hj)) E.request_to k
  refine ⟨hconn.tickMember caller draw, ?_, ?_, by simp⟩
  · rw [hnode, if_neg fun hk => hcaller (hperm.mem_iff.mp hk), update_self, map_nil, ← hinbox]
  · intro j hj
    have hne : j ≠ caller := fun heq => hcaller (heq ▸ hj)
    obtain ⟨hempty, hasked⟩ := hothers j hj
    rw [hnode, if_pos (hperm.mem_iff.mpr hj), update_of_ne hne]
    refine ⟨hasked, ?_⟩
    simp [Node.receive, hempty]

lemma Exchange.Open.mono {E' : Exchange caller} (h : E.Open ids c x asked answered)
    (hrequest : E'.request = E.request) (hanswer : E'.answer = E.answer)
    (hasked : ∀ j n, E.Asked j n → E'.Asked j n)
    (hanswered : ∀ j n, E.Answered j n → E'.Answered j n) : E'.Open ids c x asked answered := by
  refine ⟨h.connected, by rw [hanswer]; exact h.caller_eq, ?_, ?_⟩
  · intro j hj
    rw [hrequest]
    exact (h.asked j hj).imp_left (hasked j _)
  · intro j hj
    exact (h.answered j hj).imp_left (hanswered j _)

lemma erase_perm_of_split (hids : ids = front ++ caller :: back) (hnodup : ids.Nodup) :
    (ids.erase caller).Perm (back ++ front) := by
  subst hids
  have hfront : caller ∉ front := fun h => by
    have := (List.nodup_append.mp hnodup).2.2 caller h caller mem_cons_self
    exact this rfl
  rw [erase_append_right _ hfront, erase_cons_head]
  exact perm_append_comm

lemma nodup_of_split (hids : ids = front ++ caller :: back) (hnodup : ids.Nodup) :
    (caller :: (back ++ front)).Nodup := by
  have hmem : caller ∈ ids := by
    rw [hids]
    simp
  have hperm : ids.Perm (caller :: (back ++ front)) :=
    (perm_cons_erase hmem).trans (List.Perm.cons caller (erase_perm_of_split hids hnodup))
  exact hperm.nodup_iff.mp hnodup

/-- The second half of a round: the caller ticks and asks, and the members after it answer. -/
lemma Exchange.Open.call_round (hids : ids = front ++ caller :: back) (hnodup : ids.Nodup)
    (hconn : Connected ids c) (hpeers : peers.Perm (ids.erase caller)) {draw : String → Nat}
    (htick : (c.node caller).tickNode (draw caller) = (x, peers.map E.request))
    (hinbox : x.inbox = []) (hothers : ∀ j ∈ back ++ front,
      (c.node j).inbox = [] ∧ E.Asked j ((c.node j).receive (E.request j))) :
    E.Open ids (c.tickMembers (caller :: back) draw) x front back := by
  have hdistinct := nodup_of_split hids hnodup
  have hsub : ∀ j ∈ back ++ front, j ∈ ids := by
    intro j hj
    rw [hids]
    simp only [mem_append] at hj ⊢
    tauto
  have hcall := Exchange.Open.call hconn (hpeers.trans (erase_perm_of_split hids hnodup)) hdistinct
    hsub htick hinbox hothers
  have hcaller : caller ∈ ids := by
    rw [hids]
    simp
  have hrest := hcall.tickMembers hcaller (by simpa using hdistinct) draw
  exact hrest

/-- A whole round: the members before the caller answer, the caller reads all answers and asks
again, and the members after it answer the new request. -/
lemma Exchange.Open.tickAll {E' : Exchange caller} {x' : Node} (h : E.Open ids c x front back)
    (hids : ids = front ++ caller :: back) (hnodup : ids.Nodup) {draw : String → Nat}
    (hpeers : peers.Perm (ids.erase caller))
    (htick : { x with inbox := (back ++ front).map E.answer }.tickNode (draw caller) =
      (x', peers.map E'.request)) (hinbox : x'.inbox = [])
    (hasked : ∀ j n, E.Answered j n → n.inbox = [] → E'.Asked j (n.receive (E'.request j))) :
    E'.Open ids (c.tickAll draw) x' front back := by
  have hcaller : caller ∈ ids := by
    rw [hids]
    simp
  have hdistinct : (caller :: (front ++ []) ++ back).Nodup := by
    have hperm : (caller :: (back ++ front)).Perm (caller :: (front ++ []) ++ back) := by
      simpa using perm_append_comm
    exact hperm.nodup_iff.mp (nodup_of_split hids hnodup)
  have hfront : E.Open ids (c.tickMembers front draw) x [] (back ++ front) :=
    Exchange.Open.tickMembers (by simpa using h) hcaller hdistinct draw
  have hround : c.tickAll draw = (c.tickMembers front draw).tickMembers (caller :: back) draw := by
    rw [← tickMembers_append, ← hids, ← h.connected.order]
    rfl
  rw [hround]
  refine Exchange.Open.call_round hids hnodup hfront.connected hpeers ?_ hinbox ?_
  · rw [hfront.caller_eq]
    exact htick
  · intro j hj
    obtain ⟨hanswered, hempty⟩ := hfront.answered j hj
    exact ⟨hempty, hasked j _ hanswered hempty⟩

end Exchange

end LocalCluster

end Symkernel.Coordination
