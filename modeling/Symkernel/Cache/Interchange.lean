import Symkernel.Cache.Attribution
import Symkernel.Cache.Backend
import Symkernel.Cache.RespCodec
import Symkernel.Library.RedisServer

/-!
# Memory or Redis

The calls `Get`, `Set` and `Del` of the two backends side by side: `MemoryBackend`, and
`RedisBackend` against a server that keeps its store with deadlines in milliseconds. Calls are made
at instants of one clock, in nanoseconds.
-/

namespace Symkernel.Redis

open Library Resp Resp.Reply List Option
open DistributedCache (MemEntry MemoryBackend newMemoryBackend)
open RedisServer (Store Entry textBytes)

inductive BackendError where
  | notFound
  | exec (err : RedisError)
  | unexpectedGet (v : Value)
  | unexpectedDel (v : Value)

def BackendError.context : BackendError → String
  | .notFound => "distributed cache: key not found"
  | .exec _ => ""
  | .unexpectedGet _ => "distributed cache: unexpected GET reply type "
  | .unexpectedDel _ => "distributed cache: unexpected DEL reply type "

def getArgs (key : GoString) : List GoString := [textBytes "GET", key]

/-- The time-to-live is in nanoseconds, `PX` in milliseconds. -/
def setArgs (key value : GoString) (ttl : Int) : List GoString :=
  [textBytes "SET", key, value] ++
    if 0 < ttl then [textBytes "PX", itoa (ttl.tdiv 1000000)] else []

def delArgs (keys : List GoString) : List GoString := textBytes "DEL" :: keys

namespace RedisBackend

variable (cfg : Config) (r : RedisBackend)

def get (key : GoString) (env : Environment) : RedisBackend × Outcome BackendError GoString :=
  match r.exec cfg (getArgs key) env with
  | (r, .failed err) => (r, .failed (.exec err))
  | (r, .panicked) => (r, .panicked)
  | (r, .value .nil) => (r, .failed .notFound)
  | (r, .value (.bytes b)) => (r, .value b)
  | (r, .value v) => (r, .failed (.unexpectedGet v))

def set (key value : GoString) (ttl : Int) (env : Environment) :
    RedisBackend × Outcome BackendError Unit :=
  match r.exec cfg (setArgs key value ttl) env with
  | (r, .failed err) => (r, .failed (.exec err))
  | (r, .panicked) => (r, .panicked)
  | (r, .value _) => (r, .value ())

def del (keys : List GoString) (env : Environment) : RedisBackend × Outcome BackendError Int :=
  if keys = [] then (r, .value 0)
  else
    match r.exec cfg (delArgs keys) env with
    | (r, .failed err) => (r, .failed (.exec err))
    | (r, .panicked) => (r, .panicked)
    | (r, .value (.int64 n)) => (r, .value n)
    | (r, .value v) => (r, .failed (.unexpectedDel v))

end RedisBackend

/-! ### Both backends -/

/-- A call of a `Backend`. A duration that is not negative is less than 2^63 nanoseconds, and the
length of a slice is an `int`. -/
inductive Call where
  | get (key : GoString)
  | set (key value : GoString) (ttl : Fin (2 ^ 63))
  | del (keys : List GoString) (hlength : keys.length < 2 ^ 63)

structure Timed where
  now : Nat
  call : Call

inductive Answer where
  | value (b : GoString)
  | stored
  | deleted (count : Int)
  | failed (err : BackendError)
  | panicked

def Outcome.answer {α : Type} (f : α → Answer) : Outcome BackendError α → Answer
  | .value a => f a
  | .failed err => .failed err
  | .panicked => .panicked

structure Both where
  memory : MemoryBackend GoString
  redis : RedisBackend
  store : Store

def milliseconds (now : Nat) : Int := (now / 1000000 : Nat)

def served (reply : Reply) : Environment where
  cancelled := false
  dialFails := false
  auth := okReply
  select := okReply
  command := .answered (fun _ => reply) reply.encode.length

def memoryCall (memory : MemoryBackend GoString) (now : Nat) :
    Call → MemoryBackend GoString × Answer
  | .get key =>
    let r := memory.get now key
    (r.1, r.2.elim (.failed .notFound) .value)
  | .set key value ttl => (memory.set now key value ttl.val, .stored)
  | .del keys _ =>
    let r := memory.del keys
    (r.1, .deleted r.2)

def redisCall (cfg : Config) (redis : RedisBackend) (store : Store) (now : Nat) :
    Call → (RedisBackend × Store) × Answer
  | .get key =>
    let s := RedisServer.command (milliseconds now) store (getArgs key)
    let r := redis.get cfg key (served s.2)
    ((r.1, s.1), r.2.answer .value)
  | .set key value ttl =>
    let s := RedisServer.command (milliseconds now) store (setArgs key value ttl.val)
    let r := redis.set cfg key value ttl.val (served s.2)
    ((r.1, s.1), r.2.answer fun _ => .stored)
  | .del keys _ =>
    -- without keys no command is sent
    let s :=
      if keys = [] then (store, RedisServer.okReply)
      else RedisServer.command (milliseconds now) store (delArgs keys)
    let r := redis.del cfg keys (served s.2)
    ((r.1, s.1), r.2.answer .deleted)

namespace Both

def fresh : Both where
  memory := newMemoryBackend
  redis := newRedisBackend
  store := ∅

def step (cfg : Config) (s : Both) (c : Timed) : Both :=
  let r := redisCall cfg s.redis s.store c.now c.call
  { memory := (memoryCall s.memory c.now c.call).1, redis := r.1.1, store := r.1.2 }

def Agree (cfg : Config) (s : Both) (c : Timed) : Prop :=
  (memoryCall s.memory c.now c.call).2 = (redisCall cfg s.redis s.store c.now c.call).2

/-- The instant is a millisecond or more away from every expiry. -/
def Away (s : Both) (c : Timed) : Prop :=
  ∀ key e, s.memory.entries.lookup key = some e → e.expiresAt ≠ 0 →
    (c.now : Int) + 1000000 ≤ e.expiresAt ∨ e.expiresAt + 1000000 ≤ c.now

/-- The call is one that both backends treat alike: a `Set` without time-to-live or with one of a
millisecond at least, a `Del` of keys that have not expired in memory, a `Get` of a value that
`readReply` can allocate. -/
def Alike (s : Both) (c : Timed) : Prop :=
  match c.call with
  | .get key => ∀ e, s.memory.entries.lookup key = some e →
    MemoryBackend.expired e c.now = false → e.value.length + 2 ≤ maxAlloc
  | .set _ _ ttl => ttl.val = 0 ∨ 1000000 ≤ ttl.val
  | .del keys _ => ∀ key ∈ keys, ∀ e, s.memory.entries.lookup key = some e →
    MemoryBackend.expired e c.now = false

end Both

lemma okReply_completes (args : List GoString) : okReply.Completes args :=
  ⟨_, rfl, Nat.le_succ 5⟩

lemma okReply_acceptable (args : List GoString) : okReply.Acceptable args :=
  fun _ h => by cases h

lemma handshake_okReply {r : RedisBackend} (hconn : r.conn = some ⟨[]⟩) (needed : Bool)
    (args : List GoString) (writeError : RedisError) (replyError : ReplyError → RedisError) :
    r.handshake needed args writeError replyError okReply = ({ conn := some ⟨[]⟩ }, .value ()) := by
  rcases RedisBackend.handshake_cases hconn needed args writeError replyError
      okReply_wellFormed with ⟨heq, -⟩ | ⟨err, -, -, hbad, -⟩ | ⟨unread, -, -, -, hbad⟩
  · exact heq
  · exact absurd (okReply_completes args) hbad
  · exact absurd (okReply_acceptable args) hbad

section Served

variable (cfg : Config) {r : RedisBackend} (hr : r.Synchronised) {reply : Reply}
  (hwf : reply.WellFormed)

include hr

lemma ensureConnectedLocked_served (reply : Reply) :
    r.ensureConnectedLocked cfg (served reply) = ({ conn := some ⟨[]⟩ }, .value ()) := by
  unfold RedisBackend.ensureConnectedLocked
  cases hconn : r.conn with
  | some conn =>
    have hunread := hr conn hconn
    obtain ⟨conn'⟩ := r
    cases conn
    cases hconn
    cases hunread
    rfl
  | none =>
    simp only [served]
    rw [handshake_okReply rfl]
    exact handshake_okReply rfl _ _ _ _

lemma exec_served (args : List GoString) (reply : Reply) :
    r.exec cfg args (served reply) = RedisBackend.roundTrip { conn := some ⟨[]⟩ } ⟨[]⟩ args .write
      .reply (.answered (fun _ => reply) reply.encode.length) := by
  unfold RedisBackend.exec
  rw [ensureConnectedLocked_served cfg hr]
  rfl

include hwf

lemma exec_served_value (args : List GoString) {v : Value} (hreading : reading reply = .value v) :
    r.exec cfg args (served reply) = ({ conn := some ⟨[]⟩ }, .value v) := by
  rw [exec_served cfg hr, RedisBackend.roundTrip]
  simp only [nil_append]
  rw [readReply_take_value hwf hreading (Nat.le_refl _), drop_length]
  rfl

lemma exec_served_other (args : List GoString) (hreading : ∀ v, reading reply ≠ .value v) (v : Value) :
    (r.exec cfg args (served reply)).2 ≠ .value v := by
  rw [exec_served cfg hr]
  have hanswered : Exchange.WellFormed (.answered (fun _ => reply) reply.encode.length) :=
    fun _ => hwf
  rcases RedisBackend.roundTrip_cases ⟨some ⟨[]⟩⟩ ⟨[]⟩ rfl args .write .reply hanswered with
    ⟨w, answer, delivered, hx, hvalue, -, -⟩ | ⟨err, heq, -⟩ | ⟨unread, -, heq, -⟩
  · cases hx
    exact absurd hvalue (hreading w)
  · rw [heq]
    intro h
    cases h
  · rw [heq]
    intro h
    cases h

end Served

/-- What is stored under a key in memory and on the server. The server rounds the instant and the
time-to-live down, each by less than a millisecond. -/
inductive SameEntry : Option (MemEntry GoString) → Option Entry → Prop
  | absent : SameEntry none none
  | forever (value : GoString) :
    SameEntry (some { value, expiresAt := 0 }) (some { value, deadline := none })
  | limited (value : GoString) {expiresAt deadline : Int} (hset : expiresAt ≠ 0)
    (hlow : deadline * 1000000 ≤ expiresAt) (hhigh : expiresAt < (deadline + 2) * 1000000) :
    SameEntry (some { value, expiresAt }) (some { value, deadline := some deadline })

variable {m : Option (MemEntry GoString)}

lemma SameEntry.filter {d : Option Entry} (h : SameEntry m d) {now : Nat}
    (haway : ∀ e, m = some e → e.expiresAt ≠ 0 →
      (now : Int) + 1000000 ≤ e.expiresAt ∨ e.expiresAt + 1000000 ≤ now) :
    SameEntry (m.filter fun e => !MemoryBackend.expired e now)
      (d.filter fun e => !e.expired (milliseconds now)) := by
  cases h with
  | absent => exact .absent
  | forever value => exact .forever value
  | @limited value expiresAt deadline hset hlow hhigh =>
    have hfar := haway _ rfl hset
    have hsame : Entry.expired { value, deadline := some deadline } (milliseconds now) =
        MemoryBackend.expired { value, expiresAt } now := by
      unfold Entry.expired MemoryBackend.expired milliseconds
      rw [any_some, decide_eq_true hset, Bool.true_and, decide_eq_decide]
      dsimp only at hfar ⊢
      omega
    rw [filter_some, filter_some, hsame]
    cases MemoryBackend.expired { value, expiresAt } now with
    | true => exact .absent
    | false => exact .limited value hset hlow hhigh

lemma SameEntry.cases {d : Option Entry} (h : SameEntry m d) :
    (m = none ∧ d = none) ∨ ∃ e e', m = some e ∧ d = some e' ∧ e.value = e'.value := by
  cases h with
  | absent => exact .inl ⟨rfl, rfl⟩
  | forever value => exact .inr ⟨_, _, rfl, rfl, rfl⟩
  | limited value => exact .inr ⟨_, _, rfl, rfl, rfl⟩

namespace Both

/-- The connection is in step with the server, and both stores have the same entries. -/
structure Related (s : Both) : Prop where
  sync : s.redis.Synchronised
  same : ∀ key, SameEntry (s.memory.entries.lookup key) (s.store.lookup key)

lemma fresh_related : fresh.Related where
  sync := RedisBackend.dropLocked_synchronised newRedisBackend
  same _ := .absent

variable {cfg : Config} {s : Both} {now : Nat}

lemma synchronised_unread : RedisBackend.Synchronised { conn := some ⟨[]⟩ } := by
  rintro conn ⟨⟩
  rfl

/-! ### Get -/

def getReply (d : Option Entry) : Reply := d.elim .nilBulk fun e => .bulk 0 e.value

lemma wellFormed_getReply (d : Option Entry) : (getReply d).WellFormed := by
  cases d with
  | none => trivial
  | some e => trivial

lemma command_getArgs (store : Store) (key : GoString) :
    RedisServer.command (milliseconds now) store (getArgs key) =
      (RedisServer.access (milliseconds now) store key,
        getReply ((store.lookup key).filter fun e => !e.expired (milliseconds now))) := by
  have hlookup := RedisServer.lookup_access (milliseconds now) store key key
  rw [if_pos rfl] at hlookup
  rw [getArgs, ← RedisServer.getName, RedisServer.command_get, RedisServer.get, ← hlookup]
  cases (RedisServer.access (milliseconds now) store key).lookup key with
  | none => rfl
  | some e => rfl

variable {r : RedisBackend}

lemma get_served (hr : r.Synchronised) (key : GoString) {d : Option Entry}
    (hfits : ∀ e, d = some e → e.value.length + 2 ≤ maxAlloc) :
    r.get cfg key (served (getReply d)) =
      ({ conn := some ⟨[]⟩ }, d.elim (.failed .notFound) fun e => .value e.value) := by
  unfold RedisBackend.get
  cases d with
  | none =>
    rw [exec_served_value cfg hr (wellFormed_getReply none) (getArgs key) (v := .nil) rfl]
    rfl
  | some e =>
    have hreading : reading (getReply (some e)) = .value (.bytes e.value) :=
      reading_of_fits (.bulk 0 e.value) rfl (decide_eq_true (hfits e rfl))
    rw [exec_served_value cfg hr (wellFormed_getReply _) (getArgs key) hreading]
    rfl

lemma get_served_oversized (cfg : Config) (hr : r.Synchronised) (key : GoString) {e : Entry}
    (hlong : ¬e.value.length + 2 ≤ maxAlloc) (b : GoString) :
    (r.get cfg key (served (getReply (some e)))).2 ≠ .value b := by
  have hother : ∀ v, reading (getReply (some e)) ≠ .value v := by
    intro v hv
    have hfits := fits_of_reading (.bulk 0 e.value) hv
    rw [fits, decide_eq_true_eq] at hfits
    exact hlong hfits
  have hexec := exec_served_other cfg hr (wellFormed_getReply _) (getArgs key) hother
  unfold RedisBackend.get
  generalize r.exec cfg (getArgs key) (served (getReply (some e))) = out at hexec
  obtain ⟨r', out⟩ := out
  cases out with
  | value v => exact absurd rfl (hexec v)
  | failed err =>
    intro h
    cases h
  | panicked =>
    intro h
    cases h

lemma alike_get (key : GoString) : s.Alike ⟨now, .get key⟩ ↔
      ∀ e, ((s.memory.entries.lookup key).filter fun e => !MemoryBackend.expired e now) = some e →
        e.value.length + 2 ≤ maxAlloc := by
  simp only [Alike, filter_eq_some_iff, Bool.not_eq_true', and_imp]

lemma get_related (h : s.Related) (key : GoString) (haway : s.Away ⟨now, .get key⟩) :
    (s.Agree cfg ⟨now, .get key⟩ ↔ s.Alike ⟨now, .get key⟩) ∧
      (s.Alike ⟨now, .get key⟩ → (s.step cfg ⟨now, .get key⟩).Related) := by
  have hlive := (h.same key).filter (haway key)
  have hstores : ∀ k, SameEntry ((s.memory.get now key).1.entries.lookup k)
      ((RedisServer.access (milliseconds now) s.store key).lookup k) := by
    intro k
    rw [MemoryBackend.lookup_get, RedisServer.lookup_access]
    split
    · exact (h.same k).filter (haway k)
    · exact h.same k
  rw [alike_get]
  unfold Agree step
  simp only [memoryCall, redisCall, command_getArgs, MemoryBackend.get_value]
  generalize (s.memory.entries.lookup key).filter (fun e => !MemoryBackend.expired e now) = m
    at hlive ⊢
  generalize (s.store.lookup key).filter (fun e => !e.expired (milliseconds now)) = d at hlive ⊢
  obtain ⟨rfl, rfl⟩ | ⟨e, e', rfl, rfl, hvalue⟩ := hlive.cases
  · rw [get_served h.sync key fun e he => (by cases he)]
    refine ⟨iff_of_true rfl fun e he => (by cases he), fun _ => ⟨synchronised_unread, hstores⟩⟩
  · have hiff : (∀ e₁, some e = some e₁ → e₁.value.length + 2 ≤ maxAlloc) ↔
        e'.value.length + 2 ≤ maxAlloc := by
      rw [← hvalue]
      exact ⟨fun hall => hall e rfl, fun hfits e₁ he => Option.some.inj he ▸ hfits⟩
    rw [hiff]
    by_cases hfits : e'.value.length + 2 ≤ maxAlloc
    · rw [get_served h.sync key fun e₁ he => Option.some.inj he ▸ hfits]
      refine ⟨iff_of_true ?_ hfits, fun _ => ⟨synchronised_unread, hstores⟩⟩
      rw [map_some, hvalue]
      rfl
    · refine ⟨iff_of_false ?_ hfits, fun h => absurd h hfits⟩
      intro hagree
      have hother := get_served_oversized cfg h.sync key hfits e.value
      generalize s.redis.get cfg key (served (getReply (some e'))) = out at hagree hother
      obtain ⟨r', out⟩ := out
      cases out with
      | value b =>
        cases hagree
        exact hother rfl
      | failed err => cases hagree
      | panicked => cases hagree

/-! ### Set -/

lemma parseInt64_itoa_natCast {n : Nat} (h : n < 2 ^ 63) : parseInt64 (itoa n) = some (n : Int) := by
  rw [itoa_natCast, parseInt64_decimalText, if_pos h]

lemma command_setArgs_forever (store : Store) (key value : GoString) :
    RedisServer.command (milliseconds now) store (setArgs key value 0) =
      (store.insert key { value, deadline := none }, RedisServer.okReply) := by
  rw [setArgs, if_neg (lt_irrefl 0), append_nil, ← RedisServer.setName,
    RedisServer.command_set, RedisServer.set]

lemma command_setArgs_limited (store : Store) (key value : GoString) {ttl : Nat} (hpos : 0 < ttl)
    (hlt : ttl < 2 ^ 63) : RedisServer.command (milliseconds now) store (setArgs key value ttl) =
      if ttl / 1000000 = 0 then (store, RedisServer.invalidExpire)
      else (store.insert key
        { value, deadline := some (milliseconds now + (ttl / 1000000 : Nat)) },
          RedisServer.okReply) := by
  have hms : (ttl : Int).tdiv 1000000 = ((ttl / 1000000 : Nat) : Int) := by
    rw [Int.tdiv_eq_ediv_of_nonneg (by omega)]
    omega
  have hparse : parseInt64 (itoa ((ttl / 1000000 : Nat) : Int)) =
      some ((ttl / 1000000 : Nat) : Int) := by
    apply parseInt64_itoa_natCast
    omega
  have hargs : setArgs key value ttl = [RedisServer.setName, key, value, RedisServer.pxName,
      itoa ((ttl / 1000000 : Nat) : Int)] := by
    rw [setArgs, if_pos (by omega)]
    rfl
  rw [hargs, RedisServer.command_set_px _ _ _ _ hparse, RedisServer.set]
  by_cases hzero : ttl / 1000000 = 0
  · rw [if_pos (by omega), if_pos hzero]
  · rw [if_neg (by omega), if_neg hzero]

lemma set_okReply (hr : r.Synchronised) (key value : GoString) (ttl : Int) :
    r.set cfg key value ttl (served RedisServer.okReply) = ({ conn := some ⟨[]⟩ }, .value ()) := by
  have hwf : RedisServer.okReply.WellFormed := by
    change OneLine (textBytes "OK")
    decide
  unfold RedisBackend.set
  rw [exec_served_value cfg hr hwf _ rfl]

lemma set_invalidExpire (cfg : Config) (hr : r.Synchronised) (key value : GoString) (ttl : Int) :
    (r.set cfg key value ttl (served RedisServer.invalidExpire)).2 ≠ .value () := by
  have hwf : RedisServer.invalidExpire.WellFormed := by
    change OneLine (textBytes "ERR invalid expire time in 'set' command")
    decide
  have hexec := exec_served_other cfg hr hwf (setArgs key value ttl) fun v h => (by cases h)
  unfold RedisBackend.set
  generalize r.exec cfg (setArgs key value ttl) (served RedisServer.invalidExpire) = out at hexec
  obtain ⟨r', out⟩ := out
  cases out with
  | value v => exact absurd rfl (hexec v)
  | failed err =>
    intro h
    cases h
  | panicked =>
    intro h
    cases h

lemma same_insert (h : s.Related) (key value : GoString) (ttl : Nat) {d : Entry}
    (hd : SameEntry (some { value, expiresAt := if (0 : Int) < ttl then (now : Int) + ttl else 0 })
      (some d)) (k : GoString) :
    SameEntry ((s.memory.set now key value ttl).entries.lookup k)
      ((s.store.insert key d).lookup k) := by
  rw [MemoryBackend.lookup_set]
  by_cases hk : k = key
  · rw [if_pos hk, hk, Finmap.lookup_insert]
    exact hd
  · rw [if_neg hk, Finmap.lookup_insert_of_ne _ hk]
    exact h.same k

lemma set_related (h : s.Related) (key value : GoString) (ttl : Fin (2 ^ 63)) :
    (s.Agree cfg ⟨now, .set key value ttl⟩ ↔ s.Alike ⟨now, .set key value ttl⟩) ∧
      (s.Alike ⟨now, .set key value ttl⟩ → (s.step cfg ⟨now, .set key value ttl⟩).Related) := by
  obtain ⟨ttl, hlt⟩ := ttl
  unfold Agree step
  simp only [redisCall, Alike]
  by_cases hzero : ttl = 0
  · subst hzero
    rw [Nat.cast_zero, command_setArgs_forever, set_okReply h.sync]
    refine ⟨iff_of_true rfl (.inl rfl), fun _ => ⟨synchronised_unread, ?_⟩⟩
    exact same_insert h key value 0 (.forever value)
  · rw [command_setArgs_limited s.store key value (by omega) hlt]
    by_cases hshort : ttl / 1000000 = 0
    · rw [if_pos hshort]
      have hother := set_invalidExpire cfg h.sync key value ttl
      refine ⟨iff_of_false ?_ (by omega), fun hlong => by omega⟩
      intro hagree
      generalize s.redis.set cfg key value ttl (served RedisServer.invalidExpire) = out
        at hagree hother
      obtain ⟨r', out⟩ := out
      cases out with
      | value b => exact hother rfl
      | failed err => cases hagree
      | panicked => cases hagree
    · rw [if_neg hshort, set_okReply h.sync]
      refine ⟨iff_of_true rfl (.inr (by omega)), fun _ => ⟨synchronised_unread, ?_⟩⟩
      refine same_insert h key value ttl ?_
      apply SameEntry.limited
      · omega
      · unfold milliseconds
        omega
      · unfold milliseconds
        omega

/-! ### Del -/

section Deleted

variable {m : MemoryBackend GoString} {store : Store}
  (hsame : ∀ key, SameEntry (m.entries.lookup key) (store.lookup key))
  (haway : ∀ key e, m.entries.lookup key = some e → e.expiresAt ≠ 0 →
    (now : Int) + 1000000 ≤ e.expiresAt ∨ e.expiresAt + 1000000 ≤ now)

include hsame haway

/-- One key is counted by both or by neither, or by memory alone if it has expired. -/
lemma counts_delKey (key : GoString) (a b : Nat) :
    ((∀ e, m.entries.lookup key = some e → MemoryBackend.expired e now = false) ∧
        (MemoryBackend.delKey (m, a) key).2 + b =
          (RedisServer.delKey (milliseconds now) (store, b) key).2 + a) ∨
      (∃ e, m.entries.lookup key = some e ∧ MemoryBackend.expired e now = true) ∧
        (MemoryBackend.delKey (m, a) key).2 + b =
          (RedisServer.delKey (milliseconds now) (store, b) key).2 + a + 1 := by
  have hlive := (hsame key).filter (haway key)
  rw [MemoryBackend.count_delKey, RedisServer.count_delKey]
  cases hlookup : m.entries.lookup key with
  | none =>
    rw [hlookup] at hlive
    obtain ⟨-, hnone⟩ | ⟨e, -, he, -⟩ := hlive.cases
    · rw [hnone]
      exact .inl ⟨fun e he => (by cases he), Nat.add_comm a b⟩
    · cases he
  | some e =>
    rw [hlookup, filter_some] at hlive
    cases hexpired : MemoryBackend.expired e now with
    | true =>
      rw [hexpired] at hlive
      obtain ⟨-, hnone⟩ | ⟨e', -, he', -⟩ := hlive.cases
      · rw [hnone]
        refine .inr ⟨⟨e, rfl, hexpired⟩, ?_⟩
        simp only [isSome_some, isSome_none, if_true, Bool.false_eq_true, if_false]
        omega
      · cases he'
    | false =>
      rw [hexpired] at hlive
      obtain ⟨hnone, -⟩ | ⟨-, e', -, hsome, -⟩ := hlive.cases
      · cases hnone
      · rw [hsome]
        refine .inl ⟨fun e₁ he₁ => Option.some.inj he₁ ▸ hexpired, ?_⟩
        simp only [isSome_some, if_true]
        omega

lemma counts_foldl_delKey (keys : List GoString) (a b : Nat) :
    (keys.foldl (RedisServer.delKey (milliseconds now)) (store, b)).2 + a ≤
        (keys.foldl MemoryBackend.delKey (m, a)).2 + b ∧
      ((keys.foldl MemoryBackend.delKey (m, a)).2 + b =
          (keys.foldl (RedisServer.delKey (milliseconds now)) (store, b)).2 + a ↔
        ∀ key ∈ keys, ∀ e, m.entries.lookup key = some e →
          MemoryBackend.expired e now = false) := by
  induction keys generalizing m store a b with
  | nil =>
    rw [foldl_nil, foldl_nil]
    refine ⟨by dsimp only; omega, iff_of_true (Nat.add_comm a b) ?_⟩
    exact fun key hkey => absurd hkey not_mem_nil
  | cons key keys ih =>
    have hm := MemoryBackend.lookup_delKey (m, a) key
    have hstore := RedisServer.lookup_delKey (milliseconds now) store b key
    have hcounts := counts_delKey hsame haway key a b
    rw [foldl_cons, foldl_cons]
    generalize MemoryBackend.delKey (m, a) key = r at hm hcounts ⊢
    generalize RedisServer.delKey (milliseconds now) (store, b) key = r' at hstore hcounts ⊢
    obtain ⟨m', a'⟩ := r
    obtain ⟨store', b'⟩ := r'
    have hsame' : ∀ k, SameEntry (m'.entries.lookup k) (store'.lookup k) := by
      intro k
      rw [hm, hstore]
      split
      · exact .absent
      · exact hsame k
    have hsub : ∀ k e, m'.entries.lookup k = some e → m.entries.lookup k = some e := by
      intro k e he
      rw [hm] at he
      split at he
      · cases he
      · exact he
    obtain ⟨hle, hiff⟩ := ih hsame' (fun k e he => haway k e (hsub k e he)) a' b'
    obtain ⟨hkey, hcount⟩ | ⟨⟨e, he, hexpired⟩, hcount⟩ := hcounts
    · refine ⟨by omega, ?_⟩
      have hrest : (∀ k ∈ keys, ∀ e, m'.entries.lookup k = some e →
            MemoryBackend.expired e now = false) ↔
          ∀ k ∈ key :: keys, ∀ e, m.entries.lookup k = some e →
            MemoryBackend.expired e now = false := by
        rw [forall_mem_cons]
        constructor
        · refine fun hall => ⟨hkey, fun k hk e he => ?_⟩
          by_cases heq : k = key
          · exact hkey e (heq ▸ he)
          · exact hall k hk e (by rw [hm, if_neg heq, he])
        · exact fun hall k hk e he => hall.2 k hk e (hsub k e he)
      rw [← hrest, ← hiff]
      omega
    · refine ⟨by omega, iff_of_false (by omega) ?_⟩
      intro hall
      rw [hall key mem_cons_self e he] at hexpired
      cases hexpired

end Deleted

lemma del_served (hr : r.Synchronised) {keys : List GoString} (hkeys : keys ≠ []) {count : Nat}
    (hcount : count < 2 ^ 63) :
    r.del cfg keys (served (.integer .none 0 count)) = ({ conn := some ⟨[]⟩ }, .value count) := by
  have hwf : WellFormed (.integer .none 0 count) := by
    change -2 ^ 63 ≤ (count : Int) ∧ (count : Int) < 2 ^ 63
    omega
  unfold RedisBackend.del
  rw [if_neg hkeys, exec_served_value cfg hr hwf _ rfl]
  rfl

lemma del_related (h : s.Related) (keys : List GoString) (hlength : keys.length < 2 ^ 63)
    (haway : s.Away ⟨now, .del keys hlength⟩) :
    (s.Agree cfg ⟨now, .del keys hlength⟩ ↔ s.Alike ⟨now, .del keys hlength⟩) ∧
      (s.step cfg ⟨now, .del keys hlength⟩).Related := by
  unfold Agree step
  simp only [memoryCall, redisCall, Alike]
  by_cases hkeys : keys = []
  · subst hkeys
    exact ⟨iff_of_true rfl fun key hkey => absurd hkey not_mem_nil, h.sync, h.same⟩
  · obtain ⟨-, hiff⟩ := counts_foldl_delKey h.same haway keys 0 0
    dsimp only at hiff
    have hle := RedisServer.count_foldl_delKey_le (milliseconds now) keys (s.store, 0)
    rw [if_neg hkeys, delArgs, ← RedisServer.delName, RedisServer.command_del _ _ hkeys,
      RedisServer.del]
    rw [del_served h.sync hkeys (by omega)]
    refine ⟨?_, synchronised_unread, fun k => ?_⟩
    · rw [← hiff, MemoryBackend.del]
      constructor
      · intro hagree
        have hcount := Answer.deleted.inj hagree
        omega
      · intro hcount
        exact congrArg Answer.deleted (by omega)
    · rw [MemoryBackend.lookup_del, RedisServer.lookup_foldl_delKey]
      split
      · exact .absent
      · exact h.same k

/-! ### Runs -/

lemma agree_iff_alike (cfg : Config) (h : s.Related) {c : Timed} (haway : s.Away c) :
    (s.Agree cfg c ↔ s.Alike c) ∧ (s.Alike c → (s.step cfg c).Related) := by
  obtain ⟨now, call⟩ := c
  cases call with
  | get key => exact get_related h key haway
  | set key value ttl => exact set_related h key value ttl
  | del keys hlength =>
    obtain ⟨hiff, hrelated⟩ := del_related h keys hlength haway
    exact ⟨hiff, fun _ => hrelated⟩

/-- Along every sequence of calls at instants away from the expiries, the backends give the same
answers exactly if each call is one that both treat alike. -/
theorem backends_agree_iff (cfg : Config) (calls : List Timed)
    (haway : EveryStep (step cfg) Away fresh calls) :
    EveryStep (step cfg) (Agree cfg) fresh calls ↔ EveryStep (step cfg) Alike fresh calls := by
  refine EveryStep.congr_of_known (P := Related) ?_ ?_ fresh_related haway
  · exact fun s c h haway => (agree_iff_alike cfg h haway).1
  · intro s c h haway hagree
    obtain ⟨hiff, hrelated⟩ := agree_iff_alike cfg h haway
    exact hrelated (hiff.mp hagree)

def setFor (ttl : Fin (2 ^ 63)) : Timed := ⟨0, .set [0x6b] [0x76] ttl⟩

lemma fresh_away (c : Timed) : fresh.Away c := by
  intro key e he
  have hnone : fresh.memory.entries.lookup key = none := rfl
  cases he

lemma lookup_setFor (ttl : Fin (2 ^ 63)) {key : GoString} {e : MemEntry GoString}
    (h : (fresh.step plainConfig (setFor ttl)).memory.entries.lookup key = some e) :
    e = { value := [0x76], expiresAt := if (0 : Int) < ttl.val then ttl.val else 0 } := by
  have hset := MemoryBackend.lookup_set fresh.memory 0 [0x6b] [0x76] ttl.val key
  change (fresh.memory.set 0 [0x6b] [0x76] ttl.val).entries.lookup key = some e at h
  rw [hset] at h
  split at h
  · rw [← Option.some.inj h, zero_add]
  · cases h

def setThenDel : List Timed := [setFor 1000000, ⟨5000000, .del [[0x6b]] (by decide)⟩]

lemma setThenDel_away : EveryStep (step plainConfig) Away fresh setThenDel := by
  refine ⟨fresh_away _, ?_, trivial⟩
  intro key e he _
  rw [lookup_setFor 1000000 he]
  right
  decide

/-- A time-to-live of a nanosecond is an error for Redis, and a key that has expired is still
counted in memory. -/
theorem backends_differ : ¬fresh.Agree plainConfig (setFor 1) ∧
      EveryStep (step plainConfig) Away fresh setThenDel ∧
      ¬EveryStep (step plainConfig) (Agree plainConfig) fresh setThenDel := by
  refine ⟨?_, setThenDel_away, ?_⟩
  · intro hagree
    obtain hzero | hlong := (agree_iff_alike plainConfig fresh_related (fresh_away _)).1.mp hagree
    · exact absurd hzero (by decide)
    · exact absurd hlong (by decide)
  · rintro ⟨-, hdel, -⟩
    have hrelated := (agree_iff_alike plainConfig fresh_related (fresh_away (setFor 1000000))).2
      (.inr (by decide))
    have halike := (agree_iff_alike plainConfig hrelated setThenDel_away.2.1).1.mp hdel
    have hlookup : (fresh.step plainConfig (setFor 1000000)).memory.entries.lookup [0x6b] =
        some { value := [0x76], expiresAt := 1000000 } := by
      change (fresh.memory.set 0 [0x6b] [0x76] _).entries.lookup [0x6b] = _
      rw [MemoryBackend.lookup_set, if_pos rfl]
      rfl
    exact absurd (halike [0x6b] mem_cons_self _ hlookup) (by decide)

theorem set_then_get_agree :
    EveryStep (step plainConfig) (Agree plainConfig) fresh [setFor 0, ⟨1, .get [0x6b]⟩] := by
  have haway : EveryStep (step plainConfig) Away fresh [setFor 0, ⟨1, .get [0x6b]⟩] := by
    refine ⟨fresh_away _, ?_, trivial⟩
    intro key e he hset
    rw [lookup_setFor 0 he] at hset
    exact absurd rfl hset
  refine (backends_agree_iff plainConfig _ haway).mpr ⟨.inl rfl, ?_, trivial⟩
  intro e he _
  rw [lookup_setFor 0 he]
  decide

end Both

/-- What the calls have left under `key`, if nothing expired. -/
def written (key : GoString) (e : Option (MemEntry GoString)) (c : Timed) :
    Option (MemEntry GoString) :=
  match c.call with
  | .get _ => e
  | .set k value ttl =>
    if key = k then some ⟨value, if (0 : Int) < ttl.val then c.now + ttl.val else 0⟩ else e
  | .del keys _ => if key ∈ keys then none else e

variable {m : MemoryBackend GoString} {key : GoString} {e : Option (MemEntry GoString)}

def SameFrom (key : GoString) (now : Nat) (m : MemoryBackend GoString)
    (e : Option (MemEntry GoString)) : Prop :=
  ∀ t : Nat, now ≤ t → (m.entries.lookup key).filter (fun e => !MemoryBackend.expired e t) =
    e.filter fun e => !MemoryBackend.expired e t

lemma SameFrom.step {c : Timed} (h : SameFrom key c.now m e) :
    SameFrom key c.now (memoryCall m c.now c.call).1 (written key e c) := by
  intro t ht
  cases hc : c.call with
  | get k =>
    simp only [written, hc, memoryCall, MemoryBackend.lookup_get]
    split
    · rw [Option.filter_filter, ← h t ht]
      congr 1
      funext e
      simp only [MemoryBackend.expired]
      grind
    · exact h t ht
  | set k value ttl =>
    simp only [written, hc, memoryCall, MemoryBackend.lookup_set]
    split
    · rfl
    · exact h t ht
  | del keys =>
    simp only [written, hc, memoryCall, MemoryBackend.lookup_del]
    split
    · rfl
    · exact h t ht

lemma SameFrom.run {calls : List Timed} {start now : Nat} (h : SameFrom key start m e)
    (hclock : (start :: (calls.map Timed.now ++ [now])).Pairwise (· ≤ ·)) :
    SameFrom key now (calls.foldl (fun m c => (memoryCall m c.now c.call).1) m)
      (calls.foldl (written key) e) := by
  induction calls generalizing start m e with
  | nil => exact fun t ht => h t ((rel_of_pairwise_cons hclock mem_cons_self).trans ht)
  | cons c calls ih =>
    have hstart : start ≤ c.now := rel_of_pairwise_cons hclock mem_cons_self
    exact ih (SameFrom.step fun t ht => h t (hstart.trans ht)) hclock.of_cons

/-- While the clock does not go back, `Get` returns what was set last under the key, unless it was
deleted since or has expired. -/
theorem memory_returns_last_written (calls : List Timed) (now : Nat) (key : GoString)
    (hclock : (calls.map Timed.now ++ [now]).Pairwise (· ≤ ·)) :
    ((calls.foldl (fun m c => (memoryCall m c.now c.call).1) newMemoryBackend).get now key).2 =
      ((calls.foldl (written key) none).filter fun e => !MemoryBackend.expired e now).map
        MemEntry.value := by
  have hsame : SameFrom key 0 newMemoryBackend none := fun _ _ => rfl
  rw [MemoryBackend.get_value, hsame.run (pairwise_cons.mpr ⟨fun _ _ => Nat.zero_le _, hclock⟩) now
    le_rfl]

theorem expired_not_returned :
    ((memoryCall newMemoryBackend 0 (.set [0x6b] [0x76] 3)).1.get (4 : Nat) [0x6b]).2 = none :=
  memory_returns_last_written [⟨0, .set [0x6b] [0x76] 3⟩] 4 [0x6b] (by decide)

end Symkernel.Redis
