import Symkernel.Cache.RedisReading
import Symkernel.Library.Runs

/-!
# Replies and the commands they answer
-/

namespace Symkernel.Redis

open Library Resp Resp.Reply List

/-! ### One command -/

namespace Exchange

def WellFormed : Exchange → Prop
  | .writeFails => True
  | .answered answer _ => ∀ command, (answer command).WellFormed

def Completes (args : List GoString) : Exchange → Prop
  | .writeFails => False
  | .answered answer delivered =>
    ∃ v, reading (answer (encodeCommand args)) = .value v ∧
      (answer (encodeCommand args)).encode.length ≤ delivered

def Acceptable (args : List GoString) : Exchange → Prop
  | .writeFails => True
  | .answered answer delivered =>
    ∀ front, reading (answer (encodeCommand args)) = .refused front → delivered < front.length

end Exchange

namespace RedisBackend

/-- If a connection is held, no bytes of replies are unread or outstanding on it. -/
def Synchronised (r : RedisBackend) : Prop :=
  ∀ conn, r.conn = some conn → conn.unread = []

lemma dropLocked_synchronised (r : RedisBackend) : r.dropLocked.Synchronised := by
  intro conn h
  cases h

lemma roundTrip_refused (r : RedisBackend) (conn : Connection) (hconn : conn.unread = [])
    (args : List GoString) (writeError : RedisError) (replyError : ReplyError → RedisError)
    (answer : GoString → Reply) (hwf : (answer (encodeCommand args)).WellFormed)
    {front : GoString} (hreading : reading (answer (encodeCommand args)) = .refused front)
    {delivered : Nat} (hk : front.length ≤ delivered) :
    ∃ tail, tail ≠ [] ∧ (answer (encodeCommand args)).encode = front ++ tail ∧
      r.roundTrip conn args writeError replyError (.answered answer delivered) =
        ({ conn := some ⟨tail⟩ }, .panicked) := by
  obtain ⟨tail, htail, heq, hread⟩ := readReply_take_refused hwf hreading hk
  refine ⟨tail, htail, heq, ?_⟩
  have hrest : tail.take (delivered - front.length) ++
      (answer (encodeCommand args)).encode.drop delivered = tail := by
    rw [heq, drop_append, drop_eq_nil_of_le hk, nil_append, take_append_drop]
  unfold roundTrip
  simp only [hconn, nil_append, hread, hrest]

/-- What a command can come to on a connection without unread bytes. -/
lemma roundTrip_cases (r : RedisBackend) (conn : Connection) (hconn : conn.unread = [])
    (args : List GoString) (writeError : RedisError) (replyError : ReplyError → RedisError)
    {x : Exchange} (hwf : x.WellFormed) : (∃ v answer delivered, x = .answered answer delivered ∧
        reading (answer (encodeCommand args)) = .value v ∧
        r.roundTrip conn args writeError replyError x = ({ conn := some ⟨[]⟩ }, .value v) ∧
        x.Completes args ∧ x.Acceptable args) ∨
      (∃ err, r.roundTrip conn args writeError replyError x = (r.dropLocked, .failed err) ∧
        ¬x.Completes args ∧ x.Acceptable args) ∨
      ∃ unread, unread ≠ [] ∧
        r.roundTrip conn args writeError replyError x = ({ conn := some ⟨unread⟩ }, .panicked) ∧
        ¬x.Acceptable args := by
  cases x with
  | writeFails => exact .inr (.inl ⟨writeError, rfl, id, trivial⟩)
  | answered answer delivered =>
    have hreply := hwf (encodeCommand args)
    by_cases hvalue : ∃ v, reading (answer (encodeCommand args)) = .value v ∧
        (answer (encodeCommand args)).encode.length ≤ delivered
    · obtain ⟨v, hreading, hk⟩ := hvalue
      refine .inl ⟨v, answer, delivered, rfl, hreading, ?_, ⟨v, hreading, hk⟩, ?_⟩
      · unfold roundTrip
        simp only [hconn, nil_append, readReply_take_value hreply hreading hk, drop_eq_nil_of_le hk]
      · intro front hfront
        rw [hreading] at hfront
        cases hfront
    by_cases hrefused : ∃ front, reading (answer (encodeCommand args)) = .refused front ∧
        front.length ≤ delivered
    · obtain ⟨front, hreading, hk⟩ := hrefused
      obtain ⟨tail, htail, -, heq⟩ :=
        r.roundTrip_refused conn hconn args writeError replyError answer hreply hreading hk
      exact .inr (.inr ⟨tail, htail, heq, fun h => absurd (h front hreading) (by omega)⟩)
    · have hfailed : ¬Settled (readReply ((answer (encodeCommand args)).encode.take delivered)).1 :=
        fun h => (settled_readReply_take hreply h).elim hvalue hrefused
      refine .inr (.inl ?_)
      unfold roundTrip
      simp only [hconn, nil_append]
      generalize readReply ((answer (encodeCommand args)).encode.take delivered) = read at hfailed ⊢
      obtain ⟨out, left⟩ := read
      cases out with
      | failed err =>
        refine ⟨replyError err, rfl, hvalue, ?_⟩
        intro front hfront
        by_contra hk
        exact hrefused ⟨front, hfront, by omega⟩
      | value v => exact absurd trivial hfailed
      | panicked => exact absurd trivial hfailed

/-- What a step of the handshake can come to. -/
lemma handshake_cases {r : RedisBackend} (hconn : r.conn = some ⟨[]⟩) (needed : Bool)
    (args : List GoString) (writeError : RedisError) (replyError : ReplyError → RedisError)
    {x : Exchange} (hwf : x.WellFormed) :
    (r.handshake needed args writeError replyError x = ({ conn := some ⟨[]⟩ }, .value ()) ∧
        (needed = true → x.Completes args ∧ x.Acceptable args)) ∨
      (∃ err, r.handshake needed args writeError replyError x = (r.dropLocked, .failed err) ∧
        needed = true ∧ ¬x.Completes args ∧ x.Acceptable args) ∨
      ∃ unread, unread ≠ [] ∧
        r.handshake needed args writeError replyError x =
          ({ conn := some ⟨unread⟩ }, .panicked) ∧ needed = true ∧ ¬x.Acceptable args := by
  unfold handshake
  cases needed with
  | false =>
    refine .inl ⟨?_, nofun⟩
    rw [← hconn]
  | true =>
    simp only [hconn]
    rcases r.roundTrip_cases ⟨[]⟩ rfl args writeError replyError hwf with
      ⟨v, answer, delivered, -, -, heq, hok⟩ | ⟨err, heq, hok⟩ | ⟨unread, hne, heq, hbad⟩
    · rw [heq]
      exact .inl ⟨rfl, fun _ => hok⟩
    · rw [heq]
      exact .inr (.inl ⟨err, rfl, trivial, hok⟩)
    · rw [heq]
      exact .inr (.inr ⟨unread, hne, rfl, trivial, hbad⟩)

end RedisBackend

/-! ### One call -/

def NewConnectionAcceptable (cfg : Config) (args : List GoString) (env : Environment) : Prop :=
  let auth := RedisBackend.authArgs cfg
  let select := RedisBackend.selectArgs cfg
  (cfg.password ≠ [] → env.auth.Acceptable auth) ∧
    ((cfg.password ≠ [] → env.auth.Completes auth) →
      (cfg.db ≠ 0 → env.select.Acceptable select) ∧
        ((cfg.db ≠ 0 → env.select.Completes select) → env.command.Acceptable args))

/-- In the exchanges that take place during the call, nothing arrives that announces a length
which `make` refuses. -/
def Acceptable (cfg : Config) (r : RedisBackend) : Operation → Prop
  | .close => True
  | .exec args env =>
    env.cancelled = false →
      match r.conn with
      | some _ => env.command.Acceptable args
      | none => env.dialFails = false → NewConnectionAcceptable cfg args env

def IsReplyTo (args : List GoString) (x : Exchange) : Outcome RedisError Value → Prop
  | .value v => ∃ answer delivered, x = .answered answer delivered ∧
    reading (answer (encodeCommand args)) = .value v
  | .failed _ | .panicked => True

/-- A value that `exec` returns is the server's reply to the command of the call. -/
def OwnReply (cfg : Config) (r : RedisBackend) : Operation → Prop
  | .close => True
  | .exec args env => IsReplyTo args env.command (RedisBackend.exec cfg r args env).2

/-- The call returns the reply to its own command or none, and afterwards, with the mutex free, a
connection that is held has no unread or outstanding bytes. -/
def Attributed (cfg : Config) (r : RedisBackend) (op : Operation) : Prop :=
  OwnReply cfg r op ∧ (step cfg r op).Synchronised

def Operation.WellFormed : Operation → Prop
  | .close => True
  | .exec _ env => env.auth.WellFormed ∧ env.select.WellFormed ∧ env.command.WellFormed

variable {r : RedisBackend}

/-- What `ensureConnectedLocked` can come to. -/
lemma ensureConnectedLocked_cases (cfg : Config) (hr : r.Synchronised) {args : List GoString}
    {env : Environment} (hwf : (Operation.exec args env).WellFormed)
    (hcancelled : env.cancelled = false) :
    (r.ensureConnectedLocked cfg env = ({ conn := some ⟨[]⟩ }, .value ()) ∧
        (Acceptable cfg r (.exec args env) ↔ env.command.Acceptable args)) ∨
      (∃ r' err, r.ensureConnectedLocked cfg env = (r', .failed err) ∧ r'.Synchronised ∧
        Acceptable cfg r (.exec args env)) ∨
      ∃ unread, unread ≠ [] ∧
        r.ensureConnectedLocked cfg env = ({ conn := some ⟨unread⟩ }, .panicked) ∧
        ¬Acceptable cfg r (.exec args env) := by
  obtain ⟨hauth, hselect, -⟩ := hwf
  obtain ⟨conn⟩ := r
  unfold RedisBackend.ensureConnectedLocked
  simp only [Acceptable, hcancelled, true_implies]
  cases conn with
  | some conn =>
    obtain ⟨unread⟩ := conn
    have hunread : unread = [] := hr _ rfl
    subst hunread
    exact .inl ⟨rfl, Iff.rfl⟩
  | none =>
    cases hdial : env.dialFails with
    | true =>
      refine .inr (.inl ⟨_, _, rfl, hr, fun h => ?_⟩)
      cases h
    | false =>
      simp only [NewConnectionAcceptable]
      rcases RedisBackend.handshake_cases (r := ⟨some ⟨[]⟩⟩) rfl (cfg.password ≠ [])
          (RedisBackend.authArgs cfg) .authWrite .auth hauth with
        ⟨heq, hok⟩ | ⟨err, heq, hneeded, hok⟩ | ⟨unread, hne, heq, hneeded, hbad⟩
      · rw [heq]
        rw [decide_eq_true_iff] at hok
        rcases RedisBackend.handshake_cases (r := ⟨some ⟨[]⟩⟩) rfl (cfg.db ≠ 0)
            (RedisBackend.selectArgs cfg) .selectWrite .select hselect with
          ⟨heq', hok'⟩ | ⟨err, heq', hneeded', hok'⟩ | ⟨unread, hne, heq', hneeded', hbad'⟩
        · rw [decide_eq_true_iff] at hok'
          exact .inl ⟨heq', by tauto⟩
        · rw [decide_eq_true_iff] at hneeded'
          exact .inr (.inl ⟨_, err, heq', RedisBackend.dropLocked_synchronised _, by tauto⟩)
        · rw [decide_eq_true_iff] at hneeded'
          exact .inr (.inr ⟨unread, hne, heq', by tauto⟩)
      · rw [heq]
        rw [decide_eq_true_iff] at hneeded
        exact .inr (.inl ⟨_, err, rfl, RedisBackend.dropLocked_synchronised _, by tauto⟩)
      · rw [heq]
        rw [decide_eq_true_iff] at hneeded
        exact .inr (.inr ⟨unread, hne, rfl, by tauto⟩)

/-- What `exec` can come to. -/
lemma exec_cases (cfg : Config) (hr : r.Synchronised) {args : List GoString} {env : Environment}
    (hwf : (Operation.exec args env).WellFormed) :
    (∃ r' out, RedisBackend.exec cfg r args env = (r', out) ∧ r'.Synchronised ∧
        IsReplyTo args env.command out ∧ Acceptable cfg r (.exec args env)) ∨
      ∃ unread, unread ≠ [] ∧
        RedisBackend.exec cfg r args env = ({ conn := some ⟨unread⟩ }, .panicked) ∧
        ¬Acceptable cfg r (.exec args env) := by
  unfold RedisBackend.exec
  cases hcancelled : env.cancelled with
  | true =>
    refine .inl ⟨_, _, rfl, hr, trivial, ?_⟩
    intro h
    rw [hcancelled] at h
    cases h
  | false =>
    rcases ensureConnectedLocked_cases cfg hr hwf hcancelled with
      ⟨heq, hiff⟩ | ⟨r', err, heq, hsync, hok⟩ | ⟨unread, hne, heq, hbad⟩
    · rw [heq, hiff]
      rcases RedisBackend.roundTrip_cases ⟨some ⟨[]⟩⟩ ⟨[]⟩ rfl args .write .reply hwf.2.2 with
        ⟨v, answer, delivered, hx, hreading, heq', -, hok⟩ | ⟨err, heq', -, hok⟩ |
          ⟨unread, hne, heq', hbad⟩
      · refine .inl ⟨_, _, heq', ?_, ⟨answer, delivered, hx, hreading⟩, hok⟩
        rintro conn ⟨⟩
        rfl
      · exact .inl ⟨_, _, heq', RedisBackend.dropLocked_synchronised _, trivial, hok⟩
      · exact .inr ⟨unread, hne, heq', hbad⟩
    · rw [heq]
      exact .inl ⟨_, _, rfl, hsync, trivial, hok⟩
    · rw [heq]
      exact .inr ⟨unread, hne, rfl, hbad⟩

lemma attributed_iff_acceptable (cfg : Config) (hr : r.Synchronised) {op : Operation}
    (hwf : op.WellFormed) : Attributed cfg r op ↔ Acceptable cfg r op := by
  cases op with
  | close => exact iff_of_true ⟨trivial, r.dropLocked_synchronised⟩ trivial
  | exec args env =>
    simp only [Attributed, OwnReply, step]
    rcases exec_cases cfg hr hwf with ⟨r', out, heq, hsync, hown, hok⟩ | ⟨unread, hne, heq, hbad⟩
    · rw [heq]
      exact iff_of_true ⟨hown, hsync⟩ hok
    · rw [heq]
      exact iff_of_false (fun h => hne (h.2 _ rfl)) hbad

/-! ### Runs -/

/-- Along every sequence of calls to servers with well-formed replies, every value that `exec`
returns is the reply to its command, and no bytes are unread or outstanding on a connection that
is kept, exactly if nothing arrives that announces a length which `make` refuses. -/
theorem replies_attributed_iff (cfg : Config) (operations : List Operation)
    (hwf : ∀ op ∈ operations, op.WellFormed) :
    EveryStep (step cfg) (Attributed cfg) newRedisBackend operations ↔
      EveryStep (step cfg) (Acceptable cfg) newRedisBackend operations := by
  refine EveryStep.congr_of_known (P := RedisBackend.Synchronised) ?_ ?_ ?_
    (EveryStep.of_forall_mem hwf)
  · exact fun r op hr hop => attributed_iff_acceptable cfg hr hop
  · exact fun r op _ _ h => h.2
  · exact RedisBackend.dropLocked_synchronised newRedisBackend

def passwordConfig : Config where
  addr := []
  password := [0x70]
  db := 0

def okReply : Exchange := .answered (fun _ => .simple [0x4f, 0x4b]) 6

lemma okReply_wellFormed : okReply.WellFormed := by
  intro _
  rw [Reply.WellFormed]
  decide

def pingAnswered : Operation :=
  .exec [[0x50, 0x49, 0x4e, 0x47]]
    { cancelled := false, dialFails := false, auth := okReply, select := .writeFails
      command := okReply }

theorem ping_twice_attributed :
    EveryStep (step passwordConfig) (Attributed passwordConfig) newRedisBackend
      [pingAnswered, pingAnswered] := by
  refine (replies_attributed_iff passwordConfig [pingAnswered, pingAnswered] ?_).mpr ?_
  · intro op hop
    have heq : op = pingAnswered := by simpa using hop
    rw [heq]
    exact ⟨okReply_wellFormed, trivial, okReply_wellFormed⟩
  · have hok : ∀ args, okReply.Acceptable args := fun _ _ h => by cases h
    exact ⟨fun _ _ => ⟨fun _ => hok _, fun _ => ⟨fun h => absurd rfl h, fun _ => hok _⟩⟩,
      fun _ => hok _, trivial⟩

def plainConfig : Config where
  addr := []
  password := []
  db := 0

def dialed (x : Exchange) : Environment where
  cancelled := false
  dialFails := false
  auth := .writeFails
  select := .writeFails
  command := x

def oldLine : GoString := [0x2b, 0x6f, 0x6c, 0x64, 0x0d, 0x0a]

/-- A value that starts with such a line. -/
@[irreducible] def oversizedData : GoString := oldLine ++ List.replicate maxAlloc 0

lemma reading_oversized :
    reading (.bulk 0 oversizedData) = .refused (bulkHeader 0 oversizedData) := by
  have hlength : oversizedData.length = maxAlloc + 6 := by
    rw [oversizedData, length_append, length_replicate]
    exact Nat.add_comm 6 maxAlloc
  have hfew : ¬2 ^ 63 ≤ maxAlloc + 6 := by decide
  have hmany : maxAlloc < maxAlloc + 6 + 2 := by omega
  rw [reading, hlength, if_neg hfew, if_pos hmany]

def oversizedReply : Exchange :=
  .answered (fun _ => .bulk 0 oversizedData) (bulkHeader 0 oversizedData).length

lemma exec_oversizedReply (args : List GoString) :
    RedisBackend.exec plainConfig newRedisBackend args (dialed oversizedReply) =
      ({ conn := some ⟨oversizedData ++ crlf⟩ }, .panicked) := by
  obtain ⟨tail, -, heq, hround⟩ := RedisBackend.roundTrip_refused ⟨some ⟨[]⟩⟩ ⟨[]⟩ rfl args
    .write .reply (fun _ => .bulk 0 oversizedData) trivial reading_oversized (Nat.le_refl _)
  have htail : tail = oversizedData ++ crlf := (append_cancel_left heq).symm
  have hnew : ∀ x, RedisBackend.exec plainConfig newRedisBackend args (dialed x) =
      RedisBackend.roundTrip { conn := some ⟨[]⟩ } ⟨[]⟩ args .write .reply x :=
    fun _ => rfl
  rw [hnew, oversizedReply, hround, htail]

lemma exec_afterOversized (args : List GoString) :
    (RedisBackend.exec plainConfig { conn := some ⟨oversizedData ++ crlf⟩ } args
      (dialed okReply)).2 = .value (.string [0x6f, 0x6c, 0x64]) := by
  have hheld : ∀ unread x, RedisBackend.exec plainConfig { conn := some ⟨unread⟩ } args (dialed x) =
      RedisBackend.roundTrip { conn := some ⟨unread⟩ } ⟨unread⟩ args .write .reply x :=
    fun _ _ => rfl
  have htake : ∀ rest : GoString, (oversizedData ++ crlf ++ rest).take 6 = oldLine := by
    intro rest
    rw [oversizedData, append_assoc, append_assoc]
    exact take_left' rfl
  have hread : readReply oldLine = (.value (.string [0x6f, 0x6c, 0x64]), []) := rfl
  rw [hheld, okReply, RedisBackend.roundTrip]
  simp only [htake, hread]

def getThenPing : List Operation :=
  [.exec [[0x47, 0x45, 0x54], [0x61]] (dialed oversizedReply),
    .exec [[0x50, 0x49, 0x4e, 0x47]] (dialed okReply)]

theorem oversized_reply_shifts_replies : (∀ op ∈ getThenPing, op.WellFormed) ∧
      ¬ EveryStep (step plainConfig) (OwnReply plainConfig) newRedisBackend getThenPing ∧
      ¬ EveryStep (step plainConfig) (Attributed plainConfig) newRedisBackend getThenPing := by
  have hwrong : ¬ EveryStep (step plainConfig) (OwnReply plainConfig) newRedisBackend
      getThenPing := by
    rintro ⟨-, hping, -⟩
    rw [step, exec_oversizedReply, OwnReply, exec_afterOversized] at hping
    obtain ⟨answer, delivered, hanswer, hreading⟩ := hping
    cases hanswer
    cases hreading
  refine ⟨?_, hwrong, fun h => hwrong (h.mono fun _ _ ha => ha.1)⟩
  intro op hop
  rcases List.mem_cons.mp hop with rfl | hop
  · exact ⟨trivial, trivial, fun _ => trivial⟩
  · rw [List.mem_singleton.mp hop]
    exact ⟨trivial, trivial, okReply_wellFormed⟩

end Symkernel.Redis
