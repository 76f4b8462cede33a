import Symkernel.Library.Resp

/-!
# The Redis client

`RedisBackend` of `internal/cache/distributed` on the bytes of its connection: `encodeCommand`,
`readReply`, and `exec` with the handshake of a new connection. Every call runs under the mutex of
the backend, so calls follow one another. What the network and the server do during a call is an
input; the deadlines are not modelled, only that a read can fail.
-/

namespace Symkernel.Redis

open Library

def bulkString (arg : GoString) : GoString :=
  [0x24] ++ itoa arg.length ++ [0x0d, 0x0a] ++ arg ++ [0x0d, 0x0a]

def encodeCommand (args : List GoString) : GoString :=
  [0x2a] ++ itoa args.length ++ [0x0d, 0x0a] ++ args.flatMap bulkString

inductive Value where
  | string (s : GoString)
  | int64 (n : Int)
  | bytes (b : GoString)
  | nil
  | array (elems : List Value)

inductive ReplyError where
  | readReply
  | malformed (line : GoString)
  | emptyReply
  | server (message : GoString)
  | badInteger (payload : GoString)
  | badBulkLength (payload : GoString)
  | readBulk
  | badArrayLength (payload : GoString)
  | unknownTag (tag : UInt8)

def ReplyError.context : ReplyError → String
  | .readReply => "distributed cache: read reply: "
  | .malformed _ => "distributed cache: malformed reply "
  | .emptyReply => "distributed cache: empty reply"
  | .server _ => ""
  | .badInteger _ => "distributed cache: bad integer "
  | .badBulkLength _ => "distributed cache: bad bulk length "
  | .readBulk => "distributed cache: read bulk: "
  | .badArrayLength _ => "distributed cache: bad array length "
  | .unknownTag _ => "distributed cache: unknown reply tag "

/-- What comes of a call: it returns a value or an error, or it panics. -/
inductive Outcome (ε α : Type) where
  | value (a : α)
  | failed (err : ε)
  | panicked

/-- `ReadString('\n')`; `none` if the bytes end before the line does. -/
def readLine : GoString → Option (GoString × GoString)
  | [] => none
  | b :: bs => if b = 0x0a then some ([b], bs) else (readLine bs).map fun r => (b :: r.1, r.2)

/-- The largest allocation of the Go runtime on 64-bit platforms, in bytes. -/
def maxAlloc : Nat := 2 ^ 48

def makeAccepts (elemSize : Nat) (len : Int) : Bool :=
  decide (0 ≤ len) && decide (len * elemSize ≤ maxAlloc)

def addInt64 (a b : Int) : Int := (a + b).bmod (2 ^ 64)

/-- A bulk string of length `n`; what stands where the line should end is not looked at. -/
def readBulk (n : Int) (bs : GoString) : Outcome ReplyError Value × GoString :=
  let size := addInt64 n 2
  if makeAccepts 1 size = false then (.panicked, bs)
  else if bs.length < size.toNat then (.failed .readBulk, [])
  else (.value (.bytes (bs.take n.toNat)), bs.drop size.toNat)

def readElems (read : GoString → Outcome ReplyError Value × GoString) :
    Nat → GoString → List Value → Outcome ReplyError Value × GoString
  | 0, bs, arr => (.value (.array arr), bs)
  | n + 1, bs, arr =>
    match read bs with
    | (.value elem, rest) => readElems read n rest (arr ++ [elem])
    | (.failed err, rest) => (.failed err, rest)
    | (.panicked, rest) => (.panicked, rest)

/-- `readReply` from the line without its end on; `read` reads an element of an array. An
interface value takes 16 bytes. -/
def readPayload (read : GoString → Outcome ReplyError Value × GoString)
    (payload bs : GoString) : Outcome ReplyError Value × GoString :=
  match payload with
  | [] => (.failed .emptyReply, bs)
  | tag :: text =>
    if tag = 0x2b then (.value (.string text), bs)
    else if tag = 0x2d then (.failed (.server text), bs)
    else if tag = 0x3a then
      match parseInt64 text with
      | none => (.failed (.badInteger payload), bs)
      | some n => (.value (.int64 n), bs)
    else if tag = 0x24 then
      match parseInt64 text with
      | none => (.failed (.badBulkLength payload), bs)
      | some n => if n < 0 then (.value .nil, bs) else readBulk n bs
    else if tag = 0x2a then
      match parseInt64 text with
      | none => (.failed (.badArrayLength payload), bs)
      | some n =>
        if n < 0 then (.value .nil, bs)
        else if makeAccepts 16 n = false then (.panicked, bs)
        else readElems read n.toNat bs []
    else (.failed (.unknownTag tag), bs)

/-- `readReply` on the bytes that arrive before a read fails, with the bytes that it leaves. -/
def readReplyFrom : Nat → GoString → Outcome ReplyError Value × GoString
  | 0, bs => (.failed .readReply, bs)
  | fuel + 1, bs =>
    match readLine bs with
    | none => (.failed .readReply, [])
    | some (text, rest) =>
      if text.length < 3 ∨ text[text.length - 2]? ≠ some 0x0d ∨
          text[text.length - 1]? ≠ some 0x0a then
        (.failed (.malformed text), rest)
      else readPayload (readReplyFrom fuel) (text.take (text.length - 2)) rest

/-- Every reply takes a byte at least, so replies are not nested deeper than there are bytes. -/
def readReply (bs : GoString) : Outcome ReplyError Value × GoString :=
  readReplyFrom (bs.length + 1) bs

structure Config where
  addr : GoString
  password : GoString
  db : Int

/-- The bytes that the server has sent or will send in answer to the commands it has, and that the
client has not read. -/
structure Connection where
  unread : GoString

structure RedisBackend where
  conn : Option Connection

inductive RedisError where
  | contextDone
  | dial (addr : GoString)
  | authWrite
  | auth (err : ReplyError)
  | selectWrite
  | select (err : ReplyError)
  | write
  | reply (err : ReplyError)

def RedisError.context : RedisError → String
  | .contextDone | .reply _ => ""
  | .dial _ => "distributed cache: dial "
  | .authWrite => "distributed cache: redis auth write: "
  | .auth _ => "distributed cache: redis auth: "
  | .selectWrite => "distributed cache: redis select write: "
  | .select _ => "distributed cache: redis select: "
  | .write => "distributed cache: redis write: "

/-- What happens to one command: it cannot be written, or the server has all of it and answers it,
and of what is unread then `delivered` bytes arrive before a read fails. -/
inductive Exchange where
  | writeFails
  | answered (answer : GoString → Resp.Reply) (delivered : Nat)

structure Environment where
  cancelled : Bool
  dialFails : Bool
  auth : Exchange
  select : Exchange
  command : Exchange

namespace RedisBackend

def dropLocked (_ : RedisBackend) : RedisBackend := { conn := none }

/-- The write of a command and the read of its reply. An error drops the connection; a panic
leaves it. -/
def roundTrip (r : RedisBackend) (conn : Connection) (args : List GoString)
    (writeError : RedisError) (replyError : ReplyError → RedisError) :
    Exchange → RedisBackend × Outcome RedisError Value
  | .writeFails => (r.dropLocked, .failed writeError)
  | .answered answer delivered =>
    let unread := conn.unread ++ (answer (encodeCommand args)).encode
    let left (rest : GoString) : RedisBackend := { conn := some ⟨rest ++ unread.drop delivered⟩ }
    match readReply (unread.take delivered) with
    | (.value v, rest) => (left rest, .value v)
    | (.failed err, _) => (r.dropLocked, .failed (replyError err))
    | (.panicked, rest) => (left rest, .panicked)

/-- A step of the handshake, if it is needed; its reply is dropped. -/
def handshake (r : RedisBackend) (needed : Bool) (args : List GoString) (writeError : RedisError)
    (replyError : ReplyError → RedisError) (x : Exchange) :
    RedisBackend × Outcome RedisError Unit :=
  match needed, r.conn with
  | true, some conn =>
    match r.roundTrip conn args writeError replyError x with
    | (r, .value _) => (r, .value ())
    | (r, .failed err) => (r, .failed err)
    | (r, .panicked) => (r, .panicked)
  | _, _ => (r, .value ())

def authArgs (cfg : Config) : List GoString := [[0x41, 0x55, 0x54, 0x48], cfg.password]

def selectArgs (cfg : Config) : List GoString :=
  [[0x53, 0x45, 0x4c, 0x45, 0x43, 0x54], itoa cfg.db]

def ensureConnectedLocked (cfg : Config) (r : RedisBackend) (env : Environment) :
    RedisBackend × Outcome RedisError Unit :=
  match r.conn with
  | some _ => (r, .value ())
  | none =>
    if env.dialFails then (r, .failed (.dial cfg.addr))
    else
      let r : RedisBackend := { conn := some ⟨[]⟩ }
      match r.handshake (cfg.password ≠ []) (authArgs cfg) .authWrite .auth env.auth with
      | (r, .value _) => r.handshake (cfg.db ≠ 0) (selectArgs cfg) .selectWrite .select env.select
      | (r, .failed err) => (r, .failed err)
      | (r, .panicked) => (r, .panicked)

def exec (cfg : Config) (r : RedisBackend) (args : List GoString) (env : Environment) :
    RedisBackend × Outcome RedisError Value :=
  if env.cancelled then (r, .failed .contextDone)
  else
    match r.ensureConnectedLocked cfg env with
    | (r, .failed err) => (r, .failed err)
    | (r, .panicked) => (r, .panicked)
    | (r, .value _) =>
      match r.conn with
      | none => (r, .panicked)
      | some conn => r.roundTrip conn args .write .reply env.command

end RedisBackend

inductive Operation where
  | exec (args : List GoString) (env : Environment)
  | close

def newRedisBackend : RedisBackend where
  conn := none

def step (cfg : Config) (r : RedisBackend) : Operation → RedisBackend
  | .exec args env => (RedisBackend.exec cfg r args env).1
  | .close => r.dropLocked

end Symkernel.Redis
