import Mathlib

/-!
# A coordination node

The state machine of one cluster member: election timers, term-gated voting, heartbeats
and the leader's quorum check, as `internal/distributed/coordination` runs them under the
node's mutex. One call of `tick` consumes one random draw, which is used only if an
election starts. Terms and tick numbers are `uint64` and wrap; the `int` timers are
unbounded integers. A Go map is a finite set or a partial function, `none` is the nil map.
-/

namespace Symkernel.Coordination

inductive Role where
  | follower
  | candidate
  | leader
  deriving DecidableEq, Repr

inductive MessageType where
  | requestVote
  | requestVoteResp
  | appendEntries
  | appendEntriesResp
  deriving DecidableEq, Repr

/-- The envelope exchanged between nodes; unused fields keep Go's zero values. -/
structure Message where
  type : MessageType
  term : Nat
  fromId : String
  toId : String
  voteGranted : Bool := false
  success : Bool := false
  leaderID : String := ""
  deriving DecidableEq, Repr

structure NodeConfig where
  id : String
  peers : List String
  heartbeatTicks : Int := 0
  electionTicksMin : Int := 0
  electionTicksMax : Int := 0
  quorumLossTicks : Int := 0
  quorumAckTicks : Int := 0
  deriving DecidableEq, Repr

def defaultHeartbeatTicks : Int := 1
def defaultElectionMin : Int := 8
def defaultElectionMax : Int := 15
def defaultQuorumLossTicks : Int := 5
def defaultQuorumAckTicks : Int := 3

def uint64Size : Nat := 2 ^ 64

/-- History variables. They are not part of the source and no handler reads them: every
vote the node has cast, as term and candidate, every term it was promoted in, and every
term whose leadership it gave up on quorum loss. -/
structure History where
  ballots : List (Nat × String) := []
  elected : List Nat := []
  resigned : List Nat := []
  deriving DecidableEq, Repr

structure Node where
  cfg : NodeConfig
  id : String
  peers : List String
  members : List String
  role : Role
  currentTerm : Nat
  votedFor : String
  leaderID : String
  electionTimeout : Int
  electionElapsed : Int
  votes : Option (Finset String)
  heartbeatElapsed : Int
  acks : Option (String → Option Nat)
  quorumMissTicks : Int
  rrIndex : Int
  nodeLoad : String → Nat
  tick : Nat
  inbox : List Message
  outbox : List Message
  /-- A handler assigned into a nil map, where Go panics. -/
  panicked : Bool
  history : History

def normalizeConfig (cfg : NodeConfig) : NodeConfig :=
  let electionTicksMin :=
    if cfg.electionTicksMin ≤ 0 then defaultElectionMin else cfg.electionTicksMin
  { cfg with
    heartbeatTicks := if cfg.heartbeatTicks ≤ 0 then defaultHeartbeatTicks else cfg.heartbeatTicks
    electionTicksMin := electionTicksMin
    electionTicksMax :=
      if cfg.electionTicksMax ≤ electionTicksMin then
        electionTicksMin + (defaultElectionMax - defaultElectionMin)
      else cfg.electionTicksMax
    quorumLossTicks :=
      if cfg.quorumLossTicks ≤ 0 then defaultQuorumLossTicks else cfg.quorumLossTicks
    quorumAckTicks :=
      if cfg.quorumAckTicks ≤ 0 then defaultQuorumAckTicks else cfg.quorumAckTicks }

/-- `draw` stands for the generator; `IntN(span)` is a value in `[0, span)`. -/
def pickTimeout (cfg : NodeConfig) (draw : Nat) : Int :=
  let lo := cfg.electionTicksMin
  let hi := cfg.electionTicksMax
  if hi ≤ lo then lo else lo + (draw : Int) % (hi - lo)

def newNode (config : NodeConfig) (draw : Nat) : Node :=
  let cfg := normalizeConfig config
  let members := (cfg.id :: cfg.peers).insertionSort (· ≤ ·)
  { cfg, id := cfg.id, peers := cfg.peers, members, role := .follower, currentTerm := 0
    votedFor := "", leaderID := "", electionTimeout := pickTimeout cfg draw
    electionElapsed := 0, votes := none, heartbeatElapsed := 0, acks := none
    quorumMissTicks := 0, rrIndex := (members.length : Int) - 1, nodeLoad := fun _ => 0
    tick := 0, inbox := [], outbox := [], panicked := false, history := {} }

def majorityOf (n : Nat) : Nat := n / 2 + 1

namespace Node

def receive (n : Node) (m : Message) : Node :=
  { n with inbox := n.inbox ++ [m] }

def sendLocked (n : Node) (m : Message) : Node :=
  { n with outbox := n.outbox ++ [m] }

def sendPeersLocked (n : Node) (msg : String → Message) : Node :=
  n.peers.foldl (fun n peer => n.sendLocked (msg peer)) n

def becomeLeaderLocked (n : Node) : Node :=
  { n with
    role := .leader
    leaderID := n.id
    votedFor := n.id
    acks := some (fun peer => if peer = n.id then some n.tick else none)
    quorumMissTicks := 0
    heartbeatElapsed := n.cfg.heartbeatTicks
    history := { n.history with elected := n.history.elected ++ [n.currentTerm] } }

def becomeFollowerLocked (n : Node) (term : Nat) : Node :=
  { n with
    role := .follower
    currentTerm := term
    leaderID := ""
    votedFor := ""
    votes := none
    acks := none
    electionElapsed := 0 }

def candidacy (n : Node) (draw : Nat) : Node :=
  let term := (n.currentTerm + 1) % uint64Size
  { n with
    role := .candidate
    currentTerm := term
    votedFor := n.id
    leaderID := ""
    votes := some {n.id}
    electionTimeout := pickTimeout n.cfg draw
    electionElapsed := 0
    history := { n.history with ballots := n.history.ballots ++ [(term, n.id)] } }

def promoteOnMajority (n : Node) : Node :=
  if majorityOf n.members.length ≤ (n.votes.getD ∅).card then n.becomeLeaderLocked else n

def startElectionLocked (n : Node) (draw : Nat) : Node :=
  let n := n.candidacy draw
  let n := n.sendPeersLocked fun peer =>
    { type := .requestVote, term := n.currentTerm, fromId := n.id, toId := peer }
  n.promoteOnMajority

def adoptRequestTerm (n : Node) (m : Message) : Node :=
  if n.currentTerm < m.term then
    { n with currentTerm := m.term, role := .follower, votedFor := "", leaderID := "" }
  else n

def grants (n : Node) (m : Message) : Bool :=
  m.term = n.currentTerm && (n.votedFor = "" || n.votedFor = m.fromId)

def handleRequestVoteLocked (n : Node) (m : Message) : Node :=
  let n := n.adoptRequestTerm m
  let granted := n.grants m
  let n :=
    if granted then
      { n with
        votedFor := m.fromId
        leaderID := ""
        electionElapsed := 0
        history := { n.history with ballots := n.history.ballots ++ [(n.currentTerm, m.fromId)] } }
    else n
  n.sendLocked
    { type := .requestVoteResp, term := n.currentTerm, fromId := n.id, toId := m.fromId
      voteGranted := granted }

def handleRequestVoteRespLocked (n : Node) (m : Message) : Node :=
  if n.currentTerm < m.term then n.becomeFollowerLocked m.term
  else if n.role ≠ .candidate || m.term ≠ n.currentTerm || !m.voteGranted then n
  else
    match n.votes with
    | none => { n with panicked := true }
    | some votes => { n with votes := some (insert m.fromId votes) }.promoteOnMajority

def handleAppendEntriesLocked (n : Node) (m : Message) : Node :=
  if m.term < n.currentTerm then
    n.sendLocked
      { type := .appendEntriesResp, term := n.currentTerm, fromId := n.id, toId := m.fromId }
  else
    let n := if n.currentTerm < m.term then { n with currentTerm := m.term, votedFor := "" } else n
    let n := { n with role := .follower, leaderID := m.leaderID, electionElapsed := 0 }
    n.sendLocked
      { type := .appendEntriesResp, term := n.currentTerm, fromId := n.id, toId := m.leaderID
        success := true }

def handleAppendEntriesRespLocked (n : Node) (m : Message) : Node :=
  if n.currentTerm < m.term then n.becomeFollowerLocked m.term
  else if n.role ≠ .leader || m.term ≠ n.currentTerm then n
  else if m.success then
    match n.acks with
    | none => { n with panicked := true }
    | some acks => { n with acks := some (Function.update acks m.fromId (some n.tick)) }
  else n

def handleLocked (n : Node) (m : Message) : Node :=
  match m.type with
  | .requestVote => n.handleRequestVoteLocked m
  | .requestVoteResp => n.handleRequestVoteRespLocked m
  | .appendEntries => n.handleAppendEntriesLocked m
  | .appendEntriesResp => n.handleAppendEntriesRespLocked m

def broadcastHeartbeatLocked (n : Node) : Node :=
  n.sendPeersLocked fun peer =>
    { type := .appendEntries, term := n.currentTerm, fromId := n.id, toId := peer
      leaderID := n.id }

/-- The acknowledgement of `peer` is inside the freshness window; the tick difference is
taken in `uint64`. -/
def freshAck (n : Node) (peer : String) : Bool :=
  match n.acks.bind (· peer) with
  | none => false
  | some t => ((n.tick + uint64Size - t) % uint64Size : Nat) ≤ n.cfg.quorumAckTicks

def hasQuorumLocked (n : Node) : Bool :=
  majorityOf n.members.length ≤ 1 + n.peers.countP n.freshAck

def leaderHeartbeat (n : Node) : Node :=
  let n := { n with heartbeatElapsed := n.heartbeatElapsed + 1 }
  if n.cfg.heartbeatTicks ≤ n.heartbeatElapsed then
    { n.broadcastHeartbeatLocked with heartbeatElapsed := 0 }
  else n

def losesQuorum (n : Node) : Bool :=
  !n.hasQuorumLocked && n.cfg.quorumLossTicks ≤ n.quorumMissTicks + 1

def leaderQuorumCheck (n : Node) : Node :=
  if n.hasQuorumLocked then { n with quorumMissTicks := 0 }
  else
    let n := { n with quorumMissTicks := n.quorumMissTicks + 1 }
    if n.cfg.quorumLossTicks ≤ n.quorumMissTicks then
      { n with history := { n.history with resigned := n.history.resigned ++ [n.currentTerm] } }
        |>.becomeFollowerLocked n.currentTerm
    else n

def stepTimersLocked (n : Node) (draw : Nat) : Node :=
  match n.role with
  | .leader => n.leaderHeartbeat.leaderQuorumCheck
  | _ =>
    let n := { n with electionElapsed := n.electionElapsed + 1 }
    if n.electionTimeout ≤ n.electionElapsed then n.startElectionLocked draw else n

def drainInbox (n : Node) : Node :=
  n.inbox.foldl handleLocked { n with tick := (n.tick + 1) % uint64Size, inbox := [] }

def tickNode (n : Node) (draw : Nat) : Node × List Message :=
  let n := n.drainInbox.stepTimersLocked draw
  ({ n with outbox := [] }, n.outbox)

def assign (n : Node) : Node × Option String :=
  if n.role ≠ .leader then (n, none)
  else
    let rrIndex := (n.rrIndex + 1) % n.members.length
    let target := n.members.getD rrIndex.toNat ""
    ({ n with
       rrIndex
       nodeLoad := Function.update n.nodeLoad target (n.nodeLoad target + 1) }, some target)

end Node

end Symkernel.Coordination
