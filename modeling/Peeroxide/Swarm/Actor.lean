import Peeroxide.Swarm.PeerInfo
import Peeroxide.Dht.Router
import Peeroxide.Lib.Machine

/-!
# The swarm actor

One task that joins topics, dials the peers found on them, answers the handshakes of others, and keeps a slot for each
connection. The state has the actor's own tables, and what it has spawned and not heard of again: dials, retry timers,
tasks that establish the server side of a connection, their reports of failure, and the channel to the application. Every
attempt to connect has a number; the source has none, and nothing the actor does depends on it.
-/

namespace Peeroxide.Swarm
open Lib Dht

structure TopicState where
  isServer : Bool
  isClient : Bool
  refreshed : Bool
  deriving DecidableEq

structure ActorConfig where
  maxPeers : Nat := 64
  maxParallel : Nat := 3
  relayThrough : Option PublicKey := none
  deriving DecidableEq

structure ConnectionInfo where
  isInitiator : Bool
  /-- The attempt that took the slot. -/
  attempt : Nat
  deriving DecidableEq

/-- What is kept between a handshake and the moment its punch lands. -/
structure InFlightHolepunch where
  remotePk : PublicKey
  round : UInt64
  /-- The puncher has been handed to a task of its own. -/
  punching : Bool
  deriving DecidableEq

structure SwarmConnection where
  remotePublicKey : PublicKey
  isInitiator : Bool
  topics : List Topic
  attempt : Nat
  deriving DecidableEq

structure Dial where
  publicKey : PublicKey
  relayAddresses : List Ipv4Peer
  attempt : Nat
  deriving DecidableEq

/-- A spawned task that sleeps, and then reports the peer as found. -/
structure RetryTimer where
  publicKey : PublicKey
  relayAddresses : List Ipv4Peer
  topic : Topic
  delay : Nat
  deriving DecidableEq

/-- A spawned task that establishes the server side of a connection. -/
structure ServerTask where
  remotePk : PublicKey
  attempt : Nat
  deriving DecidableEq

structure ConnChannel where
  queued : List SwarmConnection := []
  /-- The application has not dropped its end. -/
  open_ : Bool := true
  /-- Everything that was put in. -/
  delivered : List SwarmConnection := []
  deriving DecidableEq

namespace ConnChannel

def CAPACITY : Nat := 64

def hasRoom (c : ConnChannel) : Bool := c.open_ && c.queued.length < CAPACITY

def push (c : ConnChannel) (conn : SwarmConnection) : ConnChannel :=
  { c with queued := c.queued ++ [conn], delivered := c.delivered ++ [conn] }

/-- A connection that does not fit is dropped. -/
def trySend (c : ConnChannel) (conn : SwarmConnection) : ConnChannel := if c.hasRoom then c.push conn else c

end ConnChannel

structure SwarmActor where
  publicKey : PublicKey
  config : ActorConfig
  topics : AList fun _ : Topic => TopicState := ∅
  peers : AList fun _ : PublicKey => PeerInfo := ∅
  connections : AList fun _ : PublicKey => ConnectionInfo := ∅
  queue : List PublicKey := []
  serverRegistered : Bool := false
  activeConnects : Nat := 0
  flushWaiters : List Nat := []
  connects : AList fun _ : UInt64 => InFlightHolepunch := ∅
  pendingHandshakes : AList fun _ : PublicKey => UInt64 := ∅
  nextHolepunchId : UInt64 := 0
  handshakeReplies : HandshakeReplyCache :=
    .new HandshakeReplyCache.HANDSHAKE_REPLY_TTL HandshakeReplyCache.HANDSHAKE_REPLY_CACHE_CAPACITY
  dials : List Dial := []
  timers : List RetryTimer := []
  serverTasks : List ServerTask := []
  /-- The reports of tasks that have failed. -/
  failures : List ServerTask := []
  channel : ConnChannel := {}
  /-- The flushes that were answered. -/
  flushed : List Nat := []
  nextAttempt : Nat := 0

/-! ## Handshakes -/

inductive ServerPath where
  | relay
  | dial (advertiseHolepunch : Bool)
  | holepunch
  | listen
  deriving DecidableEq

def selectServerPath (relayThrough : Bool) (serverFirewall clientFirewall : UInt64) (forwarded : Bool) : ServerPath :=
  let serverFirewalled : Bool := serverFirewall = Firewall.consistent.code || serverFirewall = Firewall.random.code
  if relayThrough then .relay
  else if clientFirewall = Firewall.reachable.code ∨ !forwarded then .dial serverFirewalled
  else if serverFirewalled then .holepunch
  else .listen

/-- How the set-up of a passive hole-punch ends; an id is taken before the last step. -/
inductive Setup where
  | failed
  | failedWithId
  | staged
  deriving DecidableEq

/-- A handshake that arrives, with what the Noise responder and the node make of it. -/
structure Handshake where
  noise : ByteVec
  mode : UInt64
  peerAddress : Option Ipv4Peer
  /-- What is in the client's message, if it is accepted. -/
  payload : Option NoisePayload
  /-- The node's own firewall. -/
  firewall : UInt64
  setup : Setup
  /-- The Noise reply, if there is one. -/
  reply : Option ByteVec
  /-- The client's key, when the handshake is finished. -/
  remotePk : Option PublicKey
  deriving DecidableEq

def encodeServerHandshakeReply (inboundMode : UInt64) (peerAddress : Option Ipv4Peer) (noiseReply : ByteVec) :
    HandshakeMessage :=
  if inboundMode = MODE_FROM_RELAY ∨ inboundMode = MODE_FROM_SECOND_RELAY then
    ⟨MODE_FROM_SERVER, noiseReply, peerAddress, none⟩
  else ⟨MODE_REPLY, noiseReply, none, none⟩

/-! ## Events -/

/-- What happens next; a task, timer or report is named by its place in its list. -/
inductive SwarmEvent where
  | join (topic : Topic) (server client : Bool)
  | leave (topic : Topic)
  | flush (waiter : Nat)
  | peerFound (publicKey : PublicKey) (relayAddresses : List Ipv4Peer) (topic : Topic)
  | refreshComplete (topic : Topic)
  | retry (i : Nat)
  /-- The result of a dial is handled. -/
  | connectResult (now i : Nat) (ok : Bool) (draw : Nat × Nat × Nat)
  | handshake (now : Nat) (m : Handshake)
  | peerHolepunch (id : UInt64) (payload : Option (UInt64 × Bool))
  | punched (id : UInt64)
  | abort (id : UInt64)
  | established (i : Nat)
  | taskFailed (i : Nat)
  /-- A report is handled. -/
  | serverFailure (i : Nat)
  | replySweep (now : Nat)
  /-- The application takes a connection. -/
  | receive
  /-- The application drops its end of the channel. -/
  | hangUp
  deriving DecidableEq

namespace SwarmActor

def new (publicKey : PublicKey) (config : ActorConfig) : SwarmActor := { publicKey, config }

/-! ## Commands -/

/-- A join of a topic that is joined already changes nothing. -/
def doJoin (s : SwarmActor) (topic : Topic) (server client : Bool) : SwarmActor :=
  if topic ∈ s.topics then s
  else
    { s with
      serverRegistered := s.serverRegistered || server
      topics := s.topics.insert topic ⟨server, client, false⟩ }

def doLeave (s : SwarmActor) (topic : Topic) : SwarmActor :=
  match s.topics.lookup topic with
  | none => s
  | some state =>
    let topics := s.topics.erase topic
    { s with
      topics := topics
      peers := Assoc.retainMap (fun _ info => some { info with topics := info.topics.filter (· ≠ topic) }) s.peers
      serverRegistered :=
        if state.isServer && s.serverRegistered then topics.entries.any (·.2.isServer) else s.serverRegistered }

def allTopicsRefreshed (s : SwarmActor) : Bool := s.topics.entries ≠ [] && s.topics.entries.all (·.2.refreshed)

def handleFlush (s : SwarmActor) (waiter : Nat) : SwarmActor :=
  if s.allTopicsRefreshed then { s with flushed := s.flushed ++ [waiter] }
  else { s with flushWaiters := s.flushWaiters ++ [waiter] }

def checkFlushWaiters (s : SwarmActor) : SwarmActor :=
  if s.allTopicsRefreshed then { s with flushed := s.flushed ++ s.flushWaiters, flushWaiters := [] } else s

/-! ## Dialling -/

/-- What a peer that is found again adds to what is known of it. -/
def foundInfo (s : SwarmActor) (publicKey : PublicKey) (relayAddresses : List Ipv4Peer) (topic : Topic) : PeerInfo :=
  let info := (s.peers.lookup publicKey).getD { publicKey, relayAddresses }
  let info := if relayAddresses = [] then info else { info with relayAddresses := relayAddresses }
  if topic ∈ info.topics then info else { info with topics := info.topics ++ [topic] }

def canQueue (info : PeerInfo) : Bool := !info.queued && !info.connecting && !info.banned && !info.waiting

/-- A peer that is found is put into the queue, unless it is there, is being dialled, or waits. -/
def peerFound (s : SwarmActor) (publicKey : PublicKey) (relayAddresses : List Ipv4Peer) (topic : Topic) : SwarmActor :=
  if publicKey = s.publicKey ∨ publicKey ∈ s.connections ∨ s.config.maxPeers ≤ s.connections.entries.length then s
  else
    let info := s.foundInfo publicKey relayAddresses topic
    if canQueue info then
      { s with
        peers := s.peers.insert publicKey { info with queued := true, priority := info.getPriority }
        queue := s.queue ++ [publicKey] }
    else { s with peers := s.peers.insert publicKey info }

def priorityOf (s : SwarmActor) (publicKey : PublicKey) : Nat :=
  ((s.peers.lookup publicKey).elim .veryLow (·.priority)).rank

/-- The queue by descending priority; peers of one priority stay in their order. -/
def sortedQueue (s : SwarmActor) : List PublicKey := s.queue.insertionSort fun a b => s.priorityOf b ≤ s.priorityOf a

def dialNext (s : SwarmActor) : SwarmActor :=
  match s.sortedQueue with
  | [] => s
  | pk :: queue =>
    { s with
      queue := queue
      peers := Assoc.modify s.peers pk fun info =>
        { info with queued := false, connecting := true, attempts := info.attempts + 1 }
      activeConnects := s.activeConnects + 1
      dials := s.dials ++ [⟨pk, (s.peers.lookup pk).elim [] (·.relayAddresses), s.nextAttempt⟩]
      nextAttempt := s.nextAttempt + 1 }

def attemptConnections.loop : Nat → SwarmActor → SwarmActor
  | 0, s => s
  | fuel + 1, s =>
    if s.activeConnects < s.config.maxParallel ∧ s.queue ≠ [] then attemptConnections.loop fuel s.dialNext else s

/-- Every turn of the loop takes one peer from the queue. -/
def attemptConnections (s : SwarmActor) : SwarmActor := attemptConnections.loop s.queue.length s

def markRefreshed (s : SwarmActor) (topic : Topic) : SwarmActor :=
  { s with topics := Assoc.modify s.topics topic fun state => { state with refreshed := true } }

def refreshComplete (s : SwarmActor) (topic : Topic) : SwarmActor :=
  (s.markRefreshed topic).attemptConnections.checkFlushWaiters

def scheduleRetry (s : SwarmActor) (pk : PublicKey) (draw : Nat × Nat × Nat) : SwarmActor :=
  match s.peers.lookup pk with
  | none => s
  | some info =>
    match info.topics with
    | [] => s
    | topic :: _ =>
      if info.banned then s
      else
        { s with
          peers := s.peers.insert pk { info with waiting := true }
          timers := s.timers ++ [⟨pk, info.relayAddresses, topic, retryDelay info draw⟩] }

def handleRetry (s : SwarmActor) (i : Nat) (t : RetryTimer) : SwarmActor :=
  { s with timers := s.timers.eraseIdx i }.peerFound t.publicKey t.relayAddresses t.topic

/-- A dial that succeeded takes the slot of its peer, and its connection goes to the application. -/
def takeSlot (s : SwarmActor) (now : Nat) (d : Dial) : SwarmActor :=
  { s with
    connections := s.connections.insert d.publicKey ⟨true, d.attempt⟩
    peers := Assoc.modify s.peers d.publicKey (·.connected now)
    channel := s.channel.trySend ⟨d.publicKey, true, (s.peers.lookup d.publicKey).elim [] (·.topics), d.attempt⟩ }

/-- Whether the actor's key is the greater one, by which both sides choose between two connections. -/
def dominant (s : SwarmActor) (pk : PublicKey) : Bool := pk.1 < s.publicKey.1

/-- The dial has ended, whatever came of it. -/
def dialEnded (s : SwarmActor) (d : Dial) : SwarmActor :=
  { s with
    dials := s.dials.erase d
    activeConnects := s.activeConnects - 1
    peers := Assoc.modify s.peers d.publicKey fun info => { info with connecting := false } }

def handleConnectResult (s : SwarmActor) (now : Nat) (d : Dial) (ok : Bool) (draw : Nat × Nat × Nat) : SwarmActor :=
  let s := s.dialEnded d
  if ok then
    match s.connections.lookup d.publicKey with
    | some existing =>
      -- the connection is dropped, and no other peer is dialled
      if existing.isInitiator = s.dominant d.publicKey then s else (s.takeSlot now d).attemptConnections
    | none => (s.takeSlot now d).attemptConnections
  else (s.scheduleRetry d.publicKey draw).attemptConnections

/-! ## The server side -/

/-- A slot is taken for a peer, and a task establishes the connection. -/
def reserve (s : SwarmActor) (pk : PublicKey) : SwarmActor :=
  { s with
    connections := s.connections.insert pk ⟨false, s.nextAttempt⟩
    serverTasks := s.serverTasks ++ [⟨pk, s.nextAttempt⟩]
    nextAttempt := s.nextAttempt + 1 }

/-- A hole-punch that is staged for the same peer is replaced. -/
def commitPassiveHolepunch (s : SwarmActor) (id : UInt64) (remotePk : PublicKey) : SwarmActor :=
  let connects :=
    match s.pendingHandshakes.lookup remotePk with
    | none => s.connects
    | some oldId => s.connects.erase oldId
  { s with
    pendingHandshakes := s.pendingHandshakes.insert remotePk id
    connects := connects.insert id ⟨remotePk, 0, false⟩ }

/-- What the path and the set-up make of the next id: whether one is taken, and whether a hole-punch is staged. -/
def stage (path : ServerPath) (canAccept : Bool) (udx : Option UdxInfo) (setup : Setup) : Bool × Bool :=
  match path with
  | .holepunch =>
    if canAccept ∧ udx.any (fun u => u.id.toNat < 2 ^ 32) then (setup ≠ .failed, setup = .staged) else (false, false)
  | .dial advertiseHolepunch => (advertiseHolepunch, false)
  | _ => (false, false)

def finishHandshake (s : SwarmActor) (hash : Bytes → Bytes32) (now : Nat) (m : Handshake) (noiseReply : ByteVec)
    (pk : PublicKey) (udx : Option UdxInfo) (staged : Option UInt64) : SwarmActor :=
  let eligible := s.connections.entries.length < s.config.maxPeers ∧ udx.isSome ∧ pk ∉ s.connections
  let s := if eligible then { s with handshakeReplies := s.handshakeReplies.insert hash now m.noise noiseReply } else s
  match if eligible then staged else none with
  | some id => s.commitPassiveHolepunch id pk
  | none =>
    if pk ∈ s.connections then s
    else if s.config.maxPeers ≤ s.connections.entries.length then s
    else if udx.isNone then s
    else s.reserve pk

def handleServerHandshake (s : SwarmActor) (hash : Bytes → Bytes32) (now : Nat) (m : Handshake) :
    Option HandshakeMessage × SwarmActor :=
  let (cached, cache) := s.handshakeReplies.get hash now m.noise
  let s := { s with handshakeReplies := cache }
  match cached, m.payload with
  | some reply, _ => (some (encodeServerHandshakeReply m.mode m.peerAddress reply), s)
  | none, none => (none, s)
  | none, some payload =>
    if payload.error ≠ 0 then (none, s)
    else
      let path := selectServerPath s.config.relayThrough.isSome m.firewall payload.firewall m.peerAddress.isSome
      let canAccept := s.connections.entries.length < s.config.maxPeers && payload.udx.isSome
      let (takesId, staged) := stage path canAccept payload.udx m.setup
      let id := s.nextHolepunchId
      let s := if takesId then { s with nextHolepunchId := id + 1 } else s
      match m.reply, m.remotePk with
      | some noiseReply, some pk =>
        (some (encodeServerHandshakeReply m.mode m.peerAddress noiseReply),
          s.finishHandshake hash now m noiseReply pk payload.udx (if staged then some id else none))
      | _, _ => (none, s)

/-- A round of a hole-punch, if its payload is decrypted. -/
def handlePeerHolepunch (s : SwarmActor) (id : UInt64) (payload : Option (UInt64 × Bool)) : SwarmActor :=
  match payload with
  | none => s
  | some (round, punching) =>
    { s with connects := Assoc.modify s.connects id fun entry =>
        { entry with round := max entry.round round, punching := entry.punching || punching } }

def takeInFlight (s : SwarmActor) (id : UInt64) (entry : InFlightHolepunch) : SwarmActor :=
  { s with connects := s.connects.erase id, pendingHandshakes := s.pendingHandshakes.erase entry.remotePk }

def handlePunched (s : SwarmActor) (id : UInt64) : SwarmActor :=
  match s.connects.lookup id with
  | none => s
  | some entry =>
    let s := s.takeInFlight id entry
    if entry.remotePk ∈ s.connections ∨ s.config.maxPeers ≤ s.connections.entries.length then s
    else s.reserve entry.remotePk

def handleAbort (s : SwarmActor) (id : UInt64) : SwarmActor :=
  match s.connects.lookup id with
  | none => s
  | some entry => s.takeInFlight id entry

/-! ## Spawned tasks -/

/-- A task that has a connection waits for room in the channel; when the channel is closed, the connection is dropped. -/
def established (s : SwarmActor) (task : ServerTask) : SwarmActor :=
  if !s.channel.open_ then { s with serverTasks := s.serverTasks.erase task }
  else if s.channel.hasRoom then
    { s with
      serverTasks := s.serverTasks.erase task
      channel := s.channel.push ⟨task.remotePk, false, [], task.attempt⟩ }
  else s

def taskFailed (s : SwarmActor) (task : ServerTask) : SwarmActor :=
  { s with serverTasks := s.serverTasks.erase task, failures := s.failures ++ [task] }

/-- The report names the peer and not the attempt. -/
def handleServerFailure (s : SwarmActor) (task : ServerTask) : SwarmActor :=
  { s with failures := s.failures.erase task, connections := s.connections.erase task.remotePk }

/-! ## Steps -/

variable (hash : Bytes → Bytes32)

def step (s : SwarmActor) : SwarmEvent → SwarmActor
  | .join topic server client => s.doJoin topic server client
  | .leave topic => s.doLeave topic
  | .flush waiter => s.handleFlush waiter
  | .peerFound publicKey relayAddresses topic => s.peerFound publicKey relayAddresses topic
  | .refreshComplete topic => s.refreshComplete topic
  | .retry i =>
    match s.timers[i]? with
    | none => s
    | some t => s.handleRetry i t
  | .connectResult now i ok draw =>
    match s.dials[i]? with
    | none => s
    | some d => s.handleConnectResult now d ok draw
  | .handshake now m => (s.handleServerHandshake hash now m).2
  | .peerHolepunch id payload => s.handlePeerHolepunch id payload
  | .punched id => s.handlePunched id
  | .abort id => s.handleAbort id
  | .established i => s.serverTasks[i]?.elim s s.established
  | .taskFailed i => s.serverTasks[i]?.elim s s.taskFailed
  | .serverFailure i => s.failures[i]?.elim s s.handleServerFailure
  | .replySweep now => { s with handshakeReplies := s.handshakeReplies.prune now }
  | .receive => { s with channel := { s.channel with queued := s.channel.queued.tail } }
  | .hangUp => { s with channel := { s.channel with open_ := false, queued := [] } }

end SwarmActor
end Peeroxide.Swarm
