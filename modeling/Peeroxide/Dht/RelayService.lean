import Peeroxide.Dht.RelayTables

/-!
# The relay service

The tasks around one relay server. A task for each connection opens a channel, takes a session slot, waits for the remote
and drives the session; a task for each match creates the two streams and bridges them, puts them into the map of active
streams, registers the pairing with the server, and drops the streams when the channel of the pairing is signalled or
dropped. A step is a call of the server, or an access to the map.
-/

namespace Peeroxide.Dht
open Lib

inductive SessionOutbound where
  | pairMatched (token : PairingToken) (isInitiator : Bool) (localStreamId : UInt32)
  | close
  deriving DecidableEq

structure SessionTask where
  pairingCount : Nat
  /-- The remote has opened the channel. -/
  opened : Bool
  outbound : List SessionOutbound
  deriving DecidableEq

inductive BridgePhase where
  /-- The streams are being created. -/
  | bridging
  /-- They are bridged, and held by the task. -/
  | bridged
  /-- They are in the map. -/
  | stored
  /-- The pairing is registered with the server. -/
  | active
  deriving DecidableEq

structure Bridge where
  pairing : MatchedPairing
  phase : BridgePhase
  deriving DecidableEq

namespace Bridge

def sessionIds (b : Bridge) : Nat × Nat := (b.pairing.first.sessionId, b.pairing.second.sessionId)

def has (b : Bridge) (sessionId : Nat) : Bool := b.sessionIds.1 = sessionId || b.sessionIds.2 = sessionId

/-- The pairing is matched and not registered yet. -/
def inProgress (b : Bridge) : Bool := b.phase ≠ .active

end Bridge

inductive Transport where
  | noSocket
  | noStreams
  | ready
  deriving DecidableEq

structure RelayService where
  server : BlindRelayServer
  sessions : AList fun _ : Nat => SessionTask
  /-- The bridging tasks by the number of their match, which is also the number of their teardown channel. -/
  bridges : AList fun _ : Nat => Bridge
  /-- The streams in the map, by the number of the match they belong to. -/
  streams : AList fun _ : PairingToken => Nat
  nextMatch : Nat
  nextRelayStreamId : UInt32
  /-- What was sent to the remotes. -/
  replies : List (Nat × PairMessage)
  /-- The matches whose streams were dropped from the map. -/
  dropped : List Nat

inductive RelayEvent where
  /-- The channel of a new connection is created, or that fails. -/
  | connect (now : Nat) (channel : Bool)
  /-- The remote opens the channel, or the wait fails. -/
  | opened (sessionId : Nat) (ok : Bool)
  | message (now sessionId : Nat) (messageType : UInt32) (data : Bytes)
  /-- The session takes an instruction from its queue; `sent` when the channel takes the reply. -/
  | outbound (sessionId : Nat) (sent : Bool)
  /-- The channel is closed. -/
  | close (sessionId : Nat)
  | bridged (n : Nat) (transport : Transport)
  | stored (n : Nat)
  | activated (n : Nat)
  | teardown (n : Nat)
  | sweepExpiredPairings (now : Nat)
  | sweepIdleSessions (now : Nat)
  deriving DecidableEq

namespace RelayService

def new (config : BlindRelayServerConfig) : RelayService := ⟨.new config, ∅, ∅, ∅, 0, 1, [], []⟩

/-! ## Sessions -/

/-- `BlindRelaySession::new`: a session is accepted, unless the server is full. -/
def newSession (w : RelayService) (now : Nat) : RelayService :=
  match w.server.tryAcceptSession with
  | (none, server) => { w with server := server }
  | (some sessionId, server) =>
    { w with
      server := server.registerSession now sessionId
      sessions := w.sessions.insert sessionId ⟨0, false, []⟩ }

def endSession (w : RelayService) (sessionId : Nat) : RelayService :=
  { w with server := w.server.releaseSession sessionId, sessions := w.sessions.erase sessionId }

def startBridge (w : RelayService) : Option MatchedPairing → RelayService
  | none => w
  | some m => { w with bridges := w.bridges.insert w.nextMatch ⟨m, .bridging⟩, nextMatch := w.nextMatch + 1 }

def send (w : RelayService) (sessionId : Nat) (out : SessionOutbound) : RelayService :=
  match w.sessions.lookup sessionId with
  | none => w
  | some task => { w with sessions := w.sessions.insert sessionId { task with outbound := task.outbound ++ [out] } }

def running (w : RelayService) (sessionId : Nat) : Option SessionTask := (w.sessions.lookup sessionId).filter (·.opened)

/-- A task that waits for the remote; when that fails it returns, and its slot stays taken. -/
def waitOpened (w : RelayService) (sessionId : Nat) (ok : Bool) : RelayService :=
  match (w.sessions.lookup sessionId).filter (!·.opened) with
  | none => w
  | some task =>
    if ok then { w with sessions := w.sessions.insert sessionId { task with opened := true } }
    else { w with sessions := w.sessions.erase sessionId }

def handleMessage (w : RelayService) (now sessionId : Nat) (messageType : UInt32) (data : Bytes) : RelayService :=
  match w.running sessionId with
  | none => w
  | some task =>
    let (session, server, m) := BlindRelaySession.onMessage ⟨sessionId, task.pairingCount⟩ w.server now messageType data
    { w with
      server := server
      sessions := w.sessions.insert sessionId { task with pairingCount := session.pairingCount } }.startBridge m

def handleOutbound (w : RelayService) (sessionId : Nat) (sent : Bool) : RelayService :=
  match w.running sessionId with
  | none => w
  | some task =>
    match task.outbound with
    | [] => w
    | .close :: _ => w.endSession sessionId
    | .pairMatched token isInitiator localStreamId :: rest =>
      if sent then
        { w with
          sessions := w.sessions.insert sessionId { task with outbound := rest }
          replies := w.replies ++ [(sessionId, ⟨isInitiator, token, localStreamId.toUInt64, 0⟩)] }
      else w.endSession sessionId

/-! ## Bridging -/

/-- The ids of the clients' streams have to be ids of UDX streams. -/
def idsInRange (m : MatchedPairing) : Bool := m.first.clientStreamId.toNat < 2 ^ 32 && m.second.clientStreamId.toNat < 2 ^ 32

/-- `bridge_one_pairing`: both streams are there and bridged, and both sides are told. -/
def bridgeOnePairing (w : RelayService) (m : MatchedPairing) (transport : Transport) : Bool × RelayService :=
  if transport = .noSocket then (false, w)
  else
    let first := w.nextRelayStreamId
    let second := first + 1
    let w := { w with nextRelayStreamId := second + 1 }
    if idsInRange m ∧ transport = .ready then
      (true, (w.send m.first.sessionId (.pairMatched m.token m.first.isInitiator first)).send m.second.sessionId
        (.pairMatched m.token m.second.isInitiator second))
    else (false, w)

def handleBridged (w : RelayService) (n : Nat) (transport : Transport) : RelayService :=
  match (w.bridges.lookup n).filter (·.phase = .bridging) with
  | none => w
  | some b =>
    match w.bridgeOnePairing b.pairing transport with
    | (true, w) => { w with bridges := w.bridges.insert n { b with phase := .bridged } }
    -- the error is logged, and nothing else
    | (false, w) => { w with bridges := w.bridges.erase n }

/-- Streams that are in the map under this token already are dropped. -/
def storeStreams (w : RelayService) (n : Nat) : RelayService :=
  match (w.bridges.lookup n).filter (·.phase = .bridged) with
  | none => w
  | some b =>
    { w with
      bridges := w.bridges.insert n { b with phase := .stored }
      streams := w.streams.insert b.pairing.token n
      dropped := w.dropped ++ (w.streams.lookup b.pairing.token).toList }

def activate (w : RelayService) (n : Nat) : RelayService :=
  match (w.bridges.lookup n).filter (·.phase = .stored) with
  | none => w
  | some b =>
    { w with
      server := w.server.markActive b.pairing.token b.sessionIds n
      bridges := w.bridges.insert n { b with phase := .active } }

/-- Nobody holds the sending end of a teardown channel: it has been signalled, or its entry replaced. -/
def hungUp (w : RelayService) (n : Nat) : Bool := w.server.activePairings.entries.all fun e => e.2.teardownTx ≠ n

/-- The task wakes up and removes what is in the map under its token. -/
def dropStreams (w : RelayService) (n : Nat) : RelayService :=
  match (w.bridges.lookup n).filter fun b => b.phase = .active && w.hungUp n with
  | none => w
  | some b =>
    { w with
      bridges := w.bridges.erase n
      streams := w.streams.erase b.pairing.token
      dropped := w.dropped ++ (w.streams.lookup b.pairing.token).toList }

def step (w : RelayService) : RelayEvent → RelayService
  | .connect now channel => if channel then w.newSession now else w
  | .opened sessionId ok => w.waitOpened sessionId ok
  | .message now sessionId messageType data => w.handleMessage now sessionId messageType data
  | .outbound sessionId sent => w.handleOutbound sessionId sent
  | .close sessionId => if (w.running sessionId).isSome then w.endSession sessionId else w
  | .bridged n transport => w.handleBridged n transport
  | .stored n => w.storeStreams n
  | .activated n => w.activate n
  | .teardown n => w.dropStreams n
  | .sweepExpiredPairings now => { w with server := (w.server.sweepExpiredPairings now).2 }
  | .sweepIdleSessions now => (w.server.sweepIdleSessions now).foldl (fun w sessionId => w.send sessionId .close) w

end RelayService
end Peeroxide.Dht
