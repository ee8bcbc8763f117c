import Peeroxide.Dht.RoutingTable
import Peeroxide.Lib.Vec

/-!
# The request layer

Requests are given a transaction id, sent under a congestion window or queued, sent again when their deadline passes,
and resolved by a response or reported as timed out. The clock is an input: `clock` holds the readings to come, and each
reading takes the next one. Replies to incoming requests leave no trace in this layer and are left out; whether a token
is valid is an input.

The last three fields of `Io` keep what has happened: how many transaction ids were given out, the addresses requests
were made for, and every transmission of a request that is waited for.
-/

namespace Peeroxide.Dht
open Lib

def DEFAULT_TIMEOUT_MS : Nat := 1000
def DEFAULT_RETRIES : UInt32 := 3

/-! ## Addresses and requests -/

inductive SocketAddr where
  | v4 (a b c d : UInt8) (port : UInt16)
  | v6 (groups : List Nat) (scope : Nat) (port : UInt16)
  deriving DecidableEq

def readScope (s : List Char) : Nat × List Char :=
  match (readChar '%' s).bind (readNumber 10 s.length true (2 ^ 32)) with
  | some r => r
  | none => (0, s)

def parseSocketAddr (host : String) (port : UInt16) : Option SocketAddr :=
  match readIpv4 host.toList with
  | some ([a, b, c, d], []) => some (.v4 a b c d port)
  | _ =>
    match (readChar '[' host.toList).bind readIpv6 with
    | some (groups, s) =>
      match readChar ']' (readScope s).2 with
      | some [] => some (.v6 groups (readScope s).1 port)
      | _ => none
    | none => none

inductive SocketKind where
  | client
  | server
  deriving DecidableEq

structure RequestParams where
  toPeer : Ipv4Peer
  token : Option Bytes32
  internal : Bool
  command : UInt64
  target : Option NodeId
  value : Option ByteVec
  timeoutMs : Option Nat
  retries : Option UInt32
  deriving DecidableEq

structure TimeoutEvent where
  tid : UInt16
  toPeer : Ipv4Peer
  command : UInt64
  internal : Bool
  target : Option NodeId
  deriving DecidableEq

structure IncomingRequest where
  tid : UInt16
  fromPeer : Ipv4Peer
  toPeer : Ipv4Peer
  id : Option NodeId
  token : Option Bytes32
  internal : Bool
  command : UInt64
  target : Option NodeId
  value : Option ByteVec
  socketKind : SocketKind
  deriving DecidableEq

/-- A response, with its request's id: the request itself is not used by the node. -/
structure IncomingResponse where
  tid : UInt16
  fromPeer : Ipv4Peer
  toPeer : Ipv4Peer
  id : Option NodeId
  token : Option Bytes32
  closerNodes : List Ipv4Peer
  error : UInt64
  value : Option ByteVec
  rtt : Nat
  deriving DecidableEq

inductive IoEvent where
  | incomingRequest (req : IncomingRequest)
  | response (res : IncomingResponse)
  deriving DecidableEq

/-- A request that is waited for. The last field numbers the requests. -/
structure InflightEntry where
  tid : UInt16
  toPeer : Ipv4Peer
  addr : SocketAddr
  internal : Bool
  command : UInt64
  target : Option NodeId
  buffer : Bytes
  socketKind : SocketKind
  sent : UInt32
  retries : UInt32
  deadline : Nat
  timestamp : Nat
  timeout : Nat
  serial : Nat
  deriving DecidableEq

/-! ## The congestion window -/

def i32 (x : Int) : Int := (x + 2147483648) % 4294967296 - 2147483648

structure CongestionWindow where
  i : Fin 4
  total : Int
  window : Fin 4 → Int
  maxWindow : Int

namespace CongestionWindow

def new (maxWindow : Nat) : CongestionWindow := ⟨0, 0, fun _ => 0, i32 maxWindow⟩

def isFull (c : CongestionWindow) : Bool := i32 (2 * c.maxWindow) ≤ c.total || c.maxWindow ≤ c.window c.i

def recv (c : CongestionWindow) : CongestionWindow :=
  if 0 < c.window c.i then
    { c with window := Function.update c.window c.i (c.window c.i - 1), total := i32 (c.total - 1) }
  else c

def send (c : CongestionWindow) : CongestionWindow :=
  { c with total := i32 (c.total + 1), window := Function.update c.window c.i (i32 (c.window c.i + 1)) }

def drain (c : CongestionWindow) : CongestionWindow :=
  { c with
    i := c.i + 1
    total := i32 (c.total - c.window (c.i + 1))
    window := Function.update c.window (c.i + 1) 0 }

end CongestionWindow

/-! ## The layer -/

structure IoStats where
  active : Nat
  total : Nat
  responses : Nat
  timeouts : Nat
  retries : Nat
  deriving DecidableEq

/-- One transmission: which request, its retry limit, and whether the window was full. -/
structure Transmission where
  serial : Nat
  retries : UInt32
  full : Bool
  deriving DecidableEq

structure Io where
  inflight : List InflightEntry
  congestion : CongestionWindow
  pending : List UInt16
  tid : UInt16
  firewalled : Bool
  ephemeral : Bool
  stats : IoStats
  destroying : Bool
  clock : Nat → Nat
  allocated : Nat
  requested : List Ipv4Peer
  log : List Transmission

namespace Io

def bind (maxWindow : Nat) (firewalled ephemeral : Bool) (tid : UInt16) (clock : Nat → Nat) : Io where
  inflight := []
  congestion := .new maxWindow
  pending := []
  tid
  firewalled
  ephemeral
  stats := ⟨0, 0, 0, 0, 0⟩
  destroying := false
  clock
  allocated := 0
  requested := []
  log := []

def now (io : Io) : Nat := io.clock 0

def readClock (io : Io) : Io := { io with clock := fun n => io.clock (n + 1) }

def sendInflightAt (io : Io) (idx : Nat) : Io :=
  match io.inflight[idx]? with
  | none => io
  | some entry =>
    { io.readClock with
      inflight := io.inflight.set idx { entry with sent := entry.sent + 1, deadline := io.now + entry.timeout }
      congestion := io.congestion.send
      log := io.log ++ [⟨entry.serial, entry.retries, io.congestion.isFull⟩] }

def position (io : Io) (tid : UInt16) : Option Nat := io.inflight.findIdx? fun e => e.tid == tid

def drainPending (io : Io) : List UInt16 → Io
  | [] => { io with pending := [] }
  | tid :: rest =>
    if io.congestion.isFull then { io with pending := tid :: rest }
    else
      match io.position tid with
      | some idx => drainPending (io.sendInflightAt idx) rest
      | none => drainPending io rest

def drain (io : Io) : Io := drainPending { io with congestion := io.congestion.drain } io.pending

def retryAt (io : Io) (idx : Nat) : Io :=
  sendInflightAt { io with stats := { io.stats with retries := io.stats.retries + 1 } } idx

/-- Take out the requests at some positions, the highest one first. -/
def timeOutAll (io : Io) : List Nat → List TimeoutEvent × Io
  | [] => ([], io)
  | i :: is =>
    match io.inflight[i]? with
    | none => timeOutAll io is
    | some entry =>
      let r := timeOutAll { io with
        inflight := swapRemove io.inflight i
        congestion := io.congestion.recv
        stats := { io.stats with active := io.stats.active - 1, timeouts := io.stats.timeouts + 1 } } is
      (⟨entry.tid, entry.toPeer, entry.command, entry.internal, entry.target⟩ :: r.1, r.2)

/-- The requests whose deadline has passed, with their positions. -/
def due (io : Io) (now : Nat) : List (InflightEntry × Nat) := io.inflight.zipIdx.filter fun p => p.1.deadline ≤ now

def timeoutIndices (io : Io) (now : Nat) : List Nat :=
  ((io.due now).filter fun p => p.1.retries < p.1.sent).map Prod.snd

def retryIndices (io : Io) (now : Nat) : List Nat :=
  ((io.due now).filter fun p => !(p.1.retries < p.1.sent)).map Prod.snd

def checkTimeouts (io : Io) : List TimeoutEvent × Io :=
  timeOutAll ((io.retryIndices io.now).foldl retryAt io.readClock) (io.timeoutIndices io.now).reverse

/-! ## Requests -/

def socketKind (io : Io) : SocketKind := if io.firewalled then .client else .server

def allocate (io : Io) : Io := { io with tid := io.tid + 1, allocated := io.allocated + 1 }

/-- The id a request carries, unless the node is ephemeral or uses the client socket. -/
def ownId (io : Io) (t : RoutingTable) (kind : SocketKind) : Option NodeId :=
  if !io.ephemeral && kind == .server then some t.id else none

def track (io : Io) (entry : InflightEntry) : Io :=
  { io with
    inflight := io.inflight ++ [entry]
    stats := { io.stats with active := io.stats.active + 1, total := io.stats.total + 1 } }

def createRequest (io : Io) (t : RoutingTable) (params : RequestParams) : Option UInt16 × Io :=
  if io.destroying then (none, io)
  else
    let io := { io with requested := io.requested ++ [params.toPeer] }
    match parseSocketAddr params.toPeer.host params.toPeer.port with
    | none => (none, io)
    | some addr =>
      let tid := io.tid
      let serial := io.allocated
      let io := io.allocate
      match encodeRequestToBytes ⟨tid, params.toPeer, io.ownId t io.socketKind, params.token, params.internal,
        params.command, params.target, params.value⟩ with
      | .error _ => (none, io)
      | .ok buffer =>
        let now := io.now
        let io := io.readClock
        let timeout := params.timeoutMs.getD DEFAULT_TIMEOUT_MS
        let io := io.track ⟨tid, params.toPeer, addr, params.internal, params.command, params.target, buffer,
          io.socketKind, 0, params.retries.getD DEFAULT_RETRIES, now + timeout, now, timeout, serial⟩
        if io.congestion.isFull then (some tid, { io with pending := io.pending ++ [tid] })
        else (some tid, io.sendInflightAt (io.inflight.length - 1))

/-- Send a request once over another socket; `accepted` is whether that socket takes it. -/
def sendRequestViaSocket (io : Io) (t : RoutingTable) (params : RequestParams) (accepted : Bool) :
    Option UInt16 × Io :=
  if io.destroying then (none, io)
  else
    let io := { io with requested := io.requested ++ [params.toPeer] }
    match parseSocketAddr params.toPeer.host params.toPeer.port with
    | none => (none, io)
    | some addr =>
      let tid := io.tid
      let serial := io.allocated
      let io := io.allocate
      match encodeRequestToBytes ⟨tid, params.toPeer, if io.ephemeral then none else some t.id, params.token,
        params.internal, params.command, params.target, params.value⟩ with
      | .error _ => (none, io)
      | .ok buffer =>
        if !accepted then (none, io)
        else
          let now := io.now
          let io : Io := { io.readClock with log := io.log ++ [⟨serial, 0, io.congestion.isFull⟩] }
          let timeout := params.timeoutMs.getD DEFAULT_TIMEOUT_MS
          (some tid, io.track ⟨tid, params.toPeer, addr, params.internal, params.command, params.target, buffer,
            .client, 1, 0, now + timeout, now, timeout, serial⟩)

/-- Pass a request on without waiting for it: at most a transaction id is given out. -/
def relay (io : Io) (toPeer : Ipv4Peer) (preserveTid : Option UInt16) : Io :=
  if io.destroying then io
  else
    match parseSocketAddr toPeer.host toPeer.port with
    | none => io
    | some _ =>
      match preserveTid with
      | some _ => io
      | none => io.allocate

/-! ## Datagrams -/

/-- An id counts only if it is that of the address it came from. -/
def validatedId (fromPeer : Ipv4Peer) (id : Option NodeId) : Option NodeId :=
  id.filter fun id => peerId fromPeer.host fromPeer.port = id

def processMessage (io : Io) (fromPeer : Ipv4Peer) (kind : SocketKind) (tokenValid : Bool) :
    Message → Option IoEvent × Io
  | .request req =>
    if req.token.isSome && !tokenValid then (none, io)
    else
      (some (.incomingRequest ⟨req.tid, fromPeer, req.toPeer, validatedId fromPeer req.id, req.token, req.internal,
        req.command, req.target, req.value, kind⟩), io)
  | .response res =>
    match io.position res.tid with
    | none => (none, io)
    | some pos =>
      match io.inflight[pos]? with
      | none => (none, io)
      | some entry =>
        (some (.response ⟨res.tid, fromPeer, res.toPeer, validatedId fromPeer res.id, res.token, res.closerNodes,
          res.error, res.value, io.now - entry.timestamp⟩),
        { io.readClock with
          inflight := swapRemove io.inflight pos
          congestion := io.congestion.recv
          stats := { io.stats with active := io.stats.active - 1, responses := io.stats.responses + 1 } })

def processDatagram (io : Io) (data : Bytes) (addr : SocketAddr) (kind : SocketKind) (tokenValid : Bool) :
    Option IoEvent × Io :=
  if data.length < 2 then (none, io)
  else
    match addr with
    | .v6 .. => (none, io)
    | .v4 a b c d port =>
      if port = 0 then (none, io)
      else
        match decodeMessage data with
        | .error _ => (none, io)
        | .ok message => io.processMessage ⟨String.ofList (dotted [a, b, c, d]), port⟩ kind tokenValid message

end Io
end Peeroxide.Dht
