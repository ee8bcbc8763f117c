import Mathlib.Data.List.AList
import Mathlib.Data.List.MinMax
import Mathlib.Data.List.Sort
import Mathlib.Data.Prod.Lex
import Peeroxide.Dht.Query

/-!
# The node

The actor that owns the request layer, the routing table and the queries. It handles one event at a time: a datagram,
the two timers, deadlines that have passed, and the commands of its handle. Random choices, the answers of the clock and
what a name resolves to are inputs. Replies, the analysis of address translation and the channels to the callers leave
no trace in the tables of the actor and are left out, and so are the commands that only read.
-/

namespace Peeroxide.Dht
open Lib

def SLEEPING_INTERVAL_MS : Nat := 15000
def REFRESH_TICKS : Nat := 60
def RECENT_NODE : Nat := 12
def OLD_NODE : Nat := 360
def MAX_REPINGING : Nat := 3
def DOWN_HINTS_RATE_LIMIT : Nat := 50

def CMD_PING : UInt64 := 0
def CMD_FIND_NODE : UInt64 := 2
def CMD_DOWN_HINT : UInt64 := 3

/-! ## Configuration and state -/

structure DhtConfig where
  bootstrap : List String
  port : UInt16
  host : String
  ephemeral : Option Bool
  firewalled : Bool
  concurrency : Nat
  maxWindow : Nat
  deriving DecidableEq

structure UserQueryParams where
  target : NodeId
  command : UInt64
  value : Option ByteVec
  commit : Bool
  concurrency : Option Nat
  deriving DecidableEq

structure UserRequestParams where
  token : Option Bytes32
  command : UInt64
  target : Option NodeId
  value : Option ByteVec
  timeoutMs : Option Nat
  retries : Option UInt32
  deriving DecidableEq

inductive StandaloneRequest where
  | ping
  | userRequest
  | reping (newNode : Node) (oldNodeId : NodeId) (lastSeenTick : Nat)
  | check (nodeId : NodeId) (lastSeenTick : Nat)
  deriving DecidableEq

/-- The commands that change the tables of the actor. For a ping over another socket, `accepted` is whether that socket
takes it. -/
inductive DhtCommand where
  | ping (host : String) (port : UInt16)
  | findNode (target : NodeId)
  | query (params : UserQueryParams)
  | request (params : UserRequestParams) (host : String) (port : UInt16)
  | relay (toPeer : Ipv4Peer) (preserveTid : Option UInt16)
  | destroy
  | inboundReplyBytes (addr : SocketAddr) (data : Bytes) (tokenValid : Bool)
  | pingViaSocket (target : Ipv4Peer) (accepted : Bool)

/-- The last field resolves which of several equally frequent addresses is taken. -/
structure DhtNode where
  io : Io
  table : RoutingTable
  config : DhtConfig
  tick : Nat
  refreshTicks : Nat
  repinging : Nat
  bootstrapped : Bool
  activeQueries : AList fun _ : Nat => Query
  tidToQuery : AList fun _ : UInt16 => Nat × Bool
  standaloneTids : AList fun _ : UInt16 => StandaloneRequest
  nextQueryId : Nat
  destroyed : Bool
  lastTickTime : Nat
  downHintsPerTick : Nat
  bootstrapQueryId : Option Nat
  needsIdUpdate : Bool
  addrSamples : List Ipv4Peer
  tieBreak : Nat

def Node.peer (m : Node) : Ipv4Peer := ⟨m.host, m.port⟩

def parseU16 (s : List Char) : Option UInt16 :=
  let r := scanDigits 10 (dropPlus s) 0 0
  if r.2.1 = 0 then none
  else if r.2.2 ≠ [] then none
  else if r.1 < 65536 then some (UInt16.ofNat r.1) else none

/-- The port stands behind the last colon; of the host only what stands in front of an at sign counts. -/
def parseBootstrapStr (s : String) : Option (String × UInt16) :=
  match s.toList.reverse.dropWhile (· ≠ ':') with
  | [] => none
  | _ :: hostPart =>
    (parseU16 (s.toList.reverse.takeWhile (· ≠ ':')).reverse).map fun port =>
      (String.ofList (hostPart.reverse.takeWhile (· ≠ '@')), port)

namespace DhtNode

/-- The new node. `resolved` is what the names in the configuration resolve to. -/
def spawn (config : DhtConfig) (resolved : List String) (tableId : NodeId) (localPort tid : UInt16) (clock : Nat → Nat)
    (tieBreak : Nat) : DhtNode :=
  let ephemeral := config.ephemeral.getD !config.bootstrap.isEmpty
  let isWildcard := config.host == "0.0.0.0" || config.host == "::"
  let table := RoutingTable.new tableId
  let io := Io.bind config.maxWindow config.firewalled ephemeral tid clock
  { io := io.readClock
    table := if !ephemeral && !isWildcard then table.rebuildWithId (peerId config.host localPort) else table
    config := { config with bootstrap := resolved }
    tick := 0
    refreshTicks := REFRESH_TICKS
    repinging := 0
    bootstrapped := false
    activeQueries := ∅
    tidToQuery := ∅
    standaloneTids := ∅
    nextQueryId := 0
    destroyed := false
    lastTickTime := io.now
    downHintsPerTick := 0
    bootstrapQueryId := none
    needsIdUpdate := !ephemeral && isWildcard
    addrSamples := []
    tieBreak }

/-! ## Requests -/

/-- Make a request and note what it is for; whether it was made. -/
def createStandalone (n : DhtNode) (params : RequestParams) (s : StandaloneRequest) : Bool × DhtNode :=
  match n.io.createRequest n.table params with
  | (some tid, io) => (true, { n with io, standaloneTids := n.standaloneTids.insert tid s })
  | (none, io) => (false, { n with io })

def pingRequest (toPeer : Ipv4Peer) : RequestParams := ⟨toPeer, none, true, CMD_PING, none, none, none, none⟩

def createForQuery (n : DhtNode) (params : RequestParams) (entry : Nat × Bool) : DhtNode :=
  match n.io.createRequest n.table params with
  | (some tid, io) => { n with io, tidToQuery := n.tidToQuery.insert tid entry }
  | (none, io) => { n with io }

def dispatch (queryId : Nat) (n : DhtNode) : QueryRequest → DhtNode
  | .query params => n.createForQuery params (queryId, false)
  | .commit params => n.createForQuery params (queryId, true)
  | .downHint params =>
    if n.downHintsPerTick < DOWN_HINTS_RATE_LIMIT then
      { n with downHintsPerTick := n.downHintsPerTick + 1, io := (n.io.createRequest n.table params).2 }
    else n

def dispatchQueryRequests (n : DhtNode) (queryId : Nat) (requests : List QueryRequest) : DhtNode :=
  requests.foldl (dispatch queryId) n

/-! ## The end of the bootstrap -/

/-- One of the addresses that were seen most often. -/
def determineAddressFromSamples (n : DhtNode) : Option Ipv4Peer :=
  let best := n.addrSamples.dedup.filter fun addr =>
    n.addrSamples.all fun other => n.addrSamples.count other ≤ n.addrSamples.count addr
  best[n.tieBreak % best.length]?

def markBootstrapped (n : DhtNode) : DhtNode :=
  if n.bootstrapped then n
  else
    let n :=
      if n.needsIdUpdate then
        match n.determineAddressFromSamples with
        | some addr =>
          { n with table := n.table.rebuildWithId (peerId addr.host addr.port), needsIdUpdate := false }
        | none => { n with needsIdUpdate := false }
      else n
    { n with bootstrapped := true }

def onQueryRemoved (n : DhtNode) (queryId : Nat) : DhtNode :=
  if n.bootstrapQueryId = some queryId then { n with bootstrapQueryId := none }.markBootstrapped else n

/-! ## Queries -/

def removeQuery (n : DhtNode) (queryId : Nat) : DhtNode :=
  { n with activeQueries := n.activeQueries.erase queryId }.onQueryRemoved queryId

def commitDone (n : DhtNode) (queryId : Nat) : DhtNode :=
  match n.activeQueries.lookup queryId with
  | some q =>
    let n := { n with activeQueries := n.activeQueries.insert queryId q.onCommitDone.2 }
    if q.onCommitDone.1 then n.removeQuery queryId else n
  | none => n.removeQuery queryId

/-- A request of the first phase is resolved by a call of its query. -/
def queryCalled (n : DhtNode) (queryId : Nat) (call : RoutingTable → Query → List QueryRequest × Query) : DhtNode :=
  match n.activeQueries.lookup queryId with
  | some q =>
    let r := call n.table q
    let n := { n with activeQueries := n.activeQueries.insert queryId r.2 }.dispatchQueryRequests queryId r.1
    if r.2.finished then n.removeQuery queryId else n
  | none => n

/-- A query that begins with the nodes of the table is kept. -/
def insertQuery (n : DhtNode) (target : NodeId) (internal : Bool) (command : UInt64) (value : Option ByteVec)
    (concurrency : Nat) (commit : Bool) : DhtNode :=
  let queryId := n.nextQueryId
  let n := { n with nextQueryId := queryId + 1 }
  let q := (Query.new queryId target internal command value concurrency commit n.table.id).addFromTable n.table
  let r := q.pollRequests n.table
  let n := n.dispatchQueryRequests queryId r.1
  { n with activeQueries := n.activeQueries.insert queryId r.2 }

def startQuery (n : DhtNode) (target : NodeId) (internal : Bool) (command : UInt64) (value : Option ByteVec)
    (commit : Bool) (concurrency : Option Nat) : DhtNode :=
  n.insertQuery target internal command value (concurrency.getD n.config.concurrency) commit

/-- The search for the node's own id; unlike the other queries it is not kept when it is finished at once. -/
def startBootstrap (n : DhtNode) : DhtNode :=
  let queryId := n.nextQueryId
  let n := { n with nextQueryId := queryId + 1, bootstrapQueryId := some queryId }
  let q := Query.new queryId n.table.id true CMD_FIND_NODE none n.config.concurrency false n.table.id
  let q := (q.addFromTable n.table).addNodes (n.config.bootstrap.filterMap parseBootstrapStr)
  let r := q.pollRequests n.table
  let n := n.dispatchQueryRequests queryId r.1
  if r.2.finished then n.onQueryRemoved queryId
  else { n with activeQueries := n.activeQueries.insert queryId r.2 }

/-! ## Nodes from the network -/

/-- The node that was pinged longest ago among those nearest to an id, of several the one that was added first. -/
def oldest (n : DhtNode) (id : NodeId) : Option Node :=
  ((n.table.closest id 20).filter fun m => m.pingedTick < n.tick).argmin fun m => toLex (m.pingedTick, m.addedTick)

def keepsOld (n : DhtNode) (old : Node) : Bool :=
  n.tick - old.seenTick < RECENT_NODE && OLD_NODE < n.tick - ((n.table.get old.id).map Node.addedTick).getD 0

/-- Ping an old node whose place a new one would take. -/
def sendReping (n : DhtNode) (old newNode : Node) : DhtNode :=
  let n := { n with table := n.table.modify old.id fun m => { m with pingedTick := n.tick } }
  let r := n.createStandalone (pingRequest old.peer) (.reping newNode old.id old.seenTick)
  if r.1 then { r.2 with repinging := r.2.repinging + 1 } else r.2

/-- The loop over the nodes that found no room. An old node that is in use ends it. -/
def repingEvents (n : DhtNode) : List TableEvent → DhtNode
  | [] => n
  | evt :: rest =>
    match n.oldest evt.newNode.id with
    | none => n.repingEvents rest
    | some old => if n.keepsOld old then n else (n.sendReping old evt.newNode).repingEvents rest

def handleBucketFull (n : DhtNode) : DhtNode :=
  if !n.bootstrapped || MAX_REPINGING ≤ n.repinging then n
  else { n with table := n.table.drainEvents.2 }.repingEvents n.table.drainEvents.1

def addNodeFromNetwork (n : DhtNode) (fromPeer : Ipv4Peer) (fromId : Option NodeId) : DhtNode :=
  match fromId with
  | none => n
  | some id =>
    if id = n.table.id then n
    else
      match n.table.get id with
      | some _ =>
        { n with table := n.table.modify id fun m => { m with seenTick := n.tick, pingedTick := n.tick } }
      | none =>
        let r := n.table.add ⟨id, fromPeer.host, fromPeer.port, none, n.tick, n.tick, n.tick, 0⟩
        let n := { n with table := r.2 }
        if r.1 then n else n.handleBucketFull

/-! ## Checks -/

def check (n : DhtNode) (mark : Node → Node) (m : Node) : DhtNode :=
  ({ n with table := n.table.modify m.id mark }.createStandalone (pingRequest m.peer) (.check m.id m.seenTick)).2

def handleDownHintRequest (n : DhtNode) (value : Option ByteVec) : DhtNode :=
  match value with
  | some ⟨a :: b :: c :: d :: p :: q :: _, _⟩ =>
    match n.table.get (peerId (String.ofList (dotted [a, b, c, d])) (UInt16.ofNat (ofLeBytes [p, q]))) with
    | some m =>
      if m.pingedTick < n.tick then
        n.check (fun m => { m with downHints := m.downHints + 1, pingedTick := n.tick }) m
      else n
    | none => n
  | _ => n

def handleIncomingRequest (n : DhtNode) (req : IncomingRequest) : DhtNode :=
  if req.internal && req.command == CMD_DOWN_HINT then n.handleDownHintRequest req.value else n

/-! ## Answers -/

def handleStandaloneResponse (n : DhtNode) : StandaloneRequest → DhtNode
  | .ping => n
  | .userRequest => n
  | .reping newNode oldNodeId lastSeenTick =>
    let n := { n with repinging := n.repinging - 1 }
    if ((n.table.get oldNodeId).map fun m => decide (m.seenTick ≤ lastSeenTick)).getD true then
      { n with table := ((n.table.remove oldNodeId).2.add newNode).2 }
    else n
  | .check nodeId lastSeenTick =>
    if ((n.table.get nodeId).map fun m => decide (m.seenTick ≤ lastSeenTick)).getD false then
      { n with table := (n.table.remove nodeId).2 }
    else n

def handleStandaloneTimeout (n : DhtNode) : StandaloneRequest → DhtNode
  | .ping => n
  | .userRequest => n
  | .reping newNode oldNodeId _ =>
    { n with repinging := n.repinging - 1, table := ((n.table.remove oldNodeId).2.add newNode).2 }
  | .check nodeId _ => { n with table := (n.table.remove nodeId).2 }

/-- A request is resolved: `call` is what its query is told, `settle` what becomes of a request of its own. -/
def resolve (n : DhtNode) (tid : UInt16) (call : RoutingTable → Query → List QueryRequest × Query)
    (settle : DhtNode → StandaloneRequest → DhtNode) : DhtNode :=
  match n.tidToQuery.lookup tid with
  | some (queryId, isCommit) =>
    let n := { n with tidToQuery := n.tidToQuery.erase tid }
    if isCommit then n.commitDone queryId else n.queryCalled queryId call
  | none =>
    match n.standaloneTids.lookup tid with
    | some s => settle { n with standaloneTids := n.standaloneTids.erase tid } s
    | none => n

def handleResponse (n : DhtNode) (res : IncomingResponse) : DhtNode :=
  let n := n.addNodeFromNetwork res.fromPeer res.id
  let n :=
    if res.toPeer.port ≠ 0 ∧ res.toPeer.host ≠ "" ∧ n.needsIdUpdate then
      { n with addrSamples := n.addrSamples ++ [res.toPeer] }
    else n
  n.resolve res.tid (fun t q => q.onResponse t ⟨res.fromPeer, res.id, res.token, res.closerNodes, res.error, res.value,
    res.rtt, res.toPeer⟩) handleStandaloneResponse

def handleIoEvent (n : DhtNode) : IoEvent → DhtNode
  | .incomingRequest req => (n.addNodeFromNetwork req.fromPeer req.id).handleIncomingRequest req
  | .response res => n.handleResponse res

def receive (n : DhtNode) (data : Bytes) (addr : SocketAddr) (kind : SocketKind) (tokenValid : Bool) : DhtNode :=
  match n.io.processDatagram data addr kind tokenValid with
  | (some event, io) => { n with io }.handleIoEvent event
  | (none, io) => { n with io }

def handleTimeout (n : DhtNode) (evt : TimeoutEvent) : DhtNode :=
  n.resolve evt.tid (fun t q => q.onTimeout t evt.toPeer) handleStandaloneTimeout

def handleTimeouts (n : DhtNode) : DhtNode :=
  n.io.checkTimeouts.1.foldl handleTimeout { n with io := n.io.checkTimeouts.2 }

/-! ## Ticks -/

/-- Search for the id of a node of the table; `i` and `j` choose it. -/
def runRefresh (n : DhtNode) (i j : Nat) : DhtNode :=
  let n := { n with refreshTicks := REFRESH_TICKS }
  let target := ((n.table.random i j).map Node.id).getD n.table.id
  n.insertQuery target true CMD_FIND_NODE none (max (n.config.concurrency / 8) 2) false

/-- Those of the nearest nodes that have not been pinged in this tick, the ones seen longest ago first. -/
def checkList (n : DhtNode) : List Node :=
  (((n.table.closest n.table.id (min n.table.size 50)).filter fun m => m.pingedTick < n.tick).insertionSort
    fun a b => a.seenTick ≤ b.seenTick).take (if !n.standaloneTids.entries.isEmpty then 3 else 5)

def pingSome (n : DhtNode) (i j : Nat) : DhtNode :=
  if n.table.isEmpty then n.runRefresh i j
  else n.checkList.foldl (fun n m => n.check (fun m => { m with pingedTick := n.tick }) m) n

/-- The counters of a tick; a node that has slept ages all it knows. -/
def ticked (n : DhtNode) : DhtNode :=
  let now := n.io.now
  let n :=
    if SLEEPING_INTERVAL_MS < now - n.lastTickTime then
      let tick := n.tick + 2 * OLD_NODE
      { n with tick := tick + (8 - tick % 8), refreshTicks := 1 }
    else { n with tick := n.tick + 1 }
  { n with io := n.io.readClock, lastTickTime := now, downHintsPerTick := 0 }

def handleTick (n : DhtNode) (i j : Nat) : DhtNode :=
  let n := n.ticked
  if !n.bootstrapped then n
  else
    let n := if n.tick % 8 = 0 then n.pingSome i j else n
    let n := { n with refreshTicks := n.refreshTicks - 1 }
    if n.refreshTicks = 0 then n.runRefresh i j else n

/-! ## Events -/

def handleCommand (n : DhtNode) : DhtCommand → DhtNode
  | .ping host port =>
    (n.createStandalone ⟨⟨host, port⟩, none, true, CMD_FIND_NODE, some n.table.id, none, none, none⟩ .ping).2
  | .findNode target => n.startQuery target true CMD_FIND_NODE none false none
  | .query params =>
    n.startQuery params.target false params.command params.value params.commit
      (some (params.concurrency.getD n.config.concurrency))
  | .request params host port =>
    (n.createStandalone ⟨⟨host, port⟩, params.token, false, params.command, params.target, params.value,
      params.timeoutMs, params.retries⟩ .userRequest).2
  | .relay toPeer preserveTid => { n with io := n.io.relay toPeer preserveTid }
  | .destroy => { n with destroyed := true }
  | .inboundReplyBytes addr data tokenValid => n.receive data addr .client tokenValid
  | .pingViaSocket target accepted =>
    match n.io.sendRequestViaSocket n.table
      ⟨target, none, true, CMD_FIND_NODE, some n.table.id, none, none, none⟩ accepted with
    | (some tid, io) => { n with io, standaloneTids := n.standaloneTids.insert tid .ping }
    | (none, io) => { n with io }

inductive Event where
  | datagram (data : Bytes) (addr : SocketAddr) (kind : SocketKind) (tokenValid : Bool)
  | drain
  | timeouts
  | tick (i j : Nat)
  | command (c : DhtCommand)

/-- One turn of the loop, which ends when the node is destroyed. -/
def step (n : DhtNode) (e : Event) : DhtNode :=
  if n.destroyed then n
  else
    match e with
    | .datagram data addr kind tokenValid => n.receive data addr kind tokenValid
    | .drain => { n with io := n.io.drain }
    | .timeouts => n.handleTimeouts
    | .tick i j => n.handleTick i j
    | .command c => n.handleCommand c

def reached (config : DhtConfig) (resolved : List String) (tableId : NodeId) (localPort tid : UInt16)
    (clock : Nat → Nat) (tieBreak : Nat) (es : List Event) : DhtNode :=
  run step (spawn config resolved tableId localPort tid clock tieBreak).startBootstrap es

end DhtNode
end Peeroxide.Dht
