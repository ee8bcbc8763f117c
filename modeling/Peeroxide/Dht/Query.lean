import Peeroxide.Dht.Io
import Peeroxide.Lib.Nearest

/-!
# Iterative queries

A query asks nodes nearer and nearer to its target, a limited number at a time, and may end with a second phase that
sends its request again to the nearest nodes. The table it falls back on is shared with the node and may change between
calls, so it is an argument. What has been sent over the result channel is kept in the query.
-/

namespace Peeroxide.Dht
open Lib

/-! ## Requests and replies -/

structure QueryNode where
  id : NodeId
  host : String
  port : UInt16
  deriving DecidableEq

def QueryNode.peer (n : QueryNode) : Ipv4Peer := ⟨n.host, n.port⟩

structure QueryReply where
  fromPeer : Ipv4Peer
  fromId : Option NodeId
  token : Option Bytes32
  closerNodes : List Ipv4Peer
  error : UInt64
  value : Option ByteVec
  rtt : Nat
  toPeer : Ipv4Peer
  deriving DecidableEq

structure QueryResult where
  closestReplies : List QueryReply
  successes : UInt32
  errors : UInt32
  deriving DecidableEq

structure IoResponseData where
  fromPeer : Ipv4Peer
  fromId : Option NodeId
  token : Option Bytes32
  closerNodes : List Ipv4Peer
  error : UInt64
  value : Option ByteVec
  rtt : Nat
  toPeer : Ipv4Peer
  deriving DecidableEq

inductive QueryRequest where
  | query (params : RequestParams)
  | commit (params : RequestParams)
  | downHint (params : RequestParams)
  deriving DecidableEq

inductive SeenState where
  | pending (refs : List Ipv4Peer)
  | done
  | down
  deriving DecidableEq

/-- The pending list is a stack with the last element of the source's list in front. What was seen is kept by address;
the source's keys are the texts of the addresses, with the port behind the last colon. -/
structure Query where
  id : Nat
  target : NodeId
  internal : Bool
  command : UInt64
  value : Option ByteVec
  k : Nat
  concurrency : Nat
  commit : Bool
  inflight : Nat
  slowdown : Bool
  successes : UInt32
  errors : UInt32
  fromTable : Bool
  committing : Bool
  commitInflight : Nat
  seen : Ipv4Peer → Option SeenState
  pending : List QueryNode
  closestReplies : List QueryReply
  finished : Bool
  resultTx : Bool
  sent : List QueryResult
  ownId : NodeId

namespace Query

def new (id : Nat) (target : NodeId) (internal : Bool) (command : UInt64) (value : Option ByteVec) (concurrency : Nat)
    (commit : Bool) (ownId : NodeId) : Query where
  id
  target
  internal
  command
  value
  k := K
  concurrency
  commit
  inflight := 0
  slowdown := false
  successes := 0
  errors := 0
  fromTable := false
  committing := false
  commitInflight := 0
  seen := fun _ => none
  pending := []
  closestReplies := []
  finished := false
  resultTx := true
  sent := []
  ownId

/-! ## The nearest replies -/

def sign (c : Int) : Ordering := if c < 0 then .lt else if c = 0 then .eq else .gt

def compare (q : Query) (a b : NodeId) : Int := compareFrom q.target.1 a.1 b.1

/-- There is room, or the id is nearer than the last reply. -/
def isCloser (q : Query) (id : NodeId) : Bool :=
  if q.closestReplies.length < q.k then true
  else
    match q.closestReplies.getLast? with
    | some last =>
      match last.fromId with
      | some lastId => q.compare id lastId < 0
      | none => true
    | none => true

def pushClosest (q : Query) (reply : QueryReply) : Query :=
  match reply.fromId with
  | none => q
  | some mId =>
    let cmp := fun prev : QueryReply =>
      match prev.fromId with
      | some prevId => sign (q.compare prevId mId)
      | none => .lt
    { q with closestReplies := pushNearest q.k cmp reply q.closestReplies }

/-! ## The pending list -/

def DOWN_HINT_CMD : UInt64 := 3

def encodeIpv4Peer6 (peer : Ipv4Peer) : Option ByteVec :=
  match readIpv4 peer.host.toList with
  | some ([a, b, c, d], []) =>
    some ⟨[a, b, c, d] ++ leBytes 2 peer.port.toNat, by
      rw [List.length_append, length_leBytes]
      show 4 + 2 < 2 ^ 64
      decide⟩
  | _ => none

def makeDownHint (referrer down : Ipv4Peer) : Option QueryRequest :=
  (encodeIpv4Peer6 down).map fun value =>
    .downHint ⟨referrer, none, true, DOWN_HINT_CMD, none, some value, none, none⟩

def setSeen (q : Query) (peer : Ipv4Peer) (s : SeenState) : Query :=
  { q with seen := Function.update q.seen peer (some s) }

/-- Whether the caller should stop, a hint for the referrer, and the query. -/
def addPendingReturning (q : Query) (node : QueryNode) (referrer : Option Ipv4Peer) :
    Bool × Option QueryRequest × Query :=
  let closer := q.isCloser node.id
  match q.seen node.peer with
  | some .done => (!closer, none, q)
  | some .down => (!closer, referrer.bind (makeDownHint · node.peer), q)
  | some (.pending refs) =>
    match referrer with
    | some r => (!closer, none, q.setSeen node.peer (.pending (refs ++ [r])))
    | none => (!closer, none, q)
  | none =>
    if !closer then (true, none, q)
    else
      let q := q.setSeen node.peer (.pending referrer.toList)
      (false, none, { q with pending := node :: q.pending })

def addPending (q : Query) (node : QueryNode) : Query := (q.addPendingReturning node none).2.2

def addFromTable (q : Query) (t : RoutingTable) : Query :=
  if q.k ≤ q.pending.length then q
  else
    let q := { q with fromTable := true }
    (t.closest q.target (q.k - q.pending.length)).foldl (fun q n => q.addPending ⟨n.id, n.host, n.port⟩) q

def addNodes (q : Query) (nodes : List (String × UInt16)) : Query :=
  nodes.foldl (fun q (host, port) =>
    if peerId host port = q.ownId then q else q.addPending ⟨peerId host port, host, port⟩) q

/-- The nodes suggested by a reply, up to one that is not closer. -/
def addCloser (q : Query) (referrer : Ipv4Peer) : List Ipv4Peer → List QueryRequest × Query
  | [] => ([], q)
  | node :: rest =>
    if peerId node.host node.port = q.ownId then q.addCloser referrer rest
    else
      let r := q.addPendingReturning ⟨peerId node.host node.port, node.host, node.port⟩ (some referrer)
      if r.1 then (r.2.1.toList, r.2.2)
      else
        let s := r.2.2.addCloser referrer rest
        (r.2.1.toList ++ s.1, s.2)

/-! ## Issuing requests -/

def request (q : Query) (toPeer : Ipv4Peer) (token : Option Bytes32) : RequestParams :=
  ⟨toPeer, token, q.internal, q.command, some q.target, q.value, none, none⟩

/-- Pop the pending list while there is room, skipping nodes that are no longer closer. -/
def issue (q : Query) (limit : Nat) : List QueryNode → List QueryRequest × Query
  | [] => ([], { q with pending := [] })
  | next :: rest =>
    if q.inflight < limit then
      if q.isCloser next.id then
        let r := issue { q with inflight := q.inflight + 1 } limit rest
        (.query (q.request next.peer none) :: r.1, r.2)
      else issue q limit rest
    else ([], { q with pending := next :: rest })

def effectiveConcurrency (q : Query) : Nat := if q.slowdown then min 3 q.concurrency else q.concurrency

def finishInternal (q : Query) : Query :=
  if q.finished then q
  else
    let q := { q with finished := true }
    if q.resultTx then
      { q with resultTx := false, sent := q.sent ++ [⟨q.closestReplies, q.successes, q.errors⟩] }
    else q

def commitRequests (q : Query) : List RequestParams :=
  q.closestReplies.filterMap fun reply => reply.token.map fun token => q.request reply.fromPeer (some token)

def flush (q : Query) : List QueryRequest × Query :=
  if q.committing then ([], q)
  else
    let q := { q with committing := true }
    if !q.commit then ([], q.finishInternal)
    else
      let params := q.commitRequests
      let q := { q with commitInflight := params.length }
      if params.length = 0 then ([], q.finishInternal) else (params.map .commit, q)

/-- When nothing is pending or in flight, fall back on the table if it was not asked and there were few successes, with
`again` for what is found there, and end the first phase otherwise. -/
def drained (again : Query → List QueryRequest × Query) (t : RoutingTable) (q : Query) : List QueryRequest × Query :=
  if !q.pending.isEmpty then ([], q)
  else if q.inflight = 0 then
    if !q.fromTable && q.successes < UInt32.ofNat q.k / 4 then
      let q := q.addFromTable t
      if !q.pending.isEmpty then again q else q.flush
    else q.flush
  else ([], q)

def readMoreWith (again : Query → List QueryRequest × Query) (t : RoutingTable) (q : Query) :
    List QueryRequest × Query :=
  if q.finished || q.committing then ([], q)
  else
    let r := q.issue q.effectiveConcurrency q.pending
    let q := r.2
    let q := if !q.fromTable && q.successes == 0 && q.errors == 0 then { q with slowdown := true } else q
    let s := drained again t q
    (r.1 ++ s.1, s.2)

/-- The second round finds the table asked, so there is no third. -/
def readMore (t : RoutingTable) : Query → List QueryRequest × Query :=
  readMoreWith (readMoreWith (fun q => ([], q)) t) t

/-! ## The calls -/

def pollRequests (q : Query) (t : RoutingTable) : List QueryRequest × Query := readMore t q

def takeReply (q : Query) (data : IoResponseData) : Query :=
  if data.error = 0 then
    let q := { q with successes := q.successes + 1 }
    match data.fromId with
    | some id =>
      if q.isCloser id then
        q.pushClosest ⟨data.fromPeer, data.fromId, data.token, data.closerNodes, data.error, data.value, data.rtt,
          data.toPeer⟩
      else q
    | none => q
  else { q with errors := q.errors + 1 }

def onResponse (q : Query) (t : RoutingTable) (data : IoResponseData) : List QueryRequest × Query :=
  let q := { q with inflight := q.inflight - 1 }
  let q := q.setSeen data.fromPeer .done
  if q.committing then ([], q)
  else
    let q := q.takeReply data
    let r := q.addCloser data.fromPeer data.closerNodes
    let q := r.2
    let q :=
      if !q.fromTable && q.successes + q.errors ≥ UInt32.ofNat q.concurrency then { q with slowdown := false } else q
    let s := readMore t q
    (r.1 ++ s.1, s.2)

def referrers (q : Query) (peer : Ipv4Peer) : List Ipv4Peer :=
  match q.seen peer with
  | some (.pending refs) => refs
  | _ => []

def onTimeout (q : Query) (t : RoutingTable) (toPeer : Ipv4Peer) : List QueryRequest × Query :=
  let refs := q.referrers toPeer
  let q := q.setSeen toPeer .down
  let hints := refs.filterMap (makeDownHint · toPeer)
  let q := { q with inflight := q.inflight - 1, errors := q.errors + 1 }
  if !q.committing then
    let r := readMore t q
    (hints ++ r.1, r.2)
  else (hints, q)

def onCommitDone (q : Query) : Bool × Query :=
  let q := { q with commitInflight := q.commitInflight - 1 }
  if q.commitInflight = 0 then (true, q.finishInternal) else (false, q)

end Query
end Peeroxide.Dht
