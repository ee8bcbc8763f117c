import Mathlib.Logic.Relation
import Peeroxide.Dht.IoSpec
import Peeroxide.Dht.Node

/-!
# What the node does

* `Outer`, `Inner` : what is left alone outside of queries, and by the requests of a query;
* `Move`, `addNodeFromNetwork_moves` : the small steps by which a message feeds the table.
-/

namespace Peeroxide.Dht
open Lib RoutingTable List
namespace DhtNode
variable {n n' n'' : DhtNode}

/-! ## Frames -/

/-- Only the request layer, the table and the requests outside of queries have changed. -/
def Outer (n n' : DhtNode) : Prop :=
  n' = { n with io := n'.io, table := n'.table, standaloneTids := n'.standaloneTids, repinging := n'.repinging }

theorem Outer.refl (n : DhtNode) : Outer n n := rfl

theorem Outer.trans (h : Outer n n') (h' : Outer n' n'') : Outer n n'' := by
  unfold Outer at *
  rw [h'] at ⊢
  rw [h]

/-- Only the request layer, the requests of queries and the number of hints have changed. -/
def Inner (n n' : DhtNode) : Prop :=
  n' = { n with io := n'.io, tidToQuery := n'.tidToQuery, downHintsPerTick := n'.downHintsPerTick }

theorem Inner.refl (n : DhtNode) : Inner n n := rfl

theorem Inner.trans (h : Inner n n') (h' : Inner n' n'') : Inner n n'' := by
  unfold Inner at *
  rw [h'] at ⊢
  rw [h]

theorem createStandalone_cases (n : DhtNode) (params : RequestParams) (s : StandaloneRequest) :
    (∃ tid io, n.io.createRequest n.table params = (some tid, io) ∧
      n.createStandalone params s = (true, { n with io, standaloneTids := n.standaloneTids.insert tid s })) ∨
    ∃ io, n.io.createRequest n.table params = (none, io) ∧ n.createStandalone params s = (false, { n with io }) := by
  unfold createStandalone
  split
  next tid io h =>
    exact .inl ⟨tid, io, h, rfl⟩
  next io h =>
    exact .inr ⟨io, h, rfl⟩

theorem createStandalone_outer (n : DhtNode) (params : RequestParams) (s : StandaloneRequest) :
    Outer n (n.createStandalone params s).2 := by
  rcases createStandalone_cases n params s with ⟨tid, io, -, h⟩ | ⟨io, -, h⟩
  · rw [h]
    rfl
  · rw [h]
    rfl

theorem check_outer (n : DhtNode) (mark : Node → Node) (m : Node) : Outer n (n.check mark m) := by
  have hmark : Outer n { n with table := n.table.modify m.id mark } := rfl
  exact hmark.trans (createStandalone_outer ..)

theorem sendReping_cases (n : DhtNode) (old newNode : Node) :
    let t := n.table.modify old.id fun m => { m with pingedTick := n.tick }
    (∃ tid io, n.io.createRequest t (pingRequest old.peer) = (some tid, io) ∧
      n.sendReping old newNode = { n with
        io, table := t, repinging := n.repinging + 1
        standaloneTids := n.standaloneTids.insert tid (.reping newNode old.id old.seenTick) }) ∨
    ∃ io, n.io.createRequest t (pingRequest old.peer) = (none, io) ∧
      n.sendReping old newNode = { n with io, table := t } := by
  intro t
  unfold sendReping
  rcases createStandalone_cases { n with table := t } (pingRequest old.peer) (.reping newNode old.id old.seenTick) with
    ⟨tid, io, hio, h⟩ | ⟨io, hio, h⟩
  · refine .inl ⟨tid, io, hio, ?_⟩
    dsimp only
    rw [h]
    rfl
  · refine .inr ⟨io, hio, ?_⟩
    dsimp only
    rw [h]
    rfl

theorem createForQuery_inner (n : DhtNode) (params : RequestParams) (entry : Nat × Bool) :
    Inner n (n.createForQuery params entry) := by
  unfold createForQuery
  split <;> rfl

theorem dispatch_inner (queryId : Nat) (n : DhtNode) (req : QueryRequest) : Inner n (dispatch queryId n req) := by
  cases req with
  | query params | commit params => exact createForQuery_inner ..
  | downHint params =>
    unfold dispatch
    dsimp only
    split <;> rfl

theorem dispatchQueryRequests_inner (n : DhtNode) (queryId : Nat) (requests : List QueryRequest) :
    Inner n (n.dispatchQueryRequests queryId requests) := by
  induction requests generalizing n with
  | nil => exact .refl n
  | cons req rest ih => exact (dispatch_inner queryId n req).trans (ih _)

/-! ## Nodes from the network -/

/-- The change that marks a node as pinged, and possibly as seen, at some tick. -/
structure Marks (tick : Nat) (f : Node → Node) : Prop where
  id : ∀ m, (f m).id = m.id
  pinged : ∀ m, (f m).pingedTick = tick
  seen : ∀ m, (f m).seenTick = m.seenTick ∨ (f m).seenTick = tick

variable (tick : Nat) {P : Node → Prop}

theorem marks_pinged : Marks tick fun m => { m with pingedTick := tick } :=
  ⟨fun _ => rfl, fun _ => rfl, fun _ => .inl rfl⟩

theorem marks_hinted : Marks tick fun m => { m with downHints := m.downHints + 1, pingedTick := tick } :=
  ⟨fun _ => rfl, fun _ => rfl, fun _ => .inl rfl⟩

/-- The small steps by which a message feeds the table; `P` holds for the nodes that come in. -/
inductive Move (P : Node → Prop) (n : DhtNode) : DhtNode → Prop
  | marked (id : NodeId) (f : Node → Node) (hf : Marks n.tick f) :
      Move P n { n with table := n.table.modify id f }
  | added (node : Node) (hnode : P node) : Move P n { n with table := (n.table.add node).2 }
  | drained : Move P n { n with table := n.table.drainEvents.2 }
  | reping (old newNode : Node) (hold : old ∈ n.table.nodes) (hpinged : old.pingedTick < n.tick)
      (hboot : n.bootstrapped = true) (hnode : P newNode) : Move P n (n.sendReping old newNode)

theorem Move.outer (h : Move P n n') : Outer n n' := by
  cases h with
  | marked | added | drained => rfl
  | reping old newNode =>
    rcases sendReping_cases n old newNode with ⟨tid, io, -, h⟩ | ⟨io, -, h⟩
    · rw [h]
      rfl
    · rw [h]
      rfl

theorem moves_invariant {I : DhtNode → Prop} (hmove : ∀ n n', Move P n n' → I n → I n')
    (h : Relation.ReflTransGen (Move P) n n') (hn : I n) : I n' := by
  induction h with
  | refl => exact hn
  | tail _ hstep ih => exact hmove _ _ hstep ih

theorem moves_outer (h : Relation.ReflTransGen (Move P) n n') : Outer n n' :=
  moves_invariant (fun _ _ hstep hn => hn.trans hstep.outer) h (.refl n)

theorem oldest_mem {id : NodeId} {old : Node} (h : n.oldest id = some old) :
    old ∈ n.table.nodes ∧ old.pingedTick < n.tick := by
  have hmem := argmin_mem h
  rw [mem_filter, decide_eq_true_eq] at hmem
  exact ⟨mem_of_mem_closest hmem.1, hmem.2⟩

theorem repingEvents_moves (hboot : n.bootstrapped = true) {events : List TableEvent}
    (hevents : ∀ evt ∈ events, P evt.newNode) : Relation.ReflTransGen (Move P) n (n.repingEvents events) := by
  induction events generalizing n with
  | nil => exact .refl
  | cons evt rest ih =>
    have hrest : ∀ evt ∈ rest, P evt.newNode := fun evt hevt => hevents evt (mem_cons_of_mem _ hevt)
    unfold repingEvents
    split
    · exact ih hboot hrest
    next old hold =>
      split
      · exact .refl
      · obtain ⟨hmem, hpinged⟩ := oldest_mem hold
        have hmove : Move P n (n.sendReping old evt.newNode) :=
          .reping old evt.newNode hmem hpinged hboot (hevents evt mem_cons_self)
        have hboot' : (n.sendReping old evt.newNode).bootstrapped = true := by
          rw [hmove.outer]
          exact hboot
        exact .head hmove (ih hboot' hrest)

theorem handleBucketFull_moves (hevents : ∀ evt ∈ n.table.pendingEvents, P evt.newNode) :
    Relation.ReflTransGen (Move P) n n.handleBucketFull := by
  unfold handleBucketFull
  split
  · exact .refl
  next h =>
    rw [Bool.or_eq_true, not_or, Bool.not_eq_true', Bool.not_eq_false] at h
    exact .head .drained (repingEvents_moves (n := { n with table := n.table.drainEvents.2 }) h.1 hevents)

theorem addNodeFromNetwork_moves (fromPeer : Ipv4Peer) (fromId : Option NodeId)
    (hnew : ∀ node : Node, node.id ≠ n.table.id → node.seenTick = n.tick → node.pingedTick = n.tick → P node)
    (hevents : ∀ evt ∈ n.table.pendingEvents, P evt.newNode) :
    Relation.ReflTransGen (Move P) n (n.addNodeFromNetwork fromPeer fromId) := by
  unfold addNodeFromNetwork
  split
  · exact .refl
  next id =>
    split
    · exact .refl
    next hid =>
      split
      · exact .single (.marked id _ ⟨fun _ => rfl, fun _ => rfl, fun _ => .inr rfl⟩)
      · have hnode := hnew ⟨id, fromPeer.host, fromPeer.port, none, n.tick, n.tick, n.tick, 0⟩ hid rfl rfl
        dsimp only
        split
        · exact .single (.added _ hnode)
        · refine .head (.added _ hnode) (handleBucketFull_moves fun evt hevt => ?_)
          rcases mem_pendingEvents_add hevt with hevt | hevt
          · exact hevents evt hevt
          · exact hevt ▸ hnode

theorem addNodeFromNetwork_outer (n : DhtNode) (fromPeer : Ipv4Peer) (fromId : Option NodeId) :
    Outer n (n.addNodeFromNetwork fromPeer fromId) :=
  moves_outer (addNodeFromNetwork_moves fromPeer fromId (fun _ _ _ _ => trivial)
    fun _ _ => trivial)

/-! ## Answers -/

/-- What becomes of a request outside of queries, by an answer or without one. -/
inductive Settled (n : DhtNode) : StandaloneRequest → DhtNode → Prop
  | ping : Settled n .ping n
  | userRequest : Settled n .userRequest n
  | keptOld (newNode : Node) (old : NodeId) (lastSeen : Nat) :
      Settled n (.reping newNode old lastSeen) { n with repinging := n.repinging - 1 }
  | replaced (newNode : Node) (old : NodeId) (lastSeen : Nat) :
      Settled n (.reping newNode old lastSeen)
        { n with repinging := n.repinging - 1, table := ((n.table.remove old).2.add newNode).2 }
  | kept (id : NodeId) (lastSeen : Nat) : Settled n (.check id lastSeen) n
  | removed (id : NodeId) (lastSeen : Nat) :
      Settled n (.check id lastSeen) { n with table := (n.table.remove id).2 }

theorem handleStandaloneResponse_settled (n : DhtNode) (s : StandaloneRequest) :
    Settled n s (n.handleStandaloneResponse s) := by
  cases s with
  | ping => exact .ping
  | userRequest => exact .userRequest
  | reping newNode old lastSeen =>
    unfold handleStandaloneResponse
    dsimp only
    split
    · exact .replaced ..
    · exact .keptOld ..
  | check id lastSeen =>
    unfold handleStandaloneResponse
    dsimp only
    split
    · exact .removed ..
    · exact .kept ..

theorem handleStandaloneTimeout_settled (n : DhtNode) (s : StandaloneRequest) :
    Settled n s (n.handleStandaloneTimeout s) := by
  cases s with
  | ping => exact .ping
  | userRequest => exact .userRequest
  | reping newNode old lastSeen => exact .replaced ..
  | check id lastSeen => exact .removed ..

/-- What the end of a query changes besides the queries: that of the first one ends the bootstrap. -/
inductive Removed (n : DhtNode) : DhtNode → Prop
  | other : Removed n n
  | again (h : n.bootstrapped = true) : Removed n { n with bootstrapQueryId := none }
  | bootstrapped (h : n.bootstrapped = false) (needsIdUpdate : Bool) (t : RoutingTable)
      (ht : t = n.table ∨ ∃ x, t = n.table.rebuildWithId x) :
      Removed n { n with bootstrapQueryId := none, bootstrapped := true, needsIdUpdate, table := t }

theorem onQueryRemoved_removed (n : DhtNode) (queryId : Nat) : Removed n (n.onQueryRemoved queryId) := by
  unfold onQueryRemoved
  split
  · unfold markBootstrapped
    dsimp only
    split
    next h =>
      exact .again h
    next h =>
      rw [Bool.not_eq_true] at h
      split
      · split
        · exact .bootstrapped h _ _ (.inr ⟨_, rfl⟩)
        · exact .bootstrapped h _ _ (.inl rfl)
      · exact .bootstrapped h _ _ (.inl rfl)
  · exact .other

/-- What holds whatever the queries of a node and its requests are, and is kept at the end of the bootstrap. -/
structure Unqueried (I : DhtNode → Prop) : Prop where
  queries : ∀ {n}, I n → ∀ io tidToQuery activeQueries nextQueryId bootstrapQueryId downHintsPerTick,
    I { n with io, tidToQuery, activeQueries, nextQueryId, bootstrapQueryId, downHintsPerTick }
  removed : ∀ {n n'}, I n → Removed n n' → I n'

namespace Unqueried
variable {I : DhtNode → Prop} (U : Unqueried I) (h : I n)
include U h

theorem dispatch (queryId : Nat) (requests : List QueryRequest) : I (n.dispatchQueryRequests queryId requests) := by
  rw [dispatchQueryRequests_inner]
  exact U.queries h ..

theorem removeQuery (queryId : Nat) : I (n.removeQuery queryId) :=
  U.removed (U.queries h ..) (onQueryRemoved_removed { n with activeQueries := n.activeQueries.erase queryId } queryId)

theorem queryCalled (queryId : Nat) (call : RoutingTable → Query → List QueryRequest × Query) :
    I (n.queryCalled queryId call) := by
  unfold DhtNode.queryCalled
  split
  next q hq =>
    have hd : I ({ n with activeQueries := n.activeQueries.insert queryId (call n.table q).2 }.dispatchQueryRequests
        queryId (call n.table q).1) := U.dispatch (U.queries h ..) ..
    dsimp only
    split
    · exact U.removeQuery hd queryId
    · exact hd
  · exact h

theorem commitDone (queryId : Nat) : I (n.commitDone queryId) := by
  unfold DhtNode.commitDone
  split
  next q hq =>
    have hd : I { n with activeQueries := n.activeQueries.insert queryId q.onCommitDone.2 } := U.queries h ..
    split
    · exact U.removeQuery hd queryId
    · exact hd
  · exact U.removeQuery h queryId

theorem insertQuery (target : NodeId) (internal : Bool) (command : UInt64) (value : Option ByteVec)
    (concurrency : Nat) (commit : Bool) : I (n.insertQuery target internal command value concurrency commit) :=
  U.queries (U.dispatch (U.queries h ..) ..) ..

theorem startBootstrap : I n.startBootstrap := by
  unfold DhtNode.startBootstrap
  dsimp only
  split
  · exact U.removed (U.dispatch (U.queries h ..) ..) (onQueryRemoved_removed ..)
  · exact U.queries (U.dispatch (U.queries h ..) ..) ..

end Unqueried

/-- The calls that resolve a request of the first phase. -/
inductive Answers : (RoutingTable → Query → List QueryRequest × Query) → Prop
  | response (data : IoResponseData) : Answers fun t q => q.onResponse t data
  | timeout (toPeer : Ipv4Peer) : Answers fun t q => q.onTimeout t toPeer

/-! ## Every event -/

def refreshes (n : DhtNode) : Bool :=
  n.bootstrapped && ((n.ticked.tick % 8 == 0 && n.table.isEmpty) || n.ticked.refreshTicks - 1 == 0)

def starts (n : DhtNode) : Event → Bool
  | .command (.findNode _) => !n.destroyed
  | .command (.query _) => !n.destroyed
  | .tick _ _ => !n.destroyed && n.refreshes
  | _ => false

def Event.incoming : Event → Bool
  | .datagram .. => true
  | .command (.inboundReplyBytes ..) => true
  | _ => false

section
variable (n : DhtNode)

theorem ticked_table : n.ticked.table = n.table := by
  unfold ticked
  dsimp only
  split <;> rfl

theorem ticked_bootstrapped : n.ticked.bootstrapped = n.bootstrapped := by
  unfold ticked
  dsimp only
  split <;> rfl

theorem runRefresh_refreshTicks (i j : Nat) : (n.runRefresh i j).refreshTicks = REFRESH_TICKS := by
  unfold runRefresh insertQuery
  dsimp only
  rw [dispatchQueryRequests_inner]

theorem createStandalone_table (params : RequestParams) (s : StandaloneRequest) :
    (n.createStandalone params s).2.table = n.table := by
  unfold createStandalone
  split <;> rfl

theorem check_isEmpty (mark : Node → Node) (m : Node) :
    (n.check mark m).table.isEmpty = n.table.isEmpty := by
  unfold check
  rw [createStandalone_table]
  rw [RoutingTable.isEmpty, (modify_frame ..).2.1, RoutingTable.isEmpty]

theorem foldl_check_isEmpty (ms : List Node) :
    (ms.foldl (fun n m => n.check (fun m => { m with pingedTick := n.tick }) m) n).table.isEmpty =
      n.table.isEmpty :=
  ms.foldlRecOn _ (motive := fun n' : DhtNode => n'.table.isEmpty = n.table.isEmpty) rfl fun _ h _ _ =>
    (check_isEmpty ..).trans h

theorem foldl_check_outer (ms : List Node) :
    Outer n (ms.foldl (fun n m => n.check (fun m => { m with pingedTick := n.tick }) m) n) :=
  ms.foldlRecOn _ (.refl n) fun n' h m _ => h.trans (check_outer n' _ m)

end

theorem mem_checkList {m : Node} (h : m ∈ n.checkList) : m ∈ n.table.nodes ∧ m.pingedTick < n.tick := by
  have hmem := mem_of_mem_take h
  rw [mem_insertionSort, mem_filter, decide_eq_true_eq] at hmem
  exact ⟨mem_of_mem_closest hmem.1, hmem.2⟩

/-- What has to be shown of a property so that events keep it, when messages come in only as `N` allows and queries
begin only as `S` allows for a table that is empty or not. The property depends on the transaction ids that were taken
out of the request layer and not handled yet. -/
structure Rule (N : DhtNode → Prop) (S : Bool → Prop) (I : List UInt16 → DhtNode → Prop) : Prop where
  counters : ∀ {B n}, I B n → ∀ refreshTicks lastTickTime downHintsPerTick addrSamples destroyed,
    I B { n with refreshTicks, lastTickTime, downHintsPerTick, addrSamples, destroyed }
  tick : ∀ {n tick}, I [] n → n.tick ≤ tick → I [] { n with tick, io := n.io.readClock }
  drain : ∀ {n}, I [] n → I [] { n with io := n.io.drain }
  relay : ∀ {n}, I [] n → ∀ toPeer preserveTid, I [] { n with io := n.io.relay toPeer preserveTid }
  request : ∀ {n params s}, I [] n → s = .ping ∨ s = .userRequest → I [] (n.createStandalone params s).2
  viaSocket : ∀ {n target accepted}, I [] n → I [] (n.handleCommand (.pingViaSocket target accepted))
  insert : ∀ {n}, I [] n → S n.table.isEmpty → ∀ target internal command value concurrency commit,
    I [] (n.insertQuery target internal command value concurrency commit)
  checks : ∀ {n} {ms : List Node}, I [] n → (∀ m ∈ ms, m ∈ n.table.nodes ∧ m.pingedTick < n.tick) →
    I [] (ms.foldl (fun n m => n.check (fun m => { m with pingedTick := n.tick }) m) n)
  hint : ∀ {n id m}, I [] n → n.table.get id = some m → m.pingedTick < n.tick →
    I [] (n.check (fun m => { m with downHints := m.downHints + 1, pingedTick := n.tick }) m)
  network : ∀ {B n}, I B n → N n → ∀ fromPeer fromId, I B (n.addNodeFromNetwork fromPeer fromId)
  timeouts : ∀ {n}, I [] n →
    I (n.io.checkTimeouts.1.map TimeoutEvent.tid) { n with io := n.io.checkTimeouts.2 }
  response : ∀ {n res io}, I [] n → Io.Processed n.io (some (.response res), io) → I [res.tid] { n with io }
  call : ∀ {B n tid queryId call}, I (tid :: B) n → n.tidToQuery.lookup tid = some (queryId, false) → Answers call →
    I B ({ n with tidToQuery := n.tidToQuery.erase tid }.queryCalled queryId call)
  commit : ∀ {B n tid queryId}, I (tid :: B) n → n.tidToQuery.lookup tid = some (queryId, true) →
    I B ({ n with tidToQuery := n.tidToQuery.erase tid }.commitDone queryId)
  settle : ∀ {B n tid s n'}, I (tid :: B) n → n.tidToQuery.lookup tid = none → n.standaloneTids.lookup tid = some s →
    Settled { n with standaloneTids := n.standaloneTids.erase tid } s n' → I B n'
  unknown : ∀ {B n tid}, I (tid :: B) n → n.tidToQuery.lookup tid = none → n.standaloneTids.lookup tid = none → I B n

namespace Rule
variable {N : DhtNode → Prop} {S : Bool → Prop} {I : List UInt16 → DhtNode → Prop} (R : Rule N S I)
variable {n : DhtNode}
include R

theorem resolve {B : List UInt16} {tid : UInt16}
    {call : RoutingTable → Query → List QueryRequest × Query} {settle : DhtNode → StandaloneRequest → DhtNode}
    (hcall : Answers call) (hsettle : ∀ n s, Settled n s (settle n s)) (h : I (tid :: B) n) :
    I B (n.resolve tid call settle) := by
  unfold DhtNode.resolve
  split
  next queryId isCommit hlookup =>
    cases isCommit with
    | true => exact R.commit h hlookup
    | false => exact R.call h hlookup hcall
  next hnone =>
    split
    next s hlookup =>
      exact R.settle h hnone hlookup (hsettle _ s)
    next hnone' =>
      exact R.unknown h hnone hnone'

theorem handleResponse {res : IncomingResponse} (h : I [res.tid] n) (hN : N n) : I [] (n.handleResponse res) := by
  refine R.resolve (.response _) handleStandaloneResponse_settled ?_
  have hnet := R.network h hN res.fromPeer res.id
  split
  · exact R.counters hnet _ _ _ _ _
  · exact hnet

theorem handleIncomingRequest {req : IncomingRequest} (h : I [] n) : I [] (n.handleIncomingRequest req) := by
  unfold DhtNode.handleIncomingRequest
  split
  · unfold handleDownHintRequest
    split
    · split
      next m hget =>
        split
        next hpinged =>
          exact R.hint h hget hpinged
        · exact h
      · exact h
    · exact h
  · exact h

theorem receive (h : I [] n) (hN : ∀ io, N { n with io }) (data : Bytes) (addr : SocketAddr)
    (kind : SocketKind) (tokenValid : Bool) : I [] (n.receive data addr kind tokenValid) := by
  have hp := Io.processDatagram_processed n.io data addr kind tokenValid
  unfold DhtNode.receive
  generalize n.io.processDatagram data addr kind tokenValid = r at hp
  cases hp with
  | ignored => exact h
  | request req => exact R.handleIncomingRequest (R.network h (hN n.io) req.fromPeer req.id)
  | response res i e hget htid =>
    exact R.handleResponse (R.response h (.response res i e hget htid)) (hN _)

theorem foldl_handleTimeout {evts : List TimeoutEvent} (h : I (evts.map TimeoutEvent.tid) n) :
    I [] (evts.foldl handleTimeout n) := by
  induction evts generalizing n with
  | nil => exact h
  | cons evt rest ih => exact ih (R.resolve (.timeout evt.toPeer) handleStandaloneTimeout_settled h)

section
variable (h : I [] n)
include h

theorem ticked : I [] n.ticked := by
  unfold DhtNode.ticked
  dsimp only
  split
  · have hle : n.tick ≤ n.tick + 2 * OLD_NODE + (8 - (n.tick + 2 * OLD_NODE) % 8) := by omega
    exact R.counters (R.tick h hle) _ _ _ _ _
  · exact R.counters (R.tick h (Nat.le_succ n.tick)) _ _ _ _ _

theorem runRefresh (hS : S n.table.isEmpty) (i j : Nat) : I [] (n.runRefresh i j) :=
  R.insert (R.counters h REFRESH_TICKS _ _ _ _) hS _ _ _ _ _ _

theorem countdown (hS : n.refreshTicks - 1 = 0 → S n.table.isEmpty) (i j : Nat) :
    I [] (let n := { n with refreshTicks := n.refreshTicks - 1 }
      if n.refreshTicks = 0 then n.runRefresh i j else n) := by
  have hcount := R.counters h (n.refreshTicks - 1) n.lastTickTime n.downHintsPerTick n.addrSamples n.destroyed
  dsimp only
  split
  next hzero =>
    exact R.runRefresh hcount (hS hzero) i j
  · exact hcount

theorem handleTick (hS : n.refreshes = true → S n.table.isEmpty) (i j : Nat) :
    I [] (n.handleTick i j) := by
  have ht := R.ticked h
  have htable : n.ticked.table = n.table := ticked_table n
  rw [refreshes, ← ticked_bootstrapped, ← htable] at hS
  unfold DhtNode.handleTick
  dsimp only
  split
  · exact ht
  next hboot =>
    rw [Bool.not_eq_true', Bool.not_eq_false] at hboot
    rw [hboot, Bool.true_and, Bool.or_eq_true, beq_iff_eq] at hS
    split
    next height =>
      unfold pingSome
      split
      · rename_i hempty
        have hrefresh := R.runRefresh ht (hS (.inl (by rw [height, hempty]; rfl))) i j
        refine R.countdown hrefresh (fun hzero => ?_) i j
        rw [runRefresh_refreshTicks] at hzero
        cases hzero
      · have hchecks := R.checks ht fun m hm => mem_checkList hm
        refine R.countdown hchecks (fun hzero => ?_) i j
        rw [foldl_check_isEmpty]
        rw [foldl_check_outer] at hzero
        exact hS (.inr hzero)
    · exact R.countdown ht (fun hzero => hS (.inr hzero)) i j

theorem handleCommand (hlive : n.destroyed = false) (c : DhtCommand)
    (hN : (∃ addr data tokenValid, c = .inboundReplyBytes addr data tokenValid) → ∀ io, N { n with io })
    (hS : n.starts (.command c) = true → S n.table.isEmpty) : I [] (n.handleCommand c) := by
  cases c with
  | ping host port => exact R.request h (.inl rfl)
  | findNode target | query params => exact R.insert h (hS (by rw [starts, hlive]; rfl)) ..
  | request params host port => exact R.request h (.inr rfl)
  | relay toPeer preserveTid => exact R.relay h toPeer preserveTid
  | destroy => exact R.counters h n.refreshTicks n.lastTickTime n.downHintsPerTick n.addrSamples true
  | inboundReplyBytes addr data tokenValid => exact R.receive h (hN ⟨addr, data, tokenValid, rfl⟩) ..
  | pingViaSocket target accepted => exact R.viaSocket h

/-- **Every event keeps what the rule is for.** -/
theorem step (e : Event) (hN : e.incoming = true → ∀ io, N { n with io })
    (hS : n.starts e = true → S n.table.isEmpty) : I [] (n.step e) := by
  unfold DhtNode.step
  split
  · exact h
  next hlive =>
    rw [Bool.not_eq_true] at hlive
    cases e with
    | datagram data addr kind tokenValid => exact R.receive h (hN rfl) ..
    | drain => exact R.drain h
    | timeouts => exact R.foldl_handleTimeout (R.timeouts h)
    | tick i j => exact R.handleTick h (fun hr => hS (by rw [starts, hlive, hr]; rfl)) i j
    | command c =>
      refine R.handleCommand h hlive c (fun hc => hN ?_) hS
      obtain ⟨addr, data, tokenValid, rfl⟩ := hc
      rfl

end

end Rule
end DhtNode
end Peeroxide.Dht
