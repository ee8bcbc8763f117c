import Peeroxide.Dht.NodeTicks
import Peeroxide.Dht.QueryProgress

/-!
# The requests of the queries

What a query counts as unanswered, the table that says which request belongs to which query, and what the request layer
waits for are kept in three places. They agree as long as every request is accepted and no transaction id comes around
again while it is in use.

Main result: `query_bookkeeping`.
-/

namespace Peeroxide.Dht
open Lib List AList Assoc
variable {rs : List QueryRequest}

theorem tid_ne (start : UInt16) {a b : Nat} (hlt : a < b) (hnear : b < a + 65536) :
    start + UInt16.ofNat a ≠ start + UInt16.ofNat b := by
  intro heq
  have hnat := congrArg UInt16.toNat heq
  rw [UInt16.toNat_add, UInt16.toNat_add, UInt16.toNat_ofNat', UInt16.toNat_ofNat'] at hnat
  omega

/-! ## The request layer -/

/-- Only IPv4 addresses were asked, and at most so many requests were made. -/
def Allowed (bound : Nat) (io : Io) : Prop := (∀ p ∈ io.requested, Ipv4Host p.host) ∧ io.allocated ≤ bound

namespace Io
variable {io : Io} {bound : Nat}
variable {params : RequestParams} {t : RoutingTable}

theorem Created.grows {r : Option UInt16 × Io} (h : Created io params r) :
    (io.destroying = false → params.toPeer ∈ r.2.requested) ∧ (∀ p ∈ io.requested, p ∈ r.2.requested) ∧
      io.allocated ≤ r.2.allocated := by
  cases h with
  | destroying hd => exact ⟨fun hlive => absurd (hd.symm.trans hlive) (by decide), fun _ hp => hp, Nat.le_refl _⟩
  | refused => exact ⟨fun _ => mem_concat_self, fun _ hp => mem_append_left _ hp, Nat.le_refl _⟩
  | failed | queued => exact ⟨fun _ => mem_concat_self, fun _ hp => mem_append_left _ hp, Nat.le_succ _⟩
  | sent e =>
    have hframe := sendInflightAt_frame (io.tracked params.toPeer e) ((io.tracked params.toPeer e).inflight.length - 1)
    rw [hframe.requested, hframe.allocated]
    exact ⟨fun _ => mem_concat_self, fun _ hp => mem_append_left _ hp, Nat.le_succ _⟩

theorem allowed_createRequest (h : Allowed bound (io.createRequest t params).2) : Allowed bound io := by
  obtain ⟨-, hrequested, hallocated⟩ := (createRequest_created io t params).grows
  exact ⟨fun p hp => h.1 p (hrequested p hp), hallocated.trans h.2⟩

end Io

/-! ## The tables -/

section
variable {start : UInt16} {bound : Nat} {held : List (UInt16 × Nat)} {io : Io}
  {tidToQuery tidToQuery' : AList fun _ : UInt16 => Nat × Bool}
  {standaloneTids standaloneTids' : AList fun _ : UInt16 => StandaloneRequest} {tid : UInt16} {queryId : Nat}

/-- The transaction ids count up from `start`, those in use come from fewer than 65536 requests back, and the two tables
share none and hold only such. `held` was taken out of the request layer and has not been handled yet. -/
structure Books (start : UInt16) (bound : Nat) (held : List (UInt16 × Nat)) (io : Io)
    (tidToQuery : AList fun _ : UInt16 => Nat × Bool) (standaloneTids : AList fun _ : UInt16 => StandaloneRequest) :
    Prop where
  alive : io.destroying = false
  next : io.tid = start + UInt16.ofNat io.allocated
  room : bound ≤ io.allocated + 65536
  numbered : ∀ p ∈ held ++ io.live, p.1 = start + UInt16.ofNat p.2 ∧ p.2 < io.allocated ∧ bound ≤ p.2 + 65536
  queries : ∀ tid ∈ tidToQuery, tid ∈ (held ++ io.live).map Prod.fst
  others : ∀ tid ∈ standaloneTids, tid ∈ (held ++ io.live).map Prod.fst
  apart : ∀ tid ∈ tidToQuery, tid ∉ standaloneTids

namespace Books
variable {io' : Io} {peer : Ipv4Peer} {tid : UInt16}

section
variable (h : Books start bound held io tidToQuery standaloneTids)
include h

theorem perm {held' : List (UInt16 × Nat)}
    (hsame : Io.SameCounters io io') (hperm : (held ++ io.live).Perm (held' ++ io'.live)) :
    Books start bound held' io' tidToQuery standaloneTids where
  alive := hsame.destroying.trans h.alive
  next := by rw [hsame.tid, hsame.allocated, h.next]
  room := by rw [hsame.allocated]; exact h.room
  numbered p hp := by rw [hsame.allocated]; exact h.numbered p (hperm.mem_iff.mpr hp)
  queries tid htid := (hperm.map Prod.fst).mem_iff.mp (h.queries tid htid)
  others tid htid := (hperm.map Prod.fst).mem_iff.mp (h.others tid htid)
  apart := h.apart

theorem fresh (hroom : io.allocated < bound) : io.tid ∉ (held ++ io.live).map Prod.fst := by
  intro hmem
  obtain ⟨p, hp, htid⟩ := mem_map.mp hmem
  obtain ⟨hnumber, hlt, hnear⟩ := h.numbered p hp
  rw [hnumber, h.next] at htid
  exact tid_ne start hlt (by omega) htid

/-- The next transaction id is given out, and is waited for at most. -/
theorem grow (hnew : ∀ p ∈ held ++ io'.live, p ∈ held ++ io.live ∨ p = (io.tid, io.allocated))
    (hold : held ++ io.live ⊆ held ++ io'.live) (htid : io'.tid = io.tid + 1)
    (hallocated : io'.allocated = io.allocated + 1) (hdestroying : io'.destroying = io.destroying) :
    Books start bound held io' tidToQuery standaloneTids where
  alive := hdestroying.trans h.alive
  next := by rw [htid, hallocated, h.next, UInt16.ofNat_add, UInt16.add_assoc]; rfl
  room := by
    have hroom := h.room
    omega
  numbered p hp := by
    rcases hnew p hp with hp | rfl
    · obtain ⟨hnumber, hlt, hnear⟩ := h.numbered p hp
      exact ⟨hnumber, by omega, hnear⟩
    · exact ⟨h.next, by omega, h.room⟩
  queries tid htid := map_subset _ hold (h.queries tid htid)
  others tid htid := map_subset _ hold (h.others tid htid)
  apart := h.apart

theorem allocate (hlive : io'.live = io.live) (htid : io'.tid = io.tid + 1)
    (hallocated : io'.allocated = io.allocated + 1) (hdestroying : io'.destroying = io.destroying) :
    Books start bound held io' tidToQuery standaloneTids :=
  h.grow (by rw [hlive]; exact fun _ => .inl) (by rw [hlive]; exact Subset.refl _) htid hallocated hdestroying

theorem accept (ha : Io.Accepted io peer io') : Books start bound held io' tidToQuery standaloneTids := by
  refine h.grow (fun p hp => ?_) ?_ ha.tid ha.allocated ha.destroying
  · rw [ha.live, ← append_assoc, mem_append, mem_singleton] at hp
    exact hp
  · rw [ha.live, ← append_assoc]
    exact subset_append_left _ _

theorem accepted (ha : Io.Accepted io peer io') (hle : io'.allocated ≤ bound) :
    io.tid ∉ tidToQuery ∧ io.tid ∉ standaloneTids ∧ io.tid ∈ (held ++ io'.live).map Prod.fst ∧
      Books start bound held io' tidToQuery standaloneTids := by
  rw [ha.allocated] at hle
  have hfresh := h.fresh hle
  refine ⟨fun hmem => hfresh (h.queries _ hmem), fun hmem => hfresh (h.others _ hmem), ?_, h.accept ha⟩
  rw [ha.live, ← append_assoc, map_append]
  exact mem_append_right _ mem_cons_self

theorem request {t : RoutingTable} {params : RequestParams} (hallowed : Allowed bound (io.createRequest t params).2) :
    ∃ io', io.createRequest t params = (some io.tid, io') ∧ io.tid ∉ tidToQuery ∧ io.tid ∉ standaloneTids ∧
      io.tid ∈ (held ++ io'.live).map Prod.fst ∧ Books start bound held io' tidToQuery standaloneTids := by
  have hrequested := (Io.createRequest_created io t params).grows.1 h.alive
  obtain ⟨io', heq, ha⟩ := Io.createRequest_accepted h.alive t (hallowed.1 _ hrequested)
  have hle := hallowed.2
  rw [heq] at hle
  exact ⟨io', heq, h.accepted ha hle⟩

theorem insertQuery (huse : tid ∈ (held ++ io.live).map Prod.fst) (hnew : tid ∉ standaloneTids) (entry : Nat × Bool) :
    Books start bound held io (tidToQuery.insert tid entry) standaloneTids := by
  refine { h with queries := fun x hx => ?_, apart := fun x hx => ?_ }
  · rcases (mem_insert _).mp hx with rfl | hx
    · exact huse
    · exact h.queries x hx
  · rcases (mem_insert _).mp hx with rfl | hx
    · exact hnew
    · exact h.apart x hx

theorem insertOther (huse : tid ∈ (held ++ io.live).map Prod.fst) (hnew : tid ∉ tidToQuery) (s : StandaloneRequest) :
    Books start bound held io tidToQuery (standaloneTids.insert tid s) := by
  refine { h with others := fun x hx => ?_, apart := fun x hx hmem => ?_ }
  · rcases (mem_insert _).mp hx with rfl | hx
    · exact huse
    · exact h.others x hx
  · rcases (mem_insert _).mp hmem with rfl | hmem
    · exact hnew hx
    · exact h.apart x hx hmem

end

theorem handled {p : UInt16 × Nat} (h : Books start bound (p :: held) io tidToQuery standaloneTids)
    (hqueries : ∀ tid ∈ tidToQuery', tid ≠ p.1 ∧ tid ∈ tidToQuery)
    (hothers : ∀ tid ∈ standaloneTids', tid ≠ p.1 ∧ tid ∈ standaloneTids) :
    Books start bound held io tidToQuery' standaloneTids' where
  alive := h.alive
  next := h.next
  room := h.room
  numbered q hq := h.numbered q (mem_cons_of_mem _ hq)
  queries tid htid := (mem_cons.mp (h.queries tid (hqueries tid htid).2)).resolve_left (hqueries tid htid).1
  others tid htid := (mem_cons.mp (h.others tid (hothers tid htid).2)).resolve_left (hothers tid htid).1
  apart tid htid hmem := h.apart tid (hqueries tid htid).2 (hothers tid hmem).2

end Books

/-! ## The queries -/

def requestsOf (tidToQuery : AList fun _ : UInt16 => Nat × Bool) (queryId : Nat) (isCommit : Bool) : Nat :=
  tidToQuery.entries.countP fun entry => entry.2 = (queryId, isCommit)

theorem requestsOf_insert (h : tid ∉ tidToQuery) (entry : Nat × Bool) (queryId : Nat) (isCommit : Bool) :
    requestsOf (tidToQuery.insert tid entry) queryId isCommit =
      requestsOf tidToQuery queryId isCommit + if entry = (queryId, isCommit) then 1 else 0 := by
  have hcount := countP_insert_of_notMem (b := entry) (fun e => decide (e.2 = (queryId, isCommit))) h
  simp only [decide_eq_true_eq] at hcount
  exact hcount

theorem requestsOf_erase {entry : Nat × Bool} (h : tidToQuery.lookup tid = some entry) (queryId : Nat)
    (isCommit : Bool) : requestsOf tidToQuery queryId isCommit =
      requestsOf (tidToQuery.erase tid) queryId isCommit + if entry = (queryId, isCommit) then 1 else 0 := by
  have hcount := Assoc.countP_erase (fun e => decide (e.2 = (queryId, isCommit))) h
  simp only [decide_eq_true_eq] at hcount
  exact hcount

/-- The active queries count their requests in the table, and query ids are not given out again. -/
structure Agree (tidToQuery : AList fun _ : UInt16 => Nat × Bool) (activeQueries : AList fun _ : Nat => Query)
    (nextQueryId : Nat) : Prop where
  issued : ∀ tid entry, tidToQuery.lookup tid = some entry → entry.1 < nextQueryId
  known : ∀ queryId q, activeQueries.lookup queryId = some q → queryId < nextQueryId
  sound : ∀ queryId q, activeQueries.lookup queryId = some q → ∃ m asked,
    Query.Sound m q asked (requestsOf tidToQuery queryId false) (requestsOf tidToQuery queryId true)

theorem Agree.change {activeQueries activeQueries' : AList fun _ : Nat => Query} {nextQueryId nextQueryId' : Nat}
    (h : Agree tidToQuery activeQueries nextQueryId)
    (hnext : nextQueryId ≤ nextQueryId') (hid : queryId < nextQueryId')
    (hissued : ∀ tid entry, tidToQuery'.lookup tid = some entry → entry.1 = queryId ∨ tidToQuery.lookup tid = some entry)
    (hother : ∀ queryId', queryId' ≠ queryId → ∀ isCommit,
      requestsOf tidToQuery' queryId' isCommit = requestsOf tidToQuery queryId' isCommit)
    (hactive : ∀ queryId' q, activeQueries'.lookup queryId' = some q →
      (queryId' ≠ queryId ∧ activeQueries.lookup queryId' = some q) ∨ queryId' = queryId ∧ ∃ m asked,
        Query.Sound m q asked (requestsOf tidToQuery' queryId false) (requestsOf tidToQuery' queryId true)) :
    Agree tidToQuery' activeQueries' nextQueryId' where
  issued tid entry hlookup := by
    rcases hissued tid entry hlookup with heq | hlookup
    · rwa [heq]
    · exact (h.issued tid entry hlookup).trans_le hnext
  known queryId' q hlookup := by
    rcases hactive queryId' q hlookup with ⟨-, hlookup⟩ | ⟨rfl, -⟩
    · exact (h.known queryId' q hlookup).trans_le hnext
    · exact hid
  sound queryId' q hlookup := by
    rcases hactive queryId' q hlookup with ⟨hne, hlookup⟩ | ⟨rfl, hsound⟩
    · rw [hother queryId' hne, hother queryId' hne]
      exact h.sound queryId' q hlookup
    · exact hsound

/-! ## Requests of a query -/

/-- What the requests of a query add to the table. -/
structure Dispatched (queryId : Nat) (rs : List QueryRequest) (tidToQuery tidToQuery' : AList fun _ : UInt16 => Nat × Bool) :
    Prop where
  issued : ∀ tid entry, tidToQuery'.lookup tid = some entry → entry.1 = queryId ∨ tidToQuery.lookup tid = some entry
  first : requestsOf tidToQuery' queryId false = requestsOf tidToQuery queryId false + (phase1 rs).length
  second : requestsOf tidToQuery' queryId true = requestsOf tidToQuery queryId true + (commits rs).length
  other : ∀ queryId', queryId' ≠ queryId → ∀ isCommit,
    requestsOf tidToQuery' queryId' isCommit = requestsOf tidToQuery queryId' isCommit

theorem Dispatched.append {rs' : List QueryRequest} {t : AList fun _ : UInt16 => Nat × Bool}
    (h : Dispatched queryId rs tidToQuery tidToQuery') (h' : Dispatched queryId rs' tidToQuery' t) :
    Dispatched queryId (rs ++ rs') tidToQuery t where
  issued tid entry hlookup := (h'.issued tid entry hlookup).elim .inl fun hlookup => h.issued tid entry hlookup
  first := by rw [h'.first, h.first, phase1_append, length_append, Nat.add_assoc]
  second := by rw [h'.second, h.second, commits_append, length_append, Nat.add_assoc]
  other queryId' hne isCommit := (h'.other queryId' hne isCommit).trans (h.other queryId' hne isCommit)

theorem dispatched_nothing (queryId : Nat) (hfirst : phase1 rs = []) (hsecond : commits rs = [])
    (tidToQuery : AList fun _ : UInt16 => Nat × Bool) : Dispatched queryId rs tidToQuery tidToQuery where
  issued _ _ hlookup := .inr hlookup
  first := by rw [hfirst]; rfl
  second := by rw [hsecond]; rfl
  other _ _ _ := rfl

theorem dispatched_insert (hnew : tid ∉ tidToQuery) (queryId : Nat) (isCommit : Bool)
    (hfirst : (phase1 rs).length = if isCommit then 0 else 1) (hsecond : (commits rs).length = if isCommit then 1 else 0) :
    Dispatched queryId rs tidToQuery (tidToQuery.insert tid (queryId, isCommit)) where
  issued _ _ hlookup := (lookup_insert_some hlookup).imp (fun hentry => by rw [hentry.2]) id
  first := by
    rw [requestsOf_insert hnew, hfirst]
    cases isCommit <;> simp
  second := by
    rw [requestsOf_insert hnew, hsecond]
    cases isCommit <;> simp
  other queryId' hne isCommit' := by
    rw [requestsOf_insert hnew, if_neg fun heq => hne (Prod.mk.inj heq).1.symm]
    rfl

end

namespace DhtNode
variable {start : UInt16} {bound : Nat} {held : List (UInt16 × Nat)} {n n' : DhtNode}
variable {call : RoutingTable → Query → List QueryRequest × Query} {entry : Nat × Bool} {io : Io} {m queryId : Nat}
  {q : Query} {req : QueryRequest} {rs : List QueryRequest}

theorem createForQuery_io (n : DhtNode) (params : RequestParams) (entry : Nat × Bool) :
    (n.createForQuery params entry).io = (n.io.createRequest n.table params).2 := by
  unfold createForQuery
  split
  next heq =>
    rw [heq]
  next heq =>
    rw [heq]

theorem createStandalone_io (n : DhtNode) (params : RequestParams) (s : StandaloneRequest) :
    (n.createStandalone params s).2.io = (n.io.createRequest n.table params).2 := by
  rcases createStandalone_cases n params s with ⟨tid, io, hio, heq⟩ | ⟨io, hio, heq⟩
  · rw [hio, heq]
  · rw [hio, heq]

theorem allowed_dispatch (h : Allowed bound (dispatch queryId n req).io) : Allowed bound n.io := by
  cases req with
  | query params | commit params =>
    rw [dispatch, createForQuery_io] at h
    exact Io.allowed_createRequest h
  | downHint params =>
    unfold dispatch at h
    dsimp only at h
    split at h
    · exact Io.allowed_createRequest h
    · exact h

theorem allowed_dispatchQueryRequests
    (h : Allowed bound (n.dispatchQueryRequests queryId rs).io) : Allowed bound n.io := by
  induction rs generalizing n with
  | nil => exact h
  | cons req rs ih => exact allowed_dispatch (ih h)

section
variable (h : Books start bound held n.io n.tidToQuery n.standaloneTids)
include h

theorem books_createForQuery {params : RequestParams} (hallowed : Allowed bound (n.createForQuery params entry).io) :
    n.io.tid ∉ n.tidToQuery ∧ (n.createForQuery params entry).tidToQuery = n.tidToQuery.insert n.io.tid entry ∧
      Books start bound held (n.createForQuery params entry).io (n.createForQuery params entry).tidToQuery
        (n.createForQuery params entry).standaloneTids := by
  rw [createForQuery_io] at hallowed
  obtain ⟨io', heq, hquery, hother, huse, hbooks⟩ := h.request hallowed
  unfold createForQuery
  rw [heq]
  exact ⟨hquery, rfl, hbooks.insertQuery huse hother entry⟩

theorem books_dispatch (hallowed : Allowed bound (dispatch queryId n req).io) :
    Books start bound held (dispatch queryId n req).io (dispatch queryId n req).tidToQuery
      (dispatch queryId n req).standaloneTids ∧
    Dispatched queryId [req] n.tidToQuery (dispatch queryId n req).tidToQuery := by
  cases req with
  | query params | commit params =>
    obtain ⟨hnew, heq, hbooks⟩ := books_createForQuery h hallowed
    refine ⟨hbooks, ?_⟩
    rw [dispatch, heq]
    exact dispatched_insert hnew queryId _ rfl rfl
  | downHint params =>
    unfold dispatch at hallowed ⊢
    dsimp only at hallowed ⊢
    split
    next hfew =>
      rw [if_pos hfew] at hallowed
      obtain ⟨io', heq, -, -, -, hbooks⟩ := h.request hallowed
      refine ⟨?_, dispatched_nothing queryId rfl rfl _⟩
      rw [heq]
      exact hbooks
    · exact ⟨h, dispatched_nothing queryId rfl rfl _⟩

theorem books_dispatchQueryRequests (hallowed : Allowed bound (n.dispatchQueryRequests queryId rs).io) :
    Books start bound held (n.dispatchQueryRequests queryId rs).io (n.dispatchQueryRequests queryId rs).tidToQuery
      (n.dispatchQueryRequests queryId rs).standaloneTids ∧
    Dispatched queryId rs n.tidToQuery (n.dispatchQueryRequests queryId rs).tidToQuery := by
  induction rs generalizing n with
  | nil => exact ⟨h, dispatched_nothing queryId rfl rfl _⟩
  | cons req rs ih =>
    obtain ⟨hbooks, hone⟩ := books_dispatch h (allowed_dispatchQueryRequests hallowed)
    obtain ⟨hbooks', hrest⟩ := ih hbooks hallowed
    exact ⟨hbooks', hone.append hrest⟩

end

/-! ## Every event -/

/-- The books are kept, with the transaction ids that were taken out and not handled yet. -/
def Kept (start : UInt16) (bound : Nat) (B : List UInt16) (n : DhtNode) : Prop :=
  ∃ held, held.map Prod.fst = B ∧ Books start bound held n.io n.tidToQuery n.standaloneTids ∧
    Agree n.tidToQuery n.activeQueries n.nextQueryId

/-- The books are kept as long as only what is allowed was asked for. -/
def Keeps (start : UInt16) (bound : Nat) (B : List UInt16) (n : DhtNode) : Prop :=
  Allowed bound n.io → Kept start bound B n

variable {B : List UInt16} {tid : UInt16}

section
variable (h : Keeps start bound B n)
include h

theorem Keeps.quiet (hsame : Io.SameCounters n.io io) (hlive : io.live = n.io.live) :
    Keeps start bound B { n with io } := by
  intro hallowed
  obtain ⟨held, hB, hbooks, hagree⟩ := h ⟨hsame.requested ▸ hallowed.1, hsame.allocated ▸ hallowed.2⟩
  exact ⟨held, hB, hbooks.perm hsame (by rw [hlive]), hagree⟩

theorem Keeps.relay (toPeer : Ipv4Peer) (preserveTid : Option UInt16) :
    Keeps start bound B { n with io := n.io.relay toPeer preserveTid } := by
  rcases Io.relay_cases n.io toPeer preserveTid with heq | heq
  · rw [heq]
    exact h
  · rw [heq]
    intro hallowed
    obtain ⟨held, hB, hbooks, hagree⟩ := h ⟨hallowed.1, (Nat.le_succ _).trans hallowed.2⟩
    exact ⟨held, hB, hbooks.allocate rfl rfl rfl rfl, hagree⟩

theorem Keeps.createStandalone (params : RequestParams) (s : StandaloneRequest) :
    Keeps start bound B (n.createStandalone params s).2 := by
  intro hallowed
  rw [createStandalone_io] at hallowed
  obtain ⟨held, hB, hbooks, hagree⟩ := h (Io.allowed_createRequest hallowed)
  obtain ⟨io', heq, hquery, -, huse, hbooks'⟩ := hbooks.request hallowed
  unfold DhtNode.createStandalone
  rw [heq]
  exact ⟨held, hB, hbooks'.insertOther huse hquery s, hagree⟩

theorem Keeps.viaSocket (target : Ipv4Peer) (accepted : Bool) :
    Keeps start bound B (n.handleCommand (.pingViaSocket target accepted)) := by
  have hsent := Io.sendRequestViaSocket_sentVia n.io n.table
    ⟨target, none, true, CMD_FIND_NODE, some n.table.id, none, none, none⟩ accepted
  unfold handleCommand
  dsimp only
  generalize n.io.sendRequestViaSocket _ _ _ = r at hsent
  cases hsent with
  | destroying => exact h
  | refused =>
    intro hallowed
    obtain ⟨held, hB, hbooks, hagree⟩ := h ⟨fun p hp => hallowed.1 p (mem_append_left _ hp), hallowed.2⟩
    exact ⟨held, hB, { hbooks with }, hagree⟩
  | failed =>
    intro hallowed
    obtain ⟨held, hB, hbooks, hagree⟩ :=
      h ⟨fun p hp => hallowed.1 p (mem_append_left _ hp), (Nat.le_succ _).trans hallowed.2⟩
    exact ⟨held, hB, hbooks.allocate rfl rfl rfl rfl, hagree⟩
  | sent e he hd =>
    intro hallowed
    obtain ⟨held, hB, hbooks, hagree⟩ :=
      h ⟨fun p hp => hallowed.1 p (mem_append_left _ hp), (Nat.le_succ _).trans hallowed.2⟩
    have ha : Io.Accepted n.io target { n.io.tracked target e with
        log := n.io.log ++ [⟨n.io.allocated, 0, n.io.congestion.isFull⟩] } := { Io.accepted_tracked he with }
    obtain ⟨hquery, -, huse, hbooks'⟩ := hbooks.accepted ha hallowed.2
    exact ⟨held, hB, hbooks'.insertOther huse hquery .ping, hagree⟩

theorem Keeps.checks (ms : List Node) :
    Keeps start bound B (ms.foldl (fun n m => n.check (fun m => { m with pingedTick := n.tick }) m) n) := by
  refine ms.foldlRecOn _ h fun n h m _ => ?_
  have hmarked : Keeps start bound B
      { n with table := n.table.modify m.id fun m => { m with pingedTick := n.tick } } := h
  exact hmarked.createStandalone _ _

theorem Keeps.network (fromPeer : Ipv4Peer) (fromId : Option NodeId) :
    Keeps start bound B (n.addNodeFromNetwork fromPeer fromId) := by
  refine moves_invariant (fun n n' hmove h => ?_)
    (addNodeFromNetwork_moves fromPeer fromId (fun _ _ _ _ => trivial) fun _ _ => trivial) h
  cases hmove with
  | marked | added | drained => exact h
  | reping old newNode =>
    have hmarked : Keeps start bound B
        { n with table := n.table.modify old.id fun m => { m with pingedTick := n.tick } } := h
    have hsent := hmarked.createStandalone (pingRequest old.peer) (.reping newNode old.id old.seenTick)
    unfold sendReping
    dsimp only
    split
    · exact hsent
    · exact hsent

end

/-! ## Answers -/

theorem Keeps.timeouts (h : Keeps start bound [] n) :
    Keeps start bound (n.io.checkTimeouts.1.map TimeoutEvent.tid) { n with io := n.io.checkTimeouts.2 } := by
  have hsame := Io.checkTimeouts_frame n.io
  obtain ⟨gone, htids, hperm⟩ := Io.checkTimeouts_perm n.io
  intro hallowed
  obtain ⟨held, hB, hbooks, hagree⟩ := h ⟨hsame.requested ▸ hallowed.1, hsame.allocated ▸ hallowed.2⟩
  rw [map_eq_nil_iff] at hB
  subst hB
  exact ⟨gone, htids.symm, hbooks.perm hsame hperm, hagree⟩

theorem Keeps.response (h : Keeps start bound [] n) {res : IncomingResponse}
    (hp : Io.Processed n.io (some (.response res), io)) : Keeps start bound [res.tid] { n with io } := by
  cases hp with
  | response _ i e hget htid =>
    intro hallowed
    obtain ⟨held, hB, hbooks, hagree⟩ := h hallowed
    rw [map_eq_nil_iff] at hB
    subst hB
    refine ⟨[(e.tid, e.serial)], by rw [← htid]; rfl, hbooks.perm ⟨rfl, rfl, rfl, rfl⟩ ?_, hagree⟩
    exact (perm_swapRemove hget).map _

theorem Kept.removed (h : Kept start bound B n) (hr : Removed n n') : Kept start bound B n' := by
  cases hr with
  | other | again | bootstrapped => exact h

theorem Removed.io_eq (hr : Removed n n') : n'.io = n.io := by
  cases hr with
  | other | again | bootstrapped => rfl

theorem Keeps.removed (h : Keeps start bound B n) (hr : Removed n n') : Keeps start bound B n' :=
  fun hallowed => (h (hr.io_eq ▸ hallowed)).removed hr

theorem removeQuery_io (n : DhtNode) (queryId : Nat) : (n.removeQuery queryId).io = n.io :=
  (onQueryRemoved_removed { n with activeQueries := n.activeQueries.erase queryId } queryId).io_eq

theorem settled_io (n : DhtNode) (queryId : Nat) (done : Bool) :
    (if done then n.removeQuery queryId else n).io = n.io := by
  split
  · exact removeQuery_io n queryId
  · rfl

theorem Kept.uncons (h : Kept start bound (tid :: B) n) : ∃ p held, p.1 = tid ∧ held.map Prod.fst = B ∧
    Books start bound (p :: held) n.io n.tidToQuery n.standaloneTids ∧
    Agree n.tidToQuery n.activeQueries n.nextQueryId := by
  obtain ⟨held, hB, hbooks, hagree⟩ := h
  cases held with
  | nil => cases hB
  | cons p held =>
    rw [map_cons, List.cons.injEq] at hB
    exact ⟨p, held, hB.1, hB.2, hbooks, hagree⟩

theorem books_erase {p : UInt16 × Nat} (h : Books start bound (p :: held) n.io n.tidToQuery n.standaloneTids)
    (hlookup : n.tidToQuery.lookup p.1 = some entry) :
    Books start bound held n.io (n.tidToQuery.erase p.1) n.standaloneTids := by
  have hmem : p.1 ∈ n.tidToQuery := mem_of_lookup hlookup
  refine h.handled (fun tid htid => mem_erase.mp htid) fun tid htid => ⟨?_, htid⟩
  rintro rfl
  exact h.apart p.1 hmem htid

theorem requestsOf_erase_of_ne (hlookup : n.tidToQuery.lookup tid = some entry)
    (hne : queryId ≠ entry.1) (isCommit : Bool) :
    requestsOf (n.tidToQuery.erase tid) queryId isCommit = requestsOf n.tidToQuery queryId isCommit := by
  rw [requestsOf_erase hlookup queryId isCommit, if_neg fun heq => hne (congrArg Prod.fst heq).symm]
  rfl

theorem agree_erase (h : Agree n.tidToQuery n.activeQueries n.nextQueryId)
    (hlookup : n.tidToQuery.lookup tid = some entry) {activeQueries : AList fun _ : Nat => Query}
    (hactive : ∀ queryId q, activeQueries.lookup queryId = some q →
      (queryId ≠ entry.1 ∧ n.activeQueries.lookup queryId = some q) ∨ queryId = entry.1 ∧ ∃ m asked, Query.Sound m q asked
        (requestsOf (n.tidToQuery.erase tid) entry.1 false) (requestsOf (n.tidToQuery.erase tid) entry.1 true)) :
    Agree (n.tidToQuery.erase tid) activeQueries n.nextQueryId :=
  h.change (Nat.le_refl _) (h.issued tid entry hlookup) (fun _ _ hentry => .inr (lookup_erase_some hentry).2)
    (fun _ hne isCommit => requestsOf_erase_of_ne hlookup hne isCommit) hactive

theorem Answers.sound (h : Answers call) {a c : Nat}
    {asked : List Ipv4Peer} (hs : Query.Sound m q asked (a + 1) c) (t : RoutingTable) :
    Query.Absorbed m asked a c (call t q) := by
  cases h with
  | response data => exact (hs.onResponse t data).1
  | timeout toPeer => exact (hs.onTimeout t toPeer).1

theorem Kept.settle {o : DhtNode} {done : Bool} (hbooks : Books start bound held n.io n.tidToQuery n.standaloneTids)
    (hactive : n.activeQueries = o.activeQueries.insert queryId q)
    (hagree : ∀ activeQueries : AList fun _ : Nat => Query, (∀ queryId' q', activeQueries.lookup queryId' = some q' →
      (queryId' ≠ queryId ∧ o.activeQueries.lookup queryId' = some q') ∨ queryId' = queryId ∧ q' = q) →
      Agree n.tidToQuery activeQueries n.nextQueryId) :
    Kept start bound (held.map Prod.fst) (if done then n.removeQuery queryId else n) := by
  have hinserted : ∀ queryId' q', n.activeQueries.lookup queryId' = some q' →
      (queryId' ≠ queryId ∧ o.activeQueries.lookup queryId' = some q') ∨ queryId' = queryId ∧ q' = q := by
    intro queryId' q' hq
    rw [hactive] at hq
    by_cases hid : queryId' = queryId
    · rw [hid, lookup_insert] at hq
      exact .inr ⟨hid, (Option.some.inj hq).symm⟩
    · rw [lookup_insert_ne hid] at hq
      exact .inl ⟨hid, hq⟩
  split
  · refine Kept.removed (n := { n with activeQueries := n.activeQueries.erase queryId })
      ⟨held, rfl, hbooks, hagree _ fun queryId' q' hq => ?_⟩ (onQueryRemoved_removed _ queryId)
    obtain ⟨hne, hq⟩ := lookup_erase_some hq
    exact hinserted queryId' q' hq
  · exact ⟨held, rfl, hbooks, hagree _ hinserted⟩

section
variable (h : Keeps start bound (tid :: B) n)
include h

theorem Keeps.queryCalled (hlookup : n.tidToQuery.lookup tid = some (queryId, false)) (hcall : Answers call) :
    Keeps start bound B ({ n with tidToQuery := n.tidToQuery.erase tid }.queryCalled queryId call) := by
  have hissued : ∀ tid' entry, (n.tidToQuery.erase tid).lookup tid' = some entry →
      n.tidToQuery.lookup tid' = some entry := fun _ _ hentry => (lookup_erase_some hentry).2
  unfold DhtNode.queryCalled
  dsimp only
  split
  next q hq =>
    generalize hr : call n.table q = r
    generalize hm : dispatchQueryRequests _ queryId r.1 = m
    have hinner := hm ▸ dispatchQueryRequests_inner _ queryId r.1
    intro hallowed
    rw [settled_io, ← hm] at hallowed
    have hbefore := allowed_dispatchQueryRequests hallowed
    obtain ⟨p, held, rfl, rfl, hbooks, hagree⟩ := (h hbefore).uncons
    obtain ⟨hbooks', hd⟩ := books_dispatchQueryRequests (by exact books_erase hbooks hlookup) hallowed
    rw [hm] at hbooks' hd
    refine Kept.settle hbooks' (by rw [hinner]) fun activeQueries hactive => ?_
    have hnext : m.nextQueryId = n.nextQueryId := by rw [hinner]
    rw [hnext]
    refine hagree.change (Nat.le_refl _) (hagree.known queryId q hq)
      (fun tid' entry hentry => (hd.issued tid' entry hentry).imp_right (hissued tid' entry))
      (fun queryId' hne isCommit => (hd.other queryId' hne isCommit).trans (requestsOf_erase_of_ne hlookup hne isCommit))
      fun queryId' q' hq' => (hactive queryId' q' hq').imp_right fun ⟨hid, hnew⟩ => ⟨hid, ?_⟩
    obtain ⟨k, asked, hsound⟩ := hagree.sound queryId q hq
    rw [requestsOf_erase hlookup queryId false, requestsOf_erase hlookup queryId true, if_pos rfl,
      if_neg (by simp)] at hsound
    have hsound' := hcall.sound hsound n.table
    rw [hr] at hsound'
    rw [hnew, hd.first, hd.second]
    exact ⟨k, _, hsound'⟩
  next hnone =>
    intro hallowed
    obtain ⟨p, held, rfl, hB, hbooks, hagree⟩ := (h hallowed).uncons
    refine ⟨held, hB, books_erase hbooks hlookup, agree_erase hagree hlookup fun queryId' q hq => .inl ⟨?_, hq⟩⟩
    rintro rfl
    rw [hnone] at hq
    cases hq

theorem Keeps.commitDone (hlookup : n.tidToQuery.lookup tid = some (queryId, true)) :
    Keeps start bound B ({ n with tidToQuery := n.tidToQuery.erase tid }.commitDone queryId) := by
  unfold DhtNode.commitDone
  split
  next q hq =>
    intro hallowed
    rw [settled_io] at hallowed
    obtain ⟨p, held, rfl, rfl, hbooks, hagree⟩ := (h hallowed).uncons
    refine Kept.settle (books_erase hbooks hlookup) (o := n) rfl fun activeQueries hactive => ?_
    refine agree_erase hagree hlookup fun queryId' q' hq' =>
      (hactive queryId' q' hq').imp_right fun ⟨hid, hnew⟩ => ⟨hid, ?_⟩
    obtain ⟨k, asked, hsound⟩ := hagree.sound queryId q hq
    rw [requestsOf_erase hlookup queryId false, requestsOf_erase hlookup queryId true, if_neg (by simp),
      if_pos rfl] at hsound
    rw [hnew]
    exact ⟨k, asked, hsound.onCommitDone.1⟩
  · intro hallowed
    rw [removeQuery_io] at hallowed
    obtain ⟨p, held, rfl, hB, hbooks, hagree⟩ := (h hallowed).uncons
    refine Kept.removed (n := { n with
        tidToQuery := n.tidToQuery.erase p.1, activeQueries := n.activeQueries.erase queryId })
      ⟨held, hB, books_erase hbooks hlookup, agree_erase hagree hlookup fun queryId' q hq => .inl ?_⟩
      (onQueryRemoved_removed _ queryId)
    exact lookup_erase_some hq

theorem Keeps.settled {s : StandaloneRequest}
    (hnone : n.tidToQuery.lookup tid = none) (hs : Settled { n with standaloneTids := n.standaloneTids.erase tid } s n') :
    Keeps start bound B n' := by
  have herased : Keeps start bound B { n with standaloneTids := n.standaloneTids.erase tid } := by
    intro hallowed
    obtain ⟨p, held, rfl, hB, hbooks, hagree⟩ := (h hallowed).uncons
    refine ⟨held, hB, hbooks.handled (fun tid' htid' => ⟨?_, htid'⟩) (fun tid' htid' => mem_erase.mp htid'), hagree⟩
    rintro rfl
    exact lookup_eq_none.mp hnone htid'
  cases hs with
  | ping | userRequest | keptOld | replaced | kept | removed => exact herased

theorem Keeps.unknown (hquery : n.tidToQuery.lookup tid = none)
    (hother : n.standaloneTids.lookup tid = none) : Keeps start bound B n := by
  intro hallowed
  obtain ⟨p, held, rfl, hB, hbooks, hagree⟩ := (h hallowed).uncons
  refine ⟨held, hB, hbooks.handled (fun tid' htid' => ⟨?_, htid'⟩) (fun tid' htid' => ⟨?_, htid'⟩), hagree⟩
  · rintro rfl
    exact lookup_eq_none.mp hquery htid'
  · rintro rfl
    exact lookup_eq_none.mp hother htid'

end

/-! ## New queries -/

theorem agree_ask (h : Agree n.tidToQuery n.activeQueries n.nextQueryId)
    (hsound : Query.Sound m q [] 0 0) (t : RoutingTable) {tidToQuery : AList fun _ : UInt16 => Nat × Bool}
    (hd : Dispatched n.nextQueryId (q.pollRequests t).1 n.tidToQuery tidToQuery) :
    Agree tidToQuery n.activeQueries (n.nextQueryId + 1) ∧
      Agree tidToQuery (n.activeQueries.insert n.nextQueryId (q.pollRequests t).2) (n.nextQueryId + 1) := by
  have hunused : ∀ isCommit, requestsOf n.tidToQuery n.nextQueryId isCommit = 0 := by
    intro isCommit
    refine countP_eq_zero.mpr fun entry hentry hid => ?_
    have hlt := h.issued entry.1 entry.2 (mem_lookup_iff.mpr hentry)
    rw [of_decide_eq_true hid] at hlt
    exact Nat.lt_irrefl _ hlt
  have hold : ∀ queryId q', n.activeQueries.lookup queryId = some q' → queryId ≠ n.nextQueryId :=
    fun queryId q' hq => (h.known queryId q' hq).ne
  constructor
  · exact h.change (Nat.le_succ _) (Nat.lt_succ_self _) hd.issued hd.other fun queryId q' hq => .inl ⟨hold _ _ hq, hq⟩
  · refine h.change (Nat.le_succ _) (Nat.lt_succ_self _) hd.issued hd.other fun queryId q' hq => ?_
    rcases lookup_insert_some hq with ⟨hid, hnew⟩ | hq
    · refine .inr ⟨hid, m, [] ++ phase1 (q.pollRequests t).1, ?_⟩
      rw [hnew, hd.first, hd.second, hunused, hunused]
      exact hsound.readMore t
    · exact .inl ⟨hold _ _ hq, hq⟩

theorem Keeps.ask (h : Keeps start bound B n) (hsound : Query.Sound m q [] 0 0)
    (bootstrapQueryId : Option Nat) {r : DhtNode}
    (hr : dispatchQueryRequests { n with nextQueryId := n.nextQueryId + 1, bootstrapQueryId } n.nextQueryId
      (q.pollRequests n.table).1 = r) :
    Keeps start bound B r ∧
      Keeps start bound B { r with activeQueries := r.activeQueries.insert n.nextQueryId (q.pollRequests n.table).2 } := by
  have hinner := hr ▸ dispatchQueryRequests_inner _ _ _
  have hactive : r.activeQueries = n.activeQueries := by rw [hinner]
  have hnext : r.nextQueryId = n.nextQueryId + 1 := by rw [hinner]
  have hasked : Allowed bound r.io → ∃ held, held.map Prod.fst = B ∧
      Books start bound held r.io r.tidToQuery r.standaloneTids ∧ Agree r.tidToQuery r.activeQueries r.nextQueryId ∧
      Agree r.tidToQuery (r.activeQueries.insert n.nextQueryId (q.pollRequests n.table).2) r.nextQueryId := by
    intro hallowed
    rw [← hr] at hallowed
    have hbefore := allowed_dispatchQueryRequests hallowed
    obtain ⟨held, hB, hbooks, hagree⟩ := h hbefore
    obtain ⟨hbooks', hd⟩ := books_dispatchQueryRequests (by exact hbooks) hallowed
    rw [hr] at hbooks' hd
    rw [hactive, hnext]
    exact ⟨held, hB, hbooks', agree_ask hagree hsound n.table hd⟩
  constructor
  · intro hallowed
    obtain ⟨held, hB, hbooks, hagree, -⟩ := hasked hallowed
    exact ⟨held, hB, hbooks, hagree⟩
  · intro hallowed
    obtain ⟨held, hB, hbooks, -, hagree⟩ := hasked hallowed
    exact ⟨held, hB, hbooks, hagree⟩

theorem Keeps.insertQuery (h : Keeps start bound B n) (target : NodeId) (internal : Bool) (command : UInt64)
    (value : Option ByteVec) (concurrency : Nat) (commit : Bool) :
    Keeps start bound B (n.insertQuery target internal command value concurrency commit) := by
  have hsound := (Query.sound_new n.nextQueryId target internal command value concurrency commit n.table.id).addFromTable
    n.table
  exact (h.ask hsound n.bootstrapQueryId rfl).2

theorem Keeps.startBootstrap (h : Keeps start bound B n) : Keeps start bound B n.startBootstrap := by
  have hsound := ((Query.sound_new n.nextQueryId n.table.id true CMD_FIND_NODE none n.config.concurrency false
    n.table.id).addFromTable n.table).addNodes (n.config.bootstrap.filterMap parseBootstrapStr)
  obtain ⟨hgone, hkept⟩ := h.ask hsound (some n.nextQueryId) rfl
  unfold DhtNode.startBootstrap
  dsimp only
  split
  · exact hgone.removed (onQueryRemoved_removed _ _)
  · exact hkept

theorem kept_rule : Rule (fun _ => True) (fun _ => True) (Keeps start bound) where
  counters h _ _ _ _ _ := h
  tick h _ := h.quiet ⟨rfl, rfl, rfl, rfl⟩ rfl
  drain h := h.quiet (Io.drain_keeps _).1 (Io.drain_keeps _).2
  relay h toPeer preserveTid := h.relay toPeer preserveTid
  request h _ := h.createStandalone _ _
  viaSocket h := h.viaSocket _ _
  insert h _ := h.insertQuery
  checks h _ := h.checks _
  hint {n _ m} h _ _ := Keeps.createStandalone (n := { n with
    table := n.table.modify m.id fun m => { m with downHints := m.downHints + 1, pingedTick := n.tick } }) h _ _
  network h _ fromPeer fromId := h.network fromPeer fromId
  timeouts h := h.timeouts
  response h hp := h.response hp
  call h hlookup hcall := h.queryCalled hlookup hcall
  commit h hlookup := h.commitDone hlookup
  settle h hnone _ hs := h.settled hnone hs
  unknown h hquery hother := h.unknown hquery hother

/-! ## Every run -/

/-- The counters of the active queries and the three tables agree. -/
structure Bookkept (n : DhtNode) : Prop where
  inflight : ∀ queryId q, n.activeQueries.lookup queryId = some q → q.inflight = requestsOf n.tidToQuery queryId false
  commitInflight : ∀ queryId q, n.activeQueries.lookup queryId = some q →
    q.commitInflight = requestsOf n.tidToQuery queryId true
  waited : ∀ tid ∈ n.tidToQuery, tid ∈ n.io.inflight.map InflightEntry.tid
  apart : ∀ tid ∈ n.tidToQuery, tid ∉ n.standaloneTids

theorem Kept.bookkept (h : Kept start bound [] n) : Bookkept n := by
  obtain ⟨held, hB, hbooks, hagree⟩ := h
  rw [map_eq_nil_iff] at hB
  subst hB
  refine ⟨fun queryId q hq => ?_, fun queryId q hq => ?_, fun tid htid => ?_, hbooks.apart⟩
  · obtain ⟨m, asked, hsound⟩ := hagree.sound queryId q hq
    exact hsound.inflight
  · obtain ⟨m, asked, hsound⟩ := hagree.sound queryId q hq
    exact hsound.commitInflight
  · have huse := hbooks.queries tid htid
    rw [nil_append, Io.live, map_map] at huse
    exact huse

/-- In an event that leads from `n` to `n'`, fewer than 65536 requests follow each request that is waited for at its
beginning, and the first one that the event itself makes. -/
def Short (n n' : DhtNode) : Prop :=
  n'.io.allocated ≤ n.io.allocated + 65536 ∧ ∀ e ∈ n.io.inflight, n'.io.allocated ≤ e.serial + 65536

instance (n n' : DhtNode) : Decidable (Short n n') := inferInstanceAs (Decidable (_ ∧ _))

/-- Between two events the bound is as far as the next one goes. -/
theorem Kept.extend {bound' : Nat} (h : Kept start bound [] n) (hroom : bound' ≤ n.io.allocated + 65536)
    (hlife : ∀ e ∈ n.io.inflight, bound' ≤ e.serial + 65536) : Kept start bound' [] n := by
  obtain ⟨held, hB, hbooks, hagree⟩ := h
  rw [map_eq_nil_iff] at hB
  subst hB
  refine ⟨[], rfl, { hbooks with room := hroom, numbered := fun p hp => ?_ }, hagree⟩
  obtain ⟨hnumber, hlt, -⟩ := hbooks.numbered p hp
  obtain ⟨e, he, rfl⟩ := mem_map.mp hp
  exact ⟨hnumber, hlt, hlife e he⟩

theorem kept_spawn (config : DhtConfig) (resolved : List String) (tableId : NodeId) (localPort tid : UInt16)
    (clock : Nat → Nat) (tieBreak : Nat) {bound : Nat} (hroom : bound ≤ 65536) :
    Kept tid bound [] (spawn config resolved tableId localPort tid clock tieBreak) := by
  refine ⟨[], rfl, ⟨rfl, ?_, ?_, nofun, nofun, nofun, nofun⟩, ⟨nofun, nofun, nofun⟩⟩
  · exact (UInt16.add_zero tid).symm
  · exact hroom.trans (Nat.le_add_left _ _)

theorem kept_run {es : List Event} (hbegin : (∀ p ∈ n.io.requested, Ipv4Host p.host) → Kept start n.io.allocated [] n)
    (hshort : Along step (fun n e => Short n (n.step e)) n es)
    (hipv4 : ∀ p ∈ (run step n es).io.requested, Ipv4Host p.host) :
    Kept start (run step n es).io.allocated [] (run step n es) := by
  refine run_invariant_along (I := fun n => (∀ p ∈ n.io.requested, Ipv4Host p.host) → Kept start n.io.allocated [] n)
    (fun n e h hs hhosts => ?_) hbegin hshort hipv4
  have hkeeps : Keeps start (n.step e).io.allocated [] n := fun hallowed => (h hallowed.1).extend hs.1 hs.2
  exact kept_rule.step hkeeps e (fun _ _ => trivial) (fun _ => trivial) ⟨hhosts, Nat.le_refl _⟩

/-- **In every state of a run in which only IPv4 addresses are asked and fewer than 65536 requests are made while another
one lasts, the queries count just the requests that are noted for them, which are all waited for and belong to nothing
else.** -/
theorem query_bookkeeping (config : DhtConfig) (resolved : List String) (tableId : NodeId) (localPort tid : UInt16)
    (clock : Nat → Nat) (tieBreak : Nat) (es : List Event)
    (hstart : Short (spawn config resolved tableId localPort tid clock tieBreak)
      (spawn config resolved tableId localPort tid clock tieBreak).startBootstrap)
    (hshort : Along step (fun n e => Short n (n.step e))
      (spawn config resolved tableId localPort tid clock tieBreak).startBootstrap es)
    (hipv4 : ∀ p ∈ (reached config resolved tableId localPort tid clock tieBreak es).io.requested, Ipv4Host p.host) :
    Bookkept (reached config resolved tableId localPort tid clock tieBreak es) := by
  have hspawn := kept_spawn config resolved tableId localPort tid clock tieBreak (hstart.1.trans_eq (Nat.zero_add _))
  have hrun := kept_run (fun hhosts => Keeps.startBootstrap (fun _ => hspawn) ⟨hhosts, Nat.le_refl _⟩) hshort hipv4
  exact hrun.bookkept

/-- A node is heard of, asked for a third one, and answers. -/
theorem query_bookkeeping_asked :
    Bookkept (reached ⟨[], 0, "0.0.0.0", none, false, 10, 80⟩ [] (.fill 0) 1 0 (fun _ => 0) 0
      [hello 1, .command (.findNode (.fill 1)),
        .datagram (responseBytes ⟨0, ⟨hostAt 0, 1⟩, none, none, [], 0, none⟩) (.v4 10 0 0 1 1) .server true]) := by
  refine query_bookkeeping _ _ _ _ _ _ _ _ (by decide +kernel) (by decide +kernel) ?_
  generalize hasked : (reached _ _ _ _ _ _ _ _).io.requested = peers
  obtain rfl : [⟨hostAt 1, 1⟩] = peers := by
    rw [← hasked]
    decide +kernel
  intro p hp
  rw [mem_singleton.mp hp]
  exact ipv4Host_hostAt 1

end DhtNode
end Peeroxide.Dht
