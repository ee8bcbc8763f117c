import Peeroxide.Dht.Io

/-!
# What the request layer does

* `sendInflightAt_eq` : one transmission; `Created` : the outcomes of `createRequest`;
* `mem_retryIndices`, `retries_rule`, `timeOutAll_rule` : the loops of `checkTimeouts`.
-/

namespace Peeroxide.Dht
open Lib List
namespace Io
variable {e : InflightEntry} {i idx now : Nat} {io : Io}

/-! ## One transmission -/

def resent (e : InflightEntry) (now : Nat) : InflightEntry :=
  { e with sent := e.sent + 1, deadline := now + e.timeout }

theorem sendInflightAt_eq (h : io.inflight[idx]? = some e) : io.sendInflightAt idx = { io.readClock with
      inflight := io.inflight.set idx (resent e io.now)
      congestion := io.congestion.send
      log := io.log ++ [⟨e.serial, e.retries, io.congestion.isFull⟩] } := by
  unfold sendInflightAt
  rw [h]
  rfl

theorem getElem?_sendInflightAt {j : Nat} (hj : j ≠ idx) :
    (io.sendInflightAt idx).inflight[j]? = io.inflight[j]? := by
  unfold sendInflightAt
  split
  · rfl
  · exact getElem?_set_ne (Ne.symm hj)

theorem position_eq_some {tid : UInt16} (h : io.position tid = some idx) :
    ∃ e, io.inflight[idx]? = some e ∧ e.tid = tid := by
  obtain ⟨hlt, htid, -⟩ := findIdx?_eq_some_iff_getElem.mp h
  exact ⟨io.inflight[idx], getElem?_eq_getElem hlt, by simpa using htid⟩

/-! ## Creation -/

/-- The layer after a request was asked for and before it is sent or queued. -/
def tracked (io : Io) (peer : Ipv4Peer) (entry : InflightEntry) : Io :=
  ({ io with requested := io.requested ++ [peer] }.allocate.readClock).track entry

/-- The entry that a new request gets. -/
structure NewEntry (io : Io) (peer : Ipv4Peer) (retries : UInt32) (sent : UInt32) (e : InflightEntry) : Prop where
  tid : e.tid = io.tid
  toPeer : e.toPeer = peer
  sent : e.sent = sent
  retries : e.retries = retries
  serial : e.serial = io.allocated

/-- The outcomes of `createRequest`: refused, refused after a transaction id was given out, queued, or sent. -/
inductive Created (io : Io) (params : RequestParams) : Option UInt16 × Io → Prop
  | destroying (h : io.destroying = true) : Created io params (none, io)
  | refused (h : parseSocketAddr params.toPeer.host params.toPeer.port = none) :
      Created io params (none, { io with requested := io.requested ++ [params.toPeer] })
  | failed (tid : UInt16) (id : Option NodeId)
      (h : ∀ bs, encodeRequestToBytes ⟨tid, params.toPeer, id, params.token, params.internal, params.command,
        params.target, params.value⟩ ≠ .ok bs) :
      Created io params (none, { io with requested := io.requested ++ [params.toPeer] }.allocate)
  | queued (e : InflightEntry) (he : NewEntry io params.toPeer (params.retries.getD DEFAULT_RETRIES) 0 e)
      (hd : io.destroying = false) (hfull : io.congestion.isFull = true) :
      Created io params (some io.tid, { io.tracked params.toPeer e with pending := io.pending ++ [io.tid] })
  | sent (e : InflightEntry) (he : NewEntry io params.toPeer (params.retries.getD DEFAULT_RETRIES) 0 e)
      (hd : io.destroying = false) (hroom : io.congestion.isFull = false) :
      Created io params (some io.tid,
        (io.tracked params.toPeer e).sendInflightAt ((io.tracked params.toPeer e).inflight.length - 1))

theorem createRequest_created (io : Io) (t : RoutingTable) (params : RequestParams) :
    Created io params (io.createRequest t params) := by
  unfold createRequest
  split
  next hd =>
    exact .destroying hd
  next hd =>
    dsimp only
    split
    next hparse =>
      exact .refused hparse
    · split
      next herr =>
        exact .failed _ _ fun bs hbs => by
          rw [herr] at hbs
          cases hbs
      · split
        next hfull =>
          exact .queued _ ⟨rfl, rfl, rfl, rfl, rfl⟩ (Bool.eq_false_iff.mpr hd) hfull
        next hroom =>
          exact .sent _ ⟨rfl, rfl, rfl, rfl, rfl⟩ (Bool.eq_false_iff.mpr hd) (Bool.eq_false_iff.mpr hroom)

theorem getElem?_tracked (io : Io) (peer : Ipv4Peer) (e : InflightEntry) :
    (io.tracked peer e).inflight[(io.tracked peer e).inflight.length - 1]? = some e := by
  show (io.inflight ++ [e])[(io.inflight ++ [e]).length - 1]? = some e
  rw [length_append, length_singleton, Nat.add_sub_cancel, getElem?_concat_length]

/-- The transaction ids that are waited for, with the numbers of their requests. -/
def live (io : Io) : List (UInt16 × Nat) := io.inflight.map fun e => (e.tid, e.serial)

theorem live_sendInflightAt (io : Io) (idx : Nat) : (io.sendInflightAt idx).live = io.live := by
  cases hget : io.inflight[idx]? with
  | none =>
    unfold sendInflightAt
    rw [hget]
  | some e =>
    obtain ⟨hlt, rfl⟩ := List.getElem?_eq_some_iff.mp hget
    have hset := congrArg (map fun e => (e.tid, e.serial)) (set_getElem_self hlt)
    rw [map_set] at hset
    rw [sendInflightAt_eq hget, live, map_set]
    exact hset

structure SameCounters (io io' : Io) : Prop where
  tid : io'.tid = io.tid
  allocated : io'.allocated = io.allocated
  requested : io'.requested = io.requested
  destroying : io'.destroying = io.destroying

theorem SameCounters.trans {io' io'' : Io} (h : SameCounters io io') (h' : SameCounters io' io'') :
    SameCounters io io'' :=
  ⟨h'.tid.trans h.tid, h'.allocated.trans h.allocated, h'.requested.trans h.requested,
    h'.destroying.trans h.destroying⟩

/-- Only what is waited for, sent and counted by the window changes with a transmission. -/
theorem sendInflightAt_frame (io : Io) (idx : Nat) : SameCounters io (io.sendInflightAt idx) := by
  unfold sendInflightAt
  split
  · exact ⟨rfl, rfl, rfl, rfl⟩
  · exact ⟨rfl, rfl, rfl, rfl⟩

/-- A request was made: it is waited for under the next transaction id. -/
structure Accepted (io : Io) (peer : Ipv4Peer) (io' : Io) : Prop where
  live : io'.live = io.live ++ [(io.tid, io.allocated)]
  tid : io'.tid = io.tid + 1
  allocated : io'.allocated = io.allocated + 1
  requested : io'.requested = io.requested ++ [peer]
  destroying : io'.destroying = io.destroying

theorem accepted_tracked {peer : Ipv4Peer} {retries sent : UInt32}
    (he : NewEntry io peer retries sent e) : Accepted io peer (io.tracked peer e) := by
  refine ⟨?_, rfl, rfl, rfl, rfl⟩
  show (io.inflight ++ [e]).map _ = _
  rw [map_append, map_singleton, he.tid, he.serial]
  rfl

theorem parseSocketAddr_ipv4 {host : String} (h : Ipv4Host host) (port : UInt16) :
    parseSocketAddr host port ≠ none := by
  obtain ⟨bs, hlen, rfl⟩ := h
  obtain ⟨a, b, c, d, rfl⟩ := length_eq_four.mp hlen
  have hread := readIpv4_dotted a b c d (fun x (hx : x ∈ ([] : List Char).head?) => nomatch hx)
  rw [append_nil] at hread
  unfold parseSocketAddr
  rw [String.toList_ofList, hread]
  exact nofun

theorem createRequest_accepted (hd : io.destroying = false) (t : RoutingTable) {params : RequestParams}
    (hhost : Ipv4Host params.toPeer.host) :
    ∃ io', io.createRequest t params = (some io.tid, io') ∧ Accepted io params.toPeer io' := by
  have h := createRequest_created io t params
  generalize io.createRequest t params = r at h
  cases h with
  | destroying hdestroying =>
    rw [hd] at hdestroying
    cases hdestroying
  | refused hparse => exact absurd hparse (parseSocketAddr_ipv4 hhost _)
  | failed tid id hfail =>
    exact absurd ((writes_request hhost).emit (preencodeRequest_eq .empty hhost)) (hfail _)
  | queued e he =>
    obtain ⟨hlive, htid, hallocated, hrequested, hdestroying⟩ := accepted_tracked he
    exact ⟨_, rfl, hlive, htid, hallocated, hrequested, hdestroying⟩
  | sent e he =>
    obtain ⟨hlive, htid, hallocated, hrequested, hdestroying⟩ := accepted_tracked he
    obtain ⟨htid', hallocated', hrequested', hdestroying'⟩ :=
      sendInflightAt_frame (io.tracked params.toPeer e) ((io.tracked params.toPeer e).inflight.length - 1)
    exact ⟨_, rfl, (live_sendInflightAt ..).trans hlive, htid'.trans htid, hallocated'.trans hallocated,
      hrequested'.trans hrequested, hdestroying'.trans hdestroying⟩

inductive SentVia (io : Io) (params : RequestParams) : Option UInt16 × Io → Prop
  | destroying (h : io.destroying = true) : SentVia io params (none, io)
  | refused (h : parseSocketAddr params.toPeer.host params.toPeer.port = none) :
      SentVia io params (none, { io with requested := io.requested ++ [params.toPeer] })
  | failed : SentVia io params (none, { io with requested := io.requested ++ [params.toPeer] }.allocate)
  | sent (e : InflightEntry) (he : NewEntry io params.toPeer 0 1 e) (hd : io.destroying = false) :
      SentVia io params (some io.tid, { io.tracked params.toPeer e with
        log := io.log ++ [⟨io.allocated, 0, io.congestion.isFull⟩] })

theorem sendRequestViaSocket_sentVia (io : Io) (t : RoutingTable) (params : RequestParams) (accepted : Bool) :
    SentVia io params (io.sendRequestViaSocket t params accepted) := by
  unfold sendRequestViaSocket
  split
  next hd =>
    exact .destroying hd
  next hd =>
    dsimp only
    split
    next hparse =>
      exact .refused hparse
    · split
      · exact .failed
      · split
        · exact .failed
        · exact .sent _ ⟨rfl, rfl, rfl, rfl, rfl⟩ (Bool.eq_false_iff.mpr hd)

theorem relay_cases (io : Io) (toPeer : Ipv4Peer) (preserveTid : Option UInt16) :
    io.relay toPeer preserveTid = io ∨ io.relay toPeer preserveTid = io.allocate := by
  unfold relay
  split
  · exact .inl rfl
  · split
    · exact .inl rfl
    · split
      · exact .inl rfl
      · exact .inr rfl

/-! ## Timeouts -/

theorem mem_due : (e, i) ∈ io.due now ↔ io.inflight[i]? = some e ∧ e.deadline ≤ now := by
  unfold due
  rw [mem_filter, mem_zipIdx_iff_getElem?, decide_eq_true_eq]

theorem mem_retryIndices :
    i ∈ io.retryIndices now ↔ ∃ e, io.inflight[i]? = some e ∧ e.deadline ≤ now ∧ e.sent ≤ e.retries := by
  unfold retryIndices
  rw [mem_map]
  constructor
  · rintro ⟨⟨e, j⟩, hmem, rfl⟩
    rw [mem_filter, mem_due, Bool.not_eq_true', decide_eq_false_iff_not, UInt32.not_lt] at hmem
    exact ⟨e, hmem.1.1, hmem.1.2, hmem.2⟩
  · rintro ⟨e, hget, hdue, hle⟩
    refine ⟨(e, i), ?_, rfl⟩
    rw [mem_filter, mem_due, Bool.not_eq_true', decide_eq_false_iff_not, UInt32.not_lt]
    exact ⟨⟨hget, hdue⟩, hle⟩

theorem pairwise_due (io : Io) (now : Nat) : (io.due now).Pairwise fun p q => p.2 < q.2 := by
  have h : (io.inflight.zipIdx.map Prod.snd).Pairwise (· < ·) := by
    rw [zipIdx_map_snd]
    exact pairwise_lt_range'
  exact (pairwise_map.mp h).filter _

theorem nodup_retryIndices (io : Io) (now : Nat) : (io.retryIndices now).Nodup :=
  (pairwise_map.mpr ((pairwise_due io now).filter _)).imp fun h => Nat.ne_of_lt h

theorem retries_rule {I : Io → Prop}
    (hretry : ∀ io i e, I io → io.inflight[i]? = some e → e.sent ≤ e.retries → I (io.retryAt i)) (h : I io)
    {idxs : List Nat} (hnodup : idxs.Nodup) (hidxs : ∀ i ∈ idxs, ∃ e, io.inflight[i]? = some e ∧ e.sent ≤ e.retries) :
    I (idxs.foldl retryAt io) := by
  induction idxs generalizing io with
  | nil => exact h
  | cons i idxs ih =>
    obtain ⟨e, hget, hle⟩ := hidxs i mem_cons_self
    obtain ⟨hi, hnodup⟩ := nodup_cons.mp hnodup
    refine ih (hretry io i e h hget hle) hnodup fun j hj => ?_
    obtain ⟨e', hget', hle'⟩ := hidxs j (mem_cons_of_mem i hj)
    have hne : j ≠ i := fun hji => hi (hji ▸ hj)
    refine ⟨e', ?_, hle'⟩
    rw [retryAt, getElem?_sendInflightAt hne]
    exact hget'

def removed (io : Io) (i : Nat) : Io :=
  { io with
    inflight := swapRemove io.inflight i
    congestion := io.congestion.recv
    stats := { io.stats with active := io.stats.active - 1, timeouts := io.stats.timeouts + 1 } }

theorem timeOutAll_rule {I : Io → Prop}
    (hremove : ∀ io i e, I io → io.inflight[i]? = some e → I (io.removed i)) (h : I io) (idxs : List Nat) :
    I (io.timeOutAll idxs).2 := by
  induction idxs generalizing io with
  | nil => exact h
  | cons i idxs ih =>
    unfold timeOutAll
    split
    · exact ih h
    next e hget =>
      exact ih (hremove io i e h hget)

theorem checkTimeouts_rule {I : Io → Prop} (hclock : ∀ io, I io → I io.readClock)
    (hretry : ∀ io i e, I io → io.inflight[i]? = some e → e.sent ≤ e.retries → I (io.retryAt i))
    (hremove : ∀ io i e, I io → io.inflight[i]? = some e → I (io.removed i)) (h : I io) : I io.checkTimeouts.2 := by
  refine timeOutAll_rule hremove (retries_rule hretry (hclock io h) (nodup_retryIndices io io.now) fun i hi => ?_) _
  obtain ⟨e, hget, -, hle⟩ := mem_retryIndices.mp hi
  exact ⟨e, hget, hle⟩

theorem checkTimeouts_frame (io : Io) : SameCounters io io.checkTimeouts.2 := by
  refine checkTimeouts_rule (fun _ h => h.trans ⟨rfl, rfl, rfl, rfl⟩) (fun io' i _ h _ _ => ?_)
    (fun _ _ _ h _ => h.trans ⟨rfl, rfl, rfl, rfl⟩) ⟨rfl, rfl, rfl, rfl⟩
  have hcount : SameCounters io' { io' with stats := { io'.stats with retries := io'.stats.retries + 1 } } :=
    ⟨rfl, rfl, rfl, rfl⟩
  exact (h.trans hcount).trans (sendInflightAt_frame ..)

theorem timeOutAll_perm (io : Io) (idxs : List Nat) :
    ∃ gone : List (UInt16 × Nat), (io.timeOutAll idxs).1.map TimeoutEvent.tid = gone.map Prod.fst ∧
      io.live.Perm (gone ++ (io.timeOutAll idxs).2.live) := by
  induction idxs generalizing io with
  | nil => exact ⟨[], rfl, .refl _⟩
  | cons i idxs ih =>
    unfold timeOutAll
    split
    · exact ih io
    next e hget =>
      obtain ⟨gone, htids, hperm⟩ := ih (io.removed i)
      refine ⟨(e.tid, e.serial) :: gone, congrArg (e.tid :: ·) htids, ?_⟩
      exact ((perm_swapRemove hget).map _).trans (hperm.cons _)

theorem checkTimeouts_perm (io : Io) :
    ∃ gone : List (UInt16 × Nat), io.checkTimeouts.1.map TimeoutEvent.tid = gone.map Prod.fst ∧
      io.live.Perm (gone ++ io.checkTimeouts.2.live) := by
  have hretries : ((io.retryIndices io.now).foldl retryAt io.readClock).live = io.live := by
    have hclock : io.readClock.live = io.live := rfl
    refine retries_rule (I := fun io' => io'.live = io.live) (fun _ _ _ h _ _ => (live_sendInflightAt ..).trans h) hclock
      (nodup_retryIndices io io.now) fun i hi => ?_
    obtain ⟨e, hget, -, hle⟩ := mem_retryIndices.mp hi
    exact ⟨e, hget, hle⟩
  have hperm := timeOutAll_perm ((io.retryIndices io.now).foldl retryAt io.readClock) (io.timeoutIndices io.now).reverse
  rw [hretries] at hperm
  exact hperm

/-! ## The queue -/

theorem drainPending_keeps (io : Io) (queue : List UInt16) :
    SameCounters io (io.drainPending queue) ∧ (io.drainPending queue).live = io.live := by
  induction queue generalizing io with
  | nil => exact ⟨⟨rfl, rfl, rfl, rfl⟩, rfl⟩
  | cons tid rest ih =>
    unfold drainPending
    split
    · exact ⟨⟨rfl, rfl, rfl, rfl⟩, rfl⟩
    · split
      next idx _ =>
        obtain ⟨hframe, hlive⟩ := ih (io.sendInflightAt idx)
        exact ⟨(sendInflightAt_frame io idx).trans hframe, hlive.trans (live_sendInflightAt io idx)⟩
      · exact ih io

theorem drain_keeps (io : Io) : SameCounters io io.drain ∧ io.drain.live = io.live := by
  obtain ⟨hframe, hlive⟩ := drainPending_keeps { io with congestion := io.congestion.drain } io.pending
  exact ⟨{ hframe with }, hlive⟩

/-! ## Datagrams -/

/-- What a datagram does: nothing, a request for the node, or a response that resolves a request. -/
inductive Processed (io : Io) : Option IoEvent × Io → Prop
  | ignored : Processed io (none, io)
  | request (req : IncomingRequest) : Processed io (some (.incomingRequest req), io)
  | response (res : IncomingResponse) (i : Nat) (e : InflightEntry) (hget : io.inflight[i]? = some e)
      (htid : e.tid = res.tid) : Processed io (some (.response res), { io.readClock with
        inflight := swapRemove io.inflight i
        congestion := io.congestion.recv
        stats := { io.stats with active := io.stats.active - 1, responses := io.stats.responses + 1 } })

theorem processMessage_processed (io : Io) (fromPeer : Ipv4Peer) (kind : SocketKind) (tokenValid : Bool)
    (message : Message) : Processed io (io.processMessage fromPeer kind tokenValid message) := by
  cases message with
  | request req =>
    unfold processMessage
    dsimp only
    split
    · exact .ignored
    · exact .request _
  | response res =>
    unfold processMessage
    dsimp only
    split
    · exact .ignored
    next pos hpos =>
      obtain ⟨e, hget, htid⟩ := position_eq_some hpos
      rw [hget]
      exact .response _ pos e hget htid

theorem processDatagram_processed (io : Io) (data : Bytes) (addr : SocketAddr) (kind : SocketKind) (tokenValid : Bool) :
    Processed io (io.processDatagram data addr kind tokenValid) := by
  unfold processDatagram
  split
  · exact .ignored
  · split
    · exact .ignored
    · split
      · exact .ignored
      · split
        · exact .ignored
        · exact processMessage_processed ..

/-! ## The calls -/

inductive Op where
  | createRequest (t : RoutingTable) (params : RequestParams)
  | sendRequestViaSocket (t : RoutingTable) (params : RequestParams) (accepted : Bool)
  | relay (toPeer : Ipv4Peer) (preserveTid : Option UInt16)
  | drain
  | checkTimeouts
  | datagram (data : Bytes) (addr : SocketAddr) (kind : SocketKind) (tokenValid : Bool)

def step (io : Io) : Op → Io
  | .createRequest t params => (io.createRequest t params).2
  | .sendRequestViaSocket t params accepted => (io.sendRequestViaSocket t params accepted).2
  | .relay toPeer preserveTid => io.relay toPeer preserveTid
  | .drain => io.drain
  | .checkTimeouts => io.checkTimeouts.2
  | .datagram data addr kind tokenValid => (io.processDatagram data addr kind tokenValid).2

end Io
end Peeroxide.Dht
