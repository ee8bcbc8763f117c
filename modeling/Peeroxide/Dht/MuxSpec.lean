import Peeroxide.Dht.Protomux

/-!
# What a step of Protomux can do

One lemma for each handler, with everything it can do when it returns.
-/

namespace Peeroxide.Dht
open Lib List

namespace MuxState
variable {s s' : MuxState}
variable {data : Bytes} {e : ProtomuxError} {handshake id : Option ByteVec} {hs : Option Bytes}
  {localId messageType : UInt32} {protocol : String} {remoteId remoteLocalId : UInt64}

theorem allocLocalId_fst (s : MuxState) : s.allocLocalId.1 = s.nextSlot := by
  unfold allocLocalId nextSlot
  cases s.freeIds.getLast? <;> rfl

def allocated (s : MuxState) : MuxState := s.allocLocalId.2

theorem allocLocalId_eq (s : MuxState) : s.allocLocalId = (s.nextSlot, s.allocated) := by
  rw [← allocLocalId_fst]
  rfl

theorem allocated_cases (s : MuxState) :
    (∃ ids i, s.freeIds = ids ++ [i] ∧ s.nextSlot = i ∧ s.allocated = { s with freeIds := ids }) ∨
    (s.freeIds = [] ∧ s.nextSlot = wrap32 s.locals.length ∧ s.allocated = { s with locals := s.locals ++ [none] }) := by
  rcases eq_nil_or_concat s.freeIds with h | ⟨ids, i, h⟩
  · simp [allocated, allocLocalId, nextSlot, h]
  · left
    rw [concat_eq_append] at h
    exact ⟨ids, i, h, by simp [nextSlot, h], by simp [allocated, allocLocalId, h]⟩

theorem enqueueWrite_ok {bs : Bytes} (h : s.enqueueWrite (.ok bs) = .ok s') :
    ∃ f : ByteVec, f.1 = bs ∧ bs.length ≤ maxGrant ∧ s' = { s with written := s.written ++ [f] } := by
  unfold enqueueWrite at h
  cases hv : vecOf (.ok bs) with
  | none =>
    rw [hv] at h
    cases h
  | some f =>
    rw [hv] at h
    cases h
    obtain ⟨hf, hlen⟩ := vecOf_eq_some hv
    exact ⟨f, hf, hlen, rfl⟩

theorem enqueueWrite_ne_err {frame : Except (Fault EncodingError) Bytes} : s.enqueueWrite frame ≠ .err e s' := by
  unfold enqueueWrite
  cases vecOf frame with
  | none | some f => exact nofun

theorem enqueueWrite_control (s : MuxState) (kind : UInt8) (id : UInt64) : ∃ f : ByteVec, f.1 = controlBytes kind id ∧
      s.enqueueWrite (encodeControl kind id) = .ok { s with written := s.written ++ [f] } := by
  have hlen : (controlBytes kind id).length ≤ maxGrant := le_trans (length_controlBytes_le kind id) (by decide)
  refine ⟨⟨controlBytes kind id, lt_of_le_of_lt hlen maxGrant_lt⟩, rfl, ?_⟩
  have hvec : vecOf (.ok (controlBytes kind id)) = some ⟨controlBytes kind id, lt_of_le_of_lt hlen maxGrant_lt⟩ :=
    dif_pos hlen
  rw [enqueueWrite, encodeControl_eq, hvec]

theorem infoOf_insert (s : MuxState) (infos : AList fun _ : String => ChannelInfo) (key k : String) (info : ChannelInfo)
    (h : s.infos = infos.insert key info) :
    s.infoOf k = if k = key then info else (infos.lookup k).getD ⟨[], []⟩ := by
  unfold infoOf
  rw [h]
  by_cases hk : k = key
  · subst hk
    rw [AList.lookup_insert, if_pos rfl]
    rfl
  · rw [AList.lookup_insert_ne hk, if_neg hk]

/-! ## Commands -/

def newChannel (s : MuxState) (protocol : String) (id : Option ByteVec) : LocalChannel :=
  ⟨protocol, id, none, s.created.length, false, false⟩

def named (s : MuxState) (protocol : String) (id : Option ByteVec) : MuxState :=
  { s.allocated with created := s.created ++ [(protocol, id)] }

theorem allocated_frame (s : MuxState) : s.allocated.remote = s.remote ∧ s.allocated.infos = s.infos ∧
    s.allocated.created = s.created ∧ s.allocated.delivered = s.delivered ∧ s.allocated.written = s.written ∧
    s.allocated.batch = s.batch ∧ s.allocated.corkDepth = s.corkDepth := by
  obtain ⟨ids, i, -, -, h⟩ | ⟨-, -, h⟩ := s.allocated_cases <;> rw [h] <;> exact ⟨rfl, rfl, rfl, rfl, rfl, rfl, rfl⟩

theorem createChannelInternal_ok (h : s.createChannelInternal protocol id handshake = .ok s') :
    s.nextSlot + 1 < 2 ^ 32 ∧ s.nextSlot < s.allocated.locals.length ∧
    ∃ f : ByteVec, f.1 = openBytes (.ofNat (s.nextSlot + 1)) protocol id handshake ∧ f.1.length ≤ maxGrant ∧
    ((∃ remoteId incoming, (s.infoOf (channelKey protocol id)).incoming = remoteId :: incoming ∧ remoteId ≠ 0 ∧
        s' = { pairIncoming { s.named protocol id with
              infos := s.allocated.infos.insert (channelKey protocol id)
                { s.infoOf (channelKey protocol id) with incoming := incoming } }
            s.nextSlot (s.newChannel protocol id) remoteId with written := s.allocated.written ++ [f] }) ∨
      ((s.infoOf (channelKey protocol id)).incoming = [] ∧
        s' = { s.named protocol id with
          locals := s.allocated.locals.set s.nextSlot (some (s.newChannel protocol id))
          infos := s.allocated.infos.insert (channelKey protocol id)
            { s.infoOf (channelKey protocol id) with
              outgoing := (s.infoOf (channelKey protocol id)).outgoing ++ [s.nextSlot + 1] }
          written := s.allocated.written ++ [f] })) := by
  unfold createChannelInternal at h
  rw [allocLocalId_eq] at h
  simp only [encodeOpen_eq] at h
  split at h
  · cases h
  rename_i hmax
  split at h
  · cases h
  rename_i hindex
  refine ⟨Nat.lt_of_not_le hmax, Nat.lt_of_not_le hindex, ?_⟩
  obtain ⟨-, hinfos, hcreated, -⟩ := s.allocated_frame
  have hinfo : ({ s.allocated with created := s.allocated.created ++ [(protocol, id)] } : MuxState).infoOf
      (channelKey protocol id) = s.infoOf (channelKey protocol id) := by rw [infoOf, hinfos, infoOf]
  rw [hinfo, hcreated] at h
  split at h
  next remoteId incoming hincoming =>
    split at h
    · cases h
    rename_i hzero
    obtain ⟨f, hf, hlen, rfl⟩ := enqueueWrite_ok h
    exact ⟨f, hf, hf ▸ hlen, .inl ⟨remoteId, incoming, hincoming, hzero, rfl⟩⟩
  next hincoming =>
    obtain ⟨f, hf, hlen, rfl⟩ := enqueueWrite_ok h
    exact ⟨f, hf, hf ▸ hlen, .inr ⟨hincoming, rfl⟩⟩

theorem sendMessageInternal_ok (h : s.sendMessageInternal localId messageType data = .ok s') : localId ≠ 0 ∧
    ((s.localAt (localId.toNat - 1) = none ∧ s' = s) ∨
      (s.localAt (localId.toNat - 1) ≠ none ∧ ∃ f : ByteVec, f.1.length ≤ maxGrant ∧
        ((0 < s.corkDepth ∧ f.1 = innerBytes messageType.toUInt64 data ∧
            s' = { s with batch := s.batch ++ [(localId.toUInt64, f)] }) ∨
          (s.corkDepth = 0 ∧ f.1 = messageBytes localId.toUInt64 messageType.toUInt64 data ∧
            s' = { s with written := s.written ++ [f] })))) := by
  unfold sendMessageInternal at h
  split at h
  · cases h
  rename_i hzero
  refine ⟨hzero, ?_⟩
  split at h
  next hnone =>
    cases h
    exact .inl ⟨hnone, rfl⟩
  next ch hsome =>
    refine .inr ⟨by rw [hsome]; exact nofun, ?_⟩
    split at h
    next hcork =>
      rw [encodeInner_eq] at h
      cases hv : vecOf (.ok (innerBytes messageType.toUInt64 data)) with
      | none =>
        rw [hv] at h
        cases h
      | some f =>
        rw [hv] at h
        cases h
        obtain ⟨hf, hlen⟩ := vecOf_eq_some hv
        exact ⟨f, hf ▸ hlen, .inl ⟨hcork, hf, rfl⟩⟩
    next hcork =>
      rw [encodeMessage_eq] at h
      obtain ⟨f, hf, hlen, rfl⟩ := enqueueWrite_ok h
      exact ⟨f, hf ▸ hlen, .inr ⟨by omega, hf, rfl⟩⟩

/-- What a close finds: the slot is not there, its channel is closed already, or it is freed and the frame written. -/
theorem closeChannelInternal_ok (h : s.closeChannelInternal localId = .ok s') : localId ≠ 0 ∧
    ((s.locals.length ≤ localId.toNat - 1 ∧ s' = s) ∨
      (∃ ch, s.localAt (localId.toNat - 1) = some ch ∧ ch.closed = true ∧ s' = s) ∨
      (localId.toNat - 1 < s.locals.length ∧ (∀ ch ∈ s.localAt (localId.toNat - 1), ch.closed = false) ∧
        ∃ (f : ByteVec) (ds : List Delivery), f.1 = controlBytes 3 localId.toUInt64 ∧
          (∀ d ∈ ds, ∃ isRemote, d.event = .closed isRemote) ∧
          s' = { (s.deliver ds).free (localId.toNat - 1) with written := s.written ++ [f] })) := by
  unfold closeChannelInternal at h
  split at h
  · cases h
  rename_i hzero
  refine ⟨hzero, ?_⟩
  simp only at h
  split at h
  next hlen =>
    cases h
    exact .inl ⟨hlen, rfl⟩
  rename_i hlen
  have hlt := Nat.lt_of_not_le hlen
  split at h
  next ch hsome =>
    split at h
    next hclosed =>
      cases h
      exact .inr (.inl ⟨ch, hsome, hclosed, rfl⟩)
    next hclosed =>
      obtain ⟨f, hf, hw⟩ := enqueueWrite_control
        ((s.deliver [⟨ch.eventTx, none, .closed false⟩]).free (localId.toNat - 1)) 3 localId.toUInt64
      rw [encodeClose, hw] at h
      cases h
      refine .inr (.inr ⟨hlt, fun c hc => ?_, f, _, hf, ?_, rfl⟩)
      · rw [hsome] at hc
        cases hc
        exact Bool.eq_false_iff.mpr hclosed
      · intro d hd
        rw [mem_singleton.mp hd]
        exact ⟨false, rfl⟩
  next hnone =>
    obtain ⟨f, hf, hw⟩ := enqueueWrite_control (s.free (localId.toNat - 1)) 3 localId.toUInt64
    rw [encodeClose, hw] at h
    cases h
    refine .inr (.inr ⟨hlt, fun c hc => ?_, f, [], hf, nofun, ?_⟩)
    · rw [hnone] at hc
      cases hc
    · simp [deliver, free]

theorem cork_ok (h : s.cork = .ok s') : s' = { s with corkDepth := s.corkDepth + 1 } := by
  unfold cork at h
  split at h
  · cases h
  · cases h
    rfl

theorem uncork_ok (h : s.uncork = .ok s') :
    (∃ n, s' = { s with corkDepth := n } ∧ (n = 0 → s.corkDepth = 0 ∨ s.batch = [])) ∨
    (∃ f : ByteVec, s.batch ≠ [] ∧ f.1 = batchBytes s.batch ∧ f.1.length ≤ maxGrant ∧
      s' = { s with corkDepth := 0, batch := [], written := s.written ++ [f] }) := by
  unfold uncork at h
  split at h
  next hzero =>
    cases h
    exact .inl ⟨s.corkDepth, rfl, fun _ => .inl hzero⟩
  · simp only at h
    split at h
    next hlast =>
      rw [encodeBatch_eq] at h
      obtain ⟨f, hf, hlen, rfl⟩ := enqueueWrite_ok h
      exact .inr ⟨f, hlast.2, hf, hf ▸ hlen, by simp [hlast.1]⟩
    next hmore =>
      cases h
      refine .inl ⟨s.corkDepth - 1, rfl, fun hn => .inr ?_⟩
      by_contra hb
      exact hmore ⟨hn, hb⟩

theorem createChannelInternal_ne_err : s.createChannelInternal protocol id handshake ≠ .err e s' := by
  unfold createChannelInternal
  simp only
  split
  · exact nofun
  split
  · exact nofun
  split
  · split
    · exact nofun
    · exact enqueueWrite_ne_err
  · exact enqueueWrite_ne_err

theorem sendMessageInternal_ne_err : s.sendMessageInternal localId messageType data ≠ .err e s' := by
  unfold sendMessageInternal
  split
  · exact nofun
  split
  · exact nofun
  split
  · split <;> exact nofun
  · exact enqueueWrite_ne_err

theorem closeChannelInternal_ne_err : s.closeChannelInternal localId ≠ .err e s' := by
  unfold closeChannelInternal
  split
  · exact nofun
  simp only
  split
  · exact nofun
  split
  · split
    · exact nofun
    · exact enqueueWrite_ne_err
  · exact enqueueWrite_ne_err

theorem handleCommand_writes {c : MuxCommand} (h : s.handleCommand c = .ok s')
    (hcreate : ∀ protocol id handshake, c ≠ .createChannel protocol id handshake) (hclose : ∀ id, c ≠ .closeChannel id) :
    ∃ batch depth written, s' = { s with batch := batch, corkDepth := depth, written := written } := by
  cases c with
  | createChannel protocol id handshake => exact absurd rfl (hcreate protocol id handshake)
  | closeChannel localId => exact absurd rfl (hclose localId)
  | sendMessage localId messageType data =>
    obtain ⟨-, ⟨-, rfl⟩ | ⟨-, f, -, ⟨-, -, rfl⟩ | ⟨-, -, rfl⟩⟩⟩ := sendMessageInternal_ok h <;> exact ⟨_, _, _, rfl⟩
  | cork => exact ⟨_, _, _, cork_ok h⟩
  | uncork => obtain ⟨n, rfl, -⟩ | ⟨f, -, -, -, rfl⟩ := uncork_ok h <;> exact ⟨_, _, _, rfl⟩

theorem handleCommand_ne_err {c : MuxCommand} : s.handleCommand c ≠ .err e s' := by
  cases c with
  | createChannel protocol id handshake => exact createChannelInternal_ne_err
  | sendMessage localId messageType data => exact sendMessageInternal_ne_err
  | closeChannel localId => exact closeChannelInternal_ne_err
  | cork =>
    show s.cork ≠ _
    unfold cork
    split <;> exact nofun
  | uncork =>
    show s.uncork ≠ _
    unfold uncork
    split
    · exact nofun
    · simp only
      split
      · exact enqueueWrite_ne_err
      · exact nofun

/-! ## Frames -/

def withRemote (s : MuxState) (rid : Nat) (rc : RemoteChannel) (key : String) (info : ChannelInfo) : MuxState :=
  { s.growRemote rid with
    infos := s.infos.insert key info
    remote := (s.growRemote rid).remote.set rid (some rc) }

theorem remoteAt_growRemote (s : MuxState) (rid r : Nat) : (s.growRemote rid).remoteAt r = s.remoteAt r := by
  unfold remoteAt growRemote
  rw [getElem?_append]
  split
  · rfl
  next hlen =>
    rw [getElem?_eq_none (Nat.le_of_not_lt hlen), getElem?_replicate]
    split <;> rfl

theorem handleRemoteOpen_ok (h : s.handleRemoteOpen remoteLocalId protocol id hs = .ok s') :
    (wrap32 remoteLocalId.toNat = 0 ∧ ∃ f : ByteVec, f.1 = controlBytes 2 0 ∧
      s' = { s with written := s.written ++ [f] }) ∨
    ∃ rid, wrap32 remoteLocalId.toNat = rid + 1 ∧ s.remoteAt rid = none ∧
      ((∃ pos outgoing, (s.infoOf (channelKey protocol id)).outgoing = (pos + 1) :: outgoing ∧ pos < s.locals.length ∧
          ((∃ ch, s.localAt pos = some ch ∧
            s' = ({ s.withRemote rid ⟨hs, some pos, []⟩ (channelKey protocol id)
                  { s.infoOf (channelKey protocol id) with outgoing := outgoing } with
                locals := s.locals.set pos (some { ch with remoteId := some (rid + 1), opened := true }) } :
              MuxState).deliver [⟨ch.eventTx, some (rid + 1), .opened hs⟩]) ∨
            (s.localAt pos = none ∧ s' = s.withRemote rid ⟨hs, some pos, []⟩ (channelKey protocol id)
              { s.infoOf (channelKey protocol id) with outgoing := outgoing }))) ∨
        ((s.infoOf (channelKey protocol id)).outgoing = [] ∧
          s' = s.withRemote rid ⟨hs, none, []⟩ (channelKey protocol id)
            { s.infoOf (channelKey protocol id) with
              incoming := (s.infoOf (channelKey protocol id)).incoming ++ [rid + 1] })) := by
  unfold handleRemoteOpen at h
  simp only at h
  split at h
  next hzero =>
    obtain ⟨f, hf, hw⟩ := s.enqueueWrite_control 2 0
    rw [encodeReject, hw] at h
    cases h
    exact .inl ⟨hzero, f, hf, rfl⟩
  rename_i hzero
  obtain ⟨rid, hrid⟩ := Nat.exists_eq_succ_of_ne_zero hzero
  rw [hrid, remoteAt_growRemote] at h
  refine .inr ⟨rid, hrid, ?_⟩
  split at h
  · cases h
  rename_i hfresh
  refine ⟨Option.not_isSome_iff_eq_none.mp hfresh, ?_⟩
  split at h
  next pos outgoing houtgoing =>
    split at h
    · cases h
    rename_i hindex
    obtain ⟨pos, rfl⟩ := Nat.exists_eq_succ_of_ne_zero (n := pos) fun hp => hindex (.inl hp)
    have hpos : pos < s.locals.length := Nat.lt_of_not_le fun hle => hindex (.inr (Nat.lt_succ_of_le hle))
    refine .inl ⟨pos, outgoing, houtgoing, hpos, ?_⟩
    split at h
    next ch hch =>
      cases h
      exact .inl ⟨ch, hch, rfl⟩
    next hnone =>
      cases h
      exact .inr ⟨hnone, rfl⟩
  next houtgoing =>
    cases h
    exact .inr ⟨houtgoing, rfl⟩

theorem handleRemoteOpen_err (h : s.handleRemoteOpen remoteLocalId protocol id hs = .err e s') :
    ∃ rid, wrap32 remoteLocalId.toNat = rid + 1 ∧ s.remoteAt rid ≠ none ∧ s' = s.growRemote rid := by
  unfold handleRemoteOpen at h
  simp only at h
  split at h
  · exact absurd h enqueueWrite_ne_err
  rename_i hzero
  obtain ⟨rid, hrid⟩ := Nat.exists_eq_succ_of_ne_zero hzero
  rw [hrid, remoteAt_growRemote] at h
  split at h
  next hsome =>
    cases h
    exact ⟨rid, hrid, fun hnone => by simp [hnone] at hsome, rfl⟩
  · split at h
    · split at h
      · cases h
      · split at h <;> cases h
    · cases h

theorem handleRemoteReject_ok (h : s.handleRemoteReject remoteId = .ok s') :
    ∃ i, wrap32 remoteId.toNat = i + 1 ∧ i < s.locals.length ∧ s' = (s.markClosed i).free i := by
  unfold handleRemoteReject at h
  simp only at h
  split at h
  · cases h
  next hindex =>
    cases h
    exact ⟨wrap32 remoteId.toNat - 1, by omega, by omega, rfl⟩

theorem handleRemoteReject_ne_err : s.handleRemoteReject remoteId ≠ .err e s' := by
  unfold handleRemoteReject
  simp only
  split <;> exact nofun

/-- What the dispatch of a message preserves, the dispatch of a batch preserves, to its end or to the item that fails. -/
theorem dispatchBatch_induction {I : MuxState → Prop} (items : List BatchItem)
    (hstep : ∀ s : MuxState, ∀ item ∈ items, ∀ messageType payload, I s →
      I (s.dispatchMessage (wrap32 item.channelId.toNat) messageType payload)) (hs : I s) :
    ∀ s', (s.dispatchBatch items = .ok s' ∨ ∃ e, s.dispatchBatch items = .err e s') → I s' := by
  induction items generalizing s with
  | nil =>
    rintro s' (h | ⟨e, h⟩)
    · cases h
      exact hs
    · cases h
  | cons item items ih =>
    intro s' h
    have hrest := fun s => ih (s := s) fun s it hit => hstep s it (mem_cons_of_mem _ hit)
    unfold dispatchBatch dispatchBatchItem at h
    cases hd : decodeInner item.data with
    | ok r =>
      rw [hd] at h
      exact hrest _ (hstep s item mem_cons_self r.1 r.2 hs) s' h
    | error e =>
      rw [hd] at h
      cases e with
      | panic =>
        rcases h with h | ⟨e, h⟩ <;> cases h
      | error e =>
        rcases h with h | ⟨e, h⟩
        · cases h
        · cases h
          exact hs

theorem dispatchMessage_eq (s : MuxState) (rid : Nat) (messageType : UInt64) (payload : Bytes) :
    ∃ remote delivered, s.dispatchMessage rid messageType payload = { s with remote := remote, delivered := delivered } := by
  unfold dispatchMessage
  split
  · exact ⟨s.remote, s.delivered, rfl⟩
  · split
    · exact ⟨s.remote, s.delivered, rfl⟩
    · split <;> exact ⟨_, _, rfl⟩

/-- What a frame changes in the tables, a slot it frees apart: the channels waiting under one name get fewer, one local
channel is replaced, and a reject is written. -/
structure FrameStep (s t : MuxState) : Prop where
  freeIds : t.freeIds = s.freeIds
  batch : t.batch = s.batch
  corkDepth : t.corkDepth = s.corkDepth
  written : t.written = s.written ∨ ∃ f : ByteVec, f.1 = controlBytes 2 0 ∧ t.written = s.written ++ [f]
  infos : t.infos = s.infos ∨ ∃ key info, t.infos = s.infos.insert key info ∧
    ∀ w ∈ info.outgoing, w ∈ (s.infoOf key).outgoing
  locals : t.locals = s.locals ∨ ∃ i ch ch', s.localAt i = some ch ∧ t.locals = s.locals.set i (some ch')

theorem FrameStep.quiet (s : MuxState) (remote : List (Option RemoteChannel)) (delivered : List Delivery) :
    FrameStep s { s with remote := remote, delivered := delivered } :=
  ⟨rfl, rfl, rfl, .inl rfl, .inl rfl, .inl rfl⟩

theorem FrameStep.length {t : MuxState} (h : FrameStep s t) : t.locals.length = s.locals.length := by
  obtain h | ⟨i, ch, ch', -, h⟩ := h.locals
  · rw [h]
  · rw [h, length_set]

theorem frameStep_markClosed (s : MuxState) (i : Nat) : FrameStep s (s.markClosed i) := by
  unfold markClosed
  split
  next ch hch =>
    split
    · exact .quiet s s.remote s.delivered
    · exact ⟨rfl, rfl, rfl, .inl rfl, .inl rfl, .inr ⟨i, ch, _, hch, rfl⟩⟩
  · exact .quiet s s.remote s.delivered

theorem frameStep_open (h : s.handleRemoteOpen remoteLocalId protocol id hs = .ok s' ∨
    ∃ e, s.handleRemoteOpen remoteLocalId protocol id hs = .err e s') : FrameStep s s' := by
  rcases h with h | ⟨e, h⟩
  · obtain ⟨-, f, hf, rfl⟩ | ⟨rid, -, -, ⟨pos, outgoing, hout, -, hpair⟩ | ⟨-, rfl⟩⟩ := handleRemoteOpen_ok h
    · exact ⟨rfl, rfl, rfl, .inr ⟨f, hf, rfl⟩, .inl rfl, .inl rfl⟩
    · have hrest : ∀ w ∈ outgoing, w ∈ (s.infoOf (channelKey protocol id)).outgoing := fun w hw =>
        hout ▸ mem_cons_of_mem _ hw
      obtain ⟨ch, hch, rfl⟩ | ⟨-, rfl⟩ := hpair
      · exact ⟨rfl, rfl, rfl, .inl rfl, .inr ⟨_, _, rfl, hrest⟩, .inr ⟨pos, ch, _, hch, rfl⟩⟩
      · exact ⟨rfl, rfl, rfl, .inl rfl, .inr ⟨_, _, rfl, hrest⟩, .inl rfl⟩
    · exact ⟨rfl, rfl, rfl, .inl rfl, .inr ⟨_, _, rfl, fun w hw => hw⟩, .inl rfl⟩
  · obtain ⟨rid, -, -, rfl⟩ := handleRemoteOpen_err h
    exact .quiet s _ s.delivered

def rejects : DecodedFrame → Option Nat
  | .control (.rejectChannel remoteId) => some (wrap32 remoteId.toNat)
  | _ => none

/-- A frame changes the tables in this way, and frees a slot if it is a reject. -/
theorem handleFrame_step {frame : DecodedFrame} (h : s.handleFrame frame = .ok s' ∨ ∃ e, s.handleFrame frame = .err e s') :
    ∃ t, FrameStep s t ∧ (rejects frame = none ∧ s' = t ∨
      ∃ i, rejects frame = some (i + 1) ∧ i < s.locals.length ∧ s' = t.free i) := by
  cases frame with
  | control ctrl =>
    cases ctrl with
    | openChannel localId protocol id hs => exact ⟨s', frameStep_open h, .inl ⟨rfl, rfl⟩⟩
    | closeChannel localId =>
      rcases h with h | ⟨e, h⟩ <;> cases h
      refine ⟨_, ?_, .inl ⟨rfl, rfl⟩⟩
      unfold handleRemoteClose
      simp only
      split
      · exact .quiet s s.remote s.delivered
      · cases (s.remoteAt (wrap32 localId.toNat - 1)).bind (·.localId) with
        | none => exact .quiet s _ s.delivered
        | some i => exact { s.frameStep_markClosed i with }
    | rejectChannel remoteId =>
      obtain ⟨i, hi, hlt, rfl⟩ := handleRemoteReject_ok (h.resolve_right fun ⟨e, he⟩ => handleRemoteReject_ne_err he)
      exact ⟨_, s.frameStep_markClosed i, .inr ⟨i, congrArg some hi, hlt, rfl⟩⟩
  | batch items =>
    have hquiet := dispatchBatch_induction (I := fun t => ∃ remote delivered,
      t = { s with remote := remote, delivered := delivered }) items (fun t item _ m p ⟨remote, delivered, ht⟩ => ?_)
      ⟨s.remote, s.delivered, rfl⟩ s' h
    · obtain ⟨remote, delivered, rfl⟩ := hquiet
      exact ⟨_, .quiet s remote delivered, .inl ⟨rfl, rfl⟩⟩
    · obtain ⟨remote', delivered', h'⟩ := t.dispatchMessage_eq (wrap32 item.channelId.toNat) m p
      exact ⟨remote', delivered', by rw [h', ht]⟩
  | message channelId messageType payload =>
    rcases h with h | ⟨e, h⟩ <;> cases h
    obtain ⟨remote, delivered, h⟩ := s.dispatchMessage_eq (wrap32 channelId.toNat) messageType payload
    rw [h]
    exact ⟨_, .quiet s remote delivered, .inl ⟨rfl, rfl⟩⟩

end MuxState

/-! ## Steps of the run loop -/

namespace Mux
variable {s : MuxState}
variable {data : Bytes}

@[simp] theorem step_command (s : MuxState) (c : MuxCommand) :
    step (running s) (.command c) = settle (s.handleCommand c) := rfl

theorem step_frame (h : data ≠ []) : step (running s) (.frame data) = settle (s.handleIncomingFrame data) :=
  if_neg (mt List.isEmpty_iff.mp h)

theorem settle_state {I : MuxState → Prop} {r : Outcome} (h : ∀ s, r = .ok s ∨ (∃ e, r = .err e s) → I s)
    (hdown : ∀ s : MuxState, I s → I s.shutdownAll) : ∀ t ∈ (settle r).state?, I t := by
  intro t ht
  cases r with
  | ok s =>
    cases ht
    exact h t (.inl rfl)
  | err e s =>
    cases ht
    exact hdown s (h s (.inr ⟨e, rfl⟩))
  | panic => cases ht

/-- A frame that is handled has been decoded, or it leaves the tables as they are. -/
theorem handleIncomingFrame_cases {s s' : MuxState}
    (h : s.handleIncomingFrame data = .ok s' ∨ ∃ e, s.handleIncomingFrame data = .err e s') :
    (∃ frame, decodeFrame data = .ok frame ∧ (s.handleFrame frame = .ok s' ∨ ∃ e, s.handleFrame frame = .err e s')) ∨
    (∃ e, decodeFrame data = .error e) ∧ s' = s := by
  unfold MuxState.handleIncomingFrame at h
  cases hd : decodeFrame data with
  | ok frame =>
    rw [hd] at h
    exact .inl ⟨frame, rfl, h⟩
  | error e =>
    rw [hd] at h
    refine .inr ⟨⟨e, rfl⟩, ?_⟩
    cases e with
    | panic => rcases h with h | ⟨e, h⟩ <;> cases h
    | error e =>
      rcases h with h | ⟨e, h⟩
      · cases h
      · cases h
        rfl

variable {I : MuxState → Prop} {e : MuxEvent}
  (hframe : ∀ s s' frame, I s → (s.handleFrame frame = .ok s' ∨ ∃ e, s.handleFrame frame = .err e s') → I s')
  (hdown : ∀ s : MuxState, I s → I s.shutdownAll)
include hframe hdown

theorem step_invariant_of (hcommand : ∀ s s' c, e = .command c → I s → s.handleCommand c = .ok s' → I s')
    (m : Mux) (hm : ∀ s ∈ m.state?, I s) :
    ∀ s ∈ (m.step e).state?, I s := by
  cases m with
  | running s =>
    have hs := hm s rfl
    cases e with
    | command c =>
      refine settle_state (fun t ht => hcommand s t c rfl hs (ht.resolve_right fun ⟨e, he⟩ => ?_)) hdown
      exact MuxState.handleCommand_ne_err he
    | frame data =>
      by_cases hnil : data = []
      · subst hnil
        exact hm
      · rw [step_frame hnil]
        refine settle_state (fun t ht => ?_) hdown
        obtain ⟨frame, -, hf⟩ | ⟨-, rfl⟩ := handleIncomingFrame_cases ht
        · exact hframe s t frame hs hf
        · exact hs
    | stop =>
      intro t ht
      cases ht
      exact hdown s hs
  | ended s | panicked => exact hm

theorem step_invariant (hcommand : ∀ s s' c, I s → s.handleCommand c = .ok s' → I s') (m : Mux) (e : MuxEvent) (hm : ∀ s ∈ m.state?, I s) :
    ∀ s ∈ (m.step e).state?, I s :=
  step_invariant_of hframe hdown (fun s s' c _ => hcommand s s' c) m hm

end Mux
end Peeroxide.Dht
