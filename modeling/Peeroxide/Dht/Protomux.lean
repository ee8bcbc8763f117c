import Peeroxide.Dht.MuxFrames
import Peeroxide.Lib.Machine
import Mathlib.Data.List.AList

/-!
# Protomux

The actor that multiplexes channels over one framed stream. Each side numbers its own channels; a channel is open when
both sides have opened one of the same protocol and id. Arithmetic that leaves `u32`, an index outside a vector and a
vector longer than the allocator grants stop the program.
-/

namespace Peeroxide.Dht
open Lib

/-! ## State -/

structure LocalChannel where
  protocol : String
  id : Option ByteVec
  remoteId : Option Nat
  /-- Where its events go: the number of the handle among all handles ever created. -/
  eventTx : Nat
  opened : Bool
  closed : Bool
  deriving DecidableEq

structure RemoteChannel where
  /-- The handshake of the open frame, until the channels are paired. -/
  handshakeState : Option Bytes
  /-- The slot of the local channel it is paired with. -/
  localId : Option Nat
  /-- Messages that came before the local channel was open. -/
  pending : List (UInt64 × Bytes)
  deriving DecidableEq

structure ChannelInfo where
  /-- Wire ids of local channels that are not paired yet. -/
  outgoing : List Nat
  /-- Ids of remote channels that are not paired yet. -/
  incoming : List Nat
  deriving DecidableEq

inductive ChannelEvent where
  | opened (handshake : Option Bytes)
  | message (messageType : UInt32) (data : Bytes)
  | closed (isRemote : Bool)
  deriving DecidableEq

/-- An event sent to a handle, with the id of the remote channel it is sent for. -/
structure Delivery where
  eventTx : Nat
  origin : Option Nat
  event : ChannelEvent
  deriving DecidableEq

structure MuxState where
  /-- The local channels by slot; the wire id of a slot is one more. -/
  locals : List (Option LocalChannel)
  freeIds : List Nat
  /-- The remote channels by id; ids start at one. -/
  remote : List (Option RemoteChannel)
  infos : AList fun _ : String => ChannelInfo
  corkDepth : Nat
  batch : List (UInt64 × ByteVec)
  /-- All frames put into the write queue. -/
  written : List ByteVec
  /-- All events sent to handles. -/
  delivered : List Delivery
  /-- Protocol and id of every channel created; a handle's number is its place here. -/
  created : List (String × Option ByteVec)

inductive Outcome where
  | ok (s : MuxState)
  | err (e : ProtomuxError) (s : MuxState)
  | panic

def hexEncode (bs : Bytes) : List Char :=
  bs.flatMap fun b => [Nat.digitChar (b.toNat / 16), Nat.digitChar (b.toNat % 16)]

def channelKey (protocol : String) (id : Option ByteVec) : String :=
  match id with
  | some id => protocol ++ "##" ++ String.ofList (hexEncode id.1)
  | none => protocol ++ "##"

namespace MuxState

def new : MuxState := ⟨[], [], [], ∅, 0, [], [], [], []⟩

def localAt (s : MuxState) (i : Nat) : Option LocalChannel := s.locals[i]?.join

def remoteAt (s : MuxState) (r : Nat) : Option RemoteChannel := s.remote[r]?.join

def infoOf (s : MuxState) (key : String) : ChannelInfo := (s.infos.lookup key).getD ⟨[], []⟩

def deliver (s : MuxState) (ds : List Delivery) : MuxState := { s with delivered := s.delivered ++ ds }

/-- The slot that is handed out next: the last one that was freed, or a new one. -/
def nextSlot (s : MuxState) : Nat := s.freeIds.getLast?.getD (wrap32 s.locals.length)

def allocLocalId (s : MuxState) : Nat × MuxState :=
  match s.freeIds.getLast? with
  | some id => (id, { s with freeIds := s.freeIds.dropLast })
  | none => (wrap32 s.locals.length, { s with locals := s.locals ++ [none] })

/-- Control frames are written at once, corked or not. -/
def enqueueWrite (s : MuxState) (frame : Except (Fault EncodingError) Bytes) : Outcome :=
  match vecOf frame with
  | some f => .ok { s with written := s.written ++ [f] }
  | none => .panic

/-! ## Commands -/

/-- The new channel is paired with the remote channel that waits for it; what came for it is delivered. -/
def pairIncoming (s : MuxState) (internalId : Nat) (ch : LocalChannel) (remoteId : Nat) : MuxState :=
  let rc := s.remoteAt (remoteId - 1)
  let handshake := rc.bind (·.handshakeState)
  let pending := rc.elim [] (·.pending)
  { s with
    locals := s.locals.set internalId (some { ch with remoteId := some remoteId, opened := true })
    remote := rc.elim s.remote fun _ => s.remote.set (remoteId - 1) (some ⟨none, some internalId, []⟩)
    delivered := s.delivered ++ ⟨ch.eventTx, some remoteId, .opened handshake⟩ ::
      pending.map fun m => ⟨ch.eventTx, some remoteId, .message m.1.toUInt32 m.2⟩ }

def createChannelInternal (s : MuxState) (protocol : String) (id handshake : Option ByteVec) : Outcome :=
  let (internalId, s) := s.allocLocalId
  -- `internal_id + 1` is a `u32`
  if 2 ^ 32 ≤ internalId + 1 then .panic
  else if s.locals.length ≤ internalId then .panic
  else
    let key := channelKey protocol id
    let ch : LocalChannel := ⟨protocol, id, none, s.created.length, false, false⟩
    let s := { s with created := s.created ++ [(protocol, id)] }
    let info := s.infoOf key
    let frame := encodeOpen (UInt64.ofNat (internalId + 1)) protocol id handshake
    match info.incoming with
    | remoteId :: incoming =>
      -- `remote_id as usize - 1`
      if remoteId = 0 then .panic
      else
        let s := { s with infos := s.infos.insert key { info with incoming := incoming } }
        (s.pairIncoming internalId ch remoteId).enqueueWrite frame
    | [] =>
      { s with
        locals := s.locals.set internalId (some ch)
        infos := s.infos.insert key { info with outgoing := info.outgoing ++ [internalId + 1] } }.enqueueWrite frame

def sendMessageInternal (s : MuxState) (localId messageType : UInt32) (data : Bytes) : Outcome :=
  if localId = 0 then .panic
  else
    match s.localAt (localId.toNat - 1) with
    | none => .ok s
    | some _ =>
      if 0 < s.corkDepth then
        match vecOf (encodeInner messageType.toUInt64 data) with
        | some inner => .ok { s with batch := s.batch ++ [(localId.toUInt64, inner)] }
        | none => .panic
      else s.enqueueWrite (encodeMessage localId.toUInt64 messageType.toUInt64 data)

def free (s : MuxState) (i : Nat) : MuxState := { s with locals := s.locals.set i none, freeIds := s.freeIds ++ [i] }

def closeChannelInternal (s : MuxState) (localId : UInt32) : Outcome :=
  if localId = 0 then .panic
  else
    let internalId := localId.toNat - 1
    if s.locals.length ≤ internalId then .ok s
    else
      match s.localAt internalId with
      | some ch =>
        if ch.closed then .ok s
        else ((s.deliver [⟨ch.eventTx, none, .closed false⟩]).free internalId).enqueueWrite
          (encodeClose localId.toUInt64)
      -- an empty slot is closed and freed like any other
      | none => (s.free internalId).enqueueWrite (encodeClose localId.toUInt64)

def cork (s : MuxState) : Outcome :=
  if 2 ^ 32 ≤ s.corkDepth + 1 then .panic else .ok { s with corkDepth := s.corkDepth + 1 }

def uncork (s : MuxState) : Outcome :=
  if s.corkDepth = 0 then .ok s
  else
    let s := { s with corkDepth := s.corkDepth - 1 }
    -- the frame of a batch that is not empty is not empty
    if s.corkDepth = 0 ∧ s.batch ≠ [] then { s with batch := [] }.enqueueWrite (encodeBatch s.batch)
    else .ok s

/-- Every channel that is not closed is closed, and told so. -/
def shutdownAll (s : MuxState) : MuxState :=
  { s with
    locals := s.locals.map (Option.map fun ch => { ch with closed := true })
    delivered := s.delivered ++ s.locals.filterMap fun ch =>
      (ch.filter fun ch => !ch.closed).map fun ch => ⟨ch.eventTx, none, .closed true⟩ }

end MuxState

inductive MuxCommand where
  | createChannel (protocol : String) (id handshake : Option ByteVec)
  | sendMessage (localId messageType : UInt32) (data : Bytes)
  | closeChannel (localId : UInt32)
  | cork
  | uncork
  deriving DecidableEq

namespace MuxState

def handleCommand (s : MuxState) : MuxCommand → Outcome
  | .createChannel protocol id handshake => s.createChannelInternal protocol id handshake
  | .sendMessage localId messageType data => s.sendMessageInternal localId messageType data
  | .closeChannel localId => s.closeChannelInternal localId
  | .cork => s.cork
  | .uncork => s.uncork

/-! ## Incoming frames -/

/-- The list of remote channels reaches `rid`. -/
def growRemote (s : MuxState) (rid : Nat) : MuxState :=
  { s with remote := s.remote ++ List.replicate (rid + 1 - s.remote.length) none }

def handleRemoteOpen (s : MuxState) (remoteLocalId : UInt64) (protocol : String) (id : Option ByteVec)
    (handshakeState : Option Bytes) : Outcome :=
  let remoteId := wrap32 remoteLocalId.toNat
  if remoteId = 0 then s.enqueueWrite (encodeReject 0)
  else
    let rid := remoteId - 1
    let s := s.growRemote rid
    if (s.remoteAt rid).isSome then .err (.invalidFrame "duplicate remote channel ID") s
    else
      let key := channelKey protocol id
      let info := s.infoOf key
      match info.outgoing with
      | pos :: outgoing =>
        -- `pos - 1` is a `u32` and an index
        if pos = 0 ∨ s.locals.length < pos then .panic
        else
          let internalId := pos - 1
          let s := { s with
            infos := s.infos.insert key { info with outgoing := outgoing }
            remote := s.remote.set rid (some ⟨handshakeState, some internalId, []⟩) }
          match s.localAt internalId with
          | some ch =>
            .ok ({ s with
              locals := s.locals.set internalId (some { ch with remoteId := some remoteId, opened := true }) }.deliver
              [⟨ch.eventTx, some remoteId, .opened handshakeState⟩])
          | none => .ok s
      | [] =>
        .ok { s with
          infos := s.infos.insert key { info with incoming := info.incoming ++ [remoteId] }
          remote := s.remote.set rid (some ⟨handshakeState, none, []⟩) }

def pairedWith (s : MuxState) (rc : RemoteChannel) : Option LocalChannel := rc.localId.bind s.localAt

/-- A channel the remote closes or rejects is told so, once. -/
def markClosed (s : MuxState) (i : Nat) : MuxState :=
  match s.localAt i with
  | some ch =>
    if ch.closed then s
    else { s with locals := s.locals.set i (some { ch with closed := true }) }.deliver [⟨ch.eventTx, none, .closed true⟩]
  | none => s

/-- The local channel keeps its slot. -/
def handleRemoteClose (s : MuxState) (remoteLocalId : UInt64) : MuxState :=
  let remoteId := wrap32 remoteLocalId.toNat
  if remoteId = 0 then s
  else
    let rid := remoteId - 1
    let s := ((s.remoteAt rid).bind (·.localId)).elim s s.markClosed
    { s with remote := s.remote.set rid none }

def handleRemoteReject (s : MuxState) (remoteId : UInt64) : Outcome :=
  let localIdWire := wrap32 remoteId.toNat
  -- `local_id_wire - 1` is a `u32` and an index
  if localIdWire = 0 ∨ s.locals.length < localIdWire then .panic
  else
    let internalId := localIdWire - 1
    .ok ((s.markClosed internalId).free internalId)

def handleControl (s : MuxState) : ControlFrame → Outcome
  | .openChannel localId protocol id handshakeState => s.handleRemoteOpen localId protocol id handshakeState
  | .closeChannel localId => .ok (s.handleRemoteClose localId)
  | .rejectChannel remoteId => s.handleRemoteReject remoteId

def dispatchMessage (s : MuxState) (remoteId : Nat) (messageType : UInt64) (payload : Bytes) : MuxState :=
  if remoteId = 0 then s
  else
    match s.remoteAt (remoteId - 1) with
    | none => s
    | some rc =>
      match (s.pairedWith rc).filter (·.opened) with
      | some ch => s.deliver [⟨ch.eventTx, some remoteId, .message messageType.toUInt32 payload⟩]
      | none =>
        { s with remote := s.remote.set (remoteId - 1) (some { rc with pending := rc.pending ++ [(messageType, payload)] }) }

def dispatchBatchItem (s : MuxState) (item : BatchItem) : Outcome :=
  match decodeInner item.data with
  | .ok (messageType, payload) => .ok (s.dispatchMessage (wrap32 item.channelId.toNat) messageType payload)
  | .error (.error e) => .err (.encoding e) s
  | .error .panic => .panic

/-- The items before one that fails are dispatched. -/
def dispatchBatch (s : MuxState) : List BatchItem → Outcome
  | [] => .ok s
  | item :: items =>
    match s.dispatchBatchItem item with
    | .ok s => s.dispatchBatch items
    | r => r

def handleFrame (s : MuxState) : DecodedFrame → Outcome
  | .control ctrl => s.handleControl ctrl
  | .message channelId messageType payload => .ok (s.dispatchMessage (wrap32 channelId.toNat) messageType payload)
  | .batch items => s.dispatchBatch items

def handleIncomingFrame (s : MuxState) (data : Bytes) : Outcome :=
  match decodeFrame data with
  | .ok frame => s.handleFrame frame
  | .error (.error e) => .err e s
  | .error .panic => .panic

end MuxState

/-! ## The run loop -/

inductive MuxEvent where
  | command (c : MuxCommand)
  | frame (data : Bytes)
  /-- The stream ends or fails, or all handles are dropped. -/
  | stop
  deriving DecidableEq

inductive Mux where
  | running (s : MuxState)
  | ended (s : MuxState)
  | panicked

namespace Mux

def new : Mux := .running .new

def settle : Outcome → Mux
  | .ok s => .running s
  | .err _ s => .ended s.shutdownAll
  | .panic => .panicked

def step : Mux → MuxEvent → Mux
  | running s, .command c => settle (s.handleCommand c)
  -- empty frames are ignored
  | running s, .frame data => if data.isEmpty then running s else settle (s.handleIncomingFrame data)
  | running s, .stop => ended s.shutdownAll
  | ended s, _ => ended s
  | panicked, _ => panicked

def state? : Mux → Option MuxState
  | running s => some s
  | ended s => some s
  | panicked => none

end Mux
end Peeroxide.Dht
