import Peeroxide.Udx.Stream

/-!
# The processor task

One turn of the `process_incoming` loop. Which branch of the `select!` runs, when a timer fires and what time it is
are inputs, so a sequence of turns is any schedule the runtime can produce.
-/

namespace Peeroxide.Udx
open Lib

/-- A numbered packet handed to the socket; `again` when it is a retransmission. -/
structure Tx where
  seq : Nat
  packet : Bytes
  addr : SocketAddr
  again : Bool
  deriving DecidableEq, Repr

structure Datagram where
  data : Bytes
  addr : SocketAddr
  deriving DecidableEq, Repr

inductive WriteResult where
  | acked
  | failed (e : UdxError)
  deriving DecidableEq, Repr

/-- What a turn does besides changing the stream: numbered packets, other datagrams, events for the reader, and
answers to writers. -/
structure Effects where
  tx : List Tx := []
  control : List Datagram := []
  events : List StreamEvent := []
  completed : List (Nat × WriteResult) := []
  deriving DecidableEq, Repr

instance : Append Effects where
  append a b := ⟨a.tx ++ b.tx, a.control ++ b.control, a.events ++ b.events, a.completed ++ b.completed⟩

/-- The stream after a handler, its effects, and whether the loop is left. -/
structure Turn where
  s : StreamInner
  out : Effects := {}
  stop : Bool := false

/-- The fields of the relay target that forwarding reads. -/
structure RelayDest where
  remoteId : Nat := 0
  remoteAddr : Option SocketAddr := none
  udp : Bool := false
  deriving DecidableEq, Repr

/-- The inputs of a turn that the stream does not hold. -/
structure Ctx where
  now : Instant := 0
  bbr : BbrAnswer := {}
  relay : RelayDest := {}
  deriving DecidableEq, Repr

inductive StreamNotify where
  | dataQueued
  | shutdown
  deriving DecidableEq, Repr

inductive ProcEvent where
  | packet (data : Bytes) (addr : SocketAddr)
  | incomingClosed
  | notify (n : StreamNotify)
  | pacing
  | rto
  | keepalive
  deriving DecidableEq, Repr

/-! ## Incoming packets -/

def isPlausibleFirstPacket (h : Header) : Bool :=
  if h.typeFlags = 0 then false
  else if h.hasFlag FLAG_DESTROY then false
  else if h.typeFlags = FLAG_SACK then false
  else true

inductive Gate where
  | pass (s : StreamInner)
  | drop (s : StreamInner)
  | reject (s : StreamInner)

/-- The single-fire firewall hook: it is taken by the first plausible packet, and commits its source on `true`. -/
def firewallGate (s : StreamInner) (h : Header) (addr : SocketAddr) : Gate :=
  if s.connected then .pass s
  else if !isPlausibleFirstPacket h then .drop s
  else
    let taken := { s with firewallHook := none, firewallSocket := false }
    match s.firewallHook, s.firewallSocket with
    | some hook, true =>
      if hook addr then
        .pass { taken with
          remoteAddr := some addr
          connected := true
          sendQueue := s.sendQueue.map (fun q =>
            if q.remoteAddr = .unspecified then { q with remoteAddr := addr } else q) }
      else .reject taken
    | _, _ => .drop taken

def rewriteId (data : Bytes) (remoteId : Nat) : Bytes :=
  if 8 ≤ data.length then data.take 4 ++ leBytes 4 remoteId ++ data.drop 8 else data

/-- Forward a packet to the relay target, rewriting only its stream id. -/
def relayPacket (s : StreamInner) (data : Bytes) (dest : RelayDest) : Turn :=
  let fwd := rewriteId data dest.remoteId
  let control : List Datagram := match dest.udp, dest.remoteAddr with
    | true, some addr => [⟨fwd, addr⟩]
    | _, _ => []
  if 2 < fwd.length && fwd.getD 2 0 &&& FLAG_DESTROY != 0 then ⟨{ s with closeTx := false }, { control := control }, true⟩
  else ⟨s, { control := control }, false⟩

/-- The selective ranges a packet carries, if it carries any that decode. -/
def incomingSack (h : Header) (data : Bytes) : Option (List SackRange) :=
  if h.hasFlag FLAG_SACK && 0 < h.dataOffset.toNat then
    if h.payloadOffset ≤ data.length then
      (decodeSack ((data.take h.payloadOffset).drop HEADER_SIZE)).toOption
    else none
  else none

/-- Resent packets go out when the stream has a socket and an address. -/
def resendTx (s : StreamInner) (resent : List (Nat × Bytes)) : List Tx :=
  match s.udp, s.remoteAddr with
  | true, some addr => resent.map (fun p => ⟨p.1, p.2, addr, true⟩)
  | _, _ => []

/-- The advertised window and the cumulative acknowledgement of a packet. -/
def ackPart (s : StreamInner) (h : Header) (now : Instant) : StreamInner × List Nat × List (Nat × PacketRateInfo) :=
  let s := { s with sendRwnd := h.recvWindow }
  if 0 < h.ack then s.onCumulativeAck h.ack now else (s, [], [])

def sackPart (s : StreamInner) (h : Header) (data : Bytes) : StreamInner × List (Nat × PacketRateInfo) :=
  match incomingSack h data with
  | some ranges => s.onSack ranges
  | none => (s, [])

/-- The acknowledgement part under one lock: cumulative ack, SACK, loss detection. The completed channels, the
acknowledged packets and the number of losses are what the congestion controller and the writers get. -/
def scanAcks (s : StreamInner) (h : Header) (data : Bytes) (now : Instant) :
    StreamInner × List Nat × List (Nat × PacketRateInfo) × Nat :=
  let a := ackPart s h now
  let b := sackPart a.1 h data
  let d := b.1.detectLosses
  (d.1, a.2.1, a.2.2 ++ b.2, d.2)

/-- Feed one acknowledgement to the congestion controller, unless it brought nothing. -/
def feedCongestion (s : StreamInner) (acked : List (Nat × PacketRateInfo)) (lostCount : Nat) (ctx : Ctx) : StreamInner :=
  if acked ≠ [] ∨ 0 < lostCount then
    { s with congestion := s.congestion.onAck acked lostCount s.inflight ctx.now ctx.bbr }
  else s

def onAckSack (s : StreamInner) (h : Header) (data : Bytes) (ctx : Ctx) : Turn :=
  if 0 < h.ack ∨ (h.hasFlag FLAG_SACK && 0 < h.dataOffset.toNat) then
    let a := scanAcks s h data ctx.now
    let r := (feedCongestion a.1 a.2.2.1 a.2.2.2 ctx).fastRetransmit ctx.now
    { s := r.1, out := { tx := resendTx r.1 r.2, completed := a.2.1.map (fun ch => (ch, .acked)) } }
  else { s := { s with sendRwnd := h.recvWindow } }

/-- A pure ACK, or an ACK with SACK ranges after the header. -/
def sendAck (s : StreamInner) (ranges : List SackRange) : List Datagram :=
  match s.udp, s.remoteAddr with
  | true, some addr =>
    if ranges.isEmpty then [⟨Header.encode ⟨0, 0, s.remoteId, DEFAULT_RWND, 0, s.nextRemoteSeq⟩, addr⟩]
    else
      let header : Header := ⟨FLAG_SACK, UInt8.ofNat (ranges.length * 8), s.remoteId, DEFAULT_RWND, 0, s.nextRemoteSeq⟩
      [⟨header.encode ++ encodeSack ranges, addr⟩]
  | _, _ => []

/-- The payload behind header and offset; empty when the offset points past the end. -/
def packetPayload (h : Header) (data : Bytes) : Bytes :=
  if h.payloadOffset ≤ data.length then data.drop h.payloadOffset else []

def recvFlags (h : Header) : UInt8 :=
  (if h.hasFlag FLAG_DATA then FLAG_DATA else 0) ||| (if h.hasFlag FLAG_END then FLAG_END else 0)

def onData (s : StreamInner) (h : Header) (data : Bytes) : Turn :=
  if h.hasFlag FLAG_DATA || h.hasFlag FLAG_END then
    let r := s.receiveData h.seq (packetPayload h data) (recvFlags h)
    { s := r.1, out := { events := r.2, control := sendAck r.1 r.1.sackRanges } }
  else { s := s }

def onDestroy (s : StreamInner) : Turn := ⟨{ s with closeTx := false }, { events := [.ended] }, true⟩

def onHeartbeat (s : StreamInner) (h : Header) : Turn :=
  { s := s, out := { control := if h.hasFlag FLAG_HEARTBEAT then sendAck s [] else [] } }

/-- A packet past the gate on a stream that does not relay. -/
def onStreamPacket (s : StreamInner) (h : Header) (data : Bytes) (ctx : Ctx) : Turn :=
  let a := onAckSack s h data ctx
  let d := onData a.s h data
  let l := if h.hasFlag FLAG_DESTROY then onDestroy d.s else onHeartbeat d.s h
  ⟨l.s, a.out ++ d.out ++ l.out, l.stop⟩

def onPacket (s : StreamInner) (data : Bytes) (addr : SocketAddr) (ctx : Ctx) : Turn :=
  match Header.decode data with
  | .error _ => { s := s }
  | .ok h =>
    match firewallGate s h addr with
    | .drop s => { s := s }
    | .reject s => { s := s, stop := true }
    | .pass s => if s.relayTarget then relayPacket s data ctx.relay else onStreamPacket s h data ctx

/-! ## The pacing timer -/

def isDataPacket (packet : Bytes) : Bool := HEADER_SIZE ≤ packet.length && packet.getD 2 0 &&& FLAG_DATA != 0

def startSearch (s : StreamInner) (packet : Bytes) : StreamInner :=
  if isDataPacket packet && s.mtuState == .base then { s with mtuState := .search, mtuProbeWanted := true } else s

/-- Turn the packet into a probe when one is wanted and it can be padded. -/
def tryProbe (s : StreamInner) (packet : Bytes) : StreamInner × Bytes × Bool :=
  if isDataPacket packet && s.mtuState == .search && s.mtuProbeWanted then
    match s.mtuProbeifyPacket packet with
    | some (s, padded) => (s, padded, true)
    | none => (s, packet, false)
  else (s, packet, false)

def sendOne (s : StreamInner) (q : QueuedPacket) (now : Instant) : StreamInner × Tx :=
  let p := tryProbe (startSearch s q.packet) q.packet
  let s := p.1.registerSent q.seq p.2.1 p.2.2 now
  ({ s with congestion := { s.congestion with
      pacing := (s.congestion.pacing.tryConsume (wrap32 p.2.1.length) now).1 } },
    ⟨q.seq, p.2.1, q.remoteAddr, false⟩)

/-- Whether the head of the queue may go now, after `batched` packets of this flush: first the app-limited mark, then
the window, then the pacer. -/
def flushAsk (s : StreamInner) (front : QueuedPacket) (batched : Nat) (now : Instant) : CongestionController × Bool :=
  let inflight := wrap32 (s.inflight + batched)
  let queuedBytes := (s.sendQueue.map (fun q => q.packet.length)).sum
  let c := s.congestion.checkAppLimited queuedBytes inflight
  if !c.canSend inflight s.sendRwnd then (c, false)
  else
    let d := c.pacingDelay (wrap32 front.packet.length) now
    (d.1, d.2 = 0)

/-- The flush loop: each turn sends the head of the queue, or stops. -/
def flushLoop (now : Instant) : Nat → StreamInner → List Tx → StreamInner × List Tx
  | 0, s, batch => (s, batch)
  | fuel + 1, s, batch =>
    match s.sendQueue with
    | [] => (s, batch)
    | front :: rest =>
      let a := flushAsk s front batch.length now
      if a.2 then
        let r := sendOne { s with congestion := a.1, sendQueue := rest } front now
        flushLoop now fuel r.1 (batch ++ [r.2])
      else ({ s with congestion := a.1 }, batch)

def onPacing (s : StreamInner) (shuttingDown : Bool) (now : Instant) : Turn :=
  let r := flushLoop now s.sendQueue.length s []
  ⟨r.1, { tx := if r.1.udp then r.2 else [] }, shuttingDown && r.1.sendQueue.isEmpty⟩

/-! ## The retransmission and keepalive timers -/

/-- The stream after a retransmission timeout that is not the last: the controller enters the loss state up to
`maxSeq`, and the timer backs off. -/
def rtoBackoff (s : StreamInner) (maxSeq : Nat) : StreamInner :=
  { s with
    rtoTimeouts := s.rtoTimeouts + 1
    congestion := { s.congestion.onRto with highSeq := maxSeq }
    rto := min (s.rto * 2) MAX_RTO_MS }

def onRto (s : StreamInner) (now : Instant) : Turn :=
  match s.outgoing.lastKey? with
  | none => { s := s }
  | some maxSeq =>
    if MAX_RTO_TIMEOUTS ≤ s.rtoTimeouts + 1 then
      ⟨{ s with rtoTimeouts := s.rtoTimeouts + 1, pendingWrites := [] },
        { completed := (s.pendingWrites.filterMap PendingWrite.tx).map
            (fun ch => (ch, .failed (.io .timedOut "RTO timeout exceeded"))) }, true⟩
    else
      let r := (rtoBackoff s maxSeq).packetsToRetransmit now
      { s := r.1, out := { tx := resendTx r.1 r.2 } }

/-- A HEARTBEAT on a connected stream with nothing outstanding. -/
def keepaliveOut (s : StreamInner) : List Datagram :=
  if s.connected && s.outgoing.isEmpty && !s.relayTarget then
    match s.udp, s.remoteAddr with
    | true, some addr => [⟨Header.encode ⟨FLAG_HEARTBEAT, 0, s.remoteId, DEFAULT_RWND, 0, s.nextRemoteSeq⟩, addr⟩]
    | _, _ => []
  else []

def onKeepalive (s : StreamInner) : Turn := { s := s, out := { control := keepaliveOut s } }

/-! ## One turn of the loop -/

/-- The processor task: whether it runs, and its `shutting_down` flag. -/
structure Proc where
  running : Bool := false
  shuttingDown : Bool := false
  deriving DecidableEq, Repr

def branch (s : StreamInner) (shuttingDown : Bool) (ctx : Ctx) : ProcEvent → Turn
  | .packet data addr => onPacket s data addr ctx
  | .incomingClosed => { s := s, stop := true }
  | .notify _ => { s := s }
  | .pacing => onPacing s shuttingDown ctx.now
  | .rto => onRto s ctx.now
  | .keepalive => onKeepalive s

def finish (t : Turn) : StreamInner × Effects :=
  let r := t.s.terminate
  (r.1, { t.out with completed := t.out.completed ++ r.2.map (fun ch => (ch, .failed .streamClosed)) })

def Proc.turn (p : Proc) (s : StreamInner) (ctx : Ctx) (e : ProcEvent) : StreamInner × Proc × Effects :=
  let t := branch s p.shuttingDown ctx e
  if t.stop then
    let f := finish t
    (f.1, { p with running := false }, f.2)
  else
    (t.s, { p with shuttingDown := p.shuttingDown || e == .notify .shutdown }, t.out)

end Peeroxide.Udx
