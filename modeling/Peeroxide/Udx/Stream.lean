import Peeroxide.Lib.Chunks
import Peeroxide.Lib.OrdMap
import Peeroxide.Udx.Congestion
import Peeroxide.Udx.Header

/-!
# The stream state and its operations

`StreamInner` and the methods that run under its lock, as the stream code has them. Arithmetic on `u32` fields wraps
as in a release build. Channels are named by numbers; `udp`, `notify_tx`, `close_tx` and `relay_target` are kept as
whether they are there.
-/

namespace Peeroxide.Udx
open Lib

def DEFAULT_RWND : Nat := 4194304
def MTU_BASE : Nat := 1200
def MTU_MAX : Nat := 1500
def MTU_STEP : Nat := 32
def MTU_MAX_PROBES : Nat := 3
def MAX_PAYLOAD : Nat := 1200 - HEADER_SIZE
def INITIAL_RTO_MS : Nat := 1000
def MAX_RTO_MS : Nat := 30000
def MAX_RTO_TIMEOUTS : Nat := 6
def MAX_SACK_RANGES : Nat := 50
def MAX_RTT_MS : Nat := 30000

inductive MtuState where
  | base
  | search
  | searchComplete
  deriving DecidableEq, Repr

inductive IpAddr where
  | v4 (addr : Nat)
  | v6 (addr : Nat)
  deriving DecidableEq, Repr

structure SocketAddr where
  ip : IpAddr
  port : Nat
  deriving DecidableEq, Repr

/-- `0.0.0.0:0`, the address of packets queued before the firewall hook has fired. -/
def SocketAddr.unspecified : SocketAddr := ⟨.v4 0, 0⟩

inductive IoErrorKind where
  | other
  | timedOut
  deriving DecidableEq, Repr

inductive UdxError where
  | streamClosed
  | io (kind : IoErrorKind) (msg : String)
  deriving DecidableEq, Repr

inductive StreamEvent where
  | data (payload : Bytes)
  | ended
  deriving DecidableEq, Repr

structure SentPacket where
  packet : Bytes
  timeSent : Instant
  retransmitCount : Nat
  sacked : Bool
  isMtuProbe : Bool
  lost : Bool
  rateInfo : Option PacketRateInfo
  deriving DecidableEq, Repr

structure RecvdPacket where
  payload : Bytes
  flags : UInt8
  deriving DecidableEq, Repr

structure QueuedPacket where
  packet : Bytes
  seq : Nat
  remoteAddr : SocketAddr
  deriving DecidableEq, Repr

structure PendingWrite where
  ackThreshold : Nat
  tx : Option Nat
  deriving DecidableEq, Repr

/-- A single-fire hook asked about the source of the first packet. -/
abbrev FirewallHook := SocketAddr → Bool

structure StreamInner where
  remoteId : Nat
  remoteAddr : Option SocketAddr
  connected : Bool
  ended : Bool
  nextSeq : Nat
  pendingWrites : List PendingWrite
  outgoing : OrdMap Nat SentPacket
  nextRemoteSeq : Nat
  remoteAcked : Nat
  recvBuf : OrdMap Nat RecvdPacket
  srtt : Nat
  rttvar : Nat
  rto : Nat
  rtoTimeouts : Nat
  sendRwnd : Nat
  mtuState : MtuState
  mtu : Nat
  mtuProbeSize : Nat
  mtuProbeCount : Nat
  mtuProbeWanted : Bool
  mtuMax : Nat
  udp : Bool
  closeTx : Bool
  notifyTx : Bool
  congestion : CongestionController
  sendQueue : List QueuedPacket
  relayTarget : Bool
  firewallHook : Option FirewallHook
  firewallSocket : Bool

structure WritePrep where
  remoteAddr : SocketAddr
  remoteId : Nat
  firstSeq : Nat
  currentAck : Nat
  ackRx : Nat
  deriving DecidableEq, Repr

/-! ## Packets -/

def buildDataPacket (remoteId seq ack : Nat) (payload : Bytes) : Bytes :=
  Header.encode ⟨FLAG_DATA, 0, remoteId, DEFAULT_RWND, seq, ack⟩ ++ payload

/-- The END packet of `shutdown` and `poll_shutdown`. -/
def buildEndPacket (remoteId seq ack : Nat) : Bytes :=
  Header.encode ⟨FLAG_END, 0, remoteId, DEFAULT_RWND, seq, ack⟩

def stripProbePadding (packet : Bytes) : Bytes :=
  if packet.length < HEADER_SIZE then packet
  else
    let dataOffset := (packet.getD 3 0).toNat
    if dataOffset = 0 then packet
    else
      let payloadStart := HEADER_SIZE + dataOffset
      let packet := if payloadStart ≤ packet.length then packet.take HEADER_SIZE ++ packet.drop payloadStart else packet
      packet.set 3 0

/-- The events of one received packet: its data unless empty, then the end mark. -/
def pushEvents (payload : Bytes) (flags : UInt8) : List StreamEvent :=
  let hasData := flags &&& FLAG_DATA != 0
  let hasEnd := flags &&& FLAG_END != 0
  (if hasData && !payload.isEmpty then [.data payload] else []) ++ (if hasEnd then [.ended] else [])

/-- `data.chunks(maxPayload)`, with one empty chunk for empty data. -/
def chunks (maxPayload : Nat) (data : Bytes) : List Bytes :=
  if data.isEmpty then [[]] else chunksOf maxPayload data

/-- How many packets `prepare_write` counts for `dataLen` bytes. -/
def chunkCount (maxPayload dataLen : Nat) : Nat :=
  if dataLen = 0 then 1 else divCeil dataLen maxPayload

namespace StreamInner

/-- The state `UdxStream::new` builds. -/
def new : StreamInner where
  remoteId := 0
  remoteAddr := none
  connected := false
  ended := false
  nextSeq := 0
  pendingWrites := []
  outgoing := .empty
  nextRemoteSeq := 0
  remoteAcked := 0
  recvBuf := .empty
  srtt := 0
  rttvar := 0
  rto := INITIAL_RTO_MS
  rtoTimeouts := 0
  sendRwnd := DEFAULT_RWND
  mtuState := .base
  mtu := MTU_BASE
  mtuProbeSize := MTU_BASE + MTU_STEP
  mtuProbeCount := 0
  mtuProbeWanted := false
  mtuMax := MTU_MAX
  udp := false
  closeTx := true
  notifyTx := false
  congestion := .new MAX_PAYLOAD
  sendQueue := []
  relayTarget := false
  firewallHook := none
  firewallSocket := false

/-! ## Termination -/

/-- Also answers the channels that get `StreamClosed`. -/
def terminate (s : StreamInner) : StreamInner × List Nat :=
  ({ s with connected := false, notifyTx := false, pendingWrites := [] }, s.pendingWrites.filterMap PendingWrite.tx)

/-! ## Path MTU -/

def maxPayload (s : StreamInner) : Nat := s.mtu - HEADER_SIZE

/-- `padding` zero bytes between the header and the payload, with their number in the data offset. -/
def insertPadding (packet : Bytes) (padding : Nat) : Bytes :=
  (packet.take HEADER_SIZE ++ List.replicate padding 0 ++ packet.drop HEADER_SIZE).set 3 (UInt8.ofNat padding)

theorem length_insertPadding {packet : Bytes} (h : HEADER_SIZE ≤ packet.length) (padding : Nat) :
    (insertPadding packet padding).length = packet.length + padding := by
  simp only [insertPadding, List.length_set, List.length_append, List.length_take, List.length_replicate, List.length_drop]
  omega

/-- Pad a packet to the probe size; `none` when it cannot be. -/
def mtuProbeifyPacket (s : StreamInner) (packet : Bytes) : Option (StreamInner × Bytes) :=
  if packet.length < HEADER_SIZE then none
  else if s.mtuProbeSize ≤ packet.length then none
  else
    let padding := s.mtuProbeSize - packet.length
    if 255 < padding then none
    else some ({ s with mtuProbeWanted := false }, insertPadding packet padding)

def onMtuProbeAcked (s : StreamInner) : StreamInner :=
  let mtu := s.mtuProbeSize
  let done := s.mtuMax ≤ mtu
  { s with
    mtu := mtu
    mtuProbeCount := 0
    mtuProbeSize := min (s.mtuProbeSize + MTU_STEP) s.mtuMax
    mtuState := if done then .searchComplete else s.mtuState
    mtuProbeWanted := if done then s.mtuProbeWanted else true
    congestion := s.congestion.onMtuChange s.mtu mtu }

/-! ## Writing -/

def prepareWrite (s : StreamInner) (dataLen : Nat) (ch : Nat) : StreamInner × Except UdxError WritePrep :=
  if !s.connected && s.firewallHook.isNone then (s, .error (.io .other "stream not connected"))
  else if s.ended then (s, .error (.io .other "stream already shut down"))
  else if !s.udp then (s, .error .streamClosed)
  else
    let firstSeq := s.nextSeq
    let ackThreshold := wrap32 (firstSeq + wrap32 (chunkCount s.maxPayload dataLen))
    ({ s with nextSeq := ackThreshold, pendingWrites := s.pendingWrites ++ [⟨ackThreshold, some ch⟩] },
      .ok ⟨s.remoteAddr.getD .unspecified, s.remoteId, firstSeq, s.nextRemoteSeq, ch⟩)

/-- `ended` is set before the socket and the address are looked at, and stays set when they are missing. -/
def prepareEnd (s : StreamInner) (ch : Nat) : StreamInner × Except UdxError WritePrep :=
  if !s.connected then (s, .error (.io .other "stream not connected"))
  else if s.ended then (s, .error (.io .other "stream already shut down"))
  else
    let s := { s with ended := true }
    if !s.udp then (s, .error .streamClosed)
    else match s.remoteAddr with
      | none => (s, .error .streamClosed)
      | some addr =>
        let seq := s.nextSeq
        let next := wrap32 (seq + 1)
        ({ s with nextSeq := next, pendingWrites := s.pendingWrites ++ [⟨next, some ch⟩] },
          .ok ⟨addr, s.remoteId, seq, s.nextRemoteSeq, ch⟩)

def inflight (s : StreamInner) : Nat :=
  wrap32 ((s.outgoing.entries.filter (fun e => !e.2.sacked && !e.2.lost)).length)

def registerSent (s : StreamInner) (seq : Nat) (packet : Bytes) (isMtuProbe : Bool) (now : Instant) : StreamInner :=
  let c := s.congestion.onPacketSent s.inflight now
  { s with
    congestion := c.1
    outgoing := s.outgoing.insert seq ⟨packet, now, 0, false, isMtuProbe, false, some c.2⟩ }

def queueForSend (s : StreamInner) (packets : List (Nat × Bytes)) (addr : SocketAddr) : StreamInner :=
  { s with sendQueue := s.sendQueue ++ packets.map (fun p => ⟨p.2, p.1, addr⟩) }

def sendIdle (s : StreamInner) : Bool := s.outgoing.isEmpty && s.sendQueue.isEmpty

/-! ## Acknowledgements -/

def updateRtt (s : StreamInner) (rttMs : Nat) : StreamInner :=
  let rtt := min rttMs MAX_RTT_MS
  let delta := max s.srtt rtt - min s.srtt rtt
  let rttvar := if s.srtt = 0 then rtt / 2 else (3 * s.rttvar + delta) / 4
  let srtt := if s.srtt = 0 then rtt else (7 * s.srtt + rtt) / 8
  { s with srtt := srtt, rttvar := rttvar, rto := min (max (srtt + 4 * rttvar) 1000) MAX_RTO_MS }

/-- What the acknowledgement loop carries: the stream, whether a round trip was measured, the rate information. -/
structure AckScan where
  s : StreamInner
  rttMeasured : Bool
  acked : List (Nat × PacketRateInfo)

def AckScan.one (now : Instant) (a : AckScan) (e : Nat × SentPacket) : AckScan :=
  let measure := !a.rttMeasured && e.2.retransmitCount == 0
  let s := if measure then a.s.updateRtt (asMillis32 (now - e.2.timeSent)) else a.s
  let acked := match e.2.rateInfo with
    | some info => a.acked ++ [(e.1, info)]
    | none => a.acked
  let s := if e.2.isMtuProbe && s.mtuState == .search then s.onMtuProbeAcked else s
  ⟨s, a.rttMeasured || measure, acked⟩

/-- The loop over the packets below `ack`, which are taken out first. -/
def ackScan (s : StreamInner) (ack : Nat) (now : Instant) : AckScan :=
  let removed := s.outgoing.filter (fun e => e.1 < ack)
  removed.entries.foldl (AckScan.one now)
    ⟨{ s with remoteAcked := ack, outgoing := s.outgoing.filter (fun e => ack ≤ e.1) }, false, []⟩

/-- The channels of the completed writes and the rate information of the removed packets. -/
def onCumulativeAck (s : StreamInner) (ack : Nat) (now : Instant) :
    StreamInner × List Nat × List (Nat × PacketRateInfo) :=
  if !seqAfter ack s.remoteAcked then (s, [], [])
  else
    let a := s.ackScan ack now
    ({ a.s with rtoTimeouts := 0, pendingWrites := a.s.pendingWrites.filter (fun w => ack < w.ackThreshold) },
      (a.s.pendingWrites.filter (fun w => w.ackThreshold ≤ ack)).filterMap PendingWrite.tx, a.acked)

def sackOne (acc : StreamInner × List (Nat × PacketRateInfo)) (seq : Nat) :
    StreamInner × List (Nat × PacketRateInfo) :=
  match acc.1.outgoing.get? seq with
  | some pkt =>
    if pkt.sacked then acc
    else
      ({ acc.1 with outgoing := acc.1.outgoing.modify seq (fun p => { p with sacked := true }) },
        match pkt.rateInfo with
        | some info => acc.2 ++ [(seq, info)]
        | none => acc.2)
  | none => acc

def sackSeqs (ranges : List SackRange) : List Nat :=
  ranges.flatMap (fun r => List.range' r.start (r.stop - r.start))

def onSack (s : StreamInner) (ranges : List SackRange) : StreamInner × List (Nat × PacketRateInfo) :=
  (sackSeqs ranges).foldl sackOne (s, [])

def highestSacked (s : StreamInner) : Option Nat :=
  ((s.outgoing.filter (fun e => e.2.sacked)).keys).max?

def lostSeqs (s : StreamInner) : List Nat :=
  match s.highestSacked with
  | none => []
  | some high => (s.outgoing.filter (fun e => !e.2.sacked && !e.2.lost && seqAfter high e.1)).keys

/-- The controller after the losses are reported to it one by one, with the recovery boundary when they opened one. -/
def lossCongestion (s : StreamInner) : CongestionController :=
  let congestion := s.lostSeqs.foldl (fun c _ => c.onPacketLost) s.congestion
  match s.outgoing.lastKey? with
  | some maxSeq =>
    if s.congestion.caState = .opened ∧ congestion.caState = .recovery then { congestion with highSeq := maxSeq }
    else congestion
  | none => congestion

def detectLosses (s : StreamInner) : StreamInner × Nat :=
  let lost := s.lostSeqs
  ({ s with
      outgoing := s.outgoing.mapVal (fun e => if e.1 ∈ lost then { e.2 with lost := true } else e.2)
      congestion := s.lossCongestion }, wrap32 lost.length)

/-! ## Receiving -/

/-- The loop that delivers consecutive buffered packets; each turn takes one out of the buffer. -/
def drainRecv : Nat → StreamInner → List StreamEvent → StreamInner × List StreamEvent
  | 0, s, events => (s, events)
  | fuel + 1, s, events =>
    match s.recvBuf.get? s.nextRemoteSeq with
    | some r =>
      drainRecv fuel
        { s with recvBuf := s.recvBuf.remove s.nextRemoteSeq, nextRemoteSeq := wrap32 (s.nextRemoteSeq + 1) }
        (events ++ pushEvents r.payload r.flags)
    | none => (s, events)

def receiveData (s : StreamInner) (seq : Nat) (payload : Bytes) (flags : UInt8) : StreamInner × List StreamEvent :=
  if seq < s.nextRemoteSeq then (s, [])
  else if seq = s.nextRemoteSeq then
    drainRecv s.recvBuf.size { s with nextRemoteSeq := wrap32 (seq + 1) } (pushEvents payload flags)
  else ({ s with recvBuf := s.recvBuf.orInsert seq ⟨payload, flags⟩ }, [])

/-- The loop of `sack_ranges` after its first key: the open range `start..stop` and the closed ones. -/
def sackLoop (start stop : Nat) (done : List SackRange) : List Nat → List SackRange
  | [] => done ++ [⟨start, stop⟩]
  | seq :: rest =>
    if seq = stop then sackLoop start (wrap32 (seq + 1)) done rest
    else
      let done := done ++ [⟨start, stop⟩]
      if MAX_SACK_RANGES ≤ done.length then done else sackLoop seq (wrap32 (seq + 1)) done rest

def sackRanges (s : StreamInner) : List SackRange :=
  match s.recvBuf.keys with
  | [] => []
  | first :: rest => sackLoop first (wrap32 (first + 1)) [] rest

/-! ## Retransmission -/

/-- A packet as it is sent again: a probe loses its padding. -/
def SentPacket.resend (now : Instant) (p : SentPacket) : SentPacket :=
  { p with
    packet := if p.isMtuProbe then stripProbePadding p.packet else p.packet
    isMtuProbe := false
    retransmitCount := wrap32 (p.retransmitCount + 1)
    timeSent := now }

/-- The loop shared by the two retransmissions: send again the packets `select` picks, each finished by `finish`.
The sequence number of a packet is kept beside its bytes. -/
def retransmitWhere (s : StreamInner) (select : Nat × SentPacket → Bool) (finish : SentPacket → SentPacket) (now : Instant) :
    StreamInner × List (Nat × Bytes) :=
  let chosen := s.outgoing.entries.filter select
  let probe := chosen.any (fun e => e.2.isMtuProbe)
  let count := if probe then wrap32 (s.mtuProbeCount + 1) else s.mtuProbeCount
  let giveUp := probe && MTU_MAX_PROBES ≤ count
  ({ s with
      outgoing := s.outgoing.mapVal (fun e => if select e then finish (SentPacket.resend now e.2) else e.2)
      mtuProbeCount := count
      mtuState := if giveUp then .searchComplete else s.mtuState
      mtuProbeWanted := if probe then !giveUp else s.mtuProbeWanted },
    chosen.map (fun e => (e.1, (SentPacket.resend now e.2).packet)))

def packetsToRetransmit (s : StreamInner) (now : Instant) : StreamInner × List (Nat × Bytes) :=
  s.retransmitWhere (fun e => !e.2.sacked) id now

def fastRetransmit (s : StreamInner) (now : Instant) : StreamInner × List (Nat × Bytes) :=
  s.retransmitWhere (fun e => e.2.lost && !e.2.sacked) (fun p => { p with lost := false }) now

end StreamInner
end Peeroxide.Udx
