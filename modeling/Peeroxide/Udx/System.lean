import Peeroxide.Lib.Machine
import Peeroxide.Udx.Processor

/-!
# A stream and everything that runs on it

The calls of `UdxStream` and the turns of its processor, cut at the places where the code takes and releases the
stream's lock, so that a list of events is an interleaving. A write is three steps: `prepare_write`, the read of
`max_payload` that cuts the data, and `queue_for_send`. The record of the run (writes, packets sent, events, answers)
is kept beside the stream.
-/

namespace Peeroxide.Udx
open Lib

/-- How far a write is: numbers reserved, packets cut with the `max_payload` read, packets queued. -/
inductive Stage where
  | reserved
  | cut (maxPayload : Nat) (packets : List (Nat × Bytes))
  | queued (maxPayload : Nat) (packets : List (Nat × Bytes))
  deriving DecidableEq, Repr

/-- A `write` (or, with `fin`, a `shutdown`) call whose numbers are reserved. `count` is the number of packets counted
and `maxPayload` what they were counted with. -/
structure Write where
  data : Bytes
  fin : Bool
  prep : WritePrep
  ackThreshold : Nat
  count : Nat
  maxPayload : Nat
  stage : Stage
  deriving DecidableEq, Repr

structure Sys where
  inner : StreamInner := .new
  proc : Proc := {}
  incomingRx : Bool := true
  writes : List Write := []
  txs : List Tx := []
  control : List Datagram := []
  events : List StreamEvent := []
  completed : List (Nat × WriteResult) := []

inductive Ev where
  | connect (remoteId : UInt32) (addr : SocketAddr) (registered : Bool)
  | setFirewallHook (remoteId : UInt32) (hook : FirewallHook) (registered : Bool)
  | relayTo
  | write (data : Bytes)
  | shutdown
  | cut (i : Nat)
  | queue (i : Nat) (now : Instant)
  | proc (e : ProcEvent) (ctx : Ctx)
  | destroy

def dataPackets (prep : WritePrep) (maxPayload : Nat) (data : Bytes) : List (Nat × Bytes) :=
  (chunks maxPayload data).mapIdx (fun i chunk =>
    let seq := wrap32 (prep.firstSeq + wrap32 i)
    (seq, buildDataPacket prep.remoteId seq prep.currentAck chunk))

namespace Sys

/-- The last part of `connect` and `set_firewall_hook`: the processor starts unless it was started before. -/
def startProcessor (y : Sys) (registered : Bool) : Sys :=
  if registered && y.incomingRx then { y with proc := { running := true }, incomingRx := false } else y

def connect (y : Sys) (remoteId : UInt32) (addr : SocketAddr) (registered : Bool) : Sys :=
  startProcessor
    { y with inner := { y.inner with
        remoteId := remoteId.toNat, remoteAddr := some addr, udp := true, connected := true, notifyTx := true } }
    registered

def setFirewallHook (y : Sys) (remoteId : UInt32) (hook : FirewallHook) (registered : Bool) : Sys :=
  startProcessor
    { y with inner := { y.inner with
        remoteId := remoteId.toNat, udp := true, notifyTx := true, firewallHook := some hook, firewallSocket := true } }
    registered

/-- The first critical section of `write`. -/
def write (y : Sys) (data : Bytes) : Sys :=
  match y.inner.prepareWrite data.length y.writes.length with
  | (s, .ok prep) =>
    { y with
      inner := s
      writes := y.writes ++ [⟨data, false, prep, s.nextSeq, chunkCount y.inner.maxPayload data.length,
        y.inner.maxPayload, .reserved⟩] }
  | (s, .error _) => { y with inner := s }

/-- The first critical section of `shutdown`, and the END packet it builds after it. -/
def shutdown (y : Sys) : Sys :=
  match y.inner.prepareEnd y.writes.length with
  | (s, .ok prep) =>
    let packet := buildEndPacket prep.remoteId prep.firstSeq prep.currentAck
    { y with
      inner := s
      writes := y.writes ++ [⟨[], true, prep, s.nextSeq, 1, y.inner.maxPayload,
        .cut y.inner.maxPayload [(prep.firstSeq, packet)]⟩] }
  | (s, .error _) => { y with inner := s }

/-- `send_data_packets` reads `max_payload` and builds the packets. -/
def cut (y : Sys) (i : Nat) : Sys :=
  match y.writes[i]? with
  | some w =>
    match w.stage with
    | .reserved =>
      let mp := y.inner.maxPayload
      { y with writes := y.writes.set i { w with stage := .cut mp (dataPackets w.prep mp w.data) } }
    | _ => y
  | none => y

/-- The last critical section of `write` and `shutdown`. -/
def queue (y : Sys) (i : Nat) (now : Instant) : Sys :=
  match y.writes[i]? with
  | some w =>
    match w.stage with
    | .cut mp packets =>
      let s := if !w.fin && y.inner.sendIdle then
          { y.inner with congestion := y.inner.congestion.onTransmitStart now } else y.inner
      { y with
        inner := s.queueForSend packets w.prep.remoteAddr
        writes := y.writes.set i { w with stage := .queued mp packets } }
    | _ => y
  | none => y

def record (y : Sys) (out : Effects) : Sys :=
  { y with
    txs := y.txs ++ out.tx
    control := y.control ++ out.control
    events := y.events ++ out.events
    completed := y.completed ++ out.completed }

def procTurn (y : Sys) (e : ProcEvent) (ctx : Ctx) : Sys :=
  if y.proc.running then
    let r := y.proc.turn y.inner ctx e
    { y with inner := r.1, proc := r.2.1 }.record r.2.2
  else y

/-- `destroy`: a DESTROY packet when connected, then the processor is aborted and the stream terminated. -/
def destroy (y : Sys) : Sys :=
  let control : List Datagram := match y.inner.connected, y.inner.udp, y.inner.remoteAddr with
    | true, true, some addr =>
      [⟨Header.encode ⟨FLAG_DESTROY, 0, y.inner.remoteId, 0, y.inner.nextSeq, y.inner.nextRemoteSeq⟩, addr⟩]
    | _, _, _ => []
  let f := finish { s := { y.inner with closeTx := false }, out := { control := control } }
  { y with inner := f.1, proc := { y.proc with running := false } }.record f.2

def step (y : Sys) : Ev → Sys
  | .connect remoteId addr registered => y.connect remoteId addr registered
  | .setFirewallHook remoteId hook registered => y.setFirewallHook remoteId hook registered
  | .relayTo => { y with inner := { y.inner with relayTarget := true } }
  | .write data => y.write data
  | .shutdown => y.shutdown
  | .cut i => y.cut i
  | .queue i now => y.queue i now
  | .proc e ctx => y.procTurn e ctx
  | .destroy => y.destroy

abbrev after (es : List Ev) : Sys := run step {} es

def numbered (y : Sys) : Nat := (y.writes.map Write.count).sum

/-! ## What a call does -/

def newWrite (y : Sys) (data : Bytes) : Write :=
  ⟨data, false, ⟨y.inner.remoteAddr.getD .unspecified, y.inner.remoteId, y.inner.nextSeq, y.inner.nextRemoteSeq,
    y.writes.length⟩, wrap32 (y.inner.nextSeq + wrap32 (chunkCount y.inner.maxPayload data.length)),
    chunkCount y.inner.maxPayload data.length, y.inner.maxPayload, .reserved⟩

/-- The write that stands for `shutdown`, with its END packet built. -/
def newEnd (y : Sys) (addr : SocketAddr) : Write :=
  ⟨[], true, ⟨addr, y.inner.remoteId, y.inner.nextSeq, y.inner.nextRemoteSeq, y.writes.length⟩,
    wrap32 (y.inner.nextSeq + 1), 1, y.inner.maxPayload, .cut y.inner.maxPayload
      [(y.inner.nextSeq, buildEndPacket y.inner.remoteId y.inner.nextSeq y.inner.nextRemoteSeq)]⟩

section
variable {motive : Sys → Prop} (y : Sys)

@[elab_as_elim] theorem start_ind (registered : Bool) (h : ∀ proc rx, motive { y with proc := proc, incomingRx := rx }) :
    motive (y.startProcessor registered) := by
  unfold startProcessor
  split
  · exact h ..
  · exact h y.proc y.incomingRx

@[elab_as_elim] theorem write_ind (data : Bytes) (refused : motive y)
    (taken : (y.inner.connected = true ∨ y.inner.firewallHook.isSome = true) → y.inner.ended = false →
      y.inner.udp = true → motive { y with
        inner := { y.inner with
          nextSeq := (y.newWrite data).ackThreshold
          pendingWrites := y.inner.pendingWrites ++ [⟨(y.newWrite data).ackThreshold, some y.writes.length⟩] }
        writes := y.writes ++ [y.newWrite data] }) : motive (y.write data) := by
  unfold write StreamInner.prepareWrite
  split_ifs with h₁ h₂ h₃
  · exact refused
  · exact refused
  · exact refused
  · refine taken ?_ (by simpa using h₂) (by simpa using h₃)
    rw [Bool.and_eq_true, not_and_or] at h₁
    simpa [Option.isSome_iff_ne_none] using h₁

@[elab_as_elim] theorem shutdown_ind (refused : motive y) (marked : motive { y with inner := { y.inner with ended := true } })
    (taken : ∀ addr, y.inner.remoteAddr = some addr → y.inner.connected = true → y.inner.ended = false →
      y.inner.udp = true → motive { y with
        inner := { y.inner with
          ended := true
          nextSeq := (y.newEnd addr).ackThreshold
          pendingWrites := y.inner.pendingWrites ++ [⟨(y.newEnd addr).ackThreshold, some y.writes.length⟩] }
        writes := y.writes ++ [y.newEnd addr] }) : motive y.shutdown := by
  unfold shutdown StreamInner.prepareEnd
  dsimp only
  split_ifs with h₁ h₂ h₃
  · exact refused
  · exact refused
  · exact marked
  · cases ha : y.inner.remoteAddr with
    | none => simpa only [ha] using marked
    | some addr =>
      simpa only [ha, newEnd] using taken addr ha (by simpa using h₁) (by simpa using h₂) (by simpa using h₃)

@[elab_as_elim] theorem cut_ind (i : Nat) (same : motive y)
    (cut : ∀ w, y.writes[i]? = some w → w.stage = .reserved → motive { y with
      writes := y.writes.set i
        { w with stage := .cut y.inner.maxPayload (dataPackets w.prep y.inner.maxPayload w.data) } }) :
    motive (y.cut i) := by
  unfold Sys.cut
  split
  next w hw =>
    split
    next hs => exact cut w hw hs
    · exact same
  · exact same

@[elab_as_elim] theorem queue_ind (i : Nat) (now : Instant) (same : motive y)
    (queue : ∀ w mp packets c, y.writes[i]? = some w → w.stage = .cut mp packets →
      (c = y.inner.congestion ∨ c = y.inner.congestion.onTransmitStart now) → motive { y with
        inner := { y.inner with
          congestion := c
          sendQueue := y.inner.sendQueue ++ packets.map (fun p => ⟨p.2, p.1, w.prep.remoteAddr⟩) }
        writes := y.writes.set i { w with stage := .queued mp packets } }) : motive (y.queue i now) := by
  unfold Sys.queue
  split
  next w hw =>
    split
    next mp packets hs =>
      split
      · exact queue w mp packets _ hw hs (.inr rfl)
      · exact queue w mp packets _ hw hs (.inl rfl)
    · exact same
  · exact same

end
end Sys

/-! ## Packets of a peer, for short runs -/

def loopback : SocketAddr := ⟨.v4 0x7f000001, 4000⟩

def pureAck (ack : Nat) : Bytes := Header.encode ⟨0, 0, 1, DEFAULT_RWND, 0, ack⟩

def sackAck (ack start stop : Nat) : Bytes :=
  Header.encode ⟨FLAG_SACK, 8, 1, DEFAULT_RWND, 0, ack⟩ ++ encodeSack [⟨start, stop⟩]

/-- All steps of one write call, the `i`-th of the stream, with nothing in between. -/
def writeNow (data : Bytes) (i : Nat) : List Ev := [.write data, .cut i, .queue i 0]

end Peeroxide.Udx
