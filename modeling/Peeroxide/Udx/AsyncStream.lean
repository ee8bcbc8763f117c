import Peeroxide.Udx.Core

/-!
# The async write adapter

`UdxAsyncStream` polls a stream: a write is answered at once and its acknowledgement waited for by the next call. The
calls are cut where the code takes and releases the stream's lock, so processor turns fall between the parts of a call
but other polls do not. A channel is read in the same step as the lock that follows it: an answer, once given, stays.

Main result: `fin_final`.
-/

namespace Peeroxide.Udx
open Lib StreamInner Sys List

def UdxError.display : UdxError → String
  | .streamClosed => "stream closed"
  | .io _ msg => "I/O error: " ++ msg

inductive IoError where
  | other (msg : String)
  | brokenPipe (msg : String)
  deriving DecidableEq, Repr

inductive Poll (α : Type) where
  | ready (a : α)
  | pending
  deriving DecidableEq, Repr

/-- What polling `pending_ack` finds: nothing to poll, no answer yet, an answer, or a sender that is gone. -/
inductive AckPoll where
  | absent
  | waiting
  | answered (r : WriteResult)
  | dropped
  deriving DecidableEq, Repr

/-- The call under way: none; a write with its numbers reserved, or queued and about to poll its channel; a shutdown
that has queued its END packet and calls itself again. -/
inductive Call where
  | idle
  | write (i len : Nat)
  | queued (len : Nat)
  | shutdown
  deriving DecidableEq, Repr

structure AsyncStream where
  sys : Sys
  pendingAck : Option Nat := none
  finQueued : Bool := false
  call : Call := .idle

inductive AsyncEv where
  | pollWrite (buf : Bytes)
  | pollFlush
  | pollShutdown
  | resume (now : Instant)
  | proc (e : ProcEvent) (ctx : Ctx)

inductive Answer where
  | wrote (r : Poll (Except IoError Nat))
  | flushed (r : Poll (Except IoError Unit))
  | shut (r : Poll (Except IoError Unit))
  deriving DecidableEq

def Sys.pollChannel (y : Sys) (ch : Nat) : AckPoll :=
  match y.completed.find? (fun c => c.1 == ch) with
  | some c => .answered c.2
  | none => if some ch ∈ y.inner.pendingWrites.map PendingWrite.tx then .waiting else .dropped

/-- The critical section of `poll_shutdown`: number and queue an END packet. The `ended` flag is not set. -/
def Sys.queueEnd (y : Sys) (addr : SocketAddr) : Sys :=
  let seq := y.inner.nextSeq
  let next := wrap32 (seq + 1)
  let packets := [(seq, buildEndPacket y.inner.remoteId seq y.inner.nextRemoteSeq)]
  let ch := y.writes.length
  { y with
    inner := queueForSend
      { y.inner with nextSeq := next, pendingWrites := y.inner.pendingWrites ++ [⟨next, some ch⟩] } packets addr
    writes := y.writes ++ [⟨[], true, ⟨addr, y.inner.remoteId, seq, y.inner.nextRemoteSeq, ch⟩, next, 1,
      y.inner.maxPayload, .queued y.inner.maxPayload packets⟩] }

namespace AsyncStream

def pollAck (a : AsyncStream) : AckPoll :=
  match a.pendingAck with
  | none => .absent
  | some ch => a.sys.pollChannel ch

def clear (a : AsyncStream) : AsyncStream := { a with pendingAck := none }

def closedPipe : IoError := .brokenPipe "UDX stream closed"

/-- The first critical section of `poll_write`: numbers reserved and packets cut under one lock. -/
def beginWrite (a : AsyncStream) (buf : Bytes) : AsyncStream × Option (Poll (Except IoError Nat)) :=
  match (a.sys.inner.prepareWrite buf.length a.sys.writes.length).2 with
  | .error e => (a, some (.ready (.error (.other e.display))))
  | .ok _ =>
    ({ a with
        sys := (a.sys.write buf).cut a.sys.writes.length, call := .write a.sys.writes.length buf.length }, none)

def pollWrite (a : AsyncStream) (buf : Bytes) : AsyncStream × Option (Poll (Except IoError Nat)) :=
  match a.pollAck with
  | .absent => a.beginWrite buf
  | .answered .acked => a.clear.beginWrite buf
  | .answered (.failed e) => (a.clear, some (.ready (.error (.other e.display))))
  | .dropped => (a.clear, some (.ready (.error closedPipe)))
  | .waiting => (a, some .pending)

/-- The last part of `poll_write`: its own channel is polled, and the write answered in any case. -/
def endWrite (a : AsyncStream) (len : Nat) : AsyncStream × Poll (Except IoError Nat) :=
  match a.pollAck with
  | .absent => (a, .ready (.ok len))
  | .answered .acked => (a.clear, .ready (.ok len))
  | .answered (.failed e) => (a.clear, .ready (.error (.other e.display)))
  | .dropped => (a.clear, .ready (.error closedPipe))
  | .waiting => (a, .ready (.ok len))

def pollFlush (a : AsyncStream) : AsyncStream × Poll (Except IoError Unit) :=
  match a.pollAck with
  | .absent => (a, .ready (.ok ()))
  | .answered .acked => (a.clear, .ready (.ok ()))
  | .answered (.failed e) => (a.clear, .ready (.error (.other e.display)))
  | .dropped => (a.clear, .ready (.error closedPipe))
  | .waiting => (a, .pending)

/-- The critical section of `poll_shutdown`, after which it calls itself again. -/
def queueFin (a : AsyncStream) : AsyncStream × Option (Poll (Except IoError Unit)) :=
  if !a.sys.inner.connected then (a, some (.ready (.ok ())))
  else match a.sys.inner.remoteAddr with
    | some addr =>
      ({ a with
          sys := a.sys.queueEnd addr, finQueued := true, pendingAck := some a.sys.writes.length, call := .shutdown },
        none)
    | none => (a, some (.ready (.ok ())))

def pollShutdown (a : AsyncStream) : AsyncStream × Option (Poll (Except IoError Unit)) :=
  match a.pollAck with
  | .absent => a.queueFin
  | .answered .acked => if a.finQueued then (a.clear, some (.ready (.ok ()))) else a.clear.queueFin
  | .answered (.failed e) => (a.clear, some (.ready (.error (.other e.display))))
  | .dropped => (a.clear, some (.ready (.ok ())))
  | .waiting => (a, some .pending)

def resume (a : AsyncStream) (now : Instant) : AsyncStream × Option Answer :=
  match a.call with
  | .idle => (a, none)
  | .write i len => ({ a with sys := a.sys.queue i now, pendingAck := some i, call := .queued len }, none)
  | .queued len =>
    let r := { a with call := .idle }.endWrite len
    (r.1, some (.wrote r.2))
  | .shutdown =>
    let r := { a with call := .idle }.pollShutdown
    (r.1, r.2.map .shut)

/-- One step, and what it returns when it ends a call. A poll needs the adapter for itself. -/
def turn (a : AsyncStream) : AsyncEv → AsyncStream × Option Answer
  | .pollWrite buf =>
    if a.call = .idle then
      let r := a.pollWrite buf
      (r.1, r.2.map .wrote)
    else (a, none)
  | .pollFlush =>
    if a.call = .idle then
      let r := a.pollFlush
      (r.1, some (.flushed r.2))
    else (a, none)
  | .pollShutdown =>
    if a.call = .idle then
      let r := a.pollShutdown
      (r.1, r.2.map .shut)
    else (a, none)
  | .resume now => a.resume now
  | .proc e ctx => ({ a with sys := a.sys.procTurn e ctx }, none)

def step (a : AsyncStream) (e : AsyncEv) : AsyncStream := (a.turn e).1

/-- `into_async_stream` of a stream after some calls. -/
def new (y : Sys) : AsyncStream := { sys := y }

end AsyncStream

/-! ## Numbers taken -/

/-- For every call that took sequence numbers, in order, whether it was an END. -/
def Sys.fins (y : Sys) : List Bool := y.writes.map Write.fin

theorem fins_stage {y : Sys} {i : Nat} {w : Write} (hw : y.writes[i]? = some w) (st : Stage) :
    ({ y with writes := y.writes.set i { w with stage := st } } : Sys).fins = y.fins :=
  map_set_stage Write.fin (fun _ _ => rfl) hw st

theorem cut_fins (y : Sys) (i : Nat) : (y.cut i).fins = y.fins :=
  y.cut_ind i rfl fun _ hw _ => fins_stage hw _

theorem queue_fins (y : Sys) (i : Nat) (now : Instant) : (y.queue i now).fins = y.fins :=
  y.queue_ind i now rfl fun _ mp packets _ hw _ _ => fins_stage hw (.queued mp packets)

theorem procTurn_fins (y : Sys) (e : ProcEvent) (ctx : Ctx) : (y.procTurn e ctx).fins = y.fins := by
  unfold procTurn
  split <;> rfl

theorem ended_flagRule : FlagRule (fun y => y.inner.ended = true) where
  same h hf _ := (congrArg Flags.ended hf).trans h
  hookTaken _ h := h
  hookAccepted _ _ h := h
  close _ h := h
  connect _ _ h := h
  hook _ _ h := h
  write y data h := y.write_ind data h fun _ _ _ => h
  shutdown y h := y.shutdown_ind h rfl fun _ _ _ _ _ => rfl
  stage _ _ _ _ _ h := h

/-- On a stream used through its own calls at most one END takes a number, and the stream is ended then. -/
theorem plain_flagRule : FlagRule (fun y => y.fins.count true ≤ 1 ∧ (true ∈ y.fins → y.inner.ended = true)) where
  same h hf hw := by
    unfold fins
    rw [hw]
    exact ⟨h.1, fun hm => (congrArg Flags.ended hf).trans (h.2 hm)⟩
  hookTaken _ h := h
  hookAccepted _ _ h := h
  close _ h := h
  connect _ _ h := h
  hook _ _ h := h
  write y data h := y.write_ind data h fun _ _ _ => by simpa [fins, newWrite] using h
  shutdown y h := by
    refine y.shutdown_ind h ⟨h.1, fun _ => rfl⟩ fun addr _ _ hend _ => ⟨?_, fun _ => rfl⟩
    have hnone : true ∉ y.fins := fun hm => by simp [hend] at h; exact h.2 hm
    have hz := count_eq_zero.mpr hnone
    simp only [fins, map_append, count_append] at hz ⊢
    rw [hz]
    simp [newEnd]
  stage y i w st hw h := by
    rw [fins_stage hw]
    exact h

/-! ## What a poll does -/

namespace AsyncStream
variable {a : AsyncStream}

/-- No acknowledgement is waited for: there is none, or it has come. -/
def settled (a : AsyncStream) : Bool := a.pollAck = .absent ∨ a.pollAck = .answered .acked

/-- The stream is connected and has an address, so `poll_shutdown` queues an END packet. -/
def sendable (a : AsyncStream) : Bool := a.sys.inner.connected && a.sys.inner.remoteAddr.isSome

theorem pollAck_absent : a.pollAck = .absent ↔ a.pendingAck = none := by
  unfold pollAck Sys.pollChannel
  cases a.pendingAck with
  | none => simp
  | some ch =>
    dsimp only
    split
    · simp
    · split <;> simp

theorem clear_of_absent (h : a.pollAck = .absent) : a.clear = a := by
  rw [clear, ← pollAck_absent.mp h]

theorem beginWrite_cases (a : AsyncStream) (buf : Bytes) : a.sys.inner.writable = true ∧
      (∃ y : Sys, y.fins = a.sys.fins ++ [false] ∧
        a.beginWrite buf = ({ a with sys := y, call := .write a.sys.writes.length buf.length }, none)) ∨
    a.sys.inner.writable = false ∧ ∃ err, a.beginWrite buf = (a, some (.ready (.error err))) := by
  unfold beginWrite
  cases hw : a.sys.inner.writable with
  | false =>
    obtain ⟨err, e⟩ := prepareWrite_of_not_writable hw buf.length a.sys.writes.length
    rw [e]
    exact .inr ⟨rfl, _, rfl⟩
  | true =>
    obtain ⟨prep, e⟩ := prepareWrite_of_writable hw buf.length a.sys.writes.length
    rw [e]
    refine .inl ⟨rfl, _, ?_, rfl⟩
    rw [cut_fins]
    rcases hp : a.sys.inner.prepareWrite buf.length a.sys.writes.length with ⟨s, r⟩
    rw [hp] at e
    have hr : r = .ok prep := e
    rw [Sys.write, hp, hr]
    simp [fins]

theorem pollWrite_cases (a : AsyncStream) (buf : Bytes) : (a.settled = true ∧ a.sys.inner.writable = true) ∧
      (∃ y : Sys, y.fins = a.sys.fins ++ [false] ∧
        a.pollWrite buf = ({ a.clear with sys := y, call := .write a.sys.writes.length buf.length }, none)) ∨
    (a.settled = false ∨ a.sys.inner.writable = false) ∧ ∃ p, (∀ n, p ≠ .ready (.ok n)) ∧
      (a.pollWrite buf = (a, some p) ∨ a.pollWrite buf = (a.clear, some p)) := by
  cases hs : a.settled with
  | true =>
    have hbegin : a.pollWrite buf = a.clear.beginWrite buf := by
      rcases of_decide_eq_true hs with ha | ha
      · rw [clear_of_absent ha, pollWrite, ha]
      · rw [pollWrite, ha]
    rw [hbegin]
    rcases a.clear.beginWrite_cases buf with ⟨hw, y, hy, e⟩ | ⟨hw, err, e⟩
    · exact .inl ⟨⟨rfl, hw⟩, y, hy, e⟩
    · exact .inr ⟨.inr hw, .ready (.error err), fun _ => nofun, .inr e⟩
  | false =>
    refine .inr ⟨.inl rfl, ?_⟩
    unfold settled at hs
    unfold pollWrite
    cases ha : a.pollAck with
    | absent => simp [ha] at hs
    | waiting => exact ⟨.pending, fun _ => nofun, .inl rfl⟩
    | dropped => exact ⟨.ready (.error closedPipe), fun _ => nofun, .inr rfl⟩
    | answered r =>
      cases r with
      | acked => simp [ha] at hs
      | failed err => exact ⟨.ready (.error (.other err.display)), fun _ => nofun, .inr rfl⟩

theorem queueFin_cases (a : AsyncStream) : (a.sendable = true ∧ ∃ y : Sys, y.fins = a.sys.fins ++ [true] ∧
      a.queueFin = (⟨y, some a.sys.writes.length, true, .shutdown⟩, none)) ∨
    a.sendable = false ∧ a.queueFin = (a, some (.ready (.ok ()))) := by
  unfold queueFin sendable
  cases hc : a.sys.inner.connected with
  | false => exact .inr ⟨rfl, rfl⟩
  | true =>
    cases ha : a.sys.inner.remoteAddr with
    | none => exact .inr ⟨rfl, rfl⟩
    | some addr =>
      refine .inl ⟨rfl, _, ?_, rfl⟩
      simp [fins, queueEnd]

theorem pollShutdown_cases (a : AsyncStream) : a.pollShutdown = a.queueFin ∧ a.pendingAck = none ∨
    a.pollShutdown = a.clear.queueFin ∧ a.pendingAck ≠ none ∧ a.finQueued = false ∨
    ∃ p, a.pendingAck ≠ none ∧ (a.pollShutdown = (a, some p) ∨ a.pollShutdown = (a.clear, some p)) := by
  have hne : a.pollAck ≠ .absent → a.pendingAck ≠ none := fun h hn => h (pollAck_absent.mpr hn)
  unfold pollShutdown
  cases ha : a.pollAck with
  | absent => exact .inl ⟨rfl, pollAck_absent.mp ha⟩
  | waiting => exact .inr (.inr ⟨_, hne (by simp [ha]), .inl rfl⟩)
  | dropped => exact .inr (.inr ⟨_, hne (by simp [ha]), .inr rfl⟩)
  | answered r =>
    cases r with
    | failed err => exact .inr (.inr ⟨_, hne (by simp [ha]), .inr rfl⟩)
    | acked =>
      cases hf : a.finQueued with
      | false => exact .inr (.inl ⟨rfl, hne (by simp [ha]), rfl⟩)
      | true => exact .inr (.inr ⟨_, hne (by simp [ha]), .inr rfl⟩)

theorem endWrite_cases (a : AsyncStream) (len : Nat) : (a.endWrite len).1 = a ∨ (a.endWrite len).1 = a.clear := by
  unfold endWrite
  split <;> simp

theorem pollFlush_cases (a : AsyncStream) : a.pollFlush.1 = a ∨ a.pollFlush.1 = a.clear := by
  unfold pollFlush
  split <;> simp

/-! ## After an END packet -/

def hasFin (a : AsyncStream) : Prop := true ∈ a.sys.fins

instance (a : AsyncStream) : Decidable a.hasFin := inferInstanceAs (Decidable (true ∈ a.sys.fins))

/-- Once an END packet has taken a number the step takes none, and a write it begins is refused. -/
def FinKept (a : AsyncStream) (e : AsyncEv) : Prop :=
  a.hasFin → (a.step e).sys.fins = a.sys.fins ∧
    ∀ buf, e = .pollWrite buf → a.call = .idle → ∃ p, (a.turn e).2 = some (.wrote p) ∧ ∀ n, p ≠ .ready (.ok n)

/-- Once an END packet has taken a number, no write is polled while nothing is waited for and the stream is writable,
and no shutdown while `pending_ack` is empty and the stream is connected with an address. -/
def FinRespected (a : AsyncStream) : AsyncEv → Prop
  | .pollWrite _ => a.hasFin → a.call = .idle → a.settled = false ∨ a.sys.inner.writable = false
  | .pollShutdown => a.hasFin → a.call = .idle → a.pendingAck ≠ none ∨ a.sendable = false
  | _ => True

instance decidableRespected (a : AsyncStream) : (e : AsyncEv) → Decidable (FinRespected a e)
  | .pollWrite _ | .pollShutdown => inferInstanceAs (Decidable (_ → _ → _ ∨ _))
  | .pollFlush | .resume _ | .proc _ _ => .isTrue trivial

/-- An END packet that the adapter did not queue itself is one of a stream that had ended before; and a shutdown that
calls itself again waits for its own END packet. -/
structure FinInv (a : AsyncStream) : Prop where
  source : a.hasFin → a.finQueued = true ∨ a.sys.inner.ended = true ∧ a.pendingAck = none ∧ a.call = .idle
  again : a.call = .shutdown → a.finQueued = true ∧ a.pendingAck ≠ none

/-- A step keeps the invariant and takes at most one number. -/
def Next (a a' : AsyncStream) : Prop := FinInv a' ∧ ∃ l, l.length ≤ 1 ∧ a'.sys.fins = a.sys.fins ++ l

theorem Next.stay {a' : AsyncStream} (h : FinInv a') (hf : a'.sys.fins = a.sys.fins) : Next a a' :=
  ⟨h, [], Nat.zero_le _, hf.trans (append_nil _).symm⟩

section
variable (h : FinInv a)
include h

theorem FinInv.clear (hc : a.call = .idle) : FinInv a.clear where
  source hf := (h.source hf).imp_right fun hp => ⟨hp.1, rfl, hp.2.2⟩
  again hs := by
    rw [AsyncStream.clear, hc] at hs
    cases hs

theorem FinInv.idle : FinInv { a with call := .idle } where
  source hf := (h.source hf).imp_right fun hp => ⟨hp.1, hp.2.1, rfl⟩
  again hs := by cases hs

theorem FinInv.queueFin : Next a a.queueFin.1 := by
  rcases a.queueFin_cases with ⟨-, y, hy, e⟩ | ⟨-, e⟩ <;> rw [e]
  · exact ⟨⟨fun _ => .inl rfl, fun _ => ⟨rfl, nofun⟩⟩, [true], le_rfl, hy⟩
  · exact .stay h rfl

theorem FinInv.pollShutdown (hc : a.call = .idle) : Next a a.pollShutdown.1 := by
  rcases a.pollShutdown_cases with ⟨e, -⟩ | ⟨e, -, -⟩ | ⟨p, -, e | e⟩ <;> rw [e]
  · exact h.queueFin
  · exact (h.clear hc).queueFin
  · exact .stay h rfl
  · exact .stay (h.clear hc) rfl

theorem FinInv.pollWrite (hc : a.call = .idle) (buf : Bytes) : Next a (a.pollWrite buf).1 := by
  rcases a.pollWrite_cases buf with ⟨hgo, y, hy, e⟩ | ⟨-, p, -, e | e⟩ <;> rw [e]
  · refine ⟨⟨fun hf => ?_, nofun⟩, [false], le_rfl, hy⟩
    have hf' : a.hasFin := by
      unfold hasFin at hf ⊢
      rw [hy] at hf
      simpa using hf
    -- a stream that ended before is not writable
    refine (h.source hf').imp_right fun hp => ?_
    have hw := hgo.2
    simp [writable, hp.1] at hw
  · exact .stay h rfl
  · exact .stay (h.clear hc) rfl

theorem FinInv.step (e : AsyncEv) : Next a (a.step e) := by
  unfold AsyncStream.step turn
  cases e with
  | pollWrite buf =>
    dsimp only
    split
    next hc =>
      exact h.pollWrite hc buf
    · exact .stay h rfl
  | pollFlush =>
    dsimp only
    split
    next hc =>
      rcases a.pollFlush_cases with e | e <;> rw [e]
      · exact .stay h rfl
      · exact .stay (h.clear hc) rfl
    · exact .stay h rfl
  | pollShutdown =>
    dsimp only
    split
    next hc =>
      exact h.pollShutdown hc
    · exact .stay h rfl
  | proc e ctx =>
    refine .stay ⟨fun hf => ?_, h.again⟩ (procTurn_fins _ _ _)
    have hf' : a.hasFin := by
      unfold hasFin at hf ⊢
      rwa [procTurn_fins] at hf
    refine (h.source hf').imp_right fun hp => ⟨?_, hp.2⟩
    exact ended_flagRule.stepRule.step a.sys (.proc e ctx) (fun _ _ => ⟨trivial, trivial⟩) hp.1
  | resume now =>
    dsimp only
    unfold resume
    split
    · exact .stay h rfl
    next i len hcall =>
      refine .stay ⟨fun hf => ?_, nofun⟩ (queue_fins _ _ _)
      have hf' : a.hasFin := by
        unfold hasFin at hf ⊢
        rwa [queue_fins] at hf
      refine (h.source hf').imp_right fun hp => ?_
      rw [hcall] at hp
      cases hp.2.2
    · rcases AsyncStream.endWrite_cases { a with call := .idle } _ with e | e <;> rw [e]
      · exact .stay h.idle rfl
      · exact .stay (h.idle.clear rfl) rfl
    · exact h.idle.pollShutdown rfl

end

theorem finInv_new (es : List Ev) : FinInv (new (after es)) where
  source hf := .inr ⟨(plain_flagRule.stepRule.after ⟨Nat.zero_le _, nofun⟩ es).2 hf, rfl, rfl⟩
  again := nofun

/-- A shutdown takes a number just when `pending_ack` is empty and the stream can send, once an END packet has. -/
theorem pollShutdown_fins (h : FinInv a) (hf : a.hasFin) :
    a.pollShutdown.1.sys.fins = a.sys.fins ↔ a.pendingAck ≠ none ∨ a.sendable = false := by
  rcases a.pollShutdown_cases with ⟨e, hn⟩ | ⟨e, hn, hq⟩ | ⟨p, hn, e | e⟩
  · rw [e]
    rcases a.queueFin_cases with ⟨hs, y, hy, e⟩ | ⟨hs, e⟩ <;> rw [e]
    · simp [hy, hn, hs]
    · simp [hs]
  · rcases h.source hf with hfq | ⟨-, hp, -⟩
    · rw [hq] at hfq
      cases hfq
    · exact absurd hp hn
  · simp [e, hn]
  · simp [e, hn, AsyncStream.clear]

theorem pollWrite_fins (a : AsyncStream) (buf : Bytes) : (a.pollWrite buf).1.sys.fins = a.sys.fins ∧
      (∃ p, (a.pollWrite buf).2 = some p ∧ ∀ n, p ≠ .ready (.ok n)) ↔
    a.settled = false ∨ a.sys.inner.writable = false := by
  rcases a.pollWrite_cases buf with ⟨⟨hs, hw⟩, y, hy, e⟩ | ⟨hno, p, hp, e | e⟩ <;> rw [e]
  · simp [hy, hs, hw]
  · exact iff_of_true ⟨rfl, p, rfl, hp⟩ hno
  · exact iff_of_true ⟨rfl, p, rfl, hp⟩ hno

theorem finKept_iff (h : FinInv a) (e : AsyncEv) : FinKept a e ↔ FinRespected a e := by
  unfold FinKept FinRespected AsyncStream.step turn
  cases e with
  | pollWrite buf =>
    refine imp_congr_right fun hf => ?_
    by_cases hc : a.call = .idle
    · simp only [AsyncEv.pollWrite.injEq, forall_eq', hc, forall_const]
      rw [← a.pollWrite_fins buf]
      refine and_congr_right fun _ => ⟨?_, ?_⟩
      · rintro ⟨p, hp, hne⟩
        obtain ⟨q, hq, hqp⟩ := Option.map_eq_some_iff.mp hp
        cases hqp
        exact ⟨p, hq, hne⟩
      · rintro ⟨p, hp, hne⟩
        exact ⟨p, by rw [hp]; rfl, hne⟩
    · simp [hc]
  | pollFlush =>
    refine ⟨fun _ => trivial, fun _ _ => ⟨?_, nofun⟩⟩
    dsimp only
    split
    · rcases a.pollFlush_cases with e | e <;> rw [e]
      rfl
    · rfl
  | pollShutdown =>
    refine imp_congr_right fun hf => ?_
    by_cases hc : a.call = .idle
    · simp [hc, pollShutdown_fins h hf]
    · simp [hc]
  | proc e ctx => exact ⟨fun _ => trivial, fun _ _ => ⟨procTurn_fins _ _ _, nofun⟩⟩
  | resume now =>
    refine ⟨fun _ => trivial, fun _ hf => ⟨?_, nofun⟩⟩
    dsimp only
    unfold resume
    split
    · rfl
    · exact queue_fins _ _ _
    · rcases AsyncStream.endWrite_cases { a with call := .idle } _ with e | e
      · rw [e]
      · rw [e]
        rfl
    next hcall =>
      exact (pollShutdown_fins h.idle hf).mpr (.inl (h.again hcall).2)

theorem count_step {e : AsyncEv} (h : FinInv a) (hk : FinKept a e) (hc : a.sys.fins.count true ≤ 1) :
    (a.step e).sys.fins.count true ≤ 1 := by
  by_cases hf : a.hasFin
  · rw [(hk hf).1]
    exact hc
  · obtain ⟨-, l, hl, e⟩ := h.step e
    have hz : a.sys.fins.count true = 0 := count_eq_zero.mpr hf
    rw [e, count_append, hz, Nat.zero_add]
    exact count_le_length.trans hl

end AsyncStream

open AsyncStream in
/-- **END packets.** Along any run of polls and processor turns on any stream, no number is taken and no write accepted
after an END packet if and only if the caller respects it; and then at most one END packet is queued. -/
theorem fin_final (es : List Ev) (ps : List AsyncEv) :
    (Along AsyncStream.step FinKept (.new (after es)) ps ↔ Along AsyncStream.step FinRespected (.new (after es)) ps) ∧
    (Along AsyncStream.step FinRespected (.new (after es)) ps →
      (run AsyncStream.step (.new (after es)) ps).sys.fins.count true ≤ 1) := by
  refine ⟨along_congr (I := FinInv) (fun a e h => (h.step e).1) (fun a e h => finKept_iff h e) (finInv_new es) ps, ?_⟩
  intro hps
  have hplain := (plain_flagRule.stepRule.after ⟨Nat.zero_le _, nofun⟩ es).1
  exact (run_invariant_along (I := fun a => FinInv a ∧ a.sys.fins.count true ≤ 1)
    (fun a e h hp => ⟨(h.1.step e).1, count_step h.1 ((finKept_iff h.1 e).mpr hp) h.2⟩) ⟨finInv_new es, hplain⟩ hps).2

/-- A shutdown whose END packet has been sent and acknowledged. -/
def shutdownRun : List AsyncEv :=
  [.pollShutdown, .resume 0, .proc .pacing {}, .proc (.packet (pureAck 1) loopback) {}, .pollShutdown]

/-- A write polled while the END packet is not acknowledged is not accepted. -/
theorem fin_final_waiting : let ps : List AsyncEv := [.pollWrite [1], .resume 0, .resume 0, .proc .pacing {},
      .proc (.packet (pureAck 1) loopback) {}, .pollShutdown, .resume 0, .pollWrite [2], .pollShutdown]
    let a := run AsyncStream.step (.new (after [.connect 1 loopback true])) ps
    a.sys.fins = [false, true] ∧ Along AsyncStream.step AsyncStream.FinKept (.new (after [.connect 1 loopback true])) ps ∧
    a.sys.fins.count true ≤ 1 :=
  have h := by decide +kernel
  ⟨by decide +kernel, (fin_final _ _).1.mpr h, (fin_final _ _).2 h⟩

/-- Once the END packet is acknowledged the adapter accepts a write, and a second shutdown queues a second END packet. -/
theorem fin_final_reused : let a := run AsyncStream.step (.new (after [.connect 1 loopback true])) shutdownRun
    let b := run AsyncStream.step a [.pollWrite [9], .resume 0]
    let c := run AsyncStream.step a [.pollShutdown]
    a.sys.fins = [true] ∧
    b.sys.fins = [true, false] ∧ (b.turn (.resume 0)).2 = some (.wrote (.ready (.ok 1))) ∧
    c.sys.writes.map (fun w => (w.prep.firstSeq, w.fin)) = [(0, true), (1, true)] ∧
    c.sys.inner.sendQueue.map QueuedPacket.seq = [1] := by
  decide +kernel

end Peeroxide.Udx
