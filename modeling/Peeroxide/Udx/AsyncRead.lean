import Peeroxide.Udx.AsyncStream

/-!
# The async read adapter

`poll_read` hands out the payloads of the events it receives, and keeps what does not fit for the next call.

Main results: `filled_after`, `reads_stream`.
-/

namespace Peeroxide.Udx
open Lib List Sys

/-! ## The events that are sent -/

/-- No payload is empty: a read that returns nothing is the end of the stream. -/
def Filled (events : List StreamEvent) : Prop := ∀ data, .data data ∈ events → data ≠ []

theorem Filled.append {events events' : List StreamEvent} (h : Filled events) (h' : Filled events') :
    Filled (events ++ events') := fun data hm => (mem_append.mp hm).elim (h data) (h' data)

theorem filled_pushEvents (payload : Bytes) (flags : UInt8) : Filled (pushEvents payload flags) := by
  grind [Filled, pushEvents]

theorem filled_drainRecv (fuel : Nat) (s : StreamInner) {events : List StreamEvent} (h : Filled events) :
    Filled (s.drainRecv fuel events).2 := by
  induction fuel generalizing s events with
  | zero => exact h
  | succ fuel ih =>
    unfold StreamInner.drainRecv
    split
    next r _ => exact ih _ (h.append (filled_pushEvents r.payload r.flags))
    · exact h

theorem filled_onData (s : StreamInner) (h : Header) (data : Bytes) : Filled (onData s h data).out.events := by
  unfold onData StreamInner.receiveData
  split_ifs
  · exact nofun
  · exact filled_drainRecv _ _ (filled_pushEvents _ _)
  · exact nofun
  · exact nofun

theorem Filled.apply {y : Sys} {t : Turn} (h : Filled y.events) (ht : Filled t.out.events) : Filled (y.apply t).events :=
  h.append ht

theorem filled_stepRule : StepRule (fun _ _ _ => True) (fun _ _ => True) (fun y => Filled y.events) where
  gate _ _ _ _ h := h
  proc _ _ h := h
  hookTaken _ h := h
  hookAccepted _ _ h := h
  relay y data dest _ h := relay_ind y data dest fun _ _ _ => h.apply nofun
  ackSack y h data ctx _ _ _ hJ := hJ.apply (by rw [onAckSack_events]; exact nofun)
  data y h data _ _ hJ := hJ.apply (filled_onData y.inner h data)
  destroy _ _ _ _ _ _ h := h.apply (by simp [Filled, onDestroy])
  heartbeat _ _ h := h.apply nofun
  pacing y shuttingDown now h := h.apply nofun
  rto y now h := h.apply (by rw [onRto_events]; exact nofun)
  keepalive _ h := h.apply nofun
  finish _ h := h.apply nofun
  start y registered h := y.start_ind registered fun _ _ => h
  connect _ _ _ h := h
  hook _ _ _ h := h
  write y data h := y.write_ind data h fun _ _ _ => h
  shutdown y h := y.shutdown_ind h h fun _ _ _ _ _ => h
  cut y i h := y.cut_ind i h fun _ _ _ => h
  queue y i now h := y.queue_ind i now h fun _ _ _ _ _ _ _ => h
  relayTo _ h := h
  kill _ h := h.append nofun

/-- **No run of a stream sends an event without bytes.** -/
theorem filled_after (es : List Ev) : Filled (Sys.after es).events := filled_stepRule.after nofun es

/-! ## Reading them -/

/-- The read half of the adapter. `readRx` are the events that are still to come; none left is a closed channel. -/
structure AsyncReader where
  readRx : List StreamEvent
  readBuf : Bytes := []
  readPos : Nat := 0
  readEof : Bool := false

namespace AsyncReader

/-- One call with room for `cap` bytes; `arrived` is whether the next event, or the close, has arrived. -/
def pollRead (a : AsyncReader) (cap : Nat) (arrived : Bool) : Poll Bytes × AsyncReader :=
  if a.readEof then (.ready [], a)
  else if a.readPos < a.readBuf.length then
    let remaining := a.readBuf.drop a.readPos
    let n := min remaining.length cap
    let pos := a.readPos + n
    (.ready (remaining.take n),
      if a.readBuf.length ≤ pos then { a with readBuf := [], readPos := 0 } else { a with readPos := pos })
  else if arrived then
    match a.readRx with
    | .data data :: rx =>
      let n := min data.length cap
      (.ready (data.take n),
        if n < data.length then { a with readRx := rx, readBuf := data, readPos := n } else { a with readRx := rx })
    | .ended :: rx => (.ready [], { a with readRx := rx, readEof := true })
    | [] => (.ready [], { a with readEof := true })
  else (.pending, a)

def polls (a : AsyncReader) : List (Nat × Bool) → List (Poll Bytes)
  | [] => []
  | p :: ps => (a.pollRead p.1 p.2).1 :: (a.pollRead p.1 p.2).2.polls ps

end AsyncReader

def Poll.bytes : Poll Bytes → Bytes
  | .ready bs => bs
  | .pending => []

/-- The payloads before the end of the stream. -/
def payloads : List StreamEvent → Bytes
  | .data data :: events => data ++ payloads events
  | _ => []

namespace AsyncReader
variable {a : AsyncReader} {cap : Nat} {arrived : Bool}

def held (a : AsyncReader) : Bytes := a.readBuf.drop a.readPos

def rest (a : AsyncReader) : Bytes := if a.readEof then [] else a.held ++ payloads a.readRx

/-- At least the calls that are still needed. -/
def left (a : AsyncReader) : Nat := if a.readEof then 0 else a.held.length + (payloads a.readRx).length + a.readRx.length + 1

inductive Polled (a : AsyncReader) (cap : Nat) (arrived : Bool) : Poll Bytes × AsyncReader → Prop
  | ended (heof : a.readEof = true) : Polled a cap arrived (.ready [], a)
  | held (b : AsyncReader) (heof : a.readEof = false) (hheld : a.held ≠ [])
    (hb : b.held = a.held.drop cap ∧ b.readRx = a.readRx ∧ b.readEof = false) :
    Polled a cap arrived (.ready (a.held.take cap), b)
  | data (b : AsyncReader) (data : Bytes) (heof : a.readEof = false) (hheld : a.held = [])
    (hrx : a.readRx = .data data :: b.readRx) (hb : b.held = data.drop cap ∧ b.readEof = false) :
    Polled a cap arrived (.ready (data.take cap), b)
  | finished (b : AsyncReader) (heof : a.readEof = false) (hheld : a.held = []) (hrx : payloads a.readRx = [])
    (hb : b.readEof = true ∧ b.readRx = a.readRx.tail) : Polled a cap arrived (.ready [], b)
  | waits (harrived : arrived = false) : Polled a cap arrived (.pending, a)

theorem polled (a : AsyncReader) (cap : Nat) (arrived : Bool) : Polled a cap arrived (a.pollRead cap arrived) := by
  have hmin : ∀ l : Bytes, l.take (min l.length cap) = l.take cap := fun l => by
    rw [Nat.min_comm, ← take_eq_take_min]
  unfold pollRead
  split_ifs with heof hbuf harrived
  · exact .ended heof
  · replace heof : a.readEof = false := by simpa using heof
    have hlen : a.held.length = a.readBuf.length - a.readPos := length_drop
    have hdrop : a.held.drop cap = a.readBuf.drop (a.readPos + cap) := drop_drop
    rw [← held]
    dsimp only
    rw [hmin]
    refine .held _ heof (ne_nil_of_length_pos (by omega)) ?_
    split_ifs with hall
    · exact ⟨by rw [drop_eq_nil_of_le (by omega)]; rfl, rfl, heof⟩
    · exact ⟨by rw [hdrop, held, show min a.held.length cap = cap by omega], rfl, heof⟩
  · replace heof : a.readEof = false := by simpa using heof
    have hheld : a.held = [] := drop_eq_nil_of_le (Nat.le_of_not_lt hbuf)
    split
    next data rx hrx =>
      dsimp only
      rw [hmin]
      split_ifs with hall
      · exact .data _ data heof hheld hrx
          ⟨by rw [held, show min data.length cap = cap by omega], heof⟩
      · exact .data _ data heof hheld hrx
          ⟨by rw [drop_eq_nil_of_le (show data.length ≤ cap by omega)]; exact hheld, heof⟩
    next rx hrx => exact .finished _ heof hheld (by rw [hrx]; rfl) ⟨rfl, by rw [hrx]; rfl⟩
    next hrx => exact .finished _ heof hheld (by rw [hrx]; rfl) ⟨rfl, by rw [hrx]; rfl⟩
  · exact .waits (by simpa using harrived)

variable {r : Poll Bytes × AsyncReader}

theorem Polled.rest_eq (h : Polled a cap arrived r) : a.rest = r.1.bytes ++ r.2.rest := by
  cases h <;> grind [rest, Poll.bytes, payloads, take_append_drop]

theorem Polled.left_le (h : Polled a cap arrived r) (hcap : 0 < cap) : r.2.left + arrived.toNat ≤ a.left ∨ r.2.left = 0 := by
  cases h <;> grind [left, payloads, length_eq_zero_iff, Bool.toNat_le]

theorem Polled.filled (h : Polled a cap arrived r) (ha : Filled a.readRx) (hcap : 0 < cap) :
    Filled r.2.readRx ∧ (r.1 = .ready [] → r.2.readEof = true) := by
  cases h <;> grind [Filled, take_eq_nil_iff, mem_of_mem_tail]

/-- The calls return the next bytes of the stream, and each that finds its event brings the end closer. -/
theorem polls_rest {ps : List (Nat × Bool)} (hcap : ∀ p ∈ ps, 0 < p.1) (a : AsyncReader) :
    ∃ b : AsyncReader, a.rest = (a.polls ps).flatMap Poll.bytes ++ b.rest ∧
      b.left ≤ a.left - (ps.filter Prod.snd).length := by
  induction ps generalizing a with
  | nil => exact ⟨a, rfl, le_rfl⟩
  | cons p ps ih =>
    have h := a.polled p.1 p.2
    obtain ⟨b, hrest, hleft⟩ := ih (fun p hp => hcap p (mem_cons_of_mem _ hp)) (a.pollRead p.1 p.2).2
    refine ⟨b, ?_, ?_⟩
    · rw [h.rest_eq, hrest, polls, flatMap_cons, append_assoc]
    · have := h.left_le (hcap p mem_cons_self)
      cases hp : p.2 <;> simp only [filter_cons] at this ⊢ <;> grind

theorem polls_ended (heof : a.readEof = true) (ps : List (Nat × Bool)) : ∀ r ∈ a.polls ps, r = .ready [] := by
  have hpoll : ∀ p : Nat × Bool, a.pollRead p.1 p.2 = (.ready [], a) := fun p => if_pos heof
  induction ps with
  | nil => simp [polls]
  | cons p ps ih => simpa [polls, hpoll] using ih

/-- **The reads are the payloads in order, in the end all of them; of the events that a stream sends, every read after the
first that reports the end reports it too.** -/
theorem reads_stream (events : List StreamEvent) (ps : List (Nat × Bool)) (hcap : ∀ p ∈ ps, 0 < p.1) :
    (polls ⟨events, [], 0, false⟩ ps).flatMap Poll.bytes <+: payloads events ∧
    ((payloads events).length + events.length < (ps.filter Prod.snd).length →
      (polls ⟨events, [], 0, false⟩ ps).flatMap Poll.bytes = payloads events) ∧
    ∀ es, events = (Sys.after es).events →
      (polls ⟨events, [], 0, false⟩ ps).Pairwise fun r r' => r = .ready [] → r' = .ready [] := by
  obtain ⟨b, hrest, hleft⟩ := polls_rest hcap ⟨events, [], 0, false⟩
  have hall : payloads events = (polls ⟨events, [], 0, false⟩ ps).flatMap Poll.bytes ++ b.rest := hrest
  refine ⟨⟨b.rest, hall.symm⟩, fun hmany => ?_, fun es hes => ?_⟩
  · have hend : b.rest = [] := by grind [left, rest]
    rw [hall, hend, append_nil]
  · clear hrest hall hleft
    have ha : Filled (AsyncReader.mk events [] 0 false).readRx := hes ▸ filled_after es
    generalize (⟨events, [], 0, false⟩ : AsyncReader) = a at ha
    induction ps generalizing a with
    | nil => exact .nil
    | cons p ps ih =>
      obtain ⟨hb, hend⟩ := (a.polled p.1 p.2).filled ha (hcap p mem_cons_self)
      exact pairwise_cons.mpr ⟨fun r hr heq => polls_ended (hend heq) ps r hr,
        ih (fun p hp => hcap p (mem_cons_of_mem _ hp)) _ hb⟩

theorem reads_stream_parts : let es : List Ev := [.connect 1 loopback true,
      .proc (.packet (buildDataPacket 1 0 0 [1, 2]) loopback) {}, .proc (.packet (buildEndPacket 1 1 0) loopback) {}]
    let reads := polls ⟨[.data [1, 2], .ended], [], 0, false⟩ [(1, true), (8, false), (8, true)]
    (Sys.after es).events = [.data [1, 2], .ended] ∧ reads.flatMap Poll.bytes <+: [1, 2] ∧
      reads.Pairwise fun r r' => r = .ready [] → r' = .ready [] := by
  intro es reads
  have hes : (Sys.after es).events = [.data [1, 2], .ended] := by decide +kernel
  obtain ⟨hread, -, hend⟩ := reads_stream [.data [1, 2], .ended] [(1, true), (8, false), (8, true)] (by decide)
  exact ⟨hes, hread, hend es hes.symm⟩

end AsyncReader

end Peeroxide.Udx
