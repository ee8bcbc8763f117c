import Peeroxide.Udx.Delivery

/-!
# Delivery over an unreliable network

A sender, a receiver, and a network that may deliver any datagram the sender ever sent, any number of times, in any
order or never. What the receiver hands to its reader is a prefix of what was written, and the end mark comes after all
of it.

Main result: `link_delivery`.
-/

namespace Peeroxide.Udx
open Lib StreamInner Sys List
variable {before events : List StreamEvent} {h : Header} {item : Item} {items : List Item} {s : StreamInner}
  {t : Turn} {y : Sys} {σ σ' : List (Option Item)}

/-! ## The receiver -/

/-- The first slots are filled, by `items`. -/
def Front (σ : List (Option Item)) (items : List Item) : Prop := σ.take items.length = items.map some

theorem Front.snoc (h : Front σ items) (hi : σ[items.length]? = some (some item)) : Front σ (items ++ [item]) := by
  unfold Front at h ⊢
  rw [length_append, length_singleton, take_add_one, h, hi, map_append]
  rfl

theorem Front.grows (h : Front σ items) (hg : Grows σ σ') : Front σ' items := by
  refine ext_getElem? fun i => ?_
  rw [getElem?_take]
  split
  next hi =>
    have hget : σ[i]? = (items.map some)[i]? := by rw [← h, getElem?_take, if_pos hi]
    rw [getElem?_map, getElem?_eq_getElem hi] at hget ⊢
    exact hg i _ hget
  next hi =>
    exact (getElem?_eq_none (by simpa using hi)).symm

/-- What a stream has received: the buffered packets are items of their slots, and the events pushed so far are those of
the slots before the next expected number. -/
structure Pushed (σ : List (Option Item)) (s : StreamInner) (events : List StreamEvent) : Prop where
  buf : ∀ e ∈ s.recvBuf, ∃ item, σ[e.1]? = some (some item) ∧ e.2 = ⟨item.payload, item.flags⟩
  front : ∃ items, Front σ items ∧ items.length = s.nextRemoteSeq ∧ events = items.flatMap Item.events

theorem Pushed.next (hσ : σ.length < 2 ^ 32) (h : Pushed σ s events) (hi : σ[s.nextRemoteSeq]? = some (some item))
    (b : OrdMap Nat RecvdPacket) (hb : ∀ e ∈ b, e ∈ s.recvBuf) :
    Pushed σ { s with recvBuf := b, nextRemoteSeq := wrap32 (s.nextRemoteSeq + 1) }
      (events ++ pushEvents item.payload item.flags) := by
  refine ⟨fun e he => h.buf e (hb e he), ?_⟩
  obtain ⟨items, hf, hlen, hev⟩ := h.front
  have hlt := (List.getElem?_eq_some_iff.mp hi).1
  refine ⟨items ++ [item], hf.snoc (hlen ▸ hi), ?_, ?_⟩
  · rw [length_append, hlen, length_singleton]
    exact (wrap32_of_lt (by omega)).symm
  · rw [hev, flatMap_append, flatMap_singleton]
    rfl

theorem Pushed.drain (hσ : σ.length < 2 ^ 32) (fuel : Nat) (h : Pushed σ s (before ++ events)) :
    Pushed σ (drainRecv fuel s events).1 (before ++ (drainRecv fuel s events).2) := by
  induction fuel generalizing s events with
  | zero => exact h
  | succ fuel ih =>
    unfold drainRecv
    split
    next r hr =>
      obtain ⟨item, hi, hre⟩ := h.buf _ (OrdMap.get?_eq_some.mp hr)
      refine ih ?_
      rw [← append_assoc, show r = _ from hre]
      exact h.next hσ hi _ fun e he => (OrdMap.mem_remove.mp he).1
    · exact h

theorem Pushed.receive (hσ : σ.length < 2 ^ 32) (h : Pushed σ s events) {seq : Nat} (hi : σ[seq]? = some (some item)) :
    Pushed σ (s.receiveData seq item.payload item.flags).1
      (events ++ (s.receiveData seq item.payload item.flags).2) := by
  unfold receiveData
  split
  · rw [append_nil]
    exact h
  · split
    next hseq =>
      subst hseq
      exact Pushed.drain hσ _ (h.next hσ hi s.recvBuf fun _ he => he)
    · rw [append_nil]
      refine ⟨fun e he => ?_, h.front⟩
      rcases OrdMap.mem_orInsert he with rfl | he
      · exact ⟨item, hi, rfl⟩
      · exact h.buf e he

/-- A datagram of a sender with slots `σ`. -/
def Carried (σ : List (Option Item)) (data : Bytes) : Prop :=
  (∃ seq item pad, σ[seq]? = some (some item) ∧ IsWire seq item pad data) ∨ Plain data

def Received (σ : List (Option Item)) (y : Sys) : Prop := Pushed σ y.inner y.events

theorem Received.same {y' : Sys} (h : Received σ y) (hb : y'.inner.recvBuf = y.inner.recvBuf)
    (hn : y'.inner.nextRemoteSeq = y.inner.nextRemoteSeq) (he : y'.events = y.events) : Received σ y' := by
  refine ⟨hb ▸ h.buf, ?_⟩
  rw [hn, he]
  exact h.front

theorem Received.apply (h : Received σ y)
    (hb : t.s.recvBuf = y.inner.recvBuf) (hn : t.s.nextRemoteSeq = y.inner.nextRemoteSeq) (he : t.out.events = []) :
    Received σ (y.apply t) :=
  h.same hb hn (by simp [Sys.apply, record, he])

theorem Received.rest (h : Received σ y) (hr : t.s.rest = y.inner.rest)
    (he : t.out.events = []) : Received σ (y.apply t) :=
  h.apply (congrArg Rest.recvBuf hr) (congrArg Rest.nextRemoteSeq hr) he

theorem Received.grows (h : Received σ y) (hg : Grows σ σ') : Received σ' y := by
  refine ⟨fun e he => ?_, ?_⟩
  · obtain ⟨item, h₁, h₂⟩ := h.buf e he
    exact ⟨item, hg _ _ h₁, h₂⟩
  · obtain ⟨items, hf, h₁, h₂⟩ := h.front
    exact ⟨items, hf.grows hg, h₁, h₂⟩

theorem Received.data (hσ : σ.length < 2 ^ 32) (hJ : Received σ y)
    {data : Bytes} (hd : Header.decode data = .ok h) (hc : Carried σ data) : Received σ (y.apply (onData y.inner h data)) := by
  unfold onData
  rcases hc with ⟨seq, item, pad, hi, hw⟩ | hp
  · have hlt := (List.getElem?_eq_some_iff.mp hi).1
    obtain ⟨h₁, h₂, h₃, h₄, -⟩ := hw.read (hlt.trans hσ) hd
    rw [if_pos h₄, h₁, h₂, h₃]
    exact hJ.receive hσ hi
  · rw [if_neg (by simp [(hp h hd).1])]
    exact hJ.apply rfl rfl rfl

theorem Carried.not_destroy (hσ : σ.length < 2 ^ 32) {data : Bytes}
    (hd : Header.decode data = .ok h) (hc : Carried σ data) : h.hasFlag FLAG_DESTROY = false := by
  rcases hc with ⟨seq, item, pad, hi, hw⟩ | hp
  · exact (hw.read ((List.getElem?_eq_some_iff.mp hi).1.trans hσ) hd).2.2.2.2
  · exact (hp h hd).2

/-- What every step of a receiver preserves, as long as it is handed only datagrams of the sender. -/
theorem received_stepRule (hσ : σ.length < 2 ^ 32) :
    StepRule (fun _ _ _ => True) (fun _ data => Carried σ data) (Received σ) where
  gate _ _ _ _ h := h
  proc _ _ h := { h with }
  hookTaken _ h := { h with }
  hookAccepted _ _ h := { h with }
  relay y data dest _ h := relay_ind y data dest fun _ _ _ => h.apply rfl rfl rfl
  ackSack y h data ctx _ _ _ hJ := hJ.rest (onAckSack_rest y.inner h data ctx) (onAckSack_events y.inner h data ctx)
  data _ _ _ hd hc hJ := hJ.data hσ hd hc
  destroy _ _ _ hd hc hf _ := by
    rw [hc.not_destroy hσ hd] at hf
    cases hf
  heartbeat _ _ h := h.apply rfl rfl rfl
  pacing y shuttingDown now hJ := by
    have f : FlushRule (Received σ) := by
      refine ⟨fun z c _ h => { h with }, fun z q rest now _ h => ?_⟩
      have hr := sendOne_rest { z.inner with sendQueue := rest } q now
      exact h.same (congrArg Rest.recvBuf hr) (congrArg Rest.nextRemoteSeq hr) (append_nil _)
    exact f.onPacing y shuttingDown now hJ
  rto y now h := h.rest (onRto_rest y.inner now) (onRto_events y.inner now)
  keepalive _ h := h.apply rfl rfl rfl
  finish _ h := h.apply rfl rfl rfl
  start y registered h := y.start_ind registered fun _ _ => { h with }
  connect _ _ _ h := { h with }
  hook _ _ _ h := { h with }
  write y data h := y.write_ind data h fun _ _ _ => { h with }
  shutdown y h := y.shutdown_ind h { h with } fun _ _ _ _ _ => { h with }
  cut y i h := y.cut_ind i h fun _ _ _ => { h with }
  queue y i now h := y.queue_ind i now h fun _ _ _ _ _ _ _ => { h with }
  relayTo _ h := { h with }
  kill y h := h.same rfl rfl (append_nil _)

/-! ## The other datagrams of a sender -/

/-- A sender that does not relay puts besides numbered packets only datagrams without items on the wire. -/
structure PlainControl (y : Sys) : Prop where
  control : ∀ d ∈ y.control, Plain d.data
  relay : y.inner.relayTarget = false
  id_lt : y.inner.remoteId < 2 ^ 32
  remote_lt : y.inner.nextRemoteSeq < 2 ^ 32

theorem PlainControl.apply (h : PlainControl y) (hd : ∀ d ∈ t.out.control, Plain d.data)
    (hrel : t.s.relayTarget = y.inner.relayTarget) (hid : t.s.remoteId = y.inner.remoteId)
    (hr : t.s.nextRemoteSeq < 2 ^ 32) : PlainControl (y.apply t) := by
  refine ⟨fun d hm => ?_, hrel.trans h.relay, hid.trans_lt h.id_lt, hr⟩
  rcases mem_append.mp hm with hm | hm
  · exact h.control d hm
  · exact hd d hm

theorem PlainControl.rest (h : PlainControl y) (hr : t.s.rest = y.inner.rest)
    (hc : t.out.control = []) : PlainControl (y.apply t) :=
  h.apply (fun d hm => by rw [hc] at hm; cases hm) (congrArg Rest.relayTarget hr) (congrArg Rest.remoteId hr)
    ((congrArg Rest.nextRemoteSeq hr).trans_lt h.remote_lt)

theorem plainControl_callRule : CallRule (fun _ _ _ => True) (fun _ _ => True) PlainControl where
  gate _ _ _ _ h := h
  proc _ _ h := { h with }
  hookTaken _ h := { h with }
  hookAccepted _ _ h := { h with }
  relay y data dest hr h := by
    rw [h.relay] at hr
    cases hr
  ackSack y h data ctx _ _ _ hJ := hJ.rest (onAckSack_rest y.inner h data ctx) (onAckSack_control y.inner h data ctx)
  data y h data _ _ hJ := by
    have hr := nextRemoteSeq_onData y.inner h data hJ.remote_lt
    have hctl := onData_control y.inner h data
    obtain ⟨b, n, events, control, e⟩ := onData_eq y.inner h data
    rw [e] at hr hctl ⊢
    refine hJ.apply (fun d hm => ?_) rfl rfl hr
    rcases hctl with hctl | hctl
    · rw [show control = [] from hctl] at hm
      cases hm
    · rw [show control = _ from hctl] at hm
      exact plain_sendAck (s := { y.inner with recvBuf := b, nextRemoteSeq := n }) hJ.id_lt hr _ d hm
  destroy _ _ _ _ _ _ hJ := hJ.apply (fun d hm => by cases hm) rfl rfl hJ.remote_lt
  heartbeat y h hJ := by
    refine hJ.apply (fun d hm => ?_) rfl rfl hJ.remote_lt
    unfold onHeartbeat at hm
    split at hm
    · exact plain_sendAck hJ.id_lt hJ.remote_lt [] d hm
    · cases hm
  pacing y shuttingDown now hJ := by
    have f : FlushRule PlainControl := by
      refine ⟨fun z c _ h => { h with }, fun z q rest now hq h => ?_⟩
      have hr := sendOne_rest { z.inner with sendQueue := rest } q now
      exact ⟨fun d hd => h.control d (by simpa [record, setInner] using hd), (congrArg Rest.relayTarget hr).trans h.relay,
        (congrArg Rest.remoteId hr).trans_lt h.id_lt, (congrArg Rest.nextRemoteSeq hr).trans_lt h.remote_lt⟩
    exact f.onPacing y shuttingDown now hJ
  rto y now hJ := hJ.rest (onRto_rest y.inner now) (onRto_control y.inner now)
  keepalive y hJ := hJ.apply (plain_keepaliveOut hJ.id_lt hJ.remote_lt) rfl rfl hJ.remote_lt
  finish y hJ := hJ.apply (fun d hm => by cases hm) rfl rfl hJ.remote_lt
  start y registered h := y.start_ind registered fun _ _ => { h with }
  connect _ remoteId _ h := { h with id_lt := remoteId.toNat_lt }
  hook _ remoteId _ h := { h with id_lt := remoteId.toNat_lt }
  write y data h := y.write_ind data h fun _ _ _ => { h with }
  shutdown y h := y.shutdown_ind h { h with } fun _ _ _ _ _ =>
    { h with }
  cut y i h := y.cut_ind i h fun _ _ _ => { h with }
  queue y i now h := y.queue_ind i now h fun _ _ _ _ _ _ _ => { h with }

/-! ## The two ends and the network -/

/-- What the sending end may do: anything but relay the packets of another stream or abort. It hears any packet. -/
abbrev SenderEv := { e : Ev // e ≠ .relayTo ∧ e ≠ .destroy }

/-- What the receiving end may do by itself. It hears only what the network delivers. -/
abbrev ReceiverEv := { e : Ev // ∀ data addr ctx, e ≠ .proc (.packet data addr) ctx }

inductive LinkEv where
  | sender (e : SenderEv)
  | resend (q : Nat) (now : Instant)
  | receiver (e : ReceiverEv)
  | deliver (i : Nat) (addr : SocketAddr) (ctx : Ctx)

structure Link where
  tx : Sys := {}
  rx : Sys := {}

namespace Link
variable {l : Link}

/-- Every datagram sent so far: numbered packets, first transmissions and later ones, and the others. -/
def sent (l : Link) : List Bytes := l.tx.txs.map Tx.packet ++ l.tx.control.map Datagram.data

/-- The network delivers the `i`-th datagram ever sent: it may do so again, out of order, or never. -/
def deliver (l : Link) (i : Nat) (addr : SocketAddr) (ctx : Ctx) : Link :=
  match l.sent[i]? with
  | some data => { l with rx := l.rx.step (.proc (.packet data addr) ctx) }
  | none => l

/-- One step. Besides its own retransmissions the sender may send any outstanding packet again at any time. -/
def step (l : Link) : LinkEv → Link
  | .sender e => { l with tx := l.tx.step e.1 }
  | .resend q now => { l with tx := l.tx.resend q now }
  | .receiver e => { l with rx := l.rx.step e.1 }
  | .deliver i addr ctx => l.deliver i addr ctx

abbrev after (es : List LinkEv) : Link := run step {} es

theorem deliver_cases (l : Link) (i : Nat) (addr : SocketAddr) (ctx : Ctx) : l.deliver i addr ctx = l ∨
      ∃ data ∈ l.sent, l.deliver i addr ctx = { l with rx := l.rx.step (.proc (.packet data addr) ctx) } := by
  unfold deliver
  split
  next data hd =>
    exact .inr ⟨data, mem_of_getElem? hd, rfl⟩
  · exact .inl rfl

theorem carried_sent (h : Sender l.tx) (hc : PlainControl l.tx) (hn : l.tx.numbered < 2 ^ 32) {data : Bytes}
    (hd : data ∈ l.sent) : Carried l.tx.slots data := by
  have hs := h.sent hn
  rcases mem_append.mp hd with hd | hd
  · obtain ⟨t, ht, rfl⟩ := mem_map.mp hd
    obtain ⟨item, pad, h₁, h₂⟩ := hs.core.txs t ht
    exact .inl ⟨t.seq, item, pad, h₁, h₂⟩
  · obtain ⟨d, hdm, rfl⟩ := mem_map.mp hd
    exact .inr (hc.control d hdm)

/-- The invariant of a link: the receiver has pushed and buffered the items of the sender's slots. -/
structure Inv (l : Link) : Prop where
  sender : Sender l.tx
  control : PlainControl l.tx
  received : l.tx.numbered < 2 ^ 32 → Received l.tx.slots l.rx

theorem Inv.step (h : Inv l) (e : LinkEv) : Inv (l.step e) := by
  -- a step of the receiver, with what it hears
  have rx : ∀ e, (∀ p ∈ l.rx.ackPacket e, p.2 ∈ l.sent) → Inv { l with rx := l.rx.step e } := by
    refine fun e he => ⟨h.sender, h.control, fun hn => ?_⟩
    have hlen : l.tx.slots.length < 2 ^ 32 := h.sender.length_slots.trans_lt hn
    exact (received_stepRule hlen).step _ e (fun p hp => ⟨carried_sent h.sender h.control hn (he p hp), trivial⟩) (h.received hn)
  cases e with
  | sender e =>
    obtain ⟨hs, hg⟩ := h.sender.step e.1
    have hc := plainControl_callRule.step l.tx e.1 e.2.1 e.2.2 (fun _ _ => ⟨trivial, trivial⟩) h.control
    exact ⟨hs, hc, fun hn => (h.received ((numbered_le_step l.tx e.1).trans_lt hn)).grows hg⟩
  | resend q now => exact ⟨h.sender.resend q now, { h.control with }, h.received⟩
  | receiver e =>
    refine rx e.1 fun p hp => ?_
    obtain ⟨addr, ctx, he, -⟩ := mem_ackPacket hp
    exact absurd he (e.2 p.2 addr ctx)
  | deliver i addr ctx =>
    rcases l.deliver_cases i addr ctx with he | ⟨data, hd, he⟩ <;> rw [Link.step, he]
    · exact h
    · refine rx _ fun p hp => ?_
      obtain ⟨addr', ctx', he, -⟩ := mem_ackPacket hp
      cases he
      exact hd

/-- **The invariant holds in every state of every run.** -/
theorem inv_after (es : List LinkEv) : Inv (after es) :=
  run_invariant (fun _ e h => h.step e)
    ⟨sender_new, ⟨fun d hd => (by cases hd), rfl, by decide, by decide⟩, fun _ => ⟨fun e he => absurd he (OrdMap.not_mem_empty e), [], rfl, rfl, rfl⟩⟩ es

end Link

/-! ## What the reader sees -/

def StreamEvent.bytes : StreamEvent → Bytes
  | .data payload => payload
  | .ended => []

theorem Item.events_data (chunk : Bytes) : (Item.data chunk).events = if chunk.isEmpty then [] else [.data chunk] := by
  change pushEvents chunk FLAG_DATA = _
  unfold pushEvents
  cases chunk.isEmpty <;> rfl

theorem Item.flatMap_bytes_events (a : Item) : a.events.flatMap StreamEvent.bytes = a.payload := by
  cases a with
  | data chunk =>
    rw [Item.events_data]
    cases chunk with
    | nil => rfl
    | cons b bs => exact append_nil _
  | fin => rfl

theorem Item.ended_mem_events (a : Item) {rest : List StreamEvent} (h : a.events = before ++ .ended :: rest) :
    a = .fin ∧ before = [] := by
  cases a with
  | data chunk =>
    have hm : StreamEvent.ended ∈ (Item.data chunk).events := by simp [h]
    rw [Item.events_data] at hm
    split at hm <;> simp at hm
  | fin =>
    have hlen : 1 = (before ++ .ended :: rest).length := congrArg List.length h
    rw [length_append, length_cons] at hlen
    exact ⟨rfl, eq_nil_of_length_eq_zero (by omega)⟩

theorem flatMap_bytes (items : List Item) :
    (items.flatMap Item.events).flatMap StreamEvent.bytes = items.flatMap Item.payload := by
  rw [flatMap_assoc]
  exact flatMap_congr fun a _ => a.flatMap_bytes_events

/-- An end event is that of an END mark, after the events of the items before it. -/
theorem ended_split {rest : List StreamEvent} (h : items.flatMap Item.events = before ++ .ended :: rest) :
    ∃ front back, items = front ++ .fin :: back ∧ before = front.flatMap Item.events := by
  induction items generalizing before with
  | nil => simp at h
  | cons a items ih =>
    -- unless it is the mark itself, the event is one of the items after `a`
    have later : ∀ before', items.flatMap Item.events = before' ++ .ended :: rest → before = a.events ++ before' →
        ∃ front back, a :: items = front ++ .fin :: back ∧ before = front.flatMap Item.events := by
      intro before' h' hb
      obtain ⟨front, back, rfl, rfl⟩ := ih h'
      exact ⟨a :: front, back, rfl, hb⟩
    rcases append_eq_append_iff.mp h with ⟨before', hb, h'⟩ | ⟨after, ha, h'⟩
    · exact later before' h' hb
    · cases after with
      | nil => exact later [] h'.symm (by simpa using ha.symm)
      | cons e after =>
        obtain ⟨rfl, -⟩ := List.cons.inj h'
        obtain ⟨rfl, rfl⟩ := a.ended_mem_events ha
        exact ⟨[], items, rfl, rfl⟩

theorem Write.fin_mem_slots {w : Write} (h : some .fin ∈ w.slots) : w.fin = true ∧ w.slots = [some .fin] := by
  have hif : ∀ mp, some Item.fin ∈ w.block mp → w.fin = true := by
    intro mp hm
    rw [block] at hm
    cases hf : w.fin with
    | true => rfl
    | false => simp [hf] at hm
  unfold slots at h ⊢
  split at h
  · simp at h
  all_goals
    have hf := hif _ h
    exact ⟨hf, if_pos hf⟩

theorem fin_slot (hl : Ledger y) {n : Nat} (h : y.slots[n]? = some (some .fin)) :
    ∃ ws w, y.writes = ws ++ [w] ∧ w.slots = [some .fin] ∧ w.fin = true ∧ (ws.flatMap Write.slots).length = n := by
  obtain he | ⟨ws, w, he⟩ := eq_nil_or_concat' y.writes
  · rw [slots, he] at h
    cases h
  · rw [slots, he, flatMap_append, flatMap_singleton] at h
    rcases Nat.lt_or_ge n (ws.flatMap Write.slots).length with hlt | hge
    · -- a write that carries the mark is the last one
      rw [getElem?_append_left hlt] at h
      obtain ⟨v, hv, hm⟩ := mem_flatMap.mp (mem_of_getElem? h)
      obtain ⟨j, hj⟩ := mem_iff_getElem?.mp hv
      have hjlt := (List.getElem?_eq_some_iff.mp hj).1
      have := hl.fin_last j v (by rw [he, getElem?_append_left hjlt, hj]) (Write.fin_mem_slots hm).1
      rw [he, length_append, length_singleton] at this
      omega
    · rw [getElem?_append_right hge] at h
      obtain ⟨hf, hslots⟩ := Write.fin_mem_slots (mem_of_getElem? h)
      have hlt := (List.getElem?_eq_some_iff.mp h).1
      rw [hslots, length_singleton] at hlt
      exact ⟨ws, w, he, hslots, hf, by omega⟩

/-- **Two-party delivery.** In every run of a sender, a receiver and a network that drops, repeats and reorders, with
fewer than `2 ^ 32` packets, the bytes pushed are a prefix of the bytes written, and the end is pushed only after all of
them. -/
theorem link_delivery (es : List LinkEv) (hn : (Link.after es).tx.numbered < 2 ^ 32) :
    (Link.after es).rx.events.flatMap StreamEvent.bytes <+: (Link.after es).tx.writes.flatMap Write.data ∧
    ∀ before rest, (Link.after es).rx.events = before ++ .ended :: rest →
      before.flatMap StreamEvent.bytes = (Link.after es).tx.writes.flatMap Write.data := by
  have hinv := Link.inv_after es
  obtain ⟨items, hfront, -, hev⟩ := (hinv.received hn).front
  have hl := hinv.sender.ledger
  have hs := hinv.sender.sizes
  have hfills : ∀ w ∈ (Link.after es).tx.writes, Fills Item.payload w.slots w.data :=
    fun w hw => fills_slots (hl.ok w hw) (hs w hw)
  refine ⟨?_, fun before rest hb => ?_⟩
  · rw [hev, flatMap_bytes]
    exact Fills.flatMap_prefix hfills hfront
  · rw [hev] at hb
    obtain ⟨front, back, rfl, rfl⟩ := ended_split hb
    rw [flatMap_bytes]
    have hslot : (Link.after es).tx.slots[front.length]? = some (some .fin) := by
      have h := congrArg (·[front.length]?) hfront
      simpa using h
    obtain ⟨ws, w, hw, hwslots, hfin, hlen⟩ := fin_slot hl hslot
    have hws : ws.flatMap Write.slots = front.map some := by
      have h := congrArg (List.take front.length) hfront
      rw [take_take, length_append, Nat.min_eq_left (by omega), map_append,
        take_left' (length_map _), slots, hw, flatMap_append, take_left' hlen] at h
      exact h
    have hdata : w.data = [] := (hl.ok w (by simp [hw])).fin_data hfin
    rw [hw, flatMap_append, flatMap_singleton, hdata, append_nil]
    exact Fills.flatMap_eq (fun v hv => hfills v (by simp [hw, hv])) hws

/-- A write and a shutdown whose packets arrive in the wrong order, the first one twice. -/
def reorderedRun : List LinkEv :=
  [.sender ⟨.connect 7 loopback true, by simp⟩, .sender ⟨.write [1, 2, 3], by simp⟩, .sender ⟨.cut 0, by simp⟩,
    .sender ⟨.queue 0 0, by simp⟩, .sender ⟨.shutdown, by simp⟩, .sender ⟨.queue 1 0, by simp⟩,
    .sender ⟨.proc .pacing {}, by simp⟩, .receiver ⟨.connect 9 loopback true, by simp⟩, .deliver 1 loopback {},
    .deliver 0 loopback {}, .resend 0 0, .deliver 2 loopback {}]

theorem link_delivery_reorderedRun : (Link.after reorderedRun).tx.numbered < 2 ^ 32 ∧
    (Link.after reorderedRun).rx.events = [.data [1, 2, 3], .ended] ∧
    (Link.after reorderedRun).rx.events.flatMap StreamEvent.bytes <+:
      (Link.after reorderedRun).tx.writes.flatMap Write.data ∧
    ∀ before rest, (Link.after reorderedRun).rx.events = before ++ .ended :: rest →
      before.flatMap StreamEvent.bytes = (Link.after reorderedRun).tx.writes.flatMap Write.data :=
  ⟨by decide, by decide +kernel, link_delivery reorderedRun (by decide)⟩

end Peeroxide.Udx
