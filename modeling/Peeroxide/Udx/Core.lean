import Peeroxide.Udx.Rules

/-!
# The sending core

Most steps touch neither the packets outstanding nor what is known about them. `Core` is the part of the system that
only three things change: an incoming acknowledgement, the sending of a queued packet, and a retransmission timeout.
-/

namespace Peeroxide.Udx
open Lib StreamInner Sys

/-- The packets outstanding, the MTU search, the delivery count and the recovery state, and the packets sent so far. -/
structure Core where
  outgoing : OrdMap Nat SentPacket
  remoteAcked : Nat
  mtuState : MtuState
  mtu : Nat
  mtuProbeSize : Nat
  mtuProbeCount : Nat
  mtuProbeWanted : Bool
  mtuMax : Nat
  delivered : Nat
  caState : CaState
  highSeq : Nat
  txs : List Tx

def StreamInner.core (s : StreamInner) (txs : List Tx) : Core :=
  ⟨s.outgoing, s.remoteAcked, s.mtuState, s.mtu, s.mtuProbeSize, s.mtuProbeCount, s.mtuProbeWanted, s.mtuMax,
    s.congestion.delivered, s.congestion.caState, s.congestion.highSeq, txs⟩

def Sys.core (y : Sys) : Core := y.inner.core y.txs

theorem core_congestion (s : StreamInner) (txs : List Tx) {c : CongestionController} (hk : s.congestion.Keeps c) :
    StreamInner.core { s with congestion := c } txs = s.core txs := by
  unfold StreamInner.core
  rw [hk.delivered, hk.caState, hk.highSeq]

/-! ## Handlers that touch little -/

@[elab_as_elim] theorem relay_ind {motive : Sys → Prop} (y : Sys) (data : Bytes) (dest : RelayDest)
    (h : ∀ closeTx control stop, motive (y.apply ⟨{ y.inner with closeTx := closeTx }, { control := control }, stop⟩)) :
    motive (y.apply (relayPacket y.inner data dest)) := by
  unfold relayPacket
  dsimp only
  split
  · exact h ..
  · exact h y.inner.closeTx ..

theorem onData_eq (s : StreamInner) (h : Header) (data : Bytes) : ∃ b n events control, onData s h data =
      ⟨{ s with recvBuf := b, nextRemoteSeq := n }, { events := events, control := control }, false⟩ := by
  unfold onData
  split
  · have hf := receiveData_frame s h.seq (packetPayload h data) (recvFlags h)
    generalize s.receiveData h.seq (packetPayload h data) (recvFlags h) = r at hf ⊢
    exact ⟨r.1.recvBuf, r.1.nextRemoteSeq, r.2, sendAck r.1 r.1.sackRanges, by rw [← hf]⟩
  · exact ⟨s.recvBuf, s.nextRemoteSeq, [], [], rfl⟩

@[elab_as_elim] theorem data_ind {motive : Sys → Prop} (y : Sys) (h : Header) (data : Bytes)
    (hJ : ∀ b n events control, motive (y.apply
      ⟨{ y.inner with recvBuf := b, nextRemoteSeq := n }, { events := events, control := control }, false⟩)) :
    motive (y.apply (onData y.inner h data)) := by
  obtain ⟨b, n, events, control, e⟩ := onData_eq y.inner h data
  rw [e]
  exact hJ ..

/-! ## The stage of a write -/

theorem getElem?_set_stage {ws : List Write} {i : Nat} {w : Write} (hw : ws[i]? = some w) (st : Stage) (j : Nat) :
    (ws.set i { w with stage := st })[j]? = ws[j]?.map fun v => if i = j then { v with stage := st } else v := by
  rw [List.getElem?_set]
  split
  next hij =>
    rw [← hij, if_pos (List.getElem?_eq_some_iff.mp hw).1, hw, Option.map_some]
  · exact Option.map_id'.symm

theorem map_set_stage {α : Type} {ws : List Write} {i : Nat} {w : Write} (f : Write → α)
    (hf : ∀ v st, f { v with stage := st } = f v) (hw : ws[i]? = some w) (st : Stage) :
    (ws.set i { w with stage := st }).map f = ws.map f := by
  obtain ⟨hlt, rfl⟩ := List.getElem?_eq_some_iff.mp hw
  rw [List.map_set, hf, ← List.getElem_map f (h := by simpa using hlt), List.set_getElem_self]

/-! ## Properties of the flags -/

/-- What the guards of the calls read. -/
structure Flags where
  connected : Bool
  ended : Bool
  udp : Bool
  remoteAddr : Option SocketAddr
  firewallHook : Option FirewallHook

def StreamInner.flags (s : StreamInner) : Flags := ⟨s.connected, s.ended, s.udp, s.remoteAddr, s.firewallHook⟩

theorem flags_of_rest {s s' : StreamInner} (h : s'.rest = s.rest) : s'.flags = s.flags :=
  congrArg (fun r : Rest => Flags.mk r.connected r.ended r.udp r.remoteAddr r.firewallHook) h

/-- The premises under which every step keeps a property of the flags and the writes: the gate, the calls that open the
stream, those that write, and termination do. -/
structure FlagRule (J : Sys → Prop) : Prop where
  same : ∀ {y y' : Sys}, J y → y'.inner.flags = y.inner.flags → y'.writes = y.writes → J y'
  hookTaken : ∀ y, J y → J y.hookTaken
  hookAccepted : ∀ y addr, J y → J (y.hookAccepted addr)
  close : ∀ y, J y → J (y.setInner { y.inner with connected := false })
  connect : ∀ y addr, J y → J (y.setInner { y.inner with remoteAddr := some addr, udp := true, connected := true })
  hook : ∀ y hook, J y → J (y.setInner { y.inner with udp := true, firewallHook := some hook })
  write : ∀ y data, J y → J (y.write data)
  shutdown : ∀ y, J y → J y.shutdown
  stage : ∀ y i w st, y.writes[i]? = some w → J y → J { y with writes := y.writes.set i { w with stage := st } }

theorem FlagRule.stepRule {J : Sys → Prop} (r : FlagRule J) : StepRule (fun _ _ _ => True) (fun _ _ => True) J where
  gate _ _ _ _ h := h
  proc _ _ h := r.same h rfl rfl
  hookTaken := r.hookTaken
  hookAccepted := r.hookAccepted
  relay y data dest _ h := relay_ind y data dest fun _ _ _ => r.same h rfl rfl
  ackSack y h data ctx _ _ _ hJ := r.same hJ (flags_of_rest (onAckSack_rest y.inner h data ctx)) rfl
  data y h data _ _ hJ := data_ind y h data fun _ _ _ _ => r.same hJ rfl rfl
  destroy _ _ _ _ _ _ h := r.same h rfl rfl
  heartbeat _ _ h := r.same h rfl rfl
  pacing y shuttingDown now hJ := by
    have f : FlushRule J := by
      refine ⟨fun _ _ _ h => r.same h rfl rfl, fun z q rest now _ h => ?_⟩
      have hr := sendOne_rest { z.inner with sendQueue := rest } q now
      exact r.same h ((flags_of_rest hr).trans rfl) rfl
    exact f.onPacing y shuttingDown now hJ
  rto y now h := r.same h (flags_of_rest (onRto_rest y.inner now)) rfl
  keepalive _ h := r.same h rfl rfl
  finish y h := r.same (r.close y h) rfl rfl
  start y registered h := y.start_ind registered fun _ _ => r.same h rfl rfl
  connect y _ addr h := r.same (r.connect y addr h) rfl rfl
  hook y _ hook h := r.same (r.hook y hook h) rfl rfl
  write := r.write
  shutdown := r.shutdown
  cut y i h := y.cut_ind i h fun w hw _ => r.stage y i w _ hw h
  queue y i now h := y.queue_ind i now h fun w _ _ _ hw _ _ => r.same (r.stage y i w _ hw h) rfl rfl
  relayTo _ h := r.same h rfl rfl
  kill y h := r.same (r.close y h) rfl rfl

/-! ## Streams with a socket -/

/-- A stream that has taken a write or holds a queued packet has a socket. -/
def Socketed (y : Sys) : Prop := (y.writes ≠ [] ∨ y.inner.sendQueue ≠ []) → y.inner.udp = true

theorem Socketed.mono {y y' : Sys} (h : Socketed y) (hw : y'.writes = y.writes)
    (hq : y'.inner.sendQueue ≠ [] → y.inner.sendQueue ≠ []) (hu : y.inner.udp = true → y'.inner.udp = true) :
    Socketed y' := by
  rintro (h' | h')
  · exact hu (h (.inl (hw ▸ h')))
  · exact hu (h (.inr (hq h')))

theorem Socketed.rest {y : Sys} (h : Socketed y) {t : Turn} (hr : t.s.rest = y.inner.rest) : Socketed (y.apply t) := by
  have hq : t.s.sendQueue = y.inner.sendQueue := congrArg Rest.sendQueue hr
  have hu : t.s.udp = y.inner.udp := congrArg Rest.udp hr
  exact h.mono rfl (fun h => hq ▸ h) (fun h => hu ▸ h)

theorem socketed_flushRule : FlushRule Socketed := by
  refine ⟨fun _ _ _ h => h, fun y q rest now hq h => ?_⟩
  have hu : y.inner.udp = true := h (.inr (by simp [hq]))
  exact fun _ => (sendOne_udp _ _ _).trans hu

theorem socketed_stepRule (C : Sys → Header → Bytes → Prop) (D : Header → Bytes → Prop)
    (hC : ∀ y addr h data, C y h data → C (y.hookAccepted addr) h data) : StepRule C D Socketed where
  gate := hC
  proc _ _ h := h
  hookTaken _ h := h
  hookAccepted y addr h := by
    refine h.mono rfl (fun hq => ?_) id
    simpa [hookAccepted, setInner] using hq
  relay y data dest _ h := relay_ind y data dest fun _ _ _ => h
  ackSack y h data ctx _ _ _ hJ := hJ.rest (onAckSack_rest y.inner h data ctx)
  data y h data _ _ hJ := data_ind y h data fun _ _ _ _ => hJ
  destroy _ _ _ _ _ _ h := h
  heartbeat _ _ h := h
  pacing y shuttingDown now hJ := socketed_flushRule.onPacing y shuttingDown now hJ
  rto y now hJ := hJ.rest (onRto_rest y.inner now)
  keepalive _ h := h
  finish _ h := h
  start y registered h := y.start_ind registered fun _ _ => h
  connect _ _ _ _ := fun _ => rfl
  hook _ _ _ _ := fun _ => rfl
  relayTo _ h := h
  write y data h := y.write_ind data h fun _ _ hu _ => hu
  shutdown y h := y.shutdown_ind h h fun _ _ _ _ hu _ => hu
  cut y i h := y.cut_ind i h fun _ hw _ _ => h (.inl (List.ne_nil_of_mem (List.mem_of_getElem? hw)))
  queue y i now h :=
    y.queue_ind i now h fun _ _ _ _ hw _ _ _ => h (.inl (List.ne_nil_of_mem (List.mem_of_getElem? hw)))
  kill _ h := h

theorem socketed_after (es : List Ev) : Socketed (after es) :=
  (socketed_stepRule (fun _ _ _ => True) (fun _ _ => True) (fun _ _ _ _ h => h)).after
    (fun h => by simp [StreamInner.new] at h) es

/-! ## Properties of the core -/

/-- The premises under which every step keeps a property of the core: the three things that change it do. Packets whose
acknowledgement fields are handled meet `C`; the numbers of packets sent meet `F`. -/
structure CoreRule (C : Core → Header → Bytes → Prop) (F : List Tx → Nat → Prop) (P : Core → Prop) : Prop where
  ackSack : ∀ (s : StreamInner) txs h data ctx, Header.decode data = .ok h → C (s.core txs) h data → P (s.core txs) →
    P ((onAckSack s h data ctx).s.core (txs ++ (onAckSack s h data ctx).out.tx))
  send : ∀ (s : StreamInner) txs q now, F txs q.seq → P (s.core txs) →
    P ((sendOne s q now).1.core (txs ++ [(sendOne s q now).2]))
  rto : ∀ (s : StreamInner) txs maxSeq now, s.outgoing.lastKey? = some maxSeq → P (s.core txs) →
    P (((rtoBackoff s maxSeq).packetsToRetransmit now).1.core (txs ++ resendTx
      ((rtoBackoff s maxSeq).packetsToRetransmit now).1 ((rtoBackoff s maxSeq).packetsToRetransmit now).2))

theorem core_apply {P : Core → Prop} {y : Sys} {t : Turn} (h : P y.core)
    (hs : ∀ txs, t.s.core txs = y.inner.core txs) (ht : t.out.tx = []) : P (y.apply t).core := by
  have e : (y.apply t).core = y.core := by
    unfold Sys.core
    rw [apply_inner, hs]
    simp [apply, record, ht]
  rw [e]
  exact h

theorem destroy_core (y : Sys) : y.destroy.core = y.core := by
  simp [destroy, Sys.core, record, finish, terminate, StreamInner.core]

/-- What a call leaves: the core, and in the send queue only the packets of a write that had been cut are new. -/
def Called (y : Sys) (e : Ev) (z : Sys) : Prop :=
  z.core = y.core ∧ (z.inner.sendQueue = y.inner.sendQueue ∨ ∃ i now w mp packets, e = .queue i now ∧
    y.writes[i]? = some w ∧ w.stage = .cut mp packets ∧ z.writes = y.writes.set i { w with stage := .queued mp packets } ∧
    z.inner.sendQueue = y.inner.sendQueue ++ packets.map fun p => ⟨p.2, p.1, w.prep.remoteAddr⟩)

theorem step_of_call (y : Sys) (e : Ev) (he : ∀ p ctx, e ≠ .proc p ctx) : Called y e (y.step e) := by
  have hsame : Called y e y := ⟨rfl, .inl rfl⟩
  have hstart (z : Sys) registered (hz : Called y e z) : Called y e (z.startProcessor registered) :=
    z.start_ind registered fun _ _ => hz
  cases e with
  | connect id addr registered | setFirewallHook id hook registered => exact hstart _ registered hsame
  | relayTo => exact hsame
  | write data => exact y.write_ind (motive := Called y _) data hsame fun _ _ _ => ⟨rfl, .inl rfl⟩
  | shutdown => exact y.shutdown_ind (motive := Called y _) hsame hsame fun _ _ _ _ _ => ⟨rfl, .inl rfl⟩
  | cut i => exact y.cut_ind (motive := Called y _) i hsame fun _ _ _ => ⟨rfl, .inl rfl⟩
  | queue i now =>
    refine y.queue_ind (motive := Called y _) i now hsame fun w mp packets c hw hst hc =>
      ⟨?_, .inr ⟨i, now, w, mp, packets, rfl, hw, hst, rfl, rfl⟩⟩
    rcases hc with rfl | rfl <;> rfl
  | proc e ctx => exact absurd rfl (he e ctx)
  | destroy => exact ⟨destroy_core y, .inl rfl⟩

theorem procTurn_core (y : Sys) (e : ProcEvent) (ctx : Ctx) (hr : y.proc.running = true) :
    (y.procTurn e ctx).core = (branch y.inner y.proc.shuttingDown ctx e).s.core
      (y.txs ++ (branch y.inner y.proc.shuttingDown ctx e).out.tx) := by
  unfold procTurn Proc.turn
  rw [if_pos hr]
  dsimp only
  split <;> rfl

theorem onStreamPacket_core (s : StreamInner) (txs : List Tx) (h : Header) (data : Bytes) (ctx : Ctx) :
    (onStreamPacket s h data ctx).s.core (txs ++ (onStreamPacket s h data ctx).out.tx) =
      (onAckSack s h data ctx).s.core (txs ++ (onAckSack s h data ctx).out.tx) := by
  obtain ⟨b, n, events, control, e⟩ := onData_eq (onAckSack s h data ctx).s h data
  unfold onStreamPacket
  dsimp only
  rw [e]
  split <;> simp [onDestroy, onHeartbeat, Effects.append_def, StreamInner.core]

/-- A step that handles acknowledgement fields changes the core by them and by nothing else. The stream they meet is
that before the step, or the one the firewall hook has just accepted the source for. -/
theorem step_of_ackPacket {y : Sys} {e : Ev} {h : Header} {data : Bytes} (he : y.ackPacket e = some (h, data)) :
    ∃ addr ctx s, e = .proc (.packet data addr) ctx ∧ firewallGate y.inner h addr = .pass s ∧
      (s = y.inner ∨ s = (y.hookAccepted addr).inner) ∧
      (y.step e).core = (onAckSack s h data ctx).s.core (y.txs ++ (onAckSack s h data ctx).out.tx) := by
  obtain ⟨addr, ctx, rfl, hd⟩ := mem_ackPacket he
  unfold ackPacket at he
  dsimp only at he hd
  have hr : y.proc.running = true := by
    by_contra hr
    rw [if_neg hr] at he
    cases he
  rw [if_pos hr, hd] at he
  dsimp only at he
  -- what passed the gate
  have pass : ∀ s, firewallGate y.inner h addr = .pass s → (s = y.inner ∨ s = (y.hookAccepted addr).inner) →
      ∃ addr' ctx' s, Ev.proc (.packet data addr) ctx = .proc (.packet data addr') ctx' ∧
        firewallGate y.inner h addr' = .pass s ∧ (s = y.inner ∨ s = (y.hookAccepted addr').inner) ∧ (y.step (.proc (.packet data addr) ctx)).core =
          (onAckSack s h data ctx').s.core (y.txs ++ (onAckSack s h data ctx').out.tx) := by
    intro s hg hs
    refine ⟨addr, ctx, s, rfl, hg, hs, ?_⟩
    rw [hg] at he
    have hrel : s.relayTarget = false := by
      by_contra hrel
      simp [hrel] at he
    have hb : branch y.inner y.proc.shuttingDown ctx (.packet data addr) = onStreamPacket s h data ctx := by
      unfold branch onPacket
      dsimp only
      rw [hd]
      dsimp only
      rw [hg]
      simp [hrel]
    rw [Sys.step, procTurn_core y _ ctx hr, hb, onStreamPacket_core]
  rcases firewallGate_cases y.inner h addr with ⟨e, -⟩ | e | ⟨-, -, e | e | e⟩
  · exact pass _ e (.inl rfl)
  · rw [e] at he
    cases he
  · rw [e] at he
    cases he
  · rw [e] at he
    cases he
  · exact pass _ e (.inr rfl)

namespace CoreRule
variable {C : Core → Header → Bytes → Prop} {F : List Tx → Nat → Prop} {P : Core → Prop}

/-- A turn keeps the property, beside any `K` that tells that there is a socket and that the numbers sent meet `F`. -/
theorem turnRule (r : CoreRule C F P) {K : Sys → Prop} (k : TurnRule (fun y => C y.core) (fun _ _ => True) K)
    (f : FlushRule K) (hK : ∀ z q rest, K z → z.inner.sendQueue = q :: rest → z.inner.udp = true ∧ F z.txs q.seq) :
    TurnRule (fun y => C y.core) (fun _ _ => True) (fun y => K y ∧ P y.core) where
  gate _ _ _ _ h := h
  proc y p h := ⟨k.proc y p h.1, h.2⟩
  hookTaken y h := ⟨k.hookTaken y h.1, h.2⟩
  hookAccepted y addr h := ⟨k.hookAccepted y addr h.1, h.2⟩
  relay y data dest hr h :=
    ⟨k.relay y data dest hr h.1, relay_ind y data dest fun _ _ _ =>
      core_apply h.2 (fun _ => rfl) rfl⟩
  ackSack y h data ctx hd hD hc hJ :=
    ⟨k.ackSack y h data ctx hd hD hc hJ.1, r.ackSack y.inner y.txs h data ctx hd hc hJ.2⟩
  data y h data hd hD hJ :=
    ⟨k.data y h data hd hD hJ.1, data_ind y h data fun _ _ _ _ =>
      core_apply hJ.2 (fun _ => rfl) rfl⟩
  destroy y h data hd hD hf hJ := ⟨k.destroy y h data hd hD hf hJ.1, core_apply hJ.2 (fun _ => rfl) rfl⟩
  heartbeat y hd h := ⟨k.heartbeat y hd h.1, core_apply h.2 (fun _ => rfl) rfl⟩
  pacing y shuttingDown now hJ := by
    have f' : FlushRule (fun y => K y ∧ P y.core) := by
      refine ⟨fun z c hk h => ⟨f.ask z c hk h.1, ?_⟩, fun z q rest now hq h => ⟨f.send z q rest now hq h.1, ?_⟩⟩
      · unfold Sys.core
        exact (core_congestion z.inner z.txs hk).symm ▸ h.2
      · obtain ⟨hu, hF⟩ := hK z q rest h.1 hq
        rw [hu]
        exact r.send { z.inner with sendQueue := rest } z.txs q now hF h.2
    exact f'.onPacing y shuttingDown now hJ
  rto y now h := by
    refine ⟨k.rto y now h.1, ?_⟩
    rcases onRto_cases y.inner now with e | ⟨completed, e⟩ | ⟨maxSeq, hm, e⟩ <;> rw [e]
    · exact core_apply h.2 (fun _ => rfl) rfl
    · exact core_apply h.2 (fun _ => rfl) rfl
    · exact r.rto y.inner y.txs maxSeq now hm h.2
  keepalive y h := ⟨k.keepalive y h.1, core_apply h.2 (fun _ => rfl) rfl⟩
  finish y h := ⟨k.finish y h.1, core_apply h.2 (fun _ => rfl) rfl⟩

/-- **A property of the core that acknowledgements, sends and timeouts keep is kept by every step.** -/
theorem step (r : CoreRule C (fun _ _ => True) P) {y : Sys} (hk : Socketed y) (e : Ev)
    (hc : ∀ p ∈ y.ackPacket e, C y.core p.1 p.2) (hP : P y.core) : Socketed (y.step e) ∧ P (y.step e).core := by
  have k := socketed_stepRule (fun y => C y.core) (fun _ _ => True) (fun _ _ _ _ h => h)
  have hs : Socketed (y.step e) := k.step y e (fun p hp => ⟨trivial, hc p hp⟩) hk
  by_cases he : ∃ p ctx, e = .proc p ctx
  · obtain ⟨p, ctx, rfl⟩ := he
    have r' := r.turnRule k.toTurnRule socketed_flushRule fun z q rest hz hq => ⟨hz (.inr (by simp [hq])), trivial⟩
    exact r'.procTurn y p ctx (fun p hp => ⟨trivial, hc p hp⟩) ⟨hk, hP⟩
  · rw [(step_of_call y e fun p ctx h => he ⟨p, ctx, h⟩).1]
    exact ⟨hs, hP⟩

theorem after (r : CoreRule (fun _ _ _ => True) (fun _ _ => True) P) (h₀ : P (Sys.core {})) (es : List Ev) :
    P (Sys.after es).core :=
  (run_invariant (I := fun y => Socketed y ∧ P y.core) (fun _ e h => r.step h.1 e (fun _ _ => trivial) h.2)
    ⟨socketed_after [], h₀⟩ es).2

end CoreRule

/-- The premises under which the acknowledgement handler keeps a property of the core: one for each of its parts. -/
structure CoreAckRule (C : Core → Header → Bytes → Prop) (P : Core → Prop) : Prop where
  rwnd : ∀ (s : StreamInner) txs w, P (s.core txs) → P (StreamInner.core { s with sendRwnd := w } txs)
  cum : ∀ (s : StreamInner) txs h data now, Header.decode data = .ok h → C (s.core txs) h data → P (s.core txs) →
    P ((ackPart s h now).1.core txs)
  sack : ∀ (s : StreamInner) txs h data, P (s.core txs) → P ((sackPart s h data).1.core txs)
  losses : ∀ (s : StreamInner) txs, P (s.core txs) → P (s.detectLosses.1.core txs)
  feed : ∀ (s : StreamInner) txs acked lostCount ctx, P (s.core txs) →
    P ((feedCongestion s acked lostCount ctx).core txs)
  fast : ∀ (s : StreamInner) txs now, P (s.core txs) →
    P ((s.fastRetransmit now).1.core (txs ++ resendTx (s.fastRetransmit now).1 (s.fastRetransmit now).2))

theorem CoreAckRule.ackSack {C : Core → Header → Bytes → Prop} {P : Core → Prop} (r : CoreAckRule C P)
    (s : StreamInner) (txs : List Tx) (h : Header) (data : Bytes) (ctx : Ctx) (hd : Header.decode data = .ok h)
    (hc : C (s.core txs) h data) (hP : P (s.core txs)) :
    P ((onAckSack s h data ctx).s.core (txs ++ (onAckSack s h data ctx).out.tx)) := by
  unfold onAckSack
  split
  · exact r.fast _ txs ctx.now (r.feed _ txs _ _ ctx (r.losses _ txs (r.sack _ txs h data
      (r.cum s txs h data ctx.now hd hc hP))))
  · rw [List.append_nil]
    exact r.rwnd s txs h.recvWindow hP

end Peeroxide.Udx
