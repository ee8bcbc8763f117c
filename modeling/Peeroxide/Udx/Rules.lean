import Peeroxide.Udx.Spec
import Peeroxide.Udx.System

/-!
# Rules for steps of a stream

What a property of the system has to survive to hold in every reachable state, one premise for each handler of the
processor and for each call. `Sys.apply` runs a handler and records its effects.
-/

namespace Peeroxide.Udx
open Lib

theorem Effects.append_def (a b : Effects) :
    a ++ b = ⟨a.tx ++ b.tx, a.control ++ b.control, a.events ++ b.events, a.completed ++ b.completed⟩ := rfl

namespace Sys

def apply (y : Sys) (t : Turn) : Sys := { y with inner := t.s }.record t.out

def setInner (y : Sys) (s : StreamInner) : Sys := { y with inner := s }

def hookTaken (y : Sys) : Sys := y.setInner { y.inner with firewallHook := none, firewallSocket := false }

/-- The state of a stream whose firewall hook has accepted `addr`. -/
def hookAccepted (y : Sys) (addr : SocketAddr) : Sys :=
  y.setInner { y.inner with
    firewallHook := none
    firewallSocket := false
    remoteAddr := some addr
    connected := true
    sendQueue := y.inner.sendQueue.map (fun q =>
      if q.remoteAddr = .unspecified then { q with remoteAddr := addr } else q) }

variable (y : Sys)

theorem record_append (a b : Effects) : (y.record a).record b = y.record (a ++ b) := by
  simp only [record, Effects.append_def, List.append_assoc]

@[simp] theorem record_nil : y.record {} = y := by simp [record]

@[simp] theorem apply_inner (t : Turn) : (y.apply t).inner = t.s := rfl

theorem apply_quiet (s : StreamInner) (b : Bool) : y.apply ⟨s, {}, b⟩ = y.setInner s := by
  simp [apply, setInner]

theorem apply_three (a b c : Turn) :
    y.apply ⟨c.s, a.out ++ b.out ++ c.out, c.stop⟩ = ((y.apply a).apply b).apply c := by
  unfold apply
  rw [← record_append, ← record_append]
  rfl

theorem apply_append (a b : Turn) : y.apply ⟨b.s, a.out ++ b.out, b.stop⟩ = (y.apply a).apply b := by
  unfold apply
  rw [← record_append]
  rfl

end Sys

open Sys

variable (s : StreamInner)

theorem firewallGate_cases (h : Header) (addr : SocketAddr) :
    firewallGate s h addr = .pass s ∧ s.connected = true ∨ firewallGate s h addr = .drop s ∨
    (s.connected = false ∧ isPlausibleFirstPacket h = true ∧
      (firewallGate s h addr = .drop { s with firewallHook := none, firewallSocket := false } ∨
       firewallGate s h addr = .reject { s with firewallHook := none, firewallSocket := false } ∨
       firewallGate s h addr = .pass { s with
          firewallHook := none
          firewallSocket := false
          remoteAddr := some addr
          connected := true
          sendQueue := s.sendQueue.map (fun q =>
            if q.remoteAddr = .unspecified then { q with remoteAddr := addr } else q) })) := by
  unfold firewallGate
  by_cases hc : s.connected = true
  · exact .inl ⟨if_pos hc, hc⟩
  · rw [if_neg hc]
    by_cases hp : isPlausibleFirstPacket h = true
    · rw [if_neg (by simp [hp])]
      refine .inr (.inr ⟨by simpa using hc, hp, ?_⟩)
      cases s.firewallHook with
      | none => exact .inl rfl
      | some hook =>
        cases s.firewallSocket with
        | false => exact .inl rfl
        | true =>
          by_cases ha : hook addr = true
          · exact .inr (.inr (if_pos ha))
          · exact .inr (.inl (if_neg ha))
    · rw [if_pos (by simpa using hp)]
      exact .inr (.inl rfl)

theorem finish_out (t : Turn) : finish t = ((finish { s := t.s }).1, t.out ++ (finish { s := t.s }).2) := by
  simp only [finish, Effects.append_def, List.append_nil, List.nil_append]

/-! ## The processor -/

/-- The packet whose acknowledgement fields a step handles: one that passes the gate of a stream that does not
relay. -/
def Sys.ackPacket (y : Sys) : Ev → Option (Header × Bytes)
  | .proc (.packet data addr) _ =>
    if y.proc.running then
      match Header.decode data with
      | .ok h =>
        match firewallGate y.inner h addr with
        | .pass s => if s.relayTarget then none else some (h, data)
        | _ => none
      | .error _ => none
    else none
  | _ => none

theorem mem_ackPacket {y : Sys} {e : Ev} {p : Header × Bytes} (h : p ∈ y.ackPacket e) :
    ∃ addr ctx, e = .proc (.packet p.2 addr) ctx ∧ Header.decode p.2 = .ok p.1 := by
  unfold ackPacket at h
  split at h
  next data addr ctx =>
    split at h
    · split at h
      next hd hdec =>
        split at h
        · split at h
          · cases h
          · cases h
            exact ⟨addr, ctx, rfl, hdec⟩
        · cases h
      · cases h
    · cases h
  · cases h

/-- The premises under which a turn of the processor preserves `J`, when each packet the stream handles itself is one
of `D` and meets `C` when its acknowledgement fields are read. -/
structure TurnRule (C : Sys → Header → Bytes → Prop) (D : Header → Bytes → Prop) (J : Sys → Prop) : Prop where
  gate : ∀ y addr h data, C y h data → C (y.hookAccepted addr) h data
  proc : ∀ y p, J y → J { y with proc := p }
  hookTaken : ∀ y, J y → J y.hookTaken
  hookAccepted : ∀ y addr, J y → J (y.hookAccepted addr)
  relay : ∀ y data dest, y.inner.relayTarget = true → J y → J (y.apply (relayPacket y.inner data dest))
  ackSack : ∀ y h data ctx, Header.decode data = .ok h → D h data → C y h data → J y →
    J (y.apply (onAckSack y.inner h data ctx))
  data : ∀ y h data, Header.decode data = .ok h → D h data → J y → J (y.apply (onData y.inner h data))
  destroy : ∀ y h data, Header.decode data = .ok h → D h data → h.hasFlag FLAG_DESTROY = true → J y →
    J (y.apply (onDestroy y.inner))
  heartbeat : ∀ y h, J y → J (y.apply (onHeartbeat y.inner h))
  pacing : ∀ y shuttingDown now, J y → J (y.apply (onPacing y.inner shuttingDown now))
  rto : ∀ y now, J y → J (y.apply (onRto y.inner now))
  keepalive : ∀ y, J y → J (y.apply (onKeepalive y.inner))
  finish : ∀ y, J y → J (y.apply ⟨(finish { s := y.inner }).1, (finish { s := y.inner }).2, true⟩)

variable {C : Sys → Header → Bytes → Prop} {D : Header → Bytes → Prop} {J : Sys → Prop}

namespace TurnRule

theorem onStreamPacket (r : TurnRule C D J) (y : Sys) (h : Header) (data : Bytes) (ctx : Ctx)
    (hd : Header.decode data = .ok h) (hD : D h data) (hc : C y h data) (hJ : J y) :
    J (y.apply (onStreamPacket y.inner h data ctx)) := by
  have ha := r.ackSack y h data ctx hd hD hc hJ
  have hdat := r.data _ h data hd hD ha
  unfold Udx.onStreamPacket
  dsimp only
  rw [apply_three]
  split
  next hdes =>
    exact r.destroy _ h data hd hD hdes hdat
  · exact r.heartbeat _ h hdat

theorem onPacket (r : TurnRule C D J) (y : Sys) (data : Bytes) (addr : SocketAddr) (ctx : Ctx)
    (hr : y.proc.running = true) (hc : ∀ p ∈ y.ackPacket (.proc (.packet data addr) ctx), D p.1 p.2 ∧ C y p.1 p.2) (hJ : J y) :
    J (y.apply (onPacket y.inner data addr ctx)) := by
  unfold Udx.onPacket
  unfold ackPacket at hc
  dsimp only at hc
  rw [if_pos hr] at hc
  cases hd : Header.decode data with
  | error e =>
    rw [apply_quiet]
    exact hJ
  | ok h =>
    rw [hd] at hc
    dsimp only at hc ⊢
    -- past the gate the stream either relays or handles the packet itself
    have pass : ∀ z : Sys, J z → (z.inner.relayTarget = false → D h data ∧ C z h data) →
        J (z.apply (if z.inner.relayTarget then relayPacket z.inner data ctx.relay
          else Udx.onStreamPacket z.inner h data ctx)) := by
      intro z hz hcz
      by_cases hrel : z.inner.relayTarget = true
      · rw [if_pos hrel]
        exact r.relay z data ctx.relay hrel hz
      · rw [if_neg hrel]
        obtain ⟨hD, hC⟩ := hcz (by simpa using hrel)
        exact r.onStreamPacket z h data ctx hd hD hC hz
    rcases firewallGate_cases y.inner h addr with ⟨e, -⟩ | e | ⟨-, -, e | e | e⟩
    · rw [e] at hc ⊢
      exact pass y hJ fun hrel => hc (h, data) (by simp [hrel])
    · rw [e]
      dsimp only
      rw [apply_quiet]
      exact hJ
    · rw [e]
      dsimp only
      rw [apply_quiet]
      exact r.hookTaken y hJ
    · rw [e]
      dsimp only
      rw [apply_quiet]
      exact r.hookTaken y hJ
    · rw [e] at hc ⊢
      refine pass (y.hookAccepted addr) (r.hookAccepted y addr hJ) fun hrel => ?_
      have hrel' : y.inner.relayTarget = false := hrel
      obtain ⟨hD, hC⟩ := hc (h, data) (by simp [hrel'])
      exact ⟨hD, r.gate y addr h data hC⟩

theorem branch (r : TurnRule C D J) (y : Sys) (shuttingDown : Bool) (ctx : Ctx) (e : ProcEvent)
    (hr : y.proc.running = true) (hc : ∀ p ∈ y.ackPacket (.proc e ctx), D p.1 p.2 ∧ C y p.1 p.2) (hJ : J y) :
    J (y.apply (branch y.inner shuttingDown ctx e)) := by
  cases e with
  | packet data addr => exact r.onPacket y data addr ctx hr hc hJ
  | incomingClosed | notify n =>
    unfold Udx.branch
    rw [apply_quiet]
    exact hJ
  | pacing => exact r.pacing y shuttingDown ctx.now hJ
  | rto => exact r.rto y ctx.now hJ
  | keepalive => exact r.keepalive y hJ

theorem procTurn (r : TurnRule C D J) (y : Sys) (e : ProcEvent) (ctx : Ctx)
    (hc : ∀ p ∈ y.ackPacket (.proc e ctx), D p.1 p.2 ∧ C y p.1 p.2) (hJ : J y) : J (y.procTurn e ctx) := by
  unfold Sys.procTurn
  split
  next hr =>
    have hb := r.branch y y.proc.shuttingDown ctx e hr hc hJ
    unfold Proc.turn
    dsimp only
    split
    · have hf := r.proc _ { y.proc with running := false } (r.finish _ hb)
      have e := finish_out (Udx.branch y.inner y.proc.shuttingDown ctx e)
      rw [← apply_append] at hf
      rw [e]
      exact hf
    · exact r.proc _ _ hb
  · exact hJ

end TurnRule

/-! ## The whole system -/

/-- The premises under which the calls that send, and the turns, preserve `J`. -/
structure CallRule (C : Sys → Header → Bytes → Prop) (D : Header → Bytes → Prop) (J : Sys → Prop) : Prop
    extends TurnRule C D J where
  start : ∀ y registered, J y → J (y.startProcessor registered)
  connect : ∀ y (remoteId : UInt32) addr, J y → J (y.setInner { y.inner with
    remoteId := remoteId.toNat, remoteAddr := some addr, udp := true, connected := true, notifyTx := true })
  hook : ∀ y (remoteId : UInt32) hook, J y → J (y.setInner { y.inner with
    remoteId := remoteId.toNat, udp := true, notifyTx := true, firewallHook := some hook, firewallSocket := true })
  write : ∀ y data, J y → J (y.write data)
  shutdown : ∀ y, J y → J y.shutdown
  cut : ∀ y i, J y → J (y.cut i)
  queue : ∀ y i now, J y → J (y.queue i now)

/-- The premises under which every step of the system preserves `J`. -/
structure StepRule (C : Sys → Header → Bytes → Prop) (D : Header → Bytes → Prop) (J : Sys → Prop) : Prop
    extends CallRule C D J where
  relayTo : ∀ y, J y → J (y.setInner { y.inner with relayTarget := true })
  kill : ∀ y, J y → J y.destroy

theorem CallRule.step (r : CallRule C D J) (y : Sys) (e : Ev) (hrel : e ≠ .relayTo) (hkill : e ≠ .destroy)
    (hc : ∀ p ∈ y.ackPacket e, D p.1 p.2 ∧ C y p.1 p.2) (hJ : J y) : J (y.step e) := by
  cases e with
  | connect remoteId addr registered => exact r.start _ _ (r.connect y remoteId addr hJ)
  | setFirewallHook remoteId hook registered => exact r.start _ _ (r.hook y remoteId hook hJ)
  | relayTo => exact absurd rfl hrel
  | write data => exact r.write y data hJ
  | shutdown => exact r.shutdown y hJ
  | cut i => exact r.cut y i hJ
  | queue i now => exact r.queue y i now hJ
  | proc e ctx => exact r.toTurnRule.procTurn y e ctx hc hJ
  | destroy => exact absurd rfl hkill

theorem StepRule.step (r : StepRule C D J) (y : Sys) (e : Ev) (hc : ∀ p ∈ y.ackPacket e, D p.1 p.2 ∧ C y p.1 p.2)
    (hJ : J y) : J (y.step e) := by
  by_cases hrel : e = .relayTo
  · subst hrel
    exact r.relayTo y hJ
  · by_cases hkill : e = .destroy
    · subst hkill
      exact r.kill y hJ
    · exact r.toCallRule.step y e hrel hkill hc hJ

/-- **What every step preserves holds in every reachable state.** -/
theorem StepRule.after (r : StepRule (fun _ _ _ => True) (fun _ _ => True) J) (h₀ : J {}) (es : List Ev) :
    J (Sys.after es) :=
  run_invariant (fun y e hJ => r.step y e (fun _ _ => ⟨trivial, trivial⟩) hJ) h₀ es

/-! ## The flush -/

theorem keeps_flushAsk (front : QueuedPacket) (batched : Nat) (now : Instant) :
    s.congestion.Keeps (flushAsk s front batched now).1 := by
  unfold flushAsk
  dsimp only
  split
  · exact CongestionController.keeps_checkAppLimited _ _ _
  · exact (CongestionController.keeps_checkAppLimited _ _ _).trans ⟨rfl, rfl, rfl⟩

/-- One turn of the flush loop: it stops, or sends the head of the queue and goes on. In both cases it has only asked
the congestion controller. -/
theorem flushLoop_succ (now : Instant) (fuel : Nat) (s : StreamInner) (batch : List Tx) :
    (∃ c, s.congestion.Keeps c ∧ flushLoop now (fuel + 1) s batch = ({ s with congestion := c }, batch)) ∨
    ∃ c front rest, s.congestion.Keeps c ∧ s.sendQueue = front :: rest ∧
      flushLoop now (fuel + 1) s batch =
        flushLoop now fuel (sendOne { s with congestion := c, sendQueue := rest } front now).1
          (batch ++ [(sendOne { s with congestion := c, sendQueue := rest } front now).2]) := by
  rw [flushLoop]
  split
  · exact .inl ⟨s.congestion, .refl _, rfl⟩
  next front rest hq =>
    have hk := keeps_flushAsk s front batch.length now
    dsimp only
    split
    · exact .inr ⟨_, front, rest, hk, hq, rfl⟩
    · exact .inl ⟨_, hk, rfl⟩

theorem sendOne_udp (q : QueuedPacket) (now : Instant) : (sendOne s q now).1.udp = s.udp :=
  congrArg Rest.udp (sendOne_rest s q now)

/-- The premises under which the flush of the send queue preserves `J`. -/
structure FlushRule (J : Sys → Prop) : Prop where
  ask : ∀ y c, y.inner.congestion.Keeps c → J y → J (y.setInner { y.inner with congestion := c })
  send : ∀ y q rest now, y.inner.sendQueue = q :: rest → J y →
    J ((y.setInner (sendOne { y.inner with sendQueue := rest } q now).1).record
      { tx := if y.inner.udp then [(sendOne { y.inner with sendQueue := rest } q now).2] else [] })

namespace FlushRule

/-- The loop, packet by packet: what it sends is appended to the batch and recorded when there is a socket. -/
theorem flushLoop (r : FlushRule J) (now : Instant) (fuel : Nat) (y : Sys) (batch : List Tx) (hJ : J y) :
    ∃ new, (flushLoop now fuel y.inner batch).2 = batch ++ new ∧
      (Udx.flushLoop now fuel y.inner batch).1.udp = y.inner.udp ∧
      J ((y.setInner (Udx.flushLoop now fuel y.inner batch).1).record { tx := if y.inner.udp then new else [] }) := by
  induction fuel generalizing y batch with
  | zero => exact ⟨[], by simp [Udx.flushLoop], rfl, by simpa [Udx.flushLoop, setInner] using hJ⟩
  | succ fuel ih =>
    rcases flushLoop_succ now fuel y.inner batch with ⟨c, hk, e⟩ | ⟨c, front, rest, hk, hq, e⟩
    · rw [e]
      refine ⟨[], by simp, rfl, ?_⟩
      rw [ite_self, record_nil]
      exact r.ask y c hk hJ
    · rw [e]
      have h₁ := r.send (y.setInner { y.inner with congestion := c }) front rest now hq (r.ask y c hk hJ)
      generalize hsend : sendOne { y.inner with congestion := c, sendQueue := rest } front now = p
      have hu : p.1.udp = y.inner.udp := by rw [← hsend]; exact sendOne_udp _ _ _
      obtain ⟨new, hn, hu', h₂⟩ := ih ((y.setInner p.1).record { tx := if y.inner.udp then [p.2] else [] })
        (batch ++ [p.2]) (by rw [← hsend]; exact h₁)
      refine ⟨p.2 :: new, ?_, hu'.trans hu, ?_⟩
      · rw [← List.append_cons] at hn
        exact hn
      · have er : ∀ (s : StreamInner), (((y.setInner p.1).record { tx := if y.inner.udp then [p.2] else [] }).setInner
            s).record { tx := if p.1.udp then new else [] } =
            (y.setInner s).record { tx := if y.inner.udp then p.2 :: new else [] } := by
          intro s
          rw [hu]
          cases y.inner.udp <;> simp [setInner, record]
        exact er _ ▸ h₂

theorem onPacing (r : FlushRule J) (y : Sys) (shuttingDown : Bool) (now : Instant) (hJ : J y) :
    J (y.apply (onPacing y.inner shuttingDown now)) := by
  obtain ⟨new, hn, hu, h₁⟩ := r.flushLoop now y.inner.sendQueue.length y [] hJ
  unfold Udx.onPacing
  dsimp only [apply]
  rw [hu, hn, List.nil_append]
  exact h₁

end FlushRule
end Peeroxide.Udx
