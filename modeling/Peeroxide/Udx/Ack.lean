import Peeroxide.Udx.Issued

/-!
# What a completed write says

A write is completed with success when a cumulative acknowledgement reaches its threshold. Any `ack` after the last one
is taken, so nothing keeps a peer from acknowledging packets that were never sent.

Main result: `ack_soundness`.
-/

namespace Peeroxide.Udx
open Lib StreamInner Sys List

/-- If the step takes a cumulative acknowledgement, every number it covers was transmitted before. -/
def AcksTransmitted (y : Sys) (e : Ev) : Prop :=
  ∀ p ∈ y.ackPacket e, y.inner.accepts p.1 = true → ∀ q < p.1.ack, q ∈ y.transmitted

instance (y : Sys) (e : Ev) : Decidable (AcksTransmitted y e) := inferInstanceAs (Decidable (∀ p ∈ y.ackPacket e, _))

/-- Pending writes have the thresholds of their writes, and everything below the cumulative acknowledgement or below
the threshold of a write completed with success was transmitted. -/
structure AckInv (y : Sys) : Prop where
  pending : ∀ pw ∈ y.inner.pendingWrites, ∀ ch, pw.tx = some ch →
    ∃ w, y.writes[ch]? = some w ∧ w.ackThreshold = pw.ackThreshold
  covered : ∀ q < y.inner.remoteAcked, q ∈ y.transmitted
  acked : ∀ ch, (ch, .acked) ∈ y.completed → ∃ w, y.writes[ch]? = some w ∧ ∀ q < w.ackThreshold, q ∈ y.transmitted

theorem transmitted_record (y : Sys) (out : Effects) : ∀ q ∈ y.transmitted, q ∈ (y.record out).transmitted := by
  intro q hq
  unfold transmitted at hq ⊢
  dsimp only [record]
  rw [firstTxs_append]
  exact mem_append_left _ hq

/-- The invariant only looks at thresholds, and transmissions only add up. -/
theorem AckInv.mono {y y' : Sys} (h : AckInv y) (hw : ∀ (ch : Nat) (w : Write), y.writes[ch]? = some w →
      ∃ w' : Write, y'.writes[ch]? = some w' ∧ w'.ackThreshold = w.ackThreshold)
    (ht : ∀ q ∈ y.transmitted, q ∈ y'.transmitted) (hp : ∀ pw ∈ y'.inner.pendingWrites, pw ∈ y.inner.pendingWrites)
    (hr : y'.inner.remoteAcked = y.inner.remoteAcked)
    (hc : ∀ ch, (ch, .acked) ∈ y'.completed → (ch, .acked) ∈ y.completed) : AckInv y' := by
  refine ⟨fun pw hpw ch hch => ?_, fun q hq => ht q (h.covered q (hr ▸ hq)), fun ch hch => ?_⟩
  · obtain ⟨w, hw₁, hw₂⟩ := h.pending pw (hp pw hpw) ch hch
    obtain ⟨w', hw₃, hw₄⟩ := hw ch w hw₁
    exact ⟨w', hw₃, hw₄.trans hw₂⟩
  · obtain ⟨w, hw₁, hw₂⟩ := h.acked ch (hc ch hch)
    obtain ⟨w', hw₃, hw₄⟩ := hw ch w hw₁
    exact ⟨w', hw₃, fun q hq => ht q (hw₂ q (hw₄ ▸ hq))⟩

/-- A handler that takes no acknowledgement: it may drop pending writes and answer with errors. -/
theorem AckInv.apply {y : Sys} {t : Turn} (h : AckInv y) (hp : ∀ pw ∈ t.s.pendingWrites, pw ∈ y.inner.pendingWrites)
    (hr : t.s.remoteAcked = y.inner.remoteAcked) (hc : ∀ p ∈ t.out.completed, p.2 ≠ .acked) : AckInv (y.apply t) := by
  refine h.mono (fun _ w hm => ⟨w, hm, rfl⟩) (transmitted_record _ t.out) hp hr fun ch hm => ?_
  rcases mem_append.mp hm with hm | hm
  · exact hm
  · exact absurd rfl (hc _ hm)

theorem finish_completed (s : StreamInner) (control : List Datagram) :
    ∀ p ∈ (finish { s := s, out := { control := control } }).2.completed, p.2 ≠ .acked := by
  intro p hm e
  obtain ⟨ch, -, rfl⟩ := mem_map.mp hm
  cases e

theorem AckInv.ackSack {y : Sys} (hJ : AckInv y) (h : Header) (data : Bytes) (ctx : Ctx)
    (hc : y.inner.accepts h = true → ∀ q < h.ack, q ∈ y.transmitted) : AckInv (y.apply (onAckSack y.inner h data ctx)) := by
  cases ha : y.inner.accepts h with
  | false =>
    obtain ⟨h₁, h₂, h₃⟩ := onAckSack_of_not y.inner h data ctx ha
    exact hJ.apply (fun _ hm => h₁ ▸ hm) h₂ fun p hm => by rw [h₃] at hm; cases hm
  | true =>
    obtain ⟨h₁, h₂, h₃⟩ := onAckSack_of_accepts y.inner h data ctx ha
    have hkeep := transmitted_record (y.setInner (onAckSack y.inner h data ctx).s) (onAckSack y.inner h data ctx).out
    refine ⟨fun pw hpw ch hch => ?_, fun q hq => hkeep q (hc ha q (h₂ ▸ hq)), fun ch hch => ?_⟩
    · exact hJ.pending pw (mem_of_mem_filter (h₁ ▸ hpw)) ch hch
    · rcases mem_append.mp hch with hch | hch
      · obtain ⟨w, hw, hq⟩ := hJ.acked ch hch
        exact ⟨w, hw, fun q hlt => hkeep q (hq q hlt)⟩
      · rw [h₃] at hch
        obtain ⟨ch', hch', heq⟩ := mem_map.mp hch
        cases heq
        obtain ⟨pw, hpw, htx'⟩ := mem_filterMap.mp hch'
        obtain ⟨hm, hle⟩ := mem_filter.mp hpw
        obtain ⟨w, hw, hthr⟩ := hJ.pending pw hm ch htx'
        have hle' : pw.ackThreshold ≤ h.ack := by simpa using hle
        exact ⟨w, hw, fun q hq => hkeep q (hc ha q (by omega))⟩

theorem AckInv.snoc {y : Sys} (h : AckInv y) (w : Write) (s : StreamInner)
    (hp : s.pendingWrites = y.inner.pendingWrites ++ [⟨w.ackThreshold, some y.writes.length⟩])
    (hr : s.remoteAcked = y.inner.remoteAcked) : AckInv { y with inner := s, writes := y.writes ++ [w] } := by
  have hold : ∀ (ch : Nat) (v : Write), y.writes[ch]? = some v → (y.writes ++ [w])[ch]? = some v := by
    intro ch v hv
    rw [getElem?_append_left (List.getElem?_eq_some_iff.mp hv).1]
    exact hv
  refine ⟨fun pw hpw ch hch => ?_, fun q hq => h.covered q (hr ▸ hq), fun ch hch => ?_⟩
  · rcases mem_append.mp (hp ▸ hpw) with hpw | hpw
    · obtain ⟨v, hv, hthr⟩ := h.pending pw hpw ch hch
      exact ⟨v, hold ch v hv, hthr⟩
    · obtain rfl := mem_singleton.mp hpw
      cases hch
      exact ⟨w, getElem?_concat_length, rfl⟩
  · obtain ⟨v, hv, hq⟩ := h.acked ch hch
    exact ⟨v, hold ch v hv, hq⟩

theorem AckInv.set {y : Sys} (h : AckInv y) {i : Nat} {w : Write} (hw : y.writes[i]? = some w) (st : Stage) :
    AckInv { y with writes := y.writes.set i { w with stage := st } } := by
  refine h.mono (fun ch v hv => ?_) (fun _ hm => hm) (fun _ hm => hm) rfl (fun _ hm => hm)
  refine ⟨_, (getElem?_set_stage hw st ch).trans (congrArg _ hv), ?_⟩
  dsimp only
  split <;> rfl

theorem ackInv_stepRule : StepRule
    (fun y h _ => y.inner.accepts h = true → ∀ q < h.ack, q ∈ y.transmitted) (fun _ _ => True) AckInv where
  gate _ _ _ _ h := h
  proc _ _ h := { h with }
  hookTaken _ h := { h with }
  hookAccepted _ _ h := { h with }
  relay y data dest _ h := relay_ind y data dest fun _ _ _ => h.apply (fun _ hm => hm) rfl fun p hm => by cases hm
  ackSack y h data ctx _ _ hc hJ := hJ.ackSack h data ctx hc
  data y h data _ _ hJ := data_ind y h data fun _ _ _ _ => hJ.apply (fun _ hm => hm) rfl fun p hm => by cases hm
  destroy _ _ _ _ _ _ h := h.apply (fun _ hm => hm) rfl fun p hm => by cases hm
  heartbeat _ _ h := h.apply (fun _ hm => hm) rfl fun p hm => by cases hm
  pacing y shuttingDown now hJ := by
    have f : FlushRule AckInv := by
      refine ⟨fun z c _ h => { h with }, fun z q rest now _ h => ?_⟩
      obtain ⟨hp, hr⟩ := sendOne_pending { z.inner with sendQueue := rest } q now
      exact h.mono (fun _ w hm => ⟨w, hm, rfl⟩) (transmitted_record (z.setInner _) _) (fun _ hm => hp ▸ hm) hr
        fun ch hm => by simpa [record, setInner] using hm
    exact f.onPacing y shuttingDown now hJ
  rto y now h := h.apply (onRto_pending y.inner now).2 (onRto_pending y.inner now).1 (onRto_completed y.inner now)
  keepalive _ h := h.apply (fun _ hm => hm) rfl fun p hm => by cases hm
  finish y h := h.apply (fun _ hm => by cases hm) rfl (finish_completed y.inner [])
  start y registered h := y.start_ind registered fun _ _ => { h with }
  connect _ _ _ h := { h with }
  hook _ _ _ h := { h with }
  write y data h := y.write_ind data h fun _ _ _ => h.snoc (y.newWrite data) _ rfl rfl
  shutdown y h := y.shutdown_ind h { h with } fun addr _ _ _ _ => h.snoc (y.newEnd addr) _ rfl rfl
  cut y i h := y.cut_ind i h fun _ hw _ => h.set hw _
  queue y i now h := y.queue_ind i now h fun _ mp packets _ hw _ _ => { h.set hw (.queued mp packets) with }
  relayTo _ h := { h with }
  kill y h := by
    refine h.mono (fun _ w hm => ⟨w, hm, rfl⟩) (transmitted_record { y with inner := _, proc := _ } _)
      (fun _ hm => by cases hm) rfl fun ch hm => ?_
    rcases mem_append.mp hm with hm | hm
    · exact hm
    · exact absurd rfl (finish_completed { y.inner with closeTx := false } _ _ hm)

theorem ackInv_new : AckInv {} where
  pending pw hpw := by cases hpw
  covered q hq := absurd hq (Nat.not_lt_zero q)
  acked ch hch := by cases hch

/-- **Acknowledgement soundness.** In every run with fewer than `2 ^ 32` packets whose acknowledgements cover only
numbers transmitted before, the peer is never taken to have acknowledged more than was numbered, and a write completed
with success was transmitted in full. -/
theorem ack_soundness (es : List Ev) (hn : (after es).numbered < 2 ^ 32) (hc : Along Sys.step AcksTransmitted {} es) :
    (after es).inner.remoteAcked ≤ (after es).inner.nextSeq ∧ ∀ ch, (ch, .acked) ∈ (after es).completed →
      ∃ w, (after es).writes[ch]? = some w ∧ ∀ q ∈ w.reserved, q ∈ (after es).transmitted := by
  have hinv : AckInv (after es) := run_invariant_along
    (fun y e hJ hp => ackInv_stepRule.step y e (fun p hm => ⟨trivial, hp p hm⟩) hJ) ackInv_new hc
  have hs := sender_after es
  refine ⟨?_, fun ch hch => ?_⟩
  · rw [hs.ledger.next, wrap32_of_lt hn]
    by_contra hlt
    have := hs.transmitted_lt hn (hinv.covered (after es).numbered (by omega))
    omega
  · obtain ⟨w, hw, hq⟩ := hinv.acked ch hch
    refine ⟨w, hw, fun q hm => hq q ?_⟩
    rw [(hs.ledger.reserved_eq hn hw).2]
    exact (hs.ledger.mem_reserved hn hw hm).2

def ackedRun : List Ev :=
  .connect 1 loopback true :: writeNow [7] 0 ++ [.proc .pacing {}, .proc (.packet (pureAck 1) loopback) {}]

theorem ack_soundness_ackedRun :
    (0, .acked) ∈ (after ackedRun).completed ∧ (after ackedRun).inner.remoteAcked ≤ (after ackedRun).inner.nextSeq ∧
    ∀ ch, (ch, .acked) ∈ (after ackedRun).completed →
      ∃ w, (after ackedRun).writes[ch]? = some w ∧ ∀ q ∈ w.reserved, q ∈ (after ackedRun).transmitted :=
  ⟨by decide, ack_soundness ackedRun (by decide) (by decide)⟩

/-- An acknowledgement of packets that do not exist is taken: the write is reported successful although nothing was
sent. -/
theorem ack_soundness_fails :
    let run : List Ev := [.connect 1 loopback true, .write [7], .proc (.packet (pureAck 5) loopback) {}]
    (after run).numbered < 2 ^ 31 ∧ (after run).inner.nextSeq < (after run).inner.remoteAcked ∧
    (0, .acked) ∈ (after run).completed ∧ (after run).txs = [] := by
  decide

end Peeroxide.Udx
