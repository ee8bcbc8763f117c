import Peeroxide.Udx.Processor

/-!
# What the operations do

One description of each operation that loops, so that nothing after this module unfolds a loop.
-/

namespace Peeroxide.Udx
open Lib OrdMap List
namespace StreamInner

/-! ## Selective acknowledgements -/

/-- A packet after the selective acknowledgement of `seqs`. -/
def markSacked (seqs : List Nat) (e : Nat × SentPacket) : SentPacket :=
  if e.1 ∈ seqs then { e.2 with sacked := true } else e.2

variable (now : Instant) (es : List (Nat × SentPacket)) (a : AckScan) (seqs : List Nat)
variable (acc : StreamInner × List (Nat × PacketRateInfo)) (s : StreamInner) (ack : Nat)
variable (ranges : List SackRange)

theorem sackOne_fst (seq : Nat) :
    (sackOne acc seq).1 = { acc.1 with outgoing := acc.1.outgoing.mapVal (markSacked [seq]) } := by
  have hid (h : ∀ e ∈ acc.1.outgoing, markSacked [seq] e = e.2) :
      acc.1 = { acc.1 with outgoing := acc.1.outgoing.mapVal (markSacked [seq]) } := by
    rw [mapVal_eq_self h]
  unfold sackOne
  cases hg : acc.1.outgoing.get? seq with
  | none =>
    refine hid fun e he => if_neg fun hm => ?_
    rw [mem_singleton] at hm
    exact get?_eq_none.mp hg e.2 (hm ▸ he)
  | some pkt =>
    dsimp only
    split
    next hs =>
      refine hid fun e he => ?_
      unfold markSacked
      split
      next hm =>
        have hp := mem_unique (get?_eq_some.mp hg) (mem_singleton.mp hm ▸ he : (seq, e.2) ∈ _)
        subst hp
        rw [← hs]
      · rfl
    · have e : acc.1.outgoing.modify seq (fun p => { p with sacked := true }) =
          acc.1.outgoing.mapVal (markSacked [seq]) :=
        mapVal_congr fun e _ => by simp [markSacked]
      rw [e]

theorem foldl_sackOne_fst :
    (seqs.foldl sackOne acc).1 = { acc.1 with outgoing := acc.1.outgoing.mapVal (markSacked seqs) } := by
  induction seqs generalizing acc with
  | nil =>
    rw [mapVal_eq_self (fun e _ => by simp [markSacked])]
    rfl
  | cons q seqs ih =>
    rw [foldl_cons, ih, sackOne_fst]
    dsimp only
    rw [mapVal_mapVal]
    congr 1
    refine mapVal_congr fun e _ => ?_
    unfold markSacked
    by_cases h₁ : e.1 = q <;> by_cases h₂ : e.1 ∈ seqs <;> simp [h₁]

/-- `q` is sent and neither cumulatively nor selectively acknowledged. -/
def Unmarked (s : StreamInner) (q : Nat) : Prop := ∃ p, (q, p) ∈ s.outgoing ∧ p.sacked = false

theorem unmarked_markSacked (seqs : List Nat) (k : Nat) :
    Unmarked { s with outgoing := s.outgoing.mapVal (markSacked seqs) } k ↔ k ∉ seqs ∧ s.Unmarked k := by
  constructor
  · rintro ⟨p, hp, hs⟩
    obtain ⟨p', hp', he⟩ := mem_mapVal.mp hp
    dsimp only at hp' he
    unfold markSacked at he
    split at he
    · rw [← he] at hs
      cases hs
    next hk =>
      exact ⟨hk, p', hp', (congrArg SentPacket.sacked he).trans hs⟩
  · rintro ⟨hk, p, hp, hs⟩
    exact ⟨p, mem_mapVal.mpr ⟨p, hp, if_neg hk⟩, hs⟩

theorem sackOne_snd (q : Nat) (hinfo : ∀ e ∈ acc.1.outgoing, e.2.rateInfo.isSome) :
    acc.1.Unmarked q ∧ (∃ info, (sackOne acc q).2 = acc.2 ++ [(q, info)]) ∨
    ¬ acc.1.Unmarked q ∧ (sackOne acc q).2 = acc.2 := by
  unfold sackOne
  cases hg : acc.1.outgoing.get? q with
  | none => exact .inr ⟨fun ⟨p, hp, _⟩ => get?_eq_none.mp hg p hp, rfl⟩
  | some pkt =>
    have hq := get?_eq_some.mp hg
    cases hs : pkt.sacked with
    | true =>
      refine .inr ⟨fun ⟨p, hp, hf⟩ => ?_, by simp [hs]⟩
      rw [mem_unique hp hq, hs] at hf
      cases hf
    | false =>
      obtain ⟨info, hi⟩ := Option.isSome_iff_exists.mp (hinfo _ hq)
      exact .inl ⟨⟨pkt, hq, hs⟩, info, by simp [hs, show pkt.rateInfo = some info from hi]⟩

theorem foldl_sackOne_snd (hinfo : ∀ e ∈ acc.1.outgoing, e.2.rateInfo.isSome) :
    ∃ new, (seqs.foldl sackOne acc).2 = acc.2 ++ new ∧ (new.map Prod.fst).Nodup ∧
      ∀ q, q ∈ new.map Prod.fst ↔ q ∈ seqs ∧ acc.1.Unmarked q := by
  induction seqs generalizing acc with
  | nil => exact ⟨[], by simp⟩
  | cons q seqs ih =>
    rw [foldl_cons]
    have hinfo' : ∀ e ∈ (sackOne acc q).1.outgoing, e.2.rateInfo.isSome := by
      intro e he
      rw [sackOne_fst] at he
      obtain ⟨p, hp, hpe⟩ := mem_mapVal.mp he
      rw [← hpe]
      unfold markSacked
      split <;> exact hinfo _ hp
    obtain ⟨new, hnew, hnd, hmem⟩ := ih (sackOne acc q) hinfo'
    have hleft : ∀ k, (sackOne acc q).1.Unmarked k ↔ k ≠ q ∧ acc.1.Unmarked k := by
      intro k
      rw [sackOne_fst, unmarked_markSacked, mem_singleton]
    rcases sackOne_snd acc q hinfo with ⟨hq, info, h₂⟩ | ⟨hq, h₂⟩
    · refine ⟨(q, info) :: new, by rw [hnew, h₂, append_assoc, singleton_append], ?_, fun k => ?_⟩
      · rw [map_cons, nodup_cons, hmem, hleft]
        exact ⟨fun h => h.2.1 rfl, hnd⟩
      · rw [map_cons, mem_cons, hmem, hleft]
        by_cases hk : k = q
        · simp [hk, hq]
        · simp [hk]
    · refine ⟨new, by rw [hnew, h₂], hnd, fun k => ?_⟩
      rw [hmem, hleft]
      by_cases hk : k = q
      · simp [hk, hq]
      · simp [hk]

theorem onSack_snd (hinfo : ∀ e ∈ s.outgoing, e.2.rateInfo.isSome) : ((s.onSack ranges).2.map Prod.fst).Nodup ∧
      ∀ q, q ∈ (s.onSack ranges).2.map Prod.fst ↔ q ∈ sackSeqs ranges ∧ s.Unmarked q := by
  obtain ⟨new, hnew, hnd, hmem⟩ := foldl_sackOne_snd (sackSeqs ranges) (s, []) hinfo
  rw [onSack, hnew]
  exact ⟨hnd, hmem⟩

/-! ## Cumulative acknowledgements -/

/-- `s'` is `s` except for the round-trip estimate, the MTU search, and the parts of the controller that neither count
deliveries nor mark recovery. -/
structure ScanKeeps (s s' : StreamInner) : Prop where
  eq : s' = { s with
    srtt := s'.srtt, rttvar := s'.rttvar, rto := s'.rto, mtuState := s'.mtuState, mtu := s'.mtu,
    mtuProbeSize := s'.mtuProbeSize, mtuProbeCount := s'.mtuProbeCount, mtuProbeWanted := s'.mtuProbeWanted,
    congestion := s'.congestion }
  congestion : s.congestion.Keeps s'.congestion

theorem ScanKeeps.refl : ScanKeeps s s := ⟨rfl, .refl _⟩

theorem ScanKeeps.trans {a b c : StreamInner} (hab : ScanKeeps a b) (hbc : ScanKeeps b c) : ScanKeeps a c := by
  refine ⟨?_, hab.congestion.trans hbc.congestion⟩
  have h := hbc.eq
  rw [hab.eq] at h
  exact h

theorem scanKeeps_onMtuProbeAcked : ScanKeeps s s.onMtuProbeAcked :=
  ⟨rfl, CongestionController.keeps_onMtuChange _ _ _⟩

theorem scanKeeps_one (e : Nat × SentPacket) : ScanKeeps a.s (a.one now e).s := by
  have h₁ : ScanKeeps a.s (if !a.rttMeasured && e.2.retransmitCount == 0 then
      a.s.updateRtt (asMillis32 (now - e.2.timeSent)) else a.s) := by
    split
    · exact ⟨rfl, .refl _⟩
    · exact .refl _
  unfold AckScan.one
  dsimp only
  generalize (if !a.rttMeasured && e.2.retransmitCount == 0 then _ else _) = s₁ at h₁ ⊢
  split
  · exact h₁.trans (scanKeeps_onMtuProbeAcked _)
  · exact h₁

theorem scanKeeps_foldl : ScanKeeps a.s (es.foldl (AckScan.one now) a).s :=
  es.foldlRecOn _ (motive := fun b => ScanKeeps a.s b.s) (.refl _) fun b h e _ => h.trans (scanKeeps_one now b e)

theorem foldl_one_acked (hinfo : ∀ e ∈ es, e.2.rateInfo.isSome) :
    (es.foldl (AckScan.one now) a).acked.map Prod.fst = a.acked.map Prod.fst ++ es.map Prod.fst := by
  induction es generalizing a with
  | nil => simp
  | cons e es ih =>
    obtain ⟨info, hi⟩ := Option.isSome_iff_exists.mp (hinfo e mem_cons_self)
    rw [foldl_cons, ih _ fun e he => hinfo e (mem_cons_of_mem _ he)]
    simp [AckScan.one, hi]

theorem ackScan_keeps (now : Instant) :
    ScanKeeps { s with remoteAcked := ack, outgoing := s.outgoing.filter (fun e => ack ≤ e.1) } (s.ackScan ack now).s := by
  exact scanKeeps_foldl now _ ⟨_, false, []⟩

theorem ackScan_acked (now : Instant) (hinfo : ∀ e ∈ s.outgoing, e.2.rateInfo.isSome) :
    (s.ackScan ack now).acked.map Prod.fst = (s.outgoing.filter (fun e => e.1 < ack)).keys := by
  unfold ackScan
  rw [foldl_one_acked]
  · rfl
  · intro e he
    exact hinfo e (OrdMap.mem_filter.mp he).1

/-- The stream takes the cumulative acknowledgement of this header. -/
def accepts (s : StreamInner) (h : Header) : Bool := 0 < h.ack && seqAfter h.ack s.remoteAcked

end StreamInner

open StreamInner

variable (s : StreamInner) (acked : List (Nat × PacketRateInfo)) (lostCount : Nat) (packet : Bytes)
variable (q : QueuedPacket) (h : Header) (data : Bytes) (ctx : Ctx) (now : Instant)

theorem ackPart_of_not (ha : s.accepts h = false) :
    ackPart s h now = ({ s with sendRwnd := h.recvWindow }, [], []) := by
  unfold ackPart
  split
  next h0 =>
    unfold onCumulativeAck
    have : seqAfter h.ack s.remoteAcked = false := by simpa [accepts, h0] using ha
    rw [if_pos (by simpa using this)]
  · rfl

theorem ackPart_of_accepts (ha : s.accepts h = true) : ackPart s h now =
      ({ (ackScan { s with sendRwnd := h.recvWindow } h.ack now).s with
          rtoTimeouts := 0, pendingWrites := s.pendingWrites.filter (fun w => h.ack < w.ackThreshold) },
        (s.pendingWrites.filter (fun w => w.ackThreshold ≤ h.ack)).filterMap PendingWrite.tx,
        (ackScan { s with sendRwnd := h.recvWindow } h.ack now).acked) := by
  obtain ⟨h0, h1⟩ := Bool.and_eq_true_iff.mp ha
  have hk := ackScan_keeps { s with sendRwnd := h.recvWindow } h.ack now
  have hp : (ackScan { s with sendRwnd := h.recvWindow } h.ack now).s.pendingWrites = s.pendingWrites := by
    rw [hk.eq]
  unfold ackPart
  rw [if_pos (by simpa using h0)]
  unfold onCumulativeAck
  rw [if_neg (by simpa using h1)]
  dsimp only
  rw [hp]

theorem ackPart_outgoing (ha : s.accepts h = true) :
    (ackPart s h now).1.outgoing = s.outgoing.filter (fun e => h.ack ≤ e.1) := by
  rw [ackPart_of_accepts s h now ha]
  exact congrArg StreamInner.outgoing (ackScan_keeps { s with sendRwnd := h.recvWindow } h.ack now).eq

/-- The sequence numbers a packet acknowledges selectively. -/
def packetSacks (h : Header) (data : Bytes) : List Nat := ((incomingSack h data).map sackSeqs).getD []

theorem sackPart_fst :
    (sackPart s h data).1 = { s with outgoing := s.outgoing.mapVal (markSacked (packetSacks h data)) } := by
  unfold sackPart packetSacks
  cases incomingSack h data with
  | none =>
    rw [mapVal_eq_self (fun e _ => by simp [markSacked])]
  | some ranges => exact foldl_sackOne_fst _ _

theorem sackPart_snd (hinfo : ∀ e ∈ s.outgoing, e.2.rateInfo.isSome) : ((sackPart s h data).2.map Prod.fst).Nodup ∧
      ∀ q, q ∈ (sackPart s h data).2.map Prod.fst ↔ q ∈ packetSacks h data ∧ s.Unmarked q := by
  unfold sackPart packetSacks
  cases incomingSack h data with
  | none => simp
  | some ranges => exact onSack_snd s ranges hinfo

/-! ## Losses -/

theorem foldl_onPacketLost (lost : List Nat) (c : CongestionController) :
    (lost.foldl (fun c _ => c.onPacketLost) c).delivered = c.delivered ∧
    (lost.foldl (fun c _ => c.onPacketLost) c).highSeq = c.highSeq ∧
    (lost.foldl (fun c _ => c.onPacketLost) c).caState =
      if lost ≠ [] ∧ c.caState = .opened then .recovery else c.caState := by
  induction lost generalizing c with
  | nil => simp
  | cons q lost ih =>
    obtain ⟨h₁, h₂, h₃⟩ := ih c.onPacketLost
    rw [foldl_cons, h₁, h₂, h₃]
    unfold CongestionController.onPacketLost
    by_cases ho : c.caState = .opened <;> simp [ho]

namespace StreamInner

variable (s : StreamInner)

theorem lossCongestion_delivered : s.lossCongestion.delivered = s.congestion.delivered := by
  have h := (foldl_onPacketLost s.lostSeqs s.congestion).1
  unfold lossCongestion
  dsimp only
  split
  · split
    · exact h
    · exact h
  · exact h

theorem lossCongestion_keeps (h : s.lostSeqs = [] ∨ s.congestion.caState ≠ .opened) :
    s.congestion.Keeps s.lossCongestion := by
  obtain ⟨h₁, h₂, h₃⟩ := foldl_onPacketLost s.lostSeqs s.congestion
  have hn : ¬ (s.lostSeqs ≠ [] ∧ s.congestion.caState = .opened) := fun ⟨a, b⟩ => h.elim a (fun c => c b)
  rw [if_neg hn] at h₃
  unfold lossCongestion
  have hc : ¬ (s.congestion.caState = .opened ∧
      (s.lostSeqs.foldl (fun c _ => c.onPacketLost) s.congestion).caState = .recovery) := by
    rw [h₃]
    rintro ⟨a, b⟩
    rw [a] at b
    cases b
  split
  · rw [if_neg hc]
    exact ⟨h₁, h₃, h₂⟩
  · exact ⟨h₁, h₃, h₂⟩

theorem lossCongestion_recovery (hl : s.lostSeqs ≠ []) (ho : s.congestion.caState = .opened) :
    s.lossCongestion.caState = .recovery ∧ s.outgoing.lastKey? = some s.lossCongestion.highSeq := by
  obtain ⟨-, -, h₃⟩ := foldl_onPacketLost s.lostSeqs s.congestion
  rw [if_pos ⟨hl, ho⟩] at h₃
  have hmem : ∃ e, e ∈ s.outgoing := by
    obtain ⟨q, hq⟩ := exists_mem_of_ne_nil _ hl
    unfold lostSeqs at hq
    split at hq
    · cases hq
    · obtain ⟨p, hp⟩ := OrdMap.mem_keys.mp hq
      exact ⟨_, (OrdMap.mem_filter.mp hp).1⟩
  obtain ⟨e, he⟩ := hmem
  obtain ⟨k, hk⟩ := lastKey?_of_mem he
  unfold lossCongestion
  simp only [hk, if_pos (And.intro ho h₃)]
  exact ⟨h₃, trivial⟩

/-! ## Receiving -/

theorem drainRecv_frame (fuel : Nat) (s : StreamInner) (events : List StreamEvent) :
    (drainRecv fuel s events).1 = { s with
      recvBuf := (drainRecv fuel s events).1.recvBuf, nextRemoteSeq := (drainRecv fuel s events).1.nextRemoteSeq } := by
  induction fuel generalizing s events with
  | zero => rfl
  | succ fuel ih =>
    unfold drainRecv
    split
    · exact ih _ _
    · rfl

theorem receiveData_frame (seq : Nat) (payload : Bytes) (flags : UInt8) :
    (s.receiveData seq payload flags).1 = { s with
      recvBuf := (s.receiveData seq payload flags).1.recvBuf
      nextRemoteSeq := (s.receiveData seq payload flags).1.nextRemoteSeq } := by
  unfold receiveData
  split
  · rfl
  · split
    · exact drainRecv_frame _ _ _
    · rfl

end StreamInner

/-! ## Sending -/

theorem startSearch_eq : startSearch s packet = s ∨ s.mtuState = .base ∧ isDataPacket packet = true ∧
      startSearch s packet = { s with mtuState := .search, mtuProbeWanted := true } := by
  unfold startSearch
  split
  next h =>
    simp only [Bool.and_eq_true, beq_iff_eq] at h
    exact .inr ⟨h.2, h.1, rfl⟩
  · exact .inl rfl

theorem tryProbe_eq : tryProbe s packet = (s, packet, false) ∨
    s.mtuProbeWanted = true ∧ isDataPacket packet = true ∧ packet.length < s.mtuProbeSize ∧
      s.mtuProbeSize - packet.length ≤ 255 ∧ tryProbe s packet =
        ({ s with mtuProbeWanted := false }, insertPadding packet (s.mtuProbeSize - packet.length), true) := by
  unfold tryProbe
  split
  next h =>
    simp only [Bool.and_eq_true] at h
    have hlen : HEADER_SIZE ≤ packet.length := by
      have := h.1.1
      simp only [isDataPacket, Bool.and_eq_true, decide_eq_true_eq] at this
      exact this.1
    unfold mtuProbeifyPacket
    rw [if_neg (by omega)]
    by_cases h₁ : s.mtuProbeSize ≤ packet.length
    · rw [if_pos h₁]
      exact .inl rfl
    · rw [if_neg h₁]
      by_cases h₂ : 255 < s.mtuProbeSize - packet.length
      · rw [if_pos h₂]
        exact .inl rfl
      · rw [if_neg h₂]
        exact .inr ⟨h.2, h.1.1, by omega, by omega, rfl⟩
  · exact .inl rfl

theorem sendOne_eq : ∃ c info, s.congestion.Keeps c ∧
      (sendOne s q now).1 = { (tryProbe (startSearch s q.packet) q.packet).1 with
        congestion := c
        outgoing := s.outgoing.insert q.seq ⟨(tryProbe (startSearch s q.packet) q.packet).2.1, now, 0, false,
          (tryProbe (startSearch s q.packet) q.packet).2.2, false, some info⟩ } ∧
      (sendOne s q now).2 = ⟨q.seq, (tryProbe (startSearch s q.packet) q.packet).2.1, q.remoteAddr, false⟩ := by
  set r := tryProbe (startSearch s q.packet) q.packet with hr
  have hc : r.1.congestion = s.congestion ∧ r.1.outgoing = s.outgoing := by
    rw [hr]
    rcases tryProbe_eq (startSearch s q.packet) q.packet with e | ⟨-, -, -, -, e⟩ <;>
      rcases startSearch_eq s q.packet with e' | ⟨-, -, e'⟩ <;> rw [e, e'] <;> exact ⟨rfl, rfl⟩
  have hk := CongestionController.keeps_onPacketSent r.1.congestion r.1.inflight now
  refine ⟨(sendOne s q now).1.congestion, (r.1.congestion.onPacketSent r.1.inflight now).2, ?_, ?_, rfl⟩
  · rw [← hc.1]
    exact { hk with }
  · rw [← hc.2]
    rfl

/-! ## What acknowledgements and retransmissions leave alone -/

/-- The part of a stream that acknowledgements and retransmissions do not touch. -/
structure Rest where
  remoteId : Nat
  remoteAddr : Option SocketAddr
  connected : Bool
  ended : Bool
  nextSeq : Nat
  nextRemoteSeq : Nat
  recvBuf : OrdMap Nat RecvdPacket
  udp : Bool
  closeTx : Bool
  notifyTx : Bool
  sendQueue : List QueuedPacket
  relayTarget : Bool
  firewallHook : Option FirewallHook
  firewallSocket : Bool

def StreamInner.rest (s : StreamInner) : Rest :=
  ⟨s.remoteId, s.remoteAddr, s.connected, s.ended, s.nextSeq, s.nextRemoteSeq, s.recvBuf, s.udp, s.closeTx, s.notifyTx,
    s.sendQueue, s.relayTarget, s.firewallHook, s.firewallSocket⟩

theorem StreamInner.ScanKeeps.rest {s s' : StreamInner} (h : ScanKeeps s s') : s'.rest = s.rest := by
  rw [h.eq]
  rfl

theorem ackPart_rest : (ackPart s h now).1.rest = s.rest := by
  cases ha : s.accepts h with
  | false =>
    rw [ackPart_of_not s h now ha]
    rfl
  | true =>
    rw [ackPart_of_accepts s h now ha]
    exact (ackScan_keeps { s with sendRwnd := h.recvWindow } h.ack now).rest

theorem sackPart_rest : (sackPart s h data).1.rest = s.rest := by
  rw [sackPart_fst]
  rfl

theorem scanAcks_rest : (scanAcks s h data now).1.rest = s.rest :=
  (sackPart_rest _ h data).trans (ackPart_rest s h now)

theorem feedCongestion_rest : (feedCongestion s acked lostCount ctx).rest = s.rest := by
  unfold feedCongestion
  split <;> rfl

theorem onAckSack_rest : (onAckSack s h data ctx).s.rest = s.rest := by
  unfold onAckSack
  split
  · exact (feedCongestion_rest _ _ _ ctx).trans (scanAcks_rest s h data ctx.now)
  · rfl

theorem startSearch_rest : (startSearch s packet).rest = s.rest := by
  rcases startSearch_eq s packet with e | ⟨-, -, e⟩ <;> rw [e]
  rfl

theorem tryProbe_rest : (tryProbe s packet).1.rest = s.rest := by
  rcases tryProbe_eq s packet with e | ⟨-, -, -, -, e⟩ <;> rw [e]
  rfl

theorem sendOne_rest : (sendOne s q now).1.rest = s.rest :=
  (tryProbe_rest _ _).trans (startSearch_rest _ _)

theorem sendOne_pending :
    (sendOne s q now).1.pendingWrites = s.pendingWrites ∧ (sendOne s q now).1.remoteAcked = s.remoteAcked := by
  obtain ⟨c, info, -, e, -⟩ := sendOne_eq s q now
  rw [e]
  rcases tryProbe_eq (startSearch s q.packet) q.packet with e | ⟨-, -, -, -, e⟩ <;> rw [e] <;>
    rcases startSearch_eq s q.packet with e' | ⟨-, -, e'⟩ <;> rw [e'] <;> exact ⟨rfl, rfl⟩

/-- A retransmission timeout does nothing, gives the stream up, or sends again what is not acknowledged. -/
theorem onRto_cases : onRto s now = { s := s } ∨
    (∃ completed, onRto s now =
      ⟨{ s with rtoTimeouts := s.rtoTimeouts + 1, pendingWrites := [] }, { completed := completed }, true⟩) ∨
    ∃ maxSeq, s.outgoing.lastKey? = some maxSeq ∧ onRto s now =
      ⟨((rtoBackoff s maxSeq).packetsToRetransmit now).1,
        { tx := resendTx ((rtoBackoff s maxSeq).packetsToRetransmit now).1
            ((rtoBackoff s maxSeq).packetsToRetransmit now).2 }, false⟩ := by
  unfold onRto
  split
  · exact .inl rfl
  next maxSeq hm =>
    split
    · exact .inr (.inl ⟨_, rfl⟩)
    · exact .inr (.inr ⟨maxSeq, hm, rfl⟩)

theorem onAckSack_control : (onAckSack s h data ctx).out.control = [] := by
  unfold onAckSack
  split <;> rfl

theorem onAckSack_events : (onAckSack s h data ctx).out.events = [] := by
  unfold onAckSack
  split <;> rfl

theorem onRto_events : (onRto s now).out.events = [] := by
  rcases onRto_cases s now with e | ⟨completed, e⟩ | ⟨maxSeq, -, e⟩ <;> rw [e]

theorem onRto_control : (onRto s now).out.control = [] := by
  rcases onRto_cases s now with e | ⟨completed, e⟩ | ⟨maxSeq, -, e⟩ <;> rw [e]

theorem onRto_completed : ∀ p ∈ (onRto s now).out.completed, p.2 ≠ .acked := by
  unfold onRto
  split
  · intro p hp
    cases hp
  · split
    · intro p hp
      obtain ⟨ch, -, rfl⟩ := mem_map.mp hp
      intro h
      cases h
    · intro p hp
      cases hp

theorem onRto_pending :
    (onRto s now).s.remoteAcked = s.remoteAcked ∧ ∀ w ∈ (onRto s now).s.pendingWrites, w ∈ s.pendingWrites := by
  rcases onRto_cases s now with e | ⟨completed, e⟩ | ⟨maxSeq, -, e⟩ <;> rw [e]
  · exact ⟨rfl, fun _ h => h⟩
  · exact ⟨rfl, fun _ h => by cases h⟩
  · exact ⟨rfl, fun _ h => h⟩

theorem scanAcks_pending : (scanAcks s h data now).1.pendingWrites = (ackPart s h now).1.pendingWrites ∧
    (scanAcks s h data now).1.remoteAcked = (ackPart s h now).1.remoteAcked := by
  constructor
  · show (sackPart (ackPart s h now).1 h data).1.pendingWrites = _
    rw [sackPart_fst]
  · show (sackPart (ackPart s h now).1 h data).1.remoteAcked = _
    rw [sackPart_fst]

theorem feedCongestion_pending : (feedCongestion s acked lostCount ctx).pendingWrites = s.pendingWrites ∧
    (feedCongestion s acked lostCount ctx).remoteAcked = s.remoteAcked := by
  unfold feedCongestion
  split <;> exact ⟨rfl, rfl⟩

theorem onAckSack_of_not (ha : s.accepts h = false) : (onAckSack s h data ctx).s.pendingWrites = s.pendingWrites ∧
    (onAckSack s h data ctx).s.remoteAcked = s.remoteAcked ∧ (onAckSack s h data ctx).out.completed = [] := by
  unfold onAckSack
  split
  · have hs := scanAcks_pending s h data ctx.now
    have hp := ackPart_of_not s h ctx.now ha
    rw [hp] at hs
    refine ⟨(feedCongestion_pending ..).1.trans hs.1, (feedCongestion_pending ..).2.trans hs.2, ?_⟩
    dsimp only [scanAcks]
    rw [hp]
    rfl
  · exact ⟨rfl, rfl, rfl⟩

theorem onAckSack_of_accepts (ha : s.accepts h = true) :
    (onAckSack s h data ctx).s.pendingWrites = s.pendingWrites.filter (fun w => h.ack < w.ackThreshold) ∧
    (onAckSack s h data ctx).s.remoteAcked = h.ack ∧ (onAckSack s h data ctx).out.completed =
      ((s.pendingWrites.filter (fun w => w.ackThreshold ≤ h.ack)).filterMap PendingWrite.tx).map (fun ch => (ch, .acked)) := by
  have h0 : 0 < h.ack := by
    have := (Bool.and_eq_true_iff.mp ha).1
    simpa using this
  unfold onAckSack
  rw [if_pos (.inl h0)]
  have hs := scanAcks_pending s h data ctx.now
  have hp := ackPart_of_accepts s h ctx.now ha
  have hk := ackScan_keeps { s with sendRwnd := h.recvWindow } h.ack ctx.now
  rw [hp] at hs
  refine ⟨(feedCongestion_pending ..).1.trans hs.1, ((feedCongestion_pending ..).2.trans hs.2).trans (congrArg StreamInner.remoteAcked hk.eq), ?_⟩
  dsimp only [scanAcks]
  rw [hp]

theorem onData_control : (onData s h data).out.control = [] ∨
    (onData s h data).out.control = sendAck (onData s h data).s (onData s h data).s.sackRanges := by
  unfold onData
  split
  · exact .inr rfl
  · exact .inl rfl

theorem onRto_rest : (onRto s now).s.rest = s.rest := by
  rcases onRto_cases s now with e | ⟨completed, e⟩ | ⟨maxSeq, -, e⟩ <;> rw [e] <;> rfl

/-! ## The guard of writes -/

/-- A stream takes a write when it is connected or listening, not ended, and has a socket. -/
def StreamInner.writable (s : StreamInner) : Bool := (s.connected || s.firewallHook.isSome) && !s.ended && s.udp

theorem prepareWrite_of_writable {s : StreamInner} (hw : s.writable = true) (len ch : Nat) :
    ∃ prep, (s.prepareWrite len ch).2 = .ok prep := by
  unfold writable at hw
  simp only [Bool.and_eq_true, Bool.or_eq_true, Bool.not_eq_true'] at hw
  obtain ⟨⟨hc, he⟩, hu⟩ := hw
  have hopen : (!s.connected && s.firewallHook.isNone) = false := by
    rcases hc with hc | hc
    · rw [hc]
      rfl
    · rw [Option.isNone_eq_false_iff.mpr hc, Bool.and_false]
  unfold prepareWrite
  rw [hopen, he, hu]
  exact ⟨_, rfl⟩

theorem prepareWrite_of_not_writable {s : StreamInner} (hw : s.writable = false) (len ch : Nat) :
    ∃ err, s.prepareWrite len ch = (s, .error err) := by
  unfold prepareWrite
  by_cases hopen : (!s.connected && s.firewallHook.isNone) = true
  · rw [if_pos hopen]
    exact ⟨_, rfl⟩
  · rw [if_neg hopen]
    by_cases he : s.ended = true
    · rw [if_pos he]
      exact ⟨_, rfl⟩
    · rw [if_neg he]
      -- what is left of the guard is the socket
      have hu : s.udp = false := by
        unfold writable at hw
        cases hc : s.connected <;> cases hh : s.firewallHook <;> cases hd : s.ended <;> simp_all
      rw [hu]
      exact ⟨_, rfl⟩

end Peeroxide.Udx
