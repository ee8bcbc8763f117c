import Peeroxide.Udx.Core

/-!
# The search for the path MTU

At most one probe is wanted or in flight, it has the size the search is at, and the MTU is raised only by the
acknowledgement of a packet that went out at that size and was not sent again.

Main result: `mtu_probing`.
-/

namespace Peeroxide.Udx
open Lib StreamInner Sys List OrdMap
variable {packet : Bytes} {s : StreamInner} {txs : List Tx} {y : Sys}

def probeCount (m : OrdMap Nat SentPacket) : Nat := m.entries.countP (fun e => e.2.isMtuProbe)

/-- The last time `q` went out it went out as `packet`, and that was its first transmission. -/
def LastSent (log : List Tx) (q : Nat) (packet : Bytes) : Prop :=
  ∃ before addr since, log = before ++ ⟨q, packet, addr, false⟩ :: since ∧ ∀ t ∈ since, t.seq ≠ q

theorem LastSent.append {log new : List Tx} {q : Nat} (h : LastSent log q packet)
    (hn : ∀ t ∈ new, t.seq ≠ q) : LastSent (log ++ new) q packet := by
  obtain ⟨before, addr, since, rfl, hs⟩ := h
  refine ⟨before, addr, since ++ new, by simp, fun t ht => ?_⟩
  rcases mem_append.mp ht with ht | ht
  · exact hs t ht
  · exact hn t ht

/-! ## An acknowledged probe -/

structure MtuView where
  state : MtuState
  mtu : Nat
  probeSize : Nat
  probeCount : Nat
  wanted : Bool
  max : Nat

def StreamInner.mtuView (s : StreamInner) : MtuView :=
  ⟨s.mtuState, s.mtu, s.mtuProbeSize, s.mtuProbeCount, s.mtuProbeWanted, s.mtuMax⟩

variable (now : Instant) (es : List (Nat × SentPacket)) (a : AckScan) (e : Nat × SentPacket)

theorem one_mtuView : (a.one now e).s.mtuView =
    if e.2.isMtuProbe = true ∧ a.s.mtuState = .search then a.s.onMtuProbeAcked.mtuView else a.s.mtuView := by
  unfold AckScan.one
  dsimp only
  split_ifs <;> simp_all [mtuView, onMtuProbeAcked, updateRtt]

theorem onMtuProbeAcked_congr {t : StreamInner} (h : s.mtuView = t.mtuView) :
    s.onMtuProbeAcked.mtuView = t.onMtuProbeAcked.mtuView := by
  simp_all [mtuView, onMtuProbeAcked]

theorem foldl_one_mtu_of_none
    (h : ∀ e ∈ es, e.2.isMtuProbe = false) : (es.foldl (AckScan.one now) a).s.mtuView = a.s.mtuView := by
  induction es generalizing a with
  | nil => rfl
  | cons e es ih =>
    rw [foldl_cons, ih _ fun e he => h e (mem_cons_of_mem _ he), one_mtuView, if_neg (by simp [h e mem_cons_self])]

/-- The loop over acknowledged packets, at most one of them a probe, leaves the search alone or takes the step of one
acknowledged probe. -/
theorem foldl_one_mtu (h : es.countP (fun e => e.2.isMtuProbe) ≤ 1) :
    (es.foldl (AckScan.one now) a).s.mtuView = a.s.mtuView ∨
    (∃ e ∈ es, e.2.isMtuProbe = true) ∧ a.s.mtuState = .search ∧
      (es.foldl (AckScan.one now) a).s.mtuView = a.s.onMtuProbeAcked.mtuView := by
  induction es generalizing a with
  | nil => exact .inl rfl
  | cons e es ih =>
    rw [foldl_cons]
    by_cases hp : e.2.isMtuProbe = true
    · have hrest : ∀ e ∈ es, e.2.isMtuProbe = false := by
        rw [countP_cons, if_pos hp] at h
        have h0 := countP_eq_zero.mp (by omega : es.countP (fun e => e.2.isMtuProbe) = 0)
        exact fun e he => by simpa using h0 e he
      rw [foldl_one_mtu_of_none now es _ hrest, one_mtuView]
      by_cases hs : a.s.mtuState = .search
      · exact .inr ⟨⟨e, mem_cons_self, hp⟩, hs, if_pos ⟨hp, hs⟩⟩
      · exact .inl (if_neg fun h => hs h.2)
    · rw [countP_cons, if_neg hp] at h
      have hv := (one_mtuView now a e).trans (if_neg fun h => hp h.1)
      rcases ih (a.one now e) h with ih | ⟨⟨e', he', hpe⟩, hs, ih⟩
      · exact .inl (ih.trans hv)
      · exact .inr ⟨⟨e', mem_cons_of_mem _ he', hpe⟩, (congrArg MtuView.state hv).symm.trans hs,
          ih.trans (onMtuProbeAcked_congr hv)⟩

theorem ackScan_mtu (ack : Nat) (h : probeCount s.outgoing ≤ 1) : (s.ackScan ack now).s.mtuView = s.mtuView ∨
    (∃ e ∈ s.outgoing, e.1 < ack ∧ e.2.isMtuProbe = true) ∧ s.mtuState = .search ∧
      (s.ackScan ack now).s.mtuView = s.onMtuProbeAcked.mtuView := by
  rcases foldl_one_mtu now (s.outgoing.filter (fun e => e.1 < ack)).entries
      ⟨{ s with remoteAcked := ack, outgoing := s.outgoing.filter (fun e => ack ≤ e.1) }, false, []⟩
      (filter_sublist.countP_le.trans h) with hv | ⟨⟨e, he, hp⟩, hs, hv⟩
  · exact .inl hv
  · obtain ⟨hm, hlt⟩ := OrdMap.mem_filter.mp he
    exact .inr ⟨⟨e, hm, of_decide_eq_true hlt, hp⟩, hs, hv⟩

/-! ## The invariant -/

structure ProbeInv (c : Core) : Prop where
  one : probeCount c.outgoing + c.mtuProbeWanted.toNat ≤ 1
  idle : c.mtuState = .base → probeCount c.outgoing = 0 ∧ c.mtuProbeWanted = false
  probe : ∀ e ∈ c.outgoing, e.2.isMtuProbe = true →
    e.2.packet.length = c.mtuProbeSize ∧ e.2.retransmitCount = 0 ∧ LastSent c.txs e.1 e.2.packet
  base : MTU_BASE ≤ c.mtu
  mtu_le : c.mtu ≤ c.mtuProbeSize
  le_max : c.mtuProbeSize ≤ c.mtuMax

theorem probeInv_new : ProbeInv (Sys.core {}) where
  one := by decide
  idle _ := by decide
  probe e he := absurd he (not_mem_empty e)
  base := by decide
  mtu_le := by decide
  le_max := by decide

theorem ProbeInv.marks {c : Core} (h : ProbeInv c) (f : Nat × SentPacket → SentPacket)
    (hf : ∀ e, (f e).isMtuProbe = e.2.isMtuProbe ∧ (f e).packet = e.2.packet ∧
      (f e).retransmitCount = e.2.retransmitCount) : ProbeInv { c with outgoing := c.outgoing.mapVal f } := by
  have hcount : probeCount (c.outgoing.mapVal f) = probeCount c.outgoing := by
    unfold probeCount
    simp only [OrdMap.mapVal, countP_map]
    exact countP_congr fun e _ => by simp [(hf e).1]
  refine ⟨by rw [hcount]; exact h.one, by rw [hcount]; exact h.idle, fun e he hp => ?_, h.base, h.mtu_le, h.le_max⟩
  obtain ⟨p, hmem, hpe⟩ := mem_mapVal.mp he
  obtain ⟨h₁, h₂, h₃⟩ := hf (e.1, p)
  rw [hpe] at h₁ h₂ h₃
  rw [h₂, h₃]
  exact h.probe (e.1, p) hmem (h₁ ▸ hp)

/-- An accepted acknowledgement of the packets below `ack`, seen from the core. -/
theorem ProbeInv.acked (h : ProbeInv (s.core txs)) (ack : Nat) (now : Instant) :
    ProbeInv ((s.ackScan ack now).s.core txs) := by
  have hk := s.ackScan_keeps ack now
  set t := (s.ackScan ack now).s
  have hout : t.outgoing = s.outgoing.filter (fun e => ack ≤ e.1) := by rw [hk.eq]
  have hsplit : probeCount s.outgoing =
      (s.outgoing.filter (fun e => e.1 < ack)).entries.countP (fun e => e.2.isMtuProbe) +
      probeCount (s.outgoing.filter (fun e => ack ≤ e.1)) := by
    unfold probeCount
    rw [countP_eq_countP_filter_add _ _ (fun e => decide (e.1 < ack))]
    simp [← decide_not]
  have hone : probeCount s.outgoing + s.mtuProbeWanted.toNat ≤ 1 := h.one
  have hsub : ∀ e ∈ s.outgoing.filter (fun e => ack ≤ e.1), e ∈ s.outgoing := fun e he => (OrdMap.mem_filter.mp he).1
  rcases ackScan_mtu now ack ((Nat.le_add_right _ _).trans hone) with hv | ⟨⟨e, he, hlt, hp⟩, hs, hv⟩ <;>
    obtain ⟨h₁, h₂, h₃, -, h₄, h₅⟩ := MtuView.mk.inj hv
  · unfold StreamInner.core
    rw [hout, h₁, h₂, h₃, h₄, h₅]
    refine ⟨by dsimp only; omega, fun hb => ?_, fun e he => h.probe e (hsub e he), h.base, h.mtu_le, h.le_max⟩
    have := h.idle hb
    exact ⟨by have := this.1; dsimp only [StreamInner.core] at this ⊢; omega, this.2⟩
  · have hpos : 0 < (s.outgoing.filter (fun e => e.1 < ack)).entries.countP (fun e => e.2.isMtuProbe) :=
      countP_pos_iff.mpr ⟨e, OrdMap.mem_filter.mpr ⟨he, decide_eq_true hlt⟩, hp⟩
    have hnone : probeCount (s.outgoing.filter (fun e => ack ≤ e.1)) = 0 := by omega
    have hle : s.mtuProbeSize ≤ s.mtuMax := h.le_max
    unfold StreamInner.core
    rw [hout, h₁, h₂, h₃, h₅]
    refine ⟨?_, fun hb => ?_, fun e he hp => ?_, h.base.trans h.mtu_le, ?_, Nat.min_le_right _ _⟩
    · rw [hnone]
      exact Nat.zero_add _ ▸ Bool.toNat_le _
    · simp only [onMtuProbeAcked, hs] at hb
      split at hb <;> cases hb
    · exact absurd hp (by simpa using countP_eq_zero.mp hnone e he)
    · exact Nat.le_min.mpr ⟨Nat.le_add_right _ _, hle⟩

theorem mem_resendTx {resent : List (Nat × Bytes)} {t : Tx} (h : t ∈ resendTx s resent) :
    ∃ addr, ∃ p ∈ resent, t = ⟨p.1, p.2, addr, true⟩ := by
  unfold resendTx at h
  split at h
  · obtain ⟨p, hp, rfl⟩ := mem_map.mp h
    exact ⟨_, p, hp, rfl⟩
  · cases h

theorem ProbeInv.retransmit (h : ProbeInv (s.core txs)) (select : Nat × SentPacket → Bool)
    (finish : SentPacket → SentPacket) (now : Instant) (hf : ∀ p, (finish p).isMtuProbe = p.isMtuProbe) :
    ProbeInv ((s.retransmitWhere select finish now).1.core
      (txs ++ resendTx (s.retransmitWhere select finish now).1 (s.retransmitWhere select finish now).2)) := by
  set r := s.retransmitWhere select finish now with hr
  have hsplit : probeCount s.outgoing =
      (s.outgoing.entries.filter select).countP (fun e => e.2.isMtuProbe) +
      (s.outgoing.entries.filter (fun e => !select e)).countP (fun e => e.2.isMtuProbe) := by
    unfold probeCount
    rw [countP_eq_countP_filter_add _ _ select]
  have hcount : probeCount r.1.outgoing =
      (s.outgoing.entries.filter (fun e => !select e)).countP (fun e => e.2.isMtuProbe) := by
    unfold probeCount r retransmitWhere
    simp only [OrdMap.mapVal, countP_map, countP_filter]
    refine countP_congr fun e _ => ?_
    cases hs : select e <;> simp [hs, hf, SentPacket.resend]
  -- a packet that is still a probe was not selected, so its number is not among those sent again
  have hprobe : ∀ e ∈ r.1.outgoing, e.2.isMtuProbe = true → e ∈ s.outgoing ∧ select e = false := by
    intro e he hp
    obtain ⟨p, hmem, hpe⟩ := mem_mapVal.mp he
    split at hpe
    · rw [← hpe, hf] at hp
      cases hp
    next hs =>
      subst hpe
      exact ⟨hmem, by simpa using hs⟩
  have hfresh : ∀ e ∈ s.outgoing, select e = false → ∀ t ∈ resendTx r.1 r.2, t.seq ≠ e.1 := by
    intro e he hs t ht hseq
    obtain ⟨addr, p, hp, rfl⟩ := mem_resendTx ht
    obtain ⟨e', he', rfl⟩ := mem_map.mp hp
    obtain ⟨hm, hs'⟩ := List.mem_filter.mp he'
    have heq : e'.2 = e.2 := mem_unique (k := e.1) (by rw [← hseq]; exact hm) he
    rw [Prod.ext hseq heq, hs] at hs'
    cases hs'
  have hone : probeCount s.outgoing + s.mtuProbeWanted.toNat ≤ 1 := h.one
  have hleft : ∀ e ∈ r.1.outgoing, e.2.isMtuProbe = true → e.2.packet.length = s.mtuProbeSize ∧
      e.2.retransmitCount = 0 ∧ LastSent (txs ++ resendTx r.1 r.2) e.1 e.2.packet := by
    intro e he hp
    obtain ⟨hm, hs⟩ := hprobe e he hp
    obtain ⟨h₁, h₂, h₃⟩ := h.probe e hm hp
    exact ⟨h₁, h₂, h₃.append (hfresh e hm hs)⟩
  have hstate : r.1.mtuState = .base → s.mtuState = .base := by
    intro hb
    rcases (ite_eq_or_eq _ _ _ : r.1.mtuState = .searchComplete ∨ r.1.mtuState = s.mtuState) with e | e
    · cases hb.symm.trans e
    · exact e.symm.trans hb
  have hwanted : 0 < (s.outgoing.entries.filter select).countP (fun e => e.2.isMtuProbe) ∨
      r.1.mtuProbeWanted = s.mtuProbeWanted := by
    cases hany : (s.outgoing.entries.filter select).any (fun e => e.2.isMtuProbe) with
    | true => exact .inl (countP_pos_iff.mpr (any_eq_true.mp hany))
    | false => exact .inr (by simp [hr, retransmitWhere, hany])
  refine ⟨?_, fun hb => ?_, hleft, h.base, h.mtu_le, h.le_max⟩
  · dsimp only [StreamInner.core]
    rcases hwanted with hpos | hw
    · have := Bool.toNat_le r.1.mtuProbeWanted
      omega
    · rw [hw]
      omega
  · obtain ⟨h0, hw0⟩ : probeCount s.outgoing = 0 ∧ s.mtuProbeWanted = false := h.idle (hstate hb)
    have h0' : probeCount r.1.outgoing = 0 := by omega
    exact ⟨h0', (hwanted.resolve_left (by omega)).trans hw0⟩

/-! ## Sending -/

theorem OrdMap.countP_insert_le {κ α : Type} [LinearOrder κ] (m : OrdMap κ α) (k : κ) (v : α) (p : κ × α → Bool) :
    (m.insert k v).entries.countP p ≤ m.entries.countP p + (p (k, v)).toNat := by
  have hsplit := countP_eq_countP_filter_add m.entries p (fun e => decide (e.1 < k))
  have hsub : (m.entries.filter fun e => decide (k < e.1)).Sublist (m.entries.filter fun e => !decide (e.1 < k)) :=
    monotone_filter_right _ fun e he => by simpa using (of_decide_eq_true he).le
  have hle := hsub.countP_le (p := p)
  simp only [OrdMap.insert, countP_append, countP_cons]
  cases p (k, v) <;> simp <;> omega

theorem length_of_isDataPacket (h : isDataPacket packet = true) : HEADER_SIZE ≤ packet.length := by
  simp only [isDataPacket, Bool.and_eq_true, decide_eq_true_eq] at h
  exact h.1

section
variable (h : ProbeInv (s.core txs))
include h

theorem ProbeInv.startSearch (packet : Bytes) :
    ProbeInv ((startSearch s packet).core txs) := by
  rcases startSearch_eq s packet with e | ⟨hb, -, e⟩ <;> rw [e]
  · exact h
  · have h0 : probeCount s.outgoing = 0 := (h.idle hb).1
    refine { h with one := by simp [StreamInner.core, h0], idle := fun hb => ?_ }
    cases hb

/-- A packet sent, padded or not, is registered under its number and logged. -/
theorem ProbeInv.register (q : Nat) (packet : Bytes)
    (now : Instant) (info : PacketRateInfo) (addr : SocketAddr) (probe : Bool)
    (hp : probe = true → s.mtuProbeWanted = true ∧ packet.length = s.mtuProbeSize) : ProbeInv (StreamInner.core
      { s with
        mtuProbeWanted := s.mtuProbeWanted && !probe
        outgoing := s.outgoing.insert q ⟨packet, now, 0, false, probe, false, some info⟩ }
      (txs ++ [⟨q, packet, addr, false⟩])) := by
  have hcount : probeCount (s.outgoing.insert q ⟨packet, now, 0, false, probe, false, some info⟩) ≤
      probeCount s.outgoing + probe.toNat := OrdMap.countP_insert_le _ _ _ _
  have hone : probeCount s.outgoing + s.mtuProbeWanted.toNat ≤ 1 := h.one
  have hwanted : (s.mtuProbeWanted && !probe).toNat + probe.toNat = s.mtuProbeWanted.toNat := by
    cases probe with
    | false => simp
    | true => simp [(hp rfl).1]
  refine ⟨?_, fun hb => ?_, fun e he hpe => ?_, h.base, h.mtu_le, h.le_max⟩
  · dsimp only [StreamInner.core]
    omega
  · obtain ⟨h0, h0w⟩ : probeCount s.outgoing = 0 ∧ s.mtuProbeWanted = false := h.idle hb
    rw [h0w, Bool.false_and, Bool.toNat_false] at hwanted
    dsimp only [StreamInner.core]
    exact ⟨by omega, by rw [h0w, Bool.false_and]⟩
  · rcases mem_insert.mp he with rfl | ⟨hm, hne⟩
    · exact ⟨(hp hpe).2, rfl, _, _, [], rfl, by simp⟩
    · obtain ⟨h₁, h₂, h₃⟩ := h.probe e hm hpe
      exact ⟨h₁, h₂, h₃.append fun t ht => by rw [mem_singleton.mp ht]; exact hne.symm⟩

theorem ProbeInv.congestion (c : CongestionController) :
    ProbeInv (StreamInner.core { s with congestion := c } txs) :=
  { h with }

theorem ProbeInv.sendOne (q : QueuedPacket)
    (now : Instant) : ProbeInv ((sendOne s q now).1.core (txs ++ [(Udx.sendOne s q now).2])) := by
  obtain ⟨c, info, -, e₁, e₂⟩ := sendOne_eq s q now
  have hs := h.startSearch q.packet
  have hout : (Udx.startSearch s q.packet).outgoing = s.outgoing := by
    rcases startSearch_eq s q.packet with e | ⟨-, -, e⟩ <;> rw [e]
  rw [e₁, e₂, ← hout]
  rcases tryProbe_eq (Udx.startSearch s q.packet) q.packet with e | ⟨hw, hd, hlt, -, e⟩ <;> rw [e]
  · have hr := hs.register q.seq q.packet now info q.remoteAddr false (fun h => by cases h)
    rw [Bool.not_false, Bool.and_true] at hr
    exact hr.congestion c
  · have hr := hs.register q.seq (insertPadding q.packet ((Udx.startSearch s q.packet).mtuProbeSize - q.packet.length))
      now info q.remoteAddr true
      (fun _ => ⟨hw, by rw [length_insertPadding (length_of_isDataPacket hd) _]; omega⟩)
    rw [Bool.not_true, Bool.and_false] at hr
    exact hr.congestion c

end

theorem probeInv_coreAckRule : CoreAckRule (fun _ _ _ => True) ProbeInv where
  rwnd _ _ _ h := h
  cum s txs h data now _ _ hP := by
    cases ha : s.accepts h with
    | false =>
      rw [ackPart_of_not _ _ _ ha]
      exact hP
    | true =>
      rw [ackPart_of_accepts _ _ _ ha]
      exact ProbeInv.acked (s := { s with sendRwnd := h.recvWindow }) hP h.ack now
  sack s txs h data hP := by
    rw [sackPart_fst]
    exact hP.marks _ fun e => by unfold markSacked; split <;> exact ⟨rfl, rfl, rfl⟩
  losses s txs hP := by
    have hm := hP.marks (fun e => if e.1 ∈ s.lostSeqs then { e.2 with lost := true } else e.2)
      fun e => by split <;> exact ⟨rfl, rfl, rfl⟩
    exact { hm with }
  feed s txs acked lostCount ctx hP := by
    unfold feedCongestion
    split
    · exact hP.congestion _
    · exact hP
  fast s txs now hP := hP.retransmit _ _ now fun _ => rfl

/-- **Every step keeps the probe invariant.** -/
theorem probeInv_coreRule : CoreRule (fun _ _ _ => True) (fun _ _ => True) ProbeInv where
  ackSack := probeInv_coreAckRule.ackSack
  send _ _ q now _ h := h.sendOne q now
  rto s txs maxSeq now _ hP := by
    have hb : ProbeInv ((rtoBackoff s maxSeq).core txs) := { hP with }
    exact hb.retransmit _ id now fun _ => rfl

/-! ## Raising the MTU -/

/-- The MTU of `c` is the size of a probe outstanding in `y` that the packet of step `ev` has just acknowledged. -/
def RaisedBy (y : Sys) (ev : Ev) (c : Core) : Prop :=
  ∃ h data q p, y.ackPacket ev = some (h, data) ∧ y.inner.accepts h = true ∧ q < h.ack ∧ (q, p) ∈ y.inner.outgoing ∧
    p.isMtuProbe = true ∧ c.mtu = y.inner.mtuProbeSize ∧ c.remoteAcked = h.ack

theorem raisedBy_acked (y : Sys) (ev : Ev) (h : Header) (data : Bytes) (he : y.ackPacket ev = some (h, data))
    (s : StreamInner) (hs : s.core y.txs = y.core) (hP : ProbeInv y.core) (ha : s.accepts h = true) (now : Instant) :
    (s.ackScan h.ack now).s.mtu = y.inner.mtu ∨ RaisedBy y ev ((s.ackScan h.ack now).s.core y.txs) := by
  have hout : s.outgoing = y.inner.outgoing := congrArg Core.outgoing hs
  have hone : probeCount s.outgoing + y.inner.mtuProbeWanted.toNat ≤ 1 := hout ▸ hP.one
  rcases ackScan_mtu now h.ack ((Nat.le_add_right _ _).trans hone) with hv | ⟨⟨e, hm, hlt, hp⟩, -, hv⟩
  · exact .inl ((congrArg MtuView.mtu hv).trans (congrArg Core.mtu hs))
  · refine .inr ⟨h, data, e.1, e.2, he, ?_, hlt, hout ▸ hm, hp, ?_, ?_⟩
    · have hr : s.remoteAcked = y.inner.remoteAcked := congrArg Core.remoteAcked hs
      unfold accepts at ha ⊢
      rw [← hr]
      exact ha
    · exact (congrArg MtuView.mtu hv).trans (congrArg Core.mtuProbeSize hs)
    · exact congrArg StreamInner.remoteAcked (s.ackScan_keeps h.ack now).eq

/-- A property of MTU and cumulative acknowledgement that the acknowledgement of a packet keeps is kept by the step. -/
theorem raisedBy_coreAckRule (y : Sys) (ev : Ev) (hP : ProbeInv y.core) :
    CoreAckRule (fun c h data => c = y.core ∧ y.ackPacket ev = some (h, data))
      (fun c => c.mtu = y.inner.mtu ∨ RaisedBy y ev c) where
  rwnd _ _ _ h := h
  cum s txs h data now _ hc hJ := by
    have htxs : txs = y.txs := congrArg Core.txs hc.1
    subst htxs
    cases ha : s.accepts h with
    | false =>
      rw [ackPart_of_not _ _ _ ha]
      exact hJ
    | true =>
      rw [ackPart_of_accepts _ _ _ ha]
      exact raisedBy_acked y ev h data hc.2 { s with sendRwnd := h.recvWindow } hc.1 hP ha now
  sack s txs h data hJ := by
    rw [sackPart_fst]
    exact hJ
  losses _ _ hJ := hJ
  feed s txs acked lostCount ctx hJ := by
    unfold feedCongestion
    split <;> exact hJ
  fast _ _ _ hJ := hJ

theorem step_mtu (hk : Socketed y) (hP : ProbeInv y.core) (ev : Ev) :
    (y.step ev).inner.mtu = y.inner.mtu ∨ RaisedBy y ev (y.step ev).core := by
  have r : CoreRule (fun c h data => c = y.core ∧ y.ackPacket ev = some (h, data)) (fun _ _ => True)
      (fun c => c.mtu = y.inner.mtu ∨ RaisedBy y ev c) := {
    ackSack := (raisedBy_coreAckRule y ev hP).ackSack
    send := by
      intro s txs q now _ hJ
      obtain ⟨c, info, -, e, -⟩ := sendOne_eq s q now
      rw [e]
      rcases tryProbe_eq (startSearch s q.packet) q.packet with e | ⟨-, -, -, -, e⟩ <;> rw [e] <;>
        rcases startSearch_eq s q.packet with e' | ⟨-, -, e'⟩ <;> rw [e'] <;> exact hJ
    rto := fun _ _ _ _ _ hJ => hJ }
  exact (r.step hk ev (fun p hp => ⟨rfl, hp⟩) (.inl rfl)).2

theorem mtu_le_step (hk : Socketed y) (hP : ProbeInv y.core) (ev : Ev) : y.inner.mtu ≤ (y.step ev).inner.mtu := by
  rcases step_mtu hk hP ev with h | ⟨-, -, -, -, -, -, -, -, -, h, -⟩
  · exact h.ge
  · exact hP.mtu_le.trans h.ge

/-- **The path-MTU search in every reachable state.** At most one probe is wanted or in flight; a probe in flight has
the size the search is at; the sizes are ordered; and a step that changes the MTU sets it to the length of a packet
that went out at that length, was not sent again, and is acknowledged by that step. -/
theorem mtu_probing (es : List Ev) :
    probeCount (after es).inner.outgoing + (if (after es).inner.mtuProbeWanted then 1 else 0) ≤ 1 ∧
    (∀ e ∈ (after es).inner.outgoing, e.2.isMtuProbe = true → e.2.packet.length = (after es).inner.mtuProbeSize) ∧
    MTU_BASE ≤ (after es).inner.mtu ∧ (after es).inner.mtu ≤ (after es).inner.mtuProbeSize ∧
    (after es).inner.mtuProbeSize ≤ (after es).inner.mtuMax ∧
    ∀ ev, ((after es).step ev).inner.mtu ≠ (after es).inner.mtu →
      ∃ h data q p, (after es).ackPacket ev = some (h, data) ∧ (after es).inner.accepts h = true ∧
        ((after es).step ev).inner.remoteAcked = h.ack ∧ q < h.ack ∧ (q, p) ∈ (after es).inner.outgoing ∧
        ((after es).step ev).inner.mtu = p.packet.length ∧ p.retransmitCount = 0 ∧
        LastSent (after es).txs q p.packet := by
  have hP := probeInv_coreRule.after probeInv_new es
  refine ⟨?_, fun e he hp => (hP.probe e he hp).1, hP.base, hP.mtu_le, hP.le_max, fun ev hne => ?_⟩
  · have h : probeCount (after es).inner.outgoing + (after es).inner.mtuProbeWanted.toNat ≤ 1 := hP.one
    rwa [Bool.toNat, Bool.cond_eq_ite] at h
  · obtain ⟨h, data, q, p, hev, ha, hlt, hm, hp, hmtu, hr⟩ := (step_mtu (socketed_after es) hP ev).resolve_left hne
    obtain ⟨h₁, h₂, h₃⟩ := hP.probe (q, p) hm hp
    exact ⟨h, data, q, p, hev, ha, hr, hlt, hm, hmtu.trans h₁.symm, h₂, h₃⟩

/-- A stream that has sent one packet of a thousand bytes, as a probe. -/
def probeRun : List Ev :=
  .connect 1 loopback true :: writeNow (List.replicate 1000 0) 0 ++ [.proc .pacing {}]

/-- Its acknowledgement raises the MTU. -/
theorem mtu_probing_probeRun :
    ∃ h data q p, (after probeRun).ackPacket (.proc (.packet (pureAck 1) loopback) {}) = some (h, data) ∧ (after probeRun).inner.accepts h = true ∧
      ((after probeRun).step (.proc (.packet (pureAck 1) loopback) {})).inner.remoteAcked = h.ack ∧ q < h.ack ∧ (q, p) ∈ (after probeRun).inner.outgoing ∧
      ((after probeRun).step (.proc (.packet (pureAck 1) loopback) {})).inner.mtu = p.packet.length ∧ p.retransmitCount = 0 ∧
      LastSent (after probeRun).txs q p.packet :=
  (mtu_probing probeRun).2.2.2.2.2 _ (by decide +kernel)

end Peeroxide.Udx
