import Mathlib.Data.Finset.Card
import Peeroxide.Udx.Issued

/-!
# The delivered count

`delivered` counts the packets each acknowledgement reports: those a cumulative acknowledgement removes and those newly
marked by a selective one. A marked packet stays outstanding, so a cumulative acknowledgement reports it once more.

Main result: `delivered_exact`.
-/

namespace Peeroxide.Udx
open Lib StreamInner Sys Finset
variable {A : Finset Nat} {D q : Nat} {b : Bool} {f : Nat × SentPacket → SentPacket} {h : Header}
  {m : OrdMap Nat SentPacket} {s : StreamInner} {txs : List Tx} {y : Sys}

/-! ## Outstanding numbers -/

def openKeys (m : OrdMap Nat SentPacket) : Finset Nat := (m.filter (fun e => !e.2.sacked)).keys.toFinset

def sackedKeys (m : OrdMap Nat SentPacket) : Finset Nat := (m.filter (fun e => e.2.sacked)).keys.toFinset

theorem mem_openKeys : q ∈ openKeys m ↔ ∃ p, (q, p) ∈ m ∧ p.sacked = false := by
  simp [openKeys, OrdMap.mem_keys]

theorem mem_sackedKeys : q ∈ sackedKeys m ↔ ∃ p, (q, p) ∈ m ∧ p.sacked = true := by
  simp [sackedKeys, OrdMap.mem_keys]

theorem disjoint_keys (m : OrdMap Nat SentPacket) : Disjoint (openKeys m) (sackedKeys m) := by
  refine disjoint_left.mpr fun q ho hs => ?_
  obtain ⟨p, hp, h₁⟩ := mem_openKeys.mp ho
  obtain ⟨p', hp', h₂⟩ := mem_sackedKeys.mp hs
  rw [OrdMap.mem_unique hp hp', h₂] at h₁
  cases h₁

theorem exists_mem_mapVal : (∃ p, (q, p) ∈ m.mapVal f ∧ p.sacked = b) ↔ ∃ p, (q, p) ∈ m ∧ (f (q, p)).sacked = b := by
  constructor
  · rintro ⟨p, hp, hs⟩
    obtain ⟨p', hm, he⟩ := OrdMap.mem_mapVal.mp hp
    exact ⟨p', hm, (congrArg SentPacket.sacked he).trans hs⟩
  · rintro ⟨p, hm, hs⟩
    exact ⟨f (q, p), OrdMap.mem_mapVal.mpr ⟨p, hm, rfl⟩, hs⟩

theorem keys_marks
    (hf : ∀ e, (f e).sacked = e.2.sacked) : openKeys (m.mapVal f) = openKeys m ∧ sackedKeys (m.mapVal f) = sackedKeys m := by
  constructor
  · ext q
    rw [mem_openKeys, mem_openKeys, exists_mem_mapVal]
    simp only [hf]
  · ext q
    rw [mem_sackedKeys, mem_sackedKeys, exists_mem_mapVal]
    simp only [hf]

/-- The packet with this header acknowledges `q` cumulatively. -/
def StreamInner.covers (s : StreamInner) (h : Header) (q : Nat) : Bool := s.accepts h && decide (q < h.ack)

theorem ackPart_filter (s : StreamInner) (h : Header) (now : Instant) :
    (ackPart s h now).1.outgoing = s.outgoing.filter (fun e => !s.covers h e.1) := by
  cases ha : s.accepts h with
  | false =>
    rw [ackPart_of_not s h now ha]
    refine OrdMap.ext ?_
    exact (List.filter_eq_self.mpr fun e _ => by simp [covers, ha]).symm
  | true =>
    rw [ackPart_outgoing s h now ha]
    refine OrdMap.ext ?_
    refine List.filter_congr fun e _ => ?_
    by_cases hlt : e.1 < h.ack <;> simp [covers, ha, hlt]
    omega

theorem not_acked_of_no_fields (s : StreamInner)
    (hn : ¬ (0 < h.ack ∨ (h.hasFlag FLAG_SACK && 0 < h.dataOffset.toNat) = true)) (data : Bytes) (q : Nat) :
    ¬ (s.covers h q = true ∨ q ∈ packetSacks h data) := by
  rw [not_or, Bool.not_eq_true] at hn
  rintro (hc | hq)
  · obtain ⟨ha, -⟩ := Bool.and_eq_true_iff.mp hc
    exact hn.1 (by simpa using (Bool.and_eq_true_iff.mp ha).1)
  · unfold packetSacks incomingSack at hq
    rw [hn.2] at hq
    cases hq

theorem mem_scanAcks {data : Bytes} {now : Instant} :
    (∃ p, (q, p) ∈ (scanAcks s h data now).1.outgoing ∧ p.sacked = b) ↔
      s.covers h q = false ∧ ∃ p, (q, p) ∈ s.outgoing ∧ (p.sacked || decide (q ∈ packetSacks h data)) = b := by
  have hout : (scanAcks s h data now).1.outgoing = ((ackPart s h now).1.outgoing.mapVal
      (markSacked (packetSacks h data))).mapVal (fun e =>
        if e.1 ∈ (sackPart (ackPart s h now).1 h data).1.lostSeqs then { e.2 with lost := true } else e.2) := by
    show (sackPart (ackPart s h now).1 h data).1.outgoing.mapVal _ = _
    rw [sackPart_fst]
  have hlost : ∀ (p : SentPacket) (c : Prop) [Decidable c],
      (if c then { p with lost := true } else p).sacked = p.sacked := by
    intro p c _
    split <;> rfl
  have hmark : ∀ p : SentPacket, (markSacked (packetSacks h data) (q, p)).sacked =
      (p.sacked || decide (q ∈ packetSacks h data)) := by
    unfold markSacked
    by_cases hq : q ∈ packetSacks h data <;> simp [hq]
  rw [hout, exists_mem_mapVal]
  simp only [hlost]
  rw [exists_mem_mapVal, ackPart_filter]
  simp only [hmark, OrdMap.mem_filter, Bool.not_eq_true']
  constructor
  · rintro ⟨p, ⟨hp, hc⟩, hs⟩
    exact ⟨hc, p, hp, hs⟩
  · rintro ⟨hc, p, hp, hs⟩
    exact ⟨p, ⟨hp, hc⟩, hs⟩

def newlySacked (s : StreamInner) (h : Header) (data : Bytes) : Finset Nat :=
  (openKeys s.outgoing).filter (fun q => ¬ s.covers h q = true ∧ q ∈ packetSacks h data)

section
variable (s : StreamInner) (h : Header) (data : Bytes) (now : Instant)

theorem scanAcks_openKeys : openKeys (scanAcks s h data now).1.outgoing =
      (openKeys s.outgoing).filter (fun q => ¬ (s.covers h q = true ∨ q ∈ packetSacks h data)) := by
  ext q
  rw [mem_openKeys, mem_scanAcks, mem_filter, mem_openKeys]
  constructor
  · rintro ⟨hc, p, hp, hs⟩
    rw [Bool.or_eq_false_iff] at hs
    exact ⟨⟨p, hp, hs.1⟩, by simpa [hc] using hs.2⟩
  · rintro ⟨⟨p, hp, hs⟩, hn⟩
    rw [not_or] at hn
    exact ⟨by simpa using hn.1, p, hp, by simp [hs, hn.2]⟩

theorem scanAcks_sackedKeys : sackedKeys (scanAcks s h data now).1.outgoing =
    (sackedKeys s.outgoing).filter (fun q => ¬ s.covers h q = true) ∪ newlySacked s h data := by
  ext q
  rw [mem_sackedKeys, mem_scanAcks, mem_union, newlySacked, mem_filter, mem_filter, mem_openKeys, mem_sackedKeys]
  constructor
  · rintro ⟨hc, p, hp, hs⟩
    cases hps : p.sacked with
    | true => exact .inl ⟨⟨p, hp, hps⟩, by simp [hc]⟩
    | false => exact .inr ⟨⟨p, hp, hps⟩, by simp [hc], by simpa [hps] using hs⟩
  · rintro (⟨⟨p, hp, hs⟩, hn⟩ | ⟨⟨p, hp, hs⟩, hn, hq⟩)
    · exact ⟨by simpa using hn, p, hp, by simp [hs]⟩
    · exact ⟨by simpa using hn, p, hp, by simp [hq]⟩

variable (hinfo : ∀ e ∈ s.outgoing, e.2.rateInfo.isSome = true)
include hinfo

theorem ackPart_acked : (ackPart s h now).2.2.map Prod.fst = (s.outgoing.filter (fun e => s.covers h e.1)).keys := by
  cases ha : s.accepts h with
  | false =>
    have hnone : (s.outgoing.filter (fun e => s.covers h e.1)).entries = [] := by
      exact List.filter_eq_nil_iff.mpr fun e _ => by simp [covers, ha]
    rw [ackPart_of_not s h now ha, OrdMap.keys, hnone]
    rfl
  | true =>
    rw [ackPart_of_accepts s h now ha]
    refine (ackScan_acked { s with sendRwnd := h.recvWindow } h.ack now hinfo).trans ?_
    simp [covers, ha]

theorem sackPart_acked : ((sackPart (ackPart s h now).1 h data).2.map Prod.fst).Nodup ∧
    ((sackPart (ackPart s h now).1 h data).2.map Prod.fst).toFinset = newlySacked s h data := by
  have hinfo' : ∀ e ∈ (ackPart s h now).1.outgoing, e.2.rateInfo.isSome = true := by
    intro e he
    rw [ackPart_filter, OrdMap.mem_filter] at he
    exact hinfo e he.1
  obtain ⟨hnd, hmem⟩ := sackPart_snd (ackPart s h now).1 h data hinfo'
  refine ⟨hnd, ?_⟩
  ext q
  rw [List.mem_toFinset, hmem, newlySacked, mem_filter, mem_openKeys]
  unfold Unmarked
  rw [ackPart_filter]
  simp only [OrdMap.mem_filter]
  constructor
  · rintro ⟨hq, p, ⟨hp, hc⟩, hs⟩
    exact ⟨⟨p, hp, hs⟩, by simpa using hc, hq⟩
  · rintro ⟨⟨p, hp, hs⟩, hc, hq⟩
    exact ⟨hq, p, ⟨hp, by simpa using hc⟩, hs⟩

/-- The number of packets an acknowledgement reports: those it removes, marked or not, and those it newly marks. -/
theorem length_scanAcks : (scanAcks s h data now).2.2.1.length =
      ((openKeys s.outgoing).filter (fun q => s.covers h q = true)).card +
      ((sackedKeys s.outgoing).filter (fun q => s.covers h q = true)).card + (newlySacked s h data).card := by
  have hcum : (s.outgoing.filter (fun e => s.covers h e.1)).keys.length =
      ((openKeys s.outgoing).filter (fun q => s.covers h q = true)).card +
      ((sackedKeys s.outgoing).filter (fun q => s.covers h q = true)).card := by
    rw [← List.toFinset_card_of_nodup (OrdMap.nodup_keys _), ← card_union_of_disjoint]
    · congr 1
      ext q
      rw [List.mem_toFinset, OrdMap.mem_keys, mem_union, mem_filter, mem_filter, mem_openKeys,
        mem_sackedKeys]
      simp only [OrdMap.mem_filter]
      constructor
      · rintro ⟨p, hp, hc⟩
        cases hs : p.sacked with
        | false => exact .inl ⟨⟨p, hp, hs⟩, hc⟩
        | true => exact .inr ⟨⟨p, hp, hs⟩, hc⟩
      · rintro (⟨⟨p, hp, -⟩, hc⟩ | ⟨⟨p, hp, -⟩, hc⟩) <;> exact ⟨p, hp, hc⟩
    · exact disjoint_filter_filter (disjoint_keys s.outgoing)
  obtain ⟨hnd, hsel⟩ := sackPart_acked s h data now hinfo
  show ((ackPart s h now).2.2 ++ (sackPart (ackPart s h now).1 h data).2).length = _
  rw [List.length_append, ← hcum, ← ackPart_acked s h now hinfo, List.length_map, ← hsel,
    List.toFinset_card_of_nodup hnd, List.length_map]

end

/-! ## The count -/

/-- `A` are the transmitted numbers acknowledged so far and `D` packets were counted once more. -/
structure Counted (A : Finset Nat) (D : Nat) (c : Core) : Prop where
  info : ∀ e ∈ c.outgoing, e.2.rateInfo.isSome = true
  sent : (firstTxs c.txs).toFinset = A ∪ openKeys c.outgoing
  disj : Disjoint A (openKeys c.outgoing)
  sacked : sackedKeys c.outgoing ⊆ A
  doubled : D + (sackedKeys c.outgoing).card ≤ A.card
  delivered : c.delivered = wrap32 (A.card + D)

/-- A retransmission keeps the marks, and what it sends was sent before. -/
theorem Counted.marks {c c' : Core} (h : Counted A D c) (f : Nat × SentPacket → SentPacket)
    (hf : ∀ e, (f e).sacked = e.2.sacked ∧ (f e).rateInfo = e.2.rateInfo) (ho : c'.outgoing = c.outgoing.mapVal f)
    (ht : firstTxs c'.txs = firstTxs c.txs) (hd : c'.delivered = c.delivered) : Counted A D c' := by
  obtain ⟨hk, hs⟩ := keys_marks fun e => (hf e).1
  rw [← ho] at hk hs
  refine ⟨fun e he => ?_, ?_, hk ▸ h.disj, hs ▸ h.sacked, hs ▸ h.doubled, hd.trans h.delivered⟩
  · obtain ⟨p, hm, hpe⟩ := OrdMap.mem_mapVal.mp (ho ▸ he)
    rw [← hpe, (hf _).2]
    exact h.info _ hm
  · rw [ht, hk]
    exact h.sent

theorem Counted.retransmit (h : Counted A D (s.core txs))
    (select : Nat × SentPacket → Bool) (finish : SentPacket → SentPacket) (now : Instant)
    (hf : ∀ p, (finish p).sacked = p.sacked ∧ (finish p).rateInfo = p.rateInfo) :
    Counted A D ((s.retransmitWhere select finish now).1.core
      (txs ++ resendTx (s.retransmitWhere select finish now).1 (s.retransmitWhere select finish now).2)) := by
  refine h.marks (fun e => if select e then finish (SentPacket.resend now e.2) else e.2) (fun e => ?_) rfl
    (firstTxs_resendTx _ _ _) rfl
  split
  · exact hf _
  · exact ⟨rfl, rfl⟩

theorem Counted.sendOne (h : Counted A D (s.core txs)) (q : QueuedPacket) (now : Instant) (hq : q.seq ∉ firstTxs txs) :
    Counted A D ((sendOne s q now).1.core (txs ++ [(Udx.sendOne s q now).2])) := by
  obtain ⟨c, info, hk, e, -⟩ := sendOne_eq s q now
  have hfresh : q.seq ∉ A ∪ openKeys s.outgoing := by
    rw [← show _ = A ∪ openKeys s.outgoing from h.sent, List.mem_toFinset]
    exact hq
  rw [mem_union, not_or] at hfresh
  have hout : ∃ v : SentPacket, v.sacked = false ∧ v.rateInfo.isSome = true ∧
      (Udx.sendOne s q now).1.outgoing = s.outgoing.insert q.seq v := by
    rw [e]
    exact ⟨_, rfl, rfl, rfl⟩
  obtain ⟨v, hv, hvi, hout⟩ := hout
  have hopen : openKeys (Udx.sendOne s q now).1.outgoing = insert q.seq (openKeys s.outgoing) := by
    rw [hout]
    ext k
    rw [mem_insert, mem_openKeys, mem_openKeys]
    simp only [OrdMap.mem_insert]
    constructor
    · rintro ⟨p, he | ⟨hm, -⟩, hs⟩
      · exact .inl (congrArg Prod.fst he)
      · exact .inr ⟨p, hm, hs⟩
    · rintro (rfl | ⟨p, hm, hs⟩)
      · exact ⟨v, .inl rfl, hv⟩
      · refine ⟨p, .inr ⟨hm, fun hk => hfresh.2 ?_⟩, hs⟩
        exact mem_openKeys.mpr ⟨p, hk ▸ hm, hs⟩
  have hsacked : sackedKeys (Udx.sendOne s q now).1.outgoing = sackedKeys s.outgoing := by
    rw [hout]
    ext k
    rw [mem_sackedKeys, mem_sackedKeys]
    simp only [OrdMap.mem_insert]
    constructor
    · rintro ⟨p, he | ⟨hm, -⟩, hs⟩
      · rw [(Prod.mk.inj he).2, hv] at hs
        cases hs
      · exact ⟨p, hm, hs⟩
    · rintro ⟨p, hm, hs⟩
      refine ⟨p, .inr ⟨hm, fun hk => hfresh.1 (h.sacked ?_)⟩, hs⟩
      exact mem_sackedKeys.mpr ⟨p, hk ▸ hm, hs⟩
  have hd : (Udx.sendOne s q now).1.congestion.delivered = s.congestion.delivered := by
    rw [e]
    exact hk.delivered
  refine ⟨fun x hx => ?_, ?_, ?_, ?_, ?_, hd.trans h.delivered⟩ <;> dsimp only [StreamInner.core] at *
  · rw [hout, OrdMap.mem_insert] at hx
    rcases hx with rfl | ⟨hx, -⟩
    · exact hvi
    · exact h.info x hx
  · rw [sendOne_firstTxs, List.toFinset_append, hopen, show _ = A ∪ openKeys s.outgoing from h.sent]
    ext k
    simp only [mem_union, mem_insert, List.mem_toFinset, List.mem_singleton]
    tauto
  · rw [hopen]
    exact disjoint_insert_right.mpr ⟨hfresh.1, h.disj⟩
  · rw [hsacked]
    exact h.sacked
  · rw [hsacked]
    exact h.doubled

theorem card_filter_or (O : Finset Nat) (c k : Nat → Prop) [DecidablePred c] [DecidablePred k] :
    (O.filter (fun q => c q ∨ k q)).card = (O.filter c).card + (O.filter (fun q => ¬ c q ∧ k q)).card := by
  rw [← card_union_of_disjoint]
  · congr 1
    ext q
    simp only [mem_union, mem_filter]
    tauto
  · refine disjoint_left.mpr fun q h₁ h₂ => ?_
    exact (mem_filter.mp h₂).2.1 (mem_filter.mp h₁).2

theorem feedCongestion_outgoing (s : StreamInner) (acked : List (Nat × PacketRateInfo)) (lostCount : Nat) (ctx : Ctx) :
    (feedCongestion s acked lostCount ctx).outgoing = s.outgoing := by
  unfold feedCongestion
  split <;> rfl

theorem feedCongestion_delivered (s : StreamInner) (acked : List (Nat × PacketRateInfo)) (lostCount : Nat) (ctx : Ctx)
    (hlt : s.congestion.delivered < 2 ^ 32) : (feedCongestion s acked lostCount ctx).congestion.delivered =
      wrap32 (s.congestion.delivered + acked.length) := by
  unfold feedCongestion
  split
  · have hk := CongestionController.keeps_onAck s.congestion acked lostCount s.inflight ctx.now ctx.bbr
    refine hk.delivered.trans ?_
    exact wrap32_add_wrap32 _ _
  next he =>
    rw [not_or, not_not] at he
    rw [he.1]
    exact (wrap32_of_lt hlt).symm

theorem keeps_sackPart (s : StreamInner) (h : Header) (data : Bytes) (now : Instant) :
    s.congestion.Keeps (sackPart (ackPart s h now).1 h data).1.congestion := by
  rw [sackPart_fst]
  cases ha : s.accepts h with
  | false =>
    rw [ackPart_of_not s h now ha]
    exact .refl _
  | true =>
    rw [ackPart_of_accepts s h now ha]
    exact (ackScan_keeps { s with sendRwnd := h.recvWindow } h.ack now).congestion

theorem scanAcks_delivered (s : StreamInner) (h : Header) (data : Bytes) (now : Instant) :
    (scanAcks s h data now).1.congestion.delivered = s.congestion.delivered :=
  (lossCongestion_delivered _).trans (keeps_sackPart s h data now).delivered

theorem scanAcks_info (hinfo : ∀ e ∈ s.outgoing, e.2.rateInfo.isSome = true) (h : Header) (data : Bytes)
    (now : Instant) : ∀ e ∈ (scanAcks s h data now).1.outgoing, e.2.rateInfo.isSome = true := by
  intro e he
  obtain ⟨p, hp, hpe⟩ := OrdMap.mem_mapVal.mp he
  rw [sackPart_fst] at hp
  obtain ⟨p', hp', hpe'⟩ := OrdMap.mem_mapVal.mp hp
  rw [ackPart_filter, OrdMap.mem_filter] at hp'
  have h₁ : e.2.rateInfo = p.rateInfo := by
    rw [← hpe]
    split <;> rfl
  have h₂ : p.rateInfo = p'.rateInfo := by
    rw [← show _ = p from hpe']
    unfold markSacked
    split <;> rfl
  rw [h₁, h₂]
  exact hinfo _ hp'.1

theorem Counted.scan (hJ : Counted A D (s.core txs)) (h : Header) (data : Bytes) (ctx : Ctx) :
    Counted (A ∪ (openKeys s.outgoing).filter (fun q => s.covers h q = true ∨ q ∈ packetSacks h data))
      (D + ((sackedKeys s.outgoing).filter (fun q => s.covers h q = true)).card)
      ((feedCongestion (scanAcks s h data ctx.now).1 (scanAcks s h data ctx.now).2.2.1
        (scanAcks s h data ctx.now).2.2.2 ctx).core txs) := by
  have hsent : (firstTxs txs).toFinset = A ∪ openKeys s.outgoing := hJ.sent
  have hdisj : Disjoint A (openKeys s.outgoing) := hJ.disj
  have hsub : sackedKeys s.outgoing ⊆ A := hJ.sacked
  have hdbl : D + (sackedKeys s.outgoing).card ≤ A.card := hJ.doubled
  have hdel : s.congestion.delivered = wrap32 (A.card + D) := hJ.delivered
  have hopen := scanAcks_openKeys s h data ctx.now
  have hsacked := scanAcks_sackedKeys s h data ctx.now
  have hcard := card_union_of_disjoint (hdisj.mono_right
    (filter_subset (fun q => s.covers h q = true ∨ q ∈ packetSacks h data) (openKeys s.outgoing)))
  have hor := card_filter_or (openKeys s.outgoing) (fun q => s.covers h q = true) (· ∈ packetSacks h data)
  refine ⟨?_, ?_, ?_, ?_, ?_, ?_⟩ <;> dsimp only [StreamInner.core] <;> try rw [feedCongestion_outgoing]
  · exact scanAcks_info hJ.info h data ctx.now
  · rw [hopen, hsent]
    ext q
    simp only [mem_union, mem_filter]
    tauto
  · rw [hopen]
    refine disjoint_left.mpr fun q h₁ h₂ => ?_
    obtain ⟨ho, hn⟩ := mem_filter.mp h₂
    rcases mem_union.mp h₁ with h₁ | h₁
    · exact disjoint_left.mp hdisj h₁ ho
    · exact hn (mem_filter.mp h₁).2
  · rw [hsacked]
    intro q hq
    rcases mem_union.mp hq with hq | hq
    · exact mem_union_left _ (hsub (mem_filter.mp hq).1)
    · obtain ⟨ho, -, hk⟩ := mem_filter.mp hq
      exact mem_union_right _ (mem_filter.mpr ⟨ho, .inr hk⟩)
  · rw [hsacked]
    have h₁ := card_union_le ((sackedKeys s.outgoing).filter (fun q => ¬ s.covers h q = true)) (newlySacked s h data)
    unfold newlySacked at h₁ ⊢
    have h₂ := card_filter_add_card_filter_not (s := sackedKeys s.outgoing) (fun q => s.covers h q = true)
    omega
  · have hlt : (scanAcks s h data ctx.now).1.congestion.delivered < 2 ^ 32 := by
      rw [scanAcks_delivered, hdel]
      exact Nat.mod_lt _ (by decide)
    rw [feedCongestion_delivered _ _ _ ctx hlt, scanAcks_delivered, hdel, length_scanAcks s h data ctx.now hJ.info,
      newlySacked, wrap32_wrap32_add, hcard]
    congr 1
    omega

/-- An acknowledgement reports the packets it newly covers, and once more the marked ones it removes. -/
theorem Counted.ackSack (hJ : Counted A D (s.core txs)) (h : Header) (data : Bytes) (ctx : Ctx) :
    Counted (A ∪ (firstTxs txs).toFinset.filter (fun q => s.covers h q = true ∨ q ∈ packetSacks h data))
      (D + ((sackedKeys s.outgoing).filter (fun q => s.covers h q = true)).card)
      ((onAckSack s h data ctx).s.core (txs ++ (onAckSack s h data ctx).out.tx)) := by
  by_cases hn : 0 < h.ack ∨ (h.hasFlag FLAG_SACK && 0 < h.dataOffset.toNat) = true
  · have hsent : (firstTxs txs).toFinset = A ∪ openKeys s.outgoing := hJ.sent
    have hA : A ∪ (firstTxs txs).toFinset.filter (fun q => s.covers h q = true ∨ q ∈ packetSacks h data) =
        A ∪ (openKeys s.outgoing).filter (fun q => s.covers h q = true ∨ q ∈ packetSacks h data) := by
      rw [hsent]
      ext q
      simp only [mem_union, mem_filter]
      tauto
    rw [hA]
    unfold onAckSack
    rw [if_pos hn]
    exact (hJ.scan h data ctx).retransmit (fun e => e.2.lost && !e.2.sacked) (fun p => { p with lost := false }) ctx.now
      fun _ => ⟨rfl, rfl⟩
  · have hnone := not_acked_of_no_fields s hn data
    rw [filter_false_of_mem fun q _ => hnone q, filter_false_of_mem fun q _ hq => hnone q (.inl hq),
      union_empty, card_empty]
    unfold onAckSack
    rw [if_neg hn, List.append_nil]
    exact { hJ with }

/-! ## The run -/

/-- The transmitted numbers the step's packet acknowledges, cumulatively or selectively. -/
def Sys.ackedBy (y : Sys) (e : Ev) : Finset Nat :=
  match y.ackPacket e with
  | some p => y.transmitted.toFinset.filter (fun q => y.inner.covers p.1 q = true ∨ q ∈ packetSacks p.1 p.2)
  | none => ∅

/-- How many packets the step counts that were counted before. -/
def Sys.doubledBy (y : Sys) (e : Ev) : Nat :=
  match y.ackPacket e with
  | some p => ((sackedKeys y.inner.outgoing).filter (fun q => y.inner.covers p.1 q = true)).card
  | none => 0

def acknowledged : Sys → List Ev → Finset Nat
  | _, [] => ∅
  | y, e :: es => y.ackedBy e ∪ acknowledged (y.step e) es

def doubles : Sys → List Ev → Nat
  | _, [] => 0
  | y, e :: es => y.doubledBy e + doubles (y.step e) es

theorem acknowledged_snoc (y : Sys) (es : List Ev) (e : Ev) :
    acknowledged y (es ++ [e]) = acknowledged y es ∪ (run Sys.step y es).ackedBy e := by
  induction es generalizing y with
  | nil => simp [acknowledged]
  | cons e' es ih => rw [List.cons_append, acknowledged, ih, acknowledged, run_cons, union_assoc]

theorem doubles_snoc (y : Sys) (es : List Ev) (e : Ev) :
    doubles y (es ++ [e]) = doubles y es + (run Sys.step y es).doubledBy e := by
  induction es generalizing y with
  | nil => simp [doubles]
  | cons e' es ih => rw [List.cons_append, doubles, ih, doubles, run_cons, Nat.add_assoc]

theorem counted_coreRule (A : Finset Nat) (D : Nat) :
    CoreRule (fun _ _ _ => False) (fun txs q => q ∉ firstTxs txs) (Counted A D) where
  ackSack _ _ _ _ _ _ h := h.elim
  send _ _ q now hF hP := hP.sendOne q now hF
  rto s txs maxSeq now _ hP := by
    have hb : Counted A D ((rtoBackoff s maxSeq).core txs) :=
      { hP with }
    exact hb.retransmit _ id now fun _ => ⟨rfl, rfl⟩

theorem Counted.step (h : Counted A D y.core) (hk : Socketed y)
    (hi : y.issued.Nodup) (e : Ev) : Counted (A ∪ y.ackedBy e) (D + y.doubledBy e) (y.step e).core := by
  cases hp : y.ackPacket e with
  | some p =>
    obtain ⟨hd, data⟩ := p
    obtain ⟨addr, ctx, s, rfl, -, hs, hcore⟩ := step_of_ackPacket hp
    unfold ackedBy doubledBy
    rw [hp, hcore]
    rcases hs with rfl | rfl
    · exact h.ackSack hd data ctx
    · have h' : Counted A D ((y.hookAccepted addr).inner.core y.txs) := h
      exact h'.ackSack hd data ctx
  | none =>
    unfold ackedBy doubledBy
    rw [hp]
    rw [union_empty]
    by_cases he : ∃ q ctx, e = .proc q ctx
    · obtain ⟨q, ctx, rfl⟩ := he
      have r := (counted_coreRule A D).turnRule
        (issued_turnRule (fun y h data => False) (fun _ _ => True) (fun _ _ _ _ h => h) y.issued)
        (issued_flushRule y.issued) fun z q rest hz hq => ⟨hz.1 (.inr (by simp [hq])), fun hm => ?_⟩
      · exact (r.procTurn y q ctx (fun p hm => by rw [hp] at hm; cases hm) ⟨⟨hk, rfl⟩, h⟩).2
      · have hz' := hz.2 ▸ hi
        unfold issued at hz'
        rw [hq] at hz'
        exact (List.nodup_append.mp hz').2.2 _ hm _ List.mem_cons_self rfl
    · rw [(step_of_call y e fun q ctx hq => he ⟨q, ctx, hq⟩).1]
      exact h

theorem counted_after (es : List Ev) (hn : (after es).numbered < 2 ^ 32) :
    Counted (acknowledged {} es) (doubles {} es) (after es).core := by
  induction es using List.reverseRecOn with
  | nil =>
    exact ⟨fun e he => absurd he (OrdMap.not_mem_empty e), rfl, disjoint_empty_left _, empty_subset _,
      Nat.le_refl _, rfl⟩
  | append_singleton es e ih =>
    rw [acknowledged_snoc, doubles_snoc]
    rw [after, run_snoc] at hn ⊢
    have hlt : (after es).numbered < 2 ^ 32 := (numbered_le_step (after es) e).trans_lt hn
    exact (ih hlt).step (socketed_after es) (issued_after es hlt).nodup e

/-- If the step takes a cumulative acknowledgement, no packet it removes has been acknowledged selectively before. -/
def CountsOnce (y : Sys) (e : Ev) : Prop :=
  ∀ p ∈ y.ackPacket e, y.inner.accepts p.1 = true → ∀ x ∈ y.inner.outgoing.entries, x.1 < p.1.ack → x.2.sacked = false

instance (y : Sys) (e : Ev) : Decidable (CountsOnce y e) := inferInstanceAs (Decidable (∀ p ∈ y.ackPacket e, _))

theorem doubledBy_eq_zero {e : Ev} : y.doubledBy e = 0 ↔ CountsOnce y e := by
  unfold doubledBy CountsOnce
  cases hp : y.ackPacket e with
  | none => simp
  | some p =>
    rw [card_eq_zero, filter_eq_empty_iff]
    constructor
    · rintro h p' ⟨⟩ ha x hx hlt
      by_contra hs
      refine h (mem_sackedKeys.mpr ⟨x.2, hx, by simpa using hs⟩) ?_
      simp [covers, ha, hlt]
    · intro h q hq hc
      obtain ⟨x, hx, hs⟩ := mem_sackedKeys.mp hq
      obtain ⟨ha, hlt⟩ := Bool.and_eq_true_iff.mp hc
      rw [h p rfl ha (q, x) hx (by simpa using hlt)] at hs
      cases hs

theorem doubles_eq_zero {es : List Ev} : doubles y es = 0 ↔ Along Sys.step CountsOnce y es := by
  induction es generalizing y with
  | nil => exact ⟨fun _ => trivial, fun _ => rfl⟩
  | cons e es ih =>
    rw [doubles, Nat.add_eq_zero_iff, doubledBy_eq_zero, ih]
    rfl

/-- **The delivered count.** In every run with fewer than `2 ^ 32` packets `delivered` is the number of distinct
transmitted numbers acknowledged if and only if no cumulative acknowledgement on the way removes a packet that was
acknowledged selectively before. -/
theorem delivered_exact (es : List Ev) (hn : (after es).numbered < 2 ^ 32) :
    (after es).inner.congestion.delivered = (acknowledged {} es).card ↔ Along Sys.step CountsOnce {} es := by
  have hc := counted_after es hn
  have hdel : (after es).inner.congestion.delivered = wrap32 ((acknowledged {} es).card + doubles {} es) := hc.delivered
  have hle : doubles {} es ≤ (acknowledged {} es).card := (Nat.le_add_right _ _).trans hc.doubled
  -- everything acknowledged was transmitted, so there are fewer than `2 ^ 32` of it
  have hlt : (acknowledged {} es).card < 2 ^ 32 := by
    have hsub : acknowledged {} es ⊆ Finset.range (after es).numbered := by
      intro q hq
      have hq' : q ∈ (firstTxs (after es).txs).toFinset := by
        rw [show (firstTxs (after es).txs).toFinset = _ from hc.sent]
        exact mem_union_left _ hq
      exact mem_range.mpr ((sender_after es).transmitted_lt hn (List.mem_toFinset.mp hq'))
    have := card_le_card hsub
    rw [card_range] at this
    omega
  rw [← doubles_eq_zero, hdel]
  constructor
  · intro h
    unfold wrap32 at h
    omega
  · intro h
    rw [h]
    exact wrap32_of_lt hlt

/-- Two packets sent; the second is acknowledged selectively. -/
def sackedRun : List Ev :=
  .connect 1 loopback true :: writeNow [1] 0 ++ writeNow [2] 1 ++ [.proc .pacing {}, .proc (.packet (sackAck 0 1 2) loopback) {}]

theorem delivered_exact_sackedRun :
    (after sackedRun).inner.congestion.delivered = (acknowledged {} sackedRun).card ∧ acknowledged {} sackedRun = {1} :=
  ⟨(delivered_exact sackedRun (by decide)).mpr (by decide), by decide⟩

/-- When both are then acknowledged cumulatively the second one is counted again. -/
theorem delivered_exact_fails : let run := sackedRun ++ [.proc (.packet (pureAck 2) loopback) {}]
    (after run).inner.congestion.delivered = 3 ∧ acknowledged {} run = {0, 1} := by
  decide

end Peeroxide.Udx
