import Mathlib.Data.List.Range
import Peeroxide.Udx.Delivery

/-!
# Every number is sent once

A number is issued when its packet is queued, and transmitted when the flush takes the packet from the queue. Turns of
the processor only move numbers from the queue to the wire; a call that queues packets takes numbers of its own block.
-/

namespace Peeroxide.Udx
open Lib StreamInner Sys
open List hiding after
variable {i j mp q : Nat} {packets : List (Nat × Bytes)} {t : Turn} {w : Write} {y : Sys}

/-- The numbers of first transmissions, each registered in `outgoing` when it was sent. -/
def firstTxs (txs : List Tx) : List Nat := (txs.filter (fun t => !t.again)).map Tx.seq

def Sys.transmitted (y : Sys) : List Nat := firstTxs y.txs

def Sys.issued (y : Sys) : List Nat := y.transmitted ++ y.inner.sendQueue.map QueuedPacket.seq

theorem firstTxs_append (txs new : List Tx) : firstTxs (txs ++ new) = firstTxs txs ++ firstTxs new := by
  simp [firstTxs]

theorem firstTxs_again {txs : List Tx} (h : ∀ t ∈ txs, t.again = true) : firstTxs txs = [] := by
  have : txs.filter (fun t => !t.again) = [] := filter_eq_nil_iff.mpr fun t ht => by simp [h t ht]
  simp [firstTxs, this]

variable (s : StreamInner) (txs : List Tx)

theorem firstTxs_resendTx (s : StreamInner) (resent : List (Nat × Bytes)) :
    firstTxs (txs ++ resendTx s resent) = firstTxs txs := by
  have h : ∀ t ∈ resendTx s resent, t.again = true := by
    intro t ht
    obtain ⟨addr, p, -, rfl⟩ := mem_resendTx ht
    rfl
  rw [firstTxs_append, firstTxs_again h, append_nil]

theorem onAckSack_firstTxs (h : Header) (data : Bytes) (ctx : Ctx) :
    firstTxs (txs ++ (onAckSack s h data ctx).out.tx) = firstTxs txs := by
  unfold onAckSack
  split
  · exact firstTxs_resendTx _ _ _
  · rw [append_nil]

theorem sendOne_firstTxs (q : QueuedPacket) (now : Instant) :
    firstTxs (txs ++ [(sendOne s q now).2]) = firstTxs txs ++ [q.seq] := by
  rw [firstTxs_append]
  rfl

theorem Sender.transmitted_lt (h : Sender y) (hn : y.numbered < 2 ^ 32) (hq : q ∈ y.transmitted) :
    q < y.numbered := by
  obtain ⟨t, ht, rfl⟩ := mem_map.mp hq
  obtain ⟨item, pad, hs, -⟩ := (h.sent hn).core.txs t (mem_of_mem_filter ht)
  rw [← h.length_slots]
  exact (List.getElem?_eq_some_iff.mp hs).1

/-! ## A turn -/

theorem issued_apply (hq : t.s.sendQueue = y.inner.sendQueue)
    (ht : firstTxs (y.txs ++ t.out.tx) = firstTxs y.txs) : (y.apply t).issued = y.issued := by
  unfold issued transmitted
  rw [apply_inner, hq]
  exact congrArg (· ++ _) ht

theorem issued_quiet (hq : t.s.sendQueue = y.inner.sendQueue) (ht : t.out.tx = []) : (y.apply t).issued = y.issued :=
  issued_apply hq (by rw [ht, append_nil])

theorem issued_flushRule (l : List Nat) : FlushRule (fun z => Socketed z ∧ z.issued = l) := by
  refine ⟨fun z c _ h => h, fun z q rest now hq h => ⟨socketed_flushRule.send z q rest now hq h.1, ?_⟩⟩
  have hu : z.inner.udp = true := h.1 (.inr (by simp [hq]))
  have hrest : (sendOne { z.inner with sendQueue := rest } q now).1.sendQueue = rest :=
    congrArg Rest.sendQueue (sendOne_rest { z.inner with sendQueue := rest } q now)
  have hz := h.2
  unfold issued transmitted at hz ⊢
  rw [hq] at hz
  dsimp only [record, setInner]
  rw [hrest, if_pos hu, sendOne_firstTxs, append_assoc, ← hz]
  rfl

theorem issued_turnRule (C : Sys → Header → Bytes → Prop) (D : Header → Bytes → Prop)
    (hC : ∀ y addr h data, C y h data → C (y.hookAccepted addr) h data) (l : List Nat) :
    TurnRule C D (fun z => Socketed z ∧ z.issued = l) :=
  have k := socketed_stepRule C D hC
  { gate := hC
    proc := fun _ _ h => h
    hookTaken := fun _ h => h
    hookAccepted := by
      intro y addr h
      refine ⟨k.hookAccepted y addr h.1, Eq.trans ?_ h.2⟩
      unfold issued transmitted
      dsimp only [hookAccepted, setInner]
      rw [map_map]
      refine congrArg (_ ++ ·) (map_congr_left fun q _ => ?_)
      dsimp only [Function.comp]
      split <;> rfl
    relay := by
      intro y data dest hr h
      exact ⟨k.relay y data dest hr h.1, relay_ind y data dest fun _ _ _ => (issued_quiet rfl rfl).trans h.2⟩
    ackSack := fun y h data ctx hd hD hc hJ => ⟨k.ackSack y h data ctx hd hD hc hJ.1,
      (issued_apply (congrArg Rest.sendQueue (onAckSack_rest y.inner h data ctx))
        (onAckSack_firstTxs y.inner y.txs h data ctx)).trans hJ.2⟩
    data := by
      intro y h data hd hD hJ
      exact ⟨k.data y h data hd hD hJ.1, data_ind y h data fun _ _ _ _ => (issued_quiet rfl rfl).trans hJ.2⟩
    destroy := fun y h data hd hD hf hJ => ⟨k.destroy y h data hd hD hf hJ.1, (issued_quiet rfl rfl).trans hJ.2⟩
    heartbeat := fun y h hJ => ⟨k.heartbeat y h hJ.1, (issued_quiet rfl rfl).trans hJ.2⟩
    pacing := fun y shuttingDown now hJ => (issued_flushRule l).onPacing y shuttingDown now hJ
    rto := by
      intro y now hJ
      refine ⟨k.rto y now hJ.1, (issued_apply (congrArg Rest.sendQueue (onRto_rest y.inner now)) ?_).trans hJ.2⟩
      rcases onRto_cases y.inner now with e | ⟨completed, e⟩ | ⟨maxSeq, -, e⟩ <;> rw [e]
      · rw [append_nil]
      · rw [append_nil]
      · exact firstTxs_resendTx _ _ _
    keepalive := fun y hJ => ⟨k.keepalive y hJ.1, (issued_quiet rfl rfl).trans hJ.2⟩
    finish := fun y hJ => ⟨k.finish y hJ.1, (issued_quiet rfl rfl).trans hJ.2⟩ }

theorem issued_procTurn (hk : Socketed y) (e : ProcEvent) (ctx : Ctx) : (y.procTurn e ctx).issued = y.issued :=
  ((issued_turnRule (fun _ _ _ => True) (fun _ _ => True) (fun _ _ _ _ h => h) y.issued).procTurn y e ctx
    (fun _ _ => ⟨trivial, trivial⟩) ⟨hk, rfl⟩).2

/-! ## Blocks -/

theorem sum_take_le {ws : List Write} (hw : ws[i]? = some w) (hij : i < j) :
    ((ws.take i).map Write.count).sum + w.count ≤ ((ws.take j).map Write.count).sum := by
  obtain ⟨hlt, rfl⟩ := List.getElem?_eq_some_iff.mp hw
  have e : ws.take j = ws.take i ++ ws[i] :: (ws.take j).drop (i + 1) := by
    have h := (take_append_drop i (ws.take j)).symm
    rwa [take_take, Nat.min_eq_left (by omega), drop_eq_getElem_cons (by simp; omega), getElem_take] at h
  rw [e, map_append, sum_append, map_cons, sum_cons]
  omega

section
variable (h : Ledger y) (hn : y.numbered < 2 ^ 32)
include h hn

/-- Below `2 ^ 32` the numbers of a write are a block behind those of the writes before it. -/
theorem Ledger.reserved_eq (hw : y.writes[i]? = some w) :
    w.reserved = (List.range w.count).map (((y.writes.take i).map Write.count).sum + ·) ∧
    w.ackThreshold = ((y.writes.take i).map Write.count).sum + w.count := by
  have hok := h.ok w (mem_of_getElem? hw)
  have hfirst := (h.first i w hw).1
  have hsplit := numbered_split hw
  rw [wrap32_of_lt (by omega)] at hfirst
  constructor
  · rw [hok.reserved_eq, wrap32_of_lt (by omega), hfirst]
    refine map_congr_left fun j hj => ?_
    rw [mem_range] at hj
    exact wrap32_of_lt (by omega)
  · rw [hok.threshold, wrap32_add_wrap32, wrap32_of_lt (by omega), hfirst]

theorem Ledger.mem_reserved (hw : y.writes[i]? = some w) (hq : q ∈ w.reserved) :
    ((y.writes.take i).map Write.count).sum ≤ q ∧ q < ((y.writes.take i).map Write.count).sum + w.count := by
  rw [(h.reserved_eq hn hw).1] at hq
  obtain ⟨j, hj, rfl⟩ := mem_map.mp hq
  rw [mem_range] at hj
  omega

theorem Ledger.reserved_inj {v : Write}
    (hv : y.writes[i]? = some v) (hw : y.writes[j]? = some w) (hqv : q ∈ v.reserved) (hqw : q ∈ w.reserved) :
    i = j := by
  have h₁ := h.mem_reserved hn hv hqv
  have h₂ := h.mem_reserved hn hw hqw
  rcases Nat.lt_trichotomy i j with hlt | heq | hgt
  · have := sum_take_le hv hlt
    omega
  · exact heq
  · have := sum_take_le hw hgt
    omega

end

theorem numbers_sublist (h : Ledger y) (hs : Sizes y) (hn : y.numbered < 2 ^ 32)
    (hw : y.writes[i]? = some w) (hst : w.stage = .cut mp packets) :
    List.Sublist (packets.map Prod.fst) w.reserved := by
  have hmem := mem_of_getElem? hw
  have hok := h.ok w hmem
  have hsplit := numbered_split hw
  have hcount := hok.count
  rw [hok.cut mp packets (.inl hst), hok.reserved_eq, wrap32_of_lt (by omega)]
  unfold Write.packetsAt
  cases hf : w.fin with
  | true =>
    rw [hf] at hcount
    rw [hcount]
    simp [wrap32_of_lt hok.first_lt]
  | false =>
    have hle := length_chunks_le hok (hs w hmem) hf ((hs w hmem).cut mp packets (.inl hst))
    rw [length_chunks] at hle
    rw [if_neg (by simp), map_fst_dataPackets]
    exact (range_sublist.mpr hle).map _

/-! ## The run -/

/-- The numbers issued come from the blocks of the queued writes, each once. -/
structure Issued (y : Sys) : Prop where
  nodup : y.issued.Nodup
  block : ∀ q ∈ y.issued, ∃ (i : Nat) (w : Write) (mp : Nat) (packets : List (Nat × Bytes)),
    y.writes[i]? = some w ∧ w.stage = .queued mp packets ∧ q ∈ w.reserved

theorem Issued.same (h : Issued y) {e : Ev} (hi : (y.step e).issued = y.issued) : Issued (y.step e) := by
  refine ⟨hi ▸ h.nodup, fun q hq => ?_⟩
  obtain ⟨i, w, mp, packets, hw, hst, hr⟩ := h.block q (hi ▸ hq)
  exact ⟨i, w, mp, packets, (writes_step y e).queued hw hst, hst, hr⟩

theorem Issued.queue (h : Issued y) (hl : Ledger y) (hs : Sizes y) (hn : y.numbered < 2 ^ 32)
    (hw : y.writes[i]? = some w) (hst : w.stage = .cut mp packets) {e : Ev}
    (hwrites : (y.step e).writes = y.writes.set i { w with stage := .queued mp packets })
    (hi : (y.step e).issued = y.issued ++ packets.map Prod.fst) : Issued (y.step e) := by
  have hsub := numbers_sublist hl hs hn hw hst
  have hnd : w.reserved.Nodup := by
    rw [(hl.reserved_eq hn hw).1]
    exact nodup_range.map fun a b hab => by simpa using hab
  constructor
  · rw [hi]
    refine nodup_append.mpr ⟨h.nodup, hsub.nodup hnd, ?_⟩
    rintro q hq r hr rfl
    obtain ⟨j, v, mp', packets', hv, hst', hqv⟩ := h.block q hq
    obtain rfl := hl.reserved_inj hn hw hv (hsub.subset hr) hqv
    obtain rfl := Option.some.inj (hw.symm.trans hv)
    rw [hst] at hst'
    cases hst'
  · intro q hq
    rw [hi] at hq
    rcases mem_append.mp hq with hq | hq
    · obtain ⟨j, v, mp', packets', hv, hst', hqv⟩ := h.block q hq
      exact ⟨j, v, mp', packets', (writes_step y e).queued hv hst', hst', hqv⟩
    · rw [hwrites]
      exact ⟨i, _, mp, packets, getElem?_set_self (List.getElem?_eq_some_iff.mp hw).1, rfl, hsub.subset hq⟩

theorem Issued.step (h : Issued y) (hs : Sender y) (hn : y.numbered < 2 ^ 32) (e : Ev) : Issued (y.step e) := by
  by_cases he : ∃ q ctx, e = .proc q ctx
  · obtain ⟨q, ctx, rfl⟩ := he
    exact h.same (issued_procTurn hs.socketed q ctx)
  · obtain ⟨hcore, hqueue⟩ := step_of_call y e fun q ctx hq => he ⟨q, ctx, hq⟩
    have htxs : (y.step e).transmitted = y.transmitted := congrArg (fun c : Core => firstTxs c.txs) hcore
    obtain heq | ⟨i, now, w, mp, packets, -, hw, hst, hwrites, heq⟩ := hqueue
    · exact h.same (by rw [issued, htxs, heq, issued])
    · refine h.queue hs.ledger hs.sizes hn hw hst hwrites ?_
      rw [issued, htxs, heq, map_append, map_map, ← append_assoc]
      rfl

/-- **In every run with fewer than `2 ^ 32` packets every number is issued at most once.** -/
theorem issued_after (es : List Ev) (hn : (after es).numbered < 2 ^ 32) : Issued (after es) := by
  induction es using List.reverseRecOn with
  | nil => exact ⟨nodup_nil, fun q hq => by cases hq⟩
  | append_singleton es e ih =>
    rw [after, run_snoc] at hn ⊢
    have hlt : (after es).numbered < 2 ^ 32 := (numbered_le_step (after es) e).trans_lt hn
    exact (ih hlt).step (sender_after es) hlt e

/-- **The blocks reserved by the writes follow each other in order, an END last. While their numbers have not wrapped,
none is queued or newly sent twice, and all that is ever sent under one carries what its write put there.** -/
theorem numbers_used_once (es : List Ev) : let y := after es
    (∀ i w, y.writes[i]? = some w → w.prep.firstSeq = wrap32 ((y.writes.take i).map Write.count).sum ∧
      (w.fin = true → i + 1 = y.writes.length)) ∧
    (y.numbered < 2 ^ 32 → y.issued.Nodup ∧
      ∀ t ∈ y.txs, ∃ item pad, y.slots[t.seq]? = some (some item) ∧ IsWire t.seq item pad t.packet) := by
  have hs := sender_after es
  exact ⟨fun i w hw => ⟨(hs.ledger.first i w hw).1, hs.ledger.fin_last i w hw⟩,
    fun hn => ⟨(issued_after es hn).nodup, (hs.sent hn).core.txs⟩⟩

end Peeroxide.Udx
