import Peeroxide.Udx.Delivered

/-!
# Leaving recovery

The controller leaves recovery when the greatest number an acknowledgement reports reaches the boundary recorded when
recovery began. A selective acknowledgement may report the boundary while packets below it are still missing.

Main result: `recovery_exit`.
-/

namespace Peeroxide.Udx
open Lib StreamInner Sys OrdMap
open CongestionController (maxAcked)
variable {data : Bytes} {h : Header} {now : Instant} {q : Nat} {s : StreamInner} {txs : List Tx} {y : Sys}

/-! ## The boundary -/

/-- The packets outstanding once the acknowledgement fields of a packet are read. -/
def StreamInner.ackedPackets (s : StreamInner) (h : Header) (data : Bytes) : OrdMap Nat SentPacket :=
  (s.outgoing.filter (fun e => !s.covers h e.1)).mapVal (markSacked (packetSacks h data))

/-- The recovery boundary in force when the acknowledgement is reported: that of the recovery under way, or the greatest
number left outstanding when the packet reveals losses and so begins one. -/
def recoveryBoundary (s : StreamInner) (h : Header) (data : Bytes) : Option Nat :=
  if s.congestion.caState = .opened then
    if lostSeqs { s with outgoing := s.ackedPackets h data } = [] then none else (s.ackedPackets h data).lastKey?
  else some s.congestion.highSeq

/-- The numbers it leaves neither acknowledged nor marked. -/
def leftOpen (s : StreamInner) (h : Header) (data : Bytes) : Finset Nat :=
  (openKeys s.outgoing).filter (fun q => ¬ (s.covers h q = true ∨ q ∈ packetSacks h data))

theorem sackPart_outgoing (s : StreamInner) (h : Header) (data : Bytes) (now : Instant) :
    (sackPart (ackPart s h now).1 h data).1.outgoing = s.ackedPackets h data := by
  rw [sackPart_fst, StreamInner.ackedPackets, ackPart_filter]

theorem lostSeqs_congr {s' : StreamInner} (h : s'.outgoing = s.outgoing) : s'.lostSeqs = s.lostSeqs := by
  unfold lostSeqs highestSacked
  rw [h]

/-- The boundary is what the controller holds after loss detection, if it is in recovery then. -/
theorem recoveryBoundary_eq (s : StreamInner) (h : Header) (data : Bytes) (now : Instant) :
    recoveryBoundary s h data = if (scanAcks s h data now).1.congestion.caState = .opened then none
      else some (scanAcks s h data now).1.congestion.highSeq := by
  have hout := sackPart_outgoing s h data now
  have hkeep := keeps_sackPart s h data now
  show _ = if (sackPart (ackPart s h now).1 h data).1.lossCongestion.caState = .opened then none
    else some (sackPart (ackPart s h now).1 h data).1.lossCongestion.highSeq
  generalize (sackPart (ackPart s h now).1 h data).1 = t at hout hkeep ⊢
  have hlost : t.lostSeqs = lostSeqs { s with outgoing := s.ackedPackets h data } := lostSeqs_congr hout
  unfold recoveryBoundary
  by_cases ho : s.congestion.caState = .opened
  · rw [if_pos ho, ← hlost]
    by_cases hl : t.lostSeqs = []
    · have hk := hkeep.trans (t.lossCongestion_keeps (.inl hl))
      rw [if_pos hl, if_pos (hk.caState.trans ho)]
    · obtain ⟨h₁, h₂⟩ := t.lossCongestion_recovery hl (hkeep.caState.trans ho)
      rw [if_neg hl, h₁, if_neg (by simp), ← hout, h₂]
  · have hk := hkeep.trans (t.lossCongestion_keeps (.inr fun h => ho (hkeep.caState.symm.trans h)))
    rw [if_neg ho, if_neg (fun h => ho (hk.caState.symm.trans h)), hk.highSeq]

/-! ## The exit test -/

theorem le_foldl_max (l : List Nat) (a b : Nat) : b ≤ l.foldl max a ↔ b ≤ a ∨ ∃ q ∈ l, b ≤ q := by
  induction l generalizing a with
  | nil => simp
  | cons q l ih =>
    rw [List.foldl_cons, ih]
    simp [or_assoc]

theorem le_maxAcked (acked : List (Nat × PacketRateInfo)) (b : Nat) :
    b ≤ maxAcked acked ↔ b = 0 ∨ ∃ q ∈ acked.map Prod.fst, b ≤ q := by
  rw [maxAcked, le_foldl_max, Nat.le_zero]

theorem feedCongestion_opened (s : StreamInner) (acked : List (Nat × PacketRateInfo)) (lostCount : Nat) (ctx : Ctx) :
    (feedCongestion s acked lostCount ctx).congestion.highSeq = s.congestion.highSeq ∧
    ((feedCongestion s acked lostCount ctx).congestion.caState = .opened ↔ s.congestion.caState = .opened ∨
      (acked ≠ [] ∨ 0 < lostCount) ∧ s.congestion.highSeq ≤ maxAcked acked) := by
  unfold feedCongestion
  by_cases hf : acked ≠ [] ∨ 0 < lostCount
  · have hk := CongestionController.keeps_onAck s.congestion acked lostCount s.inflight ctx.now ctx.bbr
    rw [if_pos hf, hk.caState]
    refine ⟨hk.highSeq, ?_⟩
    show (if _ then _ else _) = _ ↔ _
    by_cases ho : s.congestion.caState = .opened <;> simp [hf, ho]
  · simp [hf]

theorem mem_acked (hinfo : ∀ e ∈ s.outgoing, e.2.rateInfo.isSome = true)
    (hq : q ∈ (scanAcks s h data now).2.2.1.map Prod.fst) : s.covers h q = true ∨ q ∈ newlySacked s h data := by
  have hq' : q ∈ ((ackPart s h now).2.2 ++ (sackPart (ackPart s h now).1 h data).2).map Prod.fst := hq
  rw [List.map_append, ackPart_acked s h now hinfo, List.mem_append] at hq'
  rcases hq' with hq' | hq'
  · obtain ⟨p, hp⟩ := mem_keys.mp hq'
    exact .inl (mem_filter.mp hp).2
  · right
    rw [← (sackPart_acked s h data now hinfo).2, List.mem_toFinset]
    exact hq'

theorem maxAcked_of_newlySacked (now : Instant)
    (hinfo : ∀ e ∈ s.outgoing, e.2.rateInfo.isSome = true) (hq : q ∈ newlySacked s h data) :
    (scanAcks s h data now).2.2.1 ≠ [] ∧ q ≤ maxAcked (scanAcks s h data now).2.2.1 := by
  rw [← (sackPart_acked s h data now hinfo).2, List.mem_toFinset] at hq
  have hm : q ∈ ((ackPart s h now).2.2 ++ (sackPart (ackPart s h now).1 h data).2).map Prod.fst := by
    rw [List.map_append]
    exact List.mem_append_right _ hq
  exact ⟨fun he => List.ne_nil_of_mem hm (congrArg _ he), (le_maxAcked _ _).mpr (.inr ⟨q, hm, le_rfl⟩)⟩

/-! ## The epoch invariant -/

/-- In recovery no packet above the boundary is marked. -/
structure Epoch (c : Core) : Prop where
  info : ∀ e ∈ c.outgoing, e.2.rateInfo.isSome = true
  bound : c.caState ≠ .opened → ∀ q ∈ sackedKeys c.outgoing, q ≤ c.highSeq

/-- Before the report, a mark above the boundary is a new one. -/
theorem Epoch.scan (hJ : Epoch (s.core txs)) (h : Header) (data : Bytes) (now : Instant)
    (ho : (scanAcks s h data now).1.congestion.caState ≠ .opened)
    (hq : q ∈ sackedKeys (scanAcks s h data now).1.outgoing) :
    q ≤ (scanAcks s h data now).1.congestion.highSeq ∨ q ∈ newlySacked s h data := by
  have hb := recoveryBoundary_eq s h data now
  rw [if_neg ho] at hb
  rw [scanAcks_sackedKeys] at hq
  rcases Finset.mem_union.mp hq with hq | hq
  · left
    obtain ⟨hs, hc⟩ := Finset.mem_filter.mp hq
    unfold recoveryBoundary at hb
    by_cases hso : s.congestion.caState = .opened
    · rw [if_pos hso] at hb
      split at hb
      · cases hb
      · obtain ⟨p, hp, -⟩ := mem_sackedKeys.mp hs
        have hm : (q, markSacked (packetSacks h data) (q, p)) ∈ s.ackedPackets h data :=
          mem_mapVal.mpr ⟨p, mem_filter.mpr ⟨hp, by simpa using hc⟩, rfl⟩
        exact le_lastKey hb hm
    · rw [if_neg hso] at hb
      rw [← Option.some.inj hb]
      exact hJ.bound hso q hs
  · exact .inr hq

theorem Epoch.marks {c c' : Core} (h : Epoch c) (f : Nat × SentPacket → SentPacket)
    (hf : ∀ e, (f e).sacked = e.2.sacked ∧ (f e).rateInfo = e.2.rateInfo) (ho : c'.outgoing = c.outgoing.mapVal f)
    (hb : c'.caState ≠ .opened → ∀ q ∈ sackedKeys c.outgoing, q ≤ c'.highSeq) : Epoch c' := by
  have hs := (keys_marks (m := c.outgoing) fun e => (hf e).1).2
  rw [← ho] at hs
  refine ⟨fun e he => ?_, fun hc q hq => hb hc q (hs ▸ hq)⟩
  obtain ⟨p, hm, hpe⟩ := mem_mapVal.mp (ho ▸ he)
  rw [← hpe, (hf _).2]
  exact h.info _ hm

theorem Epoch.retransmit (h : Epoch (s.core txs)) (txs' : List Tx)
    (select : Nat × SentPacket → Bool) (finish : SentPacket → SentPacket) (now : Instant)
    (hf : ∀ p, (finish p).sacked = p.sacked ∧ (finish p).rateInfo = p.rateInfo) :
    Epoch ((s.retransmitWhere select finish now).1.core txs') := by
  refine h.marks (fun e => if select e then finish (SentPacket.resend now e.2) else e.2) (fun e => ?_) rfl h.bound
  split
  · exact hf _
  · exact ⟨rfl, rfl⟩

/-- A report that does not leave recovery has reached no number at the boundary. -/
theorem Epoch.feed (hJ : Epoch (s.core txs)) (h : Header) (data : Bytes) (ctx : Ctx)
    (txs' : List Tx) : Epoch ((feedCongestion (scanAcks s h data ctx.now).1 (scanAcks s h data ctx.now).2.2.1
      (scanAcks s h data ctx.now).2.2.2 ctx).core txs') := by
  set a := scanAcks s h data ctx.now
  obtain ⟨hhigh, hstate⟩ := feedCongestion_opened a.1 a.2.2.1 a.2.2.2 ctx
  refine ⟨?_, fun ho q hq => ?_⟩ <;> dsimp only [StreamInner.core] at *
  · rw [feedCongestion_outgoing]
    exact scanAcks_info hJ.info h data ctx.now
  · rw [feedCongestion_outgoing] at hq
    rw [hhigh]
    rw [Ne, hstate, not_or] at ho
    rcases hJ.scan h data ctx.now ho.1 hq with hle | hnew
    · exact hle
    · obtain ⟨hne, hmax⟩ := maxAcked_of_newlySacked ctx.now hJ.info hnew
      by_contra hlt
      exact ho.2 ⟨.inl hne, (Nat.le_of_not_le hlt).trans hmax⟩

theorem epoch_coreRule : CoreRule (fun _ _ _ => True) (fun _ _ => True) Epoch where
  ackSack s txs h data ctx _ _ hJ := by
    unfold onAckSack
    split
    · exact (hJ.feed h data ctx txs).retransmit _ (fun e => e.2.lost && !e.2.sacked) (fun p => { p with lost := false })
        ctx.now fun _ => ⟨rfl, rfl⟩
    · exact ⟨hJ.info, hJ.bound⟩
  send s txs q now _ hJ := by
    obtain ⟨c, info, hk, e, -⟩ := sendOne_eq s q now
    rw [e]
    refine ⟨fun x hx => ?_, fun ho k hkm => ?_⟩ <;> dsimp only [StreamInner.core] at *
    · rcases mem_insert.mp hx with rfl | ⟨hx, -⟩
      · rfl
      · exact hJ.info x hx
    · obtain ⟨p, hp, hs⟩ := mem_sackedKeys.mp hkm
      rcases mem_insert.mp hp with he | ⟨hp, -⟩
      · rw [(Prod.mk.inj he).2] at hs
        cases hs
      · rw [hk.highSeq]
        exact hJ.bound (fun h => ho (hk.caState.trans h)) k (mem_sackedKeys.mpr ⟨p, hp, hs⟩)
  rto s txs maxSeq now hm hJ := by
    have hb : Epoch ((rtoBackoff s maxSeq).core txs) := by
      refine ⟨hJ.info, fun _ q hq => ?_⟩
      obtain ⟨p, hp, -⟩ := mem_sackedKeys.mp hq
      exact le_lastKey hm hp
    exact hb.retransmit _ (fun e => !e.2.sacked) id now fun _ => ⟨rfl, rfl⟩

theorem epoch_after (es : List Ev) : Epoch (after es).core :=
  epoch_coreRule.after ⟨fun e he => absurd he (not_mem_empty e), fun h => absurd rfl h⟩ es

/-- **Each packet outstanding has its rate sample, and in recovery none above the boundary is marked.** -/
theorem marks_within_boundary (es : List Ev) : let s := (after es).inner
    (∀ e ∈ s.outgoing, e.2.rateInfo.isSome = true) ∧
      (s.congestion.caState ≠ .opened → ∀ q ∈ sackedKeys s.outgoing, q ≤ s.congestion.highSeq) :=
  ⟨(epoch_after es).info, (epoch_after es).bound⟩

/-! ## Leaving recovery -/

/-- The stream before and after the call of `on_ack` for a packet that has passed the gate. -/
def aroundOnAck (s : StreamInner) (h : Header) (data : Bytes) (ctx : Ctx) : Option (StreamInner × StreamInner) :=
  if 0 < h.ack ∨ (h.hasFlag FLAG_SACK && 0 < h.dataOffset.toNat) then
    let a := scanAcks s h data ctx.now
    some (a.1, feedCongestion a.1 a.2.2.1 a.2.2.2 ctx)
  else none

/-- The stream before and after the call of `on_ack` in a step. -/
def Sys.aroundOnAck (y : Sys) : Ev → Option (StreamInner × StreamInner)
  | .proc (.packet data addr) ctx =>
    match y.ackPacket (.proc (.packet data addr) ctx) with
    | some (h, _) =>
      match firewallGate y.inner h addr with
      | .pass s => Udx.aroundOnAck s h data ctx
      | _ => none
    | none => none
  | _ => none

/-- If the step leaves recovery, no packet up to the boundary is left neither acknowledged nor marked. -/
def LeavesResolved (y : Sys) (e : Ev) : Prop :=
  ∀ p ∈ y.aroundOnAck e, p.1.congestion.caState ≠ .opened → p.2.congestion.caState = .opened →
    ∀ x ∈ p.2.outgoing.entries, x.1 ≤ p.1.congestion.highSeq → x.2.sacked = true

instance (y : Sys) (e : Ev) : Decidable (LeavesResolved y e) := inferInstanceAs (Decidable (∀ p ∈ y.aroundOnAck e, _))

/-- If the step's packet newly marks a number at or above the boundary in force, every number it leaves open lies above
the boundary. -/
def EpochClosed (y : Sys) (e : Ev) : Prop :=
  ∀ p ∈ y.ackPacket e, ∀ b ∈ recoveryBoundary y.inner p.1 p.2, ∀ k ∈ newlySacked y.inner p.1 p.2, b ≤ k →
    ∀ q ∈ leftOpen y.inner p.1 p.2, b < q

instance (y : Sys) (e : Ev) : Decidable (EpochClosed y e) := inferInstanceAs (Decidable (∀ p ∈ y.ackPacket e, _))

theorem sackedKeys_of_lost
    (hl : 0 < (scanAcks s h data now).2.2.2) : ∃ k, k ∈ sackedKeys (scanAcks s h data now).1.outgoing := by
  have hne : (sackPart (ackPart s h now).1 h data).1.lostSeqs ≠ [] := by
    intro he
    have hz : (scanAcks s h data now).2.2.2 = wrap32 (sackPart (ackPart s h now).1 h data).1.lostSeqs.length := rfl
    rw [hz, he] at hl
    exact absurd hl (by decide)
  unfold lostSeqs at hne
  split at hne
  · exact absurd rfl hne
  next high hmax =>
    have hm := List.max?_mem hmax
    obtain ⟨p, hp⟩ := mem_keys.mp hm
    refine ⟨high, ?_⟩
    have hk : sackedKeys (scanAcks s h data now).1.outgoing =
        sackedKeys (sackPart (ackPart s h now).1 h data).1.outgoing := by
      refine (keys_marks fun e => ?_).2
      split <;> rfl
    rw [hk]
    exact mem_sackedKeys.mpr ⟨p, (mem_filter.mp hp).1, (mem_filter.mp hp).2⟩

/-- One report: recovery is left resolved just when no newly marked number reaches the boundary over an open one. -/
theorem exit_iff (hJ : Epoch (s.core txs)) (h : Header) (data : Bytes) (ctx : Ctx) :
    ((scanAcks s h data ctx.now).1.congestion.caState ≠ .opened →
      (feedCongestion (scanAcks s h data ctx.now).1 (scanAcks s h data ctx.now).2.2.1
        (scanAcks s h data ctx.now).2.2.2 ctx).congestion.caState = .opened →
      ∀ q ∈ leftOpen s h data, (scanAcks s h data ctx.now).1.congestion.highSeq < q) ↔
    ∀ b ∈ recoveryBoundary s h data, ∀ k ∈ newlySacked s h data, b ≤ k → ∀ q ∈ leftOpen s h data, b < q := by
  set a := scanAcks s h data ctx.now
  have hstate := (feedCongestion_opened a.1 a.2.2.1 a.2.2.2 ctx).2
  have hb : recoveryBoundary s h data = if a.1.congestion.caState = .opened then none else some a.1.congestion.highSeq :=
    recoveryBoundary_eq s h data ctx.now
  constructor
  · intro hres b hbm k hk hle
    -- the report of `k` passes the exit test
    rw [hb] at hbm
    by_cases ho : a.1.congestion.caState = .opened
    · rw [if_pos ho] at hbm
      cases hbm
    · rw [if_neg ho] at hbm
      cases hbm
      obtain ⟨hne, hmax⟩ := maxAcked_of_newlySacked ctx.now hJ.info hk
      exact hres ho (hstate.mpr (.inr ⟨.inl hne, hle.trans hmax⟩))
  · intro hcond ho hopen q hq
    rw [if_neg ho] at hb
    by_contra hlt
    obtain ⟨hqo, hqn⟩ := Finset.mem_filter.mp hq
    rw [not_or] at hqn
    -- no number reported reaches the boundary
    have hreach : ∀ k ∈ a.2.2.1.map Prod.fst, k < a.1.congestion.highSeq := by
      intro k hk
      by_contra hge
      rcases mem_acked hJ.info hk with hc | hnew
      · obtain ⟨ha, hka⟩ := Bool.and_eq_true_iff.mp hc
        have hka' : k < h.ack := by simpa using hka
        exact hqn.1 (by simp only [covers, ha, Bool.true_and, decide_eq_true_eq]; omega)
      · have := hcond _ hb k hnew (by omega) q hq
        omega
    obtain ⟨hfed, hmax⟩ := (hstate.mp hopen).resolve_left ho
    rcases (le_maxAcked _ _).mp hmax with hz | ⟨k, hk, hle⟩
    · have hnil : a.2.2.1 = [] := by
        by_contra hne
        obtain ⟨a, ha⟩ := List.exists_mem_of_ne_nil _ hne
        have := hreach a.1 (List.mem_map_of_mem ha)
        omega
      obtain ⟨k, hk⟩ := sackedKeys_of_lost (hfed.resolve_left (fun hne => hne hnil))
      obtain hkle | hnew : k ≤ a.1.congestion.highSeq ∨ _ := hJ.scan h data ctx.now ho hk
      · have hkq : k = q := by omega
        have hqo' : q ∈ openKeys a.1.outgoing := by
          rw [scanAcks_openKeys]
          exact hq
        exact Finset.disjoint_left.mp (disjoint_keys _) hqo' (hkq ▸ hk)
      · exact (maxAcked_of_newlySacked ctx.now hJ.info hnew).1 hnil
    · have := hreach k hk
      omega

theorem forall_entries_iff (m : OrdMap Nat SentPacket) (b : Nat) :
    (∀ x ∈ m.entries, x.1 ≤ b → x.2.sacked = true) ↔ ∀ q ∈ openKeys m, b < q := by
  constructor
  · intro h q hq
    obtain ⟨p, hp, hs⟩ := mem_openKeys.mp hq
    by_contra hlt
    rw [h (q, p) hp (by simpa using hlt)] at hs
    cases hs
  · intro h x hx hle
    by_contra hs
    have := h x.1 (mem_openKeys.mpr ⟨x.2, hx, by simpa using hs⟩)
    omega

theorem aroundOnAck_iff (hJ : Epoch (s.core txs)) (h : Header) (data : Bytes) (ctx : Ctx) :
    (∀ p ∈ aroundOnAck s h data ctx, p.1.congestion.caState ≠ .opened → p.2.congestion.caState = .opened →
      ∀ x ∈ p.2.outgoing.entries, x.1 ≤ p.1.congestion.highSeq → x.2.sacked = true) ↔
    ∀ b ∈ recoveryBoundary s h data, ∀ k ∈ newlySacked s h data, b ≤ k → ∀ q ∈ leftOpen s h data, b < q := by
  unfold aroundOnAck
  by_cases hn : 0 < h.ack ∨ (h.hasFlag FLAG_SACK && 0 < h.dataOffset.toNat) = true
  · rw [if_pos hn, ← exit_iff hJ h data ctx]
    simp only [Option.mem_some_iff, forall_eq', forall_entries_iff, feedCongestion_outgoing, scanAcks_openKeys]
    rfl
  · rw [if_neg hn]
    refine ⟨fun _ b _ k hk => ?_, fun _ p hp => by cases hp⟩
    exact absurd (.inr (Finset.mem_filter.mp hk).2.2) (not_acked_of_no_fields s hn data k)

theorem around_of_ackPacket {e : Ev} (hp : y.ackPacket e = some (h, data)) :
    ∃ ctx s, y.aroundOnAck e = Udx.aroundOnAck s h data ctx ∧
      (s = y.inner ∨ ∃ addr, s = (y.hookAccepted addr).inner) ∧
      (y.step e).inner.congestion.caState = (onAckSack s h data ctx).s.congestion.caState := by
  obtain ⟨addr, ctx, s, rfl, hg, hs, hcore⟩ := step_of_ackPacket hp
  refine ⟨ctx, s, ?_, hs.imp_right (⟨addr, ·⟩), congrArg Core.caState hcore⟩
  unfold Sys.aroundOnAck
  dsimp only
  rw [hp]
  dsimp only
  rw [hg]

/-- In a state where no packet above the boundary is marked, the condition on the step is exact. -/
theorem leavesResolved_iff (hJ : Epoch y.core) (e : Ev) : LeavesResolved y e ↔ EpochClosed y e := by
  unfold LeavesResolved EpochClosed
  cases hp : y.ackPacket e with
  | none =>
    have hnone : y.aroundOnAck e = none := by
      unfold Sys.aroundOnAck
      split
      · rw [hp]
      · rfl
    rw [hnone]
    simp
  | some p =>
    obtain ⟨h, data⟩ := p
    obtain ⟨ctx, s, haround, hs, -⟩ := around_of_ackPacket hp
    rw [haround]
    simp only [Option.mem_some_iff, forall_eq']
    rcases hs with rfl | ⟨addr, rfl⟩
    · exact aroundOnAck_iff hJ h data ctx
    · have hJ' : Epoch ((y.hookAccepted addr).inner.core y.txs) := hJ
      exact aroundOnAck_iff hJ' h data ctx

theorem recovering_coreRule : CoreRule (fun _ _ _ => False) (fun _ _ => True) (fun c => c.caState ≠ .opened) where
  ackSack _ _ _ _ _ _ h := h.elim
  send s txs q now _ hJ := by
    obtain ⟨c, info, hk, e, -⟩ := sendOne_eq s q now
    rw [e]
    exact fun h => hJ (hk.caState.symm.trans h)
  rto s txs maxSeq now _ _ := by
    intro h
    cases h

theorem leaves_in_onAck (hk : Socketed y) (e : Ev) (hrec : y.inner.congestion.caState ≠ .opened)
    (hopen : (y.step e).inner.congestion.caState = .opened) :
    ∃ p, y.aroundOnAck e = some p ∧ p.1.congestion.caState ≠ .opened ∧ p.2.congestion.caState = .opened := by
  cases hp : y.ackPacket e with
  | none =>
    have h := (recovering_coreRule.step hk e (fun p hm => by rw [hp] at hm; cases hm) hrec).2
    exact absurd hopen h
  | some p =>
    obtain ⟨h, data⟩ := p
    obtain ⟨ctx, s, haround, hs, hstate⟩ := around_of_ackPacket hp
    have hrec' : s.congestion.caState ≠ .opened := by
      rcases hs with rfl | ⟨addr, rfl⟩ <;> exact hrec
    rw [hstate] at hopen
    unfold onAckSack at hopen
    unfold Udx.aroundOnAck at haround
    split at hopen
    next hn =>
      rw [if_pos hn] at haround
      refine ⟨_, haround, fun ho => ?_, hopen⟩
      have hb := recoveryBoundary_eq s h data ctx.now
      rw [if_pos ho] at hb
      unfold recoveryBoundary at hb
      rw [if_neg hrec'] at hb
      cases hb
    · exact absurd hopen hrec'

/-- **Leaving recovery.** In every run the congestion state leaves recovery or loss only in `on_ack`; and all exits along
the run leave nothing open up to the boundary if and only if at every step no newly marked number reaches the boundary
while an open number lies at or below it. -/
theorem recovery_exit (es : List Ev) :
    (∀ e, (after es).inner.congestion.caState ≠ .opened → ((after es).step e).inner.congestion.caState = .opened →
      ∃ p, (after es).aroundOnAck e = some p ∧ p.1.congestion.caState ≠ .opened ∧ p.2.congestion.caState = .opened) ∧
    (Along Sys.step LeavesResolved {} es ↔ Along Sys.step EpochClosed {} es) := by
  refine ⟨fun e => leaves_in_onAck (socketed_after es) e, ?_⟩
  exact along_congr (I := fun y => Socketed y ∧ Epoch y.core)
    (fun y e h => epoch_coreRule.step h.1 e (fun _ _ => trivial) h.2) (fun y e h => leavesResolved_iff h.2 e)
    ⟨socketed_after [], epoch_after []⟩ es

/-- Two packets sent and a retransmission timeout: in the loss state up to packet `1`. -/
def lossRun : List Ev :=
  .connect 1 loopback true :: writeNow [1] 0 ++ writeNow [2] 1 ++ [.proc .pacing {}, .proc .rto {}]

/-- An acknowledgement of both leaves recovery with nothing outstanding. -/
theorem recovery_exit_resolved : let run := lossRun ++ [.proc (.packet (pureAck 2) loopback) {}]
    (after lossRun).inner.congestion.caState = .loss ∧ (after run).inner.congestion.caState = .opened ∧
    Along Sys.step LeavesResolved {} run :=
  ⟨by decide, by decide, (recovery_exit _).2.mpr (by decide)⟩

/-- A selective acknowledgement of the second packet leaves recovery while the first one is missing. -/
theorem recovery_exit_early : let e : Ev := .proc (.packet (sackAck 0 1 2) loopback) {}
    (after lossRun).inner.congestion.caState = .loss ∧ (after lossRun).inner.congestion.highSeq = 1 ∧
    ((after lossRun).step e).inner.congestion.caState = .opened ∧
    ((after lossRun).step e).inner.outgoing.entries.map (fun x => (x.1, x.2.sacked)) = [(0, false), (1, true)] ∧
    ¬ LeavesResolved (after lossRun) e := by
  decide

end Peeroxide.Udx
