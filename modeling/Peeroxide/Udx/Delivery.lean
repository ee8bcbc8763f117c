import Peeroxide.Lib.Slots
import Peeroxide.Udx.Ledger
import Peeroxide.Udx.Mtu
import Peeroxide.Udx.Wire

/-!
# What a sender puts on the wire

Each sequence number is a slot, filled with a chunk of a write or with the END mark when the write is cut. Whatever the
peer answers, every numbered packet of the sender is the packet of its slot, padded or not.
-/

namespace Peeroxide.Udx
open Lib StreamInner Sys List
variable {i m mp : Nat} {packets : List (Nat × Bytes)} {s : StreamInner} {t : Turn} {txs : List Tx} {w : Write}
  {y : Sys} {σ : List (Option Item)}

/-! ## Slots -/

/-- The items of a write that is cut: its chunks, with the rest of the block left empty. -/
def Write.block (w : Write) (mp : Nat) : List (Option Item) :=
  if w.fin then [some .fin]
  else (chunks mp w.data).map (fun c => some (.data c)) ++ List.replicate (w.count - (chunks mp w.data).length) none

/-- The items of a write's numbers: unknown until it is cut. -/
def Write.slots (w : Write) : List (Option Item) :=
  match w.stage with
  | .reserved => List.replicate w.count none
  | .cut mp _ | .queued mp _ => w.block mp

def Sys.slots (y : Sys) : List (Option Item) := y.writes.flatMap Write.slots

/-- The payload sizes of a write: the one it was counted with, not above the present one, and the one it was cut with,
not below. -/
structure SizeOk (mp : Nat) (w : Write) : Prop where
  pos : 0 < w.maxPayload
  le : w.maxPayload ≤ mp
  cut : ∀ mp' packets, w.stage = .cut mp' packets ∨ w.stage = .queued mp' packets → w.maxPayload ≤ mp'

def Sizes (y : Sys) : Prop := ∀ w ∈ y.writes, SizeOk y.inner.maxPayload w

theorem startProcessor_writes (y : Sys) (registered : Bool) : (y.startProcessor registered).writes = y.writes := by
  unfold startProcessor
  split <;> rfl

theorem procTurn_writes (y : Sys) (e : ProcEvent) (ctx : Ctx) : (y.procTurn e ctx).writes = y.writes := by
  unfold procTurn
  split <;> rfl

/-- What a step makes of the writes: one more, or one of them is cut or queued. -/
inductive WritesStep (y : Sys) : List Write → Prop
  | same : WritesStep y y.writes
  | reserve (data : Bytes) : WritesStep y (y.writes ++ [y.newWrite data])
  | fin (addr : SocketAddr) : WritesStep y (y.writes ++ [y.newEnd addr])
  | cut {i : Nat} {w : Write} (hw : y.writes[i]? = some w) (hst : w.stage = .reserved) : WritesStep y (y.writes.set i
      { w with stage := .cut y.inner.maxPayload (dataPackets w.prep y.inner.maxPayload w.data) })
  | queue {i : Nat} {w : Write} {mp : Nat} {packets : List (Nat × Bytes)} (hw : y.writes[i]? = some w)
      (hst : w.stage = .cut mp packets) : WritesStep y (y.writes.set i { w with stage := .queued mp packets })

theorem writes_step (y : Sys) (e : Ev) : WritesStep y (y.step e).writes := by
  cases e with
  | connect id addr registered | setFirewallHook id hook registered => exact (startProcessor_writes _ _).symm ▸ .same
  | relayTo | destroy => exact .same
  | write data => exact y.write_ind (motive := fun z => WritesStep y z.writes) data .same fun _ _ _ => .reserve data
  | shutdown => exact y.shutdown_ind (motive := fun z => WritesStep y z.writes) .same .same fun addr _ _ _ _ => .fin addr
  | cut i => exact y.cut_ind (motive := fun z => WritesStep y z.writes) i .same fun _ hw hst => .cut hw hst
  | queue i now =>
    exact y.queue_ind (motive := fun z => WritesStep y z.writes) i now .same fun _ _ _ _ hw hst _ => .queue hw hst
  | proc e ctx => exact (procTurn_writes y e ctx).symm ▸ .same

theorem WritesStep.queued {ws : List Write} (h : WritesStep y ws) {i mp : Nat} {w : Write} {packets : List (Nat × Bytes)}
    (hw : y.writes[i]? = some w) (hst : w.stage = .queued mp packets) : ws[i]? = some w := by
  cases h with
  | same => exact hw
  | reserve | fin => exact (getElem?_append_left (List.getElem?_eq_some_iff.mp hw).1).trans hw
  | cut hv hst' | queue hv hst' =>
    refine (getElem?_set_ne ?_).trans hw
    rintro rfl
    obtain rfl := Option.some.inj (hv.symm.trans hw)
    rw [hst'] at hst
    cases hst

theorem Sizes.step (h : Sizes y) (e : Ev) (hm : y.inner.mtu ≤ (y.step e).inner.mtu)
    (hpos : 0 < y.inner.maxPayload) : Sizes (y.step e) := by
  suffices hsizes : ∀ v ∈ (y.step e).writes, SizeOk y.inner.maxPayload v from fun v hv =>
    { hsizes v hv with le := (hsizes v hv).le.trans (Nat.sub_le_sub_right hm _) }
  have hstep := writes_step y e
  generalize (y.step e).writes = ws at hstep ⊢
  intro v hv
  cases hstep with
  | same => exact h v hv
  | reserve data =>
    rcases mem_append.mp hv with hv | hv
    · exact h v hv
    · rw [mem_singleton.mp hv]
      exact ⟨hpos, le_rfl, by rintro mp packets (h | h) <;> cases h⟩
  | fin addr =>
    rcases mem_append.mp hv with hv | hv
    · exact h v hv
    · rw [mem_singleton.mp hv]
      refine ⟨hpos, le_rfl, ?_⟩
      rintro mp packets (h | h) <;> cases h
      exact le_rfl
  | cut hw hst =>
    rcases mem_or_eq_of_mem_set hv with hv | rfl
    · exact h v hv
    · obtain ⟨h₁, h₂, -⟩ := h _ (mem_of_getElem? hw)
      refine ⟨h₁, h₂, ?_⟩
      rintro mp packets (h | h) <;> cases h
      exact h₂
  | queue hw hst =>
    rcases mem_or_eq_of_mem_set hv with hv | rfl
    · exact h v hv
    · obtain ⟨h₁, h₂, h₃⟩ := h _ (mem_of_getElem? hw)
      refine ⟨h₁, h₂, ?_⟩
      rintro mp' packets' (h | h) <;> cases h
      exact h₃ _ _ (.inl hst)

theorem maxPayload_pos (hP : ProbeInv y.core) : 0 < y.inner.maxPayload := by
  have h : MTU_BASE ≤ y.inner.mtu := hP.base
  have hb : HEADER_SIZE < MTU_BASE := by decide
  unfold maxPayload
  omega

/-! ## Blocks -/

theorem length_chunks_le (hok : WriteOk w) (hs : SizeOk m w) (hf : w.fin = false)
    (hle : w.maxPayload ≤ mp) : (chunks mp w.data).length ≤ w.count := by
  have hc := hok.count
  rw [hf] at hc
  rw [length_chunks, hc]
  unfold chunkCount
  split
  · exact le_rfl
  · exact divCeil_anti hs.pos hle

theorem length_slots (hok : WriteOk w) (hs : SizeOk m w) : w.slots.length = w.count := by
  have hc := hok.count
  have hcut : ∀ mp, w.maxPayload ≤ mp → (w.block mp).length = w.count := by
    intro mp hle
    rw [Write.block]
    cases hf : w.fin with
    | true =>
      rw [hf] at hc
      simp [hc]
    | false =>
      have := length_chunks_le hok hs hf hle
      simp
      omega
  unfold Write.slots
  split
  · exact length_replicate
  next mp packets hst =>
    exact hcut mp (hs.cut mp packets (.inl hst))
  next mp packets hst =>
    exact hcut mp (hs.cut mp packets (.inr hst))

theorem flatten_chunks (hmp : 0 < mp) (data : Bytes) : (chunks mp data).flatten = data := by
  cases data with
  | nil => rfl
  | cons b bs => exact flatten_chunksOf hmp _

theorem count_pos (hok : WriteOk w) (hs : SizeOk m w) : 0 < w.count := by
  rw [hok.count]
  split
  · exact Nat.one_pos
  · unfold chunkCount
    split
    · exact Nat.one_pos
    · exact divCeil_pos (by omega) hs.pos

theorem fills_slots (hok : WriteOk w) (hs : SizeOk m w) : Fills Item.payload w.slots w.data := by
  have hcut : ∀ mp, w.maxPayload ≤ mp → Fills Item.payload (w.block mp) w.data := by
    intro mp hle
    rw [Write.block]
    cases hf : w.fin with
    | true =>
      rw [hok.fin_data hf]
      exact ⟨[.fin], 0, rfl, by simp [Item.payload], fun _ => rfl⟩
    | false =>
      have hflat : ((chunks mp w.data).map Item.data).flatMap Item.payload = w.data := by
        rw [flatMap_map]
        exact flatMap_id'.trans (flatten_chunks (hs.pos.trans_le hle) _)
      refine ⟨(chunks mp w.data).map .data, w.count - (chunks mp w.data).length, ?_, ?_, fun _ => hflat⟩
      · simp
      · exact ⟨[], by rw [append_nil, hflat]⟩
  unfold Write.slots
  split
  · refine ⟨[], w.count, rfl, nil_prefix, fun h0 => ?_⟩
    have := count_pos hok hs
    omega
  next mp packets hst =>
    exact hcut mp (hs.cut mp packets (.inl hst))
  next mp packets hst =>
    exact hcut mp (hs.cut mp packets (.inr hst))

/-! ## The sender -/

/-- The packets outstanding and sent are packets for their slots; only probes are padded. -/
structure SentCore (σ : List (Option Item)) (c : Core) : Prop where
  out : ∀ e ∈ c.outgoing, ∃ item pad, σ[e.1]? = some (some item) ∧ IsWire e.1 item pad e.2.packet ∧
    (e.2.isMtuProbe = false → pad = 0)
  txs : ∀ t ∈ c.txs, ∃ item pad, σ[t.seq]? = some (some item) ∧ IsWire t.seq item pad t.packet

theorem SentCore.marks (h : SentCore σ (s.core txs)) (f : Nat × SentPacket → SentPacket)
    (hf : ∀ e, (f e).isMtuProbe = e.2.isMtuProbe ∧ (f e).packet = e.2.packet) (s' : StreamInner)
    (hs : s'.outgoing = s.outgoing.mapVal f) : SentCore σ (s'.core txs) := by
  refine ⟨fun e he => ?_, h.txs⟩
  obtain ⟨p, hm, hpe⟩ := OrdMap.mem_mapVal.mp (hs ▸ he : e ∈ s.outgoing.mapVal f)
  obtain ⟨item, pad, h₁, h₂, h₃⟩ := h.out (e.1, p) hm
  obtain ⟨hp, hb⟩ := hf (e.1, p)
  rw [hpe] at hp hb
  exact ⟨item, pad, h₁, hb ▸ h₂, fun hn => h₃ (hp ▸ hn)⟩

theorem isWire_resend {e : Nat × SentPacket} (now : Instant)
    (h : ∃ item pad, σ[e.1]? = some (some item) ∧ IsWire e.1 item pad e.2.packet ∧ (e.2.isMtuProbe = false → pad = 0)) :
    ∃ item, σ[e.1]? = some (some item) ∧ IsWire e.1 item 0 (SentPacket.resend now e.2).packet := by
  obtain ⟨item, pad, h₁, ⟨id, ack, hid, hack, hp, hb⟩, h₃⟩ := h
  refine ⟨item, h₁, id, ack, hid, hack, by omega, ?_⟩
  dsimp only [SentPacket.resend]
  cases hm : e.2.isMtuProbe with
  | true => rw [if_pos rfl, hb, stripProbePadding_wire item id e.1 ack hp]
  | false => rw [if_neg (by simp), hb, h₃ hm]

theorem SentCore.retransmit (h : SentCore σ (s.core txs)) (select : Nat × SentPacket → Bool)
    (finish : SentPacket → SentPacket) (now : Instant) (hf : ∀ p, (finish p).packet = p.packet) :
    SentCore σ ((s.retransmitWhere select finish now).1.core
      (txs ++ resendTx (s.retransmitWhere select finish now).1 (s.retransmitWhere select finish now).2)) := by
  refine ⟨fun e he => ?_, fun t ht => ?_⟩
  · obtain ⟨p, hm, hpe⟩ := OrdMap.mem_mapVal.mp he
    split at hpe
    · obtain ⟨item, h₁, h₂⟩ := isWire_resend now (h.out (e.1, p) hm)
      exact ⟨item, 0, h₁, by rw [← hpe, hf]; exact h₂, fun _ => rfl⟩
    · subst hpe
      exact h.out (e.1, e.2) hm
  · rcases mem_append.mp ht with ht | ht
    · exact h.txs t ht
    · obtain ⟨addr, p, hp, rfl⟩ := mem_resendTx ht
      obtain ⟨e, he, rfl⟩ := mem_map.mp hp
      obtain ⟨item, h₁, h₂⟩ := isWire_resend now (h.out e (mem_filter.mp he).1)
      exact ⟨item, 0, h₁, h₂⟩

theorem SentCore.sendOne (h : SentCore σ (s.core txs))
    (q : QueuedPacket) (now : Instant) (hq : ∃ item, σ[q.seq]? = some (some item) ∧ IsWire q.seq item 0 q.packet) :
    SentCore σ ((sendOne s q now).1.core (txs ++ [(Udx.sendOne s q now).2])) := by
  obtain ⟨item, h₁, id, ack, hid, hack, -, hb⟩ := hq
  obtain ⟨c, info, -, e₁, e₂⟩ := sendOne_eq s q now
  have hins : ∀ pad, insertPadding q.packet pad = wire item id q.seq ack pad := by
    intro pad
    rw [hb, insertPadding_wire]
  -- the bytes that go out are a packet for the slot, with padding only when they are a probe
  have hpkt : ∃ pad, IsWire q.seq item pad (tryProbe (startSearch s q.packet) q.packet).2.1 ∧
      ((tryProbe (startSearch s q.packet) q.packet).2.2 = false → pad = 0) := by
    rcases tryProbe_eq (startSearch s q.packet) q.packet with e | ⟨-, -, -, hle, e⟩ <;> rw [e]
    · exact ⟨0, ⟨id, ack, hid, hack, by omega, hb⟩, fun _ => rfl⟩
    · exact ⟨_, ⟨id, ack, hid, hack, hle, hins _⟩, fun hn => by cases hn⟩
  obtain ⟨pad, hw, hpad⟩ := hpkt
  rw [e₁, e₂]
  refine ⟨fun e he => ?_, fun t ht => ?_⟩
  · rcases OrdMap.mem_insert.mp he with rfl | ⟨hm, -⟩
    · exact ⟨item, pad, h₁, hw, hpad⟩
    · exact h.out e hm
  · rcases mem_append.mp ht with ht | ht
    · exact h.txs t ht
    · rw [mem_singleton.mp ht]
      exact ⟨item, pad, h₁, hw⟩

theorem sentCore_ackRule (σ : List (Option Item)) : CoreAckRule (fun _ _ _ => True) (SentCore σ) where
  rwnd _ _ _ h := ⟨h.out, h.txs⟩
  cum s txs h data now _ _ hP := by
    cases ha : s.accepts h with
    | false =>
      rw [ackPart_of_not _ _ _ ha]
      exact ⟨hP.out, hP.txs⟩
    | true =>
      refine ⟨fun e he => ?_, hP.txs⟩
      have hout : e ∈ s.outgoing.filter (fun e => h.ack ≤ e.1) := ackPart_outgoing s h now ha ▸ he
      exact hP.out e (OrdMap.mem_filter.mp hout).1
  sack s txs h data hP := by
    rw [sackPart_fst]
    exact hP.marks _ (fun e => by unfold markSacked; split <;> exact ⟨rfl, rfl⟩) _ rfl
  losses s txs hP := hP.marks (fun e => if e.1 ∈ s.lostSeqs then { e.2 with lost := true } else e.2)
    (fun e => by split <;> exact ⟨rfl, rfl⟩) _ rfl
  feed s txs acked lostCount ctx hP := by
    unfold feedCongestion
    split <;> exact ⟨hP.out, hP.txs⟩
  fast s txs now hP := hP.retransmit _ _ now fun _ => rfl

/-- Every numbered packet queued, outstanding or sent is a packet for its slot. -/
structure Sent (σ : List (Option Item)) (y : Sys) : Prop where
  core : SentCore σ y.core
  queue : ∀ q ∈ y.inner.sendQueue, ∃ item, σ[q.seq]? = some (some item) ∧ IsWire q.seq item 0 q.packet

theorem Sent.grows {σ' : List (Option Item)} (h : Sent σ y) (hg : Grows σ σ') : Sent σ' y := by
  refine ⟨⟨fun e he => ?_, fun t ht => ?_⟩, fun q hq => ?_⟩
  · obtain ⟨item, pad, h₁, h₂⟩ := h.core.out e he
    exact ⟨item, pad, hg _ _ h₁, h₂⟩
  · obtain ⟨item, pad, h₁, h₂⟩ := h.core.txs t ht
    exact ⟨item, pad, hg _ _ h₁, h₂⟩
  · obtain ⟨item, h₁, h₂⟩ := h.queue q hq
    exact ⟨item, hg _ _ h₁, h₂⟩

theorem Sent.apply (h : Sent σ y)
    (hc : SentCore σ (t.s.core (y.txs ++ t.out.tx))) (hq : t.s.sendQueue = y.inner.sendQueue) : Sent σ (y.apply t) :=
  ⟨hc, fun q hm => h.queue q (hq ▸ hm)⟩

theorem Sent.quiet (h : Sent σ y)
    (hs : ∀ txs, t.s.core txs = y.inner.core txs) (ht : t.out.tx = []) (hq : t.s.sendQueue = y.inner.sendQueue) :
    Sent σ (y.apply t) :=
  h.apply (by rw [ht, append_nil, hs]; exact h.core) hq

theorem sent_turnRule (σ : List (Option Item)) : TurnRule (fun _ _ _ => True) (fun _ _ => True) (Sent σ) where
  gate _ _ _ _ h := h
  proc _ _ h := ⟨h.core, h.queue⟩
  hookTaken _ h := ⟨h.core, h.queue⟩
  hookAccepted y addr h := by
    refine ⟨h.core, fun q hq => ?_⟩
    obtain ⟨q', hq', rfl⟩ := mem_map.mp hq
    have h' := h.queue q' hq'
    split <;> exact h'
  relay y data dest _ h := relay_ind y data dest fun _ _ _ => h.quiet (fun _ => rfl) rfl rfl
  ackSack y h data ctx hd _ _ hJ :=
    hJ.apply ((sentCore_ackRule σ).ackSack y.inner y.txs h data ctx hd trivial hJ.core)
      (congrArg Rest.sendQueue (onAckSack_rest y.inner h data ctx))
  data y h data _ _ hJ := data_ind y h data fun _ _ _ _ => hJ.quiet (fun _ => rfl) rfl rfl
  destroy _ _ _ _ _ _ hJ := hJ.quiet (fun _ => rfl) rfl rfl
  heartbeat _ _ hJ := hJ.quiet (fun _ => rfl) rfl rfl
  pacing y shuttingDown now hJ := by
    have f : FlushRule (Sent σ) := by
      refine ⟨fun z c _ h => ⟨⟨h.core.out, h.core.txs⟩, h.queue⟩, fun z q rest now hq h => ?_⟩
      have hr := sendOne_rest { z.inner with sendQueue := rest } q now
      have hc : SentCore σ _ := SentCore.sendOne (s := { z.inner with sendQueue := rest })
        (show SentCore σ (StreamInner.core _ z.txs) from ⟨h.core.out, h.core.txs⟩) q now (h.queue q (by simp [hq]))
      refine ⟨⟨hc.out, fun t ht => ?_⟩, fun q' hq' => ?_⟩
      · refine hc.txs t (mem_append.mpr ((mem_append.mp ht).imp_right fun hm => ?_))
        split at hm
        · exact hm
        · cases hm
      · have hqe : (sendOne { z.inner with sendQueue := rest } q now).1.sendQueue = rest := congrArg Rest.sendQueue hr
        have hm : q' ∈ rest := by
          rw [← hqe]
          exact hq'
        exact h.queue q' (by simp [hq, hm])
    exact f.onPacing y shuttingDown now hJ
  rto y now hJ := by
    refine hJ.apply ?_ (congrArg Rest.sendQueue (onRto_rest y.inner now))
    rcases onRto_cases y.inner now with e | ⟨completed, e⟩ | ⟨maxSeq, -, e⟩ <;> rw [e]
    · rw [append_nil]
      exact hJ.core
    · rw [append_nil]
      exact ⟨hJ.core.out, hJ.core.txs⟩
    · have hb : SentCore σ ((rtoBackoff y.inner maxSeq).core y.txs) := ⟨hJ.core.out, hJ.core.txs⟩
      exact hb.retransmit (fun e => !e.2.sacked) id now fun _ => rfl
  keepalive _ hJ := hJ.quiet (fun _ => rfl) rfl rfl
  finish _ hJ := hJ.quiet (fun _ => rfl) rfl rfl

theorem isWire_packets (hl : Ledger y) (hs : Sizes y) (hn : y.numbered < 2 ^ 32) (hw : y.writes[i]? = some w)
    (hst : w.stage = .cut mp packets ∨ w.stage = .queued mp packets) :
    ∀ p ∈ packets, ∃ item, y.slots[p.1]? = some (some item) ∧ IsWire p.1 item 0 p.2 := by
  have hmem := mem_of_getElem? hw
  have hok := hl.ok w hmem
  have hsz := hs w hmem
  -- the block of the write stands at its first number
  have hsum : ∀ l : List Write, (∀ v ∈ l, v ∈ y.writes) →
      (l.flatMap Write.slots).length = (l.map Write.count).sum := by
    intro l hsub
    rw [length_flatMap]
    exact congrArg List.sum (map_congr_left fun v hv => length_slots (hl.ok v (hsub v hv)) (hs v (hsub v hv)))
  have htot := numbered_split hw
  have hfirst : w.prep.firstSeq = ((y.writes.take i).map Write.count).sum := by
    rw [(hl.first i w hw).1]
    exact wrap32_of_lt (by omega)
  have hslot : ∀ j item, w.slots[j]? = some (some item) → y.slots[w.prep.firstSeq + j]? = some (some item) := by
    intro j item hj
    have hjlt := (List.getElem?_eq_some_iff.mp hj).1
    rw [hfirst, ← hsum _ fun v hv => mem_of_mem_take hv]
    exact (getElem?_flatMap_block hw hjlt).trans hj
  have hslots : w.slots = w.block mp := by
    unfold Write.slots
    rcases hst with e | e <;> rw [e]
  rw [hok.cut mp packets hst]
  intro p hp
  unfold Write.packetsAt at hp
  unfold Write.block at hslots
  cases hf : w.fin with
  | true =>
    rw [hf, if_pos rfl, mem_singleton] at hp
    rw [hf] at hslots
    subst hp
    refine ⟨.fin, hslot 0 .fin (by rw [hslots]; rfl), w.prep.remoteId, w.prep.currentAck, hok.id_lt, hok.ack_lt,
      by omega, buildEndPacket_eq _ _ _⟩
  | false =>
    rw [hf, if_neg (by simp)] at hp hslots
    obtain ⟨j, hj, rfl⟩ := mem_iff_getElem.mp hp
    have hjc : j < (chunks mp w.data).length := by simpa [dataPackets] using hj
    have hle : (chunks mp w.data).length ≤ w.count := length_chunks_le hok hsz hf (hsz.cut mp packets hst)
    have hseq : wrap32 (w.prep.firstSeq + wrap32 j) = w.prep.firstSeq + j := by
      rw [wrap32_add_wrap32]
      exact wrap32_of_lt (by omega)
    simp only [dataPackets, getElem_mapIdx]
    rw [hseq]
    refine ⟨.data (chunks mp w.data)[j], hslot j _ ?_, w.prep.remoteId, w.prep.currentAck, hok.id_lt, hok.ack_lt,
      by omega, buildDataPacket_eq _ _ _ _⟩
    rw [hslots, getElem?_append_left (by simpa using hjc), getElem?_map, getElem?_eq_getElem hjc]
    rfl

/-! ## The slots over a run -/

theorem grows_replicate_none (n : Nat) (σ : List (Option Item)) : Grows (List.replicate n none) σ := by
  intro q a h
  rw [getElem?_replicate] at h
  split at h <;> simp at h

theorem Write.slots_queued (h : w.stage = .cut mp packets) :
    { w with stage := .queued mp packets }.slots = w.slots := by
  unfold Write.slots
  rw [h]
  rfl

theorem grows_step (hl : Ledger y) (hs : Sizes y) (e : Ev) (hs' : Sizes (y.step e)) (hl' : Ledger (y.step e)) :
    Grows y.slots (y.step e).slots := by
  have hlen : ∀ v ∈ (y.step e).writes, v.slots.length = v.count := fun v hv => length_slots (hl'.ok v hv) (hs' v hv)
  have hstep := writes_step y e
  unfold slots
  generalize (y.step e).writes = ws at hstep hlen ⊢
  cases hstep with
  | same => exact .refl _
  | reserve _ | fin _ =>
    rw [flatMap_append]
    exact grows_append _ _
  | @cut i w hw hst =>
    have hmem := mem_of_getElem? hw
    have hslots : w.slots = List.replicate w.count none := by
      unfold Write.slots
      rw [hst]
    refine grows_set_flatMap hw ?_ (hslots ▸ grows_replicate_none _ _)
    rw [hlen _ (mem_set (List.getElem?_eq_some_iff.mp hw).1 _), length_slots (hl.ok w hmem) (hs w hmem)]
  | queue hw hst =>
    refine grows_set_flatMap hw ?_ ?_ <;> rw [Write.slots_queued hst]
    exact .refl _

theorem numbered_le_step (y : Sys) (e : Ev) : y.numbered ≤ (y.step e).numbered := by
  have hstep := writes_step y e
  unfold numbered
  generalize (y.step e).writes = ws at hstep ⊢
  cases hstep with
  | same => exact le_rfl
  | reserve _ | fin _ => simp
  | cut hw | queue hw =>
    rw [map_set_stage Write.count (fun _ _ => rfl) hw]

theorem Sent.step (h : Sent σ y) (e : Ev)
    (hq : ∀ i w mp packets, y.writes[i]? = some w → w.stage = .cut mp packets → ∀ now, e = .queue i now →
      ∀ p ∈ packets, ∃ item, σ[p.1]? = some (some item) ∧ IsWire p.1 item 0 p.2) : Sent σ (y.step e) := by
  by_cases he : ∃ q ctx, e = .proc q ctx
  · obtain ⟨q, ctx, rfl⟩ := he
    exact (sent_turnRule σ).procTurn y q ctx (fun _ _ => ⟨trivial, trivial⟩) h
  · obtain ⟨hcore, hqueue⟩ := step_of_call y e fun q ctx hq => he ⟨q, ctx, hq⟩
    refine ⟨hcore.symm ▸ h.core, fun q hm => ?_⟩
    obtain heq | ⟨i, now, w, mp, packets, rfl, hw, hst, -, heq⟩ := hqueue <;> rw [heq] at hm
    · exact h.queue q hm
    · rcases mem_append.mp hm with hm | hm
      · exact h.queue q hm
      · obtain ⟨p, hp, rfl⟩ := mem_map.mp hm
        exact hq i w mp packets hw hst now rfl p hp

/-- A packet sent again by choice, as both retransmissions of the code send it. -/
def Sys.resend (y : Sys) (q : Nat) (now : Instant) : Sys :=
  let r := y.inner.retransmitWhere (fun e => e.1 == q) id now
  { y with inner := r.1, txs := y.txs ++ resendTx r.1 r.2 }

/-- What holds of a sender in every run. -/
structure Sender (y : Sys) : Prop where
  socketed : Socketed y
  probe : ProbeInv y.core
  ledger : Ledger y
  sizes : Sizes y
  sent : y.numbered < 2 ^ 32 → Sent y.slots y

theorem sender_new : Sender {} where
  socketed := socketed_after []
  probe := probeInv_new
  ledger := ledger_new
  sizes w hw := by cases hw
  sent _ := ⟨⟨fun e he => absurd he (OrdMap.not_mem_empty e), fun t ht => by cases ht⟩, fun q hq => by cases hq⟩

theorem Sender.step (h : Sender y) (e : Ev) : Sender (y.step e) ∧ Grows y.slots (y.step e).slots := by
  obtain ⟨hk, hP⟩ := probeInv_coreRule.step h.socketed e (fun _ _ => trivial) h.probe
  have hl : Ledger (y.step e) :=
    (ledger_stepRule (fun _ _ _ => True) (fun _ _ => True) fun _ _ _ _ h => h).step y e (fun _ _ => ⟨trivial, trivial⟩) h.ledger
  have hs := h.sizes.step e (mtu_le_step h.socketed h.probe e) (maxPayload_pos h.probe)
  have hg := grows_step h.ledger h.sizes e hs hl
  refine ⟨⟨hk, hP, hl, hs, fun hn => ?_⟩, hg⟩
  have hJ := (h.sent ((numbered_le_step y e).trans_lt hn)).grows hg
  refine hJ.step e fun i w mp packets hw hst now he => ?_
  -- after the step the write stands queued in the ledger
  subst he
  have hset : (y.step (.queue i now)).writes[i]? = some { w with stage := .queued mp packets } := by
    simp only [Sys.step, queue, hw, hst]
    exact getElem?_set_self (List.getElem?_eq_some_iff.mp hw).1
  exact isWire_packets hl hs hn hset (.inr rfl)

theorem Sender.resend (h : Sender y) (q : Nat) (now : Instant) : Sender (y.resend q now) where
  socketed := h.socketed
  probe := h.probe.retransmit _ id now fun _ => rfl
  ledger := { h.ledger with }
  sizes := h.sizes
  sent hn := by
    have hs := h.sent hn
    exact ⟨hs.core.retransmit _ id now fun _ => rfl, hs.queue⟩

theorem sender_after (es : List Ev) : Sender (after es) := run_invariant (fun _ e h => (h.step e).1) sender_new es

theorem Sender.length_slots (h : Sender y) : y.slots.length = y.numbered := by
  rw [slots, length_flatMap]
  exact congrArg List.sum (map_congr_left fun w hw => Udx.length_slots (h.ledger.ok w hw) (h.sizes w hw))

end Peeroxide.Udx
