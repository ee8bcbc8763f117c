import Mathlib.Data.List.Induction
import Peeroxide.Udx.Core

/-!
# The ledger of sequence numbers

Every write owns the block of numbers `prepare_write` reserved for it, and the blocks follow one another without gaps.
Whether the packets of a write fill its block depends on the payload size `send_data_packets` reads later.

Main result: `queued_numbers`.
-/

namespace Peeroxide.Udx
open Lib StreamInner Sys List
variable {i : Nat} {w : Write} {y : Sys}

namespace Write

/-- The numbers from `first_seq` up to, not including, `ack_threshold`. -/
def reserved (w : Write) : List Nat :=
  (List.range (wrappingSub32 w.ackThreshold w.prep.firstSeq)).map (fun i => wrap32 (w.prep.firstSeq + i))

def queuedPackets (w : Write) : List (Nat × Bytes) :=
  match w.stage with
  | .queued _ packets => packets
  | _ => []

/-- All its packets are queued, and they were cut into as many as were counted. -/
def queuedAsCounted (w : Write) : Bool :=
  match w.stage with
  | .queued mp _ => w.fin || chunkCount mp w.data.length == wrap32 (chunkCount w.maxPayload w.data.length)
  | _ => false

/-- The packets of a cut write: its data cut with `mp`, or the END packet of a shutdown. -/
def packetsAt (w : Write) (mp : Nat) : List (Nat × Bytes) :=
  if w.fin then [(w.prep.firstSeq, buildEndPacket w.prep.remoteId w.prep.firstSeq w.prep.currentAck)]
  else dataPackets w.prep mp w.data

end Write

/-- What is fixed when a write reserves its numbers, and what its packets are once they are cut. -/
structure WriteOk (w : Write) : Prop where
  threshold : w.ackThreshold = wrap32 (w.prep.firstSeq + wrap32 w.count)
  first_lt : w.prep.firstSeq < 2 ^ 32
  id_lt : w.prep.remoteId < 2 ^ 32
  ack_lt : w.prep.currentAck < 2 ^ 32
  count : w.count = if w.fin then 1 else chunkCount w.maxPayload w.data.length
  fin_data : w.fin = true → w.data = []
  cut : ∀ mp packets, w.stage = .cut mp packets ∨ w.stage = .queued mp packets → packets = w.packetsAt mp
  fin_cut : w.fin = true → w.stage ≠ .reserved

structure Ledger (y : Sys) : Prop where
  next : y.inner.nextSeq = wrap32 y.numbered
  id_lt : y.inner.remoteId < 2 ^ 32
  remote_lt : y.inner.nextRemoteSeq < 2 ^ 32
  ok : ∀ w ∈ y.writes, WriteOk w
  first : ∀ i w, y.writes[i]? = some w →
    w.prep.firstSeq = wrap32 ((y.writes.take i).map Write.count).sum ∧ w.prep.ackRx = i
  open_no_fin : y.inner.ended = false → ∀ w ∈ y.writes, w.fin = false
  fin_last : ∀ i w, y.writes[i]? = some w → w.fin = true → i + 1 = y.writes.length

theorem numbered_split (hw : y.writes[i]? = some w) :
    y.numbered = ((y.writes.take i).map Write.count).sum + w.count + ((y.writes.drop (i + 1)).map Write.count).sum := by
  obtain ⟨hlt, rfl⟩ := List.getElem?_eq_some_iff.mp hw
  have e : y.writes = y.writes.take i ++ y.writes[i] :: y.writes.drop (i + 1) := by simp
  unfold numbered
  conv_lhs => rw [e]
  rw [map_append, sum_append, map_cons, sum_cons, Nat.add_assoc]

theorem Ledger.same {y' : Sys} (h : Ledger y) (hw : y'.writes = y.writes) (hn : y'.inner.nextSeq = y.inner.nextSeq)
    (he : y'.inner.ended = false → y.inner.ended = false) (hid : y'.inner.remoteId < 2 ^ 32)
    (hr : y'.inner.nextRemoteSeq < 2 ^ 32) : Ledger y' where
  next := by rw [hn, h.next, numbered, numbered, hw]
  id_lt := hid
  remote_lt := hr
  ok := hw ▸ h.ok
  first := hw ▸ h.first
  open_no_fin h' := hw ▸ h.open_no_fin (he h')
  fin_last := hw ▸ h.fin_last

theorem Ledger.rest {y' : Sys} (h : Ledger y) (hw : y'.writes = y.writes) (hr : y'.inner.rest = y.inner.rest) : Ledger y' :=
  h.same hw (congrArg Rest.nextSeq hr) (fun h' => (congrArg Rest.ended hr).symm.trans h')
    ((congrArg Rest.remoteId hr).trans_lt h.id_lt) ((congrArg Rest.nextRemoteSeq hr).trans_lt h.remote_lt)

theorem getElem?_snoc {ws : List Write} {v : Write} (h : (ws ++ [w])[i]? = some v) :
    ws[i]? = some v ∨ i = ws.length ∧ w = v := by
  rcases Nat.lt_or_ge i ws.length with hi | hi
  · exact .inl (getElem?_append_left hi ▸ h)
  · rw [getElem?_append_right hi] at h
    obtain ⟨h₀, hv⟩ : i - ws.length = 0 ∧ w = v := by simpa [getElem?_singleton] using h
    exact .inr ⟨by omega, hv⟩

theorem Ledger.snoc (h : Ledger y) (w : Write) (s : StreamInner) (hw : WriteOk w)
    (ho : y.inner.ended = false) (hfin : s.ended = false → w.fin = false)
    (hf : w.prep.firstSeq = y.inner.nextSeq) (hch : w.prep.ackRx = y.writes.length) (hn : s.nextSeq = w.ackThreshold)
    (hid : s.remoteId = y.inner.remoteId) (hr : s.nextRemoteSeq = y.inner.nextRemoteSeq) :
    Ledger { y with inner := s, writes := y.writes ++ [w] } where
  next := by
    rw [hn, hw.threshold, hf, h.next]
    simp [numbered, wrap32]
  id_lt := hid ▸ h.id_lt
  remote_lt := hr ▸ h.remote_lt
  ok w' hw' := by
    rcases mem_append.mp hw' with hm | hm
    · exact h.ok w' hm
    · rw [mem_singleton.mp hm]
      exact hw
  first i w' hi := by
    rcases getElem?_snoc hi with hi | ⟨rfl, rfl⟩
    · rw [take_append_of_le_length (List.getElem?_eq_some_iff.mp hi).1.le]
      exact h.first i w' hi
    · rw [take_left, hf, h.next]
      exact ⟨rfl, hch⟩
  open_no_fin h' v hv := by
    rcases mem_append.mp hv with hv | hv
    · exact h.open_no_fin ho v hv
    · rw [mem_singleton.mp hv]
      exact hfin h'
  fin_last i v hi hv := by
    rcases getElem?_snoc hi with hi | ⟨rfl, -⟩
    · rw [h.open_no_fin ho v (mem_of_getElem? hi)] at hv
      cases hv
    · rw [length_append, length_singleton]

theorem Ledger.set (h : Ledger y) {st : Stage} (hi : y.writes[i]? = some w) (hw : WriteOk { w with stage := st }) :
    Ledger { y with writes := y.writes.set i { w with stage := st } } := by
  have hcounts := map_set_stage Write.count (fun _ _ => rfl) hi st
  have hold : ∀ (j : Nat) (v : Write), (y.writes.set i { w with stage := st })[j]? = some v →
      ∃ u : Write, y.writes[j]? = some u ∧ u.prep = v.prep ∧ u.fin = v.fin := by
    intro j v hj
    rw [getElem?_set_stage hi] at hj
    obtain ⟨u, hu, rfl⟩ := Option.map_eq_some_iff.mp hj
    refine ⟨u, hu, ?_⟩
    split <;> exact ⟨rfl, rfl⟩
  refine ⟨?_, h.id_lt, h.remote_lt, fun v hv => ?_, fun j v hj => ?_, fun ho v hv => ?_, fun j v hj hv => ?_⟩
  · rw [numbered, hcounts]
    exact h.next
  · rcases mem_or_eq_of_mem_set hv with hm | rfl
    · exact h.ok v hm
    · exact hw
  · obtain ⟨u, hu, hp, -⟩ := hold j v hj
    rw [map_take, hcounts, ← map_take, ← hp]
    exact h.first j u hu
  · obtain ⟨j, hj⟩ := mem_iff_getElem?.mp hv
    obtain ⟨u, hu, -, hf⟩ := hold j v hj
    exact hf.symm.trans (h.open_no_fin ho u (mem_of_getElem? hu))
  · obtain ⟨u, hu, -, hf⟩ := hold j v hj
    rw [length_set]
    exact h.fin_last j u hu (hf.trans hv)

/-! ## Every step keeps the ledger -/

theorem Ledger.next_lt (h : Ledger y) : y.inner.nextSeq < 2 ^ 32 := by
  rw [h.next]
  exact wrap32_lt _

theorem writeOk_newWrite (h : Ledger y) (data : Bytes) : WriteOk (y.newWrite data) where
  threshold := rfl
  first_lt := h.next_lt
  id_lt := h.id_lt
  ack_lt := h.remote_lt
  count := rfl
  fin_data h := by cases h
  cut mp packets h := by rcases h with h | h <;> cases h
  fin_cut h := by cases h

theorem writeOk_newEnd (h : Ledger y) (addr : SocketAddr) : WriteOk (y.newEnd addr) where
  threshold := rfl
  first_lt := h.next_lt
  id_lt := h.id_lt
  ack_lt := h.remote_lt
  count := rfl
  fin_data _ := rfl
  cut mp packets h := by
    rcases h with h | h <;> cases h
    rfl
  fin_cut _ h := by cases h

theorem WriteOk.setStage (h : WriteOk w) (stage : Stage)
    (hs : ∀ mp packets, stage = .cut mp packets ∨ stage = .queued mp packets → packets = w.packetsAt mp)
    (hr : stage ≠ .reserved) : WriteOk { w with stage := stage } :=
  { h with cut := hs, fin_cut := fun _ => hr }

theorem nextRemoteSeq_drainRecv (fuel : Nat) (s : StreamInner) (events : List StreamEvent)
    (h : s.nextRemoteSeq < 2 ^ 32) : (drainRecv fuel s events).1.nextRemoteSeq < 2 ^ 32 := by
  induction fuel generalizing s events with
  | zero => exact h
  | succ fuel ih =>
    unfold drainRecv
    split
    · exact ih _ _ (wrap32_lt _)
    · exact h

theorem nextRemoteSeq_onData (s : StreamInner) (h : Header) (data : Bytes) (hs : s.nextRemoteSeq < 2 ^ 32) :
    (onData s h data).s.nextRemoteSeq < 2 ^ 32 := by
  unfold onData
  split
  · unfold receiveData
    split
    · exact hs
    · split
      · exact nextRemoteSeq_drainRecv _ _ _ (wrap32_lt _)
      · exact hs
  · exact hs

theorem ledger_stepRule (C : Sys → Header → Bytes → Prop) (D : Header → Bytes → Prop)
    (hC : ∀ y addr h data, C y h data → C (y.hookAccepted addr) h data) : StepRule C D Ledger where
  gate := hC
  proc _ _ h := { h with }
  hookTaken _ h := { h with }
  hookAccepted _ _ h := { h with }
  relay y data dest _ h := relay_ind y data dest fun _ _ _ => { h with }
  ackSack y h data ctx _ _ _ hJ := hJ.rest rfl (onAckSack_rest y.inner h data ctx)
  data y h data _ _ hJ := by
    have hr := nextRemoteSeq_onData y.inner h data hJ.remote_lt
    obtain ⟨b, n, events, control, e⟩ := onData_eq y.inner h data
    rw [e] at hr ⊢
    exact { hJ with remote_lt := hr }
  destroy _ _ _ _ _ _ h := { h with }
  heartbeat _ _ h := { h with }
  pacing y shuttingDown now hJ := by
    have f : FlushRule Ledger := by
      refine ⟨fun z c _ h => { h with }, fun z q rest now _ h => ?_⟩
      have htaken : Ledger (z.setInner { z.inner with sendQueue := rest }) := { h with }
      exact htaken.rest rfl (sendOne_rest _ q now)
    exact f.onPacing y shuttingDown now hJ
  rto y now h := h.rest rfl (onRto_rest y.inner now)
  keepalive _ h := { h with }
  finish _ h := { h with }
  start y registered h := y.start_ind registered fun _ _ => { h with }
  connect _ remoteId _ h := { h with id_lt := remoteId.toNat_lt }
  hook _ remoteId _ h := { h with id_lt := remoteId.toNat_lt }
  write y data h := y.write_ind data h fun _ ho _ =>
    h.snoc (y.newWrite data) _ (writeOk_newWrite h data) ho (fun _ => rfl) rfl rfl rfl rfl rfl
  shutdown y h := y.shutdown_ind h (h.same rfl rfl (fun h' => by cases h') h.id_lt h.remote_lt) fun addr _ _ ho _ =>
    h.snoc (y.newEnd addr) _ (writeOk_newEnd h addr) ho (fun h' => by cases h') rfl rfl rfl rfl rfl
  cut y i h := by
    refine y.cut_ind i h fun w hw hs => ?_
    have hok := h.ok w (mem_of_getElem? hw)
    refine h.set hw (hok.setStage _ ?_ (by simp))
    -- a write not cut yet is not the END packet of a shutdown
    have hfin : w.fin = false := by
      cases hf : w.fin with
      | false => rfl
      | true => exact absurd hs (hok.fin_cut hf)
    simp [Write.packetsAt, hfin]
  queue y i now h := by
    refine y.queue_ind i now h fun w mp packets c hw hs _ => ?_
    have hok := h.ok w (mem_of_getElem? hw)
    refine { h.set hw (hok.setStage (.queued mp packets) ?_ (by simp)) with }
    rintro mp' packets' (hst | hst) <;> cases hst
    exact hok.cut mp packets (.inl hs)
  relayTo _ h := { h with }
  kill _ h := { h with }

theorem ledger_new : Ledger {} where
  next := rfl
  id_lt := by decide
  remote_lt := by decide
  ok w hw := by cases hw
  first i w hw := by simp at hw
  open_no_fin _ w hw := by cases hw
  fin_last i w hw := by simp at hw

theorem ledger_after (es : List Ev) : Ledger (after es) :=
  (ledger_stepRule _ _ (fun _ _ _ _ h => h)).after ledger_new es

/-! ## Packets and numbers -/

theorem length_chunks (mp : Nat) (data : Bytes) : (chunks mp data).length = chunkCount mp data.length := by
  unfold chunks chunkCount
  cases data with
  | nil => rfl
  | cons b bs => simp

theorem wrap32_add_wrap32 (a b : Nat) : wrap32 (a + wrap32 b) = wrap32 (a + b) := by
  simp [wrap32]

theorem wrap32_wrap32_add (a b : Nat) : wrap32 (wrap32 a + b) = wrap32 (a + b) := by
  simp [wrap32]

theorem map_fst_dataPackets (prep : WritePrep) (mp : Nat) (data : Bytes) : (dataPackets prep mp data).map Prod.fst =
      (List.range (chunkCount mp data.length)).map (fun i => wrap32 (prep.firstSeq + i)) := by
  rw [← length_chunks]
  refine ext_getElem (by simp [dataPackets]) fun i h₁ h₂ => ?_
  simp [dataPackets, wrap32_add_wrap32]

theorem WriteOk.span (h : WriteOk w) : wrappingSub32 w.ackThreshold w.prep.firstSeq = wrap32 w.count := by
  rw [h.threshold]
  unfold wrappingSub32 wrap32
  omega

theorem WriteOk.reserved_eq (h : WriteOk w) :
    w.reserved = (List.range (wrap32 w.count)).map (fun i => wrap32 (w.prep.firstSeq + i)) := by
  rw [Write.reserved, h.span]

theorem WriteOk.length_reserved (h : WriteOk w) : w.reserved.length = wrap32 w.count := by
  rw [h.reserved_eq, length_map, length_range]

theorem WriteOk.numbers_iff (h : WriteOk w) (mp : Nat) : (w.packetsAt mp).map Prod.fst = w.reserved ↔
      (w.fin = false → chunkCount mp w.data.length = wrap32 (chunkCount w.maxPayload w.data.length)) := by
  have hc := h.count
  rw [h.reserved_eq]
  unfold Write.packetsAt
  cases hf : w.fin with
  | true =>
    rw [hf] at hc
    simp [hc, wrap32_of_lt (by decide : 1 < 2 ^ 32), wrap32_of_lt h.first_lt]
  | false =>
    rw [hf, if_neg (by simp)] at hc
    rw [if_neg (by simp), map_fst_dataPackets, ← hc]
    refine ⟨fun he _ => ?_, fun he => by rw [he rfl]⟩
    simpa using congrArg List.length he

theorem wrap32_sum_reserved (ws : List Write) (hok : ∀ w ∈ ws, WriteOk w) :
    wrap32 (ws.map (fun w => w.reserved.length)).sum = wrap32 (ws.map Write.count).sum := by
  induction ws with
  | nil => rw [map_nil, map_nil]
  | cons v ws ih =>
    rw [map_cons, map_cons, sum_cons, sum_cons, (hok v mem_cons_self).length_reserved,
      wrap32_wrap32_add, ← wrap32_add_wrap32, ih fun w hw => hok w (mem_cons_of_mem _ hw), wrap32_add_wrap32]

theorem flatMap_reserved (ws : List Write) (hok : ∀ w ∈ ws, WriteOk w)
    (hfirst : ∀ i w, ws[i]? = some w → w.prep.firstSeq = wrap32 ((ws.take i).map Write.count).sum) :
    ws.flatMap Write.reserved = (List.range (ws.map (fun w => w.reserved.length)).sum).map wrap32 := by
  induction ws using List.reverseRecOn with
  | nil => rfl
  | append_singleton ws w ih =>
    have hok' : ∀ v ∈ ws, WriteOk v := fun v hv => hok v (mem_append_left _ hv)
    have hw := hok w (mem_append_right _ (mem_singleton_self w))
    have hf := hfirst ws.length w getElem?_concat_length
    rw [take_left] at hf
    have ih' := ih hok' fun i v hi => by
      have hlt := (List.getElem?_eq_some_iff.mp hi).1
      have := hfirst i v (by rw [getElem?_append_left hlt]; exact hi)
      rwa [take_append_of_le_length hlt.le] at this
    have hblock : w.reserved = ((List.range w.reserved.length).map
        (fun i => (ws.map (fun w => w.reserved.length)).sum + i)).map wrap32 := by
      rw [map_map, hw.length_reserved]
      refine hw.reserved_eq.trans (map_congr_left fun i _ => ?_)
      rw [hf, wrap32_wrap32_add, Function.comp_apply, ← wrap32_wrap32_add, ← wrap32_sum_reserved ws hok',
        wrap32_wrap32_add]
    rw [flatMap_append, ih', map_append, sum_append, range_add, map_append,
      flatMap_singleton, map_singleton, sum_singleton, ← hblock]

/-- **Which numbers are queued.** In every reachable state the packets queued for a write carry exactly the numbers
reserved for it if and only if the payload size read when they were cut gives as many packets as were counted; and
when that holds of all writes and all are queued, the numbers queued follow one another from `0` without a gap. -/
theorem queued_numbers (es : List Ev) : (∀ w ∈ (after es).writes, ∀ mp packets, w.stage = .queued mp packets →
      (packets.map Prod.fst = w.reserved ↔
        (w.fin = false → chunkCount mp w.data.length = wrap32 (chunkCount w.maxPayload w.data.length)))) ∧
    ((∀ w ∈ (after es).writes, w.queuedAsCounted = true) →
      (after es).writes.flatMap (fun w => w.queuedPackets.map Prod.fst) =
        (List.range ((after es).writes.map (fun w => w.reserved.length)).sum).map wrap32) := by
  have hl := ledger_after es
  refine ⟨fun w hw mp packets hs => ?_, fun hall => ?_⟩
  · rw [(hl.ok w hw).cut mp packets (.inr hs)]
    exact (hl.ok w hw).numbers_iff mp
  rw [← flatMap_reserved _ hl.ok fun i w hi => (hl.first i w hi).1]
  refine flatMap_congr fun w hw => ?_
  have hq := hall w hw
  unfold Write.queuedAsCounted at hq
  unfold Write.queuedPackets
  split at hq
  next mp packets hs =>
    rw [(hl.ok w hw).cut mp packets (.inr hs)]
    refine ((hl.ok w hw).numbers_iff mp).mpr fun hf => ?_
    simpa [hf] using hq
  · cases hq

/-- Two writes with nothing in between fill their blocks. -/
theorem queued_numbers_filled :
    let run := .connect 1 loopback true :: writeNow (List.replicate 1200 0) 0 ++ writeNow [0] 1
    (after run).writes.flatMap (fun w => w.queuedPackets.map Prod.fst) =
      (List.range ((after run).writes.map (fun w => w.reserved.length)).sum).map wrap32 :=
  (queued_numbers _).2 (by decide +kernel)

/-- Between the two locks of the second write the acknowledgement of a probe raises the MTU: two numbers are reserved
and one packet is queued. -/
theorem queued_numbers_gap : let run := .connect 1 loopback true :: writeNow (List.replicate 1180 0) 0 ++
      [.proc .pacing {}, .write (List.replicate 1200 0), .proc (.packet (pureAck 1) loopback) {}, .cut 1, .queue 1 0]
    ((after run).writes.map fun w => (w.reserved, w.queuedPackets.map Prod.fst)) = [([0], [0]), ([1, 2], [1])] := by
  decide +kernel

end Peeroxide.Udx
