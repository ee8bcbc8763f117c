import Peeroxide.Lib.Machine
import Peeroxide.Udx.Wire

/-!
# Selective acknowledgements

What the receive buffer holds is reported as ranges, and the ranges travel behind the header of an acknowledgement.

Main results: `sack_describes_buffer`, `ack_round_trip_iff`.
-/

namespace Peeroxide.Udx
open Lib StreamInner List OrdMap

/-! ## The runs of a set of numbers -/

/-- The runs of an increasing list, the first one begun as `start..stop`. -/
def runsFrom (start stop : Nat) : List Nat → List SackRange
  | [] => [⟨start, stop⟩]
  | k :: ks => if k = stop then runsFrom start (k + 1) ks else ⟨start, stop⟩ :: runsFrom k (k + 1) ks

def maximalRuns : List Nat → List SackRange
  | [] => []
  | k :: ks => runsFrom k (k + 1) ks

/-- `ranges` are the maximal runs of `keys` in increasing order: non-empty, none next to another, and together `keys`. -/
structure AreRuns (keys : List Nat) (ranges : List SackRange) : Prop where
  nonempty : ∀ r ∈ ranges, r.start < r.stop
  apart : ranges.Pairwise (fun a b => a.stop < b.start)
  covers : ∀ seq, seq ∈ keys ↔ ∃ r ∈ ranges, r.start ≤ seq ∧ seq < r.stop

variable {start stop : Nat} {keys : List Nat}

theorem runsFrom_spec (hlt : start < stop) (hge : ∀ k ∈ keys, stop ≤ k) (hs : keys.Pairwise (· < ·)) :
    (∀ r ∈ runsFrom start stop keys, start ≤ r.start ∧ r.start < r.stop) ∧
    (runsFrom start stop keys).Pairwise (fun a b => a.stop < b.start) ∧
    ∀ seq, (start ≤ seq ∧ seq < stop) ∨ seq ∈ keys ↔ ∃ r ∈ runsFrom start stop keys, r.start ≤ seq ∧ seq < r.stop := by
  induction keys generalizing start stop with
  | nil => simp [runsFrom, hlt]
  | cons k ks ih =>
    obtain ⟨hk, hks⟩ := pairwise_cons.mp hs
    have hstop := hge k mem_cons_self
    unfold runsFrom
    split
    next heq =>
      obtain ⟨hr, ha, hc⟩ := @ih start (k + 1) (by omega) hk hks
      grind
    next hne =>
      obtain ⟨hr, ha, hc⟩ := @ih k (k + 1) (by omega) hk hks
      refine ⟨?_, pairwise_cons.mpr ⟨fun r hm => ?_, ha⟩, fun seq => ?_⟩
      · grind
      · have := (hr r hm).1
        show stop < r.start
        omega
      · simp only [mem_cons, exists_eq_or_imp]
        grind

theorem areRuns_maximalRuns (hs : keys.Pairwise (· < ·)) : AreRuns keys (maximalRuns keys) := by
  cases keys with
  | nil => exact ⟨by simp [maximalRuns], by simp [maximalRuns], by simp [maximalRuns]⟩
  | cons k ks =>
    obtain ⟨hk, hks⟩ := pairwise_cons.mp hs
    obtain ⟨hr, ha, hc⟩ := runsFrom_spec (Nat.lt_succ_self k) hk hks
    refine ⟨fun r hm => (hr r hm).2, ha, fun seq => ?_⟩
    rw [maximalRuns]
    grind

/-- The end of a range as the code computes it. -/
def SackRange.wrapped (r : SackRange) : SackRange := ⟨r.start, wrap32 r.stop⟩

theorem sackLoop_eq {done : List SackRange} (hge : ∀ k ∈ keys, stop ≤ k ∧ k < 2 ^ 32) (hs : keys.Pairwise (· < ·))
    (hdone : done.length < MAX_SACK_RANGES) : sackLoop start (wrap32 stop) done keys =
      (done ++ (runsFrom start stop keys).map SackRange.wrapped).take MAX_SACK_RANGES := by
  induction keys generalizing start stop done with
  | nil =>
    rw [runsFrom, take_of_length_le (by simp; omega)]
    rfl
  | cons k ks ih =>
    obtain ⟨hk, hks⟩ := pairwise_cons.mp hs
    obtain ⟨hstop, hlt⟩ := hge k mem_cons_self
    have hge' : ∀ j ∈ ks, k + 1 ≤ j ∧ j < 2 ^ 32 := fun j hj => ⟨hk j hj, (hge j (mem_cons_of_mem k hj)).2⟩
    unfold sackLoop runsFrom
    dsimp only
    rw [wrap32_of_lt (by omega : stop < 2 ^ 32)]
    split
    · exact ih hge' hks hdone
    · have hw : SackRange.wrapped ⟨start, stop⟩ = ⟨start, stop⟩ := by
        rw [SackRange.wrapped, wrap32_of_lt (by dsimp only; omega)]
      have hlen : (done ++ [(⟨start, stop⟩ : SackRange)]).length = done.length + 1 := length_append
      rw [map_cons, hw, append_cons done _ (map _ _)]
      split_ifs with hfull
      · exact (take_left' (by omega)).symm
      · exact ih hge' hks (by omega)

section
variable {s : StreamInner}

theorem sorted_keys (m : OrdMap Nat RecvdPacket) : m.keys.Pairwise (· < ·) := pairwise_map.mpr m.sorted

theorem sackRanges_eq (hk : ∀ k ∈ s.recvBuf.keys, k < 2 ^ 32) :
    s.sackRanges = ((maximalRuns s.recvBuf.keys).map SackRange.wrapped).take MAX_SACK_RANGES := by
  have hs := sorted_keys s.recvBuf
  unfold sackRanges
  cases h : s.recvBuf.keys with
  | nil => rfl
  | cons first rest =>
    rw [h] at hk hs
    have hlt := (pairwise_cons.mp hs).1
    exact sackLoop_eq (fun k hm => ⟨hlt k hm, hk k (mem_cons_of_mem _ hm)⟩) (pairwise_cons.mp hs).2 (by decide)

end

/-! ## What a receiver holds -/

/-- Every buffered number is past the next expected one and below the last. -/
structure Ahead (s : StreamInner) : Prop where
  next_lt : s.nextRemoteSeq < 2 ^ 32
  keys : ∀ k ∈ s.recvBuf.keys, s.nextRemoteSeq < k ∧ k < 2 ^ 32 - 1

theorem ahead_drainRecv (fuel : Nat) {s : StreamInner} {events : List StreamEvent} (hfuel : s.recvBuf.size ≤ fuel)
    (hn : s.nextRemoteSeq < 2 ^ 32) (hk : ∀ k ∈ s.recvBuf.keys, s.nextRemoteSeq ≤ k ∧ k < 2 ^ 32 - 1) :
    Ahead (drainRecv fuel s events).1 := by
  induction fuel generalizing s events with
  | zero =>
    have hnil : s.recvBuf.keys = [] := by
      rw [OrdMap.keys, eq_nil_of_length_eq_zero (Nat.le_zero.mp hfuel), map_nil]
    exact ⟨hn, by rw [drainRecv, hnil]; simp⟩
  | succ fuel ih =>
    unfold drainRecv
    split
    next r hr =>
      have hnext := hk _ (mem_keys_of_mem (get?_eq_some.mp hr))
      have hw : wrap32 (s.nextRemoteSeq + 1) = s.nextRemoteSeq + 1 := wrap32_of_lt (by omega)
      have hsize := size_remove_lt hr
      refine ih (by dsimp only; omega) (wrap32_lt _) fun k hm => ?_
      obtain ⟨v, hv⟩ := mem_keys.mp hm
      obtain ⟨hv, hne⟩ := mem_remove.mp hv
      have := hk k (mem_keys.mpr ⟨v, hv⟩)
      dsimp only at hne ⊢
      omega
    next hr =>
      refine ⟨hn, fun k hm => ?_⟩
      obtain ⟨v, hv⟩ := mem_keys.mp hm
      have hne : s.nextRemoteSeq ≠ k := by
        rintro rfl
        exact get?_eq_none.mp hr v hv
      have := hk k hm
      dsimp only
      omega

/-- One call of `receive_data` with a number and what arrived under it. -/
def StreamInner.receive (s : StreamInner) (c : Nat × RecvdPacket) : StreamInner := (s.receiveData c.1 c.2.payload c.2.flags).1

theorem Ahead.receive {s : StreamInner} (h : Ahead s) {c : Nat × RecvdPacket} (hc : c.1 < 2 ^ 32 - 1) :
    Ahead (s.receive c) := by
  unfold StreamInner.receive receiveData
  split_ifs with hold hnext
  · exact h
  · have hw : wrap32 (c.1 + 1) = c.1 + 1 := wrap32_of_lt (by omega)
    refine ahead_drainRecv _ le_rfl (wrap32_lt _) fun k hm => ?_
    have := h.keys k hm
    dsimp only
    omega
  · refine ⟨h.next_lt, fun k hm => ?_⟩
    obtain ⟨v, hv⟩ := mem_keys.mp hm
    rcases mem_orInsert hv with heq | hv
    · cases heq
      exact ⟨by dsimp only; omega, hc⟩
    · exact h.keys k (mem_keys.mpr ⟨v, hv⟩)

/-- **The ranges describe the buffer**: after any calls the buffered numbers are past the next expected one, and the
ranges are the first maximal runs of them. -/
theorem sack_describes_buffer (calls : List (Nat × RecvdPacket)) (hc : ∀ c ∈ calls, c.1 < 2 ^ 32 - 1) :
    (∀ k ∈ (run receive .new calls).recvBuf.keys, (run receive .new calls).nextRemoteSeq < k) ∧
    ∃ runs, AreRuns (run receive .new calls).recvBuf.keys runs ∧
      (run receive .new calls).sackRanges = runs.take MAX_SACK_RANGES := by
  have h : Ahead (run receive .new calls) :=
    run_invariant_along (fun s c hs hp => hs.receive hp) ⟨by decide, by simp [StreamInner.new, OrdMap.keys]⟩
      (Along.of_forall (fun c hm _ => hc c hm) _)
  generalize run receive .new calls = s at h
  have hr := areRuns_maximalRuns (sorted_keys s.recvBuf)
  refine ⟨fun k hk => (h.keys k hk).1, _, hr, ?_⟩
  have hid : (maximalRuns s.recvBuf.keys).map SackRange.wrapped = maximalRuns s.recvBuf.keys := by
    refine (map_congr_left fun r hm => ?_).trans (map_id _)
    have hlast : r.stop - 1 ∈ s.recvBuf.keys := by
      have := hr.nonempty r hm
      exact (hr.covers _).mpr ⟨r, hm, by omega, by omega⟩
    have := (h.keys _ hlast).2
    rw [SackRange.wrapped, wrap32_of_lt (by omega)]
    rfl
  rw [sackRanges_eq fun k hk => lt_trans (h.keys k hk).2 (by decide), hid]

theorem sack_describes_buffer_gap :
    (run receive .new [(2, ⟨[7], FLAG_DATA⟩), (3, ⟨[8], FLAG_DATA⟩), (5, ⟨[9], FLAG_DATA⟩)]).sackRanges =
      [⟨2, 4⟩, ⟨5, 6⟩] ∧ ∃ runs, AreRuns [2, 3, 5] runs ∧ [⟨2, 4⟩, ⟨5, 6⟩] = runs.take MAX_SACK_RANGES :=
  ⟨by decide, (sack_describes_buffer [(2, ⟨[7], FLAG_DATA⟩), (3, ⟨[8], FLAG_DATA⟩), (5, ⟨[9], FLAG_DATA⟩)]
    (by decide)).2⟩

/-! ## On the wire -/

section
variable {ranges : List SackRange}

@[simp] theorem length_encodeSack (ranges : List SackRange) : (encodeSack ranges).length = 8 * ranges.length := by
  induction ranges with
  | nil => rfl
  | cons r rs ih =>
    simp only [encodeSack, flatMap_cons, length_append, length_leBytes, length_cons] at ih ⊢
    omega

theorem take_encodeSack (n : Nat) : (encodeSack ranges).take (8 * n) = encodeSack (ranges.take n) := by
  induction ranges generalizing n with
  | nil => simp [encodeSack]
  | cons r rs ih =>
    cases n with
    | zero => rfl
    | succ n =>
      have hlen : (leBytes 4 r.start ++ leBytes 4 r.stop).length = 8 := by simp
      show take (8 * (n + 1)) (leBytes 4 r.start ++ leBytes 4 r.stop ++ encodeSack rs) = _
      rw [take_append, hlen, take_of_length_le (by omega), Nat.mul_succ, Nat.add_sub_cancel, ih]
      rfl

theorem sackChunks_encodeSack (hr : ∀ r ∈ ranges, r.start < 2 ^ 32 ∧ r.stop < 2 ^ 32) :
    sackChunks ranges.length (encodeSack ranges) = ranges := by
  induction ranges with
  | nil => rfl
  | cons r rs ih =>
    obtain ⟨hstart, hstop⟩ := hr r mem_cons_self
    have he : encodeSack (r :: rs) = leBytes 4 r.start ++ (leBytes 4 r.stop ++ encodeSack rs) := append_assoc _ _ _
    have h0 := @Header.u32At_append [] (leBytes 4 r.stop ++ encodeSack rs) r.start 0 rfl hstart
    have h4 := @Header.u32At_append (leBytes 4 r.start) (encodeSack rs) r.stop 4 (length_leBytes _ _) hstop
    have h8 : (encodeSack (r :: rs)).drop 8 = encodeSack rs := drop_left' (by simp)
    rw [length_cons, sackChunks, h8, ih fun r hm => hr r (mem_cons_of_mem _ hm), he, h4]
    rw [nil_append] at h0
    rw [h0]

/-- The cumulative acknowledgement and the ranges the peer reads from a datagram. -/
def readAck (data : Bytes) : Option (Nat × List SackRange) :=
  (Header.decode data).toOption.map fun h => (h.ack, (incomingSack h data).getD [])

/-- It reads the ranges whose bytes the offset, their length modulo 256, still counts. -/
theorem read_sendAck {s : StreamInner} (hid : s.remoteId < 2 ^ 32) (hn : s.nextRemoteSeq < 2 ^ 32)
    (hr : ∀ r ∈ ranges, r.start < 2 ^ 32 ∧ r.stop < 2 ^ 32) {d : Datagram} (hd : d ∈ sendAck s ranges) :
    readAck d.data = some (s.nextRemoteSeq, ranges.take (ranges.length % 32)) := by
  have hdec : Header.decode ((ackHeader s ranges).encode ++ encodeSack ranges) = .ok (ackHeader s ranges) :=
    Header.decode_encode ⟨hid, DEFAULT_RWND_lt, Nat.two_pow_pos 32, hn⟩ _
  rw [mem_sendAck hd, readAck, hdec]
  refine congrArg (fun r => some (s.nextRemoteSeq, r)) ?_
  have hoff : (ackHeader s ranges).dataOffset.toNat = 8 * (ranges.length % 32) := by
    show ranges.length * 8 % 256 = _
    omega
  have hbytes : (((ackHeader s ranges).encode ++ encodeSack ranges).take (HEADER_SIZE + 8 * (ranges.length % 32))).drop
      HEADER_SIZE = encodeSack (ranges.take (ranges.length % 32)) := by
    rw [← take_encodeSack, drop_take, drop_left' (Header.length_encode _), Nat.add_sub_cancel_left]
  unfold incomingSack
  rw [Header.payloadOffset, hoff, hbytes]
  by_cases h0 : ranges.length % 32 = 0
  · simp [h0]
  · have hflag : (ackHeader s ranges).hasFlag FLAG_SACK = true := by
      rw [ackHeader, if_neg (by rintro h; simp [isEmpty_iff.mp h] at h0)]
      dsimp only [Header.hasFlag]
      decide
    have hlen : (ranges.take (ranges.length % 32)).length = ranges.length % 32 := by
      rw [length_take]
      omega
    rw [hflag, if_pos (by simp; omega), if_pos (by simp; omega), decodeSack, length_encodeSack, hlen,
      if_neg (by omega), Nat.mul_div_cancel_left _ (by decide)]
    have := @sackChunks_encodeSack (ranges.take (ranges.length % 32)) fun r hm => hr r (mem_of_mem_take hm)
    rwa [hlen] at this

end

/-- **The ranges reach the peer just if there are fewer than 32 runs in the buffer.** -/
theorem ack_round_trip_iff {s : StreamInner} {addr : SocketAddr} (hudp : s.udp = true) (haddr : s.remoteAddr = some addr)
    (hid : s.remoteId < 2 ^ 32) (hn : s.nextRemoteSeq < 2 ^ 32) (hk : ∀ k ∈ s.recvBuf.keys, k < 2 ^ 32) :
    (∀ d ∈ sendAck s s.sackRanges, readAck d.data = some (s.nextRemoteSeq, s.sackRanges)) ↔
      (maximalRuns s.recvBuf.keys).length < 32 := by
  have hranges := sackRanges_eq hk
  have hlen : s.sackRanges.length = min 50 (maximalRuns s.recvBuf.keys).length := by
    rw [hranges, length_take, length_map]
    rfl
  have hr : ∀ r ∈ s.sackRanges, r.start < 2 ^ 32 ∧ r.stop < 2 ^ 32 := by
    intro r hm
    rw [hranges] at hm
    obtain ⟨r, hrun, rfl⟩ := mem_map.mp (mem_of_mem_take hm)
    have hruns := areRuns_maximalRuns (sorted_keys s.recvBuf)
    exact ⟨hk _ ((hruns.covers _).mpr ⟨r, hrun, le_rfl, hruns.nonempty r hrun⟩), wrap32_lt _⟩
  have hread := fun d => @read_sendAck s.sackRanges s hid hn hr d
  obtain ⟨d, hd⟩ : ∃ d, d ∈ sendAck s s.sackRanges := by
    unfold sendAck
    rw [hudp, haddr]
    split_ifs <;> exact ⟨_, mem_singleton_self _⟩
  constructor
  · intro h
    have hs := (Prod.mk.inj (Option.some.inj ((hread d hd).symm.trans (h d hd)))).2
    have := congrArg length hs
    rw [length_take] at this
    omega
  · intro h d hd
    rw [hread d hd, take_of_length_le (by omega)]

/-- A receiver that holds every second packet of the first 64. -/
def spread (n : Nat) : StreamInner :=
  run receive { StreamInner.new with udp := true, remoteAddr := some ⟨.v4 1, 4000⟩ }
    ((List.range n).map fun i => (2 * i + 1, ⟨[7], FLAG_DATA⟩))

theorem ack_round_trip_two : (spread 2).sackRanges = [⟨1, 2⟩, ⟨3, 4⟩] ∧
    ∀ d ∈ sendAck (spread 2) (spread 2).sackRanges, readAck d.data = some (0, (spread 2).sackRanges) :=
  ⟨by decide, (ack_round_trip_iff rfl rfl (by decide) (by decide) (by decide)).mpr (by decide)⟩

/-- Thirty-two ranges take 256 bytes, which the offset gives as none. -/
theorem ranges_lost : (spread 32).sackRanges.length = 32 ∧
    ∃ d ∈ sendAck (spread 32) (spread 32).sackRanges, readAck d.data = some (0, []) := by
  decide +kernel

end Peeroxide.Udx
