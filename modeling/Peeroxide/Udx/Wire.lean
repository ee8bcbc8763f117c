import Peeroxide.Udx.Processor

/-!
# What a numbered packet carries

A numbered packet is a header, zero padding counted in its data offset, and a payload. Probing adds the padding, a
retransmission takes it away, and the receiver reads the same item either way.

Main result: `probe_transparent`.
-/

namespace Peeroxide.Udx
open Lib StreamInner List Header

inductive Item where
  | data (chunk : Bytes)
  | fin
  deriving DecidableEq, Repr

namespace Item

def flags : Item → UInt8
  | .data _ => FLAG_DATA
  | .fin => FLAG_END

def payload : Item → Bytes
  | .data chunk => chunk
  | .fin => []

/-- The events the receiver pushes for it. -/
def events (a : Item) : List StreamEvent := pushEvents a.payload a.flags

theorem recvFlags_flags (a : Item) : (if a.flags &&& FLAG_DATA != 0 then FLAG_DATA else 0) |||
    (if a.flags &&& FLAG_END != 0 then FLAG_END else 0) = a.flags := by
  have hdata : (if FLAG_DATA &&& FLAG_DATA != 0 then FLAG_DATA else 0) |||
      (if FLAG_DATA &&& FLAG_END != 0 then FLAG_END else 0) = FLAG_DATA := by decide
  have hend : (if FLAG_END &&& FLAG_DATA != 0 then FLAG_DATA else 0) |||
      (if FLAG_END &&& FLAG_END != 0 then FLAG_END else 0) = FLAG_END := by decide
  cases a with
  | data chunk => exact hdata
  | fin => exact hend

end Item

/-- The packet for `item` under number `seq` with `pad` bytes of padding. -/
def wire (item : Item) (id seq ack pad : Nat) : Bytes :=
  encode ⟨item.flags, UInt8.ofNat pad, id, DEFAULT_RWND, seq, ack⟩ ++ List.replicate pad 0 ++ item.payload

theorem DEFAULT_RWND_lt : DEFAULT_RWND < 2 ^ 32 := by decide

variable (h : Header) {s : StreamInner} (item : Item) (id seq ack : Nat)

theorem buildDataPacket_eq (chunk : Bytes) : buildDataPacket id seq ack chunk = wire (.data chunk) id seq ack 0 := by
  simp [buildDataPacket, wire, Item.flags, Item.payload]

theorem buildEndPacket_eq : buildEndPacket id seq ack = wire .fin id seq ack 0 := by
  simp [buildEndPacket, wire, Item.flags, Item.payload]

/-! ## Padding -/

theorem set_encode (offset : UInt8) (rest : Bytes) :
    (h.encode ++ rest).set 3 offset = { h with dataOffset := offset }.encode ++ rest := by
  simp [encode]

theorem length_wire (id seq ack pad : Nat) :
    (wire item id seq ack pad).length = HEADER_SIZE + pad + item.payload.length := by
  simp [wire, Nat.add_assoc]

theorem insertPadding_wire (id seq ack pad : Nat) :
    insertPadding (wire item id seq ack 0) pad = wire item id seq ack pad := by
  have ht : (wire item id seq ack 0).take HEADER_SIZE =
      encode ⟨item.flags, UInt8.ofNat 0, id, DEFAULT_RWND, seq, ack⟩ := by
    rw [wire, append_assoc, take_append_of_le_length (by simp), take_of_length_le (by simp)]
  have hd : (wire item id seq ack 0).drop HEADER_SIZE = item.payload := by
    exact drop_left' (by simp)
  unfold insertPadding
  rw [ht, hd, append_assoc, set_encode, wire, append_assoc]

section
variable {packet : Bytes} {pad i : Nat} (hlen : HEADER_SIZE ≤ packet.length)
include hlen

theorem getElem?_insertPadding (hi : i < HEADER_SIZE) :
    (insertPadding packet pad)[i]? = if i = 3 then some (UInt8.ofNat pad) else packet[i]? := by
  have htake : i < (packet.take HEADER_SIZE).length := by
    rw [length_take]
    omega
  rw [insertPadding, getElem?_set, append_assoc, getElem?_append_left htake]
  grind

theorem getD_insertPadding (hi : i < HEADER_SIZE) :
    (insertPadding packet pad).getD i 0 = if i = 3 then UInt8.ofNat pad else packet.getD i 0 := by
  rw [getD_eq_getElem?_getD, getElem?_insertPadding hlen hi]
  split_ifs <;> rfl

theorem drop_insertPadding : (insertPadding packet pad).drop (HEADER_SIZE + pad) = packet.drop HEADER_SIZE := by
  rw [insertPadding, drop_set_of_lt (by rw [HEADER_SIZE]; omega)]
  exact drop_left' (by simp [hlen])

theorem u32At_insertPadding (h4 : 4 ≤ i) (hi : i + 4 ≤ HEADER_SIZE) :
    u32At (insertPadding packet pad) i = u32At packet i := by
  unfold u32At
  congr 1
  refine ext_getElem? fun j => ?_
  have := @getElem?_insertPadding packet pad (i + j) hlen
  grind

theorem decode_insertPadding {h : Header} (hd : decode packet = .ok h) :
    decode (insertPadding packet pad) = .ok { h with dataOffset := UInt8.ofNat pad } := by
  have hpad := length_insertPadding hlen pad
  unfold decode at hd ⊢
  rw [if_neg (by omega)] at hd ⊢
  split_ifs at hd with hmagic hversion
  cases hd
  simp (disch := decide) only [getD_insertPadding hlen, u32At_insertPadding hlen]
  exact (if_neg hmagic).trans (if_neg hversion)

theorem stripProbePadding_insertPadding (h3 : packet.getD 3 0 = 0) (hp : pad ≤ 255) :
    stripProbePadding (insertPadding packet pad) = packet := by
  have hpad := length_insertPadding hlen pad
  have hoff : ((insertPadding packet pad).getD 3 0).toNat = pad := by
    rw [getD_insertPadding hlen (by decide)]
    exact Nat.mod_eq_of_lt (by omega)
  unfold stripProbePadding
  dsimp only
  by_cases h0 : pad = 0
  · rw [hoff, insertPadding, h0, replicate_zero, append_nil]
    refine ext_getElem? fun i => ?_
    grind
  · rw [hoff, if_neg h0, drop_insertPadding hlen]
    refine ext_getElem? fun i => ?_
    have := @getElem?_insertPadding packet pad i hlen
    grind

end

theorem stripProbePadding_wire {pad : Nat} (hp : pad ≤ 255) :
    stripProbePadding (wire item id seq ack pad) = wire item id seq ack 0 := by
  rw [← insertPadding_wire]
  refine stripProbePadding_insertPadding (by rw [length_wire]; omega) ?_ hp
  rfl

/-! ## What the receiver reads -/

/-- `bytes` is a packet for `item` under number `seq`, padded by `pad`. -/
def IsWire (seq : Nat) (item : Item) (pad : Nat) (bytes : Bytes) : Prop :=
  ∃ id ack, id < 2 ^ 32 ∧ ack < 2 ^ 32 ∧ pad ≤ 255 ∧ bytes = wire item id seq ack pad

theorem IsWire.read {seq pad : Nat} {item : Item} {bytes : Bytes} (hw : IsWire seq item pad bytes) (hs : seq < 2 ^ 32)
    {h : Header} (hd : decode bytes = .ok h) :
    h.seq = seq ∧ packetPayload h bytes = item.payload ∧ recvFlags h = item.flags ∧
      (h.hasFlag FLAG_DATA || h.hasFlag FLAG_END) = true ∧ h.hasFlag FLAG_DESTROY = false := by
  obtain ⟨id, ack, hid, hack, hp, rfl⟩ := hw
  have hr : InRange ⟨item.flags, UInt8.ofNat pad, id, DEFAULT_RWND, seq, ack⟩ := ⟨hid, DEFAULT_RWND_lt, hs, hack⟩
  have hd' := decode_encode hr (List.replicate pad 0 ++ item.payload)
  cases hd.symm.trans hd'
  have hoff : (UInt8.ofNat pad).toNat = pad := Nat.mod_eq_of_lt (by omega)
  refine ⟨rfl, ?_, ?_, ?_, ?_⟩
  · have hlen := length_wire item id seq ack pad
    unfold packetPayload payloadOffset
    rw [hoff, if_pos (by omega)]
    exact drop_left' (by simp)
  · exact item.recvFlags_flags
  · dsimp only [hasFlag]
    cases item <;> dsimp only [Item.flags] <;> decide
  · dsimp only [hasFlag]
    cases item <;> dsimp only [Item.flags] <;> decide

/-- **A probe carries what the packet carries**: the receiver reads the same fields and payload, and taking the padding
away restores the packet. -/
theorem probe_transparent {s s' : StreamInner} {packet padded : Bytes} {h : Header}
    (hd : decode packet = .ok h) (hoff : h.dataOffset = 0)
    (hprobe : s.mtuProbeifyPacket packet = some (s', padded)) :
    padded.length = s.mtuProbeSize ∧ stripProbePadding padded = packet ∧
    ∃ h', decode padded = .ok h' ∧ h'.typeFlags = h.typeFlags ∧ h'.seq = h.seq ∧ h'.ack = h.ack ∧
      packetPayload h' padded = packetPayload h packet := by
  unfold mtuProbeifyPacket at hprobe
  dsimp only at hprobe
  split_ifs at hprobe with hshort hsize hpad
  cases hprobe
  have hlen := Nat.le_of_not_lt hshort
  have hpadded := length_insertPadding hlen (s.mtuProbeSize - packet.length)
  have h3 : packet.getD 3 0 = 0 := by
    unfold decode at hd
    split_ifs at hd
    cases hd
    exact hoff
  have hbyte : (UInt8.ofNat (s.mtuProbeSize - packet.length)).toNat = s.mtuProbeSize - packet.length :=
    Nat.mod_eq_of_lt (by omega)
  refine ⟨by omega, stripProbePadding_insertPadding hlen h3 (by omega), _, decode_insertPadding hlen hd,
    rfl, rfl, rfl, ?_⟩
  simp only [packetPayload, payloadOffset, hoff, hbyte]
  rw [if_pos (by omega), if_pos (by simpa using hlen), drop_insertPadding hlen]
  rfl

theorem probe_transparent_small :
    stripProbePadding (insertPadding (buildDataPacket 1 2 3 [7]) 3) = buildDataPacket 1 2 3 [7] :=
  (@probe_transparent { StreamInner.new with mtuProbeSize := 24 } _ (buildDataPacket 1 2 3 [7]) _
    ⟨FLAG_DATA, 0, 1, DEFAULT_RWND, 2, 3⟩ (by decide) rfl rfl).2.1

/-- A datagram that carries no item and does not tear the stream down. -/
def Plain (bytes : Bytes) : Prop :=
  ∀ h, decode bytes = .ok h →
    (h.hasFlag FLAG_DATA || h.hasFlag FLAG_END) = false ∧ h.hasFlag FLAG_DESTROY = false

theorem plain_encode {h : Header} (hr : h.InRange) (rest : Bytes)
    (hf : (h.hasFlag FLAG_DATA || h.hasFlag FLAG_END) = false ∧ h.hasFlag FLAG_DESTROY = false) :
    Plain (h.encode ++ rest) := by
  intro h' hd
  cases hd.symm.trans (decode_encode hr rest)
  exact hf

/-- The header of an acknowledgement with `ranges`. -/
def ackHeader (s : StreamInner) (ranges : List SackRange) : Header :=
  ⟨if ranges.isEmpty then 0 else FLAG_SACK, UInt8.ofNat (ranges.length * 8), s.remoteId, DEFAULT_RWND, 0, s.nextRemoteSeq⟩

theorem mem_sendAck {ranges : List SackRange} {d : Datagram} (hd : d ∈ sendAck s ranges) :
    d.data = (ackHeader s ranges).encode ++ encodeSack ranges := by
  unfold sendAck at hd
  split at hd
  · split at hd <;> rw [mem_singleton] at hd <;> subst hd
    next hempty =>
      rw [isEmpty_iff.mp hempty]
      exact (append_nil _).symm
    next hne =>
      rw [ackHeader, if_neg hne]
  · cases hd

theorem plain_sendAck (hid : s.remoteId < 2 ^ 32) (hr : s.nextRemoteSeq < 2 ^ 32)
    (ranges : List SackRange) : ∀ d ∈ sendAck s ranges, Plain d.data := by
  intro d hd
  rw [mem_sendAck hd]
  refine plain_encode ⟨hid, DEFAULT_RWND_lt, Nat.two_pow_pos 32, hr⟩ _ ?_
  dsimp only [ackHeader, hasFlag]
  split <;> decide

theorem plain_keepaliveOut (hid : s.remoteId < 2 ^ 32) (hr : s.nextRemoteSeq < 2 ^ 32) :
    ∀ d ∈ keepaliveOut s, Plain d.data := by
  intro d hd
  unfold keepaliveOut at hd
  split at hd
  · split at hd
    · rw [mem_singleton] at hd
      subst hd
      have := plain_encode (h := ⟨FLAG_HEARTBEAT, 0, s.remoteId, DEFAULT_RWND, 0, s.nextRemoteSeq⟩)
        ⟨hid, DEFAULT_RWND_lt, Nat.two_pow_pos 32, hr⟩ [] (by dsimp only [hasFlag]; decide)
      rwa [append_nil] at this
    · cases hd
  · cases hd

end Peeroxide.Udx
