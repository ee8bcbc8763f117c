import Peeroxide.Dht.HyperdhtMessages

/-!
# Decoders on hostile input

A decoder stops the program when it reads outside its buffer, or asks for more capacity than the allocator grants. With
an allocator that grants `1048576` elements and no more, a decoder that does not stop never asks for more than that.

Main result: `decoders_safe_iff`.
-/

namespace Peeroxide.Dht
open Lib

/-- The decode functions of the HyperDHT messages. -/
inductive DecodeFn where
  | hyperPeer
  | announce
  | lookupRawReply
  | mutablePutRequest
  | mutableGetResponse
  | mutableSignable
  | ipv4PeerArray
  | ipv6PeerArray
  | handshake
  | holepunchMsg
  | relayInfo
  | relayInfoArray
  | holepunchInfo
  | udxInfo
  | secretStreamInfo
  | relayThroughInfo
  | noisePayload
  | holepunchPayload
  deriving DecidableEq, Repr

def DecodeFn.Value : DecodeFn → Type
  | hyperPeer => HyperPeer
  | announce => AnnounceMessage
  | lookupRawReply => LookupRawReply
  | mutablePutRequest => MutablePutRequest
  | mutableGetResponse => MutableGetResponse
  | mutableSignable => MutableSignable
  | ipv4PeerArray | ipv6PeerArray => List Ipv4Peer
  | handshake => HandshakeMessage
  | holepunchMsg => HolepunchMessage
  | relayInfo => RelayInfo
  | relayInfoArray => List RelayInfo
  | holepunchInfo => HolepunchInfo
  | udxInfo => UdxInfo
  | secretStreamInfo => SecretStreamInfo
  | relayThroughInfo => RelayThroughInfo
  | noisePayload => NoisePayload
  | holepunchPayload => HolepunchPayload

def DecodeFn.run : (f : DecodeFn) → Decoder f.Value
  | hyperPeer => decodeHyperPeer
  | announce => decodeAnnounce
  | lookupRawReply => decodeLookupRawReply
  | mutablePutRequest => decodeMutablePutRequest
  | mutableGetResponse => decodeMutableGetResponse
  | mutableSignable => decodeMutableSignable
  | ipv4PeerArray => decodeIpv4PeerArray
  | ipv6PeerArray => decodeIpv6PeerArray
  | handshake => decodeHandshake
  | holepunchMsg => decodeHolepunchMsg
  | relayInfo => decodeRelayInfo
  | relayInfoArray => decodeRelayInfoArray
  | holepunchInfo => decodeHolepunchInfo
  | udxInfo => decodeUdxInfo
  | secretStreamInfo => decodeSecretStreamInfo
  | relayThroughInfo => decodeRelayThroughInfo
  | noisePayload => decodeNoisePayload
  | holepunchPayload => decodeHolepunchPayload

/-! ## The parts -/

theorem safe_peer4 : Safe decodePeer4 := safe_ipv4Address.bind fun _ => .pure _

theorem safe_peer6 : Safe decodePeer6 := safe_ipv6Address.bind fun _ => .pure _

theorem safe_hyperPeer : Safe decodeHyperPeer :=
  safe_fixed32.bind fun _ => (safe_array safe_peer4).bind fun _ => .pure _

theorem safe_vec : Safe decodeVec := safe_buffer.bind fun _ => .pure _

theorem safe_relayInfo : Safe decodeRelayInfo := safe_peer4.bind fun _ => safe_peer4.bind fun _ => .pure _

theorem safe_holepunchInfo : Safe decodeHolepunchInfo :=
  safe_uint.bind fun _ => (safe_array safe_relayInfo).bind fun _ => .pure _

theorem safe_udxInfo : Safe decodeUdxInfo :=
  safe_uint.bind fun _ => safe_uint.bind fun _ => safe_uint.bind fun _ => safe_uint.bind fun _ => .pure _

theorem safe_secretStreamInfo : Safe decodeSecretStreamInfo := safe_uint.bind fun _ => .pure _

theorem safe_relayThroughInfo : Safe decodeRelayThroughInfo :=
  safe_uint.bind fun _ => safe_uint.bind fun _ => safe_fixed32.bind fun _ => safe_fixed32.bind fun _ => .pure _

theorem safe_noisePayload : Safe decodeNoisePayload := by
  refine safe_uint.bind fun version => ?_
  split
  · exact .pure _
  · refine safe_uint.bind fun flags => safe_uint.bind fun error => safe_uint.bind fun firewall => ?_
    exact (safe_holepunchInfo.readIf _).bind fun _ => ((safe_array safe_peer4).readOr _ _).bind fun _ =>
      ((safe_array safe_peer6).readOr _ _).bind fun _ => (safe_udxInfo.readIf _).bind fun _ =>
      (safe_secretStreamInfo.readIf _).bind fun _ => (safe_relayThroughInfo.readIf _).bind fun _ =>
      ((safe_array safe_peer4).readIf _).bind fun _ => .pure _

theorem safe_holepunchPayload : Safe decodeHolepunchPayload :=
  safe_uint.bind fun _ => safe_uint.bind fun _ => safe_uint.bind fun _ => safe_uint.bind fun _ =>
    ((safe_array safe_peer4).readIf _).bind fun _ => (safe_peer4.readIf _).bind fun _ =>
    (safe_fixed32.readIf _).bind fun _ => (safe_fixed32.readIf _).bind fun _ => .pure _

theorem DecodeFn.safe (f : DecodeFn) (h : f ≠ .lookupRawReply) : Safe f.run := by
  cases f with
  | hyperPeer => exact safe_hyperPeer
  | announce =>
    exact safe_uint.bind fun _ => (safe_hyperPeer.readIf _).bind fun _ => (safe_fixed32.readIf _).bind fun _ =>
      (safe_fixed64.readIf _).bind fun _ => (safe_uint.readOr _ _).bind fun _ => .pure _
  | lookupRawReply => exact absurd rfl h
  | mutablePutRequest =>
    exact safe_fixed32.bind fun _ => safe_uint.bind fun _ => safe_vec.bind fun _ => safe_fixed64.bind fun _ => .pure _
  | mutableGetResponse => exact safe_uint.bind fun _ => safe_vec.bind fun _ => safe_fixed64.bind fun _ => .pure _
  | mutableSignable => exact safe_uint.bind fun _ => safe_vec.bind fun _ => .pure _
  | ipv4PeerArray => exact safe_array safe_peer4
  | ipv6PeerArray => exact safe_array safe_peer6
  | handshake =>
    exact safe_uint.bind fun _ => safe_uint.bind fun _ => safe_vec.bind fun _ => (safe_peer4.readIf _).bind fun _ =>
      (safe_peer4.readIf _).bind fun _ => .pure _
  | holepunchMsg =>
    exact safe_uint.bind fun _ => safe_uint.bind fun _ => safe_uint.bind fun _ => safe_vec.bind fun _ =>
      (safe_peer4.readIf _).bind fun _ => .pure _
  | relayInfo => exact safe_relayInfo
  | relayInfoArray => exact safe_array safe_relayInfo
  | holepunchInfo => exact safe_holepunchInfo
  | udxInfo => exact safe_udxInfo
  | secretStreamInfo => exact safe_secretStreamInfo
  | relayThroughInfo => exact safe_relayThroughInfo
  | noisePayload => exact safe_noisePayload
  | holepunchPayload => exact safe_holepunchPayload

/-! ## Requests and responses -/

theorem safe_ipv4Peer : Safe decodeIpv4Peer := by
  have h : Safe decodeIpv4 := .take _ fun _ => .pure _
  exact h.bind fun _ => safe_uint16.bind fun _ => .pure _

theorem safe_decodeTail (typeVersion flags : UInt8) (tid : UInt16) (toPeer : Ipv4Peer) (id token : Option Bytes32) :
    Safe (decodeTail typeVersion flags tid toPeer id token) := by
  unfold decodeTail
  split
  · have h : Safe (decodeResponseTail flags tid toPeer id token) :=
      ((safe_array safe_ipv4Peer).readOr _ _).bind fun _ => (safe_uint.readOr _ _).bind fun _ =>
        (safe_buffer.readOr _ _).bind fun _ => .pure _
    exact h.bind fun _ => .pure _
  · have h : Safe (decodeRequestTail flags tid toPeer id token) :=
      safe_uint.bind fun _ => (safe_fixed32.readIf _).bind fun _ => (safe_buffer.readOr _ _).bind fun _ => .pure _
    exact h.bind fun _ => .pure _

theorem safe_body (typeVersion : UInt8) : Safe (decodeBody typeVersion) :=
  safe_uint8.bind fun _ => safe_uint16.bind fun _ => safe_ipv4Peer.bind fun _ => (safe_fixed32.readIf _).bind fun _ =>
    (safe_fixed32.readIf _).bind fun _ => safe_decodeTail _ _ _ _ _ _

theorem decodeMessage_safe (buf : Bytes) {grant : Nat} (h : leastGrant ≤ grant) :
    decodeMessage buf grant ≠ .error .panic := by
  unfold decodeMessage
  split
  · exact nofun
  · split
    · exact nofun
    next typeVersion rest _ =>
      have hsound : ({ Cursor.ofBuffer (typeVersion :: rest) grant with start := 1 } : Cursor).Sound :=
        ⟨by simp [Cursor.ofBuffer], rfl, h⟩
      exact map_ne_panic (safe_body typeVersion _ hsound).1 _

/-! ## Lookup replies -/

/-- The count in front of a lookup reply, if an integer is there. -/
def countPrefix (buf : Bytes) : Option UInt64 :=
  match parse decodeUint buf with
  | .ok count => some count
  | .error _ => none

def lookupRest (count : UInt64) : Decoder LookupRawReply := do
  let peers ← readMany decodeHyperPeer count.toNat
  let more ← hasLeft
  let bump ← readOr more decodeUint 0
  pure ⟨peers, bump⟩

theorem safe_lookupRest (count : UInt64) : Safe (lookupRest count) :=
  (safe_hyperPeer.readMany _).bind fun _ => Safe.hasLeft.bind fun _ => (safe_uint.readOr _ _).bind fun _ => .pure _

theorem blind_uint : Blind decodeUint := by
  have h8 : Blind decodeUint8 := (Blind.check _ _).bind fun _ => (Blind.slice _).bind fun _ => .pure _
  have h16 : Blind decodeUint16 := (Blind.check _ _).bind fun _ => (Blind.slice _).bind fun _ => .pure _
  have h32 : Blind decodeUint32 := (Blind.check _ _).bind fun _ => (Blind.slice _).bind fun _ => .pure _
  refine h8.bind fun a => ?_
  unfold decodeUintTail
  split
  · exact .pure _
  · split
    · exact h16.bind fun _ => .pure _
    · split
      · exact h32.bind fun _ => .pure _
      · exact (Blind.check _ _).bind fun _ => h32.bind fun _ => h32.bind fun _ => .pure _

theorem lookupRawReply_eq : decodeLookupRawReply = (do
    let count ← decodeUint
    withCapacity count.toNat
    lookupRest count) := rfl

theorem lookupRawReply_panics_iff (buf : Bytes) {grant : Nat} (hgrant : leastGrant ≤ grant) :
    parse decodeLookupRawReply buf grant = .error .panic ↔ ∃ count ∈ countPrefix buf, grant < count.toNat := by
  have hsound := Cursor.sound_ofBuffer buf hgrant
  have hparse : parse decodeUint buf = parse decodeUint buf grant := (blind_uint.parse buf grant).symm
  rw [lookupRawReply_eq]
  unfold countPrefix
  rw [hparse]
  unfold parse
  cases hr : decodeUint (.ofBuffer buf grant) with
  | error e =>
    rw [bind_error hr]
    have hne : e ≠ .panic := fun he => (safe_uint _ hsound).1 (he ▸ hr)
    simpa [Except.map] using hne
  | ok r =>
    obtain ⟨count, c⟩ := r
    have hc := (safe_uint _ hsound).2 count c hr
    have hcg : c.grant = grant := by
      have h := blind_uint (.ofBuffer buf grant) grant
      have hsame : ({ Cursor.ofBuffer buf grant with grant := grant } : Cursor) = .ofBuffer buf grant := rfl
      rw [hsame, hr] at h
      have hcur := congrArg (fun r => r.map fun p => p.2.grant) h
      simpa [Except.map] using hcur
    rw [bind_ok hr]
    simp only [Except.map, Option.mem_some_iff, exists_eq_left']
    by_cases hcap : count.toNat ≤ grant
    · have hgrants : withCapacity (ε := EncodingError) count.toNat c = .ok ((), c) := if_pos (hcg.symm ▸ hcap)
      rw [bind_ok hgrants]
      have hsafe := map_ne_panic (safe_lookupRest count c hc).1 Prod.fst
      exact ⟨fun h => absurd h hsafe, fun h => absurd h (by omega)⟩
    · have hrefuses : withCapacity (ε := EncodingError) count.toNat c = .error .panic := if_neg (hcg.symm ▸ hcap)
      rw [bind_error hrefuses]
      exact ⟨fun _ => by omega, fun _ => rfl⟩

/-- **Safety of the decoders.** On a byte string, no decoder reads outside its buffer or asks for more than `1048576`
elements, just when the count in front of it, read as a lookup reply, is at most that. -/
theorem decoders_safe_iff (buf : Bytes) :
    (∀ grant, 1048576 ≤ grant → decodeMessage buf grant ≠ .error .panic ∧
      ∀ f : DecodeFn, parse f.run buf grant ≠ .error .panic) ↔
    ∀ count ∈ countPrefix buf, count ≤ 1048576 := by
  have hleast : leastGrant = 1048576 := rfl
  constructor
  · intro h count hcount
    have hlookup := (h 1048576 (le_refl _)).2 .lookupRawReply
    by_contra hlarge
    have hlt : ¬ count.toNat ≤ 1048576 := hlarge
    exact hlookup ((lookupRawReply_panics_iff buf (le_of_eq hleast)).mpr ⟨count, hcount, by omega⟩)
  · intro h grant hgrant
    refine ⟨decodeMessage_safe buf hgrant, fun f => ?_⟩
    by_cases hf : f = .lookupRawReply
    · subst hf
      intro hpanic
      obtain ⟨count, hcount, hlt⟩ := (lookupRawReply_panics_iff buf hgrant).mp hpanic
      have hle : count.toNat ≤ 1048576 := h count hcount
      omega
    · exact (f.safe hf).parse buf hgrant

/-- A lookup reply of nine bytes that asks for more than any allocator grants. -/
theorem lookupRawReply_overflow :
    parse decodeLookupRawReply [0xff, 0xff, 0xff, 0xff, 0xff, 0xff, 0xff, 0xff, 0xff] maxGrant = .error .panic := by
  rfl

end Peeroxide.Dht
