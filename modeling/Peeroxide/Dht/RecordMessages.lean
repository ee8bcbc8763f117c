import Peeroxide.Dht.HyperdhtMessages

/-!
# Records on the wire

Both passes of the messages that nodes store and pass on, with the bytes they stand for: the decoders of
`Peeroxide.Dht.HyperdhtMessages` read them back.
-/

namespace Peeroxide.Dht
open Lib Cursor

/-! ## Parts -/

def encodeFixed64 (buf : Bytes64) : Encoder := write buf.1

theorem reads_fixed64 (buf : Bytes64) : Reads decodeFixed64 buf.1 buf :=
  Reads.check (reads_slice buf.2) EncodingError.outOfBounds (le_of_eq buf.2.symm)

theorem reads_vec (v : ByteVec) : Reads decodeVec (bufferBytes (some v)) v := by
  have h := (reads_buffer (some v)).map fun buf => buf.getD ⟨[], by decide⟩
  have hv : (nonEmpty (some v)).getD ⟨[], by decide⟩ = v := by
    by_cases he : v.1 = []
    · exact Subtype.ext (by simp [nonEmpty, Option.filter_some, he])
    · simp [nonEmpty, Option.filter_some, he]
  rwa [hv] at h

theorem reserve_peer (c : State) {peer : Option Ipv4Peer} (h : ∀ p ∈ peer, Ipv4Host p.host) :
    (if peer.isSome then c.reserve 6 else c) = c.reserve (peer.elim [] peerBytes).length :=
  reserve_isSome c fun p hp => length_peerBytes (h p hp)

/-- The first pass reserves exactly the bytes that the second one writes. -/
structure Transcribes (preencode : State → State) (encode : Encoder) (bs : Bytes) : Prop where
  reserved : preencode .empty = Cursor.empty.reserve bs.length
  written : Writes encode bs

theorem Transcribes.emit {pre : State → State} {encode : Encoder} {bs : Bytes} (h : Transcribes pre encode bs) :
    emit pre encode = .ok bs := h.written.emit h.reserved

/-! ## Peers -/

def preencodeHyperPeer (c : State) (peer : HyperPeer) : State := preencodeIpv4PeerArray (c.reserve 32) peer.relayAddresses

def encodeHyperPeer (peer : HyperPeer) : Encoder := do
  encodeFixed32 peer.publicKey
  encodeIpv4PeerArray peer.relayAddresses

def encodeHyperPeerToBytes (peer : HyperPeer) : Except (Fault EncodingError) Bytes :=
  emit (preencodeHyperPeer · peer) (encodeHyperPeer peer)

def decodeHyperPeerFromBytes (buf : Bytes) : Except (Fault EncodingError) HyperPeer := parse decodeHyperPeer buf

def HyperPeer.Canonical (peer : HyperPeer) : Prop := ∀ p ∈ peer.relayAddresses, Ipv4Host p.host

/-- There are no more addresses than the decoder takes. -/
def HyperPeer.WithinLimits (peer : HyperPeer) : Prop := peer.relayAddresses.length ≤ MAX_ARRAY_LENGTH

def hyperPeerBytes (peer : HyperPeer) : Bytes := peer.publicKey.1 ++ arrayBytes peerBytes peer.relayAddresses

section
variable {peer : HyperPeer} (h : peer.Canonical)
include h

theorem preencodeHyperPeer_eq (c : State) : preencodeHyperPeer c peer = c.reserve (hyperPeerBytes peer).length := by
  rw [preencodeHyperPeer, preencodeIpv4PeerArray_eq _ h, reserve_reserve, hyperPeerBytes,
    List.length_append, peer.publicKey.2]

theorem writes_hyperPeer : Writes (encodeHyperPeer peer) (hyperPeerBytes peer) :=
  (writes_fixed32 _).append (writes_array fun p hp => writes_peer4 (h p hp))

theorem transcribes_hyperPeer : Transcribes (preencodeHyperPeer · peer) (encodeHyperPeer peer) (hyperPeerBytes peer) :=
  ⟨preencodeHyperPeer_eq h .empty, writes_hyperPeer h⟩

theorem reads_hyperPeer (hl : peer.WithinLimits) : Reads decodeHyperPeer (hyperPeerBytes peer) peer :=
  (reads_fixed32 _).bind ((reads_array hl fun p hp => reads_peer4 (h p hp)).map (HyperPeer.mk peer.publicKey))

end

/-! ## Announcements -/

def announceFlags (peer refresh signature bump : Bool) : UInt64 :=
  flagIf peer FLAG_PEER ||| flagIf refresh FLAG_REFRESH ||| flagIf signature FLAG_SIGNATURE ||| flagIf bump FLAG_BUMP

def AnnounceMessage.flags (m : AnnounceMessage) : UInt64 :=
  announceFlags m.peer.isSome m.refresh.isSome m.signature.isSome (m.bump != 0)

def preencodeAnnounce (c : State) (m : AnnounceMessage) : State :=
  let c := (c.reserve 1).reserveOpt m.peer preencodeHyperPeer
  let c := if m.refresh.isSome then c.reserve 32 else c
  let c := if m.signature.isSome then c.reserve 64 else c
  if m.bump != 0 then preencodeUint c m.bump else c

def encodeAnnounce (m : AnnounceMessage) : Encoder := do
  encodeUint m.flags
  writeOpt m.peer encodeHyperPeer
  writeOpt m.refresh encodeFixed32
  writeOpt m.signature encodeFixed64
  writeIf (m.bump != 0) (encodeUint m.bump)

def decodeAnnounceFromBytes (buf : Bytes) : Except (Fault EncodingError) AnnounceMessage := parse decodeAnnounce buf

def announceBytes (m : AnnounceMessage) : Bytes :=
  uintBytes m.flags ++ (m.peer.elim [] hyperPeerBytes ++ (m.refresh.elim [] Subtype.val ++
    (m.signature.elim [] Subtype.val ++ if m.bump != 0 then uintBytes m.bump else [])))

theorem announceFlags_tests : ∀ a b c d : Bool, announceFlags a b c d ≤ 0xfc ∧
    (announceFlags a b c d &&& FLAG_PEER != 0) = a ∧ (announceFlags a b c d &&& FLAG_REFRESH != 0) = b ∧
    (announceFlags a b c d &&& FLAG_SIGNATURE != 0) = c ∧ (announceFlags a b c d &&& FLAG_BUMP != 0) = d := by
  decide

section
variable {m : AnnounceMessage} (h : ∀ peer ∈ m.peer, peer.Canonical)
include h

theorem decodeAnnounce_bytes (hl : ∀ peer ∈ m.peer, peer.WithinLimits) :
    decodeAnnounceFromBytes (announceBytes m) = .ok m := by
  obtain ⟨-, hpeer, hrefresh, hsignature, hbump⟩ :=
    announceFlags_tests m.peer.isSome m.refresh.isSome m.signature.isSome (m.bump != 0)
  have hlast : Reads (readOr (m.flags &&& FLAG_BUMP != 0) decodeUint 0)
      (if m.bump != 0 then uintBytes m.bump else []) m.bump :=
    .readOr hbump (fun _ => reads_uint m.bump) fun hz => (bne_eq_false_iff_eq.mp hz).symm
  refine Reads.parse ?_
  exact (reads_uint m.flags).bind ((Reads.readIf hpeer fun p hp => reads_hyperPeer (h p hp) (hl p hp)).bind
    ((Reads.readIf hrefresh fun b _ => reads_fixed32 b).bind
      ((Reads.readIf hsignature fun b _ => reads_fixed64 b).bind
        (hlast.map (AnnounceMessage.mk m.peer m.refresh m.signature)))))

theorem transcribes_announce : Transcribes (preencodeAnnounce · m) (encodeAnnounce m) (announceBytes m) := by
  have hflags : (uintBytes m.flags).length = 1 :=
    length_uintBytes_of_le (announceFlags_tests m.peer.isSome m.refresh.isSome m.signature.isSome (m.bump != 0)).1
  have hwrites : Writes (encodeAnnounce m) (announceBytes m) :=
    (writes_uint m.flags).append ((Writes.writeOpt fun p hp => writes_hyperPeer (h p hp)).append
      ((Writes.writeOpt fun b _ => writes_fixed32 b).append
        ((Writes.writeOpt fun b _ => writes_write b.1).append (.writeIf fun _ => writes_uint m.bump))))
  refine ⟨?_, hwrites⟩
  unfold preencodeAnnounce announceBytes
  dsimp only
  rw [reserveOpt_eq fun p hp => preencodeHyperPeer_eq (h p hp) _, reserve_optional, reserve_optional,
    reserve_cond fun _ => preencodeUint_eq _ m.bump]
  simp only [reserve_reserve, List.length_append, hflags, Nat.add_assoc]

end

/-! ## Lookups -/

def preencodeLookupRawReply (c : State) (m : LookupRawReply) : State :=
  preencodeUint (m.peers.foldl preencodeHyperPeer (preencodeUint c (UInt64.ofNat m.peers.length))) m.bump

def encodeLookupRawReply (m : LookupRawReply) : Encoder := do
  encodeUint (UInt64.ofNat m.peers.length)
  m.peers.forM encodeHyperPeer
  encodeUint m.bump

def encodeLookupRawReplyToBytes (m : LookupRawReply) : Except (Fault EncodingError) Bytes :=
  emit (preencodeLookupRawReply · m) (encodeLookupRawReply m)

def lookupRawReplyBytes (m : LookupRawReply) : Bytes := arrayBytes hyperPeerBytes m.peers ++ uintBytes m.bump

/-- There is more behind the peers: the bump takes a byte at the least. -/
theorem reads_bump (peers : List HyperPeer) (bump : UInt64) :
    Reads (do let more ← hasLeft; let bump ← readOr more decodeUint 0; pure (LookupRawReply.mk peers bump))
      (uintBytes bump) ⟨peers, bump⟩ := by
  intro c rest hc
  have hmore : c.start < c.stop := by
    have hlen := hc.length
    rw [List.length_append] at hlen
    have := (length_uintBytes bump).1
    have := hc.stop
    omega
  have hhas : hasLeft (ε := EncodingError) c = .ok (true, c) := by simp [hasLeft, hmore]
  rw [bind_ok hhas]
  exact (reads_uint bump).map (LookupRawReply.mk peers) c rest hc

section
variable {m : LookupRawReply} (h : ∀ peer ∈ m.peers, peer.Canonical)
include h

theorem transcribes_lookupRawReply :
    Transcribes (preencodeLookupRawReply · m) (encodeLookupRawReply m) (lookupRawReplyBytes m) := by
  refine ⟨?_, ?_⟩
  · rw [preencodeLookupRawReply, foldl_reserve fun p hp => preencodeHyperPeer_eq (h p hp), preencodeUint_eq,
      preencodeUint_eq, lookupRawReplyBytes, arrayBytes]
    simp only [reserve_reserve, List.length_append]
  · have hwrites := (writes_uint (UInt64.ofNat m.peers.length)).append
      ((Writes.forM fun p hp => writes_hyperPeer (h p hp)).append (writes_uint m.bump))
    rwa [← List.append_assoc] at hwrites

/-- The list of peers is one that fits into memory. -/
theorem decodeLookupRawReply_bytes (hl : ∀ peer ∈ m.peers, peer.WithinLimits) (hlen : m.peers.length ≤ maxGrant) :
    parse decodeLookupRawReply (lookupRawReplyBytes m) = .ok m := by
  have hn : (UInt64.ofNat m.peers.length).toNat = m.peers.length :=
    UInt64.toNat_ofNat_of_lt' (lt_of_le_of_lt hlen maxGrant_lt)
  have hfaces := Cursor.faces_ofBuffer (lookupRawReplyBytes m)
  rw [lookupRawReplyBytes, arrayBytes, List.append_assoc] at hfaces ⊢
  unfold Lib.parse decodeLookupRawReply
  rw [bind_ok (reads_uint _ _ _ hfaces), hn, bind_ok (if_pos hlen),
    (Reads.readMany fun p hp => reads_hyperPeer (h p hp) (hl p hp)).bind (reads_bump m.peers m.bump) _ [] (by
      rw [List.append_nil]
      exact hfaces.skip)]
  rfl

end

/-! ## Mutable values -/

def preencodeMutablePutRequest (c : State) (m : MutablePutRequest) : State :=
  (preencodeBuffer (preencodeUint (c.reserve 32) m.seq) (some m.value)).reserve 64

def encodeMutablePutRequest (m : MutablePutRequest) : Encoder := do
  encodeFixed32 m.publicKey
  encodeUint m.seq
  encodeBuffer (some m.value)
  encodeFixed64 m.signature

def decodeMutablePutRequestFromBytes (buf : Bytes) : Except (Fault EncodingError) MutablePutRequest :=
  parse decodeMutablePutRequest buf

def mutablePutBytes (m : MutablePutRequest) : Bytes :=
  m.publicKey.1 ++ (uintBytes m.seq ++ (bufferBytes (some m.value) ++ m.signature.1))

theorem transcribes_mutablePut (m : MutablePutRequest) :
    Transcribes (preencodeMutablePutRequest · m) (encodeMutablePutRequest m) (mutablePutBytes m) := by
  have hwrites : Writes (encodeMutablePutRequest m) (mutablePutBytes m) :=
    (writes_fixed32 _).append ((writes_uint _).append ((writes_buffer _).append (writes_write _)))
  refine ⟨?_, hwrites⟩
  rw [preencodeMutablePutRequest, preencodeUint_eq, preencodeBuffer_eq, mutablePutBytes]
  simp only [reserve_reserve, List.length_append, m.publicKey.2, m.signature.2, Nat.add_assoc]

theorem decodeMutablePut_bytes (m : MutablePutRequest) :
    decodeMutablePutRequestFromBytes (mutablePutBytes m) = .ok m :=
  Reads.parse ((reads_fixed32 _).bind ((reads_uint _).bind ((reads_vec _).bind
    ((reads_fixed64 _).map (MutablePutRequest.mk m.publicKey m.seq m.value)))))

def preencodeMutableGetResponse (c : State) (m : MutableGetResponse) : State :=
  (preencodeBuffer (preencodeUint c m.seq) (some m.value)).reserve 64

def encodeMutableGetResponse (m : MutableGetResponse) : Encoder := do
  encodeUint m.seq
  encodeBuffer (some m.value)
  encodeFixed64 m.signature

def encodeMutableGetResponseToBytes (m : MutableGetResponse) : Except (Fault EncodingError) Bytes :=
  emit (preencodeMutableGetResponse · m) (encodeMutableGetResponse m)

def decodeMutableGetResponseFromBytes (buf : Bytes) : Except (Fault EncodingError) MutableGetResponse :=
  parse decodeMutableGetResponse buf

def mutableGetBytes (m : MutableGetResponse) : Bytes :=
  uintBytes m.seq ++ (bufferBytes (some m.value) ++ m.signature.1)

theorem transcribes_mutableGet (m : MutableGetResponse) :
    Transcribes (preencodeMutableGetResponse · m) (encodeMutableGetResponse m) (mutableGetBytes m) := by
  have hwrites : Writes (encodeMutableGetResponse m) (mutableGetBytes m) :=
    (writes_uint _).append ((writes_buffer _).append (writes_write _))
  refine ⟨?_, hwrites⟩
  rw [preencodeMutableGetResponse, preencodeUint_eq, preencodeBuffer_eq, mutableGetBytes]
  simp only [reserve_reserve, List.length_append, m.signature.2, Nat.add_assoc]

theorem encodeMutableGet_ok (m : MutableGetResponse) : encodeMutableGetResponseToBytes m = .ok (mutableGetBytes m) :=
  (transcribes_mutableGet m).emit

theorem decodeMutableGet_bytes (m : MutableGetResponse) :
    decodeMutableGetResponseFromBytes (mutableGetBytes m) = .ok m :=
  Reads.parse ((reads_uint _).bind ((reads_vec _).bind ((reads_fixed64 _).map (MutableGetResponse.mk m.seq m.value))))

/-! ## Handshakes and hole punches -/

def preencodeHandshake (c : State) (m : HandshakeMessage) : State :=
  let c := preencodeBuffer (preencodeUint (preencodeUint c 0) m.mode) (some m.noise)
  let c := if m.peerAddress.isSome then c.reserve 6 else c
  if m.relayAddress.isSome then c.reserve 6 else c

def handshakeFlags (peerAddress relayAddress : Bool) : UInt64 := flagIf peerAddress 1 ||| flagIf relayAddress 2

def encodeHandshake (m : HandshakeMessage) : Encoder := do
  encodeUint (handshakeFlags m.peerAddress.isSome m.relayAddress.isSome)
  encodeUint m.mode
  encodeBuffer (some m.noise)
  writeOpt m.peerAddress encodePeer4
  writeOpt m.relayAddress encodePeer4

def encodeHandshakeToBytes (m : HandshakeMessage) : Except (Fault EncodingError) Bytes :=
  emit (preencodeHandshake · m) (encodeHandshake m)

def decodeHandshakeFromBytes (buf : Bytes) : Except (Fault EncodingError) HandshakeMessage := parse decodeHandshake buf

/-- The addresses are canonical. -/
structure HandshakeMessage.Canonical (m : HandshakeMessage) : Prop where
  peerAddress : ∀ p ∈ m.peerAddress, Ipv4Host p.host
  relayAddress : ∀ p ∈ m.relayAddress, Ipv4Host p.host

theorem HandshakeMessage.Canonical.ofPeer {a : Ipv4Peer} (h : Ipv4Host a.host) (mode : UInt64) (noise : ByteVec) :
    HandshakeMessage.Canonical ⟨mode, noise, some a, none⟩ :=
  ⟨fun _ ha => Option.some.inj ha ▸ h, nofun⟩

def handshakeBytes (m : HandshakeMessage) : Bytes :=
  uintBytes (handshakeFlags m.peerAddress.isSome m.relayAddress.isSome) ++ (uintBytes m.mode ++
    (bufferBytes (some m.noise) ++ (m.peerAddress.elim [] peerBytes ++ m.relayAddress.elim [] peerBytes)))

theorem handshakeFlags_tests : ∀ a b : Bool, handshakeFlags a b ≤ 0xfc ∧
    (handshakeFlags a b &&& 1 != 0) = a ∧ (handshakeFlags a b &&& 2 != 0) = b := by
  decide

section
variable {m : HandshakeMessage} (h : m.Canonical)
include h

theorem transcribes_handshake : Transcribes (preencodeHandshake · m) (encodeHandshake m) (handshakeBytes m) := by
  have hflags : (uintBytes (handshakeFlags m.peerAddress.isSome m.relayAddress.isSome)).length = 1 :=
    length_uintBytes_of_le (handshakeFlags_tests ..).1
  have hzero : (uintBytes 0).length = 1 := rfl
  have hwrites : Writes (encodeHandshake m) (handshakeBytes m) :=
    (writes_uint _).append ((writes_uint _).append ((writes_buffer _).append
      ((Writes.writeOpt fun p hp => writes_peer4 (h.peerAddress p hp)).append
        (.writeOpt fun p hp => writes_peer4 (h.relayAddress p hp)))))
  refine ⟨?_, hwrites⟩
  unfold preencodeHandshake handshakeBytes
  dsimp only
  rw [preencodeUint_eq, preencodeUint_eq, preencodeBuffer_eq, reserve_peer _ h.peerAddress,
    reserve_peer _ h.relayAddress]
  simp only [reserve_reserve, List.length_append, hflags, hzero, Nat.add_assoc]

theorem encodeHandshake_ok : encodeHandshakeToBytes m = .ok (handshakeBytes m) := (transcribes_handshake h).emit

theorem decodeHandshake_bytes : decodeHandshakeFromBytes (handshakeBytes m) = .ok m := by
  obtain ⟨-, hpeer, hrelay⟩ := handshakeFlags_tests m.peerAddress.isSome m.relayAddress.isSome
  exact Reads.parse ((reads_uint _).bind ((reads_uint _).bind ((reads_vec _).bind
    ((Reads.readIf hpeer fun p hp => reads_peer4 (h.peerAddress p hp)).bind
      ((Reads.readIf hrelay fun p hp => reads_peer4 (h.relayAddress p hp)).map
        (HandshakeMessage.mk m.mode m.noise m.peerAddress))))))

end

def preencodeHolepunchMsg (c : State) (m : HolepunchMessage) : State :=
  let c := preencodeBuffer (preencodeUint (preencodeUint (preencodeUint c 0) m.mode) m.id) (some m.payload)
  if m.peerAddress.isSome then c.reserve 6 else c

def encodeHolepunchMsg (m : HolepunchMessage) : Encoder := do
  encodeUint (flagIf m.peerAddress.isSome 1)
  encodeUint m.mode
  encodeUint m.id
  encodeBuffer (some m.payload)
  writeOpt m.peerAddress encodePeer4

def encodeHolepunchMsgToBytes (m : HolepunchMessage) : Except (Fault EncodingError) Bytes :=
  emit (preencodeHolepunchMsg · m) (encodeHolepunchMsg m)

def decodeHolepunchMsgFromBytes (buf : Bytes) : Except (Fault EncodingError) HolepunchMessage :=
  parse decodeHolepunchMsg buf

def holepunchBytes (m : HolepunchMessage) : Bytes :=
  uintBytes (flagIf m.peerAddress.isSome 1) ++ (uintBytes m.mode ++ (uintBytes m.id ++
    (bufferBytes (some m.payload) ++ m.peerAddress.elim [] peerBytes)))

theorem flagIf_one_tests : ∀ a : Bool, flagIf a 1 ≤ 0xfc ∧ (flagIf a 1 &&& 1 != 0) = a := by
  decide

section
variable {m : HolepunchMessage} (h : ∀ p ∈ m.peerAddress, Ipv4Host p.host)
include h

theorem transcribes_holepunch : Transcribes (preencodeHolepunchMsg · m) (encodeHolepunchMsg m) (holepunchBytes m) := by
  have hflags : (uintBytes (flagIf m.peerAddress.isSome 1)).length = 1 :=
    length_uintBytes_of_le (flagIf_one_tests ..).1
  have hzero : (uintBytes 0).length = 1 := rfl
  have hwrites : Writes (encodeHolepunchMsg m) (holepunchBytes m) :=
    (writes_uint _).append ((writes_uint _).append ((writes_uint _).append ((writes_buffer _).append
      (.writeOpt fun p hp => writes_peer4 (h p hp)))))
  refine ⟨?_, hwrites⟩
  unfold preencodeHolepunchMsg holepunchBytes
  rw [preencodeUint_eq, preencodeUint_eq, preencodeUint_eq, preencodeBuffer_eq, reserve_peer _ h]
  simp only [reserve_reserve, List.length_append, hflags, hzero, Nat.add_assoc]

theorem encodeHolepunch_ok : encodeHolepunchMsgToBytes m = .ok (holepunchBytes m) := (transcribes_holepunch h).emit

theorem decodeHolepunch_bytes : decodeHolepunchMsgFromBytes (holepunchBytes m) = .ok m :=
  Reads.parse ((reads_uint _).bind ((reads_uint _).bind ((reads_uint _).bind ((reads_vec _).bind
    ((Reads.readIf (flagIf_one_tests _).2 fun p hp => reads_peer4 (h p hp)).map
      (HolepunchMessage.mk m.mode m.id m.payload))))))

end

/-! ## Round trips -/

/-- As many bytes are reserved as are written, and within the limits of the decoder they decode to the value again. -/
def RoundTrips {α : Type} (preencode : State → State) (encode : Encoder) (limits : Prop) (decode : Decoder α) (x : α) :
    Prop :=
  ∃ bs, Transcribes preencode encode bs ∧ (limits → parse decode bs = .ok x)

/-- **Every record with canonical addresses is written in the room that is reserved for it, and comes back from its bytes
when no peer has more relay addresses than the decoder takes.** A list of peers is one that fits into memory. -/
theorem records_round_trip :
    (∀ m : AnnounceMessage, (∀ peer ∈ m.peer, peer.Canonical) →
      RoundTrips (preencodeAnnounce · m) (encodeAnnounce m) (∀ peer ∈ m.peer, peer.WithinLimits) decodeAnnounce m) ∧
    (∀ peer : HyperPeer, peer.Canonical →
      RoundTrips (preencodeHyperPeer · peer) (encodeHyperPeer peer) peer.WithinLimits decodeHyperPeer peer) ∧
    (∀ m : LookupRawReply, (∀ peer ∈ m.peers, peer.Canonical) →
      RoundTrips (preencodeLookupRawReply · m) (encodeLookupRawReply m)
        ((∀ peer ∈ m.peers, peer.WithinLimits) ∧ m.peers.length ≤ maxGrant) decodeLookupRawReply m) ∧
    (∀ m, RoundTrips (preencodeMutablePutRequest · m) (encodeMutablePutRequest m) True decodeMutablePutRequest m) ∧
    (∀ m, RoundTrips (preencodeMutableGetResponse · m) (encodeMutableGetResponse m) True decodeMutableGetResponse m) ∧
    (∀ m : HandshakeMessage, m.Canonical →
      RoundTrips (preencodeHandshake · m) (encodeHandshake m) True decodeHandshake m) ∧
    ∀ m : HolepunchMessage, (∀ p ∈ m.peerAddress, Ipv4Host p.host) →
      RoundTrips (preencodeHolepunchMsg · m) (encodeHolepunchMsg m) True decodeHolepunchMsg m := by
  refine ⟨fun m h => ?_, fun peer h => ?_, fun m h => ?_, fun m => ?_, fun m => ?_, fun m h => ?_, fun m h => ?_⟩
  · exact ⟨_, transcribes_announce h, decodeAnnounce_bytes h⟩
  · exact ⟨_, transcribes_hyperPeer h, fun hl => (reads_hyperPeer h hl).parse⟩
  · exact ⟨_, transcribes_lookupRawReply h, fun hl => decodeLookupRawReply_bytes h hl.1 hl.2⟩
  · exact ⟨_, transcribes_mutablePut m, fun _ => decodeMutablePut_bytes m⟩
  · exact ⟨_, transcribes_mutableGet m, fun _ => decodeMutableGet_bytes m⟩
  · exact ⟨_, transcribes_handshake h, fun _ => decodeHandshake_bytes h⟩
  · exact ⟨_, transcribes_holepunch h, fun _ => decodeHolepunch_bytes h⟩

/-- An announcement with an IPv4 relay, a token and no signature. -/
theorem records_round_trip_announce :
    let m : AnnounceMessage := ⟨some ⟨.fill 1, [⟨"10.0.0.1", 49737⟩]⟩, some (.fill 2), none, 7⟩
    ∃ bs, Transcribes (preencodeAnnounce · m) (encodeAnnounce m) bs ∧ parse decodeAnnounce bs = .ok m := by
  intro m
  obtain ⟨bs, hwritten, hread⟩ := records_round_trip.1 m fun peer hpeer p hp => by
    cases hpeer
    cases List.mem_singleton.mp hp
    exact ⟨[10, 0, 0, 1], rfl, by decide⟩
  refine ⟨bs, hwritten, hread fun peer hpeer => ?_⟩
  cases hpeer
  show 1 ≤ MAX_ARRAY_LENGTH
  decide

theorem decodeArray_tooLarge {α : Type} {decode : Decoder α} {c : State} {n : UInt64} {rest : Bytes}
    (hc : c.Faces (uintBytes n ++ rest)) (hn : MAX_ARRAY_LENGTH < n.toNat) :
    decodeArray decode c = .error (.error (.arrayTooLarge n.toNat)) := by
  unfold decodeArray
  rw [bind_ok (reads_uint n c rest hc), if_pos hn]
  rfl

/-- One relay address more than the decoder takes: the peer is written, and its bytes are refused. -/
theorem peer_refused :
    let peer : HyperPeer := ⟨.fill 0, List.replicate (MAX_ARRAY_LENGTH + 1) ⟨"10.0.0.1", 49737⟩⟩
    (∀ p ∈ peer.relayAddresses, Ipv4Host p.host) ∧
      Transcribes (preencodeHyperPeer · peer) (encodeHyperPeer peer) (hyperPeerBytes peer) ∧
      parse decodeHyperPeer (hyperPeerBytes peer) = .error (.error (.arrayTooLarge 0x100001)) := by
  intro peer
  have hhosts : ∀ p ∈ peer.relayAddresses, Ipv4Host p.host := by
    intro p hp
    cases List.eq_of_mem_replicate hp
    exact ⟨[10, 0, 0, 1], rfl, by decide⟩
  have hcount : UInt64.ofNat peer.relayAddresses.length = 0x100001 := by
    rw [List.length_replicate]
    rfl
  refine ⟨hhosts, transcribes_hyperPeer hhosts, ?_⟩
  have hfaces := Cursor.faces_ofBuffer (hyperPeerBytes peer)
  rw [hyperPeerBytes, arrayBytes] at hfaces ⊢
  have hlarge : MAX_ARRAY_LENGTH < (UInt64.ofNat peer.relayAddresses.length).toNat := by
    rw [hcount]
    decide
  unfold Lib.parse decodeHyperPeer decodeIpv4PeerArray
  rw [bind_ok (reads_fixed32 _ _ _ hfaces), bind_error (decodeArray_tooLarge hfaces.skip hlarge), hcount]
  rfl

end Peeroxide.Dht
