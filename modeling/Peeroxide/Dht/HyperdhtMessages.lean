import Peeroxide.Dht.Messages

/-!
# HyperDHT messages

The messages carried inside requests and responses, and the payloads of the Noise handshake and of the hole-punch
rounds.

Main result: `payload_round_trip`.
-/

namespace Peeroxide.Dht
open Lib Cursor List
variable {peer : Ipv4Peer} {peers : List Ipv4Peer}

/-! ## Peers and their arrays -/

def encodePeer4 (peer : Ipv4Peer) : Encoder := encodeIpv4Address peer.host peer.port

def decodePeer4 : Decoder Ipv4Peer := do
  let addr ← decodeIpv4Address
  pure ⟨addr.1, addr.2⟩

def encodePeer6 (peer : Ipv4Peer) : Encoder := encodeIpv6Address peer.host peer.port

def decodePeer6 : Decoder Ipv4Peer := do
  let addr ← decodeIpv6Address
  pure ⟨addr.1, addr.2⟩

def preencodeIpv4PeerArray (c : State) (peers : List Ipv4Peer) : State :=
  (preencodeUint c (UInt64.ofNat peers.length)).reserve (peers.length * 6)

def encodeIpv4PeerArray (peers : List Ipv4Peer) : Encoder := encodeArray encodePeer4 peers

def decodeIpv4PeerArray : Decoder (List Ipv4Peer) := decodeArray decodePeer4

def preencodeIpv6PeerArray (c : State) (peers : List Ipv4Peer) : State :=
  (preencodeUint c (UInt64.ofNat peers.length)).reserve (peers.length * 18)

def encodeIpv6PeerArray (peers : List Ipv4Peer) : Encoder := encodeArray encodePeer6 peers

def decodeIpv6PeerArray : Decoder (List Ipv4Peer) := decodeArray decodePeer6

structure HyperPeer where
  publicKey : Bytes32
  relayAddresses : List Ipv4Peer
  deriving DecidableEq

def decodeHyperPeer : Decoder HyperPeer := do
  let publicKey ← decodeFixed32
  let relayAddresses ← decodeIpv4PeerArray
  pure ⟨publicKey, relayAddresses⟩

/-! ## Announcements, lookups and mutable values -/

def FLAG_PEER : UInt64 := 0x1
def FLAG_REFRESH : UInt64 := 0x2
def FLAG_SIGNATURE : UInt64 := 0x4
def FLAG_BUMP : UInt64 := 0x8

structure AnnounceMessage where
  peer : Option HyperPeer
  refresh : Option Bytes32
  signature : Option Bytes64
  bump : UInt64
  deriving DecidableEq

def decodeAnnounce : Decoder AnnounceMessage := do
  let flags ← decodeUint
  let peer ← readIf (flags &&& FLAG_PEER != 0) decodeHyperPeer
  let refresh ← readIf (flags &&& FLAG_REFRESH != 0) decodeFixed32
  let signature ← readIf (flags &&& FLAG_SIGNATURE != 0) decodeFixed64
  let bump ← readOr (flags &&& FLAG_BUMP != 0) decodeUint 0
  pure ⟨peer, refresh, signature, bump⟩

structure LookupRawReply where
  peers : List HyperPeer
  bump : UInt64
  deriving DecidableEq

/-- Unlike the other lists, this one takes its count as it comes. -/
def decodeLookupRawReply : Decoder LookupRawReply := do
  let count ← decodeUint
  withCapacity count.toNat
  let peers ← readMany decodeHyperPeer count.toNat
  let more ← hasLeft
  let bump ← readOr more decodeUint 0
  pure ⟨peers, bump⟩

def decodeVec : Decoder ByteVec := do
  let buf ← decodeBuffer
  pure (buf.getD ⟨[], by decide⟩)

structure MutablePutRequest where
  publicKey : Bytes32
  seq : UInt64
  value : ByteVec
  signature : Bytes64
  deriving DecidableEq

def decodeMutablePutRequest : Decoder MutablePutRequest := do
  let publicKey ← decodeFixed32
  let seq ← decodeUint
  let value ← decodeVec
  let signature ← decodeFixed64
  pure ⟨publicKey, seq, value, signature⟩

structure MutableGetResponse where
  seq : UInt64
  value : ByteVec
  signature : Bytes64
  deriving DecidableEq

def decodeMutableGetResponse : Decoder MutableGetResponse := do
  let seq ← decodeUint
  let value ← decodeVec
  let signature ← decodeFixed64
  pure ⟨seq, value, signature⟩

structure MutableSignable where
  seq : UInt64
  value : ByteVec
  deriving DecidableEq

def decodeMutableSignable : Decoder MutableSignable := do
  let seq ← decodeUint
  let value ← decodeVec
  pure ⟨seq, value⟩

/-! ## Handshake and hole-punch messages -/

structure HandshakeMessage where
  mode : UInt64
  noise : ByteVec
  peerAddress : Option Ipv4Peer
  relayAddress : Option Ipv4Peer
  deriving DecidableEq

def decodeHandshake : Decoder HandshakeMessage := do
  let flags ← decodeUint
  let mode ← decodeUint
  let noise ← decodeVec
  let peerAddress ← readIf (flags &&& 1 != 0) decodePeer4
  let relayAddress ← readIf (flags &&& 2 != 0) decodePeer4
  pure ⟨mode, noise, peerAddress, relayAddress⟩

structure HolepunchMessage where
  mode : UInt64
  id : UInt64
  payload : ByteVec
  peerAddress : Option Ipv4Peer
  deriving DecidableEq

def decodeHolepunchMsg : Decoder HolepunchMessage := do
  let flags ← decodeUint
  let mode ← decodeUint
  let id ← decodeUint
  let payload ← decodeVec
  let peerAddress ← readIf (flags &&& 1 != 0) decodePeer4
  pure ⟨mode, id, payload, peerAddress⟩

/-! ## The parts of a Noise payload -/

structure RelayInfo where
  relayAddress : Ipv4Peer
  peerAddress : Ipv4Peer
  deriving DecidableEq

def preencodeRelayInfo (c : State) (_m : RelayInfo) : State := c.reserve 12

def encodeRelayInfo (m : RelayInfo) : Encoder := do
  encodePeer4 m.relayAddress
  encodePeer4 m.peerAddress

def decodeRelayInfo : Decoder RelayInfo := do
  let relayAddress ← decodePeer4
  let peerAddress ← decodePeer4
  pure ⟨relayAddress, peerAddress⟩

def preencodeRelayInfoArray (c : State) (arr : List RelayInfo) : State :=
  arr.foldl preencodeRelayInfo (preencodeUint c (UInt64.ofNat arr.length))

def encodeRelayInfoArray (arr : List RelayInfo) : Encoder := encodeArray encodeRelayInfo arr

def decodeRelayInfoArray : Decoder (List RelayInfo) := decodeArray decodeRelayInfo

structure HolepunchInfo where
  id : UInt64
  relays : List RelayInfo
  deriving DecidableEq

def preencodeHolepunchInfo (c : State) (m : HolepunchInfo) : State :=
  preencodeRelayInfoArray (preencodeUint c m.id) m.relays

def encodeHolepunchInfo (m : HolepunchInfo) : Encoder := do
  encodeUint m.id
  encodeRelayInfoArray m.relays

def decodeHolepunchInfo : Decoder HolepunchInfo := do
  let id ← decodeUint
  let relays ← decodeRelayInfoArray
  pure ⟨id, relays⟩

structure UdxInfo where
  version : UInt64
  reusableSocket : Bool
  id : UInt64
  seq : UInt64
  deriving DecidableEq

def preencodeUdxInfo (c : State) (m : UdxInfo) : State :=
  preencodeUint (preencodeUint (c.reserve 2) m.id) m.seq

def encodeUdxInfo (m : UdxInfo) : Encoder := do
  encodeUint 1
  encodeUint (if m.reusableSocket then 1 else 0)
  encodeUint m.id
  encodeUint m.seq

def decodeUdxInfo : Decoder UdxInfo := do
  let version ← decodeUint
  let features ← decodeUint
  let id ← decodeUint
  let seq ← decodeUint
  pure ⟨version, features &&& 1 != 0, id, seq⟩

structure SecretStreamInfo where
  version : UInt64
  deriving DecidableEq

def preencodeSecretStreamInfo (c : State) (_m : SecretStreamInfo) : State := preencodeUint c 1

def encodeSecretStreamInfo (_m : SecretStreamInfo) : Encoder := encodeUint 1

def decodeSecretStreamInfo : Decoder SecretStreamInfo := do
  let version ← decodeUint
  pure ⟨version⟩

structure RelayThroughInfo where
  version : UInt64
  publicKey : Bytes32
  token : Bytes32
  deriving DecidableEq

def preencodeRelayThroughInfo (c : State) (_m : RelayThroughInfo) : State :=
  (preencodeUint (preencodeUint c 1) 0).reserve 64

def encodeRelayThroughInfo (m : RelayThroughInfo) : Encoder := do
  encodeUint 1
  encodeUint 0
  encodeFixed32 m.publicKey
  encodeFixed32 m.token

def decodeRelayThroughInfo : Decoder RelayThroughInfo := do
  let version ← decodeUint
  let _flags ← decodeUint
  let publicKey ← decodeFixed32
  let token ← decodeFixed32
  pure ⟨version, publicKey, token⟩

/-! ## The Noise payload -/

structure NoisePayload where
  version : UInt64
  error : UInt64
  firewall : UInt64
  holepunch : Option HolepunchInfo
  addresses4 : List Ipv4Peer
  addresses6 : List Ipv4Peer
  udx : Option UdxInfo
  secretStream : Option SecretStreamInfo
  relayThrough : Option RelayThroughInfo
  relayAddresses : Option (List Ipv4Peer)
  deriving DecidableEq

variable {m : NoisePayload}

def NP_FLAG_HOLEPUNCH : UInt64 := 1
def NP_FLAG_ADDRESSES4 : UInt64 := 2
def NP_FLAG_ADDRESSES6 : UInt64 := 4
def NP_FLAG_UDX : UInt64 := 8
def NP_FLAG_SECRET_STREAM : UInt64 := 16
def NP_FLAG_RELAY_THROUGH : UInt64 := 32
def NP_FLAG_RELAY_ADDRESSES : UInt64 := 64

def flagIf (cond : Bool) (flag : UInt64) : UInt64 := if cond then flag else 0

def noiseFlags (holepunch addresses4 addresses6 udx secretStream relayThrough relayAddresses : Bool) : UInt64 :=
  flagIf holepunch NP_FLAG_HOLEPUNCH ||| flagIf addresses4 NP_FLAG_ADDRESSES4 |||
    flagIf addresses6 NP_FLAG_ADDRESSES6 ||| flagIf udx NP_FLAG_UDX ||| flagIf secretStream NP_FLAG_SECRET_STREAM |||
    flagIf relayThrough NP_FLAG_RELAY_THROUGH ||| flagIf relayAddresses NP_FLAG_RELAY_ADDRESSES

def NoisePayload.flags (m : NoisePayload) : UInt64 :=
  noiseFlags m.holepunch.isSome (!m.addresses4.isEmpty) (!m.addresses6.isEmpty) m.udx.isSome m.secretStream.isSome
    m.relayThrough.isSome m.relayAddresses.isSome

/-- One byte each for the version, the flags, the error and the firewall. -/
def preencodeNoisePayload (c : State) (m : NoisePayload) : State :=
  let c := c.reserve 4
  let c := c.reserveOpt m.holepunch preencodeHolepunchInfo
  let c := if !m.addresses4.isEmpty then preencodeIpv4PeerArray c m.addresses4 else c
  let c := if !m.addresses6.isEmpty then preencodeIpv6PeerArray c m.addresses6 else c
  let c := c.reserveOpt m.udx preencodeUdxInfo
  let c := c.reserveOpt m.secretStream preencodeSecretStreamInfo
  let c := c.reserveOpt m.relayThrough preencodeRelayThroughInfo
  c.reserveOpt m.relayAddresses preencodeIpv4PeerArray

def encodeNoiseFields (m : NoisePayload) : Encoder := do
  writeOpt m.holepunch encodeHolepunchInfo
  writeIf (!m.addresses4.isEmpty) (encodeIpv4PeerArray m.addresses4)
  writeIf (!m.addresses6.isEmpty) (encodeIpv6PeerArray m.addresses6)
  writeOpt m.udx encodeUdxInfo
  writeOpt m.secretStream encodeSecretStreamInfo
  writeOpt m.relayThrough encodeRelayThroughInfo
  writeOpt m.relayAddresses encodeIpv4PeerArray

def encodeNoisePayload (m : NoisePayload) : Encoder := do
  encodeUint 1
  encodeUint m.flags
  encodeUint m.error
  encodeUint m.firewall
  encodeNoiseFields m

/-- A payload of another version: nothing else is read. -/
def NoisePayload.unread (version : UInt64) : NoisePayload := ⟨version, 0, 0, none, [], [], none, none, none, none⟩

def decodeNoiseFields (version flags error firewall : UInt64) : Decoder NoisePayload := do
  let holepunch ← readIf (flags &&& NP_FLAG_HOLEPUNCH != 0) decodeHolepunchInfo
  let addresses4 ← readOr (flags &&& NP_FLAG_ADDRESSES4 != 0) decodeIpv4PeerArray []
  let addresses6 ← readOr (flags &&& NP_FLAG_ADDRESSES6 != 0) decodeIpv6PeerArray []
  let udx ← readIf (flags &&& NP_FLAG_UDX != 0) decodeUdxInfo
  let secretStream ← readIf (flags &&& NP_FLAG_SECRET_STREAM != 0) decodeSecretStreamInfo
  let relayThrough ← readIf (flags &&& NP_FLAG_RELAY_THROUGH != 0) decodeRelayThroughInfo
  let relayAddresses ← readIf (flags &&& NP_FLAG_RELAY_ADDRESSES != 0) decodeIpv4PeerArray
  pure ⟨version, error, firewall, holepunch, addresses4, addresses6, udx, secretStream, relayThrough, relayAddresses⟩

def decodeNoisePayload : Decoder NoisePayload := do
  let version ← decodeUint
  if version ≠ 1 then pure (.unread version)
  else do
    let flags ← decodeUint
    let error ← decodeUint
    let firewall ← decodeUint
    decodeNoiseFields version flags error firewall

def encodeNoisePayloadToBytes (m : NoisePayload) : Except (Fault EncodingError) Bytes :=
  emit (preencodeNoisePayload · m) (encodeNoisePayload m)

def decodeNoisePayloadFromBytes (buf : Bytes) : Except (Fault EncodingError) NoisePayload :=
  parse decodeNoisePayload buf

/-! ## The hole-punch payload -/

structure HolepunchPayload where
  error : UInt64
  firewall : UInt64
  round : UInt64
  connected : Bool
  punching : Bool
  addresses : Option (List Ipv4Peer)
  remoteAddress : Option Ipv4Peer
  token : Option Bytes32
  remoteToken : Option Bytes32
  deriving DecidableEq

def HP_FLAG_CONNECTED : UInt64 := 1
def HP_FLAG_PUNCHING : UInt64 := 2
def HP_FLAG_ADDRESSES : UInt64 := 4
def HP_FLAG_REMOTE_ADDRESS : UInt64 := 8
def HP_FLAG_TOKEN : UInt64 := 16
def HP_FLAG_REMOTE_TOKEN : UInt64 := 32

def punchFlags (connected punching addresses remoteAddress token remoteToken : Bool) : UInt64 :=
  flagIf connected HP_FLAG_CONNECTED ||| flagIf punching HP_FLAG_PUNCHING ||| flagIf addresses HP_FLAG_ADDRESSES |||
    flagIf remoteAddress HP_FLAG_REMOTE_ADDRESS ||| flagIf token HP_FLAG_TOKEN |||
    flagIf remoteToken HP_FLAG_REMOTE_TOKEN

def HolepunchPayload.flags (m : HolepunchPayload) : UInt64 :=
  punchFlags m.connected m.punching m.addresses.isSome m.remoteAddress.isSome m.token.isSome m.remoteToken.isSome

/-- One byte each for the flags, the error, the firewall and the round. -/
def preencodeHolepunchPayload (c : State) (m : HolepunchPayload) : State :=
  let c := c.reserve 4
  let c := c.reserveOpt m.addresses preencodeIpv4PeerArray
  let c := if m.remoteAddress.isSome then c.reserve 6 else c
  let c := if m.token.isSome then c.reserve 32 else c
  if m.remoteToken.isSome then c.reserve 32 else c

def encodePunchFields (m : HolepunchPayload) : Encoder := do
  writeOpt m.addresses encodeIpv4PeerArray
  writeOpt m.remoteAddress encodePeer4
  writeOpt m.token encodeFixed32
  writeOpt m.remoteToken encodeFixed32

def encodeHolepunchPayload (m : HolepunchPayload) : Encoder := do
  encodeUint m.flags
  encodeUint m.error
  encodeUint m.firewall
  encodeUint m.round
  encodePunchFields m

def decodePunchFields (flags error firewall round : UInt64) : Decoder HolepunchPayload := do
  let addresses ← readIf (flags &&& HP_FLAG_ADDRESSES != 0) decodeIpv4PeerArray
  let remoteAddress ← readIf (flags &&& HP_FLAG_REMOTE_ADDRESS != 0) decodePeer4
  let token ← readIf (flags &&& HP_FLAG_TOKEN != 0) decodeFixed32
  let remoteToken ← readIf (flags &&& HP_FLAG_REMOTE_TOKEN != 0) decodeFixed32
  pure ⟨error, firewall, round, flags &&& HP_FLAG_CONNECTED != 0, flags &&& HP_FLAG_PUNCHING != 0, addresses,
    remoteAddress, token, remoteToken⟩

def decodeHolepunchPayload : Decoder HolepunchPayload := do
  let flags ← decodeUint
  let error ← decodeUint
  let firewall ← decodeUint
  let round ← decodeUint
  decodePunchFields flags error firewall round

def encodeHolepunchPayloadToBytes (m : HolepunchPayload) : Except (Fault EncodingError) Bytes :=
  emit (preencodeHolepunchPayload · m) (encodeHolepunchPayload m)

def decodeHolepunchPayloadFromBytes (buf : Bytes) : Except (Fault EncodingError) HolepunchPayload :=
  parse decodeHolepunchPayload buf

def ERROR_NONE : UInt64 := 0

inductive Firewall where
  | unknown
  | reachable
  | consistent
  | random
  deriving DecidableEq, Repr

/-- `FIREWALL_UNKNOWN`, `FIREWALL_OPEN`, `FIREWALL_CONSISTENT` and `FIREWALL_RANDOM`. -/
def Firewall.code : Firewall → UInt64
  | unknown => 0
  | reachable => 1
  | consistent => 2
  | random => 3

/-- The payload with which a server answers a hole-punch round: its own firewall and addresses, and the round, the
punching flag and the token of the payload it decrypted. -/
def replyHp (serverFirewall : Firewall) (localPunchAddrs : List Ipv4Peer) (peerAddress : Ipv4Peer) (token : Bytes32)
    (remoteHp : HolepunchPayload) : HolepunchPayload where
  error := ERROR_NONE
  firewall := serverFirewall.code
  round := remoteHp.round
  connected := false
  punching := remoteHp.punching
  addresses := some localPunchAddrs
  remoteAddress := some peerAddress
  token := some token
  remoteToken := remoteHp.token

/-! ## The bytes of the parts -/

theorem writes_peer4 (h : Ipv4Host peer.host) : Writes (encodePeer4 peer) (peerBytes peer) :=
  writes_ipv4Address h peer.port

theorem reads_peer4 (h : Ipv4Host peer.host) : Reads decodePeer4 (peerBytes peer) peer :=
  (reads_ipv4Address h peer.port).map fun addr => (⟨addr.1, addr.2⟩ : Ipv4Peer)

def peer6Bytes (peer : Ipv4Peer) : Bytes := ipv6Bytes peer.host ++ leBytes 2 peer.port.toNat

theorem length_peer6Bytes (h : Ipv6Host peer.host) : (peer6Bytes peer).length = 18 := by
  rw [peer6Bytes, length_append, h.length, length_leBytes]

theorem writes_peer6 (h : Ipv6Host peer.host) : Writes (encodePeer6 peer) (peer6Bytes peer) :=
  writes_ipv6Address h peer.port

theorem reads_peer6 (h : Ipv6Host peer.host) : Reads decodePeer6 (peer6Bytes peer) peer :=
  (reads_ipv6Address h peer.port).map fun addr => (⟨addr.1, addr.2⟩ : Ipv4Peer)

def RelayInfo.Canonical (m : RelayInfo) : Prop := Ipv4Host m.relayAddress.host ∧ Ipv4Host m.peerAddress.host

def relayInfoBytes (m : RelayInfo) : Bytes := peerBytes m.relayAddress ++ peerBytes m.peerAddress

theorem length_relayInfoBytes {m : RelayInfo} (h : m.Canonical) : (relayInfoBytes m).length = 12 := by
  rw [relayInfoBytes, length_append, length_peerBytes h.1, length_peerBytes h.2]

variable (c : State)

def holepunchInfoBytes (m : HolepunchInfo) : Bytes := uintBytes m.id ++ arrayBytes relayInfoBytes m.relays

section
variable {m : HolepunchInfo} (h : ∀ r ∈ m.relays, r.Canonical)
include h

theorem preencodeHolepunchInfo_eq (c : State) :
    preencodeHolepunchInfo c m = c.reserve (holepunchInfoBytes m).length := by
  have hrelay : ∀ r ∈ m.relays, ∀ c, preencodeRelayInfo c r = c.reserve (relayInfoBytes r).length := by
    intro r hr c
    rw [preencodeRelayInfo, length_relayInfoBytes (h r hr)]
  rw [preencodeHolepunchInfo, preencodeRelayInfoArray, foldl_reserve hrelay, preencodeUint_eq, preencodeUint_eq,
    holepunchInfoBytes, arrayBytes]
  simp only [reserve_reserve, length_append, Nat.add_assoc]

theorem writes_holepunchInfo : Writes (encodeHolepunchInfo m) (holepunchInfoBytes m) :=
  (writes_uint m.id).append (writes_array fun r hr => (writes_peer4 (h r hr).1).append (writes_peer4 (h r hr).2))

theorem reads_holepunchInfo (hlen : m.relays.length ≤ MAX_ARRAY_LENGTH) :
    Reads decodeHolepunchInfo (holepunchInfoBytes m) m := by
  have hrelay : ∀ r ∈ m.relays, Reads decodeRelayInfo (relayInfoBytes r) r := fun r hr =>
    (reads_peer4 (h r hr).1).bind ((reads_peer4 (h r hr).2).map (RelayInfo.mk r.relayAddress))
  exact (reads_uint m.id).bind ((reads_array hlen hrelay).map (HolepunchInfo.mk m.id))

end

def udxInfoBytes (m : UdxInfo) : Bytes :=
  uintBytes 1 ++ (uintBytes (if m.reusableSocket then 1 else 0) ++ (uintBytes m.id ++ uintBytes m.seq))

theorem preencodeUdxInfo_eq (m : UdxInfo) : preencodeUdxInfo c m = c.reserve (udxInfoBytes m).length := by
  have hfeatures : (uintBytes (if m.reusableSocket then 1 else 0)).length = 1 := by
    cases m.reusableSocket <;> rfl
  have hversion : (uintBytes 1).length = 1 := rfl
  rw [preencodeUdxInfo, preencodeUint_eq, preencodeUint_eq, udxInfoBytes]
  simp only [reserve_reserve, length_append, hfeatures, hversion, ← Nat.add_assoc]

theorem writes_udxInfo (m : UdxInfo) : Writes (encodeUdxInfo m) (udxInfoBytes m) :=
  (writes_uint _).append ((writes_uint _).append ((writes_uint _).append (writes_uint _)))

theorem reads_udxInfo {m : UdxInfo} (h : m.version = 1) : Reads decodeUdxInfo (udxInfoBytes m) m := by
  obtain ⟨version, reusable, id, seq⟩ := m
  subst h
  have htest : ((if reusable then 1 else 0 : UInt64) &&& 1 != 0) = reusable := by cases reusable <;> rfl
  refine (reads_uint 1).bind ((reads_uint _).bind ((reads_uint id).bind ?_))
  rw [htest]
  exact (reads_uint seq).map (UdxInfo.mk 1 reusable id)

theorem preencodeSecretStreamInfo_eq (m : SecretStreamInfo) :
    preencodeSecretStreamInfo c m = c.reserve (uintBytes 1).length := preencodeUint_eq c 1

theorem reads_secretStreamInfo {m : SecretStreamInfo} (h : m.version = 1) :
    Reads decodeSecretStreamInfo (uintBytes 1) m := by
  obtain ⟨version⟩ := m
  subst h
  exact (reads_uint 1).map SecretStreamInfo.mk

def relayThroughBytes (m : RelayThroughInfo) : Bytes :=
  uintBytes 1 ++ (uintBytes 0 ++ (m.publicKey.1 ++ m.token.1))

theorem preencodeRelayThroughInfo_eq (m : RelayThroughInfo) :
    preencodeRelayThroughInfo c m = c.reserve (relayThroughBytes m).length := by
  rw [preencodeRelayThroughInfo, preencodeUint_eq, preencodeUint_eq, relayThroughBytes]
  simp only [reserve_reserve, length_append, m.publicKey.2, m.token.2, Nat.add_assoc]

theorem writes_relayThrough (m : RelayThroughInfo) : Writes (encodeRelayThroughInfo m) (relayThroughBytes m) :=
  (writes_uint 1).append ((writes_uint 0).append ((writes_fixed32 _).append (writes_fixed32 _)))

theorem reads_relayThrough {m : RelayThroughInfo} (h : m.version = 1) :
    Reads decodeRelayThroughInfo (relayThroughBytes m) m := by
  obtain ⟨version, publicKey, token⟩ := m
  subst h
  exact (reads_uint 1).bind ((reads_uint 0).bind ((reads_fixed32 publicKey).bind
    ((reads_fixed32 token).map (RelayThroughInfo.mk 1 publicKey))))

/-! ## The bytes of a Noise payload -/

namespace NoisePayload

/-- The addresses are the text that decoding produces. -/
structure Canonical (m : NoisePayload) : Prop where
  holepunch : ∀ i ∈ m.holepunch, ∀ r ∈ i.relays, r.Canonical
  addresses4 : ∀ p ∈ m.addresses4, Ipv4Host p.host
  addresses6 : ∀ p ∈ m.addresses6, Ipv6Host p.host
  relayAddresses : ∀ ps ∈ m.relayAddresses, ∀ p ∈ ps, Ipv4Host p.host

/-- Every version is the one that is always written. -/
structure Current (m : NoisePayload) : Prop where
  version : m.version = 1
  udx : ∀ u ∈ m.udx, u.version = 1
  secretStream : ∀ s ∈ m.secretStream, s.version = 1
  relayThrough : ∀ r ∈ m.relayThrough, r.version = 1

/-- The lists are no longer than the decoders take. -/
structure WithinLimits (m : NoisePayload) : Prop where
  holepunch : ∀ i ∈ m.holepunch, i.relays.length ≤ 1048576
  addresses4 : m.addresses4.length ≤ 1048576
  addresses6 : m.addresses6.length ≤ 1048576
  relayAddresses : ∀ ps ∈ m.relayAddresses, ps.length ≤ 1048576

/-- What the first pass counts as one byte takes one byte. -/
structure Small (m : NoisePayload) : Prop where
  error : m.error ≤ 0xfc
  firewall : m.firewall ≤ 0xfc

end NoisePayload

def noiseFieldBytes (m : NoisePayload) : Bytes :=
  m.holepunch.elim [] holepunchInfoBytes ++
  ((if !m.addresses4.isEmpty then arrayBytes peerBytes m.addresses4 else []) ++
  ((if !m.addresses6.isEmpty then arrayBytes peer6Bytes m.addresses6 else []) ++
  (m.udx.elim [] udxInfoBytes ++
  (m.secretStream.elim [] (fun _ => uintBytes 1) ++
  (m.relayThrough.elim [] relayThroughBytes ++ m.relayAddresses.elim [] (arrayBytes peerBytes))))))

def noiseBytes (m : NoisePayload) : Bytes :=
  uintBytes 1 ++ (uintBytes m.flags ++ (uintBytes m.error ++ (uintBytes m.firewall ++ noiseFieldBytes m)))

theorem preencodeIpv4PeerArray_eq (h : ∀ p ∈ peers, Ipv4Host p.host) :
    preencodeIpv4PeerArray c peers = c.reserve (arrayBytes peerBytes peers).length :=
  reserve_array c fun p hp => length_peerBytes (h p hp)

theorem preencodeIpv6PeerArray_eq (h : ∀ p ∈ peers, Ipv6Host p.host) :
    preencodeIpv6PeerArray c peers = c.reserve (arrayBytes peer6Bytes peers).length :=
  reserve_array c fun p hp => length_peer6Bytes (h p hp)

section
variable {m : NoisePayload} (h : m.Canonical)
include h

/-- The first pass reserves the fields, and four bytes for the integers in front of them. -/
theorem preencodeNoisePayload_eq (c : State) :
    preencodeNoisePayload c m = c.reserve (4 + (noiseFieldBytes m).length) := by
  unfold preencodeNoisePayload noiseFieldBytes
  dsimp only
  rw [reserveOpt_eq fun i hi => preencodeHolepunchInfo_eq (h.holepunch i hi) _,
    reserve_cond fun _ => preencodeIpv4PeerArray_eq _ h.addresses4,
    reserve_cond fun _ => preencodeIpv6PeerArray_eq _ h.addresses6,
    reserveOpt_eq fun u _ => preencodeUdxInfo_eq _ u,
    reserveOpt_eq fun s _ => preencodeSecretStreamInfo_eq _ s,
    reserveOpt_eq fun r _ => preencodeRelayThroughInfo_eq _ r,
    reserveOpt_eq fun ps hps => preencodeIpv4PeerArray_eq _ (h.relayAddresses ps hps)]
  simp only [reserve_reserve, length_append, Nat.add_assoc]

theorem writes_noisePayload : Writes (encodeNoisePayload m) (noiseBytes m) := by
  have hfields : Writes (encodeNoiseFields m) (noiseFieldBytes m) :=
    (Writes.writeOpt fun i hi => writes_holepunchInfo (h.holepunch i hi)).append
      ((Writes.writeIf fun _ => writes_array fun p hp => writes_peer4 (h.addresses4 p hp)).append
      ((Writes.writeIf fun _ => writes_array fun p hp => writes_peer6 (h.addresses6 p hp)).append
      ((Writes.writeOpt fun u _ => writes_udxInfo u).append
      ((Writes.writeOpt fun _ _ => writes_uint 1).append
      ((Writes.writeOpt fun r _ => writes_relayThrough r).append
      (.writeOpt fun ps hps => writes_array fun p hp => writes_peer4 (h.relayAddresses ps hps p hp)))))))
  exact (writes_uint 1).append ((writes_uint _).append ((writes_uint _).append ((writes_uint _).append hfields)))

end

theorem noiseFlags_tests : ∀ a b c d e f g : Bool,
    noiseFlags a b c d e f g ≤ 0xfc ∧ (noiseFlags a b c d e f g &&& NP_FLAG_HOLEPUNCH != 0) = a ∧
      (noiseFlags a b c d e f g &&& NP_FLAG_ADDRESSES4 != 0) = b ∧
      (noiseFlags a b c d e f g &&& NP_FLAG_ADDRESSES6 != 0) = c ∧
      (noiseFlags a b c d e f g &&& NP_FLAG_UDX != 0) = d ∧
      (noiseFlags a b c d e f g &&& NP_FLAG_SECRET_STREAM != 0) = e ∧
      (noiseFlags a b c d e f g &&& NP_FLAG_RELAY_THROUGH != 0) = f ∧
      (noiseFlags a b c d e f g &&& NP_FLAG_RELAY_ADDRESSES != 0) = g := by
  decide

theorem reads_peerList {decode : Decoder (List Ipv4Peer)} {bytes : Bytes} {flag : Bool}
    (hflag : flag = !peers.isEmpty) (h : Reads decode bytes peers) :
    Reads (readOr flag decode []) (if !peers.isEmpty then bytes else []) peers :=
  .readOr hflag (fun _ => h) fun he => (List.isEmpty_iff.mp (by simpa using he)).symm

theorem reads_noisePayload (h : m.Canonical) (hv : m.Current) (hl : m.WithinLimits) :
    Reads decodeNoisePayload (noiseBytes m) m := by
  obtain ⟨-, ha, hb, hc, hd, he, hf, hg⟩ := noiseFlags_tests m.holepunch.isSome (!m.addresses4.isEmpty)
    (!m.addresses6.isEmpty) m.udx.isSome m.secretStream.isSome m.relayThrough.isSome m.relayAddresses.isSome
  have hfields : Reads (decodeNoiseFields 1 m.flags m.error m.firewall) (noiseFieldBytes m) m := by
    refine (Reads.readIf ha fun i hi => reads_holepunchInfo (h.holepunch i hi) (hl.holepunch i hi)).bind ?_
    refine (reads_peerList hb (reads_array hl.addresses4 fun p hp => reads_peer4 (h.addresses4 p hp))).bind ?_
    refine (reads_peerList hc (reads_array hl.addresses6 fun p hp => reads_peer6 (h.addresses6 p hp))).bind ?_
    refine (Reads.readIf hd fun u hu => reads_udxInfo (hv.udx u hu)).bind ?_
    refine (Reads.readIf he fun s hs => reads_secretStreamInfo (hv.secretStream s hs)).bind ?_
    refine (Reads.readIf hf fun r hr => reads_relayThrough (hv.relayThrough r hr)).bind ?_
    have hlast := Reads.readIf hg fun ps hps =>
      reads_array (hl.relayAddresses ps hps) fun p hp => reads_peer4 (h.relayAddresses ps hps p hp)
    have hversion := hv.version
    obtain ⟨version, error, firewall, holepunch, addresses4, addresses6, udx, secretStream, relayThrough, relay⟩ := m
    subst hversion
    exact hlast.map (NoisePayload.mk 1 error firewall holepunch addresses4 addresses6 udx secretStream relayThrough)
  exact (reads_uint 1).bind ((reads_uint m.flags).bind ((reads_uint m.error).bind ((reads_uint m.firewall).bind hfields)))

/-! ## The bytes of a hole-punch payload -/

namespace HolepunchPayload

structure Canonical (m : HolepunchPayload) : Prop where
  addresses : ∀ ps ∈ m.addresses, ∀ p ∈ ps, Ipv4Host p.host
  remoteAddress : ∀ p ∈ m.remoteAddress, Ipv4Host p.host

def WithinLimits (m : HolepunchPayload) : Prop := ∀ ps ∈ m.addresses, ps.length ≤ 1048576

structure Small (m : HolepunchPayload) : Prop where
  error : m.error ≤ 0xfc
  firewall : m.firewall ≤ 0xfc
  round : m.round ≤ 0xfc

end HolepunchPayload

def punchFieldBytes (m : HolepunchPayload) : Bytes :=
  m.addresses.elim [] (arrayBytes peerBytes) ++ (m.remoteAddress.elim [] peerBytes ++
    (m.token.elim [] Subtype.val ++ m.remoteToken.elim [] Subtype.val))

def punchBytes (m : HolepunchPayload) : Bytes :=
  uintBytes m.flags ++ (uintBytes m.error ++ (uintBytes m.firewall ++ (uintBytes m.round ++ punchFieldBytes m)))

section
variable {m : HolepunchPayload} (h : m.Canonical)
include h

theorem preencodeHolepunchPayload_eq (c : State) :
    preencodeHolepunchPayload c m = c.reserve (4 + (punchFieldBytes m).length) := by
  unfold preencodeHolepunchPayload punchFieldBytes
  dsimp only
  rw [reserveOpt_eq fun ps hps => preencodeIpv4PeerArray_eq _ (h.addresses ps hps),
    reserve_isSome _ fun p hp => length_peerBytes (h.remoteAddress p hp), reserve_optional, reserve_optional]
  simp only [reserve_reserve, length_append, Nat.add_assoc]

theorem writes_holepunchPayload : Writes (encodeHolepunchPayload m) (punchBytes m) := by
  have hfields : Writes (encodePunchFields m) (punchFieldBytes m) :=
    (Writes.writeOpt fun ps hps => writes_array fun p hp => writes_peer4 (h.addresses ps hps p hp)).append
      ((Writes.writeOpt fun p hp => writes_peer4 (h.remoteAddress p hp)).append
      ((Writes.writeOpt fun b _ => writes_fixed32 b).append (.writeOpt fun b _ => writes_fixed32 b)))
  exact (writes_uint _).append ((writes_uint _).append ((writes_uint _).append ((writes_uint _).append hfields)))

end

theorem punchFlags_tests : ∀ a b c d e f : Bool,
    punchFlags a b c d e f ≤ 0xfc ∧ (punchFlags a b c d e f &&& HP_FLAG_CONNECTED != 0) = a ∧
      (punchFlags a b c d e f &&& HP_FLAG_PUNCHING != 0) = b ∧ (punchFlags a b c d e f &&& HP_FLAG_ADDRESSES != 0) = c ∧
      (punchFlags a b c d e f &&& HP_FLAG_REMOTE_ADDRESS != 0) = d ∧
      (punchFlags a b c d e f &&& HP_FLAG_TOKEN != 0) = e ∧
      (punchFlags a b c d e f &&& HP_FLAG_REMOTE_TOKEN != 0) = f := by
  decide

theorem reads_holepunchPayload {m : HolepunchPayload} (h : m.Canonical) (hl : m.WithinLimits) :
    Reads decodeHolepunchPayload (punchBytes m) m := by
  obtain ⟨-, ha, hb, hc, hd, he, hf⟩ := punchFlags_tests m.connected m.punching m.addresses.isSome
    m.remoteAddress.isSome m.token.isSome m.remoteToken.isSome
  have hconnected : (m.flags &&& HP_FLAG_CONNECTED != 0) = m.connected := ha
  have hpunching : (m.flags &&& HP_FLAG_PUNCHING != 0) = m.punching := hb
  have hfields : Reads (decodePunchFields m.flags m.error m.firewall m.round) (punchFieldBytes m) m := by
    refine (Reads.readIf hc fun ps hps =>
      reads_array (hl ps hps) fun p hp => reads_peer4 (h.addresses ps hps p hp)).bind ?_
    refine (Reads.readIf hd fun p hp => reads_peer4 (h.remoteAddress p hp)).bind ?_
    refine (Reads.readIf he fun b _ => reads_fixed32 b).bind ?_
    rw [hconnected, hpunching]
    exact (Reads.readIf hf fun b _ => reads_fixed32 b).map
      (HolepunchPayload.mk m.error m.firewall m.round m.connected m.punching m.addresses m.remoteAddress m.token)
  exact (reads_uint m.flags).bind ((reads_uint m.error).bind ((reads_uint m.firewall).bind
    ((reads_uint m.round).bind hfields)))

/-! ## What the first pass counts -/

theorem length_uintBytes_of_le {n : UInt64} (h : n ≤ 0xfc) : (uintBytes n).length = 1 := (length_uintBytes n).2.mpr h

theorem length_noiseBytes (h : m.Small) : (noiseBytes m).length = 4 + (noiseFieldBytes m).length := by
  have hflags : m.flags ≤ 0xfc := (noiseFlags_tests _ _ _ _ _ _ _).1
  rw [noiseBytes]
  simp only [length_append, length_uintBytes_of_le h.error, length_uintBytes_of_le h.firewall,
    length_uintBytes_of_le hflags, length_uintBytes_of_le (n := 1) (by decide)]
  omega

theorem length_punchBytes {m : HolepunchPayload} (h : m.Small) :
    (punchBytes m).length = 4 + (punchFieldBytes m).length := by
  have hflags : m.flags ≤ 0xfc := (punchFlags_tests _ _ _ _ _ _).1
  rw [punchBytes]
  simp only [length_append, length_uintBytes_of_le h.error, length_uintBytes_of_le h.firewall,
    length_uintBytes_of_le h.round, length_uintBytes_of_le hflags]
  omega

/-! ## The round trips -/

theorem noisePayload_round_trip (hc : m.Canonical) (hs : m.Small) :
    ∃ bs, (∀ c, preencodeNoisePayload c m = c.reserve bs.length) ∧ Writes (encodeNoisePayload m) bs ∧
      encodeNoisePayloadToBytes m = .ok bs ∧ (m.Current → m.WithinLimits → decodeNoisePayloadFromBytes bs = .ok m) := by
  have hpre : ∀ c, preencodeNoisePayload c m = c.reserve (noiseBytes m).length := by
    intro c
    rw [preencodeNoisePayload_eq hc, length_noiseBytes hs]
  exact ⟨noiseBytes m, hpre, writes_noisePayload hc, (writes_noisePayload hc).emit (hpre .empty),
    fun hv hl => (reads_noisePayload hc hv hl).parse⟩

theorem holepunchPayload_round_trip {m : HolepunchPayload} (hc : m.Canonical) (hs : m.Small) :
    ∃ bs, (∀ c, preencodeHolepunchPayload c m = c.reserve bs.length) ∧ Writes (encodeHolepunchPayload m) bs ∧
      encodeHolepunchPayloadToBytes m = .ok bs ∧ (m.WithinLimits → decodeHolepunchPayloadFromBytes bs = .ok m) := by
  have hpre : ∀ c, preencodeHolepunchPayload c m = c.reserve (punchBytes m).length := by
    intro c
    rw [preencodeHolepunchPayload_eq hc, length_punchBytes hs]
  exact ⟨punchBytes m, hpre, writes_holepunchPayload hc, (writes_holepunchPayload hc).emit (hpre .empty),
    fun hl => (reads_holepunchPayload hc hl).parse⟩

theorem replyHp_small (serverFirewall : Firewall) (localPunchAddrs : List Ipv4Peer) (peerAddress : Ipv4Peer)
    (token : Bytes32) {remoteHp : HolepunchPayload} (h : remoteHp.round ≤ 0xfc) :
    (replyHp serverFirewall localPunchAddrs peerAddress token remoteHp).Small := by
  refine ⟨(by decide : ERROR_NONE ≤ 0xfc), ?_, h⟩
  show serverFirewall.code ≤ 0xfc
  cases serverFirewall <;> decide

/-- **Round trip of the payloads.** A payload with canonical addresses whose error, firewall and round take one byte each
is written in the room that is reserved for it. With the versions that are always written and lists within the decoders'
limits it decodes to itself; so does the reply to a hole-punch round. -/
theorem payload_round_trip : (∀ m : NoisePayload, m.Canonical → m.Small →
      ∃ bs, (∀ c, preencodeNoisePayload c m = c.reserve bs.length) ∧ Writes (encodeNoisePayload m) bs ∧
        encodeNoisePayloadToBytes m = .ok bs ∧ (m.Current → m.WithinLimits → decodeNoisePayloadFromBytes bs = .ok m)) ∧
    (∀ m : HolepunchPayload, m.Canonical → m.Small →
      ∃ bs, (∀ c, preencodeHolepunchPayload c m = c.reserve bs.length) ∧ Writes (encodeHolepunchPayload m) bs ∧
        encodeHolepunchPayloadToBytes m = .ok bs ∧ (m.WithinLimits → decodeHolepunchPayloadFromBytes bs = .ok m)) ∧
    (∀ (serverFirewall : Firewall) (localPunchAddrs : List Ipv4Peer) (peerAddress : Ipv4Peer) (token : Bytes32)
      (remoteHp : HolepunchPayload), (∀ p ∈ localPunchAddrs, Ipv4Host p.host) → Ipv4Host peerAddress.host →
      remoteHp.round ≤ 0xfc →
      ∃ bs, encodeHolepunchPayloadToBytes (replyHp serverFirewall localPunchAddrs peerAddress token remoteHp) = .ok bs ∧
        (localPunchAddrs.length ≤ 1048576 → decodeHolepunchPayloadFromBytes bs =
          .ok (replyHp serverFirewall localPunchAddrs peerAddress token remoteHp))) := by
  refine ⟨fun m hc hs => noisePayload_round_trip hc hs, fun m hc hs => holepunchPayload_round_trip hc hs, ?_⟩
  intro serverFirewall localPunchAddrs peerAddress token remoteHp haddrs hpeer hround
  have hc : (replyHp serverFirewall localPunchAddrs peerAddress token remoteHp).Canonical := by
    refine ⟨fun ps hps => ?_, fun p hp => ?_⟩
    · cases hps
      exact haddrs
    · cases hp
      exact hpeer
  obtain ⟨bs, -, -, hbytes, hdecode⟩ := holepunchPayload_round_trip hc
    (replyHp_small serverFirewall localPunchAddrs peerAddress token hround)
  refine ⟨bs, hbytes, fun hlen => hdecode fun ps hps => ?_⟩
  cases hps
  exact hlen

/-- A handshake payload with a list of addresses, and the reply to a first round. -/
theorem payload_round_trip_first :
    (∃ m : NoisePayload, m.addresses4 ≠ [] ∧ ∃ bs, encodeNoisePayloadToBytes m = .ok bs ∧
      decodeNoisePayloadFromBytes bs = .ok m) ∧ ∃ remoteHp : HolepunchPayload, remoteHp.round = 1 ∧ ∀ token, ∃ bs,
      encodeHolepunchPayloadToBytes (replyHp .consistent [⟨"127.0.0.1", 4000⟩] ⟨"10.0.0.1", 49737⟩ token remoteHp) =
        .ok bs := by
  have hlocal : Ipv4Host "127.0.0.1" := ⟨[127, 0, 0, 1], rfl, by decide⟩
  have hpeer : Ipv4Host "10.0.0.1" := ⟨[10, 0, 0, 1], rfl, by decide⟩
  obtain ⟨hnoise, -, hreply⟩ := payload_round_trip
  refine ⟨⟨⟨1, 0, 2, none, [⟨"10.0.0.1", 49737⟩], [], none, none, none, none⟩, by simp, ?_⟩,
    ⟨0, 0, 1, false, false, none, none, none, none⟩, rfl, fun token => ?_⟩
  · obtain ⟨bs, -, -, hbytes, hdecode⟩ := hnoise ⟨1, 0, 2, none, [⟨"10.0.0.1", 49737⟩], [], none, none, none, none⟩
      ⟨nofun, by simpa using hpeer, nofun, nofun⟩ ⟨(by decide : (0 : UInt64) ≤ 0xfc), (by decide : (2 : UInt64) ≤ 0xfc)⟩
    exact ⟨bs, hbytes, hdecode ⟨rfl, nofun, nofun, nofun⟩ ⟨nofun, by decide, by decide, nofun⟩⟩
  · obtain ⟨bs, hbytes, -⟩ := hreply .consistent [⟨"127.0.0.1", 4000⟩] ⟨"10.0.0.1", 49737⟩ token
      ⟨0, 0, 1, false, false, none, none, none, none⟩ (by simpa using hlocal) hpeer
      (by decide : (1 : UInt64) ≤ 0xfc)
    exact ⟨bs, hbytes⟩

/-- A payload of version 2 is written as one of version 1. -/
theorem payload_version_rewritten : let m : NoisePayload := ⟨2, 0, 0, none, [], [], none, none, none, none⟩
    m.Canonical ∧ encodeNoisePayloadToBytes m = .ok [1, 0, 0, 0] ∧
      decodeNoisePayloadFromBytes [1, 0, 0, 0] = .ok { m with version := 1 } := by
  exact ⟨⟨nofun, nofun, nofun, nofun⟩, rfl, rfl⟩

end Peeroxide.Dht
