import Peeroxide.Dht.Peer
import Peeroxide.Dht.RecordCache
import Peeroxide.Dht.RecordMessages

/-!
# The store of a node

What a node keeps for others: announcements by topic, self-announcements, and mutable and immutable values. A request is
handled at one reading of the clock. The hash and the check of signatures are given by a `Crypto`; which of several
equally old entries a full table loses is an input, one for each table.
-/

namespace Peeroxide.Dht
open Lib

def FIND_PEER : UInt64 := 2
def LOOKUP : UInt64 := 3
def ANNOUNCE : UInt64 := 4
def UNANNOUNCE : UInt64 := 5
def MUTABLE_PUT : UInt64 := 6
def MUTABLE_GET : UInt64 := 7
def IMMUTABLE_PUT : UInt64 := 8
def IMMUTABLE_GET : UInt64 := 9

def SEQ_REUSED : UInt64 := 16
def SEQ_TOO_LOW : UInt64 := 17
def MAX_RECORDS_PER_LOOKUP : Nat := 20
def MAX_RELAY_ADDRESSES : Nat := 3

/-! ## Signatures -/

/-- The hash of bytes, and whether a signature of a message is valid for a public key. -/
structure Crypto where
  hash : Bytes → Bytes32
  verifyDetached : Bytes64 → Bytes → Bytes32 → Bool

namespace Crypto
variable (crypto : Crypto)

def hashBatch (parts : List Bytes) : Bytes32 := crypto.hash parts.flatten

def namespaceOf (name : String) (id : UInt8) : Bytes32 :=
  crypto.hash ((crypto.hash name.toUTF8.data.toList).1 ++ [id])

def NS_ANNOUNCE : Bytes32 := crypto.namespaceOf "hyperswarm/dht" 4
def NS_UNANNOUNCE : Bytes32 := crypto.namespaceOf "hyperswarm/dht" 5
def NS_MUTABLE_PUT : Bytes32 := crypto.namespaceOf "hyperswarm/dht" 6

def annSignable (target token id : Bytes32) (peerEncoded refresh : Bytes) (ns : Bytes32) : Bytes :=
  ns.1 ++ (crypto.hashBatch [target.1, id.1, token.1, peerEncoded, refresh]).1

def mutableSignable (ns : Bytes32) (seq : UInt64) (value : ByteVec) : Bytes :=
  ns.1 ++ (crypto.hash (uintBytes seq ++ bufferBytes (some value))).1

end Crypto

/-! ## Keys -/

def toHex (bytes : Bytes32) : String := String.ofList (bytes.1.flatMap hexByte)

theorem toHex_injective : Function.Injective toHex := fun _ _ h =>
  Subtype.ext (flatMap_hexByte_injective (String.ofList_injective h))

/-! ## Values that expire -/

structure CacheEntry where
  value : Bytes
  insertedAt : Nat
  deriving DecidableEq

structure LruCache where
  entries : AList fun _ : String => CacheEntry
  maxSize : Nat
  maxAge : Nat

namespace LruCache

def new (maxSize maxAge : Nat) : LruCache := ⟨∅, maxSize, maxAge⟩

def get (c : LruCache) (now : Nat) (key : String) : Option Bytes :=
  (c.entries.lookup key).bind fun entry => if c.maxAge ≤ now - entry.insertedAt then none else some entry.value

/-- A full table loses an oldest entry, also when the key is known. -/
def makeRoom (c : LruCache) (tie : Nat) : LruCache :=
  if c.maxSize ≤ c.entries.entries.length then
    match Assoc.pickLeast (fun e => e.2.insertedAt) c.entries.entries tie with
    | some e => { c with entries := c.entries.erase e.1 }
    | none => c
  else c

def set (c : LruCache) (now tie : Nat) (key : String) (value : Bytes) : LruCache :=
  let c := c.makeRoom tie
  { c with entries := c.entries.insert key ⟨value, now⟩ }

def delete (c : LruCache) (key : String) : LruCache := { c with entries := c.entries.erase key }

def destroy (c : LruCache) : LruCache := { c with entries := ∅ }

def len (c : LruCache) : Nat := c.entries.entries.length

end LruCache

/-! ## The tables -/

structure PersistentConfig where
  maxRecords : Nat
  maxRecordAge : Nat
  maxPerKey : Nat
  maxLruSize : Nat
  maxLruAge : Nat

/-- Times are in milliseconds. -/
def PersistentConfig.default : PersistentConfig := ⟨65536, 1200000, 20, 65536, 1200000⟩

structure IncomingHyperRequest where
  command : UInt64
  target : Option NodeId
  token : Option Bytes32
  value : Option ByteVec
  fromPeer : Ipv4Peer
  id : Option NodeId
  deriving DecidableEq

inductive HandlerReply where
  | value (v : Option Bytes)
  | valueNoToken (v : Option Bytes)
  | error (code : UInt64)
  | silent
  deriving DecidableEq

structure RouterEntry where
  relay : Ipv4Peer
  record : Bytes
  deriving DecidableEq

inductive Table where
  | records
  | bumps
  | refreshes
  | mutables
  | immutables
  deriving DecidableEq

/-- What the clock reads while a request is handled, and how each table chooses between equally old entries. -/
structure Moment where
  now : Nat
  tie : Table → Nat

structure Persistent where
  records : RecordCache
  bumps : LruCache
  refreshes : LruCache
  mutables : LruCache
  immutables : LruCache
  router : AList fun _ : String => RouterEntry

namespace Persistent

def new (config : PersistentConfig) : Persistent where
  records := .new config.maxRecords config.maxRecordAge config.maxPerKey
  bumps := .new config.maxLruSize config.maxLruAge
  refreshes := .new config.maxLruSize config.maxLruAge
  mutables := .new config.maxLruSize config.maxLruAge
  immutables := .new config.maxLruSize config.maxLruAge
  router := ∅

/-! ## Finding -/

def onFindPeer (p : Persistent) (req : IncomingHyperRequest) : HandlerReply :=
  match req.target with
  | none => .silent
  | some target => .value ((p.router.lookup (toHex target)).map RouterEntry.record)

/-- The peers of a lookup: the records, and the self-announcement if there is room. -/
def lookupPeers (p : Persistent) (records : List Bytes) (target : NodeId) : List HyperPeer :=
  let peers := records.filterMap fun record => (decodeHyperPeerFromBytes record).toOption
  if peers.length < MAX_RECORDS_PER_LOOKUP then
    peers ++ ((p.router.lookup (toHex target)).bind fun entry => (decodeHyperPeerFromBytes entry.record).toOption).toList
  else peers

def lookupBump (p : Persistent) (now : Nat) (target : NodeId) : UInt64 :=
  ((p.bumps.get now (toHex target)).bind fun bytes => (parse decodeUint bytes).toOption).getD 0

def onLookup (p : Persistent) (m : Moment) (req : IncomingHyperRequest) : HandlerReply × Persistent :=
  match req.target with
  | none => (.silent, p)
  | some target =>
    let r := p.records.get m.now (toHex target) MAX_RECORDS_PER_LOOKUP
    let p := { p with records := r.2 }
    let peers := p.lookupPeers r.1 target
    let bump := p.lookupBump m.now target
    if peers.isEmpty && bump == 0 then (.value none, p)
    else (.value (encodeLookupRawReplyToBytes ⟨peers, bump⟩).toOption, p)

/-! ## Announcing -/

/-- The target, the message and the peer of a request that carries a valid signature of its peer. `peerOf` is where the
peer comes from. -/
def verified (crypto : Crypto) (ns nodeId : Bytes32) (req : IncomingHyperRequest)
    (peerOf : AnnounceMessage → Option HyperPeer) : Option (NodeId × AnnounceMessage × HyperPeer) := do
  let target ← req.target
  let token ← req.token
  let value ← req.value
  let msg ← (decodeAnnounceFromBytes value.1).toOption
  let peer ← peerOf msg
  let signature ← msg.signature
  let encoded ← (encodeHyperPeerToBytes peer).toOption
  let refresh := (msg.refresh.map Subtype.val).getD []
  if crypto.verifyDetached signature (crypto.annSignable target token nodeId encoded refresh ns) peer.publicKey then
    some (target, msg, peer)
  else none

/-- The peer of a message, or the one that was stored for its refresh token. -/
def announcedPeer (p : Persistent) (now : Nat) (msg : AnnounceMessage) : Option HyperPeer :=
  match msg.peer with
  | some peer => some peer
  | none =>
    ((msg.refresh.bind fun refresh => p.refreshes.get now (toHex refresh)).bind fun stored =>
      (decodeHyperPeerFromBytes stored).toOption)

def announceSelf (p : Persistent) (key : String) (publicKey : Bytes32) (relay : Ipv4Peer) (record : Bytes) : Persistent :=
  { p with router := p.router.insert key ⟨relay, record⟩, records := p.records.remove key publicKey }

def announceOther (p : Persistent) (m : Moment) (key : String) (publicKey : Bytes32) (bump : UInt64) (record : Bytes) :
    Persistent :=
  let p := { p with records := p.records.add m.now (m.tie .records) key publicKey record }
  if bump != 0 then { p with bumps := p.bumps.set m.now (m.tie .bumps) key (uintBytes bump) } else p

def keepRefresh (p : Persistent) (m : Moment) (refresh : Option Bytes32) (record : Bytes) : Persistent :=
  match refresh with
  | some refresh => { p with refreshes := p.refreshes.set m.now (m.tie .refreshes) (toHex refresh) record }
  | none => p

def onAnnounce (crypto : Crypto) (p : Persistent) (m : Moment) (req : IncomingHyperRequest) (nodeId : NodeId) :
    HandlerReply × Persistent :=
  match verified crypto crypto.NS_ANNOUNCE nodeId req (p.announcedPeer m.now) with
  | none => (.silent, p)
  | some (target, msg, peer) =>
    let storedPeer := { peer with relayAddresses := peer.relayAddresses.take MAX_RELAY_ADDRESSES }
    match encodeHyperPeerToBytes storedPeer with
    | .error _ => (.silent, p)
    | .ok encoded =>
      let p :=
        if crypto.hash storedPeer.publicKey.1 = target then
          p.announceSelf (toHex target) storedPeer.publicKey req.fromPeer encoded
        else p.announceOther m (toHex target) storedPeer.publicKey msg.bump encoded
      (.valueNoToken none, p.keepRefresh m msg.refresh encoded)

/-- The record of the signer goes, and the self-announcement of the target. -/
def onUnannounce (crypto : Crypto) (p : Persistent) (req : IncomingHyperRequest) (nodeId : NodeId) :
    HandlerReply × Persistent :=
  match verified crypto crypto.NS_UNANNOUNCE nodeId req AnnounceMessage.peer with
  | none => (.silent, p)
  | some (target, _, peer) =>
    (.valueNoToken none, { p with
      records := p.records.remove (toHex target) peer.publicKey
      router := p.router.erase (toHex target) })

/-! ## Values -/

/-- The target and the contents of a put that carries a valid signature of the key whose hash is the target. -/
def verifiedPut (crypto : Crypto) (req : IncomingHyperRequest) : Option (NodeId × MutablePutRequest) := do
  let target ← req.target
  let _token ← req.token
  let value ← req.value
  let put ← (decodeMutablePutRequestFromBytes value.1).toOption
  if crypto.hash put.publicKey.1 ≠ target then none
  else if crypto.verifyDetached put.signature (crypto.mutableSignable crypto.NS_MUTABLE_PUT put.seq put.value)
    put.publicKey then some (target, put)
  else none

def storedMutable (p : Persistent) (now : Nat) (target : NodeId) : Option MutableGetResponse :=
  (p.mutables.get now (toHex target)).bind fun bytes => (decodeMutableGetResponseFromBytes bytes).toOption

def onMutablePut (crypto : Crypto) (p : Persistent) (m : Moment) (req : IncomingHyperRequest) :
    HandlerReply × Persistent :=
  match verifiedPut crypto req with
  | none => (.silent, p)
  | some (target, put) =>
    if ∃ existing ∈ p.storedMutable m.now target, existing.seq = put.seq then (.error SEQ_REUSED, p)
    else if ∃ existing ∈ p.storedMutable m.now target, put.seq < existing.seq then (.error SEQ_TOO_LOW, p)
    else
      match encodeMutableGetResponseToBytes ⟨put.seq, put.value, put.signature⟩ with
      | .ok encoded =>
        (.value none, { p with mutables := p.mutables.set m.now (m.tie .mutables) (toHex target) encoded })
      | .error _ => (.silent, p)

/-- A sequence number that cannot be read counts as zero. -/
def requestedSeq (value : ByteVec) : UInt64 := (parse decodeUint value.1).toOption.getD 0

def onMutableGet (p : Persistent) (now : Nat) (req : IncomingHyperRequest) : HandlerReply :=
  match req.target, req.value with
  | some target, some value =>
    if ∃ stored ∈ p.storedMutable now target, requestedSeq value ≤ stored.seq then
      .value (p.mutables.get now (toHex target))
    else .value none
  | _, _ => .silent

def onImmutablePut (crypto : Crypto) (p : Persistent) (m : Moment) (req : IncomingHyperRequest) :
    HandlerReply × Persistent :=
  match req.target, req.token, req.value with
  | some target, some _, some value =>
    if crypto.hash value.1 ≠ target then (.silent, p)
    else
      (.value none, { p with immutables := p.immutables.set m.now (m.tie .immutables) (toHex target) value.1 })
  | _, _, _ => (.silent, p)

def onImmutableGet (p : Persistent) (now : Nat) (req : IncomingHyperRequest) : HandlerReply :=
  match req.target with
  | none => .silent
  | some target => .value (p.immutables.get now (toHex target))

/-! ## Dispatch -/

/-- A request that is not a handshake or a hole punch. Announcements are signed for the id of the node, which may not be
known. -/
def handle (crypto : Crypto) (p : Persistent) (m : Moment) (ownId : Option NodeId) (req : IncomingHyperRequest) :
    HandlerReply × Persistent :=
  if req.command = FIND_PEER then (p.onFindPeer req, p)
  else if req.command = LOOKUP then p.onLookup m req
  else if req.command = ANNOUNCE then
    match ownId with
    | some nodeId => p.onAnnounce crypto m req nodeId
    | none => (.silent, p)
  else if req.command = UNANNOUNCE then
    match ownId with
    | some nodeId => p.onUnannounce crypto req nodeId
    | none => (.silent, p)
  else if req.command = MUTABLE_PUT then p.onMutablePut crypto m req
  else if req.command = MUTABLE_GET then (p.onMutableGet m.now req, p)
  else if req.command = IMMUTABLE_PUT then p.onImmutablePut crypto m req
  else if req.command = IMMUTABLE_GET then (p.onImmutableGet m.now req, p)
  else (.silent, p)

end Persistent
end Peeroxide.Dht
