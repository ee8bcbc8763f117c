import Peeroxide.Dht.HyperdhtMessages
import Peeroxide.Lib.Assoc
import Mathlib.Data.List.Sort

/-!
# Peers and handshake replies

* `PeerInfo` : what is known of a peer, with its `getPriority`; `retryDelay` : how long a failed dial waits;
* `HandshakeReplyCache` : the replies to handshakes that were answered, by the hash of the client's message.
-/

namespace Peeroxide.Swarm
open Lib Dht

abbrev PublicKey := Bytes32

abbrev Topic := Bytes32

/-! ## Peers -/

inductive Priority where
  | veryLow
  | low
  | normal
  | high
  | veryHigh
  deriving DecidableEq

/-- The number of a priority, by which priorities are compared. -/
def Priority.rank : Priority → Nat
  | veryLow => 0
  | low => 1
  | normal => 2
  | high => 3
  | veryHigh => 4

structure PeerInfo where
  publicKey : PublicKey
  relayAddresses : List Ipv4Peer
  reconnecting : Bool := false
  proven : Bool := false
  banned : Bool := false
  queued : Bool := false
  connecting : Bool := false
  topics : List Topic := []
  attempts : Nat := 0
  priority : Priority := .normal
  connectedAt : Option Nat := none
  waiting : Bool := false
  deriving DecidableEq

namespace PeerInfo

def getPriority (info : PeerInfo) : Priority :=
  match info.attempts with
  | 0 => .normal
  | 1 => if info.proven then .veryHigh else .normal
  | 2 => if info.proven then .high else .low
  | 3 => .low
  | _ => .veryLow

def connected (info : PeerInfo) (now : Nat) : PeerInfo := { info with reconnecting := false, connectedAt := some now }

end PeerInfo

/-- The base of a delay and the bounds of its three random parts, in milliseconds. -/
structure Backoff where
  base : Nat
  jitter : Nat × Nat × Nat

def BACKOFF_S : Backoff := ⟨1000, 250, 100, 50⟩
def BACKOFF_M : Backoff := ⟨5000, 1000, 500, 250⟩
def BACKOFF_L : Backoff := ⟨15000, 5000, 2500, 1000⟩
def BACKOFF_X : Backoff := ⟨600000, 60000, 30000, 15000⟩

def retryTier (info : PeerInfo) : Backoff :=
  match if info.proven then min info.attempts 3 else min (info.attempts + 1) 3 with
  | 0 => BACKOFF_S
  | 1 => BACKOFF_M
  | 2 => BACKOFF_L
  | _ => BACKOFF_X

/-- Each random part is a draw below its bound. -/
def retryDelay (info : PeerInfo) (draw : Nat × Nat × Nat) : Nat :=
  let tier := retryTier info
  tier.base + (draw.1 % tier.jitter.1 + draw.2.1 % tier.jitter.2.1 + draw.2.2 % tier.jitter.2.2)

/-! ## Handshake replies -/

structure HandshakeReplyCache where
  /-- Milliseconds. -/
  ttl : Nat
  capacity : Nat
  entries : AList fun _ : Bytes32 => ByteVec
  /-- When each entry was made, the oldest first. -/
  order : List (Nat × Bytes32)

namespace HandshakeReplyCache

def HANDSHAKE_REPLY_TTL : Nat := 20000
def HANDSHAKE_REPLY_CACHE_CAPACITY : Nat := 1024

def new (ttl capacity : Nat) : HandshakeReplyCache := ⟨ttl, capacity, ∅, []⟩

def prune.loop (ttl now : Nat) (entries : AList fun _ : Bytes32 => ByteVec) :
    List (Nat × Bytes32) → (AList fun _ : Bytes32 => ByteVec) × List (Nat × Bytes32)
  | [] => (entries, [])
  | (madeAt, key) :: order =>
    if now - madeAt < ttl then (entries, (madeAt, key) :: order)
    else prune.loop ttl now (entries.erase key) order

def prune (c : HandshakeReplyCache) (now : Nat) : HandshakeReplyCache :=
  let (entries, order) := prune.loop c.ttl now c.entries c.order
  { c with entries := if order = [] then ∅ else entries, order := order }

/-- Room for one more entry. -/
def evict.loop (capacity : Nat) (entries : AList fun _ : Bytes32 => ByteVec) :
    List (Nat × Bytes32) → (AList fun _ : Bytes32 => ByteVec) × List (Nat × Bytes32)
  | [] => (entries, [])
  | (madeAt, key) :: order =>
    if capacity ≤ entries.entries.length then evict.loop capacity (entries.erase key) order
    else (entries, (madeAt, key) :: order)

variable (hash : Bytes → Bytes32)

def get (c : HandshakeReplyCache) (now : Nat) (clientNoise : ByteVec) : Option ByteVec × HandshakeReplyCache :=
  let c := c.prune now
  (c.entries.lookup (hash clientNoise.1), c)

def insert (c : HandshakeReplyCache) (now : Nat) (clientNoise replyNoise : ByteVec) : HandshakeReplyCache :=
  let c := c.prune now
  let key := hash clientNoise.1
  if key ∈ c.entries ∨ c.capacity = 0 then c
  else
    let (entries, order) := evict.loop c.capacity c.entries c.order
    { c with entries := entries.insert key replyNoise, order := order ++ [(now, key)] }

end HandshakeReplyCache
end Peeroxide.Swarm
