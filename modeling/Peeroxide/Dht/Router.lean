import Peeroxide.Dht.Peer
import Peeroxide.Dht.RecordMessages
import Mathlib.Data.List.AList

/-!
# The router of handshakes and hole punches

A node passes handshakes and hole punches on to the servers it knows a way to. The mode of a message says where it comes
from, and the table says where it goes. The clock is an input; the variants of the actions that the router never
takes are left out.
-/

namespace Peeroxide.Dht
open Lib

def PEER_HANDSHAKE : UInt64 := 0
def PEER_HOLEPUNCH : UInt64 := 1

def MODE_FROM_CLIENT : UInt64 := 0
def MODE_FROM_SERVER : UInt64 := 1
def MODE_FROM_RELAY : UInt64 := 2
def MODE_FROM_SECOND_RELAY : UInt64 := 3
def MODE_REPLY : UInt64 := 4

/-- Twenty minutes, in milliseconds. -/
def DEFAULT_FORWARD_TTL : Nat := 20 * 60 * 1000

inductive HandshakeAction where
  | forwardRequest (value : Bytes) (toPeer : Ipv4Peer)
  | replyTo (value : Bytes) (toPeer : Ipv4Peer)
  | handleLocally (msg : HandshakeMessage)
  | closerNodes
  | drop
  deriving DecidableEq

inductive HolepunchAction where
  | forwardRequest (value : Bytes) (toPeer : Ipv4Peer)
  | replyTo (value : Bytes) (toPeer : Ipv4Peer)
  | handleLocally (msg : HolepunchMessage) (peerAddress : Ipv4Peer)
  | drop
  deriving DecidableEq

structure ForwardEntry where
  relay : Option Ipv4Peer
  hasServer : Bool
  inserted : Nat
  deriving DecidableEq

structure Router where
  forwards : AList fun _ : NodeId => ForwardEntry
  ttl : Nat

namespace Router

def new : Router := ⟨∅, DEFAULT_FORWARD_TTL⟩

def set (r : Router) (target : NodeId) (entry : ForwardEntry) : Router :=
  { r with forwards := r.forwards.insert target entry }

/-- An entry of a server on this node does not expire. -/
def get (r : Router) (now : Nat) (target : NodeId) : Option ForwardEntry :=
  (r.forwards.lookup target).bind fun entry =>
    if !entry.hasServer && r.ttl < now - entry.inserted then none else some entry

def delete (r : Router) (target : NodeId) : Router := { r with forwards := r.forwards.erase target }

def isServer (r : Router) (now : Nat) (target : Option NodeId) : Bool :=
  (target.bind (r.get now)).any ForwardEntry.hasServer

def relayOf (r : Router) (now : Nat) (target : Option NodeId) : Option Ipv4Peer :=
  (target.bind (r.get now)).bind ForwardEntry.relay

def encodeClientHandshake (noise : ByteVec) (peerAddress relayAddress : Option Ipv4Peer) :
    Except (Fault EncodingError) Bytes :=
  encodeHandshakeToBytes ⟨MODE_FROM_CLIENT, noise, peerAddress, relayAddress⟩

def encodeClientHolepunch (id : UInt64) (payload : ByteVec) (peerAddress : Option Ipv4Peer) :
    Except (Fault EncodingError) Bytes :=
  encodeHolepunchMsgToBytes ⟨MODE_FROM_CLIENT, id, payload, peerAddress⟩

/-- A handshake that cannot be read is dropped, and so is one without noise bytes unless it is for this node. -/
def routeHandshake (r : Router) (now : Nat) (target : Option NodeId) (fromPeer : Ipv4Peer) (value : Bytes) :
    Except (Fault EncodingError) HandshakeAction :=
  match decodeHandshakeFromBytes value with
  | .error _ => .ok .drop
  | .ok hs =>
    if r.isServer now target then
      if hs.mode = MODE_FROM_CLIENT ∨ hs.mode = MODE_FROM_RELAY ∨ hs.mode = MODE_FROM_SECOND_RELAY then
        .ok (.handleLocally hs)
      else .ok .drop
    else if hs.mode = MODE_FROM_CLIENT then
      if hs.noise.1 = [] then .ok .drop
      else
        match hs.relayAddress.or (r.relayOf now target) with
        | some toPeer =>
          (encodeHandshakeToBytes ⟨MODE_FROM_RELAY, hs.noise, some fromPeer, none⟩).map (.forwardRequest · toPeer)
        | none => .ok .closerNodes
    else if hs.mode = MODE_FROM_RELAY then
      match r.relayOf now target with
      | none => .ok .drop
      | some toPeer =>
        if hs.noise.1 = [] then .ok .drop
        else
          (encodeHandshakeToBytes ⟨MODE_FROM_SECOND_RELAY, hs.noise, hs.peerAddress, some fromPeer⟩).map
            (.forwardRequest · toPeer)
    else if hs.mode = MODE_FROM_SERVER then
      match hs.peerAddress with
      | none => .ok .drop
      | some toPeer =>
        if hs.noise.1 = [] then .ok .drop
        else (encodeHandshakeToBytes ⟨MODE_REPLY, hs.noise, some fromPeer, none⟩).map (.replyTo · toPeer)
    else .ok .drop

def routeHolepunch (r : Router) (now : Nat) (target : Option NodeId) (fromPeer : Ipv4Peer) (value : Bytes) :
    Except (Fault EncodingError) HolepunchAction :=
  match decodeHolepunchMsgFromBytes value with
  | .error _ => .ok .drop
  | .ok hp =>
    if hp.mode = MODE_FROM_CLIENT then
      match hp.peerAddress.or (r.relayOf now target) with
      | none => .ok .drop
      | some toPeer =>
        (encodeHolepunchMsgToBytes ⟨MODE_FROM_RELAY, hp.id, hp.payload, some fromPeer⟩).map (.forwardRequest · toPeer)
    else if hp.mode = MODE_FROM_RELAY then
      if r.isServer now target then
        match hp.peerAddress with
        | none => .ok .drop
        | some peerAddress => .ok (.handleLocally hp peerAddress)
      else .ok .drop
    else if hp.mode = MODE_FROM_SERVER then
      match hp.peerAddress with
      | none => .ok .drop
      | some toPeer =>
        (encodeHolepunchMsgToBytes ⟨MODE_REPLY, hp.id, hp.payload, some fromPeer⟩).map (.replyTo · toPeer)
    else .ok .drop

/-! ## Entries -/

variable {r : Router} {target : NodeId} {entry : ForwardEntry} {now : Nat}

theorem lookup_of_get (h : r.get now target = some entry) : r.forwards.lookup target = some entry := by
  obtain ⟨stored, hlookup, hlive⟩ := Option.bind_eq_some_iff.mp h
  split at hlive
  · cases hlive
  · rw [hlookup, Option.some.inj hlive]

/-- Whether a node is the server for a target does not depend on the clock. -/
theorem isServer_eq (r : Router) (now : Nat) (target : NodeId) :
    r.isServer now (some target) = (r.forwards.lookup target).any ForwardEntry.hasServer := by
  unfold isServer get
  rw [Option.bind_some]
  cases r.forwards.lookup target with
  | none => rfl
  | some entry =>
    rw [Option.bind_some]
    split
    next hold =>
      rw [Bool.and_eq_true, Bool.not_eq_true'] at hold
      exact hold.1.symm
    · rfl

theorem isServer_clock (r : Router) (now now' : Nat) (target : Option NodeId) :
    r.isServer now target = r.isServer now' target := by
  cases target with
  | none => rfl
  | some target => rw [isServer_eq, isServer_eq]

/-! ## What becomes of a message -/

/-- What the router can do with a handshake that it can read. -/
inductive RoutedHandshake (r : Router) (now : Nat) (target : Option NodeId) (fromPeer : Ipv4Peer)
    (hs : HandshakeMessage) : HandshakeAction → Prop
  | drop : RoutedHandshake r now target fromPeer hs .drop
  | closerNodes : RoutedHandshake r now target fromPeer hs .closerNodes
  | handleLocally (hserver : r.isServer now target = true)
      (hmode : hs.mode = MODE_FROM_CLIENT ∨ hs.mode = MODE_FROM_RELAY ∨ hs.mode = MODE_FROM_SECOND_RELAY) :
      RoutedHandshake r now target fromPeer hs (.handleLocally hs)
  | fromClient {value : Bytes} {toPeer : Ipv4Peer} (hserver : r.isServer now target = false)
      (hmode : hs.mode = MODE_FROM_CLIENT) (hnoise : hs.noise.1 ≠ [])
      (hto : hs.relayAddress.or (r.relayOf now target) = some toPeer)
      (hvalue : encodeHandshakeToBytes ⟨MODE_FROM_RELAY, hs.noise, some fromPeer, none⟩ = .ok value) :
      RoutedHandshake r now target fromPeer hs (.forwardRequest value toPeer)
  | fromRelay {value : Bytes} {toPeer : Ipv4Peer} (hserver : r.isServer now target = false)
      (hmode : hs.mode = MODE_FROM_RELAY) (hnoise : hs.noise.1 ≠ []) (hto : r.relayOf now target = some toPeer)
      (hvalue : encodeHandshakeToBytes ⟨MODE_FROM_SECOND_RELAY, hs.noise, hs.peerAddress, some fromPeer⟩ = .ok value) :
      RoutedHandshake r now target fromPeer hs (.forwardRequest value toPeer)
  | fromServer {value : Bytes} {toPeer : Ipv4Peer} (hserver : r.isServer now target = false)
      (hmode : hs.mode = MODE_FROM_SERVER) (hnoise : hs.noise.1 ≠ []) (hto : hs.peerAddress = some toPeer)
      (hvalue : encodeHandshakeToBytes ⟨MODE_REPLY, hs.noise, some fromPeer, none⟩ = .ok value) :
      RoutedHandshake r now target fromPeer hs (.replyTo value toPeer)

theorem map_eq_ok {ε α β : Type} {x : Except ε α} {f : α → β} {b : β} : x.map f = .ok b ↔ ∃ a, x = .ok a ∧ f a = b := by
  cases x <;> simp [Except.map]

theorem routeHandshake_routed {target : Option NodeId} {fromPeer : Ipv4Peer} {value : Bytes} {hs : HandshakeMessage}
    {action : HandshakeAction} (hdecoded : decodeHandshakeFromBytes value = .ok hs)
    (h : r.routeHandshake now target fromPeer value = .ok action) :
    RoutedHandshake r now target fromPeer hs action := by
  rw [routeHandshake, hdecoded] at h
  dsimp only at h
  by_cases hserver : r.isServer now target = true
  · rw [if_pos hserver] at h
    split at h
    next hmode =>
      cases h
      exact .handleLocally hserver hmode
    · cases h
      exact .drop
  · rw [if_neg hserver] at h
    have hserver := Bool.eq_false_iff.mpr hserver
    split at h
    next hmode =>
      split at h
      · cases h
        exact .drop
      next hnoise =>
        split at h
        next toPeer hto =>
          obtain ⟨bytes, hvalue, rfl⟩ := map_eq_ok.mp h
          exact .fromClient hserver hmode hnoise hto hvalue
        · cases h
          exact .closerNodes
    · split at h
      next hmode =>
        split at h
        · cases h
          exact .drop
        next toPeer hto =>
          split at h
          · cases h
            exact .drop
          next hnoise =>
            obtain ⟨bytes, hvalue, rfl⟩ := map_eq_ok.mp h
            exact .fromRelay hserver hmode hnoise hto hvalue
      · split at h
        next hmode =>
          split at h
          · cases h
            exact .drop
          next toPeer hto =>
            split at h
            · cases h
              exact .drop
            next hnoise =>
              obtain ⟨bytes, hvalue, rfl⟩ := map_eq_ok.mp h
              exact .fromServer hserver hmode hnoise hto hvalue
        · cases h
          exact .drop

/-- What the router can do with a hole punch that it can read. -/
inductive RoutedHolepunch (r : Router) (now : Nat) (target : Option NodeId) (fromPeer : Ipv4Peer)
    (hp : HolepunchMessage) : HolepunchAction → Prop
  | drop : RoutedHolepunch r now target fromPeer hp .drop
  | fromClient {value : Bytes} {toPeer : Ipv4Peer} (hmode : hp.mode = MODE_FROM_CLIENT)
      (hto : hp.peerAddress.or (r.relayOf now target) = some toPeer)
      (hvalue : encodeHolepunchMsgToBytes ⟨MODE_FROM_RELAY, hp.id, hp.payload, some fromPeer⟩ = .ok value) :
      RoutedHolepunch r now target fromPeer hp (.forwardRequest value toPeer)
  | fromRelay {peerAddress : Ipv4Peer} (hserver : r.isServer now target = true) (hmode : hp.mode = MODE_FROM_RELAY)
      (hpeer : hp.peerAddress = some peerAddress) :
      RoutedHolepunch r now target fromPeer hp (.handleLocally hp peerAddress)
  | fromServer {value : Bytes} {toPeer : Ipv4Peer} (hmode : hp.mode = MODE_FROM_SERVER)
      (hto : hp.peerAddress = some toPeer)
      (hvalue : encodeHolepunchMsgToBytes ⟨MODE_REPLY, hp.id, hp.payload, some fromPeer⟩ = .ok value) :
      RoutedHolepunch r now target fromPeer hp (.replyTo value toPeer)

theorem routeHolepunch_routed {target : Option NodeId} {fromPeer : Ipv4Peer} {value : Bytes} {hp : HolepunchMessage}
    {action : HolepunchAction} (hdecoded : decodeHolepunchMsgFromBytes value = .ok hp)
    (h : r.routeHolepunch now target fromPeer value = .ok action) :
    RoutedHolepunch r now target fromPeer hp action := by
  rw [routeHolepunch, hdecoded] at h
  dsimp only at h
  split at h
  next hmode =>
    split at h
    · cases h
      exact .drop
    next toPeer hto =>
      obtain ⟨bytes, hvalue, rfl⟩ := map_eq_ok.mp h
      exact .fromClient hmode hto hvalue
  · split at h
    next hmode =>
      split at h
      next hserver =>
        split at h
        · cases h
          exact .drop
        next peerAddress hpeer =>
          cases h
          exact .fromRelay hserver hmode hpeer
      · cases h
        exact .drop
    · split at h
      next hmode =>
        split at h
        · cases h
          exact .drop
        next toPeer hto =>
          obtain ⟨bytes, hvalue, rfl⟩ := map_eq_ok.mp h
          exact .fromServer hmode hto hvalue
      · cases h
        exact .drop

end Router
end Peeroxide.Dht
