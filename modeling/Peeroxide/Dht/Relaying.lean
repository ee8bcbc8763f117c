import Peeroxide.Dht.Router

/-!
# Relayed handshakes and hole punches

A network of nodes that route with their tables. A client sends a handshake to some node; a node passes it on, answers
it, gives it to its own server, or refuses it. The mode counts the hops: a message from a client becomes one from a relay,
then one from a second relay, which is never passed on.

Main result: `messages_relayed`.
-/

namespace Peeroxide.Dht
open Lib Router

structure Packet where
  tid : UInt16
  src : Ipv4Peer
  dst : Ipv4Peer
  target : Option NodeId
  value : Bytes
  deriving DecidableEq

/-- What a node sends, or gives to its server, because of a request. -/
inductive Effect (μ : Type) where
  | request (p : Packet)
  | reply (tid : UInt16) (target : Option NodeId) (toPeer : Ipv4Peer) (value : Option Bytes)
  | error (tid : UInt16) (target : Option NodeId) (toPeer : Ipv4Peer) (code : UInt64)
  | server (msg : μ)

/-! ## Nodes -/

/-- A request is passed on, and answered, under the transaction id of the client. One that is dropped without an answer
gets the error `ERR_UNKNOWN_COMMAND`, as one does that cannot be read. -/
def handlePeerHandshake (r : Router) (now : Nat) (self : Ipv4Peer) (p : Packet) : Effect HandshakeMessage :=
  match r.routeHandshake now p.target p.src p.value with
  | .error _ => .error p.tid p.target p.src 1
  | .ok (.forwardRequest value toPeer) => .request ⟨p.tid, self, toPeer, p.target, value⟩
  | .ok (.replyTo value toPeer) => .reply p.tid p.target toPeer (some value)
  | .ok (.handleLocally msg) => .server msg
  | .ok .closerNodes => .reply p.tid p.target p.src none
  | .ok .drop => .error p.tid p.target p.src 1

def handlePeerHolepunch (r : Router) (now : Nat) (self : Ipv4Peer) (p : Packet) :
    Effect (HolepunchMessage × Ipv4Peer) :=
  match r.routeHolepunch now p.target p.src p.value with
  | .error _ => .error p.tid p.target p.src 1
  | .ok (.forwardRequest value toPeer) => .request ⟨p.tid, self, toPeer, p.target, value⟩
  | .ok (.replyTo value toPeer) => .reply p.tid p.target toPeer (some value)
  | .ok (.handleLocally msg peerAddress) => .server (msg, peerAddress)
  | .ok .drop => .error p.tid p.target p.src 1

/-- An answer goes back the way the request came: straight to a client, and to a relay as a request of its own. -/
def answer {μ : Type} (self : Ipv4Peer) (p : Packet) (mode : UInt64) : Option Bytes → Effect μ
  | none => .reply p.tid p.target p.src none
  | some value =>
    if mode = MODE_FROM_RELAY ∨ mode = MODE_FROM_SECOND_RELAY then .request ⟨p.tid, self, p.src, p.target, value⟩
    else .reply p.tid p.target p.src (some value)

def encodeServerHandshakeReply (inboundMode : UInt64) (peerAddress : Option Ipv4Peer) (noiseReply : ByteVec) :
    Option Bytes :=
  let m := if inboundMode = MODE_FROM_RELAY ∨ inboundMode = MODE_FROM_SECOND_RELAY then (MODE_FROM_SERVER, peerAddress)
    else (MODE_REPLY, none)
  (encodeHandshakeToBytes ⟨m.1, noiseReply, m.2, none⟩).toOption

def answerHandshake (self : Ipv4Peer) (p : Packet) (msg : HandshakeMessage) (noiseReply : ByteVec) :
    Effect HandshakeMessage :=
  answer self p msg.mode (encodeServerHandshakeReply msg.mode msg.peerAddress noiseReply)

def answerHolepunch (self : Ipv4Peer) (p : Packet) (msg : HolepunchMessage) (peerAddress : Ipv4Peer)
    (payload : ByteVec) : Effect (HolepunchMessage × Ipv4Peer) :=
  let mode := if msg.mode = MODE_FROM_RELAY ∨ msg.mode = MODE_FROM_SECOND_RELAY then MODE_FROM_SERVER else MODE_REPLY
  answer self p msg.mode (encodeHolepunchMsgToBytes ⟨mode, msg.id, payload, some peerAddress⟩).toOption

/-! ## Networks -/

/-- The nodes, the table of each at each hop, what its clock reads, where it is reached, and the address its requests
come from, at which it is reached too. -/
structure Network (ν : Type) where
  router : Nat → ν → Router
  clock : Nat → ν → Nat
  nodeAt : Ipv4Peer → Option ν
  sendsFrom : ν → Ipv4Peer
  reached : ∀ v, nodeAt (sendsFrom v) = some v
  host : ∀ v, Ipv4Host (sendsFrom v).host

namespace Network
variable {ν μ : Type}

/-- One hop: the node that the request arrives at, if there is one, passes it on. -/
def hop (net : Network ν) (handle : Router → Nat → Ipv4Peer → Packet → Effect μ) (k : Nat) (p : Packet) :
    Option Packet :=
  (net.nodeAt p.dst).bind fun v =>
    match handle (net.router k v) (net.clock k v) (net.sendsFrom v) p with
    | .request q => some q
    | _ => none

/-- The request after `k` hops, if it gets as far. -/
def journey (net : Network ν) (handle : Router → Nat → Ipv4Peer → Packet → Effect μ) (p : Packet) : Nat → Option Packet
  | 0 => some p
  | k + 1 => (net.journey handle p k).bind (net.hop handle k)

variable {net : Network ν} {handle : Router → Nat → Ipv4Peer → Packet → Effect μ} {p : Packet}

theorem journey_invariant {I : Nat → Packet → Prop} (hstart : I 0 p)
    (hhop : ∀ k p v q, I k p → net.nodeAt p.dst = some v →
      handle (net.router k v) (net.clock k v) (net.sendsFrom v) p = .request q → I (k + 1) q)
    {k : Nat} {q : Packet} (h : net.journey handle p k = some q) : I k q := by
  induction k generalizing q with
  | zero =>
    cases h
    exact hstart
  | succ k ih =>
    obtain ⟨p', hp', hq⟩ := Option.bind_eq_some_iff.mp h
    obtain ⟨v, hv, hmatch⟩ := Option.bind_eq_some_iff.mp hq
    split at hmatch
    next q' hrequest =>
      cases hmatch
      exact hhop k p' v _ (ih hp') hv hrequest
    · cases hmatch

/-! ## Handshakes -/

section Handshake
variable {r : Router} {now : Nat} {self client : Ipv4Peer} {q : Packet} {hs msg : HandshakeMessage} {k : Nat} {tid : UInt16}
  {target : Option NodeId} {noise : ByteVec}

def handshakeMode : Nat → UInt64
  | 0 => MODE_FROM_CLIENT
  | 1 => MODE_FROM_RELAY
  | _ => MODE_FROM_SECOND_RELAY

theorem handshakeMode_client (h : handshakeMode k = MODE_FROM_CLIENT) : k = 0 := by
  match k with
  | 0 => rfl
  | 1 => cases h
  | k + 2 => cases h

theorem handshakeMode_relay (h : handshakeMode k = MODE_FROM_RELAY) : k = 1 := by
  match k with
  | 0 => cases h
  | 1 => rfl
  | k + 2 => cases h

theorem handshakeMode_succ (k : Nat) :
    handshakeMode (k + 1) = MODE_FROM_RELAY ∨ handshakeMode (k + 1) = MODE_FROM_SECOND_RELAY := by
  cases k with
  | zero => exact .inl rfl
  | succ k => exact .inr rfl

theorem handlePeerHandshake_request (h : handlePeerHandshake r now self p = .request q) :
    ∃ value toPeer, r.routeHandshake now p.target p.src p.value = .ok (.forwardRequest value toPeer) ∧
      q = ⟨p.tid, self, toPeer, p.target, value⟩ := by
  unfold handlePeerHandshake at h
  split at h
  all_goals cases h
  rename_i value toPeer hroute
  exact ⟨value, toPeer, hroute, rfl⟩

theorem handlePeerHandshake_server (h : handlePeerHandshake r now self p = .server msg) :
    r.routeHandshake now p.target p.src p.value = .ok (.handleLocally msg) := by
  unfold handlePeerHandshake at h
  split at h
  all_goals cases h
  assumption

/-- What a handshake carries after `k` hops. -/
structure CarriesHandshake (net : Network ν) (client : Ipv4Peer) (tid : UInt16) (target : Option NodeId) (noise : ByteVec)
    (k : Nat) (p : Packet) : Prop where
  hops : k ≤ 2
  tid : p.tid = tid
  addressed : p.target = target
  source : Ipv4Host p.src.host
  message : ∃ hs : HandshakeMessage, decodeHandshakeFromBytes p.value = .ok hs ∧ hs.Canonical ∧ hs.noise = noise ∧
    hs.mode = handshakeMode k ∧ (k = 0 ∨ hs.peerAddress = some client)
  relay : k = 0 ∧ p.src = client ∨
    ∃ j w, k = j + 1 ∧ net.nodeAt p.src = some w ∧ ∀ now, (net.router j w).isServer now target = false

theorem CarriesHandshake.hop {v : ν} (h : CarriesHandshake net client tid target noise k p)
    (hq : handlePeerHandshake (net.router k v) (net.clock k v) (net.sendsFrom v) p = .request q) :
    CarriesHandshake net client tid target noise (k + 1) q := by
  obtain ⟨value, toPeer, hroute, rfl⟩ := handlePeerHandshake_request hq
  obtain ⟨hs, hdecoded, hcanonical, hnoise, hmode, hpeer⟩ := h.message
  have hrelay : (net.router k v).isServer (net.clock k v) p.target = false →
      ∃ j w, k + 1 = j + 1 ∧ net.nodeAt (net.sendsFrom v) = some w ∧
        ∀ now, (net.router j w).isServer now target = false := by
    intro hserver
    refine ⟨k, v, rfl, net.reached v, fun now => ?_⟩
    rw [← h.addressed, isServer_clock _ now (net.clock k v)]
    exact hserver
  cases routeHandshake_routed hdecoded hroute with
  | fromClient hserver hclient _ _ hvalue =>
    have hk := handshakeMode_client (hmode ▸ hclient)
    subst hk
    have hsrc : p.src = client := by
      obtain ⟨-, hsrc⟩ | ⟨j, w, hj, -⟩ := h.relay
      · exact hsrc
      · cases hj
    have hnext := HandshakeMessage.Canonical.ofPeer h.source MODE_FROM_RELAY hs.noise
    cases hvalue.symm.trans (encodeHandshake_ok hnext)
    exact ⟨by decide, h.tid, h.addressed, net.host v,
      ⟨_, decodeHandshake_bytes hnext, hnext, hnoise, rfl, .inr (congrArg some hsrc)⟩, .inr (hrelay hserver)⟩
  | fromRelay hserver hmoderelay _ _ hvalue =>
    have hk := handshakeMode_relay (hmode ▸ hmoderelay)
    subst hk
    have hpeer := hpeer.resolve_left Nat.one_ne_zero
    have hnext : HandshakeMessage.Canonical ⟨MODE_FROM_SECOND_RELAY, hs.noise, hs.peerAddress, some p.src⟩ :=
      ⟨hcanonical.peerAddress, fun a ha => Option.some.inj ha ▸ h.source⟩
    cases hvalue.symm.trans (encodeHandshake_ok hnext)
    exact ⟨by decide, h.tid, h.addressed, net.host v,
      ⟨_, decodeHandshake_bytes hnext, hnext, hnoise, rfl, .inr hpeer⟩, .inr (hrelay hserver)⟩

theorem CarriesHandshake.handled (h : CarriesHandshake net client tid target noise k p)
    (hserver : handlePeerHandshake r now self p = .server msg) :
    msg.noise = noise ∧ msg.mode = handshakeMode k ∧ (k = 0 ∨ msg.peerAddress = some client) := by
  obtain ⟨hs, hdecoded, -, hnoise, hmode, hpeer⟩ := h.message
  cases routeHandshake_routed hdecoded (handlePeerHandshake_server hserver) with
  | handleLocally => exact ⟨hnoise, hmode, hpeer⟩

theorem answerHandshake_relayed {noiseReply : ByteVec} (hclient : Ipv4Host client.host)
    (hmode : msg.mode = MODE_FROM_RELAY ∨ msg.mode = MODE_FROM_SECOND_RELAY) (hpeer : msg.peerAddress = some client) :
    answerHandshake self p msg noiseReply = .request ⟨p.tid, self, p.src, p.target,
      handshakeBytes ⟨MODE_FROM_SERVER, noiseReply, some client, none⟩⟩ := by
  rw [answerHandshake, encodeServerHandshakeReply, if_pos hmode, hpeer,
    encodeHandshake_ok (.ofPeer hclient _ _)]
  exact if_pos hmode

theorem handlePeerHandshake_answer {server : Ipv4Peer} {noiseReply : ByteVec} (hclient : Ipv4Host client.host)
    (hserver : Ipv4Host server.host) (hnoise : noiseReply.1 ≠ []) (hrelay : r.isServer now target = false)
    (relay : Ipv4Peer) : handlePeerHandshake r now self ⟨tid, server, relay, target,
      handshakeBytes ⟨MODE_FROM_SERVER, noiseReply, some client, none⟩⟩ =
        .reply tid target client (some (handshakeBytes ⟨MODE_REPLY, noiseReply, some server, none⟩)) := by
  rw [handlePeerHandshake, routeHandshake, decodeHandshake_bytes (.ofPeer hclient _ _)]
  dsimp only
  rw [hrelay, if_neg (by decide), if_neg (by decide), if_pos rfl, if_neg hnoise,
    encodeHandshake_ok (.ofPeer hserver _ _)]
  rfl

/-- How a handshake is relayed. -/
structure HandshakeRelayed (net : Network ν) (client : Ipv4Peer) (tid : UInt16) (target : Option NodeId) (noise : ByteVec)
    (sent : Nat → Option Packet) : Prop where
  hops : sent 3 = none
  carried : ∀ k p, sent k = some p → ∃ hs, decodeHandshakeFromBytes p.value = .ok hs ∧ hs.noise = noise
  handled : ∀ k p v msg, sent k = some p →
    handlePeerHandshake (net.router k v) (net.clock k v) (net.sendsFrom v) p = .server msg → msg.noise = noise
  address : ∀ k p v msg, sent (k + 1) = some p →
    handlePeerHandshake (net.router (k + 1) v) (net.clock (k + 1) v) (net.sendsFrom v) p = .server msg →
      msg.peerAddress = some client
  answered : ∀ k p v msg, sent (k + 1) = some p →
    handlePeerHandshake (net.router (k + 1) v) (net.clock (k + 1) v) (net.sendsFrom v) p = .server msg →
      ∀ noiseReply : ByteVec, noiseReply.1 ≠ [] → ∃ q w, net.nodeAt p.src = some w ∧ q.dst = p.src ∧
        answerHandshake (net.sendsFrom v) p msg noiseReply = .request q ∧
        decodeHandshakeFromBytes q.value = .ok ⟨MODE_FROM_SERVER, noiseReply, some client, none⟩ ∧
        ∀ now, ∃ reply, handlePeerHandshake (net.router k w) now (net.sendsFrom w) q =
            .reply tid target client (some reply) ∧
          decodeHandshakeFromBytes reply = .ok ⟨MODE_REPLY, noiseReply, some (net.sendsFrom v), none⟩

theorem handshakeRelayed (net : Network ν) (first : Ipv4Peer) (tid : UInt16) (target : Option NodeId)
    (hclient : Ipv4Host client.host) {m : HandshakeMessage} (hm : m.Canonical) (hmode : m.mode = MODE_FROM_CLIENT) :
    HandshakeRelayed net client tid target m.noise
      (net.journey handlePeerHandshake ⟨tid, client, first, target, handshakeBytes m⟩) := by
  set journey := net.journey handlePeerHandshake ⟨tid, client, first, target, handshakeBytes m⟩
  have hcarried : ∀ {k p}, journey k = some p → CarriesHandshake net client tid target m.noise k p := by
    refine journey_invariant ⟨Nat.zero_le _, rfl, rfl, hclient, ?_, .inl ⟨rfl, rfl⟩⟩ fun k p v q h _ hq => h.hop hq
    exact ⟨m, decodeHandshake_bytes hm, hm, rfl, hmode, .inl rfl⟩
  have haddress : ∀ {k p r now self msg}, journey (k + 1) = some p →
      handlePeerHandshake r now self p = .server msg → msg.peerAddress = some client :=
    fun {k} _ _ _ _ _ hp hserver => ((hcarried hp).handled hserver).2.2.resolve_left (Nat.succ_ne_zero k)
  refine ⟨?_, fun k p hp => ?_, fun k p v msg hp hserver => ((hcarried hp).handled hserver).1,
    fun k p v msg hp hserver => haddress hp hserver, fun k p v msg hp hserver noiseReply hne => ?_⟩
  · cases hthree : journey 3 with
    | none => rfl
    | some p => exact absurd (hcarried hthree).hops (by decide)
  · obtain ⟨hs, hdecoded, -, hnoise, -⟩ := (hcarried hp).message
    exact ⟨hs, hdecoded, hnoise⟩
  · obtain ⟨hzero, -⟩ | ⟨j, w, hj, hw, hnot⟩ := (hcarried hp).relay
    · cases hzero
    cases hj
    have hrelayed := (hcarried hp).handled hserver
    refine ⟨_, w, hw, rfl, answerHandshake_relayed hclient (hrelayed.2.1 ▸ handshakeMode_succ k) (haddress hp hserver),
      decodeHandshake_bytes (.ofPeer hclient _ _),
      fun now => ⟨_, ?_, decodeHandshake_bytes (.ofPeer (net.host v) _ _)⟩⟩
    rw [(hcarried hp).tid, (hcarried hp).addressed]
    exact handlePeerHandshake_answer hclient (net.host v) hne (hnot now) p.src

end Handshake

/-! ## Hole punches -/

section Holepunch
variable {r : Router} {now : Nat} {self client : Ipv4Peer} {q : Packet} {msg : HolepunchMessage} {peerAddress : Ipv4Peer}
  {k : Nat} {tid : UInt16} {target : Option NodeId} {id : UInt64} {payload : ByteVec}

def holepunchMode : Nat → UInt64
  | 0 => MODE_FROM_CLIENT
  | _ => MODE_FROM_RELAY

theorem host_of_some {peer : Ipv4Peer} (h : Ipv4Host peer.host) : ∀ a ∈ some peer, Ipv4Host a.host :=
  fun _ ha => Option.some.inj ha ▸ h

theorem handlePeerHolepunch_request (h : handlePeerHolepunch r now self p = .request q) :
    ∃ value toPeer, r.routeHolepunch now p.target p.src p.value = .ok (.forwardRequest value toPeer) ∧
      q = ⟨p.tid, self, toPeer, p.target, value⟩ := by
  unfold handlePeerHolepunch at h
  split at h
  all_goals cases h
  rename_i value toPeer hroute
  exact ⟨value, toPeer, hroute, rfl⟩

theorem handlePeerHolepunch_server (h : handlePeerHolepunch r now self p = .server (msg, peerAddress)) :
    r.routeHolepunch now p.target p.src p.value = .ok (.handleLocally msg peerAddress) := by
  unfold handlePeerHolepunch at h
  split at h
  all_goals cases h
  assumption

structure CarriesHolepunch (net : Network ν) (client : Ipv4Peer) (tid : UInt16) (target : Option NodeId) (id : UInt64)
    (payload : ByteVec) (k : Nat) (p : Packet) : Prop where
  hops : k ≤ 1
  tid : p.tid = tid
  addressed : p.target = target
  source : Ipv4Host p.src.host
  message : ∃ hp : HolepunchMessage, decodeHolepunchMsgFromBytes p.value = .ok hp ∧ hp.id = id ∧ hp.payload = payload ∧
    hp.mode = holepunchMode k ∧ (k = 0 ∨ hp.peerAddress = some client)
  sender : k = 0 → p.src = client
  relay : k ≠ 0 → ∃ w, net.nodeAt p.src = some w

theorem CarriesHolepunch.hop {v : ν} (h : CarriesHolepunch net client tid target id payload k p)
    (hq : handlePeerHolepunch (net.router k v) (net.clock k v) (net.sendsFrom v) p = .request q) :
    CarriesHolepunch net client tid target id payload (k + 1) q := by
  obtain ⟨value, toPeer, hroute, rfl⟩ := handlePeerHolepunch_request hq
  obtain ⟨hp, hdecoded, hid, hpayload, hmode, hpeer⟩ := h.message
  cases routeHolepunch_routed hdecoded hroute with
  | fromClient hclient _ hvalue =>
    have hk : k = 0 := by
      cases k with
      | zero => rfl
      | succ k => cases hmode.symm.trans hclient
    subst hk
    have hnext := host_of_some h.source
    cases hvalue.symm.trans (encodeHolepunch_ok hnext)
    exact ⟨Nat.le_refl 1, h.tid, h.addressed, net.host v,
      ⟨_, decodeHolepunch_bytes hnext, hid, hpayload, rfl, .inr (congrArg some (h.sender rfl))⟩, nofun,
      fun _ => ⟨v, net.reached v⟩⟩

theorem CarriesHolepunch.handled (h : CarriesHolepunch net client tid target id payload k p)
    (hserver : handlePeerHolepunch r now self p = .server (msg, peerAddress)) :
    msg.id = id ∧ msg.payload = payload ∧ msg.mode = MODE_FROM_RELAY ∧ k ≠ 0 ∧ peerAddress = client := by
  obtain ⟨hp, hdecoded, hid, hpayload, hmode, hpeer⟩ := h.message
  cases routeHolepunch_routed hdecoded (handlePeerHolepunch_server hserver) with
  | fromRelay _ hrelay haddress =>
    have hk : k ≠ 0 := by
      rintro rfl
      cases hmode.symm.trans hrelay
    exact ⟨hid, hpayload, hrelay, hk, Option.some.inj (haddress.symm.trans (hpeer.resolve_left hk))⟩

/-- How a hole punch is relayed. -/
structure HolepunchRelayed (net : Network ν) (client : Ipv4Peer) (tid : UInt16) (target : Option NodeId) (id : UInt64)
    (payload : ByteVec) (sent : Nat → Option Packet) : Prop where
  hops : sent 2 = none
  carried : ∀ k p, sent k = some p →
    ∃ hp, decodeHolepunchMsgFromBytes p.value = .ok hp ∧ hp.id = id ∧ hp.payload = payload
  handled : ∀ k p v msg peerAddress, sent k = some p →
    handlePeerHolepunch (net.router k v) (net.clock k v) (net.sendsFrom v) p = .server (msg, peerAddress) →
      msg.id = id ∧ msg.payload = payload ∧ peerAddress = client
  answered : ∀ k p v msg peerAddress, sent k = some p →
    handlePeerHolepunch (net.router k v) (net.clock k v) (net.sendsFrom v) p = .server (msg, peerAddress) →
      ∀ payloadReply : ByteVec, ∃ q w, net.nodeAt p.src = some w ∧ q.dst = p.src ∧
        answerHolepunch (net.sendsFrom v) p msg peerAddress payloadReply = .request q ∧
        decodeHolepunchMsgFromBytes q.value = .ok ⟨MODE_FROM_SERVER, id, payloadReply, some client⟩ ∧
        ∀ r now, ∃ reply, handlePeerHolepunch r now (net.sendsFrom w) q = .reply tid target client (some reply) ∧
          decodeHolepunchMsgFromBytes reply = .ok ⟨MODE_REPLY, id, payloadReply, some (net.sendsFrom v)⟩

theorem answerHolepunch_relayed {payloadReply : ByteVec} (hclient : Ipv4Host client.host)
    (hmode : msg.mode = MODE_FROM_RELAY) :
    answerHolepunch self p msg client payloadReply = .request ⟨p.tid, self, p.src, p.target,
      holepunchBytes ⟨MODE_FROM_SERVER, msg.id, payloadReply, some client⟩⟩ := by
  rw [answerHolepunch, if_pos (.inl hmode), encodeHolepunch_ok (host_of_some hclient)]
  exact if_pos (.inl hmode)

theorem handlePeerHolepunch_answer {server : Ipv4Peer} {payloadReply : ByteVec} (hclient : Ipv4Host client.host)
    (hserver : Ipv4Host server.host) (relay : Ipv4Peer) : handlePeerHolepunch r now self ⟨tid, server, relay, target,
      holepunchBytes ⟨MODE_FROM_SERVER, id, payloadReply, some client⟩⟩ =
        .reply tid target client (some (holepunchBytes ⟨MODE_REPLY, id, payloadReply, some server⟩)) := by
  rw [handlePeerHolepunch, routeHolepunch, decodeHolepunch_bytes (host_of_some hclient)]
  dsimp only
  rw [if_neg (by decide), if_pos rfl, encodeHolepunch_ok (host_of_some hserver)]
  rfl

theorem holepunchRelayed (net : Network ν) (first : Ipv4Peer) (tid : UInt16) (target : Option NodeId)
    (hclient : Ipv4Host client.host) {m : HolepunchMessage} (hm : ∀ a ∈ m.peerAddress, Ipv4Host a.host)
    (hmode : m.mode = MODE_FROM_CLIENT) : HolepunchRelayed net client tid target m.id m.payload
      (net.journey handlePeerHolepunch ⟨tid, client, first, target, holepunchBytes m⟩) := by
  set journey := net.journey handlePeerHolepunch ⟨tid, client, first, target, holepunchBytes m⟩
  have hcarried : ∀ {k p}, journey k = some p → CarriesHolepunch net client tid target m.id m.payload k p := by
    refine journey_invariant ⟨Nat.zero_le _, rfl, rfl, hclient, ?_, fun _ => rfl, fun h => absurd rfl h⟩
      fun k p v q h _ hq => h.hop hq
    exact ⟨m, decodeHolepunch_bytes hm, rfl, rfl, hmode, .inl rfl⟩
  refine ⟨?_, fun k p hp => ?_, fun k p v msg a hp hserver => ?_, fun k p v msg a hp hserver payloadReply => ?_⟩
  · cases htwo : journey 2 with
    | none => rfl
    | some p => exact absurd (hcarried htwo).hops (by decide)
  · obtain ⟨hp', hdecoded, hid, hpayload, -⟩ := (hcarried hp).message
    exact ⟨hp', hdecoded, hid, hpayload⟩
  · obtain ⟨hid, hpayload, -, -, haddress⟩ := (hcarried hp).handled hserver
    exact ⟨hid, hpayload, haddress⟩
  · obtain ⟨hid, -, hrelay, hk, rfl⟩ := (hcarried hp).handled hserver
    obtain ⟨w, hw⟩ := (hcarried hp).relay hk
    refine ⟨_, w, hw, rfl, answerHolepunch_relayed hclient hrelay, ?_,
      fun r now => ⟨_, ?_, decodeHolepunch_bytes (host_of_some (net.host v))⟩⟩
    · rw [hid]
      exact decodeHolepunch_bytes (host_of_some hclient)
    · rw [(hcarried hp).tid, (hcarried hp).addressed, hid]
      exact handlePeerHolepunch_answer hclient (net.host v) p.src

end Holepunch

/-- **Whatever the tables of the nodes are, at every hop: a handshake of a client is passed on at most twice and a hole
punch at most once, they arrive as they were sent, a server reached by a relay is told the address of the client, and
its answer makes the last relay send one reply to the client.** -/
theorem messages_relayed (net : Network ν) (client first : Ipv4Peer) (hclient : Ipv4Host client.host) (tid : UInt16)
    (target : Option NodeId) : (∀ noise peerAddress relayAddress value, (∀ a ∈ peerAddress, Ipv4Host a.host) →
      (∀ a ∈ relayAddress, Ipv4Host a.host) → encodeClientHandshake noise peerAddress relayAddress = .ok value →
      HandshakeRelayed net client tid target noise
        (net.journey handlePeerHandshake ⟨tid, client, first, target, value⟩)) ∧
    (∀ id payload peerAddress value, (∀ a ∈ peerAddress, Ipv4Host a.host) →
      encodeClientHolepunch id payload peerAddress = .ok value → HolepunchRelayed net client tid target id payload
        (net.journey handlePeerHolepunch ⟨tid, client, first, target, value⟩)) := by
  refine ⟨fun noise peerAddress relayAddress value hpeer hrelay hvalue => ?_,
    fun id payload peerAddress value hpeer hvalue => ?_⟩
  · have hm : HandshakeMessage.Canonical ⟨MODE_FROM_CLIENT, noise, peerAddress, relayAddress⟩ := ⟨hpeer, hrelay⟩
    cases hvalue.symm.trans (encodeHandshake_ok hm)
    exact handshakeRelayed net first tid target hclient hm rfl
  · have hm : ∀ a ∈ (HolepunchMessage.mk MODE_FROM_CLIENT id payload peerAddress).peerAddress, Ipv4Host a.host := hpeer
    cases hvalue.symm.trans (encodeHolepunch_ok hm)
    exact holepunchRelayed net first tid target hclient hm rfl

/-- A relay that knows the server of the target 0, and the server. -/
def pair : Network Bool where
  router _ v := Router.new.set (.fill 0)
    (if v then ⟨none, true, 0⟩ else ⟨some ⟨"10.0.0.2", 2⟩, false, 0⟩)
  clock _ _ := 0
  nodeAt a := if a = ⟨"10.0.0.1", 1⟩ then some false else if a = ⟨"10.0.0.2", 2⟩ then some true else none
  sendsFrom v := if v then ⟨"10.0.0.2", 2⟩ else ⟨"10.0.0.1", 1⟩
  reached v := by cases v <;> decide
  host v := by
    cases v with
    | false => exact ⟨[10, 0, 0, 1], rfl, by decide⟩
    | true => exact ⟨[10, 0, 0, 2], rfl, by decide⟩

/-- A handshake and a hole punch that the relay passes on to the server. -/
theorem messages_relayed_pair : let client : Ipv4Peer := ⟨"10.0.0.3", 3⟩
    let target : Option NodeId := some (.fill 0)
    let noise : ByteVec := ⟨[7], by decide⟩
    let handshake := pair.journey handlePeerHandshake ⟨5, client, ⟨"10.0.0.1", 1⟩, target,
      handshakeBytes ⟨MODE_FROM_CLIENT, noise, none, none⟩⟩
    let holepunch := pair.journey handlePeerHolepunch ⟨5, client, ⟨"10.0.0.1", 1⟩, target,
      holepunchBytes ⟨MODE_FROM_CLIENT, 9, noise, none⟩⟩
    (handshake 1).map Packet.dst = some ⟨"10.0.0.2", 2⟩ ∧ (holepunch 1).map Packet.dst = some ⟨"10.0.0.2", 2⟩ ∧
      HandshakeRelayed pair client 5 target noise handshake ∧ HolepunchRelayed pair client 5 target 9 noise holepunch := by
  intro client target noise handshake holepunch
  have hclient : Ipv4Host client.host := ⟨[10, 0, 0, 3], rfl, by decide⟩
  have hrelayed := messages_relayed pair client ⟨"10.0.0.1", 1⟩ hclient 5 target
  refine ⟨by decide +kernel, by decide +kernel, hrelayed.1 noise none none _ nofun nofun ?_,
    hrelayed.2 9 noise none _ nofun ?_⟩
  · exact encodeHandshake_ok ⟨nofun, nofun⟩
  · exact encodeHolepunch_ok nofun

end Network
end Peeroxide.Dht
