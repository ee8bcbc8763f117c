import Peeroxide.Dht.Authority
import Peeroxide.Dht.Router

/-!
# Where handshakes are forwarded to

The requests of a node change two tables: the store, and the router that handshakes are forwarded by. An ANNOUNCE that
the store answers sets the router's entry for its target, whoever signed it.

Main result: `forwarding_authority`.
-/

namespace Peeroxide.Dht
open Lib Persistent AList

structure HyperNode where
  storage : Persistent
  router : Router

namespace HyperNode

def new (config : PersistentConfig) : HyperNode := ⟨.new config, .new⟩

inductive Event where
  | request (a : Arrival)
  | registerServer (now : Nat) (target : NodeId)
  | unregisterServer (target : NodeId)

/-- An ANNOUNCE was answered: requests for its target go to its source from now on, if there is no server here. -/
def forwardAnnounce (r : Router) (now : Nat) (req : IncomingHyperRequest) (reply : HandlerReply) : Router :=
  match reply, req.target with
  | .silent, _ => r
  | _, none => r
  | _, some target => if r.isServer now (some target) then r else r.set target ⟨some req.fromPeer, false, now⟩

/-- Handshakes and hole punches change neither table. -/
def handleRequest (crypto : Crypto) (n : HyperNode) (a : Arrival) : HyperNode :=
  if a.req.command = PEER_HANDSHAKE ∨ a.req.command = PEER_HOLEPUNCH then n
  else
    let r := n.storage.handle crypto a.moment a.ownId a.req
    { storage := r.2
      router := if a.req.command = ANNOUNCE then forwardAnnounce n.router a.moment.now a.req r.1 else n.router }

def step (crypto : Crypto) (n : HyperNode) : Event → HyperNode
  | .request a => n.handleRequest crypto a
  | .registerServer now target => { n with router := n.router.set target ⟨none, true, now⟩ }
  | .unregisterServer target => { n with router := n.router.delete target }

/-! ## Authority -/

/-- An ANNOUNCE for `target` that is validly signed by `key`; the peer it carries, if any, is the signer. -/
structure AnnouncedBy (crypto : Crypto) (a : Arrival) (target : NodeId) (key : Bytes32) : Prop where
  command : a.req.command = ANNOUNCE
  signed : ∃ nodeId ∈ a.ownId, ∃ msg peer, SignedBy crypto crypto.NS_ANNOUNCE nodeId a.req target msg peer ∧
    (msg.peer = none ∨ msg.peer = some peer) ∧ peer.publicKey = key

/-- An ANNOUNCE for the hash of a key that has no server here is signed by this key. -/
def AnnouncesOwn (crypto : Crypto) (n : HyperNode) : Event → Prop
  | .request a => ∀ key peer, Announces crypto n.storage a (crypto.hash key.1) peer →
      n.router.isServer a.moment.now (some (crypto.hash key.1)) = false → peer.publicKey = key
  | _ => True

/-- An ANNOUNCE of another key leaves the entry for the hash of a key as it is. -/
def KeepsEntry (crypto : Crypto) (n : HyperNode) : Event → Prop
  | .request a => ∀ key peer, Announces crypto n.storage a (crypto.hash key.1) peer → peer.publicKey ≠ key →
      (n.step crypto (.request a)).router.forwards.lookup (crypto.hash key.1) =
        n.router.forwards.lookup (crypto.hash key.1)
  | _ => True

/-- One of the events is an ANNOUNCE for the hash of a key that the key signed and that came from `relay`. -/
def AnnouncedFrom (crypto : Crypto) (events : List Event) (key : Bytes32) (relay : Ipv4Peer) : Prop :=
  ∃ a, .request a ∈ events ∧ a.req.fromPeer = relay ∧ AnnouncedBy crypto a (crypto.hash key.1) key

/-- Every relay for the hash of a key is the source of an ANNOUNCE for it that this key signed. -/
def RelaysOwn (crypto : Crypto) (events : List Event) (n : HyperNode) : Prop :=
  ∀ key entry relay, n.router.forwards.lookup (crypto.hash key.1) = some entry → entry.relay = some relay →
    AnnouncedFrom crypto events key relay

/-! ## One step -/

variable {crypto : Crypto} {n : HyperNode} {a : Arrival} {events : List Event}

/-- The signer of an ANNOUNCE is the peer it carries, or the one stored for its refresh token. -/
theorem announcedBy_of_announces {p : Persistent} {target : NodeId} {peer : HyperPeer}
    (h : Announces crypto p a target peer) : AnnouncedBy crypto a target peer.publicKey := by
  obtain ⟨nodeId, hown, msg, hsigned, hpeer⟩ := h.signed
  refine ⟨h.command, nodeId, hown, msg, peer, hsigned, ?_, rfl⟩
  cases hmsg : msg.peer with
  | none => exact .inl rfl
  | some carried =>
    rw [announcedPeer, hmsg] at hpeer
    exact .inr hpeer

theorem lookup_handleRequest (crypto : Crypto) (n : HyperNode) (a : Arrival) (target : NodeId) :
    (n.handleRequest crypto a).router.forwards.lookup target = n.router.forwards.lookup target ∨
      (∃ peer, Announces crypto n.storage a target peer) ∧ n.router.isServer a.moment.now (some target) = false ∧
        (n.handleRequest crypto a).router.forwards.lookup target = some ⟨some a.req.fromPeer, false, a.moment.now⟩ := by
  unfold handleRequest
  split_ifs with hroute hann
  · exact .inl rfl
  · unfold forwardAnnounce
    dsimp only
    split
    · exact .inl rfl
    · exact .inl rfl
    next t htarget hanswered =>
      split_ifs with hserver
      · exact .inl rfl
      · obtain ⟨t', peer, hsigned⟩ := announces_of_answered hann hanswered
        obtain ⟨nodeId, -, msg, hby, -⟩ := hsigned.signed
        have hsame : t' = t := Option.some.inj (hby.addressed.symm.trans htarget)
        subst hsame
        by_cases hkey : target = t'
        · subst hkey
          exact .inr ⟨⟨peer, hsigned⟩, Bool.eq_false_iff.mpr hserver, lookup_insert _⟩
        · exact .inl (lookup_insert_ne hkey)
  · exact .inl rfl

theorem RelaysOwn.mono {more : List Event} (h : RelaysOwn crypto events n) (hsub : events ⊆ more) :
    RelaysOwn crypto more n := by
  intro key entry relay hlookup hrelay
  obtain ⟨a, ha, hsource, hby⟩ := h key entry relay hlookup hrelay
  exact ⟨a, hsub ha, hsource, hby⟩

/-- One step: an entry that is new comes from the ANNOUNCE of its key, one of a server has no relay. -/
theorem RelaysOwn.step {e : Event} (h : RelaysOwn crypto events n) (hown : AnnouncesOwn crypto n e) :
    RelaysOwn crypto (events ++ [e]) (n.step crypto e) := by
  have hpast := h.mono (List.subset_append_left events [e])
  intro key entry relay hlookup hrelay
  cases e with
  | request a =>
    obtain hsame | ⟨⟨peer, hsigned⟩, hserver, hset⟩ := lookup_handleRequest crypto n a (crypto.hash key.1)
    · exact hpast key entry relay (hsame.symm.trans hlookup) hrelay
    · have hentry : entry = ⟨some a.req.fromPeer, false, a.moment.now⟩ := Option.some.inj (hlookup.symm.trans hset)
      rw [hentry] at hrelay
      refine ⟨a, List.mem_append_right _ (List.mem_singleton_self _), Option.some.inj hrelay, ?_⟩
      rw [← hown key peer hsigned hserver]
      exact announcedBy_of_announces (hown key peer hsigned hserver ▸ hsigned)
  | registerServer now target =>
    by_cases hkey : crypto.hash key.1 = target
    · have hset : (n.router.set target ⟨none, true, now⟩).forwards.lookup (crypto.hash key.1) =
          some ⟨none, true, now⟩ := by
        rw [hkey]
        exact lookup_insert _
      rw [Option.some.inj (hlookup.symm.trans hset)] at hrelay
      cases hrelay
    · exact hpast key entry relay ((lookup_insert_ne hkey).symm.trans hlookup) hrelay
  | unregisterServer target =>
    by_cases hkey : crypto.hash key.1 = target
    · have hgone : (n.router.delete target).forwards.lookup (crypto.hash key.1) = none := by
        rw [hkey]
        exact lookup_erase _ _
      cases hlookup.symm.trans hgone
    · exact hpast key entry relay ((lookup_erase_ne hkey).symm.trans hlookup) hrelay

theorem keepsEntry_of_announcesOwn (n : HyperNode) (e : Event) (hown : AnnouncesOwn crypto n e) :
    KeepsEntry crypto n e := by
  cases e with
  | request a =>
    intro key peer hsigned hother
    obtain hsame | ⟨⟨peer', hsigned'⟩, hserver, -⟩ := lookup_handleRequest crypto n a (crypto.hash key.1)
    · exact hsame
    · have hpeer := (hsigned'.unique hsigned).2
      exact absurd (hpeer ▸ hown key peer' hsigned' hserver) hother
  | registerServer now target => trivial
  | unregisterServer target => trivial

/-! ## Runs -/

theorem RelaysOwn.run {later : List Event} (h : RelaysOwn crypto events n)
    (hown : Along (HyperNode.step crypto) (AnnouncesOwn crypto) n later) :
    RelaysOwn crypto (events ++ later) (Lib.run (HyperNode.step crypto) n later) := by
  induction later generalizing n events with
  | nil => rwa [List.append_nil]
  | cons e later ih =>
    have hnext := ih (h.step hown.1) hown.2
    rwa [List.append_assoc] at hnext

theorem relayOf_of_forwarded {r : Router} {now : Nat} {target : Option NodeId} {fromPeer toPeer : Ipv4Peer}
    {value forwarded : Bytes} {hs : HandshakeMessage} (hdecoded : decodeHandshakeFromBytes value = .ok hs)
    (hrelay : hs.relayAddress = none)
    (h : r.routeHandshake now target fromPeer value = .ok (.forwardRequest forwarded toPeer)) :
    r.relayOf now target = some toPeer := by
  cases Router.routeHandshake_routed hdecoded h with
  | fromClient _ _ _ hto _ => rwa [hrelay] at hto
  | fromRelay _ _ _ hto _ => exact hto

/-- **In a run in which every ANNOUNCE for the hash of a key without a server here is signed by this key, the entries for
the hash of a key, and the handshakes that are forwarded by them, lead to the source of an ANNOUNCE of the key itself,
and no ANNOUNCE of another key sets or replaces them.** -/
theorem forwarding_authority (crypto : Crypto) (config : PersistentConfig) (events : List Event)
    (hown : Along (step crypto) (AnnouncesOwn crypto) (new config) events) :
    let n := run (step crypto) (new config) events
    (∀ key now entry relay, n.router.get now (crypto.hash key.1) = some entry → entry.relay = some relay →
      AnnouncedFrom crypto events key relay) ∧
    (∀ (key : Bytes32) now fromPeer value hs forwarded toPeer, decodeHandshakeFromBytes value = .ok hs →
      hs.relayAddress = none →
      n.router.routeHandshake now (some (crypto.hash key.1)) fromPeer value = .ok (.forwardRequest forwarded toPeer) →
      AnnouncedFrom crypto events key toPeer) ∧
    Along (step crypto) (KeepsEntry crypto) (new config) events := by
  intro n
  have hstart : RelaysOwn crypto [] (new config) := fun _ _ _ hlookup => (nomatch hlookup)
  have hrelays : RelaysOwn crypto events n := hstart.run hown
  refine ⟨?_, ?_, hown.imp keepsEntry_of_announcesOwn⟩
  · intro key now entry relay hget hrelay
    exact hrelays key entry relay (Router.lookup_of_get hget) hrelay
  · intro key now fromPeer value hs forwarded toPeer hdecoded hnone hforward
    obtain ⟨entry, hget, hrelay⟩ := Option.bind_eq_some_iff.mp (relayOf_of_forwarded hdecoded hnone hforward)
    exact hrelays key entry toPeer (Router.lookup_of_get hget) hrelay

/-! ## Two nodes that announce -/

/-- The key 1 announces itself, and is found where it announced. -/
theorem forwarding_authority_own : let peer : Ipv4Peer := ⟨"10.0.0.1", 1⟩
    let events := [Event.request (plainArrival ANNOUNCE plain.NS_ANNOUNCE (smallKey 1) (smallKey 1) peer)]
    (run (step plain) (new .default) events).router.get 0 (smallKey 1) = some ⟨some peer, false, 0⟩ ∧
      AnnouncedFrom plain events (smallKey 1) peer := by
  intro peer events
  have hget : (run (step plain) (new .default) events).router.get 0 (smallKey 1) = some ⟨some peer, false, 0⟩ := by
    decide +kernel
  have hown : Along (step plain) (AnnouncesOwn plain) (new .default) events := by
    refine ⟨fun key signer hsigned _ => ?_, trivial⟩
    obtain ⟨htarget, rfl⟩ := hsigned.unique ⟨rfl, zeroKey, rfl, _, plainArrival_signed .., rfl⟩
    rw [plain_hash] at htarget
    exact htarget
  have hrun := (forwarding_authority plain .default events hown).1 (smallKey 1) 0 ⟨some peer, false, 0⟩ peer
  exact ⟨hget, hrun hget rfl⟩

/-- The key 2 announces itself under the hash of the key 1: handshakes for the key 1 go to the key 2, although the key 1
never announced. -/
theorem forwarded_to_another_key : let peer : Ipv4Peer := ⟨"10.0.0.2", 2⟩
    let client : Ipv4Peer := ⟨"10.0.0.3", 3⟩
    let events := [Event.request (plainArrival ANNOUNCE plain.NS_ANNOUNCE (smallKey 1) (smallKey 2) peer)]
    let n := run (step plain) (new .default) events
    plain.hash (smallKey 1).1 = smallKey 1 ∧ n.router.get 0 (smallKey 1) = some ⟨some peer, false, 0⟩ ∧
      n.router.routeHandshake 0 (some (smallKey 1)) client
          (handshakeBytes ⟨MODE_FROM_CLIENT, ⟨[7], by decide⟩, none, none⟩) =
        .ok (.forwardRequest (handshakeBytes ⟨MODE_FROM_RELAY, ⟨[7], by decide⟩, some client, none⟩) peer) ∧
      ¬ AnnouncedFrom plain events (smallKey 1) peer := by
  intro peer client events n
  refine ⟨plain_hash _, by decide +kernel, by decide +kernel, ?_⟩
  rintro ⟨a, ha, -, hby⟩
  obtain rfl : a = _ := Event.request.inj (List.mem_singleton.mp ha)
  obtain ⟨nodeId, -, msg, signer, hsigned, hcarried, hkey⟩ := hby.signed
  obtain ⟨-, rfl⟩ := (plainArrival_signed ANNOUNCE plain.NS_ANNOUNCE (smallKey 1) (smallKey 2) peer).unique hsigned
  obtain hnone | hsome := hcarried
  · cases hnone
  · cases hsome
    exact absurd hkey (by decide)

end HyperNode
end Peeroxide.Dht
