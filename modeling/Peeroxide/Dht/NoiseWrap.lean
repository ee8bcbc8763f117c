import Peeroxide.Dht.NoiseAgreement
import Peeroxide.Dht.Persistent

/-!
# Handshakes with typed payloads

The IK handshake of two peers: the payloads are encoded records, and the finished handshake gives a secret for
holepunching besides the session.
-/

namespace Peeroxide.Dht
open Lib HandshakeM

inductive NoiseWrapError where
  | noise (e : NoiseError)
  | encoding (e : EncodingError)
  | notComplete

structure NoiseWrapResult where
  isInitiator : Bool
  remotePublicKey : Bytes32
  holepunchSecret : Bytes32
  handshakeHash : Bytes64
  tx : Bytes32
  rx : Bytes32

structure NoiseWrap where
  handshake : HandshakeState
  isInitiator : Bool

def liftFault {ε : Type} (f : ε → NoiseWrapError) : Fault ε → Fault NoiseWrapError
  | .panic => .panic
  | .error e => .error (f e)

namespace NoiseWrap
variable (crypto : Crypto) (prim : NoisePrimitives)

def NS_PEER_HANDSHAKE : Bytes32 := crypto.namespaceOf "hyperswarm/dht" 0
def NS_PEER_HOLEPUNCH : Bytes32 := crypto.namespaceOf "hyperswarm/dht" 1

def newInitiator (keypair : Keypair) (remotePublicKey : Bytes32) : NoiseWrap :=
  ⟨HandshakeIK.newInitiator prim keypair remotePublicKey (NS_PEER_HANDSHAKE crypto).1, true⟩

def newResponder (keypair : Keypair) : NoiseWrap :=
  ⟨HandshakeIK.newResponder prim keypair (NS_PEER_HANDSHAKE crypto).1, false⟩

def step {α : Type} (x : HandshakeM α) (nw : NoiseWrap) : Except (Fault NoiseWrapError) α × NoiseWrap :=
  match x nw.handshake with
  | .ok a h => (.ok a, { nw with handshake := h })
  | .error e h => (.error (liftFault .noise e), { nw with handshake := h })

def send (fresh : Keypair) (payload : NoisePayload) (nw : NoiseWrap) :
    Except (Fault NoiseWrapError) Bytes × NoiseWrap :=
  match encodeNoisePayloadToBytes payload with
  | .error e => (.error (liftFault .encoding e), nw)
  | .ok encoded => step (HandshakeIK.send prim fresh encoded) nw

/-- The handshake has moved on when the payload does not decode. -/
def recv (buf : Bytes) (nw : NoiseWrap) : Except (Fault NoiseWrapError) NoisePayload × NoiseWrap :=
  match step (HandshakeIK.recv prim buf) nw with
  | (.error e, nw) => (.error e, nw)
  | (.ok plaintext, nw) =>
    match decodeNoisePayloadFromBytes plaintext with
    | .error e => (.error (liftFault .encoding e), nw)
    | .ok payload => (.ok payload, nw)

/-- The secret is a code of the namespace under the hash of the handshake. -/
def deriveHolepunchSecret (blake2bMac : Bytes64 → Bytes → Bytes32) (handshakeHash : Bytes64) : Bytes32 :=
  blake2bMac handshakeHash (NS_PEER_HOLEPUNCH crypto).1

def resultOf (blake2bMac : Bytes64 → Bytes → Bytes32) (isInitiator : Bool) (hr : HandshakeResult) : NoiseWrapResult where
  isInitiator
  remotePublicKey := hr.remotePublicKey
  holepunchSecret := deriveHolepunchSecret crypto blake2bMac hr.handshakeHash
  handshakeHash := hr.handshakeHash
  tx := hr.tx
  rx := hr.rx

def finalize (blake2bMac : Bytes64 → Bytes → Bytes32) (nw : NoiseWrap) : Except NoiseWrapError NoiseWrapResult :=
  match nw.handshake.result with
  | none => .error .notComplete
  | some hr => .ok (resultOf crypto blake2bMac nw.isInitiator hr)

/-! ## Two honest ends -/

variable {crypto prim} {fresh : Keypair} {payload : NoisePayload} {encoded m : Bytes} {h h' : HandshakeState}
  {isInitiator : Bool}

theorem send_of_ok (hencode : encodeNoisePayloadToBytes payload = .ok encoded)
    (hsend : HandshakeIK.send prim fresh encoded h = .ok m h') :
    send prim fresh payload ⟨h, isInitiator⟩ = (.ok m, ⟨h', isInitiator⟩) := by
  simp only [send, step, hencode, hsend]

theorem recv_of_ok (hdecode : decodeNoisePayloadFromBytes encoded = .ok payload)
    (hrecv : HandshakeIK.recv prim m h = .ok encoded h') :
    recv prim m ⟨h, isInitiator⟩ = (.ok payload, ⟨h', isInitiator⟩) := by
  simp only [recv, step, hrecv, hdecode]

theorem finalize_of_some {blake2bMac : Bytes64 → Bytes → Bytes32} {hr : HandshakeResult} (hresult : h.result = some hr) :
    finalize crypto blake2bMac ⟨h, isInitiator⟩ = .ok (resultOf crypto blake2bMac isInitiator hr) := by
  rw [finalize, hresult]

end NoiseWrap

/-- A payload that arrives as it was sent. -/
structure NoisePayload.Sendable (m : NoisePayload) : Prop where
  canonical : m.Canonical
  current : m.Current
  withinLimits : m.WithinLimits
  small : m.Small

theorem NoisePayload.Sendable.read_back {m : NoisePayload} (h : m.Sendable) :
    ∃ bs, encodeNoisePayloadToBytes m = .ok bs ∧ decodeNoisePayloadFromBytes bs = .ok m := by
  obtain ⟨bs, -, -, hencode, hdecode⟩ := noisePayload_round_trip h.canonical h.small
  exact ⟨bs, hencode, hdecode h.current h.withinLimits⟩

theorem HandshakeM.of_run_eq_ok {α β : Type} {x : HandshakeM α} {h : HandshakeState} {r : β}
    {f : α × HandshakeState → Except (Fault NoiseError) β} (hx : (x.run h >>= f) = .ok r) :
    ∃ a h', x h = .ok a h' ∧ f (a, h') = .ok r := by
  unfold HandshakeM.run at hx
  cases he : x h with
  | error e h' =>
    rw [he] at hx
    cases hx
  | ok a h' =>
    rw [he] at hx
    exact ⟨a, h', rfl, hx⟩

theorem HandshakeIK.steps_of_exchange {prim : NoisePrimitives} {fi fr : Keypair} {p₁ p₂ x y : Bytes}
    {i r i' r' : HandshakeState} (h : exchange prim fi fr p₁ p₂ i r = .ok (x, y, i', r')) :
    ∃ m₁ i₁ r₁ m₂, send prim fi p₁ i = .ok m₁ i₁ ∧ recv prim m₁ r = .ok x r₁ ∧ send prim fr p₂ r₁ = .ok m₂ r' ∧
      recv prim m₂ i₁ = .ok y i' := by
  obtain ⟨m₁, i₁, send₁, h⟩ := of_run_eq_ok h
  obtain ⟨x₁, r₁, recv₁, h⟩ := of_run_eq_ok h
  obtain ⟨m₂, r₂, send₂, h⟩ := of_run_eq_ok h
  obtain ⟨y₂, i₂, recv₂, h⟩ := of_run_eq_ok h
  cases h
  exact ⟨m₁, i₁, r₁, m₂, send₁, recv₁, send₂, recv₂⟩

/-- **With valid keys and payloads that can be read back, both ends receive the other's payload, and finish with the same
session, the same secret for holepunching and each other's keys.** -/
theorem NoiseWrap.exchange_finalizes (crypto : Crypto) (prim : NoisePrimitives)
    (blake2bMac : Bytes64 → Bytes → Bytes32) {si sr fi fr : Keypair} (hsi : si.Valid prim) (hsr : sr.Valid prim)
    (hfi : fi.Valid prim) (hfr : fr.Valid prim) {p₁ p₂ : NoisePayload} (hp₁ : p₁.Sendable) (hp₂ : p₂.Sendable) :
    ∃ m₁ m₂ i₁ i₂ r₁ r₂ resultI resultR,
      send prim fi p₁ (newInitiator crypto prim si sr.publicKey) = (.ok m₁, i₁) ∧
      recv prim m₁ (newResponder crypto prim sr) = (.ok p₁, r₁) ∧ send prim fr p₂ r₁ = (.ok m₂, r₂) ∧
      recv prim m₂ i₁ = (.ok p₂, i₂) ∧
      finalize crypto blake2bMac i₂ = .ok resultI ∧ finalize crypto blake2bMac r₂ = .ok resultR ∧
      resultI.tx = resultR.rx ∧ resultI.rx = resultR.tx ∧ resultI.holepunchSecret = resultR.holepunchSecret ∧
      resultI.remotePublicKey = sr.publicKey ∧ resultR.remotePublicKey = si.publicKey := by
  obtain ⟨bs₁, hencode₁, hdecode₁⟩ := hp₁.read_back
  obtain ⟨bs₂, hencode₂, hdecode₂⟩ := hp₂.read_back
  obtain ⟨i, r, ri, rr, hexchange, hagreed⟩ :
      ∃ i r ri rr, HandshakeIK.exchange prim fi fr bs₁ bs₂ (newInitiator crypto prim si sr.publicKey).handshake
        (newResponder crypto prim sr).handshake = .ok (bs₁, bs₂, i, r) ∧ Agreed si sr i r ri rr :=
    HandshakeIK.exchange_agrees ⟨rfl, rfl, rfl⟩ ⟨rfl, rfl, rfl⟩ (by rfl) rfl rfl hsi hsr hfi hfr rfl
  obtain ⟨m₁, i₁, r₁, m₂, send₁, recv₁, send₂, recv₂⟩ := HandshakeIK.steps_of_exchange hexchange
  have hsecret : (resultOf crypto blake2bMac true ri).holepunchSecret =
      (resultOf crypto blake2bMac false rr).holepunchSecret :=
    congrArg (deriveHolepunchSecret crypto blake2bMac) hagreed.handshakeHash
  exact ⟨m₁, m₂, _, _, _, _, _, _, send_of_ok hencode₁ send₁, recv_of_ok hdecode₁ recv₁, send_of_ok hencode₂ send₂,
    recv_of_ok hdecode₂ recv₂, finalize_of_some hagreed.initiator, finalize_of_some hagreed.responder, hagreed.tx,
    hagreed.rx, hsecret, hagreed.initiatorRemote, hagreed.responderRemote⟩

/-- The initiator sends an address, and the responder a payload without fields. -/
theorem NoiseWrap.exchange_finalizes_plain : let crypto : Crypto := ⟨fun _ => .fill 0, fun _ _ _ => true⟩
    let p₁ : NoisePayload := ⟨1, 0, 2, none, [⟨"10.0.0.1", 49737⟩], [], none, none, none, none⟩
    let p₂ : NoisePayload := ⟨1, 0, 0, none, [], [], none, none, none, none⟩
    p₁.Sendable ∧ p₂.Sendable ∧ ∃ m₁ m₂ i₁ i₂ r₁ r₂,
      send plainNoise (plainKeypair 3) p₁ (newInitiator crypto plainNoise (plainKeypair 1) (plainKeypair 2).publicKey) =
        (.ok m₁, i₁) ∧
      recv plainNoise m₁ (newResponder crypto plainNoise (plainKeypair 2)) = (.ok p₁, r₁) ∧
      send plainNoise (plainKeypair 4) p₂ r₁ = (.ok m₂, r₂) ∧ recv plainNoise m₂ i₁ = (.ok p₂, i₂) := by
  intro crypto p₁ p₂
  have hhost : Ipv4Host "10.0.0.1" := ⟨[10, 0, 0, 1], rfl, by decide⟩
  have hp₁ : p₁.Sendable := ⟨⟨nofun, by simpa [p₁] using hhost, nofun, nofun⟩, ⟨rfl, nofun, nofun, nofun⟩,
    ⟨nofun, by decide, by decide, nofun⟩, ⟨by decide, by decide⟩⟩
  have hp₂ : p₂.Sendable := ⟨⟨nofun, nofun, nofun, nofun⟩, ⟨rfl, nofun, nofun, nofun⟩,
    ⟨nofun, by decide, by decide, nofun⟩, ⟨by decide, by decide⟩⟩
  obtain ⟨m₁, m₂, i₁, i₂, r₁, r₂, -, -, hsend₁, hrecv₁, hsend₂, hrecv₂, -⟩ :=
    exchange_finalizes crypto plainNoise (fun hash _ => firstHalf hash) (valid_plainKeypair 1) (valid_plainKeypair 2)
      (valid_plainKeypair 3) (valid_plainKeypair 4) hp₁ hp₂
  exact ⟨hp₁, hp₂, m₁, m₂, i₁, i₂, r₁, r₂, hsend₁, hrecv₁, hsend₂, hrecv₂⟩

end Peeroxide.Dht
