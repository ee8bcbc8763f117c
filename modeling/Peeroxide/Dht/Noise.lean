import Peeroxide.Dht.CompactEncoding

/-!
# Noise handshakes

The XX handshake and the IK handshake, message by message. Diffie-Hellman, the hash and the cipher are parameters; the
key derivation over the hash is the code's own. A handshake is code on a state: what it changed before it fails stays.
-/

namespace Peeroxide.Dht
open Lib

inductive NoiseError where
  | invalidPublicKey
  | decryptionFailed
  | handshakeComplete
  | unexpectedState
  deriving DecidableEq

/-- Diffie-Hellman between a secret key and a public key, which may not be on the curve; the public key of a secret key;
a hash; and a cipher that authenticates its associated data, with a tag of 16 bytes. Two key pairs agree on a secret,
and what was encrypted decrypts. -/
structure NoisePrimitives where
  dh : Bytes64 → Bytes32 → Option Bytes32
  publicKey : Bytes64 → Bytes32
  hash : Bytes → Bytes64
  encrypt : Bytes32 → Bytes → Bytes → Bytes → Bytes
  decrypt : Bytes32 → Bytes → Bytes → Bytes → Option Bytes
  dh_comm : ∀ a b, dh a (publicKey b) = dh b (publicKey a)
  dh_isSome : ∀ a b, (dh a (publicKey b)).isSome
  length_encrypt : ∀ key nonce ad plaintext, (encrypt key nonce ad plaintext).length = plaintext.length + 16
  decrypt_encrypt : ∀ key nonce ad plaintext, decrypt key nonce ad (encrypt key nonce ad plaintext) = some plaintext

structure Keypair where
  publicKey : Bytes32
  secretKey : Bytes64
  deriving DecidableEq

/-! ## Key derivation -/

section
variable (prim : NoisePrimitives)

def hmacBlake2b (key data : Bytes) : Bytes64 :=
  let hkey := if 128 < key.length then (prim.hash key).1 ++ List.replicate 64 0
    else key ++ List.replicate (128 - key.length) 0
  let inner := prim.hash (hkey.map (· ^^^ 0x36) ++ data)
  prim.hash (hkey.map (· ^^^ 0x5c) ++ inner.1)

def hkdf (chainingKey : Bytes64) (inputKeyMaterial : Bytes) : Bytes64 × Bytes64 :=
  let tempKey := hmacBlake2b prim chainingKey.1 inputKeyMaterial
  let output1 := hmacBlake2b prim tempKey.1 [0x01]
  (output1, hmacBlake2b prim tempKey.1 (output1.1 ++ [0x02]))

def firstHalf (bs : Bytes64) : Bytes32 := ⟨bs.1.take 32, by simp [bs.2]⟩

/-! ## The symmetric state -/

/-- Without a key the cipher changes nothing. -/
structure CipherState where
  key : Option Bytes32
  nonce : Nat
  deriving DecidableEq

def CipherState.new : CipherState := ⟨none, 0⟩

def CipherState.setKey (key : Bytes32) : CipherState := ⟨some key, 0⟩

def buildNonce (nonce : Nat) : Bytes := List.replicate 4 0 ++ leBytes 8 nonce

def CipherState.encrypt (c : CipherState) (plaintext ad : Bytes) : Bytes × CipherState :=
  match c.key with
  | none => (plaintext, c)
  | some key => (prim.encrypt key (buildNonce c.nonce) ad plaintext, { c with nonce := c.nonce + 1 })

def CipherState.decrypt (c : CipherState) (ciphertext ad : Bytes) : Except NoiseError (Bytes × CipherState) :=
  match c.key with
  | none => .ok (ciphertext, c)
  | some key =>
    match prim.decrypt key (buildNonce c.nonce) ad ciphertext with
    | none => .error .decryptionFailed
    | some plaintext => .ok (plaintext, { c with nonce := c.nonce + 1 })

structure SymmetricState where
  chainingKey : Bytes64
  digest : Bytes64
  cipher : CipherState
  deriving DecidableEq

namespace SymmetricState

/-- A name of up to 64 bytes is filled up, a longer one hashed. -/
def new (protocolName : Bytes) : SymmetricState :=
  let digest : Bytes64 :=
    if h : protocolName.length ≤ 64 then
      ⟨protocolName ++ List.replicate (64 - protocolName.length) 0, by simp; omega⟩
    else prim.hash protocolName
  ⟨digest, digest, .new⟩

def mixHash (ss : SymmetricState) (data : Bytes) : SymmetricState :=
  { ss with digest := prim.hash (ss.digest.1 ++ data) }

def mixKey (ss : SymmetricState) (dhOutput : Bytes32) : SymmetricState :=
  let r := hkdf prim ss.chainingKey dhOutput.1
  { ss with chainingKey := r.1, cipher := .setKey (firstHalf r.2) }

def encryptAndHash (ss : SymmetricState) (plaintext : Bytes) : Bytes × SymmetricState :=
  let r := ss.cipher.encrypt prim plaintext ss.digest.1
  (r.1, mixHash prim { ss with cipher := r.2 } r.1)

/-- The ciphertext is mixed in, and nothing when it does not decrypt. -/
def decryptAndHash (ss : SymmetricState) (ciphertext : Bytes) : Except NoiseError (Bytes × SymmetricState) :=
  match ss.cipher.decrypt prim ciphertext ss.digest.1 with
  | .error e => .error e
  | .ok (plaintext, cipher) => .ok (plaintext, mixHash prim { ss with cipher := cipher } ciphertext)

def split (ss : SymmetricState) : Bytes32 × Bytes32 :=
  let r := hkdf prim ss.chainingKey []
  (firstHalf r.1, firstHalf r.2)

def hasKey (ss : SymmetricState) : Bool := ss.cipher.key.isSome

end SymmetricState
end

/-! ## One end of a handshake -/

structure HandshakeResult where
  tx : Bytes32
  rx : Bytes32
  handshakeHash : Bytes64
  remotePublicKey : Bytes32
  deriving DecidableEq

/-- The static keys `s`, the ephemeral keys `e`, and those of the other end. `Handshake` and `HandshakeIK` have the same
fields. -/
structure HandshakeState where
  isInitiator : Bool
  step : Nat
  symmetric : SymmetricState
  s : Keypair
  e : Option Keypair
  re : Option Bytes32
  rs : Option Bytes32
  result : Option HandshakeResult
  deriving DecidableEq

def HandshakeState.setEphemeral (h : HandshakeState) (keypair : Keypair) : HandshakeState := { h with e := some keypair }

def HandshakeState.complete (h : HandshakeState) : Bool := h.result.isSome

abbrev HandshakeM := EStateM (Fault NoiseError) HandshakeState

namespace HandshakeM
variable (prim : NoisePrimitives)

/-- The ephemeral keys that were set, or fresh ones; they are put back by `putEphemeral`. -/
def takeEphemeral (fresh : Keypair) : HandshakeM Keypair :=
  modifyGet fun h => (h.e.getD fresh, { h with e := none })

def putEphemeral (e : Keypair) : HandshakeM Unit := modify fun h => { h with e := some e }

def ephemeral : HandshakeM Keypair := do
  match (← get).e with
  | none => throw (.error .unexpectedState)
  | some e => pure e

def remoteEphemeral : HandshakeM Bytes32 := do
  match (← get).re with
  | none => throw (.error .unexpectedState)
  | some re => pure re

def remoteStatic : HandshakeM Bytes32 := do
  match (← get).rs with
  | none => throw (.error .unexpectedState)
  | some rs => pure rs

def setRemoteEphemeral (re : Bytes32) : HandshakeM Unit := modify fun h => { h with re := some re }

def setRemoteStatic (rs : Bytes32) : HandshakeM Unit := modify fun h => { h with rs := some rs }

def setStep (step : Nat) : HandshakeM Unit := modify fun h => { h with step }

def mixHash (data : Bytes) : HandshakeM Unit := modify fun h => { h with symmetric := h.symmetric.mixHash prim data }

def mixDh (secretKey : Bytes64) (publicKey : Bytes32) : HandshakeM Unit := do
  match prim.dh secretKey publicKey with
  | none => throw (.error .invalidPublicKey)
  | some secret => modify fun h => { h with symmetric := h.symmetric.mixKey prim secret }

def encryptAndHash (plaintext : Bytes) : HandshakeM Bytes :=
  modifyGet fun h =>
    let r := h.symmetric.encryptAndHash prim plaintext
    (r.1, { h with symmetric := r.2 })

def decryptAndHash (ciphertext : Bytes) : HandshakeM Bytes := do
  match (← get).symmetric.decryptAndHash prim ciphertext with
  | .error e => throw (.error e)
  | .ok (plaintext, symmetric) =>
    modify fun h => { h with symmetric }
    return plaintext

/-- A slice of another length stops the program. -/
def copyFromSlice (bs : Bytes) : HandshakeM Bytes32 :=
  if h : bs.length = 32 then pure ⟨bs, h⟩ else throw .panic

def ensure (p : Bool) : HandshakeM Unit := if p then pure () else throw (.error .unexpectedState)

def encryptedKeyLength : HandshakeM Nat := return if (← get).symmetric.hasKey then 48 else 32

/-- The keys of the session; the initiator sends with the first one. -/
def finish : HandshakeM HandshakeResult := do
  let h ← get
  let keys := h.symmetric.split prim
  let result : HandshakeResult := {
    tx := if h.isInitiator then keys.1 else keys.2
    rx := if h.isInitiator then keys.2 else keys.1
    handshakeHash := h.symmetric.digest
    remotePublicKey := h.rs.getD (.fill 0) }
  set { h with result := some result }
  return result

/-- The step by role and number, unless the handshake is complete. -/
def dispatch {α : Type} (step : Bool → Nat → HandshakeM α) : HandshakeM α := do
  let h ← get
  if h.complete then throw (.error .handshakeComplete) else step h.isInitiator h.step

end HandshakeM

open HandshakeM

/-! ## The XX handshake -/

/-- `Noise_XX_Ed25519_ChaChaPoly_BLAKE2b` -/
def PROTOCOL_NAME : Bytes :=
  [78, 111, 105, 115, 101, 95, 88, 88, 95, 69, 100, 50, 53, 53, 49, 57, 95, 67, 104, 97, 67, 104, 97, 80, 111, 108, 121,
    95, 66, 76, 65, 75, 69, 50, 98]

namespace Handshake
variable (prim : NoisePrimitives)

def new (isInitiator : Bool) (keypair : Keypair) : HandshakeState where
  isInitiator
  step := 0
  symmetric := (SymmetricState.new prim PROTOCOL_NAME).mixHash prim []
  s := keypair
  e := none
  re := none
  rs := none
  result := none

/-- `e` -/
def initiatorSendM1 (fresh : Keypair) : HandshakeM Bytes := do
  let e ← takeEphemeral fresh
  mixHash prim e.publicKey.1
  putEphemeral e
  let payloadEnc ← encryptAndHash prim []
  setStep 1
  return e.publicKey.1 ++ payloadEnc

def responderRecvM1 (message : Bytes) : HandshakeM (Option HandshakeResult) := do
  ensure (32 ≤ message.length)
  let re ← copyFromSlice (message.take 32)
  mixHash prim re.1
  setRemoteEphemeral re
  let _ ← decryptAndHash prim (message.drop 32)
  setStep 1
  return none

/-- `e, ee, s, es` -/
def responderSendM2 (fresh : Keypair) : HandshakeM Bytes := do
  let re ← remoteEphemeral
  let e ← takeEphemeral fresh
  mixHash prim e.publicKey.1
  mixDh prim e.secretKey re
  let s := (← get).s
  let encS ← encryptAndHash prim s.publicKey.1
  mixDh prim s.secretKey re
  putEphemeral e
  let encPayload ← encryptAndHash prim []
  setStep 2
  return e.publicKey.1 ++ encS ++ encPayload

def initiatorRecvM2 (message : Bytes) : HandshakeM (Option HandshakeResult) := do
  ensure (96 ≤ message.length)
  let e ← ephemeral
  let re ← copyFromSlice (message.take 32)
  mixHash prim re.1
  setRemoteEphemeral re
  mixDh prim e.secretKey re
  let encSLen ← encryptedKeyLength
  ensure (32 + encSLen ≤ message.length)
  let rsBytes ← decryptAndHash prim ((message.drop 32).take encSLen)
  let rs ← copyFromSlice rsBytes
  setRemoteStatic rs
  mixDh prim e.secretKey rs
  let _ ← decryptAndHash prim (message.drop (32 + encSLen))
  setStep 2
  return none

/-- `s, se` -/
def initiatorSendM3 : HandshakeM Bytes := do
  let re ← remoteEphemeral
  let s := (← get).s
  let encS ← encryptAndHash prim s.publicKey.1
  mixDh prim s.secretKey re
  let encPayload ← encryptAndHash prim []
  let _ ← finish prim
  setStep 3
  return encS ++ encPayload

def responderRecvM3 (message : Bytes) : HandshakeM (Option HandshakeResult) := do
  ensure (64 ≤ message.length)
  let e ← ephemeral
  let encSLen ← encryptedKeyLength
  let rsBytes ← decryptAndHash prim (message.take encSLen)
  let rs ← copyFromSlice rsBytes
  setRemoteStatic rs
  mixDh prim e.secretKey rs
  let _ ← decryptAndHash prim (message.drop encSLen)
  let result ← finish prim
  setStep 3
  return some result

def send (fresh : Keypair) : HandshakeM Bytes := dispatch fun
  | true, 0 => initiatorSendM1 prim fresh
  | false, 1 => responderSendM2 prim fresh
  | true, 2 => initiatorSendM3 prim
  | _, _ => throw (.error .unexpectedState)

def recv (message : Bytes) : HandshakeM (Option HandshakeResult) := dispatch fun
  | false, 0 => responderRecvM1 prim message
  | true, 1 => initiatorRecvM2 prim message
  | false, 2 => responderRecvM3 prim message
  | _, _ => throw (.error .unexpectedState)

end Handshake

/-! ## The IK handshake -/

/-- `Noise_IK_Ed25519_ChaChaPoly_BLAKE2b` -/
def PROTOCOL_NAME_IK : Bytes :=
  [78, 111, 105, 115, 101, 95, 73, 75, 95, 69, 100, 50, 53, 53, 49, 57, 95, 67, 104, 97, 67, 104, 97, 80, 111, 108, 121,
    95, 66, 76, 65, 75, 69, 50, 98]

namespace HandshakeIK
variable (prim : NoisePrimitives)

/-- The public key of the responder is mixed in at both ends. -/
def start (responderKey : Bytes32) (prologue : Bytes) : SymmetricState :=
  ((SymmetricState.new prim PROTOCOL_NAME_IK).mixHash prim prologue).mixHash prim responderKey.1

def newInitiator (keypair : Keypair) (remoteStatic : Bytes32) (prologue : Bytes) : HandshakeState where
  isInitiator := true
  step := 0
  symmetric := start prim remoteStatic prologue
  s := keypair
  e := none
  re := none
  rs := some remoteStatic
  result := none

def newResponder (keypair : Keypair) (prologue : Bytes) : HandshakeState where
  isInitiator := false
  step := 0
  symmetric := start prim keypair.publicKey prologue
  s := keypair
  e := none
  re := none
  rs := none
  result := none

/-- `e, es, s, ss` -/
def initiatorSendM1 (fresh : Keypair) (payload : Bytes) : HandshakeM Bytes := do
  let rs ← remoteStatic
  let e ← takeEphemeral fresh
  mixHash prim e.publicKey.1
  mixDh prim e.secretKey rs
  let s := (← get).s
  let encS ← encryptAndHash prim s.publicKey.1
  mixDh prim s.secretKey rs
  putEphemeral e
  let encPayload ← encryptAndHash prim payload
  setStep 1
  return e.publicKey.1 ++ encS ++ encPayload

def responderRecvM1 (message : Bytes) : HandshakeM Bytes := do
  ensure (96 ≤ message.length)
  let s := (← get).s
  let re ← copyFromSlice (message.take 32)
  mixHash prim re.1
  setRemoteEphemeral re
  mixDh prim s.secretKey re
  let encSLen ← encryptedKeyLength
  ensure (32 + encSLen ≤ message.length)
  let rsBytes ← decryptAndHash prim ((message.drop 32).take encSLen)
  let rs ← copyFromSlice rsBytes
  setRemoteStatic rs
  mixDh prim s.secretKey rs
  let payload ← decryptAndHash prim (message.drop (32 + encSLen))
  setStep 1
  return payload

/-- `e, ee, se` -/
def responderSendM2 (fresh : Keypair) (payload : Bytes) : HandshakeM Bytes := do
  let re ← remoteEphemeral
  let rs ← remoteStatic
  let e ← takeEphemeral fresh
  mixHash prim e.publicKey.1
  mixDh prim e.secretKey re
  mixDh prim e.secretKey rs
  putEphemeral e
  let encPayload ← encryptAndHash prim payload
  let _ ← finish prim
  setStep 2
  return e.publicKey.1 ++ encPayload

def initiatorRecvM2 (message : Bytes) : HandshakeM Bytes := do
  ensure (48 ≤ message.length)
  let e ← ephemeral
  let re ← copyFromSlice (message.take 32)
  mixHash prim re.1
  setRemoteEphemeral re
  mixDh prim e.secretKey re
  mixDh prim (← get).s.secretKey re
  let payload ← decryptAndHash prim (message.drop 32)
  let _ ← finish prim
  setStep 2
  return payload

def send (fresh : Keypair) (payload : Bytes) : HandshakeM Bytes := dispatch fun
  | true, 0 => initiatorSendM1 prim fresh payload
  | false, 1 => responderSendM2 prim fresh payload
  | _, _ => throw (.error .unexpectedState)

def recv (message : Bytes) : HandshakeM Bytes := dispatch fun
  | false, 0 => responderRecvM1 prim message
  | true, 1 => initiatorRecvM2 prim message
  | _, _ => throw (.error .unexpectedState)

end HandshakeIK
end Peeroxide.Dht
