import Peeroxide.Dht.CompactEncoding

/-!
# The cipher of a secret stream

Messages are encrypted one after the other, each with a tag. The nonce changes with the code of each message, and the
key is changed when a tag asks for it or the counter in the nonce comes round to zero. The keystream, the message code
and the derivation of the first key are parameters.

Main results: `pull_push`, `push_pull_run`.
-/

namespace Peeroxide.Dht
open Lib List

abbrev Bytes12 := { bs : Bytes // bs.length = 12 }

abbrev Bytes16 := { bs : Bytes // bs.length = 16 }

abbrev Bytes24 := { bs : Bytes // bs.length = 24 }

/-- An encrypted tag and a code of 16 bytes. -/
def ABYTES : Nat := 17

def TAG_MESSAGE : UInt8 := 0
def TAG_REKEY : UInt8 := 2

inductive SecretstreamError where
  | ciphertextTooShort
  | decryptionFailed
  deriving DecidableEq

/-- The bytes that ChaCha20 masks with under a key and a nonce, Poly1305, and HChaCha20. -/
structure StreamPrimitives where
  keystream : Bytes32 → Bytes12 → Nat → UInt8
  poly1305 : Bytes32 → Bytes → Bytes16
  hchacha20Subkey : Bytes32 → Bytes16 → Bytes32

structure StreamState where
  key : Bytes32
  nonce : Bytes12
  deriving DecidableEq

/-! ## Masking with a keystream -/

section
variable (ks : Nat → UInt8)

/-- Each byte is combined with the keystream, from its position `i` on. -/
def mask : Nat → Bytes → Bytes
  | _, [] => []
  | i, b :: bs => (b ^^^ ks i) :: mask (i + 1) bs

@[simp] theorem length_mask (i : Nat) (bs : Bytes) : (mask ks i bs).length = bs.length := by
  induction bs generalizing i with
  | nil => rfl
  | cons b bs ih => rw [mask, length_cons, length_cons, ih]

@[simp] theorem mask_mask (i : Nat) (bs : Bytes) : mask ks i (mask ks i bs) = bs := by
  induction bs generalizing i with
  | nil => rfl
  | cons b bs ih => rw [mask, mask, ih, UInt8.xor_assoc, UInt8.xor_self, UInt8.xor_zero]

end

namespace Secretstream
variable (prim : StreamPrimitives)

/-! ## The nonce and the key -/

/-- The code goes into the last eight bytes, and the counter in the first four goes up. -/
def evolveNonce (nonce : Bytes12) (mac : Bytes16) : Bytes12 :=
  ⟨leBytes 4 (wrap32 (ofLeBytes (nonce.1.take 4) + 1)) ++ List.zipWith (· ^^^ ·) (nonce.1.drop 4) (mac.1.take 8),
    by simp [nonce.2, mac.2]⟩

def rekeyState (s : StreamState) : StreamState :=
  let buf := mask (prim.keystream s.key s.nonce) 0 (s.key.1 ++ s.nonce.1.drop 4)
  ⟨⟨buf.take 32, by simp [buf, s.key.2, s.nonce.2]⟩, ⟨leBytes 4 1 ++ buf.drop 32, by simp [buf, s.key.2, s.nonce.2]⟩⟩

def shouldRekey (tag : UInt8) (nonce : Bytes12) : Bool := tag &&& TAG_REKEY != 0 || nonce.1.take 4 == [0, 0, 0, 0]

/-- The next state, by the code and the tag of the message. -/
def advance (s : StreamState) (mac : Bytes16) (tag : UInt8) : StreamState :=
  let s := { s with nonce := evolveNonce s.nonce mac }
  if shouldRekey tag s.nonce then rekeyState prim s else s

/-! ## One message -/

/-- The associated data is filled up to 16 bytes; the message is followed by as many zeros as it has bytes in its last
16. -/
def computeMac (polyKey : Bytes32) (aad tagBlock encryptedMsg : Bytes) : Bytes16 :=
  prim.poly1305 polyKey (aad ++ List.replicate ((16 - aad.length % 16) % 16) 0 ++ tagBlock ++ encryptedMsg ++
    List.replicate (encryptedMsg.length % 16) 0 ++ leBytes 8 aad.length ++ leBytes 8 (64 + encryptedMsg.length))

/-- The key of the code is the first half of the first block. -/
def polyKey (s : StreamState) : Bytes32 :=
  ⟨(mask (prim.keystream s.key s.nonce) 0 (List.replicate 64 0)).take 32, by simp⟩

def secretstreamEncrypt (s : StreamState) (aad : Bytes) (tag : UInt8) (message : Bytes) : Bytes :=
  let ks := prim.keystream s.key s.nonce
  let tagBlock := mask ks 64 (tag :: List.replicate 63 0)
  let encryptedMsg := mask ks 128 message
  tagBlock.headD 0 :: (encryptedMsg ++ (computeMac prim (polyKey prim s) aad tagBlock encryptedMsg).1)

/-- The code is computed over the block with the encrypted tag. -/
def secretstreamDecrypt (s : StreamState) (aad ciphertext : Bytes) : Except SecretstreamError (Bytes × UInt8) :=
  if ciphertext.length < ABYTES then .error .ciphertextTooShort
  else
    let ks := prim.keystream s.key s.nonce
    let macStart := ciphertext.length - 16
    let encryptedTag := ciphertext.headD 0
    let encryptedMsg := (ciphertext.take macStart).drop 1
    let tagBlock := mask ks 64 (encryptedTag :: List.replicate 63 0)
    let tag := tagBlock.headD 0
    if (computeMac prim (polyKey prim s) aad (encryptedTag :: tagBlock.tail) encryptedMsg).1 ≠ ciphertext.drop macStart then
      .error .decryptionFailed
    else .ok (mask ks 128 encryptedMsg, tag)

def initFromHeader (key : Bytes32) (header : Bytes24) : StreamState where
  key := prim.hchacha20Subkey key ⟨header.1.take 16, by simp [header.2]⟩
  nonce := ⟨[1, 0, 0, 0] ++ header.1.drop 16, by simp [header.2]⟩

def lastMac (ciphertext : Bytes) : Bytes16 :=
  ⟨(List.replicate 16 0 ++ ciphertext).drop ciphertext.length, by
    rw [List.length_drop, List.length_append, List.length_replicate, Nat.add_sub_cancel]⟩

def push (s : StreamState) (plaintext : Bytes) (ad : Option Bytes) (tag : UInt8) : Bytes × StreamState :=
  let ciphertext := secretstreamEncrypt prim s (ad.getD []) tag plaintext
  (ciphertext, advance prim s (lastMac ciphertext) tag)

def pull (s : StreamState) (ciphertext : Bytes) (ad : Option Bytes) :
    Except SecretstreamError (Bytes × UInt8) × StreamState :=
  if ciphertext.length < ABYTES then (.error .ciphertextTooShort, s)
  else
    match secretstreamDecrypt prim s (ad.getD []) ciphertext with
    | .error e => (.error e, s)
    | .ok (message, tag) => (.ok (message, tag), advance prim s (lastMac ciphertext) tag)

def next (s : StreamState) (plaintext : Bytes) : Bytes × StreamState := push prim s plaintext none TAG_MESSAGE

/-! ## One message arrives -/

variable {prim}

variable (s : StreamState) (aad : Bytes) (tag : UInt8) (message : Bytes)

theorem length_secretstreamEncrypt :
    (secretstreamEncrypt prim s aad tag message).length = message.length + ABYTES := by
  simp only [secretstreamEncrypt, length_cons, length_append, length_mask, (computeMac _ _ _ _ _).2, ABYTES]

theorem decrypt_parts (msg : Bytes) (mac : Bytes16) : secretstreamDecrypt prim s aad (tag :: (msg ++ mac.1)) =
      let tagBlock := mask (prim.keystream s.key s.nonce) 64 (tag :: List.replicate 63 0)
      if (computeMac prim (polyKey prim s) aad (tag :: tagBlock.tail) msg).1 ≠ mac.1 then .error .decryptionFailed
      else .ok (mask (prim.keystream s.key s.nonce) 128 msg, tagBlock.headD 0) := by
  have hlength : (tag :: (msg ++ mac.1)).length = msg.length + ABYTES := by simp [mac.2, ABYTES]
  have hstart : (tag :: (msg ++ mac.1)).length - 16 = msg.length + 1 := by
    rw [hlength]
    rfl
  rw [secretstreamDecrypt, if_neg (by omega)]
  simp only [hstart, take_succ_cons, take_left, drop_succ_cons, drop_zero, drop_left,
    headD_cons]

theorem decrypt_encrypt :
    secretstreamDecrypt prim s aad (secretstreamEncrypt prim s aad tag message) = .ok (message, tag) := by
  rw [secretstreamEncrypt, decrypt_parts]
  -- both ends compute the code over the encrypted tag and the rest of the masked block
  simp only [mask, headD_cons, tail_cons, ne_eq, not_true_eq_false, if_false, mask_mask, UInt8.xor_assoc,
    UInt8.xor_self, UInt8.xor_zero]

/-- **One message arrives with its tag, and both ends are in the same state.** -/
theorem pull_push (prim : StreamPrimitives) (s : StreamState) (message : Bytes) (ad : Option Bytes) (tag : UInt8) :
    pull prim s (push prim s message ad tag).1 ad = (.ok (message, tag), (push prim s message ad tag).2) := by
  have hlong : ¬ (secretstreamEncrypt prim s (ad.getD []) tag message).length < ABYTES := by
    rw [length_secretstreamEncrypt]
    omega
  unfold pull push
  rw [if_neg hlong, decrypt_encrypt]

theorem pull_error {s : StreamState} {ciphertext : Bytes} {ad : Option Bytes} {e : SecretstreamError}
    (h : (pull prim s ciphertext ad).1 = .error e) : (pull prim s ciphertext ad).2 = s := by
  revert h
  unfold pull
  split
  · exact fun _ => rfl
  · split
    · exact fun _ => rfl
    · exact nofun

/-! ## All messages arrive -/

structure Item where
  message : Bytes
  ad : Option Bytes
  tag : UInt8

/-- The ciphertexts of the messages, each with the state it leaves. -/
def pushAll (prim : StreamPrimitives) : StreamState → List Item → List (Bytes × StreamState)
  | _, [] => []
  | s, item :: items =>
    let r := push prim s item.message item.ad item.tag
    r :: pushAll prim r.2 items

/-- What the ciphertexts are pulled as, each with the state it leaves. -/
def pullAll (prim : StreamPrimitives) :
    StreamState → List (Bytes × Option Bytes) → List (Except SecretstreamError (Bytes × UInt8) × StreamState)
  | _, [] => []
  | s, (ciphertext, ad) :: rest =>
    let r := pull prim s ciphertext ad
    r :: pullAll prim r.2 rest

theorem pullAll_pushAll (items : List Item) :
    pullAll prim s (List.zipWith (fun sent item => (sent.1, item.ad)) (pushAll prim s items) items) =
      List.zipWith (fun sent item => (.ok (item.message, item.tag), sent.2)) (pushAll prim s items) items := by
  induction items generalizing s with
  | nil => rfl
  | cons item items ih =>
    rw [pushAll, zipWith_cons_cons, pullAll, pull_push]
    exact congrArg _ (ih _)

/-- **Whatever is pushed, with any associated data and tags, is pulled message by message with its tag, and leaves both
ends in the same state each time; a pull that fails leaves its state as it is.** -/
theorem push_pull_run (prim : StreamPrimitives) (key : Bytes32) (header : Bytes24) (items : List Item) :
    let sent := pushAll prim (initFromHeader prim key header) items
    sent.length = items.length ∧
    pullAll prim (initFromHeader prim key header) (List.zipWith (fun sent item => (sent.1, item.ad)) sent items) =
      List.zipWith (fun sent item => (.ok (item.message, item.tag), sent.2)) sent items ∧
    ∀ s ciphertext ad e, (pull prim s ciphertext ad).1 = .error e → (pull prim s ciphertext ad).2 = s := by
  refine ⟨?_, pullAll_pushAll _ _, fun s ciphertext ad e h => pull_error h⟩
  generalize initFromHeader prim key header = s
  induction items generalizing s with
  | nil => rfl
  | cons item items ih => exact congrArg (· + 1) (ih _)

end Secretstream
end Peeroxide.Dht
