import Peeroxide.Dht.Noise

/-!
# Invites

An invite names its sender, who has signed the key of the feed it was found in together with the key of a channel. The
receiver tries the key of the two parties' own channel, and then that of the channel the payload names. Elliptic curves, the
cipher and the keyed hash are parameters; so is the hash, with digests of any length, so that it can be free of collisions.

Main result: `invite_authentic`.
-/

namespace Peeroxide.Chat
open Lib Dht List

def INVITE_TYPE_DM : UInt8 := 0x01
def INVITE_TYPE_PRIVATE : UInt8 := 0x02

def NONCE_SIZE : Nat := 24
def TAG_SIZE : Nat := 16

inductive WireError where
  | bufferTooShort (need got : Nat)
  | invalidInviteType (b : UInt8)
  | decryptionFailed

inductive InviteError where
  | invalidFeedPubkey
  | decrypt (e : WireError)
  | parse (e : WireError)
  | proofFailed

structure ChatPrimitives where
  hash : Bytes → Bytes
  hash_injective : hash.Injective
  keyedBlake2b : Bytes → Bytes → Bytes
  pubkeyToX25519 : Bytes32 → Option Bytes32
  secretToX25519 : Bytes64 → Bytes32
  x25519Ecdh : Bytes32 → Bytes32 → Bytes
  /-- Of a key, a nonce, a ciphertext and its tag. -/
  decryptDetached : Bytes → Bytes → Bytes → Bytes → Option Bytes
  verifyDetached : Bytes64 → Bytes → Bytes32 → Bool
  /-- The owner of the key has signed the message. -/
  Signed : Bytes32 → Bytes → Prop
  unforgeable : ∀ signature message key, verifyDetached signature message key = true → Signed key message

def utf8 (s : String) : Bytes := s.toUTF8.data.toList

variable (P : ChatPrimitives)

/-! ## Keys -/

def len4 (x : Bytes) : Bytes := leBytes 4 x.length

def channelKey (name : Bytes) (salt : Option Bytes) : Bytes :=
  match salt with
  | none => P.hash (utf8 "peeroxide-chat:channel:v1:" ++ len4 name ++ name)
  | some s => P.hash (utf8 "peeroxide-chat:channel:v1:" ++ len4 name ++ name ++ utf8 ":salt:" ++ len4 s ++ s)

def dmChannelKey (idA idB : Bytes32) : Bytes :=
  let (lo, hi) := if idA.1 ≤ idB.1 then (idA, idB) else (idB, idA)
  P.hash (utf8 "peeroxide-chat:dm:v1:" ++ lo.1 ++ hi.1)

def inviteKey (ecdhSecret : Bytes) (feed : Bytes32) : Bytes :=
  P.keyedBlake2b ecdhSecret (utf8 "peeroxide-chat:invite-key:v1:" ++ feed.1)

def ownershipStatement (feed : Bytes32) (key : Bytes) : Bytes := utf8 "peeroxide-chat:ownership:v1:" ++ feed.1 ++ key

def verifyOwnershipProof (id feed : Bytes32) (key : Bytes) (proof : Bytes64) : Bool :=
  P.verifyDetached proof (ownershipStatement feed key) id

/-! ## Invites -/

/-- A slice that ends behind the data stops the program. -/
def slice {ε : Type} (data : Bytes) (start n : Nat) : Except (Fault ε) { bs : Bytes // bs.length = n } :=
  if h : ((data.drop start).take n).length = n then .ok ⟨_, h⟩ else .error .panic

def byteAt {ε : Type} (data : Bytes) (i : Nat) : Except (Fault ε) UInt8 :=
  match data[i]? with
  | some b => .ok b
  | none => .error .panic

structure InviteRecord where
  idPubkey : Bytes32
  ownershipProof : Bytes64
  nextFeedPubkey : Bytes32
  inviteType : UInt8
  payload : Bytes

def InviteRecord.deserialize (data : Bytes) : Except (Fault WireError) InviteRecord := do
  if data.length < 131 then throw (.error (.bufferTooShort 131 data.length))
  let idPubkey ← slice data 0 32
  let ownershipProof ← slice data 32 64
  let nextFeedPubkey ← slice data 96 32
  let inviteType ← byteAt data 128
  if inviteType ≠ INVITE_TYPE_DM ∧ inviteType ≠ INVITE_TYPE_PRIVATE then throw (.error (.invalidInviteType inviteType))
  let payloadLen := ofLeBytes (← slice data 129 2).1
  if data.length < 131 + payloadLen then throw (.error (.bufferTooShort (131 + payloadLen) data.length))
  let payload ← slice data 131 payloadLen
  return ⟨idPubkey, ownershipProof, nextFeedPubkey, inviteType, payload.1⟩

def decryptInvite (key data : Bytes) : Except (Fault WireError) Bytes := do
  if data.length < NONCE_SIZE + TAG_SIZE then
    throw (.error (.bufferTooShort (NONCE_SIZE + TAG_SIZE) data.length))
  let nonce ← slice data 0 NONCE_SIZE
  let tag ← slice data NONCE_SIZE TAG_SIZE
  match P.decryptDetached key nonce.1 (data.drop (NONCE_SIZE + TAG_SIZE)) tag.1 with
  | some plaintext => return plaintext
  | none => throw (.error .decryptionFailed)

def nameAndSalt (payload : Bytes) : Except (Fault InviteError) (Option (Bytes × Bytes)) := do
  if payload.length < 3 then return none
  let nameLen := (← byteAt payload 0).toNat
  if payload.length < 1 + nameLen + 2 then return none
  let name ← slice payload 1 nameLen
  let saltLen := ofLeBytes (← slice payload (1 + nameLen) 2).1
  if payload.length < 3 + nameLen + saltLen then return none
  let salt ← slice payload (3 + nameLen) saltLen
  return some (name.1, salt.1)

def during {α : Type} (f : WireError → InviteError) : Except (Fault WireError) α → Except (Fault InviteError) α
  | .ok x => .ok x
  | .error .panic => .error .panic
  | .error (.error e) => .error (.error (f e))

structure DecodedInvite where
  senderPubkey : Bytes32
  nextFeedPubkey : Bytes32
  inviteType : UInt8
  payload : Bytes

def decryptAndVerifyInvite (encryptedData : Bytes) (feed : Bytes32) (me : Keypair) :
    Except (Fault InviteError) DecodedInvite :=
  match P.pubkeyToX25519 feed with
  | none => .error (.error .invalidFeedPubkey)
  | some feedX => do
    let secret := P.x25519Ecdh (P.secretToX25519 me.secretKey) feedX
    let plaintext ← during .decrypt (decryptInvite P (inviteKey P secret feed) encryptedData)
    let record ← during .parse (InviteRecord.deserialize plaintext)
    let invite := ⟨record.idPubkey, record.nextFeedPubkey, record.inviteType, record.payload⟩
    let proves (key : Bytes) : Bool := verifyOwnershipProof P record.idPubkey feed key record.ownershipProof
    if proves (dmChannelKey P record.idPubkey me.publicKey) then return invite
    if record.inviteType = INVITE_TYPE_PRIVATE then
      if let some (name, salt) ← nameAndSalt record.payload then
        if proves (channelKey P name (some salt)) then return invite
    throw (.error .proofFailed)

/-! ## No data stops the program -/

section
variable {ε α β : Type} {data : Bytes} {start n : Nat}

theorem length_slice (h : start + n ≤ data.length) : ((data.drop start).take n).length = n := by
  rw [length_take, length_drop]
  omega

theorem slice_bind (h : start + n ≤ data.length) (f : { bs : Bytes // bs.length = n } → Except (Fault ε) α) :
    slice data start n >>= f = f ⟨(data.drop start).take n, length_slice h⟩ := by
  rw [slice, dif_pos (length_slice h)]
  rfl

theorem byteAt_bind (h : n < data.length) (f : UInt8 → Except (Fault ε) α) : byteAt data n >>= f = f data[n] := by
  rw [byteAt, getElem?_eq_getElem h]
  rfl

theorem during_bind {f : WireError → InviteError} {x : Except (Fault WireError) α}
    {g : α → Except (Fault InviteError) β} {Q : β → Prop} (hx : x ≠ .error .panic)
    (hg : ∀ a, g a ≠ .error .panic ∧ ∀ v, g a = .ok v → Q v) :
    during f x >>= g ≠ .error .panic ∧ ∀ v, during f x >>= g = .ok v → Q v := by
  obtain (_ | e) | a := x
  · exact absurd rfl hx
  · exact ⟨nofun, nofun⟩
  · exact hg a

theorem slice_append_drop : (data.drop start).take n ++ data.drop (start + n) = data.drop start := by
  rw [← drop_drop, take_append_drop]

end

theorem deserialize_ne_panic (data : Bytes) : InviteRecord.deserialize data ≠ .error .panic := by
  unfold InviteRecord.deserialize
  split
  · exact nofun
  · rw [slice_bind (by omega), slice_bind (by omega), slice_bind (by omega), byteAt_bind (by omega)]
    split
    · exact nofun
    · rw [slice_bind (by omega)]
      dsimp only
      split
      · exact nofun
      · rw [slice_bind (by omega)]
        exact nofun

theorem decryptInvite_ne_panic (key data : Bytes) : decryptInvite P key data ≠ .error .panic := by
  unfold decryptInvite
  split
  · exact nofun
  · rw [slice_bind (by omega), slice_bind (by omega)]
    split <;> exact nofun

/-- The payload begins with the name and the salt, each behind its length. -/
def Encodes (payload name salt : Bytes) : Prop :=
  ∃ b len, b :: (name ++ (len ++ salt)) <+: payload ∧ b.toNat = name.length ∧ len.length = 2 ∧
    ofLeBytes len = salt.length

theorem nameAndSalt_cases (payload : Bytes) : nameAndSalt payload = pure none ∨
    ∃ name salt, nameAndSalt payload = pure (some (name, salt)) ∧ Encodes payload name salt := by
  unfold nameAndSalt
  split
  · exact .inl rfl
  · rw [byteAt_bind (by omega)]
    dsimp only
    split
    · exact .inl rfl
    · rw [slice_bind (by omega), slice_bind (by omega)]
      dsimp only
      split
      · exact .inl rfl
      · rw [slice_bind (by omega)]
        refine .inr ⟨_, _, rfl, payload[0], _, ?_, (length_slice (by omega)).symm, length_slice (by omega),
          (length_slice (by omega)).symm⟩
        refine ⟨payload.drop (3 + payload[0].toNat + ofLeBytes ((payload.drop (1 + payload[0].toNat)).take 2)), ?_⟩
        rw [cons_append, append_assoc, append_assoc, slice_append_drop, show 3 + payload[0].toNat =
          1 + payload[0].toNat + 2 by omega, slice_append_drop, slice_append_drop]
        exact getElem_cons_drop (by omega)

/-! ## Statements of different channels -/

/-- The names and salts whose length the key tells in four bytes. -/
abbrev Name := { bs : Bytes // bs.length < 2 ^ 32 }

/-- A channel with a name and maybe a salt, or that of two parties. -/
inductive Channel where
  | named (name : Name) (salt : Option Name)
  | dm (a b : Bytes32)

namespace Channel

def key : Channel → Bytes
  | named name salt => channelKey P name.1 (salt.map (·.1))
  | dm a b => dmChannelKey P a b

def Same : Channel → Channel → Prop
  | named name salt, named name' salt' => name = name' ∧ salt = salt'
  | dm a b, dm a' b' => a = a' ∧ b = b' ∨ a = b' ∧ b = a'
  | _, _ => False

end Channel

/-- A length in front of its bytes tells where they end. -/
theorem len4_append_inj {x y : Name} {s t : Bytes}
    (h : len4 x.1 ++ (x.1 ++ s) = len4 y.1 ++ (y.1 ++ t)) : x = y ∧ s = t := by
  obtain ⟨hlen, hrest⟩ := append_inj h (by simp [len4])
  have hlength := congrArg ofLeBytes hlen
  rw [len4, len4, ofLeBytes_leBytes x.2, ofLeBytes_leBytes y.2] at hlength
  exact (append_inj hrest hlength).imp_left Subtype.ext

theorem channelKey_inj {name name' : Name} {salt salt' : Option Name}
    (h : (Channel.named name salt).key P = (Channel.named name' salt').key P) : name = name' ∧ salt = salt' := by
  have hmark : ∀ x, utf8 ":salt:" ++ x ≠ [] := fun x hx => absurd (append_eq_nil_iff.mp hx).1 (by decide +kernel)
  obtain _ | s := salt <;> obtain _ | s' := salt' <;> replace h := P.hash_injective h <;>
    simp only [append_assoc] at h <;> replace h := append_cancel_left h
  · exact ⟨(len4_append_inj (s := []) (t := []) (by simpa using h)).1, rfl⟩
  · exact absurd (len4_append_inj (s := []) (by simpa using h)).2.symm (hmark _)
  · exact absurd (len4_append_inj (t := []) (by simpa using h)).2 (hmark _)
  · obtain ⟨rfl, hrest⟩ := len4_append_inj h
    exact ⟨rfl, congrArg some (len4_append_inj (s := []) (t := []) (by simpa using append_cancel_left hrest)).1⟩

theorem dmChannelKey_inj {a b a' b' : Bytes32} (h : dmChannelKey P a b = dmChannelKey P a' b') :
    a = a' ∧ b = b' ∨ a = b' ∧ b = a' := by
  have cut : ∀ x y x' y' : Bytes32, utf8 "peeroxide-chat:dm:v1:" ++ x.1 ++ y.1 = utf8 "peeroxide-chat:dm:v1:" ++ x'.1 ++ y'.1 →
      x = x' ∧ y = y' := by
    intro x y x' y' h
    rw [append_assoc, append_assoc] at h
    exact (append_inj (append_cancel_left h) (x.2.trans x'.2.symm)).imp Subtype.ext Subtype.ext
  unfold dmChannelKey at h
  split_ifs at h <;> have := cut _ _ _ _ (P.hash_injective h) <;> simp_all

theorem named_ne_dm {name : Bytes} {salt : Option Bytes} {a b : Bytes32} : channelKey P name salt ≠ dmChannelKey P a b := by
  intro h
  unfold channelKey dmChannelKey at h
  split at h <;>
  · replace h := congrArg (take 16) (P.hash_injective h)
    simp only [append_assoc] at h
    rw [take_append_of_le_length (by decide +kernel), take_append_of_le_length (by decide +kernel)] at h
    exact absurd h (by decide +kernel)

/-- **Authentic invites.** Whatever the data, the program does not stop; if an invite is returned, its sender has signed
the feed's key with the key of the channel of the two parties or, for a private invite, with that of the channel its
payload encodes; and no two different channels share a statement. -/
theorem invite_authentic (feed : Bytes32) (me : Keypair) :
    (∀ data, decryptAndVerifyInvite P data feed me ≠ .error .panic ∧
      ∀ invite, decryptAndVerifyInvite P data feed me = .ok invite →
        P.Signed invite.senderPubkey (ownershipStatement feed (dmChannelKey P invite.senderPubkey me.publicKey)) ∨
        invite.inviteType = INVITE_TYPE_PRIVATE ∧ ∃ name salt, Encodes invite.payload name salt ∧
          P.Signed invite.senderPubkey (ownershipStatement feed (channelKey P name (some salt)))) ∧
    ∀ c c' : Channel, ¬ c.Same c' → ownershipStatement feed (c.key P) ≠ ownershipStatement feed (c'.key P) := by
  refine ⟨fun data => ?_, fun c c' hne h => hne ?_⟩
  · unfold decryptAndVerifyInvite
    split
    · exact ⟨nofun, nofun⟩
    · refine during_bind (decryptInvite_ne_panic P _ data) fun plaintext =>
        during_bind (deserialize_ne_panic plaintext) fun record => ?_
      dsimp only
      split
      next hdm =>
        refine ⟨nofun, fun invite h => ?_⟩
        cases h
        exact .inl (P.unforgeable _ _ _ hdm)
      · split
        next hprivate =>
          obtain e | ⟨name, salt, e, henc⟩ := nameAndSalt_cases record.payload <;>
            rw [e, pure_bind] <;> dsimp only
          · exact ⟨nofun, nofun⟩
          · split
            next hsalt =>
              refine ⟨nofun, fun invite h => ?_⟩
              cases h
              exact .inr ⟨hprivate, name, salt, henc, P.unforgeable _ _ _ hsalt⟩
            · exact ⟨nofun, nofun⟩
        · exact ⟨nofun, nofun⟩
  · have h := append_cancel_left h
    cases c <;> cases c'
    · exact channelKey_inj P h
    · exact named_ne_dm P h
    · exact named_ne_dm P h.symm
    · exact dmChannelKey_inj P h

/-- A signature is the key with the last bytes of the message, and nothing is encrypted. -/
def plainChat : ChatPrimitives where
  hash := id
  hash_injective := Function.injective_id
  keyedBlake2b key _ := key
  pubkeyToX25519 := some
  secretToX25519 := firstHalf
  x25519Ecdh secret _ := secret.1
  decryptDetached _ _ ciphertext _ := some ciphertext
  verifyDetached signature message key := signature.1 == key.1 ++ message.drop (message.length - 32)
  Signed key message := ∃ signature : Bytes64, signature.1 = key.1 ++ message.drop (message.length - 32)
  unforgeable signature _ _ h := ⟨signature, eq_of_beq h⟩

/-- An invite of the key `1..` to the channel it has with the key `2..`. -/
def dmInvite : Bytes := replicate 40 0 ++ replicate 64 1 ++ replicate 32 2 ++ replicate 32 3 ++ [INVITE_TYPE_DM, 0, 0]

theorem invite_authentic_dm : let me : Keypair := ⟨.fill 2, ⟨replicate 64 2, length_replicate⟩⟩
    ∃ invite, decryptAndVerifyInvite plainChat dmInvite (.fill 5) me = .ok invite ∧
      plainChat.Signed invite.senderPubkey
        (ownershipStatement (.fill 5) (dmChannelKey plainChat invite.senderPubkey me.publicKey)) := by
  intro me
  have hreturned : (decryptAndVerifyInvite plainChat dmInvite (.fill 5) me).toOption.map (·.inviteType) =
      some INVITE_TYPE_DM := by
    decide +kernel
  cases h : decryptAndVerifyInvite plainChat dmInvite (.fill 5) me with
  | error e =>
    rw [h] at hreturned
    cases hreturned
  | ok invite =>
    rw [h] at hreturned
    refine ⟨invite, rfl, (((invite_authentic plainChat (.fill 5) me).1 dmInvite).2 invite h).resolve_right fun hprivate => ?_⟩
    exact absurd ((Option.some.inj hreturned).symm.trans hprivate.1) (by decide)

end Peeroxide.Chat
