import Peeroxide.Dht.Noise

/-!
# Agreement of Noise handshakes

A message is a list of tokens: a public key in the clear, a secret that both ends compute, and bytes that are encrypted.
What one end does to its symmetric state to send the tokens, the other end does to receive them, so two ends that start
in the same state and compute the same secrets end in the same state.

Main result: `noise_agreement`.
-/

namespace Peeroxide.Dht
open Lib HandshakeM List
variable {h : HandshakeState} {prim : NoisePrimitives}

/-! ## Messages as tokens -/

inductive Token where
  | pub (key : Bytes32)
  | secret (dhOutput : Bytes32)
  | sealed (plaintext : Bytes)

namespace SymmetricState
variable (prim : NoisePrimitives)

@[simp] def write : SymmetricState → List Token → Bytes × SymmetricState
  | ss, [] => ([], ss)
  | ss, .pub key :: tokens =>
    let r := write (ss.mixHash prim key.1) tokens
    (key.1 ++ r.1, r.2)
  | ss, .secret dhOutput :: tokens => write (ss.mixKey prim dhOutput) tokens
  | ss, .sealed plaintext :: tokens =>
    let c := ss.encryptAndHash prim plaintext
    let r := write c.2 tokens
    (c.1 ++ r.1, r.2)

variable {prim}

variable (ss : SymmetricState) (dhOutput : Bytes32) (plaintext : Bytes)

@[simp] theorem decrypt_encryptAndHash :
    ss.decryptAndHash prim (ss.encryptAndHash prim plaintext).1 = .ok (plaintext, (ss.encryptAndHash prim plaintext).2) := by
  unfold decryptAndHash encryptAndHash CipherState.decrypt CipherState.encrypt
  cases hkey : ss.cipher.key with
  | none => rfl
  | some key =>
    dsimp only
    rw [prim.decrypt_encrypt]

theorem length_encryptAndHash {ss : SymmetricState} (h : ss.hasKey) (plaintext : Bytes) :
    (ss.encryptAndHash prim plaintext).1.length = plaintext.length + 16 := by
  obtain ⟨key, hkey⟩ := Option.isSome_iff_exists.mp h
  simp only [encryptAndHash, CipherState.encrypt, hkey, prim.length_encrypt]

@[simp] theorem hasKey_mixKey : (ss.mixKey prim dhOutput).hasKey := rfl

@[simp] theorem length_encrypt_mixKey :
    ((ss.mixKey prim dhOutput).encryptAndHash prim plaintext).1.length = plaintext.length + 16 :=
  length_encryptAndHash (hasKey_mixKey ss dhOutput) plaintext

@[simp] theorem hasKey_encryptAndHash : (ss.encryptAndHash prim plaintext).2.hasKey = ss.hasKey := by
  unfold encryptAndHash CipherState.encrypt hasKey mixHash
  cases hkey : ss.cipher.key <;> simp [hkey]

end SymmetricState

/-! ## One action -/

/-- An end that is not complete, by its role and step. -/
structure HandshakeState.Waiting (h : HandshakeState) (role : Bool) (step : Nat) : Prop where
  result : h.result = none
  isInitiator : h.isInitiator = role
  step : h.step = step

namespace HandshakeM
variable {prim : NoisePrimitives} {h : HandshakeState} {α β : Type} {rs : Bytes32}

@[simp] theorem bind_apply (x : HandshakeM α) (f : α → HandshakeM β) (h : HandshakeState) :
    (x >>= f) h = match x h with
      | .ok a h' => f a h'
      | .error e h' => .error e h' := by
  change EStateM.bind x f h = _
  unfold EStateM.bind
  cases x h <;> rfl

@[simp] theorem map_apply (f : α → β) (x : HandshakeM α) (h : HandshakeState) : (f <$> x) h = match x h with
      | .ok a h' => .ok (f a) h'
      | .error e h' => .error e h' := by
  change EStateM.map f x h = _
  unfold EStateM.map
  cases x h <;> rfl

@[simp] theorem pure_apply (a : α) : (pure a : HandshakeM α) h = .ok a h := rfl

@[simp] theorem get_apply : (get : HandshakeM HandshakeState) h = .ok h h := rfl

@[simp] theorem modify_apply (f : HandshakeState → HandshakeState) : (modify f : HandshakeM Unit) h = .ok () (f h) := rfl

@[simp] theorem takeEphemeral_apply (fresh : Keypair) :
    takeEphemeral fresh h = .ok (h.e.getD fresh) { h with e := none } := rfl

@[simp] theorem encryptAndHash_apply (plaintext : Bytes) : encryptAndHash prim plaintext h =
      .ok (h.symmetric.encryptAndHash prim plaintext).1
        { h with symmetric := (h.symmetric.encryptAndHash prim plaintext).2 } := rfl

theorem mixDh_of_some {secretKey : Bytes64} {publicKey secret : Bytes32} (hdh : prim.dh secretKey publicKey = some secret) :
    mixDh prim secretKey publicKey h = .ok () { h with symmetric := h.symmetric.mixKey prim secret } := by
  simp only [mixDh, hdh, modify_apply]

@[simp] theorem copyFromSlice_val (key : Bytes32) : copyFromSlice key.1 h = .ok key h := by
  rw [copyFromSlice, dif_pos key.2, pure_apply]

@[simp] theorem ensure_true : ensure true h = .ok () h := rfl

attribute [simp] putEphemeral ephemeral remoteEphemeral remoteStatic setRemoteEphemeral setRemoteStatic setStep mixHash
  decryptAndHash encryptedKeyLength

/-- The keys of the session, by the role of an end and its symmetric state. -/
def sessionOf (prim : NoisePrimitives) (isInitiator : Bool) (ss : SymmetricState) (rs : Bytes32) : HandshakeResult where
  tx := if isInitiator then (ss.split prim).1 else (ss.split prim).2
  rx := if isInitiator then (ss.split prim).2 else (ss.split prim).1
  handshakeHash := ss.digest
  remotePublicKey := rs

theorem finish_of_some (hrs : h.rs = some rs) : finish prim h = .ok (sessionOf prim h.isInitiator h.symmetric rs)
      { h with result := some (sessionOf prim h.isInitiator h.symmetric rs) } := by
  simp only [finish, bind_apply, get_apply, hrs]
  rfl

theorem dispatch_of_waiting {step : Bool → Nat → HandshakeM α} {role : Bool} {n : Nat} (hw : h.Waiting role n) :
    dispatch step h = step role n h := by
  simp [dispatch, HandshakeState.complete, hw.result, hw.isInitiator, hw.step]

end HandshakeM
open HandshakeM

/-! ## Slices of a message -/

section
variable {key : Bytes32} {encS rest : Bytes}

@[simp] theorem drop_key : (key.1 ++ rest).drop 32 = rest := drop_left' key.2

theorem drop_encS (hlen : encS.length = 48) : (key.1 ++ (encS ++ rest)).drop (32 + 48) = rest := by
  rw [← drop_drop, drop_key, drop_left' hlen]

end

/-! ## The XX handshake sends and receives its tokens -/

namespace Handshake
variable {prim : NoisePrimitives} {h : HandshakeState} {fresh e : Keypair} {re rs k₁ k₂ : Bytes32}
  {w : Bytes × SymmetricState}

theorem initiatorSendM1_eq (hwait : h.Waiting true 0)
    (hw : h.symmetric.write prim [.pub e.publicKey, .sealed []] = w) (he : h.e.getD fresh = e) :
    send prim fresh h = .ok w.1 { h with symmetric := w.2, e := some e, step := 1 } := by
  subst hw
  rw [send, dispatch_of_waiting hwait]
  simp [initiatorSendM1, he]

theorem responderRecvM1_eq (hwait : h.Waiting false 0) (hw : h.symmetric.write prim [.pub re, .sealed []] = w) :
    recv prim w.1 h = .ok none { h with symmetric := w.2, re := some re, step := 1 } := by
  subst hw
  rw [recv, dispatch_of_waiting hwait]
  simp [responderRecvM1, re.2]

theorem responderSendM2_eq (hwait : h.Waiting false 1) (hw : h.symmetric.write prim
      [.pub e.publicKey, .secret k₁, .sealed h.s.publicKey.1, .secret k₂, .sealed []] = w)
    (hre : h.re = some re) (he : h.e.getD fresh = e) (hee : prim.dh e.secretKey re = some k₁)
    (hes : prim.dh h.s.secretKey re = some k₂) :
    send prim fresh h = .ok w.1 { h with symmetric := w.2, e := some e, step := 2 } := by
  subst hw
  rw [send, dispatch_of_waiting hwait]
  simp [responderSendM2, hre, he, mixDh_of_some hee, mixDh_of_some hes]

theorem initiatorRecvM2_eq (hwait : h.Waiting true 1)
    (hw : h.symmetric.write prim [.pub re, .secret k₁, .sealed rs.1, .secret k₂, .sealed []] = w)
    (he : h.e = some e) (hee : prim.dh e.secretKey re = some k₁) (hes : prim.dh e.secretKey rs = some k₂) :
    recv prim w.1 h = .ok none { h with symmetric := w.2, re := some re, rs := some rs, step := 2 } := by
  subst hw
  have hlen : (((h.symmetric.mixHash prim re.1).mixKey prim k₁).encryptAndHash prim rs.1).1.length = 48 := by
    rw [SymmetricState.length_encrypt_mixKey, rs.2]
  rw [recv, dispatch_of_waiting hwait]
  simp [initiatorRecvM2, he, mixDh_of_some hee, mixDh_of_some hes, re.2, hlen, take_left' hlen, drop_encS hlen]

theorem initiatorSendM3_eq (hwait : h.Waiting true 2)
    (hw : h.symmetric.write prim [.sealed h.s.publicKey.1, .secret k₁, .sealed []] = w)
    (hre : h.re = some re) (hrs : h.rs = some rs) (hse : prim.dh h.s.secretKey re = some k₁) : send prim fresh h =
      .ok w.1 { h with symmetric := w.2, step := 3, result := some (sessionOf prim h.isInitiator w.2 rs) } := by
  subst hw
  rw [send, dispatch_of_waiting hwait]
  simp [initiatorSendM3, hre, mixDh_of_some hse, finish_of_some, hrs]

theorem responderRecvM3_eq (hwait : h.Waiting false 2)
    (hw : h.symmetric.write prim [.sealed rs.1, .secret k₁, .sealed []] = w)
    (hkey : h.symmetric.hasKey) (he : h.e = some e) (hse : prim.dh e.secretKey rs = some k₁) :
    recv prim w.1 h = .ok (some (sessionOf prim h.isInitiator w.2 rs))
      { h with symmetric := w.2, rs := some rs, step := 3, result := some (sessionOf prim h.isInitiator w.2 rs) } := by
  subst hw
  have hlen : (h.symmetric.encryptAndHash prim rs.1).1.length = 48 := by
    rw [SymmetricState.length_encryptAndHash hkey, rs.2]
  rw [recv, dispatch_of_waiting hwait]
  simp [responderRecvM3, he, hkey, mixDh_of_some hse, finish_of_some, hlen]

end Handshake
open Handshake

/-! ## The IK handshake sends and receives its tokens -/

namespace HandshakeIK
variable {prim : NoisePrimitives} {h : HandshakeState} {fresh e : Keypair} {re rs k₁ k₂ : Bytes32} {payload : Bytes}
  {w : Bytes × SymmetricState}

theorem initiatorSendM1_eq (hwait : h.Waiting true 0) (hw : h.symmetric.write prim
      [.pub e.publicKey, .secret k₁, .sealed h.s.publicKey.1, .secret k₂, .sealed payload] = w)
    (hrs : h.rs = some rs) (he : h.e.getD fresh = e) (hes : prim.dh e.secretKey rs = some k₁)
    (hss : prim.dh h.s.secretKey rs = some k₂) :
    send prim fresh payload h = .ok w.1 { h with symmetric := w.2, e := some e, step := 1 } := by
  subst hw
  rw [send, dispatch_of_waiting hwait]
  simp [initiatorSendM1, hrs, he, mixDh_of_some hes, mixDh_of_some hss]

theorem responderRecvM1_eq (hwait : h.Waiting false 0)
    (hw : h.symmetric.write prim [.pub re, .secret k₁, .sealed rs.1, .secret k₂, .sealed payload] = w)
    (hes : prim.dh h.s.secretKey re = some k₁) (hss : prim.dh h.s.secretKey rs = some k₂) :
    recv prim w.1 h = .ok payload { h with symmetric := w.2, re := some re, rs := some rs, step := 1 } := by
  subst hw
  have hlen : (((h.symmetric.mixHash prim re.1).mixKey prim k₁).encryptAndHash prim rs.1).1.length = 48 := by
    rw [SymmetricState.length_encrypt_mixKey, rs.2]
  have hfit : 96 ≤ 32 + (48 + (payload.length + 16)) := by omega
  rw [recv, dispatch_of_waiting hwait]
  simp [responderRecvM1, mixDh_of_some hes, mixDh_of_some hss, re.2, hlen, hfit, drop_encS hlen]

theorem responderSendM2_eq (hwait : h.Waiting false 1)
    (hw : h.symmetric.write prim [.pub e.publicKey, .secret k₁, .secret k₂, .sealed payload] = w)
    (hre : h.re = some re) (hrs : h.rs = some rs) (he : h.e.getD fresh = e)
    (hee : prim.dh e.secretKey re = some k₁) (hse : prim.dh e.secretKey rs = some k₂) :
    send prim fresh payload h = .ok w.1
      { h with symmetric := w.2, e := some e, step := 2, result := some (sessionOf prim h.isInitiator w.2 rs) } := by
  subst hw
  rw [send, dispatch_of_waiting hwait]
  simp [responderSendM2, hre, hrs, he, mixDh_of_some hee, mixDh_of_some hse, finish_of_some]

theorem initiatorRecvM2_eq (hwait : h.Waiting true 1)
    (hw : h.symmetric.write prim [.pub re, .secret k₁, .secret k₂, .sealed payload] = w)
    (he : h.e = some e) (hrs : h.rs = some rs) (hee : prim.dh e.secretKey re = some k₁)
    (hse : prim.dh h.s.secretKey re = some k₂) : recv prim w.1 h = .ok payload
      { h with symmetric := w.2, re := some re, step := 2, result := some (sessionOf prim h.isInitiator w.2 rs) } := by
  subst hw
  have hfit : 48 ≤ 32 + (payload.length + 16) := by omega
  rw [recv, dispatch_of_waiting hwait]
  simp [initiatorRecvM2, he, mixDh_of_some hee, mixDh_of_some hse, finish_of_some, hrs, re.2, hfit]

end HandshakeIK

/-! ## The step of the pattern -/

inductive Turn where
  | send
  | recv
  deriving DecidableEq

/-- The XX handshake, as each end sees it. -/
def xxTurns (isInitiator : Bool) : List Turn := if isInitiator then [.send, .recv, .send] else [.recv, .send, .recv]

/-- The IK handshake, as each end sees it. -/
def ikTurns (isInitiator : Bool) : List Turn := if isInitiator then [.send, .recv] else [.recv, .send]

def HandshakeState.next (turns : Bool → List Turn) (h : HandshakeState) : Option Turn :=
  if h.complete then none else (turns h.isInitiator)[h.step]?

/-! ## Two honest ends -/

/-- The ephemeral keys are set beforehand, or not. -/
def HandshakeState.prepared (h : HandshakeState) : Option Keypair → HandshakeState
  | none => h
  | some keypair => h.setEphemeral keypair

def Keypair.Valid (prim : NoisePrimitives) (keypair : Keypair) : Prop :=
  keypair.publicKey = prim.publicKey keypair.secretKey

theorem Keypair.Valid.shared {a b : Keypair} (ha : a.Valid prim) (hb : b.Valid prim) :
    ∃ k, prim.dh a.secretKey b.publicKey = some k ∧ prim.dh b.secretKey a.publicKey = some k := by
  obtain ⟨k, hk⟩ := Option.isSome_iff_exists.mp (prim.dh_isSome a.secretKey b.secretKey)
  refine ⟨k, ?_, ?_⟩
  · rw [hb, hk]
  · rw [ha, ← prim.dh_comm, hk]

/-- One end takes a step; what it returns goes on. -/
def HandshakeM.run {α : Type} (x : HandshakeM α) (h : HandshakeState) : Except (Fault NoiseError) (α × HandshakeState) :=
  match x h with
  | .ok a h' => .ok (a, h')
  | .error e _ => .error e

theorem HandshakeM.run_of_ok {α : Type} {x : HandshakeM α} {h' : HandshakeState} {a : α} (hx : x h = .ok a h') :
    run x h = .ok (a, h') := by
  rw [run, hx]

/-- Every message is received as it was sent. -/
def Handshake.exchange (prim : NoisePrimitives) (freshI freshR : Keypair) (i r : HandshakeState) :
    Except (Fault NoiseError) (Option HandshakeResult × HandshakeState × HandshakeState) := do
  let (m1, i) ← run (send prim freshI) i
  let (_, r) ← run (recv prim m1) r
  let (m2, r) ← run (send prim freshR) r
  let (_, i) ← run (recv prim m2) i
  let (m3, i) ← run (send prim freshI) i
  let (result, r) ← run (recv prim m3) r
  return (result, i, r)

/-- The payloads as they arrive at the responder and at the initiator. -/
def HandshakeIK.exchange (prim : NoisePrimitives) (freshI freshR : Keypair) (payload₁ payload₂ : Bytes)
    (i r : HandshakeState) : Except (Fault NoiseError) (Bytes × Bytes × HandshakeState × HandshakeState) := do
  let (m1, i) ← run (send prim freshI payload₁) i
  let (received₁, r) ← run (recv prim m1) r
  let (m2, r) ← run (send prim freshR payload₂) r
  let (received₂, i) ← run (recv prim m2) i
  return (received₁, received₂, i, r)

structure Agreed (si sr : Keypair) (i r : HandshakeState) (ri rr : HandshakeResult) : Prop where
  initiator : i.result = some ri
  responder : r.result = some rr
  tx : ri.tx = rr.rx
  rx : ri.rx = rr.tx
  handshakeHash : ri.handshakeHash = rr.handshakeHash
  initiatorRemote : ri.remotePublicKey = sr.publicKey
  responderRemote : rr.remotePublicKey = si.publicKey

theorem agreed_of_sessions {si sr : Keypair} {i r : HandshakeState} {ss : SymmetricState} {roleI roleR : Bool}
    (hroleI : roleI = true) (hroleR : roleR = false) (hi : i.result = some (sessionOf prim roleI ss sr.publicKey))
    (hr : r.result = some (sessionOf prim roleR ss si.publicKey)) :
    Agreed si sr i r (sessionOf prim roleI ss sr.publicKey) (sessionOf prim roleR ss si.publicKey) := by
  subst hroleI hroleR
  exact ⟨hi, hr, rfl, rfl, rfl, rfl, rfl⟩

theorem prepared_eq (he : h.e = none) (p : Option Keypair) : h.prepared p = { h with e := p } := by
  cases p with
  | none => rw [HandshakeState.prepared, ← he]
  | some keypair => rfl

section
variable {prim : NoisePrimitives} {fi fr ei er : Keypair} {i r : HandshakeState}
variable {i₁ i₂ r₁ r₂ : HandshakeState} {m₁ m₂ payload₁ payload₂ : Bytes}

theorem Handshake.exchange_of_steps {i₃ r₃ : HandshakeState} {m₃ : Bytes}
    {x y result : Option HandshakeResult} (send₁ : send prim fi i = .ok m₁ i₁) (recv₁ : recv prim m₁ r = .ok x r₁)
    (send₂ : send prim fr r₁ = .ok m₂ r₂) (recv₂ : recv prim m₂ i₁ = .ok y i₂) (send₃ : send prim fi i₂ = .ok m₃ i₃)
    (recv₃ : recv prim m₃ r₂ = .ok result r₃) : exchange prim fi fr i r = .ok (result, i₃, r₃) := by
  simp only [exchange, run_of_ok send₁, run_of_ok recv₁, run_of_ok send₂, run_of_ok recv₂, run_of_ok send₃,
    run_of_ok recv₃, bind, Except.bind, pure, Except.pure]

theorem HandshakeIK.exchange_of_steps {received₁ received₂ : Bytes}
    (send₁ : send prim fi payload₁ i = .ok m₁ i₁) (recv₁ : recv prim m₁ r = .ok received₁ r₁)
    (send₂ : send prim fr payload₂ r₁ = .ok m₂ r₂) (recv₂ : recv prim m₂ i₁ = .ok received₂ i₂) :
    exchange prim fi fr payload₁ payload₂ i r = .ok (received₁, received₂, i₂, r₂) := by
  simp only [exchange, run_of_ok send₁, run_of_ok recv₁, run_of_ok send₂, run_of_ok recv₂, bind, Except.bind, pure,
    Except.pure]

section
variable (hi : i.Waiting true 0) (hr : r.Waiting false 0) (hss : r.symmetric = i.symmetric) (hei : i.e.getD fi = ei)
  (her : r.e.getD fr = er) (vsi : i.s.Valid prim) (vsr : r.s.Valid prim) (vei : ei.Valid prim) (ver : er.Valid prim)
include hi hr hss hei her vsi vsr vei ver

theorem Handshake.exchange_agrees :
    ∃ i' r' ri rr, exchange prim fi fr i r = .ok (some rr, i', r') ∧ Agreed i.s r.s i' r' ri rr := by
  obtain ⟨ee, hee, hee'⟩ := vei.shared ver
  obtain ⟨es, hes, hes'⟩ := vei.shared vsr
  obtain ⟨se, hse, hse'⟩ := vsi.shared ver
  -- the state behind each message, at both ends
  generalize hw₁ : i.symmetric.write prim [.pub ei.publicKey, .sealed []] = w₁
  generalize hw₂ : w₁.2.write prim
    [.pub er.publicKey, .secret ee, .sealed r.s.publicKey.1, .secret es, .sealed []] = w₂
  generalize hw₃ : w₂.2.write prim [.sealed i.s.publicKey.1, .secret se, .sealed []] = w₃
  have hkey : w₂.2.hasKey := by simp [← hw₂]
  exact ⟨_, _, _, _, exchange_of_steps (initiatorSendM1_eq hi hw₁ hei) (responderRecvM1_eq hr (hss ▸ hw₁))
    (responderSendM2_eq ⟨hr.result, hr.isInitiator, rfl⟩ hw₂ rfl her hee' hes')
    (initiatorRecvM2_eq ⟨hi.result, hi.isInitiator, rfl⟩ hw₂ rfl hee hes)
    (initiatorSendM3_eq ⟨hi.result, hi.isInitiator, rfl⟩ hw₃ rfl rfl hse)
    (responderRecvM3_eq ⟨hr.result, hr.isInitiator, rfl⟩ hw₃ hkey rfl hse'),
    agreed_of_sessions hi.isInitiator hr.isInitiator rfl rfl⟩

theorem HandshakeIK.exchange_agrees (hrs : i.rs = some r.s.publicKey) :
    ∃ i' r' ri rr, exchange prim fi fr payload₁ payload₂ i r = .ok (payload₁, payload₂, i', r') ∧
      Agreed i.s r.s i' r' ri rr := by
  obtain ⟨ee, hee, hee'⟩ := vei.shared ver
  obtain ⟨es, hes, hes'⟩ := vei.shared vsr
  obtain ⟨se, hse, hse'⟩ := vsi.shared ver
  obtain ⟨ss, hs, hs'⟩ := vsi.shared vsr
  generalize hw₁ : i.symmetric.write prim
    [.pub ei.publicKey, .secret es, .sealed i.s.publicKey.1, .secret ss, .sealed payload₁] = w₁
  generalize hw₂ : w₁.2.write prim [.pub er.publicKey, .secret ee, .secret se, .sealed payload₂] = w₂
  exact ⟨_, _, _, _, exchange_of_steps (initiatorSendM1_eq hi hw₁ hrs hei hes hs)
    (responderRecvM1_eq hr (hss ▸ hw₁) hes' hs')
    (responderSendM2_eq ⟨hr.result, hr.isInitiator, rfl⟩ hw₂ rfl rfl her hee' hse')
    (initiatorRecvM2_eq ⟨hi.result, hi.isInitiator, rfl⟩ hw₂ rfl hrs hee hse),
    agreed_of_sessions hi.isInitiator hr.isInitiator rfl rfl⟩

end
end

/-! ## Out of order -/

/-- What is not the next step fails, and changes nothing. -/
def HandshakeM.Refused {α : Type} (x : HandshakeM α) (h : HandshakeState) : Prop := ∃ e, x h = .error (.error e) h

theorem HandshakeM.dispatch_refused {α : Type} {step : Bool → Nat → HandshakeM α} {turns : Bool → List Turn} {turn : Turn}
    (hnext : h.next turns ≠ some turn)
    (hstep : ∀ role n, (turns role)[n]? ≠ some turn → step role n = throw (.error .unexpectedState)) :
    Refused (dispatch step) h := by
  simp only [Refused, dispatch, bind_apply, get_apply]
  rw [HandshakeState.next] at hnext
  by_cases hcomplete : h.complete
  · rw [if_pos hcomplete]
    exact ⟨_, rfl⟩
  · rw [if_neg hcomplete] at hnext ⊢
    rw [hstep _ _ hnext]
    exact ⟨_, rfl⟩

section
variable {prim : NoisePrimitives} {h : HandshakeState}

variable (message : Bytes) (fresh : Keypair)

theorem Handshake.send_refused (hnext : h.next xxTurns ≠ some .send) : Refused (send prim fresh) h := by
  refine dispatch_refused hnext fun role n => ?_
  rcases role with _ | _ <;> rcases n with _ | _ | _ | n <;> simp [xxTurns]

theorem Handshake.recv_refused (hnext : h.next xxTurns ≠ some .recv) : Refused (recv prim message) h := by
  refine dispatch_refused hnext fun role n => ?_
  rcases role with _ | _ <;> rcases n with _ | _ | _ | n <;> simp [xxTurns]

theorem HandshakeIK.send_refused (payload : Bytes) (hnext : h.next ikTurns ≠ some .send) :
    Refused (send prim fresh payload) h := by
  refine dispatch_refused hnext fun role n => ?_
  rcases role with _ | _ <;> rcases n with _ | _ | n <;> simp [ikTurns]

theorem HandshakeIK.recv_refused (hnext : h.next ikTurns ≠ some .recv) : Refused (recv prim message) h := by
  refine dispatch_refused hnext fun role n => ?_
  rcases role with _ | _ <;> rcases n with _ | _ | n <;> simp [ikTurns]

end

/-! ## Both handshakes -/

/-- **Two honest ends complete either handshake with the same session and each other's keys, and the payloads of the IK
handshake arrive; and in every state, a step that is not the next one of the pattern is refused.** -/
theorem noise_agreement (prim : NoisePrimitives) (si sr fi fr : Keypair) (pi pr : Option Keypair)
    (hsi : si.Valid prim) (hsr : sr.Valid prim) (hei : (pi.getD fi).Valid prim) (her : (pr.getD fr).Valid prim) :
    (∃ i r ri rr, exchange prim fi fr ((new prim true si).prepared pi)
          ((new prim false sr).prepared pr) = .ok (some rr, i, r) ∧ Agreed si sr i r ri rr) ∧
    (∀ prologue payload₁ payload₂, ∃ i r ri rr, HandshakeIK.exchange prim fi fr payload₁ payload₂
          ((HandshakeIK.newInitiator prim si sr.publicKey prologue).prepared pi)
          ((HandshakeIK.newResponder prim sr prologue).prepared pr) = .ok (payload₁, payload₂, i, r) ∧
        Agreed si sr i r ri rr) ∧ ∀ (h : HandshakeState) (fresh : Keypair) (message payload : Bytes),
      (h.next xxTurns ≠ some .send → Refused (send prim fresh) h) ∧
      (h.next xxTurns ≠ some .recv → Refused (recv prim message) h) ∧
      (h.next ikTurns ≠ some .send → Refused (HandshakeIK.send prim fresh payload) h) ∧
      (h.next ikTurns ≠ some .recv → Refused (HandshakeIK.recv prim message) h) := by
  refine ⟨?_, fun prologue payload₁ payload₂ => ?_, fun h fresh message payload => ?_⟩
  · rw [prepared_eq rfl, prepared_eq rfl]
    exact exchange_agrees ⟨rfl, rfl, rfl⟩ ⟨rfl, rfl, rfl⟩ (by rfl) rfl rfl hsi hsr hei her
  · rw [prepared_eq rfl, prepared_eq rfl]
    exact HandshakeIK.exchange_agrees ⟨rfl, rfl, rfl⟩ ⟨rfl, rfl, rfl⟩ (by rfl) rfl rfl hsi hsr hei her rfl
  · exact ⟨send_refused fresh, recv_refused message, HandshakeIK.send_refused fresh payload,
      HandshakeIK.recv_refused message⟩

/-! ## Primitives that compute -/

/-- Secrets by exclusive or, a hash that keeps the first bytes, and a cipher that only adds a tag. -/
def plainNoise : NoisePrimitives where
  dh secretKey publicKey :=
    some ⟨List.zipWith (· ^^^ ·) (secretKey.1.take 32) publicKey.1, by simp [secretKey.2, publicKey.2]⟩
  publicKey := firstHalf
  hash bs := ⟨(bs ++ List.replicate 64 0).take 64, by simp⟩
  encrypt _ _ _ plaintext := plaintext ++ List.replicate 16 0
  decrypt _ _ _ ciphertext := some (ciphertext.take (ciphertext.length - 16))
  dh_comm a b := congrArg some (Subtype.ext (List.zipWith_comm_of_comm fun x y => UInt8.xor_comm x y))
  dh_isSome _ _ := rfl
  length_encrypt _ _ _ _ := by simp
  decrypt_encrypt _ _ _ _ := by simp

def plainKeypair (b : UInt8) : Keypair := ⟨.fill b, ⟨List.replicate 64 b, by simp⟩⟩

theorem valid_plainKeypair (b : UInt8) : (plainKeypair b).Valid plainNoise := Subtype.ext rfl

theorem noise_agreement_plain : ∃ i r ri rr,
      exchange plainNoise (plainKeypair 3) (plainKeypair 4) (new plainNoise true (plainKeypair 1))
          ((new plainNoise false (plainKeypair 2)).setEphemeral (plainKeypair 5)) = .ok (some rr, i, r) ∧
        Agreed (plainKeypair 1) (plainKeypair 2) i r ri rr :=
  (noise_agreement plainNoise (plainKeypair 1) (plainKeypair 2) (plainKeypair 3) (plainKeypair 4) none
    (some (plainKeypair 5)) (valid_plainKeypair 1) (valid_plainKeypair 2) (valid_plainKeypair 3)
    (valid_plainKeypair 5)).1

end Peeroxide.Dht
