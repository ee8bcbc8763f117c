import Peeroxide.Dht.Persistent

/-!
# Who may change an announcement

What an ANNOUNCE and an UNANNOUNCE do to the store, read off once, and who can take part in it.

Main result: `announce_store_authority`.
-/

namespace Peeroxide.Dht
open Lib AList

/-! ## Signed requests -/

/-- A request for `target` whose value reads as `msg` and carries a valid signature of `peer`. -/
structure SignedBy (crypto : Crypto) (ns nodeId : Bytes32) (req : IncomingHyperRequest) (target : NodeId)
    (msg : AnnounceMessage) (peer : HyperPeer) : Prop where
  addressed : req.target = some target
  decoded : ∃ value ∈ req.value, decodeAnnounceFromBytes value.1 = .ok msg
  signed : ∃ token ∈ req.token, ∃ signature ∈ msg.signature, ∃ encoded, encodeHyperPeerToBytes peer = .ok encoded ∧
    crypto.verifyDetached signature
      (crypto.annSignable target token nodeId encoded ((msg.refresh.map Subtype.val).getD []) ns) peer.publicKey = true

theorem SignedBy.unique {crypto : Crypto} {ns nodeId ns' nodeId' : Bytes32} {req : IncomingHyperRequest}
    {target target' : NodeId} {msg msg' : AnnounceMessage} {peer peer' : HyperPeer}
    (h : SignedBy crypto ns nodeId req target msg peer) (h' : SignedBy crypto ns' nodeId' req target' msg' peer') :
    target' = target ∧ msg' = msg := by
  obtain ⟨value, hvalue, hdecoded⟩ := h.decoded
  obtain ⟨value', hvalue', hdecoded'⟩ := h'.decoded
  have hsame : value' = value := Option.some.inj (hvalue'.symm.trans hvalue)
  rw [hsame] at hdecoded'
  exact ⟨Option.some.inj (h'.addressed.symm.trans h.addressed), Except.ok.inj (hdecoded'.symm.trans hdecoded)⟩

theorem toOption_eq_some {ε α : Type} {x : Except ε α} {a : α} : x.toOption = some a ↔ x = .ok a := by
  cases x <;> simp [Except.toOption]

namespace Persistent
variable {crypto : Crypto} {ns nodeId : Bytes32} {req : IncomingHyperRequest} {target : NodeId} {msg : AnnounceMessage}
  {peer : HyperPeer} {peerOf : AnnounceMessage → Option HyperPeer} {p : Persistent}
variable {m : Moment} {peer' : HyperPeer} {target' : NodeId}

theorem verified_eq_some : verified crypto ns nodeId req peerOf = some (target, msg, peer) ↔
      SignedBy crypto ns nodeId req target msg peer ∧ peerOf msg = some peer := by
  simp only [verified, Option.bind_eq_bind, Option.bind_eq_some_iff, toOption_eq_some, Option.ite_none_right_eq_some,
    Option.some.injEq, Prod.mk.injEq]
  constructor
  · rintro ⟨target, ht, token, htok, value, hv, msg, hmsg, peer, hpeer, sig, hsig, encoded, henc, hver, rfl, rfl, rfl⟩
    exact ⟨⟨ht, ⟨value, hv, hmsg⟩, token, htok, sig, hsig, encoded, henc, hver⟩, hpeer⟩
  · rintro ⟨⟨ht, ⟨value, hv, hmsg⟩, token, htok, sig, hsig, encoded, henc, hver⟩, hpeer⟩
    exact ⟨target, ht, token, htok, value, hv, msg, hmsg, peer, hpeer, sig, hsig, encoded, henc, hver, rfl, rfl, rfl⟩

/-! ## What the handlers do -/

@[simp] theorem keepRefresh_router (p : Persistent) (m : Moment) (refresh : Option Bytes32) (record : Bytes) :
    (p.keepRefresh m refresh record).router = p.router := by
  cases refresh <;> rfl

@[simp] theorem announceOther_router (p : Persistent) (m : Moment) (key : String) (publicKey : Bytes32) (bump : UInt64)
    (record : Bytes) : (p.announceOther m key publicKey bump record).router = p.router := by
  unfold announceOther
  split <;> rfl

variable (key : Bytes32) {P : HandlerReply × Persistent → Prop}

theorem onAnnounce_rule (hsilent : P (.silent, p))
    (hself : ∀ target msg peer encoded, SignedBy crypto crypto.NS_ANNOUNCE nodeId req target msg peer →
      p.announcedPeer m.now msg = some peer → crypto.hash peer.publicKey.1 = target → P (.valueNoToken none,
        (p.announceSelf (toHex target) peer.publicKey req.fromPeer encoded).keepRefresh m msg.refresh encoded))
    (hother : ∀ target msg peer encoded, SignedBy crypto crypto.NS_ANNOUNCE nodeId req target msg peer →
      p.announcedPeer m.now msg = some peer → crypto.hash peer.publicKey.1 ≠ target → P (.valueNoToken none,
        (p.announceOther m (toHex target) peer.publicKey msg.bump encoded).keepRefresh m msg.refresh encoded)) :
    P (p.onAnnounce crypto m req nodeId) := by
  unfold onAnnounce
  split
  · exact hsilent
  next target msg peer hverified =>
    obtain ⟨hsigned, hpeer⟩ := verified_eq_some.mp hverified
    dsimp only
    split
    · exact hsilent
    next encoded _ =>
      by_cases howner : crypto.hash peer.publicKey.1 = target
      · rw [if_pos howner]
        exact hself target msg peer encoded hsigned hpeer howner
      · rw [if_neg howner]
        exact hother target msg peer encoded hsigned hpeer howner

/-- An UNANNOUNCE changes nothing, or removes what is stored under its target for its signer, and the self-announcement
of the target whoever signed. -/
theorem onUnannounce_rule
    (hsilent : (∀ target msg peer, SignedBy crypto crypto.NS_UNANNOUNCE nodeId req target msg peer →
      msg.peer ≠ some peer) → P (.silent, p))
    (hremove : ∀ target msg peer, SignedBy crypto crypto.NS_UNANNOUNCE nodeId req target msg peer →
      msg.peer = some peer → P (.valueNoToken none, { p with
        records := p.records.remove (toHex target) peer.publicKey, router := p.router.erase (toHex target) })) :
    P (p.onUnannounce crypto req nodeId) := by
  unfold onUnannounce
  split
  next hnone =>
    refine hsilent fun target msg peer hsigned hpeer => ?_
    have hsome := verified_eq_some.mpr ⟨hsigned, hpeer⟩
    rw [hnone] at hsome
    cases hsome
  next target msg peer hverified =>
    obtain ⟨hsigned, hpeer⟩ := verified_eq_some.mp hverified
    exact hremove target msg peer hsigned hpeer

/-! ## Requests in a row -/

/-- A request as it arrives: when, at a node of which id, and what. -/
structure Arrival where
  moment : Moment
  ownId : Option NodeId
  req : IncomingHyperRequest

def step (crypto : Crypto) (p : Persistent) (a : Arrival) : Persistent := (p.handle crypto a.moment a.ownId a.req).2

/-- An ANNOUNCE for `target` that is validly signed by `peer`. -/
structure Announces (crypto : Crypto) (p : Persistent) (a : Arrival) (target : NodeId) (peer : HyperPeer) : Prop where
  command : a.req.command = ANNOUNCE
  signed : ∃ nodeId ∈ a.ownId, ∃ msg, SignedBy crypto crypto.NS_ANNOUNCE nodeId a.req target msg peer ∧
    p.announcedPeer a.moment.now msg = some peer

/-- An UNANNOUNCE for `target` that is validly signed by `peer`. -/
structure Unannounces (crypto : Crypto) (a : Arrival) (target : NodeId) (peer : HyperPeer) : Prop where
  command : a.req.command = UNANNOUNCE
  signed : ∃ nodeId ∈ a.ownId, ∃ msg, SignedBy crypto crypto.NS_UNANNOUNCE nodeId a.req target msg peer ∧
    msg.peer = some peer

/-- An UNANNOUNCE removes no record of another key, and a self-announcement changes only by an ANNOUNCE or an UNANNOUNCE
that is validly signed by a key whose hash is the target. -/
structure Authorised (crypto : Crypto) (p : Persistent) (a : Arrival) : Prop where
  records : ∀ target peer, Unannounces crypto a target peer → ∀ e ∈ p.records.bucket (toHex target),
    e.publicKey ≠ peer.publicKey → e ∈ (p.step crypto a).records.bucket (toHex target)
  router : ∀ target, (p.step crypto a).router.lookup (toHex target) ≠ p.router.lookup (toHex target) →
    ∃ peer, crypto.hash peer.publicKey.1 = target ∧ (Announces crypto p a target peer ∨ Unannounces crypto a target peer)

/-- An UNANNOUNCE for a target with a self-announcement is signed by a key whose hash is the target. -/
def OwnsTarget (crypto : Crypto) (p : Persistent) (a : Arrival) : Prop :=
  ∀ target peer, Unannounces crypto a target peer → (p.router.lookup (toHex target)).isSome →
    crypto.hash peer.publicKey.1 = target

/-! ## One step -/

variable {a : Arrival}

theorem handle_announce (hcommand : req.command = ANNOUNCE) :
    p.handle crypto m (some nodeId) req = p.onAnnounce crypto m req nodeId := by
  rw [handle, if_neg (by rw [hcommand]; decide), if_neg (by rw [hcommand]; decide), if_pos hcommand]

theorem handle_unannounce (hcommand : req.command = UNANNOUNCE) :
    p.handle crypto m (some nodeId) req = p.onUnannounce crypto req nodeId := by
  rw [handle, if_neg (by rw [hcommand]; decide), if_neg (by rw [hcommand]; decide), if_neg (by rw [hcommand]; decide),
    if_pos hcommand]

theorem onLookup_kept (p : Persistent) (m : Moment) (req : IncomingHyperRequest) :
    (p.onLookup m req).2.router = p.router ∧ (p.onLookup m req).2.mutables = p.mutables := by
  unfold onLookup
  split
  · exact ⟨rfl, rfl⟩
  · dsimp only
    split <;> exact ⟨rfl, rfl⟩

theorem onMutablePut_router (m : Moment) : (p.onMutablePut crypto m req).2.router = p.router := by
  unfold onMutablePut
  split
  · rfl
  · split_ifs
    · rfl
    · rfl
    · split <;> rfl

theorem onImmutablePut_kept (m : Moment) : (p.onImmutablePut crypto m req).2.router = p.router ∧
    (p.onImmutablePut crypto m req).2.mutables = p.mutables := by
  unfold onImmutablePut
  split
  · split_ifs <;> exact ⟨rfl, rfl⟩
  · exact ⟨rfl, rfl⟩

theorem handle_router {ownId : Option NodeId} (hann : req.command ≠ ANNOUNCE ∨ ownId = none)
    (hunann : req.command ≠ UNANNOUNCE ∨ ownId = none) : (p.handle crypto m ownId req).2.router = p.router := by
  unfold handle
  split_ifs with hfind hlookup hannounce hunannounce hput hget himput himget
  · rfl
  · exact (onLookup_kept p m req).1
  · obtain hne | rfl := hann
    · exact absurd hannounce hne
    · rfl
  · obtain hne | rfl := hunann
    · exact absurd hunannounce hne
    · rfl
  · exact onMutablePut_router m
  · rfl
  · exact (onImmutablePut_kept m).1
  · rfl
  · rfl

theorem Announces.unique (h : Announces crypto p a target peer)
    (h' : Announces crypto p a target' peer') : target' = target ∧ peer' = peer := by
  obtain ⟨nodeId, -, msg, hsigned, hpeer⟩ := h.signed
  obtain ⟨nodeId', -, msg', hsigned', hpeer'⟩ := h'.signed
  obtain ⟨htarget, rfl⟩ := hsigned.unique hsigned'
  exact ⟨htarget, Option.some.inj (hpeer'.symm.trans hpeer)⟩

theorem Unannounces.unique (h : Unannounces crypto a target peer)
    (h' : Unannounces crypto a target' peer') : target' = target ∧ peer' = peer := by
  obtain ⟨nodeId, -, msg, hsigned, hpeer⟩ := h.signed
  obtain ⟨nodeId', -, msg', hsigned', hpeer'⟩ := h'.signed
  obtain ⟨htarget, rfl⟩ := hsigned.unique hsigned'
  exact ⟨htarget, Option.some.inj (hpeer'.symm.trans hpeer)⟩

theorem Unannounces.step_eq (h : Unannounces crypto a target peer) : p.step crypto a = { p with
      records := p.records.remove (toHex target) peer.publicKey, router := p.router.erase (toHex target) } := by
  obtain ⟨nodeId, hown, msg, hsigned, hpeer⟩ := h.signed
  have hverified := verified_eq_some.mpr ⟨hsigned, hpeer⟩
  rw [step, show a.ownId = some nodeId from hown, handle_unannounce h.command, onUnannounce, hverified]

theorem announces_of_answered (hcommand : a.req.command = ANNOUNCE)
    (hanswered : (p.handle crypto a.moment a.ownId a.req).1 ≠ .silent) :
    ∃ target peer, Announces crypto p a target peer := by
  cases hown : a.ownId with
  | none =>
    rw [hown, handle, if_neg (by rw [hcommand]; decide), if_neg (by rw [hcommand]; decide), if_pos hcommand] at hanswered
    exact absurd rfl hanswered
  | some nodeId =>
    rw [hown, handle_announce hcommand] at hanswered
    revert hanswered
    refine onAnnounce_rule (P := fun r => r.1 ≠ .silent → _) (fun h => absurd rfl h) ?_ ?_
    · intro target msg peer encoded hsigned hpeer _ _
      exact ⟨target, peer, hcommand, nodeId, hown, msg, hsigned, hpeer⟩
    · intro target msg peer encoded hsigned hpeer _ _
      exact ⟨target, peer, hcommand, nodeId, hown, msg, hsigned, hpeer⟩

theorem onAnnounce_router
    (hchanged : (p.onAnnounce crypto m req nodeId).2.router.lookup (toHex target) ≠ p.router.lookup (toHex target)) :
    ∃ msg peer, SignedBy crypto crypto.NS_ANNOUNCE nodeId req target msg peer ∧
      p.announcedPeer m.now msg = some peer ∧ crypto.hash peer.publicKey.1 = target := by
  revert hchanged
  refine onAnnounce_rule (P := fun r => r.2.router.lookup (toHex target) ≠ _ → _) (fun h => absurd rfl h) ?_ ?_
  · intro t msg peer encoded hsigned hpeer howner hchanged
    rw [keepRefresh_router] at hchanged
    have htarget : t = target := by
      by_contra hne
      exact hchanged (lookup_insert_ne fun hkey => hne (toHex_injective hkey).symm)
    subst htarget
    exact ⟨msg, peer, hsigned, hpeer, howner⟩
  · intro t msg peer encoded _ _ _ hchanged
    rw [keepRefresh_router, announceOther_router] at hchanged
    exact absurd rfl hchanged

theorem onUnannounce_router
    (hchanged : (p.onUnannounce crypto req nodeId).2.router.lookup (toHex target) ≠ p.router.lookup (toHex target)) :
    (∃ msg peer, SignedBy crypto crypto.NS_UNANNOUNCE nodeId req target msg peer ∧ msg.peer = some peer) ∧
      (p.router.lookup (toHex target)).isSome := by
  revert hchanged
  refine onUnannounce_rule (P := fun r => r.2.router.lookup (toHex target) ≠ _ → _) (fun _ h => absurd rfl h) ?_
  intro t msg peer hsigned hpeer hchanged
  have htarget : t = target := by
    by_contra hne
    exact hchanged (lookup_erase_ne fun hkey => hne (toHex_injective hkey).symm)
  subst htarget
  refine ⟨⟨msg, peer, hsigned, hpeer⟩, Option.isSome_iff_ne_none.mpr fun hnone => ?_⟩
  rw [hnone] at hchanged
  exact hchanged (lookup_erase _ _)

/-- A self-announcement changes by an ANNOUNCE of the key it belongs to, or by an UNANNOUNCE of any key that finds it. -/
theorem router_step (p : Persistent) (a : Arrival) (target : NodeId)
    (hchanged : (p.step crypto a).router.lookup (toHex target) ≠ p.router.lookup (toHex target)) :
    (∃ peer, crypto.hash peer.publicKey.1 = target ∧ Announces crypto p a target peer) ∨
      ∃ peer, Unannounces crypto a target peer ∧ (p.router.lookup (toHex target)).isSome := by
  have hsame : (a.req.command ≠ ANNOUNCE ∨ a.ownId = none) → (a.req.command ≠ UNANNOUNCE ∨ a.ownId = none) → False := by
    intro hann hunann
    exact hchanged (congrArg (AList.lookup (toHex target)) (handle_router hann hunann))
  cases hown : a.ownId with
  | none => exact (hsame (.inr hown) (.inr hown)).elim
  | some nodeId =>
    rw [step, hown] at hchanged
    by_cases hann : a.req.command = ANNOUNCE
    · rw [handle_announce hann] at hchanged
      obtain ⟨msg, peer, hsigned, hpeer, howner⟩ := onAnnounce_router hchanged
      exact .inl ⟨peer, howner, hann, nodeId, hown, msg, hsigned, hpeer⟩
    · by_cases hunann : a.req.command = UNANNOUNCE
      · rw [handle_unannounce hunann] at hchanged
        obtain ⟨⟨msg, peer, hsigned, hpeer⟩, hsome⟩ := onUnannounce_router hchanged
        exact .inr ⟨peer, ⟨hunann, nodeId, hown, msg, hsigned, hpeer⟩, hsome⟩
      · exact (hsame (.inl hann) (.inl hunann)).elim

theorem authorised_iff (p : Persistent) (a : Arrival) : Authorised crypto p a ↔ OwnsTarget crypto p a := by
  constructor
  · intro h target peer hun hsome
    have hchanged : (p.step crypto a).router.lookup (toHex target) ≠ p.router.lookup (toHex target) := by
      rw [hun.step_eq, show (p.router.erase (toHex target)).lookup (toHex target) = none from lookup_erase _ _]
      exact fun hnone => Option.isSome_iff_ne_none.mp hsome hnone.symm
    obtain ⟨peer', howner, hann | hun'⟩ := h.router target hchanged
    · exact absurd (hann.command.symm.trans hun.command) (by decide)
    · rw [(hun.unique hun').2] at howner
      exact howner
  · intro h
    refine ⟨fun target peer hun e he hne => ?_, fun target hchanged => ?_⟩
    · rw [hun.step_eq]
      exact RecordCache.mem_bucket_remove he hne
    · obtain ⟨peer, howner, hann⟩ | ⟨peer, hun, hsome⟩ := router_step p a target hchanged
      · exact ⟨peer, howner, .inl hann⟩
      · exact ⟨peer, h target peer hun hsome, .inr hun⟩

/-- **In every run of requests each step is authorised, just when every UNANNOUNCE that finds a self-announcement is
signed by the key it belongs to.** -/
theorem announce_store_authority (crypto : Crypto) (p : Persistent) (arrivals : List Arrival) :
    Along (step crypto) (Authorised crypto) p arrivals ↔ Along (step crypto) (OwnsTarget crypto) p arrivals :=
  along_congr (I := fun _ => True) (fun _ _ _ => trivial) (fun p a _ => authorised_iff p a) trivial arrivals

/-! ## A key that is not the target's -/

/-- The last 32 bytes stand for the hash, and a signature is the key with the hash of the message: a run can be followed
by hand. -/
def plain : Crypto where
  hash bs := ⟨(List.replicate 32 0 ++ bs).drop bs.length,
    by rw [List.length_drop, List.length_append, List.length_replicate, Nat.add_sub_cancel]⟩
  verifyDetached signature msg key :=
    signature.1 == key.1 ++ (List.replicate 32 0 ++ msg).drop msg.length

theorem plain_hash : plain.hash key.1 = key :=
  Subtype.ext (by simp [plain, key.2])

def plainSign (key : Bytes32) (msg : Bytes) : Bytes64 := ⟨key.1 ++ (plain.hash msg).1, by simp [key.2, (plain.hash msg).2]⟩

theorem plain_verify (msg : Bytes) : plain.verifyDetached (plainSign key msg) msg key = true :=
  beq_self_eq_true _

def zeroKey : Bytes32 := .fill 0

def smallKey (b : UInt8) : Bytes32 := ⟨List.replicate 31 0 ++ [b], by simp⟩

/-- What a peer without relays signs to be added under a target, or removed. -/
def plainMessage (ns nodeId target key : Bytes32) : AnnounceMessage :=
  ⟨some ⟨key, []⟩, none,
    some (plainSign key (plain.annSignable target zeroKey nodeId (hyperPeerBytes ⟨key, []⟩) [] ns)), 0⟩

theorem length_plainMessage (ns nodeId target key : Bytes32) :
    (announceBytes (plainMessage ns nodeId target key)).length = 98 := by
  have hflags : (uintBytes (plainMessage ns nodeId target key).flags).length = 1 :=
    length_uintBytes_of_le (announceFlags_tests true false true false).1
  have hcount : (uintBytes 0).length = 1 := rfl
  rw [announceBytes, List.length_append, hflags]
  simp [plainMessage, hyperPeerBytes, arrayBytes, key.2, (plainSign key _).2, hcount]

def plainArrival (command : UInt64) (ns target key : Bytes32) (fromPeer : Ipv4Peer) : Arrival where
  moment := ⟨0, fun _ => 0⟩
  ownId := some zeroKey
  req := ⟨command, some target, some zeroKey, some ⟨announceBytes (plainMessage ns zeroKey target key),
    lt_of_eq_of_lt (length_plainMessage ..) (by decide)⟩, fromPeer, none⟩

theorem canonical_single : HyperPeer.Canonical ⟨key, []⟩ := nofun

theorem plainArrival_signed (command : UInt64) (ns target key : Bytes32) (fromPeer : Ipv4Peer) :
    SignedBy plain ns zeroKey (plainArrival command ns target key fromPeer).req target
      (plainMessage ns zeroKey target key) ⟨key, []⟩ where
  addressed := rfl
  decoded := by
    refine ⟨_, rfl, decodeAnnounce_bytes (fun peer hpeer => ?_) fun peer hpeer => ?_⟩
    · cases hpeer
      exact canonical_single key
    · cases hpeer
      exact Nat.zero_le MAX_ARRAY_LENGTH
  signed := ⟨zeroKey, rfl, _, rfl, _, (transcribes_hyperPeer (canonical_single key)).emit, plain_verify _ _⟩

/-- The key 2 takes back what the key 1 announced for itself. -/
theorem unannounced_by_another_key : let peer : Ipv4Peer := ⟨"10.0.0.1", 1⟩
    let announce := plainArrival ANNOUNCE plain.NS_ANNOUNCE (smallKey 1) (smallKey 1) peer
    let unannounce := plainArrival UNANNOUNCE plain.NS_UNANNOUNCE (smallKey 1) (smallKey 2) peer
    let p := (new .default).step plain announce
    (p.router.lookup (toHex (smallKey 1))).isSome ∧
      Unannounces plain unannounce (smallKey 1) ⟨smallKey 2, []⟩ ∧ plain.hash (smallKey 2).1 ≠ smallKey 1 ∧
      (p.step plain unannounce).router.lookup (toHex (smallKey 1)) = none ∧
      ¬ Along (step plain) (Authorised plain) (new .default) [announce, unannounce] := by
  intro peer announce unannounce p
  have hstored : (p.router.lookup (toHex (smallKey 1))).isSome := by decide +kernel
  have hun : Unannounces plain unannounce (smallKey 1) ⟨smallKey 2, []⟩ :=
    ⟨rfl, zeroKey, rfl, _, plainArrival_signed .., rfl⟩
  have hother : plain.hash (smallKey 2).1 ≠ smallKey 1 := by decide
  refine ⟨hstored, hun, hother, ?_, ?_⟩
  · rw [hun.step_eq]
    exact lookup_erase _ _
  · rintro ⟨-, hauth, -⟩
    exact hother ((authorised_iff p unannounce).mp hauth _ _ hun hstored)

end Persistent
end Peeroxide.Dht
