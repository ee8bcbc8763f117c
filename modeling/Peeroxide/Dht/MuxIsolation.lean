import Peeroxide.Dht.MuxIds

/-!
# Isolation of channels

A slot that is freed is handed out again, while the lists of channels that wait and the remote channels keep the slot they
were told, and a remote channel that waits stays in its list when the remote closes it.

Main results: `isolated_of_unused`, `opened_by_another`.
-/

namespace Peeroxide.Dht
open Lib List Option MuxState
variable {bs : Bytes} {d : Delivery} {s : MuxState}

/-! ## Names -/

abbrev ChannelName := String × Option ByteVec

def ChannelName.key (name : ChannelName) : String := channelKey name.1 name.2

theorem hexEncode_ne_hash {c : Char} (h : c ∈ hexEncode bs) : c ≠ '#' := by
  obtain ⟨b, -, hc⟩ := mem_flatMap.mp h
  have hdigit : ∀ n < 16, Nat.digitChar n ≠ '#' := by decide
  have hb := b.toNat_lt
  simp only [mem_cons, not_mem_nil, or_false] at hc
  rcases hc with rfl | rfl
  · exact hdigit _ (by omega)
  · exact hdigit _ (by omega)

theorem split_at_hash {p q xs ys : List Char} (hx : '#' ∉ xs) (hy : '#' ∉ ys)
    (h : p ++ '#' :: '#' :: xs = q ++ '#' :: '#' :: ys) : p = q ∧ xs = ys := by
  have hrev : xs.reverse ++ '#' :: '#' :: p.reverse = ys.reverse ++ '#' :: '#' :: q.reverse := by
    simpa using congrArg List.reverse h
  have htake : ∀ (zs : List Char) (r : List Char), '#' ∉ zs →
      (zs.reverse ++ '#' :: r).takeWhile (· ≠ '#') = zs.reverse := by
    intro zs r hz
    rw [takeWhile_append_of_pos]
    · simp
    · intro c hc
      have : c ≠ '#' := fun heq => hz (heq ▸ mem_reverse.mp hc)
      simpa using this
  have hxs := congrArg (List.takeWhile (· ≠ '#')) hrev
  rw [htake xs _ hx, htake ys _ hy, reverse_inj] at hxs
  subst hxs
  rw [append_cancel_left_eq, List.cons.injEq, List.cons.injEq, reverse_inj] at hrev
  exact ⟨hrev.2.2, rfl⟩

def idBytes (id : Option ByteVec) : Bytes := id.elim [] (·.1)

theorem toList_channelKey (protocol : String) (id : Option ByteVec) :
    (channelKey protocol id).toList = protocol.toList ++ '#' :: '#' :: hexEncode (idBytes id) := by
  cases id with
  | none => simp [channelKey, idBytes, hexEncode]
  | some id => simp [channelKey, idBytes]

theorem nonEmpty_eq_iff (id id' : Option ByteVec) : nonEmpty id = nonEmpty id' ↔ idBytes id = idBytes id' := by
  have hbytes : ∀ id, idBytes (nonEmpty id) = idBytes id := by
    intro id
    cases id with
    | none => rfl
    | some a =>
      by_cases ha : a.1 = []
      · rw [nonEmpty_of_nil ha]
        exact ha.symm
      · rw [nonEmpty_of_ne_nil ha]
  constructor
  · intro h
    rw [← hbytes id, ← hbytes id', h]
  · intro h
    cases id with
    | none =>
      cases id' with
      | none => rfl
      | some b =>
        have hb : [] = b.1 := h
        exact (nonEmpty_of_nil hb.symm).symm
    | some a =>
      cases id' with
      | none =>
        have ha : a.1 = [] := h
        exact nonEmpty_of_nil ha
      | some b =>
        have hab : a = b := Subtype.ext h
        rw [hab]

/-- Two channels have one key just when they have one protocol and, on the wire, one id. -/
theorem channelKey_eq_iff {p p' : String} {id id' : Option ByteVec} :
    channelKey p id = channelKey p' id' ↔ p = p' ∧ nonEmpty id = nonEmpty id' := by
  have hno : ∀ id, '#' ∉ hexEncode (idBytes id) := fun id h => hexEncode_ne_hash h rfl
  rw [nonEmpty_eq_iff]
  constructor
  · intro h
    have hlist := congrArg String.toList h
    rw [toList_channelKey, toList_channelKey] at hlist
    obtain ⟨hp, hid⟩ := split_at_hash (hno id) (hno id') hlist
    exact ⟨String.toList_inj.mp hp, flatMap_hexByte_injective hid⟩
  · rintro ⟨rfl, hid⟩
    apply String.toList_inj.mp
    rw [toList_channelKey, toList_channelKey, hid]

/-! ## The remote -/

/-- The name under which the remote has channel `r` open; the last frame comes first. -/
def openedAs : List DecodedFrame → Nat → Option ChannelName
  | [], _ => none
  | .control (.openChannel localId protocol id _) :: frames, r =>
    if localId.toNat = r then some (protocol, id) else openedAs frames r
  | .control (.closeChannel localId) :: frames, r => if localId.toNat = r then none else openedAs frames r
  | _ :: frames, r => openedAs frames r

/-- A remote that follows the protocol opens channels with ids of its own that are not open, and closes and uses those
that are open. -/
def Follows (frames : List DecodedFrame) : DecodedFrame → Prop
  | .control (.openChannel localId _ _ _) =>
    0 < localId.toNat ∧ localId.toNat < 2 ^ 32 ∧ openedAs frames localId.toNat = none
  | .control (.closeChannel localId) => openedAs frames localId.toNat ≠ none
  | .control (.rejectChannel _) => True
  | .message channelId _ _ => openedAs frames channelId.toNat ≠ none
  | .batch items => ∀ item ∈ items, openedAs frames item.channelId.toNat ≠ none

structure Watcher where
  mux : Mux
  frames : List DecodedFrame

variable {w w' : Watcher}

def MuxEvent.received : MuxEvent → Option DecodedFrame
  | .frame data => (decodeFrame data).toOption
  | _ => none

namespace Watcher

def new : Watcher := ⟨.new, []⟩

def step (w : Watcher) (e : MuxEvent) : Watcher := ⟨w.mux.step e, e.received.toList ++ w.frames⟩

end Watcher

def Mux.delivered (m : Mux) : List Delivery := m.state?.elim [] (·.delivered)

def Mux.created (m : Mux) : List ChannelName := m.state?.elim [] (·.created)

/-- The event is sent for a remote channel that is open, to a local channel that was created with its name. On the wire an
empty id is no id. -/
def Delivery.Isolated (d : Delivery) (frames : List DecodedFrame) (created : List ChannelName) : Prop :=
  (∀ isRemote, d.event ≠ .closed isRemote) → ∃ r protocol id id', d.origin = some r ∧
    openedAs frames r = some (protocol, id) ∧ created[d.eventTx]? = some (protocol, id') ∧ nonEmpty id = nonEmpty id'

def Isolated (w : Watcher) (e : MuxEvent) : Prop :=
  ∀ d ∈ (w.step e).mux.delivered.drop w.mux.delivered.length, d.Isolated (w.step e).frames (w.step e).mux.created

def RemoteFollows (w : Watcher) (e : MuxEvent) : Prop := ∀ frame ∈ e.received, Follows w.frames frame

/-- The slot of a channel that is created is kept for no channel of another name: none that waits for the remote, and
none that the remote has open. -/
def SlotUnused (w : Watcher) (e : MuxEvent) : Prop :=
  ∀ s, w.mux = .running s → ∀ protocol id handshake, e = .command (.createChannel protocol id handshake) →
    (∀ key, s.nextSlot + 1 ∈ (s.infoOf key).outgoing → key = channelKey protocol id) ∧
    ∀ r rc name, s.remoteAt r = some rc → rc.localId = some s.nextSlot → openedAs w.frames (r + 1) = some name →
      name.key = channelKey protocol id

/-- A channel that the remote closes does not wait for a local one. -/
def NotWaiting (w : Watcher) (e : MuxEvent) : Prop :=
  ∀ s, w.mux = .running s → ∀ localId, e.received = some (.control (.closeChannel localId)) →
    ∀ key, localId.toNat ∉ (s.infoOf key).incoming

/-! ## The invariant -/

structure Matched (frames : List DecodedFrame) (s : MuxState) : Prop where
  named : ∀ i ch, s.localAt i = some ch → s.created[ch.eventTx]? = some (ch.protocol, ch.id)
  bound : ∀ r, openedAs frames r ≠ none → 0 < r ∧ r < 2 ^ 32
  remote : ∀ r, s.remoteAt r = none ↔ openedAs frames (r + 1) = none
  paired : ∀ r rc i ch name, s.remoteAt r = some rc → rc.localId = some i → s.localAt i = some ch →
    openedAs frames (r + 1) = some name → name.key = channelKey ch.protocol ch.id
  outgoing : ∀ key i ch, i + 1 ∈ (s.infoOf key).outgoing → s.localAt i = some ch → channelKey ch.protocol ch.id = key
  incoming : ∀ key r, r ∈ (s.infoOf key).incoming → ∃ name, openedAs frames r = some name ∧ name.key = key

/-- From `s` to `s'` what is delivered is isolated, and the tables agree again. -/
structure Advance (frames : List DecodedFrame) (s s' : MuxState) : Prop where
  matched : Matched frames s'
  delivered : ∃ ds, s'.delivered = s.delivered ++ ds ∧ ∀ d ∈ ds, d.Isolated frames s'.created

theorem Delivery.isolated_closed (h : ∃ isRemote, d.event = .closed isRemote) (frames : List DecodedFrame)
    (created : List ChannelName) : d.Isolated frames created := by
  obtain ⟨isRemote, h⟩ := h
  exact fun hne => absurd h (hne isRemote)

theorem Delivery.isolated_of_key {frames : List DecodedFrame} {created : List ChannelName} {r : Nat}
    (name name' : ChannelName) (horigin : d.origin = some r) (hopen : openedAs frames r = some name)
    (hcreated : created[d.eventTx]? = some name') (hkey : name.key = name'.key) : d.Isolated frames created := by
  intro _
  obtain ⟨hp, hid⟩ := channelKey_eq_iff.mp hkey
  refine ⟨r, name.1, name.2, name'.2, horigin, hopen, ?_, hid⟩
  rw [hcreated, hp]

section
variable {frames : List DecodedFrame} {s s' : MuxState}
variable {hsk : Option Bytes} {id : Option ByteVec} {localId : UInt64} {protocol : String} {rc : RemoteChannel}
  {rid : Nat} {t : MuxState}

theorem advance_refl (hs : Matched frames s) : Advance frames s s := ⟨hs, [], (append_nil _).symm, nofun⟩

/-! ### Steps that add no channel -/

/-- The channels of `s'` are channels of `s`, and remote channels keep what they are paired with. -/
structure Fewer (s s' : MuxState) : Prop where
  created : s'.created = s.created
  infos : s'.infos = s.infos
  locals : ∀ i ch', s'.localAt i = some ch' → ∃ ch, s.localAt i = some ch ∧ ch'.protocol = ch.protocol ∧ ch'.id = ch.id ∧
    ch'.eventTx = ch.eventTx
  remote : ∀ r, (s'.remoteAt r).map (·.localId) = (s.remoteAt r).map (·.localId)

theorem Fewer.of_eq (hc : s'.created = s.created) (hi : s'.infos = s.infos) (hl : s'.locals = s.locals)
    (hr : s'.remote = s.remote) : Fewer s s' := by
  refine ⟨hc, hi, fun i ch h => ⟨ch, ?_, rfl, rfl, rfl⟩, fun r => ?_⟩
  · rwa [localAt, hl] at h
  · rw [remoteAt, hr]
    rfl

theorem Fewer.trans (h : Fewer s t) (h' : Fewer t s') : Fewer s s' := by
  refine ⟨h'.created.trans h.created, h'.infos.trans h.infos, fun i ch' hch' => ?_, fun r => (h'.remote r).trans (h.remote r)⟩
  obtain ⟨ch₁, hch₁, hp₁, hi₁, he₁⟩ := h'.locals i ch' hch'
  obtain ⟨ch, hch, hp, hi, he⟩ := h.locals i ch₁ hch₁
  exact ⟨ch, hch, hp₁.trans hp, hi₁.trans hi, he₁.trans he⟩

theorem Fewer.matched (h : Fewer s s') (hs : Matched frames s) : Matched frames s' := by
  have hinfo : ∀ key, s'.infoOf key = s.infoOf key := fun key => by rw [infoOf, h.infos]; rfl
  refine ⟨fun i ch' hch' => ?_, hs.bound, fun r => ?_, fun r rc' i ch' name hrc' hi hch' hname => ?_,
    fun key i ch' hmem hch' => ?_, fun key r hmem => ?_⟩
  · obtain ⟨ch, hch, hp, hi, he⟩ := h.locals i ch' hch'
    rw [h.created, he, hp, hi]
    exact hs.named i ch hch
  · rw [← hs.remote r, ← map_eq_none_iff, h.remote r, map_eq_none_iff]
  · obtain ⟨ch, hch, hp, hid, -⟩ := h.locals i ch' hch'
    have hmap := h.remote r
    rw [hrc', map_some, eq_comm, map_eq_some_iff] at hmap
    obtain ⟨rc, hrc, hlocal⟩ := hmap
    rw [hp, hid]
    exact hs.paired r rc i ch name hrc (hlocal.trans hi) hch hname
  · obtain ⟨ch, hch, hp, hid, -⟩ := h.locals i ch' hch'
    rw [hinfo] at hmem
    rw [hp, hid]
    exact hs.outgoing key i ch hmem hch
  · rw [hinfo] at hmem
    exact hs.incoming key r hmem

theorem Matched.congr (hs : Matched frames s) (hc : s'.created = s.created) (hi : s'.infos = s.infos)
    (hl : s'.locals = s.locals) (hr : s'.remote = s.remote) : Matched frames s' :=
  (Fewer.of_eq hc hi hl hr).matched hs

theorem Fewer.advance (h : Fewer s s') (hs : Matched frames s) (ds : List Delivery)
    (hds : s'.delivered = s.delivered ++ ds) (hclosed : ∀ d ∈ ds, ∃ isRemote, d.event = .closed isRemote) :
    Advance frames s s' :=
  ⟨h.matched hs, ds, hds, fun d hd => Delivery.isolated_closed (hclosed d hd) _ _⟩

theorem fewer_deliver (s : MuxState) (ds : List Delivery) : Fewer s (s.deliver ds) := .of_eq rfl rfl rfl rfl

theorem fewer_free (s : MuxState) (i : Nat) : Fewer s (s.free i) := by
  refine ⟨rfl, rfl, fun j ch h => ⟨ch, ?_, rfl, rfl, rfl⟩, fun _ => rfl⟩
  have hlocals : (s.free i).locals = s.locals.set i none := rfl
  rw [localAt, hlocals] at h
  by_cases hi : i < s.locals.length
  · rw [join_getElem?_set hi] at h
    split at h
    · cases h
    · exact h
  · rwa [set_eq_of_length_le (Nat.le_of_not_lt hi)] at h

theorem localAt_set_some {i j : Nat} {ch ch' : LocalChannel} (hch : s.localAt i = some ch) (c : LocalChannel) (hp : c.protocol = ch.protocol)
    (hid : c.id = ch.id) (he : c.eventTx = ch.eventTx) (h : (s.locals.set i (some c))[j]?.join = some ch') :
    ∃ ch, s.localAt j = some ch ∧ ch'.protocol = ch.protocol ∧ ch'.id = ch.id ∧ ch'.eventTx = ch.eventTx := by
  rw [join_getElem?_set (localAt_lt hch)] at h
  split at h
  next hj =>
    cases h
    exact ⟨ch, hj ▸ hch, hp, hid, he⟩
  · exact ⟨ch', h, rfl, rfl, rfl⟩

theorem fewer_markClosed (s : MuxState) (i : Nat) : Fewer s (s.markClosed i) ∧
    ∃ ds, (s.markClosed i).delivered = s.delivered ++ ds ∧ ∀ d ∈ ds, ∃ isRemote, d.event = .closed isRemote := by
  unfold markClosed
  split
  next ch hch =>
    split
    · exact ⟨.of_eq rfl rfl rfl rfl, [], (append_nil _).symm, nofun⟩
    · refine ⟨⟨rfl, rfl, fun j ch' h => localAt_set_some hch { ch with closed := true } rfl rfl rfl h, fun _ => rfl⟩,
        [⟨ch.eventTx, none, .closed true⟩], rfl, fun d hd => ⟨true, ?_⟩⟩
      rw [mem_singleton.mp hd]
  · exact ⟨.of_eq rfl rfl rfl rfl, [], (append_nil _).symm, nofun⟩

/-! ### Commands -/

def SlotFree (frames : List DecodedFrame) (s : MuxState) (key : String) : Prop :=
  (∀ key', s.nextSlot + 1 ∈ (s.infoOf key').outgoing → key' = key) ∧
  ∀ r rc name, s.remoteAt r = some rc → rc.localId = some s.nextSlot → openedAs frames (r + 1) = some name → name.key = key

theorem localAt_allocated (s : MuxState) (j : Nat) : s.allocated.localAt j = s.localAt j := by
  obtain ⟨ids, i, -, -, h⟩ | ⟨-, -, h⟩ := s.allocated_cases
  · rw [h]
    rfl
  · rw [h]
    unfold localAt
    rw [getElem?_append]
    split
    · rfl
    next hlen =>
      rw [getElem?_eq_none (Nat.le_of_not_lt hlen)]
      cases j - s.locals.length <;> rfl

theorem remoteAt_lt {r : Nat} (h : s.remoteAt r = some rc) : r < s.remote.length := by
  by_contra hlen
  rw [remoteAt, getElem?_eq_none (Nat.le_of_not_lt hlen)] at h
  cases h

theorem openedAs_succ {frames' : List DecodedFrame} {v : Option ChannelName}
    (h : ∀ r, openedAs frames' r = if rid + 1 = r then v else openedAs frames r) (r : Nat) :
    openedAs frames' (r + 1) = if r = rid then v else openedAs frames (r + 1) := by
  simp only [h, Nat.add_right_cancel_iff, eq_comm]

section
variable (hs : Matched frames s)
include hs

theorem Matched.create (hfree : SlotFree frames s (channelKey protocol id)) (hslot : s.nextSlot < s.allocated.locals.length)
    (ch : LocalChannel) (hch : (ch.protocol, ch.id) = (protocol, id) ∧ ch.eventTx = s.created.length) :
    Matched frames { s with
      created := s.created ++ [(protocol, id)]
      locals := s.allocated.locals.set s.nextSlot (some ch) } := by
  obtain ⟨hname, htx⟩ := hch
  cases hname
  have hlocal : ∀ j c, (s.allocated.locals.set s.nextSlot (some ch))[j]?.join = some c →
      j = s.nextSlot ∧ c = ch ∨ s.localAt j = some c := by
    intro j c h
    rw [join_getElem?_set hslot] at h
    split at h
    next hj =>
      exact .inl ⟨hj, (Option.some.inj h).symm⟩
    · exact .inr ((localAt_allocated s j).symm.trans h)
  refine ⟨fun j c hc => ?_, hs.bound, hs.remote, fun r rc j c name hrc hj hc hname => ?_, fun key j c hmem hc => ?_,
    hs.incoming⟩
  · obtain ⟨-, rfl⟩ | hold := hlocal j c hc
    · rw [htx, getElem?_append_right (le_refl _), Nat.sub_self]
      rfl
    · have hnamed := hs.named j c hold
      rw [getElem?_append_left (List.getElem?_eq_some_iff.mp hnamed).1]
      exact hnamed
  · obtain ⟨rfl, rfl⟩ | hold := hlocal j c hc
    · exact hfree.2 r rc name hrc hj hname
    · exact hs.paired r rc j c name hrc hj hold hname
  · obtain ⟨rfl, rfl⟩ | hold := hlocal j c hc
    · exact (hfree.1 key hmem).symm
    · exact hs.outgoing key j c hmem hold

theorem Matched.inform (key : String) (info : ChannelInfo)
    (hout : ∀ i ch, i + 1 ∈ info.outgoing → s.localAt i = some ch → channelKey ch.protocol ch.id = key)
    (hin : ∀ r ∈ info.incoming, ∃ name, openedAs frames r = some name ∧ name.key = key) :
    Matched frames { s with infos := s.infos.insert key info } := by
  have hinfo := fun k => infoOf_insert { s with infos := s.infos.insert key info } s.infos key k info rfl
  refine ⟨hs.named, hs.bound, hs.remote, hs.paired, fun k i ch hmem hch => ?_, fun k r hmem => ?_⟩
  · rw [hinfo] at hmem
    split at hmem
    next hk =>
      exact (hout i ch hmem hch).trans hk.symm
    · exact hs.outgoing k i ch hmem hch
  · rw [hinfo] at hmem
    split at hmem
    next hk =>
      exact hk ▸ hin r hmem
    · exact hs.incoming k r hmem

/-- One slot of the remote changes, with what the remote has open under its id. -/
theorem Matched.setRemote {f : List DecodedFrame} {remote : List (Option RemoteChannel)} {v : Option RemoteChannel}
    {o : Option ChannelName} (hlt : rid + 1 < 2 ^ 32)
    (hopen : ∀ r, openedAs f r = if rid + 1 = r then o else openedAs frames r)
    (hset : ∀ r, remote[r]?.join = if r = rid then v else s.remoteAt r) (hnone : v = none ↔ o = none)
    (hpaired : ∀ rc i ch name, v = some rc → rc.localId = some i → s.localAt i = some ch → o = some name →
      name.key = channelKey ch.protocol ch.id)
    (hwaits : ∀ key, rid + 1 ∈ (s.infoOf key).incoming → ∃ name, o = some name ∧ name.key = key) :
    Matched f { s with remote := remote } := by
  have hnext := openedAs_succ hopen
  have hremote : ∀ r, ({ s with remote := remote } : MuxState).remoteAt r = if r = rid then v else s.remoteAt r := hset
  refine ⟨hs.named, fun r hr => ?_, fun r => ?_, fun r rc i ch name hrc hi hch hname => ?_, hs.outgoing, fun key r hmem => ?_⟩
  · rw [hopen] at hr
    split at hr
    next heq =>
      exact ⟨heq ▸ Nat.succ_pos rid, heq ▸ hlt⟩
    · exact hs.bound r hr
  · rw [hremote, hnext]
    split
    · exact hnone
    · exact hs.remote r
  · rw [hremote] at hrc
    rw [hnext] at hname
    split_ifs at hrc hname
    · exact hpaired rc i ch name hrc hi hch hname
    · exact hs.paired r rc i ch name hrc hi hch hname
  · rw [hopen]
    split
    next heq =>
      exact hwaits key (heq ▸ hmem)
    · exact hs.incoming key r hmem

theorem advance_create {handshake : Option ByteVec} (hfree : SlotFree frames s (channelKey protocol id))
    (h : s.createChannelInternal protocol id handshake = .ok s') : Advance frames s s' := by
  obtain ⟨hremote, hinfos, -, hdelivered, -⟩ := s.allocated_frame
  obtain ⟨-, hslot, f, -, -, hcases⟩ := createChannelInternal_ok h
  have hnew : ∀ ch : LocalChannel, (s.allocated.locals.set s.nextSlot (some ch))[s.nextSlot]?.join = some ch := by
    intro ch
    rw [join_getElem?_set hslot, if_pos rfl]
  obtain ⟨r, rest, hin, hr0, rfl⟩ | ⟨hin, rfl⟩ := hcases
  · obtain ⟨name, hname, hkey⟩ := hs.incoming _ r (by rw [hin]; exact mem_cons_self)
    obtain ⟨r, rfl⟩ := Nat.exists_eq_succ_of_ne_zero hr0
    obtain ⟨rc, hrc⟩ := ne_none_iff_exists'.mp fun hnone => nomatch hname.symm.trans ((hs.remote r).mp hnone)
    have hrc' : s.allocated.remoteAt r = some rc := by rw [remoteAt, hremote]; exact hrc
    have hlookup : ({ s.named protocol id with
        infos := s.allocated.infos.insert (channelKey protocol id)
          { s.infoOf (channelKey protocol id) with incoming := rest } } : MuxState).remoteAt (r + 1 - 1) = some rc := hrc'
    unfold pairIncoming
    rw [hlookup]
    have hcreated := hs.create hfree hslot { s.newChannel protocol id with remoteId := some (r + 1), opened := true }
      ⟨rfl, rfl⟩
    have hinformed := hcreated.inform (channelKey protocol id) { s.infoOf (channelKey protocol id) with incoming := rest }
      (hcreated.outgoing _) fun x hx => hs.incoming _ x (by rw [hin]; exact mem_cons_of_mem _ hx)
    have hpaired : Matched frames _ := hinformed.setRemote (o := some name) (hs.bound (r + 1) (by rw [hname]; nofun)).2
      (fun x => ?_) (join_getElem?_set (remoteAt_lt hrc) (some ⟨none, some s.nextSlot, []⟩)) (by simp)
      (fun rc' i ch name' hrc' hi hch hname' => ?_) (fun key hmem => hname ▸ hinformed.incoming key _ hmem)
    · refine ⟨hpaired.congr rfl (by rw [← hinfos]) rfl (by rw [← hremote]; rfl), _, by rw [← hdelivered]; rfl, fun d hd => ?_⟩
      have hd' : d.origin = some (r + 1) ∧ d.eventTx = s.created.length := by
        rw [mem_cons, List.mem_map] at hd
        rcases hd with rfl | ⟨m, -, rfl⟩
        · exact ⟨rfl, rfl⟩
        · exact ⟨rfl, rfl⟩
      refine Delivery.isolated_of_key name (protocol, id) hd'.1 hname ?_ hkey
      show (s.created ++ [(protocol, id)])[d.eventTx]? = _
      rw [hd'.2, getElem?_append_right (le_refl _), Nat.sub_self]
      rfl
    · split
      next heq =>
        rw [← heq, hname]
      · rfl
    · cases hrc'
      cases hi
      cases hname'
      cases (hnew _).symm.trans hch
      exact hkey
  · have hcreated := hs.create hfree hslot (s.newChannel protocol id) ⟨rfl, rfl⟩
    have hinformed := hcreated.inform (channelKey protocol id)
      { s.infoOf (channelKey protocol id) with outgoing := (s.infoOf (channelKey protocol id)).outgoing ++ [s.nextSlot + 1] }
      (fun i ch hmem hch => ?_) (hs.incoming _)
    · refine ⟨hinformed.congr rfl (by rw [← hinfos]) rfl hremote, [], ?_, nofun⟩
      rw [append_nil, ← hdelivered]
      rfl
    · rcases mem_append.mp hmem with hold | hnew'
      · exact hcreated.outgoing _ i ch hold hch
      · rw [Nat.succ_injective (mem_singleton.mp hnew')] at hch
        cases (hnew _).symm.trans hch
        rfl

end

theorem advance_command {c : MuxCommand} (hs : Matched frames s)
    (hfree : ∀ protocol id handshake, c = .createChannel protocol id handshake →
      SlotFree frames s (channelKey protocol id)) (h : s.handleCommand c = .ok s') : Advance frames s s' := by
  cases c with
  | createChannel protocol id handshake => exact advance_create hs (hfree protocol id handshake rfl) h
  | closeChannel localId =>
    obtain ⟨-, ⟨-, rfl⟩ | ⟨ch, -, -, rfl⟩ | ⟨-, -, f, ds, -, hds, rfl⟩⟩ := closeChannelInternal_ok h
    · exact advance_refl hs
    · exact advance_refl hs
    · have hfree := (fewer_deliver s ds).trans (fewer_free _ (localId.toNat - 1))
      exact Fewer.advance { hfree with } hs ds rfl hds
  | sendMessage | cork | uncork =>
    obtain ⟨batch, depth, written, rfl⟩ := handleCommand_writes h nofun nofun
    exact Fewer.advance (.of_eq rfl rfl rfl rfl) hs [] (append_nil _).symm nofun

/-! ### Frames -/

theorem Advance.frames_congr {frames' : List DecodedFrame} (h : Advance frames s s')
    (heq : ∀ r, openedAs frames' r = openedAs frames r) : Advance frames' s s' := by
  have hfun : openedAs frames' = openedAs frames := funext heq
  obtain ⟨hs, ds, hds, hiso⟩ := h
  refine ⟨⟨hs.named, ?_, ?_, ?_, hs.outgoing, ?_⟩, ds, hds, fun d hd hne => ?_⟩
  · rw [hfun]
    exact hs.bound
  · rw [hfun]
    exact hs.remote
  · rw [hfun]
    exact hs.paired
  · rw [hfun]
    exact hs.incoming
  · rw [hfun]
    exact hiso d hd hne

theorem advance_reject {remoteId : UInt64} (hs : Matched frames s) (h : s.handleRemoteReject remoteId = .ok s') :
    Advance frames s s' := by
  obtain ⟨i, -, -, rfl⟩ := handleRemoteReject_ok h
  obtain ⟨hfewer, ds, hds, hclosed⟩ := fewer_markClosed s i
  exact (hfewer.trans (fewer_free _ i)).advance hs ds hds hclosed

theorem advance_dispatch {channelId : UInt64} (hs : Matched frames s) (hopen : openedAs frames channelId.toNat ≠ none)
    (messageType : UInt64) (payload : Bytes) :
    Advance frames s (s.dispatchMessage (wrap32 channelId.toNat) messageType payload) := by
  obtain ⟨hpos, hlt⟩ := hs.bound _ hopen
  rw [wrap32_of_lt hlt]
  obtain ⟨r, hr⟩ := Nat.exists_eq_succ_of_ne_zero (Nat.ne_of_gt hpos)
  rw [Nat.succ_eq_add_one] at hr
  rw [hr] at hopen ⊢
  obtain ⟨name, hname⟩ := ne_none_iff_exists'.mp hopen
  unfold dispatchMessage
  rw [if_neg (Nat.succ_ne_zero r), Nat.add_sub_cancel]
  split
  · exact advance_refl hs
  next rc hrc =>
    split
    next ch hch =>
      obtain ⟨hpaired, -⟩ := filter_eq_some_iff.mp hch
      obtain ⟨i, hi, hlocal⟩ := bind_eq_some_iff.mp hpaired
      refine ⟨(fewer_deliver s _).matched hs, _, rfl, fun d hd => ?_⟩
      rw [mem_singleton] at hd
      subst hd
      exact Delivery.isolated_of_key name (ch.protocol, ch.id) rfl hname (hs.named i ch hlocal)
        (hs.paired r rc i ch name hrc hi hlocal hname)
    · refine Fewer.advance ⟨rfl, rfl, fun i ch h => ⟨ch, h, rfl, rfl, rfl⟩, fun j => ?_⟩ hs []
        (append_nil _).symm nofun
      show ((s.remote.set r _)[j]?.join).map (·.localId) = _
      rw [join_getElem?_set (remoteAt_lt hrc)]
      split
      next hj =>
        rw [hj, hrc]
        rfl
      · rfl

theorem created_dispatchMessage (s : MuxState) (remoteId : Nat) (messageType : UInt64) (payload : Bytes) :
    (s.dispatchMessage remoteId messageType payload).created = s.created := by
  obtain ⟨remote, delivered, h⟩ := s.dispatchMessage_eq remoteId messageType payload
  rw [h]

theorem Advance.trans (h : Advance frames s t) (h' : Advance frames t s') (hcreated : s'.created = t.created) :
    Advance frames s s' := by
  obtain ⟨ds, hds, hiso⟩ := h.delivered
  obtain ⟨ds', hds', hiso'⟩ := h'.delivered
  refine ⟨h'.matched, ds ++ ds', by rw [hds', hds, append_assoc], fun d hd => ?_⟩
  rcases mem_append.mp hd with hd | hd
  · rw [hcreated]
    exact hiso d hd
  · exact hiso' d hd

theorem advance_batch {items : List BatchItem} (hs : Matched frames s)
    (hopen : ∀ item ∈ items, openedAs frames item.channelId.toNat ≠ none)
    (h : s.dispatchBatch items = .ok s' ∨ ∃ e, s.dispatchBatch items = .err e s') : Advance frames s s' := by
  refine dispatchBatch_induction items (fun t item hitem m p ht => ?_) (advance_refl hs) s' h
  exact ht.trans (advance_dispatch ht.matched (hopen item hitem) m p) (created_dispatchMessage _ _ _ _)

theorem remoteAt_of_set (h : s'.remote = (s.growRemote rid).remote.set rid (some rc))
    (r : Nat) : s'.remoteAt r = if r = rid then some rc else s.remoteAt r := by
  have hlen : rid < (s.growRemote rid).remote.length := by
    show rid < (s.remote ++ List.replicate (rid + 1 - s.remote.length) none).length
    rw [length_append, length_replicate]
    omega
  rw [remoteAt, h, join_getElem?_set hlen, ← s.remoteAt_growRemote rid r]
  rfl

section
variable (hs : Matched frames s)
include hs

/-- A remote channel is entered that was not open, and maybe paired with a local channel that waits for its name. -/
theorem matched_open {info : ChannelInfo} (hid : localId.toNat = rid + 1) (hlt : rid + 1 < 2 ^ 32)
    (hfresh : openedAs frames (rid + 1) = none)
    (houtgoing : ∀ w ∈ info.outgoing, w ∈ (s.infoOf (channelKey protocol id)).outgoing)
    (hincoming : ∀ r ∈ info.incoming, r ∈ (s.infoOf (channelKey protocol id)).incoming ∨ r = rid + 1)
    (hpaired : ∀ i, rc.localId = some i → i + 1 ∈ (s.infoOf (channelKey protocol id)).outgoing) :
    Matched (.control (.openChannel localId protocol id hsk) :: frames)
      (s.withRemote rid rc (channelKey protocol id) info) := by
  have hremote := hs.setRemote (f := .control (.openChannel localId protocol id hsk) :: frames) hlt
    (fun r => by rw [openedAs, hid]) (remoteAt_of_set (s := s) (rfl : (s.withRemote rid rc (channelKey protocol id) info).remote = _))
    (by simp) (fun rc' i ch name hrc' hi hch hname => ?_) (fun key hmem => ?_)
  · refine hremote.inform _ info (fun i ch hmem => hs.outgoing _ i ch (houtgoing _ hmem)) fun r hmem => ?_
    rcases hincoming r hmem with hold | hr
    · exact hremote.incoming _ r hold
    · exact ⟨(protocol, id), by rw [openedAs, hid, if_pos hr.symm], rfl⟩
  · cases hrc'
    cases hname
    exact (hs.outgoing _ i ch (hpaired i hi) hch).symm
  · obtain ⟨name, hname, -⟩ := hs.incoming key _ hmem
    cases hfresh.symm.trans hname

theorem advance_open (hfollows : Follows frames (.control (.openChannel localId protocol id hsk)))
    (h : s.handleRemoteOpen localId protocol id hsk = .ok s' ∨ ∃ e, s.handleRemoteOpen localId protocol id hsk = .err e s') :
    Advance (.control (.openChannel localId protocol id hsk) :: frames) s s' := by
  obtain ⟨hpos, hlt, hfresh⟩ := hfollows
  have hwrap := wrap32_of_lt hlt
  rcases h with h | ⟨e, h⟩
  · obtain ⟨hzero, -⟩ | ⟨rid, hrid, -, hcases⟩ := handleRemoteOpen_ok h
    · omega
    rw [hwrap] at hrid
    rw [hrid] at hlt hfresh
    have hrest : ∀ {pos} {outgoing : List Nat}, (s.infoOf (channelKey protocol id)).outgoing = pos :: outgoing →
        ∀ w ∈ outgoing, w ∈ (s.infoOf (channelKey protocol id)).outgoing := fun hout w hw => hout ▸ mem_cons_of_mem _ hw
    have hpaired : ∀ {pos} {outgoing : List Nat}, (s.infoOf (channelKey protocol id)).outgoing = (pos + 1) :: outgoing →
        ∀ i, some pos = some i → i + 1 ∈ (s.infoOf (channelKey protocol id)).outgoing := by
      rintro pos outgoing hout i ⟨⟩
      rw [hout]
      exact mem_cons_self
    obtain ⟨pos, outgoing, hout, -, ⟨ch, hch, rfl⟩ | ⟨hnone, rfl⟩⟩ | ⟨hout, rfl⟩ := hcases
    · have hkey := hs.outgoing _ pos ch (by rw [hout]; exact mem_cons_self) hch
      have hfewer : Fewer s { s with locals := s.locals.set pos (some { ch with remoteId := some (rid + 1), opened := true }) } :=
        ⟨rfl, rfl, fun i ch' => localAt_set_some hch _ rfl rfl rfl, fun _ => rfl⟩
      refine ⟨(matched_open (hfewer.matched hs) hrid hlt hfresh ?_ ?_ ?_).congr rfl rfl rfl rfl, _, rfl, fun d hd => ?_⟩
      · exact hrest hout
      · exact fun r hr => .inl hr
      · exact hpaired hout
      · rw [mem_singleton] at hd
        subst hd
        refine Delivery.isolated_of_key (protocol, id) (ch.protocol, ch.id) rfl ?_ (hs.named pos ch hch) hkey.symm
        rw [openedAs, if_pos hrid]
    · exact ⟨matched_open hs hrid hlt hfresh (hrest hout) (fun r hr => .inl hr) (hpaired hout), [], (append_nil _).symm, nofun⟩
    · refine ⟨matched_open hs hrid hlt hfresh (fun w hw => hw) (fun r hr => ?_) nofun, [], (append_nil _).symm, nofun⟩
      rw [mem_append, mem_singleton] at hr
      exact hr
  · obtain ⟨rid, hrid, hsome, -⟩ := handleRemoteOpen_err h
    rw [hwrap] at hrid
    rw [hrid] at hfresh
    exact absurd ((hs.remote rid).mpr hfresh) hsome

theorem matched_close (hid : localId.toNat = rid + 1) (hrc : s.remoteAt rid = some rc)
    (hwaits : ∀ key, rid + 1 ∉ (s.infoOf key).incoming) :
    Matched (.control (.closeChannel localId) :: frames) { s with remote := s.remote.set rid none } := by
  refine hs.setRemote (o := none) (hs.bound (rid + 1) fun hnone => ?_).2 (fun r => by rw [openedAs, hid])
    (join_getElem?_set (remoteAt_lt hrc) none) (by simp) nofun fun key hmem => absurd hmem (hwaits key)
  cases hrc.symm.trans ((hs.remote rid).mpr hnone)

theorem advance_close (hopen : openedAs frames localId.toNat ≠ none)
    (hwaits : ∀ key, localId.toNat ∉ (s.infoOf key).incoming) :
    Advance (.control (.closeChannel localId) :: frames) s (s.handleRemoteClose localId) := by
  obtain ⟨hpos, hlt⟩ := hs.bound _ hopen
  obtain ⟨rid, hrid⟩ := Nat.exists_eq_succ_of_ne_zero (Nat.ne_of_gt hpos)
  rw [Nat.succ_eq_add_one] at hrid
  rw [hrid] at hopen hwaits
  obtain ⟨rc, hrc⟩ := ne_none_iff_exists'.mp fun hnone => hopen ((hs.remote rid).mp hnone)
  unfold handleRemoteClose
  rw [wrap32_of_lt hlt, hrid, if_neg (Nat.succ_ne_zero rid), Nat.add_sub_cancel]
  simp only [hrc, bind_some]
  cases rc.localId with
  | none => exact ⟨matched_close hs hrid hrc hwaits, [], (append_nil _).symm, nofun⟩
  | some i =>
    obtain ⟨hfewer, ds, hds, hclosed⟩ := fewer_markClosed s i
    have hmap := hfewer.remote rid
    rw [hrc, map_some, map_eq_some_iff] at hmap
    obtain ⟨rc', hrc', -⟩ := hmap
    refine ⟨matched_close (hfewer.matched hs) hrid hrc' fun key => ?_, ds, hds, fun d hd => ?_⟩
    · have hinfo : (s.markClosed i).infoOf key = s.infoOf key := by
        rw [infoOf, hfewer.infos]
        rfl
      exact hinfo ▸ hwaits key
    · exact Delivery.isolated_closed (hclosed d hd) _ _

theorem advance_frame {frame : DecodedFrame} (hfollows : Follows frames frame)
    (hwaits : ∀ localId, frame = .control (.closeChannel localId) → ∀ key, localId.toNat ∉ (s.infoOf key).incoming)
    (h : s.handleFrame frame = .ok s' ∨ ∃ e, s.handleFrame frame = .err e s') : Advance (frame :: frames) s s' := by
  have hok : ∀ {t : MuxState}, (Outcome.ok t = .ok s' ∨ ∃ e, Outcome.ok t = .err e s') → t = s' := by
    rintro t (h | ⟨e, h⟩)
    · cases h
      rfl
    · cases h
  cases frame with
  | control ctrl =>
    cases ctrl with
    | openChannel localId protocol id hsk => exact advance_open hs hfollows h
    | closeChannel localId =>
      rw [← hok h]
      exact advance_close hs hfollows (hwaits localId rfl)
    | rejectChannel remoteId =>
      have hadv := advance_reject hs (h.resolve_right fun ⟨e, he⟩ => handleRemoteReject_ne_err he)
      exact hadv.frames_congr fun r => rfl
  | message channelId messageType payload =>
    rw [← hok h]
    exact (advance_dispatch hs hfollows messageType payload).frames_congr fun r => rfl
  | batch items => exact (advance_batch hs hfollows h).frames_congr fun r => rfl

end

end

/-! ## Runs -/

theorem delivered_shutdownAll (s : MuxState) :
    ∃ ds, s.shutdownAll.delivered = s.delivered ++ ds ∧ ∀ d ∈ ds, ∃ isRemote, d.event = .closed isRemote := by
  refine ⟨_, rfl, fun d hd => ⟨true, ?_⟩⟩
  obtain ⟨ch, -, hch⟩ := mem_filterMap.mp hd
  obtain ⟨c, -, rfl⟩ := map_eq_some_iff.mp hch
  rfl

theorem isolated_drop {s' : MuxState} (hw : w.mux = .running s) (hw' : w'.mux.state? = some s')
    (ds : List Delivery) (hds : s'.delivered = s.delivered ++ ds) (hiso : ∀ d ∈ ds, d.Isolated w'.frames s'.created) :
    ∀ d ∈ w'.mux.delivered.drop w.mux.delivered.length, d.Isolated w'.frames w'.mux.created := by
  intro d hd
  rw [Mux.delivered, Mux.delivered, hw, hw'] at hd
  rw [Mux.created, hw']
  have hdrop : (s.delivered ++ ds).drop s.delivered.length = ds := drop_left
  rw [elim_some, hds] at hd
  exact hiso d (hdrop ▸ hd)

theorem isolated_settle {r : Outcome} (hw : w.mux = .running s) (hw' : w'.mux = .settle r)
    (hadv : ∀ s', (r = .ok s' ∨ ∃ e, r = .err e s') → Advance w'.frames s s') :
    (∀ t, w'.mux = .running t → Matched w'.frames t) ∧
      ∀ d ∈ w'.mux.delivered.drop w.mux.delivered.length, d.Isolated w'.frames w'.mux.created := by
  cases r with
  | ok s' =>
    obtain ⟨hs', ds, hds, hiso⟩ := hadv s' (.inl rfl)
    refine ⟨fun t ht => ?_, isolated_drop hw (by rw [hw']; rfl) ds hds hiso⟩
    cases hw'.symm.trans ht
    exact hs'
  | err e s' =>
    obtain ⟨-, ds, hds, hiso⟩ := hadv s' (.inr ⟨e, rfl⟩)
    obtain ⟨ds', hds', hclosed⟩ := delivered_shutdownAll s'
    refine ⟨fun t ht => ?_, isolated_drop hw (by rw [hw']; rfl) (ds ++ ds') ?_ fun d hd => ?_⟩
    · cases hw'.symm.trans ht
    · rw [hds', hds, append_assoc]
    · rcases mem_append.mp hd with hd | hd
      · exact hiso d hd
      · exact Delivery.isolated_closed (hclosed d hd) _ _
  | panic =>
    refine ⟨fun t ht => ?_, fun d hd => ?_⟩
    · cases hw'.symm.trans ht
    have hnil : w'.mux.delivered = [] := by rw [hw']; rfl
    rw [hnil, drop_nil] at hd
    cases hd

theorem isolated_still {e : MuxEvent} (h : w.mux.step e = w.mux) : Isolated w e := by
  intro d hd
  have hmux : (w.step e).mux = w.mux := h
  rw [hmux, drop_length] at hd
  cases hd

theorem isolated_step (w : Watcher) (e : MuxEvent) (hw : ∀ s, w.mux = .running s → Matched w.frames s)
    (h : RemoteFollows w e ∧ SlotUnused w e ∧ NotWaiting w e) :
    (∀ s, (w.step e).mux = .running s → Matched (w.step e).frames s) ∧ Isolated w e := by
  obtain ⟨hfollows, hunused, hwaits⟩ := h
  cases hm : w.mux with
  | running s =>
    have hs := hw s hm
    have hstep : (w.step e).mux = Mux.step (.running s) e := by rw [← hm]; rfl
    cases e with
    | command c =>
      refine isolated_settle hm hstep fun s' h' => advance_command hs (fun protocol id hsk hc => ?_)
        (h'.resolve_right fun ⟨e, he⟩ => handleCommand_ne_err he)
      exact hunused s hm protocol id hsk (by rw [hc])
    | frame data =>
      by_cases hnil : data = []
      · subst hnil
        refine ⟨fun t ht => ?_, isolated_still (by rw [hm]; rfl)⟩
        cases hstep.symm.trans ht
        exact hs
      · rw [Mux.step_frame hnil] at hstep
        refine isolated_settle hm hstep fun s' h' => ?_
        obtain ⟨frame, hd, hf⟩ | ⟨⟨e, hd⟩, rfl⟩ := Mux.handleIncomingFrame_cases h'
        · have hrec : (MuxEvent.frame data).received = some frame := by rw [MuxEvent.received, hd]; rfl
          have hframes : (w.step (.frame data)).frames = frame :: w.frames := by
            show (MuxEvent.frame data).received.toList ++ w.frames = _
            rw [hrec]
            rfl
          rw [hframes]
          exact advance_frame hs (hfollows frame hrec) (fun localId heq => hwaits s hm localId (by rw [hrec, heq])) hf
        · have hframes : (w.step (.frame data)).frames = w.frames := by
            show (MuxEvent.frame data).received.toList ++ w.frames = _
            rw [MuxEvent.received, hd]
            rfl
          rw [hframes]
          exact advance_refl hs
    | stop =>
      obtain ⟨ds, hds, hclosed⟩ := delivered_shutdownAll s
      refine ⟨fun t ht => ?_, isolated_drop hm (by rw [hstep]; rfl) ds hds fun d hd => ?_⟩
      · cases hstep.symm.trans ht
      exact Delivery.isolated_closed (hclosed d hd) _ _
  | ended s | panicked =>
    have hstill : w.mux.step e = w.mux := by rw [hm]; rfl
    refine ⟨fun t ht => ?_, isolated_still hstill⟩
    have ht' : w.mux.step e = .running t := ht
    rw [hm] at ht'
    cases ht'

theorem matched_new : Matched [] .new :=
  ⟨nofun, fun _ h => absurd rfl h, fun _ => ⟨fun _ => rfl, fun _ => rfl⟩, nofun, nofun, nofun⟩

/-- **Channels are isolated along runs in which the slot of a new channel is not kept for another name and no channel is
closed that waits.** -/
theorem isolated_of_unused (es : List MuxEvent)
    (h : Along Watcher.step (fun w e => RemoteFollows w e ∧ SlotUnused w e ∧ NotWaiting w e) .new es) :
    Along Watcher.step Isolated .new es := by
  refine Along.of_invariant (fun w e hw hp => isolated_step w e hw hp) (fun s hs => ?_) h
  cases hs
  exact matched_new

/-- The frame of a remote that opens its channel `1` as `a`. -/
def opensA : MuxEvent := .frame (openBytes 1 "a" none none)

theorem received_opensA : opensA.received = some (.control (.openChannel 1 "a" none none)) := by
  decide +kernel

/-- Both sides open a channel. -/
theorem isolated_opened_by_both : Along Watcher.step Isolated .new [.command (.createChannel "a" none none), opensA] ∧
    (run Watcher.step .new [.command (.createChannel "a" none none), opensA]).mux.delivered =
      [⟨0, some 1, .opened none⟩] := by
  refine ⟨isolated_of_unused _ ⟨⟨nofun, ?_, fun s _ localId h => nomatch h⟩, ⟨?_, ?_, ?_⟩, trivial⟩, by decide +kernel⟩
  · intro s hs protocol id handshake _
    cases hs
    exact ⟨nofun, nofun⟩
  · intro frame hframe
    cases received_opensA.symm.trans hframe
    exact ⟨by decide, by decide, rfl⟩
  · intro s hs protocol id handshake h
    cases h
  · intro s hs localId h
    cases received_opensA.symm.trans h

/-- A channel is closed before the remote has opened it, and its slot is handed out to a channel of another name. -/
def closedBeforeOpened : List MuxEvent :=
  [.command (.createChannel "a" none none), .command (.closeChannel 1), .command (.createChannel "b" none none), opensA]

/-- The remote opens `a`, and the handle of `b` is told that its channel is open. -/
theorem opened_by_another : Along Watcher.step RemoteFollows .new closedBeforeOpened ∧
    (run Watcher.step .new closedBeforeOpened).mux.delivered = [⟨0, none, .closed false⟩, ⟨1, some 1, .opened none⟩] ∧
    (run Watcher.step .new closedBeforeOpened).mux.created[1]? = some ("b", none) ∧
    openedAs (run Watcher.step .new closedBeforeOpened).frames 1 = some ("a", none) ∧
    ¬ Along Watcher.step Isolated .new closedBeforeOpened := by
  have hcreated : (run Watcher.step .new closedBeforeOpened).mux.created[1]? = some ("b", none) := by decide +kernel
  have hopen : openedAs (run Watcher.step .new closedBeforeOpened).frames 1 = some ("a", none) := by decide +kernel
  refine ⟨⟨nofun, nofun, nofun, fun frame hframe => ?_, trivial⟩, by decide +kernel, hcreated, hopen, fun h => ?_⟩
  · cases received_opensA.symm.trans hframe
    exact ⟨by decide, by decide, by decide +kernel⟩
  · obtain ⟨-, -, -, hlast, -⟩ := h
    obtain ⟨r, protocol, id, id', horigin, hr, hname, -⟩ := hlast ⟨1, some 1, .opened none⟩ (by decide +kernel) nofun
    cases horigin
    cases hopen.symm.trans hr
    have hb : some (("b", none) : ChannelName) = some ("a", id') := hcreated.symm.trans hname
    rw [Option.some.injEq, Prod.mk.injEq] at hb
    exact absurd hb.1 (by decide)

end Peeroxide.Dht
