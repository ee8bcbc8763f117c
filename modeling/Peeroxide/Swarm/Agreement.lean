import Peeroxide.Swarm.Slots

/-!
# Two peers that dial each other

Each side dials the other once. A handshake is refused when it finds a slot for its peer, and the dial it belongs to then
fails; a handshake that is accepted takes a slot, at once or when the punch of its hole-punch lands, and the dial succeeds.
Only the result of a dial compares the keys, so that what is left in the two tables depends on four handlers.

Main result: `dials_agree`.
-/

namespace Peeroxide.Swarm
open Lib Dht Option SwarmActor AList

/-- What has become of the handshake of a dial on the other side. -/
inductive Outcome where
  | pending
  | staged (id : UInt64)
  | refused
  | accepted
  deriving DecidableEq

structure Pairing where
  actor : Bool → SwarmActor
  dial : Bool → Dial
  outcome : Bool → Outcome
  /-- The result of the dial was handled. -/
  handled : Bool → Bool

/-- The dial of one side gets further. -/
inductive PairingEvent where
  | handshake (side : Bool) (now : Nat) (m : Handshake)
  | punched (side : Bool)
  | result (side : Bool) (now : Nat) (draw : Nat × Nat × Nat)

/-- What a side that had the state `s` and now has `t` has made of the dial of a peer. -/
def decideOutcome (s t : SwarmActor) (pk : PublicKey) : Outcome :=
  if pk ∈ s.connections then .refused
  else if pk ∈ t.connections then .accepted
  else match t.pendingHandshakes.lookup pk with
    | some id => .staged id
    | none => .refused

namespace Pairing
variable (hash : Bytes → Bytes32)

def serve (w : Pairing) (side : Bool) (t : SwarmActor) : Pairing :=
  { w with
    actor := Function.update w.actor (!side) t
    outcome := Function.update w.outcome side (decideOutcome (w.actor (!side)) t (w.actor side).publicKey) }

def step (w : Pairing) : PairingEvent → Pairing
  | .handshake side now m =>
    if w.outcome side = .pending then w.serve side ((w.actor (!side)).handleServerHandshake hash now m).2 else w
  | .punched side =>
    match w.outcome side with
    | .staged id => w.serve side ((w.actor (!side)).handlePunched id)
    | _ => w
  | .result side now draw =>
    -- the dial of a handshake that is not decided yet has no result
    if (w.outcome side = .refused ∨ w.outcome side = .accepted) ∧ w.handled side = false then
      { w with
        actor := Function.update w.actor side
          ((w.actor side).handleConnectResult now (w.dial side) (w.outcome side = .accepted) draw)
        handled := Function.update w.handled side true }
    else w

/-- A handshake that arrives is the peer's, is no copy, and names a stream. -/
def Genuine (w : Pairing) : PairingEvent → Prop
  | .handshake side now m => ∃ payload,
      Answers hash (w.actor (!side)) now m payload (w.actor side).publicKey ∧ payload.udx.isSome = true
  | _ => True

/-- Both sides are about to dial: neither has a slot for the other, and both have room for one. -/
structure Ready (w : Pairing) : Prop where
  distinct : (w.actor true).publicKey ≠ (w.actor false).publicKey
  target : ∀ side, (w.dial side).publicKey = (w.actor (!side)).publicKey
  free : ∀ side, (w.dial side).publicKey ∉ (w.actor side).connections
  room : ∀ side, (w.actor side).connections.entries.length < (w.actor side).config.maxPeers
  pending : ∀ side, w.outcome side = .pending
  unhandled : ∀ side, w.handled side = false

/-- Both sides have a slot for the other, and just one of them is the initiator. -/
def Agreed (w : Pairing) : Prop :=
  ∃ info info', (w.actor true).connections.lookup (w.actor false).publicKey = some info ∧
    (w.actor false).connections.lookup (w.actor true).publicKey = some info' ∧ info.isInitiator = !info'.isInitiator

end Pairing

/-! ## One side -/

def slotOf (s : SwarmActor) (pk : PublicKey) : Option Bool := (s.connections.lookup pk).map (·.isInitiator)

/-- The slot of a side, when its own dial and that of the other have got this far. -/
def expected (dominant handled : Bool) (own other : Outcome) : Option Bool :=
  if handled = true ∧ own = .accepted then some (if other = .accepted then dominant else true)
  else if other = .accepted then some false
  else none

theorem expected_taken (dominant : Bool) (other : Outcome) :
    expected dominant true .accepted other = some (if other = .accepted then dominant else true) :=
  if_pos ⟨rfl, rfl⟩

theorem expected_untaken {handled : Bool} {own : Outcome} (h : ¬ (handled = true ∧ own = .accepted)) (dominant : Bool)
    (other : Outcome) : expected dominant handled own other = if other = .accepted then some false else none :=
  if_neg h

theorem expected_unhandled (dominant : Bool) (own other : Outcome) :
    expected dominant false own other = if other = .accepted then some false else none :=
  expected_untaken (fun h => Bool.false_ne_true h.1) dominant other

/-- A side whose own dial has got as far as `own`, and which has brought the dial of the other as far as `other`. -/
structure Side (s : SwarmActor) (pk : PublicKey) (own other : Outcome) (handled : Bool) : Prop where
  slot : slotOf s pk = expected (s.dominant pk) handled own other
  room : pk ∉ s.connections → s.connections.entries.length < s.config.maxPeers
  staged : ∀ id, other = .staged id → ∃ entry, s.connects.lookup id = some entry ∧ entry.remotePk = pk
  decided : handled = true → own = .refused ∨ own = .accepted
  refused : other = .refused → handled = true ∧ own = .accepted

section
variable {s t : SwarmActor} {pk : PublicKey} {own other : Outcome} {handled : Bool}

theorem slotOf_eq_none : slotOf s pk = none ↔ pk ∉ s.connections := by
  rw [slotOf, map_eq_none_iff, lookup_eq_none]

section
variable (h : Side s pk own other handled)
include h

/-- What the other side makes of a dial tells this side nothing before its result is handled. -/
theorem Side.own_decided (hopen : ¬ (own = .refused ∨ own = .accepted))
    (own' : Outcome) : Side s pk own' other handled := by
  have hhandled : handled = false := Bool.eq_false_iff.mpr fun hhandled => hopen (h.decided hhandled)
  subst hhandled
  refine ⟨h.slot.trans ?_, h.room, h.staged, nofun, fun hrefused => nomatch (h.refused hrefused).1⟩
  rw [expected_unhandled, expected_unhandled]

/-- A peer that has a slot while its own dial is not accepted: the dial of this side has taken it. -/
theorem Side.occupied (hother : other ≠ .accepted) (hmem : pk ∈ s.connections) :
    handled = true ∧ own = .accepted := by
  by_contra hno
  refine slotOf_eq_none.mp ?_ hmem
  rw [h.slot, expected_untaken hno, if_neg hother]

theorem Side.untaken (hfree : pk ∉ s.connections) : ¬ (handled = true ∧ own = .accepted) := by
  intro hyes
  have hslot := h.slot
  rw [slotOf_eq_none.mpr hfree, hyes.1, hyes.2] at hslot
  cases hslot

theorem Side.refuse (hother : other ≠ .accepted) (hmem : pk ∈ s.connections)
    (hconnections : t.connections = s.connections) : Side t pk own .refused handled := by
  have hoccupied := h.occupied hother hmem
  refine ⟨?_, fun hfree => absurd (hconnections ▸ hmem) hfree, nofun, h.decided, fun _ => hoccupied⟩
  rw [slotOf, hconnections]
  refine h.slot.trans ?_
  rw [hoccupied.1, hoccupied.2, expected_taken, expected_taken, if_neg hother, if_neg Outcome.noConfusion]

theorem Side.stage (hfree : pk ∉ s.connections)
    (hconfig : t.config = s.config) (hconnections : t.connections = s.connections)
    {id : UInt64} (hentry : ∃ entry, t.connects.lookup id = some entry ∧ entry.remotePk = pk) :
    Side t pk own (.staged id) handled := by
  refine ⟨?_, fun _ => ?_, fun id' hid => ?_, h.decided, nofun⟩
  · rw [slotOf_eq_none.mpr (hconnections ▸ hfree), expected_untaken (h.untaken hfree),
      if_neg Outcome.noConfusion]
  · rw [hconnections, hconfig]
    exact h.room hfree
  · cases hid
    exact hentry

theorem Side.accept (hfree : pk ∉ s.connections) {attempt : Nat}
    (hconnections : t.connections = s.connections.insert pk ⟨false, attempt⟩) : Side t pk own .accepted handled := by
  refine ⟨?_, fun hfree' => absurd ?_ hfree', nofun, h.decided, nofun⟩
  · rw [slotOf, hconnections, lookup_insert, expected_untaken (h.untaken hfree)]
    rfl
  · rw [hconnections, mem_insert]
    exact .inl rfl

end

theorem decideOutcome_accepted (hfree : pk ∉ s.connections) {attempt : Nat}
    (hconnections : t.connections = s.connections.insert pk ⟨false, attempt⟩) : decideOutcome s t pk = .accepted := by
  rw [decideOutcome, if_neg hfree, hconnections, if_pos]
  rw [mem_insert]
  exact .inl rfl

section
variable (s : SwarmActor) (now : Nat) (d : Dial)

theorem connectResult_frame (ok : Bool) (draw : Nat × Nat × Nat) :
    (s.handleConnectResult now d ok draw).publicKey = s.publicKey ∧
    (s.handleConnectResult now d ok draw).config = s.config ∧
    (s.handleConnectResult now d ok draw).connects = s.connects := by
  obtain ⟨-, heq⟩ | ⟨-, existing, -, -, heq⟩ | ⟨-, -, heq⟩ := s.handleConnectResult_cases now d ok draw
  · have hdial := dialFrame_attemptConnections ((s.dialEnded d).scheduleRetry d.publicKey draw)
    rw [heq, hdial.publicKey, hdial.config, hdial.connects]
    rcases (s.dialEnded d).scheduleRetry_cases d.publicKey draw with hretry | ⟨info, topic, topics, -, -, -, hretry⟩
    · rw [hretry]
      exact ⟨rfl, rfl, rfl⟩
    · rw [hretry]
      exact ⟨rfl, rfl, rfl⟩
  · rw [heq]
    exact ⟨rfl, rfl, rfl⟩
  · have hdial := dialFrame_attemptConnections ((s.dialEnded d).takeSlot now d)
    rw [heq, hdial.publicKey, hdial.config, hdial.connects]
    exact ⟨rfl, rfl, rfl⟩

theorem connections_dialFailed (draw : Nat × Nat × Nat) :
    (s.handleConnectResult now d false draw).connections = s.connections := by
  obtain ⟨-, heq⟩ | ⟨h, -⟩ | ⟨h, -⟩ := s.handleConnectResult_cases now d false draw
  · rw [heq, (dialFrame_attemptConnections _).connections]
    rcases (s.dialEnded d).scheduleRetry_cases d.publicKey draw with hretry | ⟨info, topic, topics, -, -, -, hretry⟩
    · rw [hretry]
      rfl
    · rw [hretry]
      rfl
  · cases h
  · cases h

/-- A dial that succeeds leaves its own connection or the one of the key order. -/
theorem slotOf_dialled (draw : Nat × Nat × Nat) :
    slotOf (s.handleConnectResult now d true draw) d.publicKey =
      some ((slotOf s d.publicKey).elim true fun isInitiator => isInitiator || s.dominant d.publicKey) := by
  obtain ⟨h, -⟩ | ⟨-, existing, hexisting, hkept, heq⟩ | ⟨-, htakes, heq⟩ := s.handleConnectResult_cases now d true draw
  · cases h
  · rw [heq, show slotOf (s.dialEnded d) d.publicKey = slotOf s d.publicKey from rfl, slotOf, hexisting, map_some,
      elim_some, hkept, Bool.or_self]
  · have hslot : slotOf (((s.dialEnded d).takeSlot now d).attemptConnections) d.publicKey = some true := by
      rw [slotOf, (dialFrame_attemptConnections _).connections, takeSlot, lookup_insert]
      rfl
    rw [heq, hslot, slotOf]
    cases hexisting : s.connections.lookup d.publicKey with
    | none => rfl
    | some existing =>
      cases hinit : existing.isInitiator <;> cases hdom : s.dominant d.publicKey <;> simp_all

end

theorem Side.result {d : Dial} (h : Side s d.publicKey own other false) (hown : own = .refused ∨ own = .accepted)
    (now : Nat) (draw : Nat × Nat × Nat) :
    Side (s.handleConnectResult now d (own = .accepted) draw) d.publicKey own other true := by
  obtain ⟨hkey, hconfig, hconnects⟩ := connectResult_frame s now d (own = .accepted) draw
  have hstaged : ∀ id, other = .staged id →
      ∃ entry, (s.handleConnectResult now d (own = .accepted) draw).connects.lookup id = some entry ∧
        entry.remotePk = d.publicKey := by
    rw [hconnects]
    exact h.staged
  have hrefused : other ≠ .refused := fun hrefused => nomatch (h.refused hrefused).1
  have hbefore := h.slot
  rw [expected_unhandled] at hbefore
  refine ⟨?_, ?_, hstaged, fun _ => hown, fun hyes => absurd hyes hrefused⟩
  · rw [dominant, hkey, ← dominant]
    rcases hown with rfl | rfl
    · rw [decide_eq_false Outcome.noConfusion, slotOf, connections_dialFailed, ← slotOf, hbefore,
        expected_untaken fun h => Outcome.noConfusion h.2]
    · rw [decide_eq_true rfl, slotOf_dialled, hbefore, expected_taken]
      by_cases hother : other = .accepted
      · rw [if_pos hother, if_pos hother, elim_some, Bool.false_or]
      · rw [if_neg hother, if_neg hother, elim_none]
  · intro hfree
    rcases hown with rfl | rfl
    · rw [decide_eq_false Outcome.noConfusion] at hfree hconfig ⊢
      rw [connections_dialFailed] at hfree ⊢
      rw [hconfig]
      exact h.room hfree
    · rw [decide_eq_true rfl, ← slotOf_eq_none, slotOf_dialled] at hfree
      cases hfree

end

/-! ## Both sides -/

namespace Pairing
variable {hash : Bytes → Bytes32} {w : Pairing}

structure Kept (w : Pairing) : Prop where
  distinct : (w.actor true).publicKey ≠ (w.actor false).publicKey
  target : ∀ side, (w.dial side).publicKey = (w.actor (!side)).publicKey
  sides : ∀ side, Side (w.actor side) (w.dial side).publicKey (w.outcome side) (w.outcome (!side)) (w.handled side)

theorem Ready.kept (h : w.Ready) : w.Kept := by
  refine ⟨h.distinct, h.target, fun side => ⟨?_, fun _ => h.room side, ?_, ?_, ?_⟩⟩
  · rw [slotOf_eq_none.mpr (h.free side), h.unhandled, h.pending, h.pending]
    rfl
  · rw [h.pending]
    nofun
  · rw [h.unhandled]
    nofun
  · rw [h.pending]
    nofun

section
variable (h : w.Kept)
include h

theorem Kept.serve {side : Bool} {t : SwarmActor}
    (hopen : ¬ (w.outcome side = .refused ∨ w.outcome side = .accepted))
    (hkey : t.publicKey = (w.actor (!side)).publicKey) (hside : Side t (w.actor side).publicKey (w.outcome (!side))
      (decideOutcome (w.actor (!side)) t (w.actor side).publicKey) (w.handled (!side))) : (w.serve side t).Kept := by
  have hkeys : ∀ c, ((w.serve side t).actor c).publicKey = (w.actor c).publicKey := by
    intro c
    rcases Bool.eq_or_eq_not c side with rfl | rfl
    · simp [Pairing.serve]
    · simp [Pairing.serve, hkey]
  refine ⟨?_, fun c => ?_, fun c => ?_⟩
  · rw [hkeys, hkeys]
    exact h.distinct
  · rw [hkeys]
    exact h.target c
  · rcases Bool.eq_or_eq_not c side with rfl | rfl
    · have hown := (h.sides c).own_decided hopen (decideOutcome (w.actor (!c)) t (w.actor c).publicKey)
      simpa [Pairing.serve] using hown
    · have htarget := h.target (!side)
      simpa [Pairing.serve, htarget] using hside

theorem Kept.server (side : Bool) : Side (w.actor (!side)) (w.actor side).publicKey (w.outcome (!side))
    (w.outcome side) (w.handled (!side)) := by
  have hside := h.sides (!side)
  rwa [h.target, Bool.not_not] at hside

theorem Kept.handshake {side : Bool} {now : Nat} {m : Handshake} (hpending : w.outcome side = .pending)
    (hgenuine : w.Genuine hash (.handshake side now m)) :
    (w.serve side ((w.actor (!side)).handleServerHandshake hash now m).2).Kept := by
  obtain ⟨payload, hanswers, hudx⟩ := hgenuine
  have hside := h.server side
  rw [hpending] at hside
  have hopen : ¬ (w.outcome side = .refused ∨ w.outcome side = .accepted) := by
    rw [hpending]
    nofun
  set server := w.actor (!side)
  set client := (w.actor side).publicKey
  by_cases hmem : client ∈ server.connections
  · obtain ⟨t, ht, heq | ⟨pk, hpk, hfree, -⟩⟩ := server.handleServerHandshake_cases hash now m
    · rw [heq]
      refine h.serve hopen ht.publicKey ?_
      rw [decideOutcome, if_pos hmem]
      exact hside.refuse Outcome.noConfusion hmem ht.connections
    · cases hanswers.remotePk.symm.trans hpk
      exact absurd hmem hfree
  · obtain ⟨t, ht, heq⟩ := hanswers.accepted hudx hmem (hside.room hmem)
    rw [heq]
    split
    · refine h.serve hopen ht.publicKey ?_
      have hconnections : (t.commitPassiveHolepunch server.nextHolepunchId client).connections = server.connections :=
        ht.connections
      have hid : (t.commitPassiveHolepunch server.nextHolepunchId client).pendingHandshakes.lookup client =
          some server.nextHolepunchId := lookup_insert _
      rw [decideOutcome, if_neg hmem, hconnections, if_neg hmem, hid]
      exact hside.stage (t := t.commitPassiveHolepunch _ _) hmem ht.config hconnections
        ⟨⟨_, 0, false⟩, lookup_insert _, rfl⟩
    · refine h.serve hopen ht.publicKey ?_
      have hconnections : (t.reserve client).connections = server.connections.insert client ⟨false, t.nextAttempt⟩ := by
        rw [reserve, ht.connections]
      rw [decideOutcome_accepted hmem hconnections]
      exact hside.accept hmem hconnections

theorem Kept.punched {side : Bool} {id : UInt64} (hstaged : w.outcome side = .staged id) :
    (w.serve side ((w.actor (!side)).handlePunched id)).Kept := by
  have hside := h.server side
  rw [hstaged] at hside
  have hopen : ¬ (w.outcome side = .refused ∨ w.outcome side = .accepted) := by
    rw [hstaged]
    nofun
  obtain ⟨entry, hentry, hremote⟩ := hside.staged id rfl
  obtain ⟨hnone, -⟩ | ⟨entry', hentry', hcases⟩ := (w.actor (!side)).handlePunched_cases id
  · cases hentry.symm.trans hnone
  · cases hentry.symm.trans hentry'
    rw [hremote] at hcases
    obtain ⟨hno, heq⟩ | ⟨hfree, -, heq⟩ := hcases
    · have hmem : (w.actor side).publicKey ∈ (w.actor (!side)).connections := by
        by_contra hfree
        exact hno.elim hfree (Nat.not_le.mpr (hside.room hfree))
      rw [heq]
      refine h.serve hopen rfl ?_
      rw [decideOutcome, if_pos hmem]
      exact hside.refuse Outcome.noConfusion hmem rfl
    · rw [heq]
      refine h.serve hopen rfl ?_
      rw [decideOutcome_accepted hfree rfl]
      exact hside.accept hfree rfl

theorem Kept.result (side : Bool) (now : Nat) (draw : Nat × Nat × Nat) :
    (w.step hash (.result side now draw)).Kept := by
  rw [step]
  split
  next hready =>
    obtain ⟨hdecided, hhandled⟩ := hready
    have hside := h.sides side
    rw [hhandled] at hside
    have hresult := hside.result hdecided now draw
    have hkey := (connectResult_frame (w.actor side) now (w.dial side) (w.outcome side = .accepted) draw).1
    generalize handleConnectResult _ now _ _ draw = t at hresult hkey ⊢
    have hkeys : ∀ c, (Function.update w.actor side t c).publicKey = (w.actor c).publicKey := by
      intro c
      rcases Bool.eq_or_eq_not c side with rfl | rfl
      · rw [Function.update_self, hkey]
      · rw [Function.update_of_ne (Bool.not_ne_self side)]
    refine ⟨?_, fun c => ?_, fun c => ?_⟩
    · rw [hkeys, hkeys]
      exact h.distinct
    · rw [hkeys]
      exact h.target c
    · rcases Bool.eq_or_eq_not c side with rfl | rfl
      · simpa using hresult
      · simpa using h.sides (!side)
  · exact h

theorem kept_step (e : PairingEvent) (hgenuine : w.Genuine hash e) : (w.step hash e).Kept := by
  cases e with
  | handshake side now m =>
    rw [step]
    split
    next hpending =>
      exact h.handshake hpending hgenuine
    · exact h
  | punched side =>
    rw [step]
    split
    next id hstaged =>
      exact h.punched hstaged
    · exact h
  | result side now draw => exact h.result side now draw

end

theorem dominant_not {s t : SwarmActor} (h : s.publicKey ≠ t.publicKey) :
    s.dominant t.publicKey = !t.dominant s.publicKey := by
  rw [dominant, dominant]
  by_cases hlt : t.publicKey.1 < s.publicKey.1
  · rw [decide_eq_true hlt, decide_eq_false (List.lt_asymm hlt)]
    rfl
  · have hgt : s.publicKey.1 < t.publicKey.1 := by
      by_contra hge
      exact h (Subtype.ext (List.le_antisymm (List.not_lt.mp hlt) (List.not_lt.mp hge)))
    rw [decide_eq_false hlt, decide_eq_true hgt]
    rfl

theorem Kept.agreed (h : w.Kept) (hhandled : ∀ side, w.handled side = true) : w.Agreed := by
  have hslot : ∀ side, slotOf (w.actor side) (w.actor (!side)).publicKey =
      expected ((w.actor side).dominant (w.actor (!side)).publicKey) true (w.outcome side) (w.outcome (!side)) := by
    intro side
    have hside := (h.sides side).slot
    rwa [h.target, hhandled] at hside
  have hagree : ∃ b, slotOf (w.actor true) (w.actor false).publicKey = some b ∧
      slotOf (w.actor false) (w.actor true).publicKey = some !b := by
    have hslots := And.intro (hslot true) (hslot false)
    rw [Bool.not_true, Bool.not_false] at hslots
    rw [hslots.1, hslots.2, dominant_not h.distinct]
    rcases (h.sides true).decided (hhandled true) with htrue | htrue
    · have hfalse := ((h.sides false).refused htrue).2
      rw [htrue, hfalse]
      exact ⟨false, rfl, rfl⟩
    · rcases (h.sides false).decided (hhandled false) with hfalse | hfalse
      · rw [htrue, hfalse]
        exact ⟨true, rfl, rfl⟩
      · rw [htrue, hfalse]
        exact ⟨_, rfl, (congrArg some (Bool.not_not _)).symm⟩
  obtain ⟨b, htrue, hfalse⟩ := hagree
  obtain ⟨info, hinfo, rfl⟩ := map_eq_some_iff.mp htrue
  obtain ⟨info', hinfo', hinit⟩ := map_eq_some_iff.mp hfalse
  exact ⟨info, info', hinfo, hinfo', by rw [hinit, Bool.not_not]⟩

end Pairing

/-- **Two peers that dial each other end, in every order of the handshakes, the punches and the results, with a slot for
each other, of which one is the initiator's.** -/
theorem dials_agree (hash : Bytes → Bytes32) (w : Pairing) (hready : w.Ready) (es : List PairingEvent)
    (hgenuine : Along (Pairing.step hash) (Pairing.Genuine hash) w es)
    (hhandled : ∀ side, (run (Pairing.step hash) w es).handled side = true) : (run (Pairing.step hash) w es).Agreed :=
  (run_invariant_along (I := Pairing.Kept) (fun _ e h hg => Pairing.kept_step h e hg) hready.kept hgenuine).agreed hhandled

def twoDiallers : Pairing where
  actor side := .new (keyOf (if side then 7 else 1)) {}
  dial side := ⟨keyOf (if side then 1 else 7), [], 0⟩
  outcome _ := .pending
  handled _ := false

/-- Both handshakes are accepted before either result is handled. -/
def bothAccepted : List PairingEvent :=
  [.handshake true 0 (directHandshake (keyOf 7)), .handshake false 0 (directHandshake (keyOf 1)),
    .result false 0 (0, 0, 0), .result true 0 (0, 0, 0)]

theorem dials_agree_bothAccepted : (run (Pairing.step firstByte) twoDiallers bothAccepted).Agreed := by
  refine dials_agree firstByte _ ⟨by decide +kernel, by decide +kernel, by decide +kernel, by decide +kernel, fun _ => rfl,
    fun _ => rfl⟩ _ ⟨⟨_, ⟨?_, rfl, rfl, nofun, rfl⟩, rfl⟩, ⟨_, ⟨?_, rfl, rfl, nofun, rfl⟩, rfl⟩, trivial, trivial, trivial⟩ ?_
  · decide +kernel
  · decide +kernel
  · decide +kernel

end Peeroxide.Swarm
