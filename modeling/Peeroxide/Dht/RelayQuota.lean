import Peeroxide.Dht.RelayActive

/-!
# The quota of a session

A session counts its requests that wait, and takes one off when it cancels it. It does not count a request of its own that
is matched at once, and does not take off what a sweep, a failed bridge or an unpair ends.

Main results: `quota_exact_iff`, `matched_not_counted`.
-/

namespace Peeroxide.Dht
open Lib BlindRelayServer Assoc AList Option

namespace PendingPairing
variable {p : PendingPairing} {l : PendingLink} {b : Bool}

theorem holds_eq (hl : p.slot b = some l) (hnone : p.slot (!b) = none) (s : Nat) :
    p.holds s = decide (l.sessionId = s) := by
  rw [Bool.eq_iff_iff, holds_iff, decide_eq_true_eq]
  constructor
  · rintro ⟨b', l', hl', hs⟩
    by_cases hb : b' = b
    · rw [hb, hl] at hl'
      cases hl'
      exact hs
    · rw [Bool.eq_not_of_ne hb, hnone] at hl'
      cases hl'
  · exact fun hs => ⟨b, l, hl, hs⟩

theorem Single.slot_not (h : p.Single) (hl : p.slot b = some l) : p.slot (!b) = none := by
  obtain ⟨b', l', hl', hnone⟩ := h
  by_cases hb : b = b'
  · rw [hb, hnone]
  · rw [Bool.eq_not_of_ne hb, hnone] at hl
    cases hl

theorem Single.holds_unique (h : p.Single) {s s' : Nat} (hs : p.holds s = true) (hs' : p.holds s' = true) : s = s' := by
  obtain ⟨b, l, hl, hnone⟩ := h
  rw [holds_eq hl hnone, decide_eq_true_eq] at hs hs'
  exact hs.symm.trans hs'

end PendingPairing
open PendingPairing

namespace RelayService
variable {w w' : RelayService}
variable {c n now s sid : Nat} {data : Bytes} {e : RelayEvent} {ids : Nat × Nat} {m : Option MatchedPairing}
  {msg : PairMessage} {out : PairOutcome} {sv' : BlindRelayServer} {task task' : SessionTask}

/-! ## What a session holds -/

def pendingOf (w : RelayService) (s : Nat) : Nat := w.server.pairing.entries.countP (·.2.holds s)

/-- A pairing is active from its match on. -/
def bridgingOf (w : RelayService) (s : Nat) : Nat := w.bridges.entries.countP fun e => e.2.inProgress && e.2.has s

def activeOf (w : RelayService) (s : Nat) : Nat := w.server.activePairings.entries.countP (·.2.has s)

def held (w : RelayService) (s : Nat) : Nat := w.pendingOf s + w.bridgingOf s + w.activeOf s

/-- Every session counts what it holds, and is refused just when that is the limit. -/
structure QuotaExact (w : RelayService) : Prop where
  counted : ∀ s task, w.sessions.lookup s = some task → task.pairingCount = w.held s
  limited : ∀ s task, w.sessions.lookup s = some task → ∀ now isInitiator token streamId,
    (w.server.tryPair now s isInitiator token streamId task.pairingCount).1 = .limitExceeded ↔
      w.held s = w.server.config.maxPairingsPerSession

/-- No session that is there is one of the two. -/
def Apart (w : RelayService) (ids : Nat × Nat) : Prop := ∀ s ∈ w.sessions, ids.1 ≠ s ∧ ids.2 ≠ s

/-- What a session's count misses does not happen: a request is matched only with one of the same session; and no pairing
of a session that is there is torn down by an unpair, expires, fails to be bridged or is replaced. -/
structure Balanced (w : RelayService) (e : RelayEvent) : Prop where
  matched : ∀ now sid data msg task pair l, e = .message now sid MSG_TYPE_PAIR data → decodePairFromSlice data = .ok msg →
    w.running sid = some task → task.pairingCount < w.server.config.maxPairingsPerSession →
    w.server.pairing.lookup msg.token = some pair → pair.slot (!msg.isInitiator) = some l → l.sessionId = sid
  destroyed : ∀ now sid data msg task a, e = .message now sid MSG_TYPE_UNPAIR data → decodeUnpairFromSlice data = .ok msg →
    w.running sid = some task → w.server.pairing.lookup msg.token = none →
    w.server.activePairings.lookup msg.token = some a → w.Apart a.sessionIds
  expired : ∀ now token pair, e = .sweepExpiredPairings now → w.server.pairing.lookup token = some pair →
    w.server.expired now pair = false
  failed : ∀ n transport b, e = .bridged n transport → w.bridges.lookup n = some b → b.phase = .bridging →
    (idsInRange b.pairing = true ∧ transport = .ready) ∨ w.Apart b.sessionIds
  replaced : ∀ n b a, e = .activated n → w.bridges.lookup n = some b → b.phase = .stored →
    w.server.activePairings.lookup b.pairing.token = some a → w.Apart a.sessionIds

/-- What a session holds, in the tables and among the tasks. -/
def heldIn (pairing : AList fun _ : PairingToken => PendingPairing) (bridges : AList fun _ : Nat => Bridge)
    (active : AList fun _ : PairingToken => ActivePairing) (s : Nat) : Nat :=
  pairing.entries.countP (·.2.holds s) + bridges.entries.countP (fun e => e.2.inProgress && e.2.has s) +
    active.entries.countP (·.2.has s)

theorem held_eq (w : RelayService) (s : Nat) :
    w.held s = heldIn w.server.pairing w.bridges w.server.activePairings s := rfl

section
variable (pairing : AList fun _ : PairingToken => PendingPairing) (bridges : AList fun _ : Nat => Bridge)
  (active : AList fun _ : PairingToken => ActivePairing) (s : Nat) {token : PairingToken} {pair : PendingPairing}
  {l : PendingLink} {c : Bool} {n sid : Nat} {b : Bridge} {a : ActivePairing}

theorem heldIn_pending (hnone : pairing.lookup token = none) :
    heldIn (pairing.insert token (empty.put l c)) bridges active s =
      heldIn pairing bridges active s + if l.sessionId = s then 1 else 0 := by
  have hcount := countP_insert_of_notMem (b := empty.put l c) (fun e => e.2.holds s)
    (lookup_eq_none.mp hnone)
  have hholds : (empty.put l c).holds s = decide (l.sessionId = s) :=
    holds_eq (slot_put_self _ l c) (by rw [slot_put_not]; simp) s
  simp only [hholds, decide_eq_true_eq] at hcount
  unfold heldIn
  omega

theorem heldIn_matched {m : MatchedPairing} (hfresh : n ∉ bridges) (hpair : pairing.lookup token = some pair)
    (hl : pair.slot c = some l) (hnone : pair.slot (!c) = none) :
    heldIn (pairing.erase token) (bridges.insert n ⟨m, .bridging⟩) active s + (if l.sessionId = s then 1 else 0) =
      heldIn pairing bridges active s + if m.first.sessionId = s ∨ m.second.sessionId = s then 1 else 0 := by
  have hpending := countP_erase (fun e => e.2.holds s) hpair
  have hbridging := countP_insert_of_notMem (b := (⟨m, .bridging⟩ : Bridge)) (fun e => e.2.inProgress && e.2.has s) hfresh
  have hhas : ((⟨m, .bridging⟩ : Bridge).inProgress && (⟨m, .bridging⟩ : Bridge).has s) =
      decide (m.first.sessionId = s ∨ m.second.sessionId = s) := by
    rw [Bool.decide_or]
    rfl
  simp only [holds_eq hl hnone, decide_eq_true_eq] at hpending
  simp only [hhas, decide_eq_true_eq] at hbridging
  unfold heldIn
  omega

theorem heldIn_cancelled (hsingle : pair.Single) (hpair : pairing.lookup token = some pair)
    (hholds : pair.holds sid = true) :
    heldIn (pairing.erase token) bridges active s + (if sid = s then 1 else 0) = heldIn pairing bridges active s := by
  have hpending := countP_erase (fun e => e.2.holds s) hpair
  have hiff : pair.holds s = true ↔ sid = s := by
    refine ⟨hsingle.holds_unique hholds, ?_⟩
    rintro rfl
    exact hholds
  simp only [hiff] at hpending
  unfold heldIn
  omega

theorem heldIn_destroyed (ha : active.lookup token = some a) :
    heldIn pairing bridges (active.erase token) s + (if a.has s then 1 else 0) = heldIn pairing bridges active s := by
  have hcount := countP_erase (fun e => e.2.has s) ha
  simp only at hcount
  unfold heldIn
  omega

theorem heldIn_erase_bridge (hb : bridges.lookup n = some b) :
    heldIn pairing (bridges.erase n) active s + (if b.inProgress && b.has s then 1 else 0) =
      heldIn pairing bridges active s := by
  have hcount := countP_erase (fun e => e.2.inProgress && e.2.has s) hb
  simp only at hcount
  unfold heldIn
  omega

theorem heldIn_advance (phase : BridgePhase) (hb : bridges.lookup n = some b) (hold : b.phase ≠ .active)
    (hphase : phase ≠ .active) :
    heldIn pairing (bridges.insert n { b with phase := phase }) active s = heldIn pairing bridges active s := by
  have hcount := countP_insert_of_some (c := { b with phase := phase }) (fun e => e.2.inProgress && e.2.has s) hb
  have hbefore : b.inProgress = true := decide_eq_true hold
  have hafter : ({ b with phase := phase } : Bridge).inProgress = true := decide_eq_true hphase
  have hhas : ({ b with phase := phase } : Bridge).has s = b.has s := rfl
  simp only [hbefore, hafter, hhas] at hcount
  unfold heldIn
  omega

theorem heldIn_activated (token : PairingToken) (hb : bridges.lookup n = some b) (hold : b.phase = .stored) :
    heldIn pairing (bridges.insert n { b with phase := .active }) (active.insert token ⟨b.sessionIds, n⟩) s +
      (if (active.lookup token).any (·.has s) then 1 else 0) = heldIn pairing bridges active s := by
  have hcount := countP_insert_of_some (c := { b with phase := .active }) (fun e => e.2.inProgress && e.2.has s) hb
  have hbefore : b.inProgress = true := by rw [Bridge.inProgress, hold]; rfl
  have hafter : ({ b with phase := .active } : Bridge).inProgress = false := rfl
  simp only [hbefore, hafter, Bool.true_and, Bool.false_and, Bool.false_eq_true, if_false] at hcount
  have hhas : (⟨b.sessionIds, n⟩ : ActivePairing).has s = b.has s := rfl
  unfold heldIn
  cases ha : active.lookup token with
  | none =>
    have hentries := countP_insert_of_notMem (b := (⟨b.sessionIds, n⟩ : ActivePairing)) (fun e => e.2.has s)
      (lookup_eq_none.mp ha)
    simp only [hhas] at hentries
    simp only [any_none, Bool.false_eq_true, if_false]
    omega
  | some a =>
    have hentries := countP_insert_of_some (c := (⟨b.sessionIds, n⟩ : ActivePairing)) (fun e => e.2.has s) ha
    simp only [hhas] at hentries
    simp only [any_some]
    omega

end

theorem held_swept (w : RelayService) (now s : Nat) : (w.step (.sweepExpiredPairings now)).held s +
      w.server.pairing.entries.countP (fun e => e.2.holds s && w.server.expired now e.2) = w.held s := by
  have hcount := countP_retainMap (s := w.server.pairing)
    (f := fun _ pair => if w.server.expired now pair then none else some pair) (fun e => e.2.holds s) (by
      intro token pair pair' _ hkeep
      split_ifs at hkeep
      cases hkeep
      rfl)
  have hnone : ∀ pair : PendingPairing,
      (if w.server.expired now pair then none else some pair : Option PendingPairing).isNone = w.server.expired now pair := by
    intro pair
    cases w.server.expired now pair <;> rfl
  simp only [hnone] at hcount
  have hpending : (w.step (.sweepExpiredPairings now)).pendingOf s +
      w.server.pairing.entries.countP (fun e => e.2.holds s && w.server.expired now e.2) = w.pendingOf s := hcount
  have hrest : (w.step (.sweepExpiredPairings now)).held s =
      (w.step (.sweepExpiredPairings now)).pendingOf s + w.bridgingOf s + w.activeOf s := rfl
  rw [hrest, held]
  omega

/-! ## The invariant -/

/-- The ids were handed out, and a session that is there and is one of the two is both of them. -/
structure Private (w : RelayService) (ids : Nat × Nat) : Prop where
  first : ids.1 < w.server.nextSessionId
  second : ids.2 < w.server.nextSessionId
  same : ∀ s ∈ w.sessions, ids.1 = s ∨ ids.2 = s → ids.1 = ids.2

/-- The counts are exact, and all pairings of a session that is there are with itself. -/
structure Owned (w : RelayService) : Prop where
  settled : w.Settled
  fresh : ∀ n b, w.bridges.lookup n = some b → n < w.nextMatch
  bridges : ∀ n b, w.bridges.lookup n = some b → w.Private b.sessionIds
  active : ∀ token a, w.server.activePairings.lookup token = some a → w.Private a.sessionIds
  counted : ∀ s task, w.sessions.lookup s = some task →
    task.pairingCount = w.held s ∧ task.pairingCount ≤ w.server.config.maxPairingsPerSession

theorem limitExceeded_iff (sv : BlindRelayServer) (now s : Nat) (isInitiator : Bool) (token : PairingToken) (streamId : UInt64)
    (count : Nat) :
    (sv.tryPair now s isInitiator token streamId count).1 = .limitExceeded ↔ sv.config.maxPairingsPerSession ≤ count := by
  cases hcall : sv.tryPair now s isInitiator token streamId count with
  | mk out sv' =>
    obtain ⟨hlimit, rfl, -⟩ | ⟨hfree, ⟨-, -, -, -, rfl, -⟩ | ⟨-, -, rfl, -⟩ | ⟨-, -, -, -, -, rfl, -⟩⟩ :=
      tryPair_cases hcall
    · exact iff_of_true rfl hlimit
    · exact iff_of_false nofun (Nat.not_le.mpr hfree)
    · exact iff_of_false nofun (Nat.not_le.mpr hfree)
    · exact iff_of_false nofun (Nat.not_le.mpr hfree)

theorem Owned.exact (h : w.Owned) : w.QuotaExact where
  counted := fun s task htask => (h.counted s task htask).1
  limited := by
    intro s task htask now isInitiator token streamId
    obtain ⟨hcount, hle⟩ := h.counted s task htask
    rw [limitExceeded_iff]
    omega

theorem config_step (w : RelayService) (e : RelayEvent) : (w.step e).server.config = w.server.config := by
  obtain ⟨hstep, -⟩ | ⟨sid, task, -, -, heq⟩ := w.step_slots e
  · cases hstep with
    | kept hslots hkeys => exact hslots.config
    | accepted task hfree hconfig hcount hnext hsessions | released sid task htask hconfig hcount hnext hsessions =>
      exact hconfig
  · rw [heq]

theorem sessions_step (w : RelayService) (e : RelayEvent) : w.server.nextSessionId ≤ (w.step e).server.nextSessionId ∧
    ∀ s < w.server.nextSessionId, s ∈ (w.step e).sessions → s ∈ w.sessions := by
  obtain ⟨hstep, -⟩ | ⟨sid, task, -, -, heq⟩ := w.step_slots e
  · cases hstep with
    | kept hslots hkeys => exact ⟨hslots.nextSessionId.ge, fun s _ hs => (hkeys s).mp hs⟩
    | accepted task hfree hconfig hcount hnext hsessions =>
      refine ⟨hnext ▸ Nat.le_succ _, fun s hlt hs => ?_⟩
      rw [hsessions, mem_insert] at hs
      exact hs.resolve_left (Nat.ne_of_lt hlt)
    | released sid task htask hconfig hcount hnext hsessions =>
      refine ⟨hnext.ge, fun s _ hs => ?_⟩
      rw [hsessions] at hs
      exact mem_erase_of_lookup hs
  · rw [heq]
    exact ⟨le_refl _, fun s _ hs => mem_erase_of_lookup hs⟩

theorem Private.step (h : w.Private ids) (e : RelayEvent) : (w.step e).Private ids := by
  obtain ⟨hnext, hmem⟩ := w.sessions_step e
  refine ⟨h.first.trans_le hnext, h.second.trans_le hnext, fun s hs hids => ?_⟩
  have hlt : s < w.server.nextSessionId := hids.elim (fun heq => heq ▸ h.first) fun heq => heq ▸ h.second
  exact h.same s (hmem s hlt hs) hids

/-! ## Steps of sessions -/

theorem Private.has_fresh (h : w.Private ids) :
    (decide (ids.1 = w.server.nextSessionId) || decide (ids.2 = w.server.nextSessionId)) = false :=
  has_eq_false.mpr ⟨Nat.ne_of_lt h.first, Nat.ne_of_lt h.second⟩

theorem Owned.held_fresh (h : w.Owned) : w.held w.server.nextSessionId = 0 := by
  have hpending : w.pendingOf w.server.nextSessionId = 0 := by
    rw [pendingOf, List.countP_eq_zero]
    rintro ⟨token, pair⟩ hmem hholds
    obtain ⟨b, l, hl, hs⟩ := holds_iff.mp hholds
    have hlive := h.settled.waiting token pair b l (mem_lookup_iff.mpr hmem) hl
    exact Nat.ne_of_lt (h.settled.slots.fresh _ hlive.mem) hs
  have hbridging : w.bridgingOf w.server.nextSessionId = 0 := by
    rw [bridgingOf, List.countP_eq_zero]
    rintro ⟨n, b⟩ hmem hhas
    rw [Bool.and_eq_true] at hhas
    exact Bool.false_ne_true ((h.bridges n b (mem_lookup_iff.mpr hmem)).has_fresh.symm.trans hhas.2)
  have hactive : w.activeOf w.server.nextSessionId = 0 := by
    rw [activeOf, List.countP_eq_zero]
    rintro ⟨token, a⟩ hmem hhas
    exact Bool.false_ne_true ((h.active token a (mem_lookup_iff.mpr hmem)).has_fresh.symm.trans hhas)
  rw [held, hpending, hbridging, hactive]

/-- The sessions that were there stay, with their counts, as far as they do not end. -/
def SessionsKept (w w' : RelayService) : Prop := ∀ s task', w'.sessions.lookup s = some task' →
  (∃ task, w.sessions.lookup s = some task ∧ task'.pairingCount = task.pairingCount) ∨
    s = w.server.nextSessionId ∧ task'.pairingCount = 0

theorem count_of_core (hcore : (w.sessions.lookup s).map SessionTask.core = (w'.sessions.lookup s).map SessionTask.core)
    (h : w.sessions.lookup s = some task) :
    ∃ task', w'.sessions.lookup s = some task' ∧ task'.pairingCount = task.pairingCount := by
  rw [h] at hcore
  obtain ⟨task', htask', heq⟩ := map_eq_some_iff.mp hcore.symm
  exact ⟨task', htask', congrArg Prod.fst heq⟩

theorem Quiet.kept (hq : Quiet w w') : SessionsKept w w' := by
  intro s task' htask'
  obtain ⟨task, htask, heq⟩ := count_of_core (hq.sessions s) htask'
  exact .inl ⟨task, htask, heq.symm⟩

theorem SessionsKept.of_eq (h : w'.sessions = w.sessions) : SessionsKept w w' :=
  fun _ task' htask' => .inl ⟨task', h ▸ htask', rfl⟩

section
variable (h : w.Owned)
include h

section
variable (heq : w.step e = w')
  (hbridges : ∀ n b, w'.bridges.lookup n = some b → n < w'.nextMatch ∧ w.Private b.sessionIds)
  (hactive : ∀ token a, w'.server.activePairings.lookup token = some a → w.Private a.sessionIds)
include heq hbridges hactive

theorem Owned.next (hcounted : ∀ s task, w'.sessions.lookup s = some task →
      task.pairingCount = w'.held s ∧ task.pairingCount ≤ w.server.config.maxPairingsPerSession) :
    (w.step e).Owned := by
  subst heq
  refine ⟨settled_step w e h.settled, fun n b hb => (hbridges n b hb).1, fun n b hb => (hbridges n b hb).2.step e,
    fun token a ha => (hactive token a ha).step e, ?_⟩
  rw [config_step]
  exact hcounted

/-- Tasks and registered pairings may change, with what the sessions hold kept. -/
theorem Owned.tasks (hkept : SessionsKept w w')
    (hheld : ∀ s, s ∈ w.sessions ∨ s = w.server.nextSessionId → w'.held s = w.held s) : (w.step e).Owned := by
  refine h.next heq hbridges hactive fun s task' htask' => ?_
  obtain ⟨task, htask, hsame⟩ | ⟨rfl, hzero⟩ := hkept s task' htask'
  · rw [hheld s (.inl (mem_of_lookup htask)), hsame]
    exact h.counted s task htask
  · rw [hheld _ (.inr rfl), hzero, h.held_fresh]
    exact ⟨rfl, Nat.zero_le _⟩

end

section
variable (heq : w.step e = w') (hkept : SessionsKept w w')
  (hactive : w'.server.activePairings = w.server.activePairings)
include heq hkept hactive

theorem Owned.bridge (hnext : w'.nextMatch = w.nextMatch)
    (hbridges : ∀ n b, w'.bridges.lookup n = some b → ∃ b₀, w.bridges.lookup n = some b₀ ∧ b.pairing = b₀.pairing)
    (hheld : ∀ s, s ∈ w.sessions ∨ s = w.server.nextSessionId → w'.held s = w.held s) : (w.step e).Owned := by
  refine h.tasks heq (fun n b hb => ?_) (by rw [hactive]; exact h.active) hkept hheld
  obtain ⟨b₀, hb₀, hsame⟩ := hbridges n b hb
  rw [hnext, Bridge.sessionIds, hsame]
  exact ⟨h.fresh n b₀ hb₀, h.bridges n b₀ hb₀⟩

theorem Owned.sameTables (hpairing : w'.server.pairing = w.server.pairing) (hbridges : w'.bridges = w.bridges)
    (hnext : w'.nextMatch = w.nextMatch) : (w.step e).Owned := by
  refine h.bridge heq hkept hactive hnext (fun n b hb => ⟨b, hbridges ▸ hb, rfl⟩) fun s _ => ?_
  rw [held_eq, hpairing, hbridges, hactive, ← held_eq]

end

theorem Owned.quiet (hq : Quiet w (w.step e)) : (w.step e).Owned :=
  h.sameTables rfl hq.kept (by rw [hq.server]) (by rw [hq.server]) hq.bridges hq.nextMatch

theorem Owned.unchanged (heq : w.step e = w) : (w.step e).Owned := heq.symm ▸ h

theorem owned_connect (now : Nat) (channel : Bool) : (w.step (.connect now channel)).Owned := by
  cases channel with
  | false => exact h
  | true =>
    obtain heq | ⟨-, heq⟩ := w.newSession_cases now
    · exact h.unchanged heq
    · refine h.sameTables heq (fun s task' htask' => ?_) rfl rfl rfl rfl
      obtain ⟨rfl, rfl⟩ | hold := lookup_insert_some htask'
      · exact .inr ⟨rfl, rfl⟩
      · exact .inl ⟨task', hold, rfl⟩

theorem owned_opened (sid : Nat) (ok : Bool) : (w.step (.opened sid ok)).Owned := by
  obtain ⟨-, heq⟩ | ⟨task, htask, -, ⟨rfl, heq⟩ | ⟨rfl, heq⟩⟩ := w.waitOpened_cases sid ok
  · exact h.unchanged heq
  · refine h.sameTables heq (fun s task' htask' => .inl ?_) rfl rfl rfl rfl
    obtain ⟨rfl, rfl⟩ | hold := lookup_insert_some htask'
    · exact ⟨task, htask, rfl⟩
    · exact ⟨task', hold, rfl⟩
  · exact h.sameTables heq (fun s task' htask' => .inl ⟨task', (lookup_erase_some htask').2, rfl⟩) rfl rfl rfl rfl

theorem Owned.held_endSession (hs : s ∈ w.sessions) (hne : s ≠ sid) : (w.endSession sid).held s = w.held s := by
  have hpending : (w.endSession sid).pendingOf s = w.pendingOf s := by
    refine countP_retainMap_of_kept (fun token pair pair' hp hkeep => ?_) fun token pair hp hholds hdrop => ?_
    · rw [releaseLink_of_single (h.settled.single token pair hp)] at hkeep
      split_ifs at hkeep
      cases hkeep
      rfl
    · rw [releaseLink_of_single (h.settled.single token pair hp)] at hdrop
      split_ifs at hdrop with hsid
      exact hne ((h.settled.single token pair hp).holds_unique hholds hsid)
  have hactive : (w.endSession sid).activeOf s = w.activeOf s := by
    refine countP_retainMap_of_kept (fun token a a' _ hkeep => ?_) fun token a ha hhas hdrop => ?_
    · split_ifs at hkeep
      cases hkeep
      rfl
    · split_ifs at hdrop with hsid
      have hids := (h.active token a ha).same s hs (by simpa [ActivePairing.has] using hhas)
      simp only [ActivePairing.has, Bool.or_eq_true, decide_eq_true_eq] at hhas hsid
      omega
  have hbridging : (w.endSession sid).bridgingOf s = w.bridgingOf s := rfl
  rw [held, held, hpending, hbridging, hactive]

theorem owned_endSession (heq : w.step e = w.endSession sid) : (w.step e).Owned := by
  refine h.next heq (fun n b hb => ⟨h.fresh n b hb, h.bridges n b hb⟩)
    (fun token a ha => h.active token a (lookup_endSession_active.mp ha).1) fun s task' htask' => ?_
  obtain ⟨hne, hold⟩ := lookup_erase_some htask'
  rw [h.held_endSession (mem_of_lookup hold) hne]
  exact h.counted s task' hold

/-! ## Messages -/

theorem Owned.recount (hsessions : w'.sessions = w.sessions.insert sid { task with pairingCount := c })
    (hown : c = w'.held sid ∧ c ≤ w.server.config.maxPairingsPerSession)
    (hother : ∀ s ∈ w.sessions, s ≠ sid → w'.held s = w.held s) (s : Nat) (task' : SessionTask)
    (htask' : w'.sessions.lookup s = some task') :
    task'.pairingCount = w'.held s ∧ task'.pairingCount ≤ w.server.config.maxPairingsPerSession := by
  rw [hsessions] at htask'
  by_cases hs : s = sid
  · subst hs
    rw [lookup_insert] at htask'
    cases htask'
    exact hown
  · rw [lookup_insert_ne hs] at htask'
    rw [hother s (mem_of_lookup htask') hs]
    exact h.counted s task' htask'

/-- What is held after a request: it is refused or waits and is counted, or it is matched and is not. -/
theorem Owned.held_tryPair
    (hcall : w.server.tryPair now sid msg.isInitiator msg.token msg.id task.pairingCount = (out, sv'))
    (heq : w' = startBridge { w with server := sv', sessions := w.sessions.insert sid task' } out.pairing?) :
    ((task.pairingCount < w.server.config.maxPairingsPerSession →
        ∀ pair, w.server.pairing.lookup msg.token = some pair → pair.slot (!msg.isInitiator) = none) ∧
      ∀ s, w'.held s + task.pairingCount =
        w.held s + if sid = s then out.counts task.pairingCount else task.pairingCount) ∨
    ∃ pair l, w.server.pairing.lookup msg.token = some pair ∧ pair.slot (!msg.isInitiator) = some l ∧
      task.pairingCount < w.server.config.maxPairingsPerSession ∧ out.counts task.pairingCount = task.pairingCount ∧
      ∀ s, w'.held s = w.held s + if sid = s ∧ l.sessionId ≠ s then 1 else 0 := by
  subst heq
  obtain ⟨hlimit, rfl, rfl⟩ | ⟨hfree, ⟨p, l, hp, hself, rfl, rfl⟩ | ⟨hself, hother, rfl, rfl⟩ |
      ⟨p, l, hp, hself, hother, rfl, rfl⟩⟩ := tryPair_cases hcall
  · exact .inl ⟨fun hlt => absurd hlimit (Nat.not_le.mpr hlt), fun s => congrArg _ (ite_self _).symm⟩
  · refine .inl ⟨fun _ pair hpair => ?_, fun s => congrArg _ (ite_self _).symm⟩
    cases hp.symm.trans hpair
    exact (h.settled.single _ p hp).slot_not hself
  · have hnone := h.settled.single.lookup_eq_none hself hother
    refine .inl ⟨fun _ pair hpair => (nomatch hnone.symm.trans hpair), fun s => ?_⟩
    rw [hnone, PairOutcome.counts, if_pos rfl]
    have hheld := heldIn_pending _ w.bridges w.server.activePairings s
      (l := ⟨sid, msg.isInitiator, msg.id, now⟩) (c := msg.isInitiator) hnone
    refine (congrArg (· + _) hheld).trans ?_
    rw [held_eq]
    split <;> omega
  · have hnone : p.slot (!(!msg.isInitiator)) = none := by rw [Bool.not_not, hself]
    refine .inr ⟨p, l, hp, hother, hfree, rfl, fun s => ?_⟩
    have hs := heldIn_matched _ _ w.server.activePairings s (m := ⟨msg.token, ⟨l.sessionId, l.isInitiator,
      l.clientStreamId⟩, ⟨sid, msg.isInitiator, msg.id⟩⟩) (nextMatch_notMem h.fresh) hp hother hnone
    refine Nat.add_right_cancel (hs.trans ?_)
    rw [held_eq]
    by_cases hsid : sid = s
    · by_cases hl : l.sessionId = s
      · simp [hl]
      · simp [hl]
    · simp [hsid]

end

theorem lookup_startBridge {b : Bridge} (h : (w.startBridge m).bridges.lookup n = some b) :
    (w.bridges.lookup n = some b ∧ w.nextMatch ≤ (w.startBridge m).nextMatch) ∨
    (m = some b.pairing ∧ n < (w.startBridge m).nextMatch) := by
  cases m with
  | none => exact .inl ⟨h, le_refl _⟩
  | some m =>
    obtain ⟨rfl, rfl⟩ | hold := lookup_insert_some h
    · exact .inr ⟨rfl, Nat.lt_succ_self _⟩
    · exact .inl ⟨hold, Nat.le_succ _⟩

section
variable (h : w.Owned)
include h

/-- A message starts one task at the most, and changes the count of its session only. -/
theorem Owned.message (heq : w.step e = startBridge { w with
      server := sv'
      sessions := w.sessions.insert sid { task with pairingCount := c } } m)
    (hmatch : ∀ b : Bridge, m = some b.pairing → w.Private b.sessionIds)
    (hactive : ∀ token a, sv'.activePairings.lookup token = some a → w.server.activePairings.lookup token = some a)
    (hown : c = (w.step e).held sid ∧ c ≤ w.server.config.maxPairingsPerSession)
    (hother : ∀ s ∈ w.sessions, s ≠ sid → (w.step e).held s = w.held s) : (w.step e).Owned := by
  refine h.next rfl (fun n b hb => ?_) ?_ (h.recount (by rw [heq, (startBridge_frame ..).2.2]) hown hother)
  · rw [heq] at hb ⊢
    obtain ⟨hold, hle⟩ | ⟨hm, hlt⟩ := lookup_startBridge hb
    · exact ⟨(h.fresh n b hold).trans_le hle, h.bridges n b hold⟩
    · exact ⟨hlt, hmatch b hm⟩
  · rw [heq, (startBridge_frame ..).2.1]
    exact fun token a ha => h.active token a (hactive token a ha)

theorem owned_tryPair (hrun : w.running sid = some task)
    (hself : ∀ pair l, task.pairingCount < w.server.config.maxPairingsPerSession →
      w.server.pairing.lookup msg.token = some pair → pair.slot (!msg.isInitiator) = some l → l.sessionId = sid)
    (hcall : w.server.tryPair now sid msg.isInitiator msg.token msg.id task.pairingCount = (out, sv'))
    (heq : w.step e = startBridge { w with
      server := sv'
      sessions := w.sessions.insert sid { task with pairingCount := out.counts task.pairingCount } } out.pairing?) :
    (w.step e).Owned := by
  have hcases := tryPair_cases hcall
  refine h.message heq (fun b hm => ?_) (fun token a ha => ?_) ?_ fun s _ hs => ?_
  · obtain ⟨-, rfl, -⟩ | ⟨hfree, ⟨p, l, -, -, rfl, -⟩ | ⟨-, -, rfl, -⟩ | ⟨p, l, hp, -, hl, rfl, -⟩⟩ := hcases
    · cases hm
    · cases hm
    · cases hm
    · have hids : b.sessionIds = (l.sessionId, sid) := by
        rw [Bridge.sessionIds, ← Option.some.inj hm]
      have hlt := h.settled.slots.fresh sid (Live.mem ⟨task, hrun⟩)
      rw [hids, hself p l hfree hp hl]
      exact ⟨hlt, hlt, fun _ _ _ => rfl⟩
  · obtain ⟨-, -, rfl⟩ | ⟨-, ⟨p, l, -, -, -, rfl⟩ | ⟨-, -, -, rfl⟩ | ⟨p, l, -, -, -, -, rfl⟩⟩ := hcases
    all_goals exact ha
  · obtain ⟨hcount, hle⟩ := h.counted sid task (running_eq_some.mp hrun).1
    obtain ⟨-, hheld⟩ | ⟨p, l, hp, hl, hfree, hsame, hheld⟩ := h.held_tryPair hcall heq
    · have hsid := hheld sid
      rw [if_pos rfl] at hsid
      refine ⟨by omega, ?_⟩
      obtain ⟨-, rfl, -⟩ | ⟨hfree, ⟨p, l, -, -, rfl, -⟩ | ⟨-, -, rfl, -⟩ | ⟨p, l, hp, -, hl, rfl, -⟩⟩ := hcases
      · exact hle
      · exact hle
      · exact hfree
      · exact hle
    · rw [hheld, hsame, if_neg fun hne => hne.2 (hself p l hfree hp hl)]
      exact ⟨hcount, hle⟩
  · obtain ⟨-, hheld⟩ | ⟨p, l, -, -, -, -, hheld⟩ := h.held_tryPair hcall heq
    · have hs' := hheld s
      rw [if_neg (Ne.symm hs)] at hs'
      omega
    · rw [hheld, if_neg fun hne => hs hne.1.symm, Nat.add_zero]

theorem owned_unpair {msg : UnpairMessage} {out : UnpairOutcome} (hrun : w.running sid = some task)
    (hapart : ∀ a, w.server.pairing.lookup msg.token = none → w.server.activePairings.lookup msg.token = some a →
      w.Apart a.sessionIds) (hcall : w.server.unpair now sid msg.token = (out, sv')) (heq : w.step e = { w with
      server := sv'
      sessions := w.sessions.insert sid { task with pairingCount := out.counts task.pairingCount } }) :
    (w.step e).Owned := by
  obtain ⟨hcount, hle⟩ := h.counted sid task (running_eq_some.mp hrun).1
  have hmessage := h.message (m := none) heq nofun
  obtain ⟨p, -, -, rfl, rfl⟩ | ⟨p, hp, hholds, rfl, rfl⟩ | ⟨-, -, rfl, rfl⟩ | ⟨hnone, a, ha, rfl, rfl⟩ :=
    unpair_cases hcall
  · exact hmessage (fun _ _ => id) (by rw [heq]; exact ⟨hcount, hle⟩) fun s _ _ => by rw [heq]; rfl
  · have hclear := ((h.settled.single _ p hp).clear sid).resolve_right fun hno => by cases hno.1.symm.trans hholds
    have hheld (s : Nat) : (w.step e).held s + (if sid = s then 1 else 0) = w.held s := by
      rw [heq, if_pos hclear.2]
      exact heldIn_cancelled _ _ _ _ (h.settled.single _ p hp) hp hholds
    refine hmessage (fun _ _ => id) ?_ fun s _ hs => ?_
    · have hsid := hheld sid
      rw [if_pos rfl] at hsid
      rw [UnpairOutcome.counts, if_pos rfl]
      omega
    · have hs' := hheld s
      rw [if_neg (Ne.symm hs)] at hs'
      omega
  · exact hmessage (fun _ _ => id) (by rw [heq]; exact ⟨hcount, hle⟩) fun s _ _ => by rw [heq]; rfl
  · have hheld : ∀ s ∈ w.sessions, (w.step e).held s = w.held s := by
      intro s hs
      have hs' := heldIn_destroyed w.server.pairing w.bridges _ s ha
      rw [show a.has s = false from has_eq_false.mpr (hapart a hnone ha s hs)] at hs'
      rw [heq]
      exact hs'
    refine hmessage (fun _ _ ha' => (lookup_erase_some ha').2) ?_ fun s hs _ => hheld s hs
    rw [hheld sid (Live.mem ⟨task, hrun⟩)]
    exact ⟨hcount, hle⟩

theorem owned_message {messageType : UInt32}
    (hb : Balanced w (.message now sid messageType data)) : (w.step (.message now sid messageType data)).Owned := by
  obtain hq | ⟨task, hrun, ⟨msg, rfl, hd, out, sv', hcall, heq⟩ | ⟨msg, rfl, hd, out, sv', hcall, heq⟩⟩ :=
    w.handleMessage_cases now sid messageType data
  · exact h.quiet hq
  · exact owned_tryPair h hrun (fun pair l => hb.matched now sid data msg task pair l rfl hd hrun) hcall heq
  · exact owned_unpair h hrun (fun a => hb.destroyed now sid data msg task a rfl hd hrun) hcall heq

/-! ## Steps of bridging tasks -/

theorem owned_bridged {transport : Transport} (hb : Balanced w (.bridged n transport)) :
    (w.step (.bridged n transport)).Owned := by
  obtain ⟨-, heq⟩ | ⟨b, w₁, hlookup, hphase, hq, ⟨-, heq⟩ | ⟨hfails, heq⟩⟩ := w.handleBridged_cases n transport
  · exact h.unchanged heq
  · refine h.bridge heq hq.kept (by rw [hq.server]) hq.nextMatch (fun k c hc => ?_) fun s _ => ?_
    · obtain ⟨d, hd, hpairing, -⟩ := lookup_insert_phase hlookup hc
      exact ⟨d, hd, hpairing⟩
    · rw [hq.server]
      exact heldIn_advance _ _ _ _ .bridged hlookup (by rw [hphase]; decide) (by decide)
  · refine h.bridge heq hq.kept (by rw [hq.server]) hq.nextMatch (fun k c hc => ⟨c, (lookup_erase_some hc).2, rfl⟩)
      fun s hs => ?_
    have hheld := heldIn_erase_bridge w.server.pairing _ w.server.activePairings s hlookup
    have hhas : b.has s = false := by
      rcases hs with hs | rfl
      · exact has_eq_false.mpr ((hb.failed n transport b rfl hlookup hphase).resolve_left hfails s hs)
      · exact (h.bridges n b hlookup).has_fresh
    rw [hhas, Bool.and_false] at hheld
    rw [hq.server]
    exact hheld

theorem owned_stored (n : Nat) : (w.step (.stored n)).Owned := by
  obtain heq | ⟨b, hlookup, hphase, heq⟩ := w.storeStreams_cases n
  · exact h.unchanged heq
  · refine h.bridge heq (.of_eq rfl) rfl rfl (fun k c hc => ?_)
      fun s _ => heldIn_advance _ _ _ _ .stored hlookup (by rw [hphase]; decide) (by decide)
    obtain ⟨d, hd, hpairing, -⟩ := lookup_insert_phase hlookup hc
    exact ⟨d, hd, hpairing⟩

theorem owned_activated (hb : Balanced w (.activated n)) : (w.step (.activated n)).Owned := by
  obtain ⟨-, heq⟩ | ⟨b, hlookup, hphase, heq⟩ := w.activate_cases n
  · exact h.unchanged heq
  · refine h.tasks heq (fun k c hc => ?_) (fun token a ha => ?_) (.of_eq rfl) fun s hs => ?_
    · obtain ⟨d, hd, hsame, -⟩ := lookup_insert_phase hlookup hc
      refine ⟨h.fresh k d hd, ?_⟩
      rw [Bridge.sessionIds, hsame]
      exact h.bridges k d hd
    · obtain ⟨rfl, rfl⟩ | hold := lookup_insert_some ha
      · exact h.bridges n b hlookup
      · exact h.active token a hold
    · have hheld := heldIn_activated w.server.pairing _ w.server.activePairings s b.pairing.token hlookup hphase
      have hnone : (w.server.activePairings.lookup b.pairing.token).any (·.has s) = false := by
        cases ha : w.server.activePairings.lookup b.pairing.token with
        | none => rfl
        | some a =>
          rcases hs with hs | rfl
          · exact has_eq_false.mpr (hb.replaced n b a rfl hlookup hphase ha s hs)
          · exact (h.active _ a ha).has_fresh
      rw [hnone] at hheld
      exact hheld

theorem owned_teardown (n : Nat) : (w.step (.teardown n)).Owned := by
  obtain heq | ⟨b, hlookup, hphase, -, heq⟩ := w.dropStreams_cases n
  · exact h.unchanged heq
  · refine h.bridge heq (.of_eq rfl) rfl rfl (fun k c hc => ⟨c, (lookup_erase_some hc).2, rfl⟩) fun s _ => ?_
    have hheld := heldIn_erase_bridge w.server.pairing _ w.server.activePairings s hlookup
    rw [show b.inProgress = false by rw [Bridge.inProgress, hphase]; rfl] at hheld
    exact hheld

theorem owned_swept (hb : Balanced w (.sweepExpiredPairings now)) : (w.step (.sweepExpiredPairings now)).Owned := by
  refine h.tasks rfl (fun n b hb => ⟨h.fresh n b hb, h.bridges n b hb⟩) h.active (.of_eq rfl) fun s _ => ?_
  have hheld := w.held_swept now s
  have hzero : w.server.pairing.entries.countP (fun e => e.2.holds s && w.server.expired now e.2) = 0 := by
    rw [List.countP_eq_zero]
    rintro ⟨token, pair⟩ hmem hdrop
    rw [Bool.and_eq_true, hb.expired now token pair rfl (mem_lookup_iff.mpr hmem)] at hdrop
    cases hdrop.2
  omega

end

theorem owned_step (w : RelayService) (e : RelayEvent) (h : w.Owned) (hb : Balanced w e) : (w.step e).Owned := by
  cases e with
  | connect now channel => exact owned_connect h now channel
  | opened sid ok => exact owned_opened h sid ok
  | message now sid messageType data => exact owned_message h hb
  | outbound sid sent =>
    obtain hq | ⟨task, -, -, heq⟩ := w.handleOutbound_cases sid sent
    · exact h.quiet hq
    · exact owned_endSession h heq
  | close sid =>
    obtain heq | ⟨task, -, -, heq⟩ := w.close_cases sid
    · exact h.unchanged heq
    · exact owned_endSession h heq
  | bridged n transport => exact owned_bridged h hb
  | stored n => exact owned_stored h n
  | activated n => exact owned_activated h hb
  | teardown n => exact owned_teardown h n
  | sweepExpiredPairings now => exact owned_swept h hb
  | sweepIdleSessions now => exact h.quiet (quiet_sweepIdleSessions w now)

/-! ## Steps that are not balanced -/

theorem Owned.held_of_exact (h : w.Owned) (hexact : w'.QuotaExact) (htask : w.sessions.lookup s = some task)
    (hcount : ∃ task', w'.sessions.lookup s = some task' ∧ task'.pairingCount = task.pairingCount) :
    w'.held s = w.held s := by
  obtain ⟨task', htask', hsame⟩ := hcount
  rw [← hexact.counted s task' htask', hsame, (h.counted s task htask).1]

/-- A pairing ends that no session takes off its count, so none that is there is part of it. -/
theorem Owned.apart (h : w.Owned) (hexact : w'.QuotaExact) (hsame : ∀ s task, w.sessions.lookup s = some task →
      ∃ task', w'.sessions.lookup s = some task' ∧ task'.pairingCount = task.pairingCount)
    (hheld : ∀ s, w'.held s + (if decide (ids.1 = s) || decide (ids.2 = s) then 1 else 0) = w.held s) : w.Apart ids := by
  intro s hs
  obtain ⟨task, htask⟩ := lookup_of_mem hs
  have hkept := h.held_of_exact hexact htask (hsame s task htask)
  have hheld' := hheld s
  rw [← has_eq_false, ← Bool.not_eq_true]
  intro hhas
  rw [if_pos hhas] at hheld'
  omega

theorem lookup_insert_count (hlookup : w.sessions.lookup sid = some task)
    (hsessions : w'.sessions = w.sessions.insert sid { task with pairingCount := c }) (hc : c = task.pairingCount)
    (s : Nat) (t : SessionTask) (ht : w.sessions.lookup s = some t) :
    ∃ task', w'.sessions.lookup s = some task' ∧ task'.pairingCount = t.pairingCount := by
  rw [hsessions]
  by_cases hs : s = sid
  · subst hs
    cases hlookup.symm.trans ht
    exact ⟨_, lookup_insert _, hc⟩
  · exact ⟨t, by rw [lookup_insert_ne hs, ht], rfl⟩

theorem matched_of_exact (h : w.Owned) {pair : PendingPairing} {l : PendingLink}
    (hexact : (w.step (.message now sid MSG_TYPE_PAIR data)).QuotaExact) (hd : decodePairFromSlice data = .ok msg)
    (hrun : w.running sid = some task) (hfree : task.pairingCount < w.server.config.maxPairingsPerSession)
    (hp : w.server.pairing.lookup msg.token = some pair) (hl : pair.slot (!msg.isInitiator) = some l) :
    l.sessionId = sid := by
  cases hcall : w.server.tryPair now sid msg.isInitiator msg.token msg.id task.pairingCount with
  | mk out sv' =>
    have heq : w.step (.message now sid MSG_TYPE_PAIR data) = _ := handleMessage_pair hrun hd hcall
    have hlookup := (running_eq_some.mp hrun).1
    obtain ⟨hno, -⟩ | ⟨p, l', hp', hl', -, hsame, hheld⟩ := h.held_tryPair hcall heq
    · cases (hno hfree pair hp).symm.trans hl
    · cases hp.symm.trans hp'
      cases hl.symm.trans hl'
      have hkept := h.held_of_exact hexact hlookup
        (lookup_insert_count hlookup (by rw [heq, (startBridge_frame ..).2.2]) hsame sid task hlookup)
      by_contra hne
      rw [hheld, if_pos ⟨rfl, hne⟩] at hkept
      omega

theorem balanced_of_exact (w : RelayService) (e : RelayEvent) (h : w.Owned) (hexact : (w.step e).QuotaExact) :
    Balanced w e where
  matched := by
    rintro now sid data msg task pair l rfl hd hrun hfree hp hl
    exact matched_of_exact h hexact hd hrun hfree hp hl
  destroyed := by
    rintro now sid data msg task a rfl hd hrun hnone ha
    have hlookup := (running_eq_some.mp hrun).1
    cases hcall : w.server.unpair now sid msg.token with
    | mk out sv' =>
      have heq : w.step (.message now sid MSG_TYPE_UNPAIR data) = _ := handleMessage_unpair hrun hd hcall
      obtain ⟨p, hp, -⟩ | ⟨p, hp, -⟩ | ⟨-, hno, -⟩ | ⟨-, a', ha', rfl, rfl⟩ := unpair_cases hcall
      · cases hnone.symm.trans hp
      · cases hnone.symm.trans hp
      · cases hno.symm.trans ha
      · refine h.apart hexact (lookup_insert_count (c := task.pairingCount) hlookup (by rw [heq]; rfl) rfl) fun s => ?_
        rw [heq]
        exact heldIn_destroyed _ _ _ _ ha
  expired := by
    rintro now token pair rfl hp
    rw [← Bool.not_eq_true]
    intro hexpired
    obtain ⟨b, l, hl, -⟩ := h.settled.single token pair hp
    obtain ⟨task, hrun⟩ := h.settled.waiting token pair b l hp hl
    have hlookup := (running_eq_some.mp hrun).1
    have hheld := w.held_swept now l.sessionId
    have hpos : 0 < w.server.pairing.entries.countP (fun e => e.2.holds l.sessionId && w.server.expired now e.2) := by
      rw [List.countP_pos_iff]
      refine ⟨⟨token, pair⟩, mem_lookup_iff.mp hp, ?_⟩
      rw [Bool.and_eq_true]
      exact ⟨holds_iff.mpr ⟨b, l, hl, rfl⟩, hexpired⟩
    have hkept := h.held_of_exact hexact hlookup ⟨task, hlookup, rfl⟩
    omega
  failed := by
    rintro n transport b rfl hb hphase
    obtain ⟨hno, -⟩ | ⟨b', w₁, hb', -, hq, ⟨hready, -⟩ | ⟨-, heq⟩⟩ := w.handleBridged_cases n transport
    · exact absurd hphase (hno b hb)
    · cases hb.symm.trans hb'
      exact .inl hready
    · right
      have hprogress : b.inProgress = true := by rw [Bridge.inProgress, hphase]; rfl
      refine h.apart hexact (fun s task htask => ?_) fun s => ?_
      · rw [step, heq]
        exact count_of_core (hq.sessions s).symm htask
      · have hheld := heldIn_erase_bridge w.server.pairing _ w.server.activePairings s hb
        rw [hprogress] at hheld
        rw [step, heq, hq.server]
        exact hheld
  replaced := by
    rintro n b a rfl hb hphase ha
    obtain ⟨hno, -⟩ | ⟨b', hb', -, heq⟩ := w.activate_cases n
    · exact absurd hphase (hno b hb)
    · cases hb.symm.trans hb'
      refine h.apart hexact (fun s task htask => ⟨task, by rw [step, heq]; exact htask, rfl⟩) fun s => ?_
      have hs := heldIn_activated w.server.pairing _ w.server.activePairings s b.pairing.token hb hphase
      rw [ha] at hs
      rw [step, heq]
      exact hs

theorem owned_new (config : BlindRelayServerConfig) : (new config).Owned :=
  ⟨settled_new config, nofun, nofun, nofun, nofun⟩

end RelayService
open RelayService

/-- **Every session counts what it holds, in every state of a run, just when no request is matched with one of another
session and no pairing of a session that is there ends other than by that session's cancelling its request or by its own
end.** -/
theorem quota_exact_iff (config : BlindRelayServerConfig) (es : List RelayEvent) :
    Visits step QuotaExact (.new config) es ↔
      Along step Balanced (.new config) es :=
  visits_iff_along_of (fun _ hw => hw.exact) owned_step balanced_of_exact
    (owned_new config) es

/-- Two sessions are paired: the second holds the pairing and does not count it, so that with a limit of one it is not
refused. -/
theorem matched_not_counted : let w := run step (.new { maxPairingsPerSession := 1 }) twoSessionsPair
    (w.sessions.lookup 2).map (·.pairingCount) = some 0 ∧ w.held 2 = 1 ∧
    (w.server.tryPair 0 2 true zeroToken 7 0).1 = .pending ∧ ¬ w.QuotaExact := by
  intro w
  have hcount : (w.sessions.lookup 2).map (·.pairingCount) = some 0 := by decide +kernel
  have hheld : w.held 2 = 1 := by decide +kernel
  refine ⟨hcount, hheld, by decide +kernel, fun h => ?_⟩
  obtain ⟨task, htask, hzero⟩ := map_eq_some_iff.mp hcount
  have hexact := h.counted 2 task htask
  rw [hzero] at hexact
  cases hexact

end Peeroxide.Dht
