import Peeroxide.Dht.RelayPairings
import Peeroxide.Dht.RelaySlots

/-!
# Active pairings

A pairing is counted as active when it is matched, and registered only when its streams are bridged. What happens between
the two is not undone: a task that fails to bridge leaves the count, a session that ends is registered after its end, and
a token that is matched again takes the place of the pairing that is there.

Main results: `active_consistent`, `active_inconsistent`.
-/

namespace Peeroxide.Dht
open Lib Assoc AList Option BlindRelayServer List PendingPairing

namespace RelayService
variable {w w' : RelayService}
variable {a : ActivePairing} {b c : Bridge} {k n now s sid : Nat} {phase : BridgePhase} {sv' : BlindRelayServer}
  {task : SessionTask} {token : PairingToken}

def Bridging (w : RelayService) : Prop := ∃ n b, w.bridges.lookup n = some b ∧ b.inProgress = true

/-- When no task is bridging, the table of active pairings agrees with the statistic and with the sessions. -/
def ActiveConsistent (w : RelayService) : Prop :=
  ¬ w.Bridging →
    w.server.stats.pairingsActive = w.server.activePairings.entries.length ∧
    ∀ token a, w.server.activePairings.lookup token = some a → a.sessionIds.1 ∈ w.sessions ∧ a.sessionIds.2 ∈ w.sessions

/-- The streams that a step drops are of pairings that were torn down. -/
def DropsOwn (w : RelayService) (e : RelayEvent) : Prop :=
  ∀ n ∈ (w.step e).dropped.drop w.dropped.length, n ∈ w.server.signalled

/-- No task fails to bridge, no session ends while it is being bridged, and no token is matched that has a task. -/
structure Orderly (w : RelayService) (e : RelayEvent) : Prop where
  bridges : ∀ n transport b, e = .bridged n transport → w.bridges.lookup n = some b → b.phase = .bridging →
    idsInRange b.pairing = true ∧ transport = .ready
  stays : ∀ sid n b, w.closes e = some sid → w.bridges.lookup n = some b → b.inProgress = true → b.has sid = false
  unused : ∀ now sid data msg pair l, e = .message now sid MSG_TYPE_PAIR data → decodePairFromSlice data = .ok msg →
    w.server.pairing.lookup msg.token = some pair → pair.slot (!msg.isInitiator) = some l →
    ∀ n b, w.bridges.lookup n = some b → b.pairing.token ≠ msg.token

/-! ## What always holds -/

def Live (w : RelayService) (sid : Nat) : Prop := ∃ task, w.running sid = some task

/-- Ids of sessions are not handed out twice, and a request that waits is alone in its entry and of a session whose loop
runs. -/
structure Settled (w : RelayService) : Prop where
  slots : w.SlotsSound
  single : w.server.AllSingle
  waiting : ∀ token pair b l, w.server.pairing.lookup token = some pair → pair.slot b = some l → w.Live l.sessionId

theorem Live.mem (h : w.Live sid) : sid ∈ w.sessions := by
  obtain ⟨task, htask⟩ := h
  exact mem_of_lookup (running_eq_some.mp htask).1

theorem live_iff_core : w.Live sid ↔ ∃ n, (w.sessions.lookup sid).map SessionTask.core = some (n, true) := by
  constructor
  · rintro ⟨task, htask⟩
    obtain ⟨hlookup, hopened⟩ := running_eq_some.mp htask
    refine ⟨task.pairingCount, ?_⟩
    rw [hlookup, map_some, SessionTask.core, hopened]
  · rintro ⟨n, hn⟩
    obtain ⟨task, hlookup, hcore⟩ := map_eq_some_iff.mp hn
    exact ⟨task, running_eq_some.mpr ⟨hlookup, congrArg Prod.snd hcore⟩⟩

theorem Quiet.live (h : Quiet w w') (hl : w.Live sid) : w'.Live sid := by
  rw [live_iff_core, h.sessions]
  exact live_iff_core.mp hl

theorem live_insert (hsessions : w'.sessions = w.sessions.insert sid task)
    (htask : task.opened = true ∨ ¬ w.Live sid) (h : w.Live s) : w'.Live s := by
  obtain ⟨t, ht⟩ := h
  by_cases hs : s = sid
  · subst hs
    refine ⟨task, running_eq_some.mpr ⟨by rw [hsessions, lookup_insert], htask.resolve_right fun hn => hn ⟨t, ht⟩⟩⟩
  · refine ⟨t, running_eq_some.mpr ⟨?_, (running_eq_some.mp ht).2⟩⟩
    rw [hsessions, lookup_insert_ne hs]
    exact (running_eq_some.mp ht).1

theorem live_count (hrun : w.running sid = some task) (count : Nat) (v : RelayService)
    (hv : v.sessions = w.sessions.insert sid { task with pairingCount := count }) (s : Nat) : w.Live s → v.Live s :=
  live_insert hv (.inl (running_eq_some.mp hrun).2)

theorem Live.ne_unopened (h : w.Live s) (htask : w.sessions.lookup sid = some task)
    (hopened : task.opened = false) : s ≠ sid := by
  rintro rfl
  obtain ⟨t, ht⟩ := h
  obtain ⟨hlookup, hopen⟩ := running_eq_some.mp ht
  cases htask.symm.trans hlookup
  cases hopened.symm.trans hopen

theorem live_erase (hsessions : w'.sessions = w.sessions.erase sid) (hs : s ≠ sid) (h : w.Live s) : w'.Live s := by
  obtain ⟨t, ht⟩ := h
  refine ⟨t, running_eq_some.mpr ⟨?_, (running_eq_some.mp ht).2⟩⟩
  rw [hsessions, lookup_erase_ne hs]
  exact (running_eq_some.mp ht).1

theorem startBridge_frame (w : RelayService) (m : Option MatchedPairing) : (w.startBridge m).dropped = w.dropped ∧
    (w.startBridge m).server = w.server ∧ (w.startBridge m).sessions = w.sessions := by
  cases m <;> exact ⟨rfl, rfl, rfl⟩

section
variable {e : RelayEvent} (h : w.Settled)
include h

/-- The table of waiting requests is that after a call, and no session ends but the one that the call releases. -/
theorem Settled.call (c : RelayCall) (heq : w.step e = w') (hpairing : w'.server.pairing = (w.server.answer c).2.pairing)
    (hasks : ∀ now s b token streamId count, c = .tryPair now s b token streamId count → w.Live s)
    (hlive : ∀ s, w.Live s → c ≠ .releaseSession s → w'.Live s) : (w.step e).Settled := by
  subst heq
  refine ⟨slotsSound_step w e h.slots, ?_, ?_⟩
  · unfold AllSingle
    rw [hpairing]
    exact allSingle_answer h.single c
  · rw [hpairing]
    intro token pair b l hp hl
    obtain ⟨q, hq, hslot, hends⟩ | ⟨count, rfl, -⟩ := answer_link h.single c hp hl
    · refine hlive _ (h.waiting token q b l hq hslot) ?_
      rintro rfl
      exact hends rfl
    · exact hlive _ (hasks _ _ _ _ _ _ rfl) nofun

theorem Settled.same (heq : w.step e = w') (hpairing : w'.server.pairing = w.server.pairing)
    (hlive : ∀ s, w.Live s → w'.Live s) : (w.step e).Settled :=
  h.call (.registerSession 0 0) heq hpairing nofun fun s hs _ => hlive s hs

theorem Settled.quiet (hq : Quiet w (w.step e)) : (w.step e).Settled :=
  h.same rfl (by rw [hq.server]) fun _ => hq.live

theorem Settled.endSession (heq : w.step e = w.endSession sid) : (w.step e).Settled := by
  refine h.call (.releaseSession sid) heq rfl nofun fun s hs hne => live_erase rfl ?_ hs
  rintro rfl
  exact hne rfl

theorem Settled.message {messageType : UInt32} {data : Bytes} :
    (w.step (.message now sid messageType data)).Settled := by
  obtain hq | ⟨task, hrun, ⟨msg, -, -, out, sv', hcall, heq⟩ | ⟨msg, -, -, out, sv', hcall, heq⟩⟩ :=
    w.handleMessage_cases now sid messageType data
  · exact h.quiet hq
  · refine h.call (.tryPair now sid msg.isInitiator msg.token msg.id task.pairingCount) heq ?_ ?_ fun s hs _ => ?_
    · rw [(startBridge_frame ..).2.1, answer, hcall]
    · intro _ s _ _ _ _ hcall
      cases hcall
      exact ⟨task, hrun⟩
    · exact live_count hrun _ _ (startBridge_frame ..).2.2 s hs
  · refine h.call (.unpair now sid msg.token) heq ?_ ?_ fun s hs _ => live_count hrun _ _ rfl s hs
    · rw [answer, hcall]
    · intro _ _ _ _ _ _ hcall
      cases hcall

end

theorem settled_step (w : RelayService) (e : RelayEvent) (h : w.Settled) : (w.step e).Settled := by
  cases e with
  | connect now channel =>
    cases channel with
    | false => exact h
    | true =>
      obtain heq | ⟨-, heq⟩ := w.newSession_cases now
      · exact h.same heq rfl fun _ => id
      · exact h.same heq rfl fun s => live_insert rfl (.inr fun hl => lt_irrefl _ (h.slots.fresh _ hl.mem))
  | opened sid ok =>
    obtain ⟨-, heq⟩ | ⟨task, htask, hopened, ⟨rfl, heq⟩ | ⟨rfl, heq⟩⟩ := w.waitOpened_cases sid ok
    · exact h.same heq rfl fun _ => id
    · exact h.same heq rfl fun s => live_insert rfl (.inl rfl)
    · exact h.same heq rfl fun s hs => live_erase rfl (hs.ne_unopened htask hopened) hs
  | message now sid messageType data => exact h.message
  | outbound sid sent =>
    obtain hq | ⟨task, -, -, heq⟩ := w.handleOutbound_cases sid sent
    · exact h.quiet hq
    · exact h.endSession heq
  | close sid =>
    obtain heq | ⟨task, -, -, heq⟩ := w.close_cases sid
    · exact h.same heq rfl fun _ => id
    · exact h.endSession heq
  | bridged n transport =>
    obtain ⟨-, heq⟩ | ⟨b, w₁, -, -, hq, ⟨-, heq⟩ | ⟨-, heq⟩⟩ := w.handleBridged_cases n transport
    · exact h.same heq rfl fun _ => id
    all_goals exact h.same heq (by rw [hq.server]) fun _ => hq.live
  | stored n =>
    obtain heq | ⟨b, -, -, heq⟩ := w.storeStreams_cases n
    all_goals exact h.same heq rfl fun _ => id
  | activated n =>
    obtain ⟨-, heq⟩ | ⟨b, -, -, heq⟩ := w.activate_cases n
    all_goals exact h.same heq rfl fun _ => id
  | teardown n =>
    obtain heq | ⟨b, -, -, -, heq⟩ := w.dropStreams_cases n
    all_goals exact h.same heq rfl fun _ => id
  | sweepExpiredPairings now => exact h.call (.sweepExpiredPairings now) rfl rfl nofun fun s hs _ => hs
  | sweepIdleSessions now => exact h.quiet (quiet_sweepIdleSessions w now)

theorem settled_new (config : BlindRelayServerConfig) : (new config).Settled := ⟨slotsSound_new config, nofun, nofun⟩

/-! ## The invariant -/

def progress (w : RelayService) : Nat := w.bridges.entries.countP (·.2.inProgress)

/-- The tables of the server, the tasks and the streams agree. -/
structure Tidy (w : RelayService) : Prop where
  fresh : ∀ n b, w.bridges.lookup n = some b → n < w.nextMatch
  tokens : ∀ n n' b b', w.bridges.lookup n = some b → w.bridges.lookup n' = some b' →
    b.pairing.token = b'.pairing.token → n = n'
  bridging : ∀ n b, w.bridges.lookup n = some b → b.inProgress = true → w.Live b.sessionIds.1 ∧ w.Live b.sessionIds.2
  entries : ∀ token a, w.server.activePairings.lookup token = some a → ∃ b, w.bridges.lookup a.teardownTx = some b ∧
    b.phase = .active ∧ b.pairing.token = token
  accepted : ∀ token a, w.server.activePairings.lookup token = some a → w.Live a.sessionIds.1 ∧ w.Live a.sessionIds.2
  active : ∀ n b, w.bridges.lookup n = some b → b.phase = .active →
    w.server.activePairings.lookup b.pairing.token = some ⟨b.sessionIds, n⟩ ∨ n ∈ w.server.signalled
  streams : ∀ token n, w.streams.lookup token = some n → ∃ b, w.bridges.lookup n = some b ∧ b.pairing.token = token ∧
    (b.phase = .stored ∨ b.phase = .active)
  counted : w.server.stats.pairingsActive = w.server.activePairings.entries.length + w.progress

theorem not_bridging_iff : ¬ w.Bridging ↔ w.progress = 0 := by
  rw [progress, countP_eq_zero]
  constructor
  · rintro hnone ⟨n, b⟩ hmem hb
    exact hnone ⟨n, b, mem_lookup_iff.mpr hmem, hb⟩
  · rintro hall ⟨n, b, hb, hp⟩
    exact hall ⟨n, b⟩ (mem_lookup_iff.mp hb) hp

theorem Tidy.consistent (h : w.Tidy) : w.ActiveConsistent := by
  intro hnone
  refine ⟨?_, fun token a ha => ?_⟩
  · rw [h.counted, not_bridging_iff.mp hnone, Nat.cast_zero, add_zero]
  · obtain ⟨h₁, h₂⟩ := h.accepted token a ha
    exact ⟨h₁.mem, h₂.mem⟩

/-! ## Steps of sessions -/

/-- What the invariant says of the service, apart from its sessions and the waiting requests, depends on these. -/
def tables (w : RelayService) :=
  (w.bridges, w.nextMatch, w.streams, w.server.activePairings, w.server.signalled, w.server.stats.pairingsActive)

/-- Requests may come and go, and sessions start, open or end. -/
theorem Tidy.same (h : w.Tidy) (htables : w'.tables = w.tables) (hlive : ∀ s, w.Live s → w'.Live s) : w'.Tidy := by
  simp only [tables, Prod.mk.injEq] at htables
  obtain ⟨hbridges, hnext, hstreams, hactive, hsignalled, hstats⟩ := htables
  refine ⟨?_, ?_, ?_, ?_, ?_, ?_, ?_, ?_⟩
  · rw [hbridges, hnext]
    exact h.fresh
  · rw [hbridges]
    exact h.tokens
  · rw [hbridges]
    exact fun n b hb hp => (h.bridging n b hb hp).imp (hlive _) (hlive _)
  · rw [hbridges, hactive]
    exact h.entries
  · rw [hactive]
    exact fun token a ha => (h.accepted token a ha).imp (hlive _) (hlive _)
  · rw [hbridges, hactive, hsignalled]
    exact h.active
  · rw [hbridges, hstreams]
    exact h.streams
  · rw [progress, hbridges, hactive, hstats]
    exact h.counted

theorem Tidy.quiet (h : w.Tidy) (hquiet : Quiet w w') : w'.Tidy := by
  refine h.same ?_ fun s => hquiet.live
  rw [tables, hquiet.bridges, hquiet.nextMatch, hquiet.streams, hquiet.server, tables]

theorem nextMatch_notMem (h : ∀ n b, w.bridges.lookup n = some b → n < w.nextMatch) : w.nextMatch ∉ w.bridges := by
  intro hmem
  obtain ⟨b, hb⟩ := lookup_of_mem hmem
  exact lt_irrefl _ (h _ b hb)

section
variable (h : w.Tidy)
include h

/-- A token has streams or an entry only by its own task, which has stored them. -/
theorem Tidy.unstored (hb : w.bridges.lookup n = some b) :
    (b.phase = .bridged → w.streams.lookup b.pairing.token = none) ∧
    (b.phase = .stored → w.server.activePairings.lookup b.pairing.token = none) := by
  refine ⟨fun hphase => eq_none_iff_forall_ne_some.mpr fun k hk => ?_,
    fun hphase => eq_none_iff_forall_ne_some.mpr fun a ha => ?_⟩
  · obtain ⟨d, hd, htoken, hd'⟩ := h.streams _ k hk
    rw [h.tokens k n d b hd hb htoken, hb] at hd
    cases hd
    rcases hd' with heq | heq <;> cases hphase.symm.trans heq
  · obtain ⟨d, hd, hactive, htoken⟩ := h.entries _ a ha
    rw [h.tokens _ _ d b hd hb htoken, hb] at hd
    cases hd
    cases hactive.symm.trans hphase

theorem Tidy.lookup_bridges (hb : w.bridges.lookup n = some b) :
    (w.bridges.insert w.nextMatch c).lookup n = some b := by
  have hne : n ≠ w.nextMatch := Nat.ne_of_lt (h.fresh n b hb)
  rw [lookup_insert_ne hne, hb]

theorem Tidy.matched {m : MatchedPairing} (hfirst : w.Live m.first.sessionId)
    (hsecond : w.Live m.second.sessionId) (hunused : ∀ n b, w.bridges.lookup n = some b → b.pairing.token ≠ m.token) :
    Tidy { w with
      bridges := w.bridges.insert w.nextMatch ⟨m, .bridging⟩
      nextMatch := w.nextMatch + 1
      server.stats.pairingsActive := w.server.stats.pairingsActive + 1 } where
  fresh := by
    intro n b hb
    obtain ⟨rfl, -⟩ | hold := lookup_insert_some hb
    · exact Nat.lt_succ_self _
    · exact Nat.lt_succ_of_lt (h.fresh n b hold)
  tokens := by
    intro n n' b b' hb hb' htoken
    obtain ⟨rfl, rfl⟩ | hold := lookup_insert_some hb
    · obtain ⟨rfl, -⟩ | hold' := lookup_insert_some hb'
      · rfl
      · exact absurd htoken.symm (hunused n' b' hold')
    · obtain ⟨rfl, rfl⟩ | hold' := lookup_insert_some hb'
      · exact absurd htoken (hunused n b hold)
      · exact h.tokens n n' b b' hold hold' htoken
  bridging := by
    intro n b hb hp
    obtain ⟨-, rfl⟩ | hold := lookup_insert_some hb
    · exact ⟨hfirst, hsecond⟩
    · exact h.bridging n b hold hp
  entries := by
    intro token a ha
    obtain ⟨b, hb, hphase, htoken⟩ := h.entries token a ha
    exact ⟨b, h.lookup_bridges hb, hphase, htoken⟩
  accepted := h.accepted
  active := by
    intro n b hb hphase
    obtain ⟨-, rfl⟩ | hold := lookup_insert_some hb
    · cases hphase
    · exact h.active n b hold hphase
  streams := by
    intro token n hn
    obtain ⟨b, hb, htoken, hphase⟩ := h.streams token n hn
    exact ⟨b, h.lookup_bridges hb, htoken, hphase⟩
  counted := by
    rw [progress, countP_insert_of_notMem _ (nextMatch_notMem h.fresh), h.counted]
    rfl

theorem tidy_tryPair {msg : PairMessage} {out : PairOutcome} (hsettled : w.Settled) (hrun : w.running sid = some task)
    (hunused : ∀ pair l, w.server.pairing.lookup msg.token = some pair → pair.slot (!msg.isInitiator) = some l →
      ∀ n b, w.bridges.lookup n = some b → b.pairing.token ≠ msg.token)
    (hcall : w.server.tryPair now sid msg.isInitiator msg.token msg.id task.pairingCount = (out, sv')) (count : Nat) :
    (startBridge { w with
      server := sv'
      sessions := w.sessions.insert sid { task with pairingCount := count } } out.pairing?).Tidy := by
  have hlive := live_count hrun count
  obtain ⟨-, rfl, rfl⟩ | ⟨-, ⟨p, l, -, -, rfl, rfl⟩ | ⟨-, -, rfl, rfl⟩ | ⟨p, other, hp, -, hother, rfl, rfl⟩⟩ :=
    tryPair_cases hcall
  · exact h.same rfl (hlive _ rfl)
  · exact h.same rfl (hlive _ rfl)
  · exact h.same rfl (hlive _ rfl)
  · have hmatched := h.matched (m := ⟨_, ⟨_, other.isInitiator, other.clientStreamId⟩, ⟨_, msg.isInitiator, msg.id⟩⟩)
      (hsettled.waiting _ p _ other hp hother) ⟨task, hrun⟩ (hunused p other hp hother)
    exact hmatched.same rfl (hlive _ rfl)

theorem Tidy.destroyed (ha : w.server.activePairings.lookup token = some a) : Tidy { w with
      server.activePairings := w.server.activePairings.erase token
      server.signalled := w.server.signalled ++ [a.teardownTx]
      server.stats.pairingsActive := w.server.stats.pairingsActive - 1 } where
  fresh := h.fresh
  tokens := h.tokens
  bridging := h.bridging
  entries := fun t a' ha' => h.entries t a' (lookup_erase_some ha').2
  accepted := fun t a' ha' => h.accepted t a' (lookup_erase_some ha').2
  active := by
    intro n b hb hphase
    rcases h.active n b hb hphase with hentry | hmem
    · by_cases htoken : b.pairing.token = token
      · rw [htoken, ha] at hentry
        cases hentry
        exact .inr (mem_append_right _ (mem_singleton_self _))
      · rw [lookup_erase_ne htoken]
        exact .inl hentry
    · exact .inr (mem_append_left _ hmem)
  streams := h.streams
  counted := by
    have hlen := Assoc.length_erase ha
    have hcounted := h.counted
    rw [progress] at hcounted ⊢
    dsimp only
    omega

theorem tidy_unpair {out : UnpairOutcome} (hrun : w.running sid = some task)
    (hcall : w.server.unpair now sid token = (out, sv')) (count : Nat) :
    Tidy { w with server := sv', sessions := w.sessions.insert sid { task with pairingCount := count } } := by
  have hlive := live_count hrun count
  obtain ⟨p, -, -, -, rfl⟩ | ⟨p, -, -, -, rfl⟩ | ⟨-, -, -, rfl⟩ | ⟨-, a, ha, -, rfl⟩ := unpair_cases hcall
  · exact h.same rfl (hlive _ rfl)
  · exact h.same rfl (hlive _ rfl)
  · exact h.same rfl (hlive _ rfl)
  · exact (h.destroyed ha).same rfl (hlive _ rfl)

end

theorem has_eq_false {ids : Nat × Nat} :
    (decide (ids.1 = sid) || decide (ids.2 = sid)) = false ↔ ids.1 ≠ sid ∧ ids.2 ≠ sid := by
  rw [Bool.or_eq_false_iff, decide_eq_false_iff_not, decide_eq_false_iff_not]

theorem lookup_endSession_active : (w.endSession sid).server.activePairings.lookup token = some a ↔
      w.server.activePairings.lookup token = some a ∧ a.has sid = false := by
  have hlookup : (w.endSession sid).server.activePairings.lookup token =
      (w.server.activePairings.lookup token).bind fun pair => if pair.has sid then none else some pair :=
    lookup_retainMap token
  rw [hlookup, bind_eq_some_iff]
  constructor
  · rintro ⟨a', ha', hkeep⟩
    split_ifs at hkeep with hhas
    cases hkeep
    exact ⟨ha', Bool.eq_false_iff.mpr hhas⟩
  · rintro ⟨ha, hhas⟩
    exact ⟨a, ha, by rw [hhas]; rfl⟩

/-- The statistic goes down by as many as are dropped. -/
theorem length_endSession_active (w : RelayService) (sid : Nat) :
    ((w.endSession sid).server.activePairings.entries.length : Int) - (w.endSession sid).server.stats.pairingsActive =
      w.server.activePairings.entries.length - w.server.stats.pairingsActive := by
  have hlen := length_retainMap (s := w.server.activePairings)
    (f := fun _ (pair : ActivePairing) => if pair.has sid then none else some pair)
  have hcount : w.server.activePairings.entries.countP
      (fun e => (if e.2.has sid then none else some e.2 : Option ActivePairing).isNone) =
      (w.server.activePairings.entries.filter fun e => e.2.has sid).length := by
    rw [countP_eq_length_filter]
    congr 2
    funext e
    cases e.2.has sid <;> rfl
  show ((Assoc.retainMap (fun _ (pair : ActivePairing) => if pair.has sid then none else some pair)
      w.server.activePairings).entries.length : Int) -
    (w.server.stats.pairingsActive - ((w.server.activePairings.entries.filter fun e => e.2.has sid).length : Int)) = _
  omega

theorem Tidy.endSession (h : w.Tidy)
    (hstays : ∀ n b, w.bridges.lookup n = some b → b.inProgress = true → b.has sid = false) :
    (w.endSession sid).Tidy where
  fresh := h.fresh
  tokens := h.tokens
  bridging := by
    intro n b hb hp
    obtain ⟨hfst, hsnd⟩ := has_eq_false.mp (hstays n b hb hp)
    exact (h.bridging n b hb hp).imp (live_erase rfl hfst) (live_erase rfl hsnd)
  entries := fun token a ha => h.entries token a (lookup_endSession_active.mp ha).1
  accepted := by
    intro token a ha
    obtain ⟨hold, hhas⟩ := lookup_endSession_active.mp ha
    obtain ⟨hfst, hsnd⟩ := has_eq_false.mp hhas
    exact (h.accepted token a hold).imp (live_erase rfl hfst) (live_erase rfl hsnd)
  active := by
    intro n b hb hphase
    rcases h.active n b hb hphase with hentry | hmem
    · cases hhas : (⟨b.sessionIds, n⟩ : ActivePairing).has sid with
      | false => exact .inl (lookup_endSession_active.mpr ⟨hentry, hhas⟩)
      | true =>
        refine .inr (mem_append_right _ (List.mem_map.mpr ⟨⟨b.pairing.token, ⟨b.sessionIds, n⟩⟩, ?_, rfl⟩))
        exact mem_filter.mpr ⟨mem_lookup_iff.mp hentry, hhas⟩
    · exact .inr (mem_append_left _ hmem)
  streams := h.streams
  counted := by
    have hsame := length_endSession_active w sid
    have hcounted := h.counted
    have hprogress : (w.endSession sid).progress = w.progress := rfl
    omega

/-! ## Steps of bridging tasks -/

theorem inProgress_of_early (h : b.phase = .bridging ∨ b.phase = .bridged) : b.inProgress = true := by
  rw [Bridge.inProgress]
  rcases h with heq | heq <;> rw [heq] <;> rfl

section
variable (hb : w.bridges.lookup n = some b)
include hb

theorem lookup_insert_phase (hc : (w.bridges.insert n { b with phase := phase }).lookup k = some c) :
    ∃ d, w.bridges.lookup k = some d ∧ c.pairing = d.pairing ∧ (k ≠ n ∧ c = d ∨ k = n ∧ c.phase = phase ∧ d = b) := by
  by_cases hk : k = n
  · subst hk
    rw [lookup_insert] at hc
    cases hc
    exact ⟨b, hb, rfl, .inr ⟨rfl, rfl, rfl⟩⟩
  · rw [lookup_insert_ne hk] at hc
    exact ⟨c, hc, rfl, .inl ⟨hk, rfl⟩⟩

theorem lookup_insert_phase_ne {d : Bridge} (hd : w.bridges.lookup k = some d) (hphase : d.phase ≠ b.phase) :
    (w.bridges.insert n c).lookup k = some d := by
  have hne : k ≠ n := by
    rintro rfl
    cases hb.symm.trans hd
    exact hphase rfl
  rw [lookup_insert_ne hne, hd]

variable (h : w.Tidy)
include h

/-- The part of the invariant that names tasks by their pairings only. -/
theorem Tidy.phase_tokens :
    (∀ k c, (w.bridges.insert n { b with phase := phase }).lookup k = some c → k < w.nextMatch) ∧
    ∀ k k' c c', (w.bridges.insert n { b with phase := phase }).lookup k = some c →
      (w.bridges.insert n { b with phase := phase }).lookup k' = some c' → c.pairing.token = c'.pairing.token → k = k' := by
  refine ⟨fun k c hc => ?_, fun k k' c c' hc hc' htoken => ?_⟩
  · obtain ⟨d, hd, -⟩ := lookup_insert_phase hb hc
    exact h.fresh k d hd
  · obtain ⟨d, hd, hpairing, -⟩ := lookup_insert_phase hb hc
    obtain ⟨d', hd', hpairing', -⟩ := lookup_insert_phase hb hc'
    rw [hpairing, hpairing'] at htoken
    exact h.tokens k k' d d' hd hd' htoken

/-- A task whose streams are not in the map yet goes on, and maybe puts them there. -/
theorem Tidy.advance (phase : BridgePhase) (hold : b.phase = .bridging ∨ b.phase = .bridged) (hphase : phase ≠ .active)
    {streams : AList fun _ : PairingToken => Nat} (hstreams : ∀ token k, streams.lookup token = some k →
      w.streams.lookup token = some k ∨ token = b.pairing.token ∧ k = n ∧ phase = .stored) :
    Tidy { w with bridges := w.bridges.insert n { b with phase := phase }, streams := streams } where
  fresh := (h.phase_tokens hb).1
  tokens := (h.phase_tokens hb).2
  bridging := by
    intro k c hc hp
    obtain ⟨d, hd, hpairing, hcase⟩ := lookup_insert_phase hb hc
    have hprogress : d.inProgress = true := by
      rcases hcase with ⟨-, rfl⟩ | ⟨-, -, rfl⟩
      · exact hp
      · exact inProgress_of_early hold
    rw [Bridge.sessionIds, hpairing]
    exact h.bridging k d hd hprogress
  entries := by
    intro token a ha
    obtain ⟨d, hd, hactive, htoken⟩ := h.entries token a ha
    refine ⟨d, lookup_insert_phase_ne hb hd ?_, hactive, htoken⟩
    rcases hold with heq | heq <;> rw [hactive, heq] <;> exact nofun
  accepted := h.accepted
  active := by
    intro k c hc hactive
    obtain ⟨d, hd, -, ⟨-, rfl⟩ | ⟨-, hc', -⟩⟩ := lookup_insert_phase hb hc
    · exact h.active k c hd hactive
    · exact absurd (hc'.symm.trans hactive) hphase
  streams := by
    intro token k hk
    rcases hstreams token k hk with hsame | ⟨rfl, rfl, hstored⟩
    · obtain ⟨d, hd, htoken, hd'⟩ := h.streams token k hsame
      refine ⟨d, lookup_insert_phase_ne hb hd ?_, htoken, hd'⟩
      rcases hold with heq | heq <;> rcases hd' with heq' | heq' <;> rw [heq', heq] <;> exact nofun
    · exact ⟨_, lookup_insert _, rfl, .inl hstored⟩
  counted := by
    have hcount := countP_insert_of_some (fun e => e.2.inProgress) (c := { b with phase := phase }) hb
    have hbefore := inProgress_of_early hold
    have hafter : ({ b with phase := phase } : Bridge).inProgress = true := decide_eq_true hphase
    have hcounted := h.counted
    simp only [hbefore, hafter] at hcount
    rw [progress] at hcounted ⊢
    dsimp only
    omega

theorem Tidy.activated (hphase : b.phase = .stored) : Tidy { w with
      server := w.server.markActive b.pairing.token b.sessionIds n
      bridges := w.bridges.insert n { b with phase := .active } } := by
  have hnone := (h.unstored hb).2 hphase
  have hprogress : b.inProgress = true := by rw [Bridge.inProgress, hphase]; rfl
  exact {
    fresh := (h.phase_tokens hb).1
    tokens := (h.phase_tokens hb).2
    bridging := by
      intro k c hc hp
      obtain ⟨d, hd, -, ⟨-, rfl⟩ | ⟨-, hc', -⟩⟩ := lookup_insert_phase hb hc
      · exact h.bridging k c hd hp
      · rw [Bridge.inProgress, hc'] at hp
        cases hp
    entries := by
      intro token a ha
      obtain ⟨rfl, rfl⟩ | hold := lookup_insert_some ha
      · exact ⟨_, lookup_insert _, rfl, rfl⟩
      · obtain ⟨d, hd, hactive, htoken⟩ := h.entries token a hold
        exact ⟨d, lookup_insert_phase_ne hb hd (by rw [hactive, hphase]; exact nofun), hactive, htoken⟩
    accepted := by
      intro token a ha
      obtain ⟨-, rfl⟩ | hold := lookup_insert_some ha
      · exact h.bridging n b hb hprogress
      · exact h.accepted token a hold
    active := by
      intro k c hc hactive
      obtain ⟨d, hd, hpairing, ⟨hk, rfl⟩ | ⟨hk, -, hdb⟩⟩ := lookup_insert_phase hb hc
      · refine (h.active k c hd hactive).imp_left fun hentry => ?_
        have htoken : c.pairing.token ≠ b.pairing.token := fun heq => hk (h.tokens k n c b hd hb heq)
        show (w.server.activePairings.insert _ _).lookup _ = _
        rw [lookup_insert_ne htoken, hentry]
      · left
        show (w.server.activePairings.insert b.pairing.token ⟨b.sessionIds, n⟩).lookup c.pairing.token =
          some ⟨c.sessionIds, k⟩
        rw [Bridge.sessionIds, Bridge.sessionIds, hpairing, hdb, hk, lookup_insert]
    streams := by
      intro token k hk
      obtain ⟨d, hd, htoken, hd'⟩ := h.streams token k hk
      by_cases hkn : k = n
      · subst hkn
        cases hb.symm.trans hd
        exact ⟨_, lookup_insert _, htoken, .inr rfl⟩
      · exact ⟨d, by rw [lookup_insert_ne hkn, hd], htoken, hd'⟩
    counted := by
      have hcount := countP_insert_of_some (fun e => e.2.inProgress) (c := { b with phase := .active }) hb
      have hafter : ({ b with phase := .active } : Bridge).inProgress = false := rfl
      simp only [hprogress, hafter, if_true, Bool.false_eq_true, if_false] at hcount
      let active := w.server.activePairings.insert b.pairing.token ⟨b.sessionIds, n⟩
      have hlen : active.entries.length = w.server.activePairings.entries.length + 1 := by
        rw [entries_insert_of_notMem (lookup_eq_none.mp hnone), length_cons]
      have hcounted := h.counted
      rw [progress] at hcounted
      show w.server.stats.pairingsActive = (active.entries.length : Int) +
        ((w.bridges.insert n { b with phase := .active }).entries.countP (fun e => e.2.inProgress) : Nat)
      omega }

theorem Tidy.dropStreams (hphase : b.phase = .active)
    (hgone : ∀ token a, w.server.activePairings.lookup token = some a → a.teardownTx ≠ n) (dropped : List Nat) :
    Tidy { w with bridges := w.bridges.erase n, streams := w.streams.erase b.pairing.token, dropped := dropped } where
  fresh := fun k c hc => h.fresh k c (lookup_erase_some hc).2
  tokens := fun k k' c c' hc hc' => h.tokens k k' c c' (lookup_erase_some hc).2 (lookup_erase_some hc').2
  bridging := fun k c hc => h.bridging k c (lookup_erase_some hc).2
  entries := by
    intro token a ha
    obtain ⟨d, hd, hactive, htoken⟩ := h.entries token a ha
    exact ⟨d, by rw [lookup_erase_ne (hgone token a ha), hd], hactive, htoken⟩
  accepted := h.accepted
  active := fun k c hc => h.active k c (lookup_erase_some hc).2
  streams := by
    intro token k hk
    obtain ⟨hne, hold⟩ := lookup_erase_some hk
    obtain ⟨d, hd, htoken, hd'⟩ := h.streams token k hold
    have hkn : k ≠ n := by
      rintro rfl
      cases hb.symm.trans hd
      exact hne htoken.symm
    exact ⟨d, by rw [lookup_erase_ne hkn, hd], htoken, hd'⟩
  counted := by
    have hcount := Assoc.countP_erase (fun e => e.2.inProgress) hb
    have hdone : b.inProgress = false := by rw [Bridge.inProgress, hphase]; rfl
    simp only [hdone] at hcount
    have hcounted := h.counted
    rw [progress, hcount] at hcounted
    exact hcounted

end

/-! ## Runs -/

theorem tidy_message (h : w.Tidy) (hsettled : w.Settled) {messageType : UInt32} {data : Bytes}
    (ho : Orderly w (.message now sid messageType data)) : (w.handleMessage now sid messageType data).Tidy := by
  obtain hq | ⟨task, hrun, ⟨msg, rfl, hd, out, sv', hcall, heq⟩ | ⟨msg, -, -, out, sv', hcall, heq⟩⟩ :=
    w.handleMessage_cases now sid messageType data
  · exact h.quiet hq
  · rw [heq]
    exact tidy_tryPair h hsettled hrun (fun pair l hp hl => ho.unused now sid data msg pair l rfl hd hp hl) hcall _
  · rw [heq]
    exact tidy_unpair h hrun hcall _

theorem dropsOwn_of_eq {e : RelayEvent} (h : (w.step e).dropped = w.dropped) : DropsOwn w e := by
  intro n hn
  rw [h, drop_length] at hn
  cases hn

theorem dropped_message (w : RelayService) (now sid : Nat) (messageType : UInt32) (data : Bytes) :
    (w.handleMessage now sid messageType data).dropped = w.dropped := by
  obtain hq | ⟨task, -, ⟨msg, -, -, out, sv', -, heq⟩ | ⟨msg, -, -, out, sv', -, heq⟩⟩ :=
    w.handleMessage_cases now sid messageType data
  · exact hq.dropped
  · rw [heq, (startBridge_frame ..).1]
  · rw [heq]

/-- **An orderly step keeps the tables in agreement, and drops only streams of pairings that were torn down.** -/
theorem tidy_step (w : RelayService) (e : RelayEvent) (hw : w.Tidy ∧ w.Settled) (ho : Orderly w e) :
    (w.step e).Tidy ∧ DropsOwn w e := by
  obtain ⟨h, hsettled⟩ := hw
  have hgo : ∀ {v}, w.step e = v → v.Tidy → v.dropped = w.dropped → (w.step e).Tidy ∧ DropsOwn w e :=
    fun heq hv hdropped => ⟨heq.symm ▸ hv, dropsOwn_of_eq (heq.symm ▸ hdropped)⟩
  cases e with
  | connect now channel =>
    cases channel with
    | false => exact hgo rfl h rfl
    | true =>
      obtain heq | ⟨-, heq⟩ := w.newSession_cases now
      · exact hgo heq h rfl
      · refine hgo heq (h.same rfl fun s => live_insert rfl (.inr fun hl => ?_)) rfl
        exact lt_irrefl _ (hsettled.slots.fresh _ hl.mem)
  | opened sid ok =>
    obtain ⟨-, heq⟩ | ⟨task, htask, hopened, ⟨rfl, heq⟩ | ⟨rfl, heq⟩⟩ := w.waitOpened_cases sid ok
    · exact hgo heq h rfl
    · exact hgo heq (h.same rfl fun s => live_insert rfl (.inl rfl)) rfl
    · exact hgo heq (h.same rfl fun s hs => live_erase rfl (hs.ne_unopened htask hopened) hs) rfl
  | message now sid messageType data => exact hgo rfl (tidy_message h hsettled ho) (dropped_message w now sid messageType data)
  | outbound sid sent =>
    obtain hq | ⟨task, hrun, hcloses, heq⟩ := w.handleOutbound_cases sid sent
    · exact hgo rfl (h.quiet hq) hq.dropped
    · exact hgo heq (h.endSession fun n b hb hp => ho.stays sid n b hcloses hb hp) rfl
  | close sid =>
    obtain heq | ⟨task, hrun, hcloses, heq⟩ := w.close_cases sid
    · exact hgo heq h rfl
    · exact hgo heq (h.endSession fun n b hb hp => ho.stays sid n b hcloses hb hp) rfl
  | bridged n transport =>
    obtain ⟨-, heq⟩ | ⟨b, w₁, hb, hphase, hq, ⟨-, heq⟩ | ⟨hfails, -⟩⟩ := w.handleBridged_cases n transport
    · exact hgo heq h rfl
    · refine hgo heq ((h.advance hb .bridged (.inl hphase) (by decide) fun token k => .inl).quiet ?_) hq.dropped
      exact { hq with bridges := rfl }
    · exact absurd (ho.bridges n transport b rfl hb hphase) hfails
  | stored n =>
    obtain heq | ⟨b, hb, hphase, heq⟩ := w.storeStreams_cases n
    · exact hgo heq h rfl
    · rw [(h.unstored hb).1 hphase] at heq
      refine hgo heq ((h.advance hb .stored (.inr hphase) (by decide) fun token k hk => ?_).same rfl fun s => id)
        (append_nil _)
      obtain ⟨rfl, rfl⟩ | hold := lookup_insert_some hk
      · exact .inr ⟨rfl, rfl, rfl⟩
      · exact .inl hold
  | activated n =>
    obtain ⟨-, heq⟩ | ⟨b, hb, hphase, heq⟩ := w.activate_cases n
    · exact hgo heq h rfl
    · exact hgo heq (h.activated hb hphase) rfl
  | teardown n =>
    obtain heq | ⟨b, hb, hphase, hgone, heq⟩ := w.dropStreams_cases n
    · exact hgo heq h rfl
    · constructor
      · rw [step, heq]
        exact h.dropStreams hb hphase hgone _
      · have hsignalled : n ∈ w.server.signalled :=
          (h.active n b hb hphase).resolve_left fun hentry => hgone _ _ hentry rfl
        intro k hk
        rw [step, heq, drop_left, mem_toList] at hk
        obtain ⟨d, hd, htoken, -⟩ := h.streams _ k hk
        rw [h.tokens k n d b hd hb htoken]
        exact hsignalled
  | sweepExpiredPairings now => exact hgo rfl (h.same rfl fun s => id) rfl
  | sweepIdleSessions now =>
    have hq := quiet_sweepIdleSessions w now
    exact hgo rfl (h.quiet hq) hq.dropped

theorem tidy_new (config : BlindRelayServerConfig) : (new config).Tidy :=
  ⟨nofun, nofun, nofun, nofun, nofun, nofun, nofun, rfl⟩

theorem orderly_of_no_bridges (h : w.bridges.entries = []) (e : RelayEvent) : Orderly w e := by
  have hnone : ∀ n b, w.bridges.lookup n ≠ some b := by
    intro n b hb
    have hmem := mem_lookup_iff.mp hb
    rw [h] at hmem
    cases hmem
  exact ⟨fun n _ b _ hb => absurd hb (hnone n b), fun _ n b _ hb => absurd hb (hnone n b),
    fun _ _ _ _ _ _ _ _ _ _ n b hb => absurd hb (hnone n b)⟩

end RelayService
open RelayService

/-- **When no task fails to bridge, no session ends while it is bridged and no token is matched that has a task, the active
pairings agree with the statistic and the sessions, and streams are dropped only after their own teardown.** -/
theorem active_consistent (config : BlindRelayServerConfig) (es : List RelayEvent)
    (h : Along step Orderly (.new config) es) :
    Visits step ActiveConsistent (.new config) es ∧
      Along step DropsOwn (.new config) es := by
  have hkeep : ∀ w e, Tidy w ∧ Settled w → Orderly w e → (w.step e).Tidy ∧ (w.step e).Settled := fun w e hw ho =>
    ⟨(tidy_step w e hw ho).1, settled_step w e hw.2⟩
  have hnew : (RelayService.new config).Tidy ∧ (RelayService.new config).Settled := ⟨tidy_new config, settled_new config⟩
  exact ⟨h.visits hkeep (fun w hw => hw.1.consistent) hnew,
    h.of_invariant (fun w e hw ho => ⟨hkeep w e hw ho, (tidy_step w e hw ho).2⟩) hnew⟩

/-! ### Runs of two sessions -/

def firstToken : PairingToken := .fill 1

/-- Two sessions ask for a token, the second as the initiator; the id of the first one's stream is given. -/
def twoSessionsMatch (streamId : UInt64) : List RelayEvent :=
  [.connect 0 true, .opened 1 true, .connect 0 true, .opened 2 true,
    .message 0 1 MSG_TYPE_PAIR (pairBytes ⟨false, firstToken, streamId, 0⟩),
    .message 0 2 MSG_TYPE_PAIR (pairBytes ⟨true, firstToken, 6, 0⟩)]

def twoSessionsPair : List RelayEvent := twoSessionsMatch 5 ++ [.bridged 0 .ready, .stored 0, .activated 0]

/-- Two sessions are paired, and nothing else happens. -/
theorem active_consistent_paired : (Visits step ActiveConsistent (.new {}) twoSessionsPair ∧
      Along step DropsOwn (.new {}) twoSessionsPair) ∧
    (run step (.new {}) twoSessionsPair).server.stats.pairingsActive = 1 := by
  have hnone : ∀ k ≤ 5, (run step (.new {}) (twoSessionsPair.take k)).bridges.entries = [] := by
    decide +kernel
  have hlookup : (run step (.new {}) (twoSessionsPair.take 6)).bridges.lookup 0 =
      some ⟨⟨firstToken, ⟨1, false, 5⟩, ⟨2, true, 6⟩⟩, .bridging⟩ := by decide +kernel
  refine ⟨active_consistent {} twoSessionsPair ?_, by decide +kernel⟩
  have hquiet := fun k hk => orderly_of_no_bridges (hnone k hk)
  refine ⟨hquiet 0 (by decide) _, hquiet 1 (by decide) _, hquiet 2 (by decide) _, hquiet 3 (by decide) _,
    hquiet 4 (by decide) _, hquiet 5 (by decide) _,
    ⟨fun n transport b he hb _ => ?_, nofun, nofun⟩, ⟨nofun, nofun, nofun⟩, ⟨nofun, nofun, nofun⟩, trivial⟩
  cases he
  cases hlookup.symm.trans hb
  exact ⟨by decide, rfl⟩

/-- The id of a client's stream is no id of a UDX stream, so that the task fails. -/
def bridgeFails : List RelayEvent := twoSessionsMatch 4294967296 ++ [.bridged 0 .ready]

/-- The first session ends before its pairing is registered. -/
def endsBeforeActive : List RelayEvent := twoSessionsMatch 5 ++ [.close 1, .bridged 0 .ready, .stored 0, .activated 0]

/-- The two sessions are paired, and ask for the same token again. -/
def tokenAgain : List RelayEvent :=
  twoSessionsPair ++ [.message 0 1 MSG_TYPE_PAIR (pairBytes ⟨false, firstToken, 7, 0⟩),
    .message 0 2 MSG_TYPE_PAIR (pairBytes ⟨true, firstToken, 8, 0⟩), .bridged 1 .ready]

/-- A pairing that failed is counted; one of a session that has ended is registered; and the streams of one that was not
torn down are dropped. -/
theorem active_inconsistent : ¬ ActiveConsistent (run step (.new {}) bridgeFails) ∧
    ¬ ActiveConsistent (run step (.new {}) endsBeforeActive) ∧
    ¬ DropsOwn (run step (.new {}) tokenAgain) (.stored 1) := by
  refine ⟨fun h => ?_, fun h => ?_, fun h => ?_⟩
  · have hcount := (h (not_bridging_iff.mpr (by decide +kernel))).1
    revert hcount
    decide +kernel
  · have hmem := ((h (not_bridging_iff.mpr (by decide +kernel))).2 firstToken ⟨(1, 2), 0⟩ (by decide +kernel)).1
    revert hmem
    decide +kernel
  · have hmem := h 0 (by decide +kernel)
    revert hmem
    decide +kernel

end Peeroxide.Dht
