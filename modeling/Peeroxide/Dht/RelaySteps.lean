import Peeroxide.Dht.RelayService

/-!
# What a step of the relay service can do

* `Quiet` : nothing changes but the queues of the sessions, the replies and the next stream id;
* `onMessage_cases`, `handleMessage_cases`, `handleOutbound_cases`, `handleBridged_cases`, ... : one lemma for each
  event.
-/

namespace Peeroxide.Dht
open Lib Option

def PairOutcome.pairing? : PairOutcome → Option MatchedPairing
  | .matched m => some m
  | _ => none

def PairOutcome.counts (out : PairOutcome) (n : Nat) : Nat := if out = .pending then n + 1 else n

def UnpairOutcome.counts (out : UnpairOutcome) (n : Nat) : Nat := if out = .cancelled then n - 1 else n

namespace BlindRelaySession

variable (session : BlindRelaySession) {sv sv' : BlindRelayServer} {now : Nat} {data : Bytes}

theorem onMessage_pair {msg : PairMessage} {out : PairOutcome} (hd : decodePairFromSlice data = .ok msg)
    (hcall : sv.tryPair now session.sessionId msg.isInitiator msg.token msg.id session.pairingCount = (out, sv')) :
    session.onMessage sv now MSG_TYPE_PAIR data =
      ({ session with pairingCount := out.counts session.pairingCount }, sv', out.pairing?) := by
  rw [onMessage, hd]
  simp only [hcall]
  cases out <;> rfl

theorem onMessage_unpair {msg : UnpairMessage} {out : UnpairOutcome} (hd : decodeUnpairFromSlice data = .ok msg)
    (hcall : sv.unpair now session.sessionId msg.token = (out, sv')) : session.onMessage sv now MSG_TYPE_UNPAIR data =
      ({ session with pairingCount := out.counts session.pairingCount }, sv', none) := by
  rw [onMessage, hd]
  simp only [hcall]
  cases out <;> rfl

theorem onMessage_cases (sv : BlindRelayServer) (now : Nat) (messageType : UInt32) (data : Bytes) :
    session.onMessage sv now messageType data = (session, sv, none) ∨
    (∃ msg, messageType = MSG_TYPE_PAIR ∧ decodePairFromSlice data = .ok msg ∧ ∃ out sv',
      sv.tryPair now session.sessionId msg.isInitiator msg.token msg.id session.pairingCount = (out, sv') ∧
      session.onMessage sv now messageType data =
        ({ session with pairingCount := out.counts session.pairingCount }, sv', out.pairing?)) ∨
    (∃ msg, messageType = MSG_TYPE_UNPAIR ∧ decodeUnpairFromSlice data = .ok msg ∧ ∃ out sv',
      sv.unpair now session.sessionId msg.token = (out, sv') ∧
      session.onMessage sv now messageType data =
        ({ session with pairingCount := out.counts session.pairingCount }, sv', none)) := by
  by_cases hpair : messageType = MSG_TYPE_PAIR
  · subst hpair
    cases hd : decodePairFromSlice data with
    | error e =>
      left
      rw [onMessage, if_pos rfl, hd]
    | ok msg => exact .inr (.inl ⟨msg, rfl, rfl, _, _, rfl, session.onMessage_pair hd rfl⟩)
  · by_cases hunpair : messageType = MSG_TYPE_UNPAIR
    · subst hunpair
      cases hd : decodeUnpairFromSlice data with
      | error e =>
        left
        rw [onMessage, if_neg hpair, if_pos rfl, hd]
      | ok msg => exact .inr (.inr ⟨msg, rfl, rfl, _, _, rfl, session.onMessage_unpair hd rfl⟩)
    · left
      rw [onMessage, if_neg hpair, if_neg hunpair]

end BlindRelaySession

/-- What a session's task is apart from its queue. -/
def SessionTask.core (task : SessionTask) : Nat × Bool := (task.pairingCount, task.opened)

namespace RelayService
variable {w w' w'' : RelayService} {sid n : Nat} {task : SessionTask}

/-- The queues, the replies and the next stream id may have changed. -/
structure Quiet (w w' : RelayService) : Prop where
  server : w'.server = w.server
  sessions : ∀ sid, (w'.sessions.lookup sid).map SessionTask.core = (w.sessions.lookup sid).map SessionTask.core
  bridges : w'.bridges = w.bridges
  streams : w'.streams = w.streams
  nextMatch : w'.nextMatch = w.nextMatch
  dropped : w'.dropped = w.dropped

theorem Quiet.refl (w : RelayService) : Quiet w w := ⟨rfl, fun _ => rfl, rfl, rfl, rfl, rfl⟩

theorem Quiet.trans (h : Quiet w w') (h' : Quiet w' w'') : Quiet w w'' :=
  ⟨h'.server.trans h.server, fun sid => (h'.sessions sid).trans (h.sessions sid), h'.bridges.trans h.bridges,
    h'.streams.trans h.streams, h'.nextMatch.trans h.nextMatch, h'.dropped.trans h.dropped⟩

theorem lookup_insert_core {sessions : AList fun _ : Nat => SessionTask} {task' : SessionTask}
    (h : sessions.lookup sid = some task) (hcore : task'.core = task.core) (s : Nat) :
    ((sessions.insert sid task').lookup s).map SessionTask.core = (sessions.lookup s).map SessionTask.core := by
  by_cases hs : s = sid
  · subst hs
    rw [AList.lookup_insert, h, map_some, map_some, hcore]
  · rw [AList.lookup_insert_ne hs]

theorem quiet_send (w : RelayService) (sid : Nat) (out : SessionOutbound) : Quiet w (w.send sid out) := by
  unfold send
  split
  · exact .refl w
  next task htask =>
    exact ⟨rfl, lookup_insert_core htask rfl, rfl, rfl, rfl, rfl⟩

theorem quiet_sweepIdleSessions (w : RelayService) (now : Nat) : Quiet w (w.step (.sweepIdleSessions now)) :=
  List.foldlRecOn _ _ (.refl w) fun v h sid _ => h.trans (quiet_send v sid .close)

theorem running_eq_some : w.running sid = some task ↔ w.sessions.lookup sid = some task ∧ task.opened = true := by
  rw [running, filter_eq_some_iff]

/-! ## Sessions -/

theorem newSession_cases (w : RelayService) (now : Nat) :
    w.newSession now = w ∨
    (w.server.sessionCount < w.server.config.maxSessions ∧ w.newSession now = { w with
        server := { w.server with
            sessionCount := w.server.sessionCount + 1
            nextSessionId := w.server.nextSessionId + 1
            sessionOutbound := insert w.server.nextSessionId w.server.sessionOutbound
            sessionActivity := w.server.sessionActivity.insert w.server.nextSessionId now
            stats := { w.server.stats with
              sessionsAccepted := w.server.stats.sessionsAccepted + 1
              sessionsActive := w.server.stats.sessionsActive + 1 } }
        sessions := w.sessions.insert w.server.nextSessionId ⟨0, false, []⟩ }) := by
  unfold newSession BlindRelayServer.tryAcceptSession
  by_cases hfull : w.server.config.maxSessions ≤ w.server.sessionCount
  · rw [if_pos hfull]
    exact .inl rfl
  · rw [if_neg hfull]
    exact .inr ⟨UInt64.not_le.mp hfull, rfl⟩

theorem waitOpened_cases (w : RelayService) (sid : Nat) (ok : Bool) :
    ((∀ task, w.sessions.lookup sid = some task → task.opened = true) ∧ w.waitOpened sid ok = w) ∨
    ∃ task, w.sessions.lookup sid = some task ∧ task.opened = false ∧
      ((ok = true ∧ w.waitOpened sid ok = { w with sessions := w.sessions.insert sid { task with opened := true } }) ∨
        (ok = false ∧ w.waitOpened sid ok = { w with sessions := w.sessions.erase sid })) := by
  unfold waitOpened
  split
  next hnone =>
    refine .inl ⟨fun task htask => ?_, rfl⟩
    rw [htask, filter_eq_none_iff] at hnone
    simpa using hnone task rfl
  next task htask =>
    obtain ⟨hlookup, hopened⟩ := filter_eq_some_iff.mp htask
    refine .inr ⟨task, hlookup, by simpa using hopened, ?_⟩
    cases ok with
    | true => exact .inl ⟨rfl, rfl⟩
    | false => exact .inr ⟨rfl, rfl⟩

theorem handleMessage_cases (w : RelayService) (now sid : Nat) (messageType : UInt32) (data : Bytes) :
    Quiet w (w.handleMessage now sid messageType data) ∨ ∃ task, w.running sid = some task ∧
      ((∃ msg, messageType = MSG_TYPE_PAIR ∧ decodePairFromSlice data = .ok msg ∧ ∃ out sv',
          w.server.tryPair now sid msg.isInitiator msg.token msg.id task.pairingCount = (out, sv') ∧
          w.handleMessage now sid messageType data = startBridge { w with
            server := sv'
            sessions := w.sessions.insert sid { task with pairingCount := out.counts task.pairingCount } } out.pairing?) ∨
        (∃ msg, messageType = MSG_TYPE_UNPAIR ∧ decodeUnpairFromSlice data = .ok msg ∧ ∃ out sv',
          w.server.unpair now sid msg.token = (out, sv') ∧
          w.handleMessage now sid messageType data = { w with
            server := sv'
            sessions := w.sessions.insert sid { task with pairingCount := out.counts task.pairingCount } })) := by
  unfold handleMessage
  cases hrun : w.running sid with
  | none => exact .inl (.refl w)
  | some task =>
    simp only
    obtain h | ⟨msg, htype, hd, out, sv', hcall, h⟩ | ⟨msg, htype, hd, out, sv', hcall, h⟩ :=
      BlindRelaySession.onMessage_cases ⟨sid, task.pairingCount⟩ w.server now messageType data
    · rw [h]
      exact .inl ⟨rfl, lookup_insert_core (running_eq_some.mp hrun).1 rfl, rfl, rfl, rfl, rfl⟩
    · rw [h]
      exact .inr ⟨task, rfl, .inl ⟨msg, htype, hd, out, sv', hcall, rfl⟩⟩
    · rw [h]
      exact .inr ⟨task, rfl, .inr ⟨msg, htype, hd, out, sv', hcall, rfl⟩⟩

theorem handleMessage_pair {now : Nat} {data : Bytes} {msg : PairMessage} {out : PairOutcome} {sv' : BlindRelayServer}
    (hrun : w.running sid = some task) (hd : decodePairFromSlice data = .ok msg)
    (hcall : w.server.tryPair now sid msg.isInitiator msg.token msg.id task.pairingCount = (out, sv')) :
    w.handleMessage now sid MSG_TYPE_PAIR data = startBridge { w with
      server := sv'
      sessions := w.sessions.insert sid { task with pairingCount := out.counts task.pairingCount } } out.pairing? := by
  rw [handleMessage, hrun]
  simp only [BlindRelaySession.onMessage_pair ⟨sid, task.pairingCount⟩ hd hcall]

theorem handleMessage_unpair {now : Nat} {data : Bytes} {msg : UnpairMessage} {out : UnpairOutcome} {sv' : BlindRelayServer}
    (hrun : w.running sid = some task) (hd : decodeUnpairFromSlice data = .ok msg)
    (hcall : w.server.unpair now sid msg.token = (out, sv')) : w.handleMessage now sid MSG_TYPE_UNPAIR data = { w with
      server := sv'
      sessions := w.sessions.insert sid { task with pairingCount := out.counts task.pairingCount } } := by
  rw [handleMessage, hrun]
  simp only [BlindRelaySession.onMessage_unpair ⟨sid, task.pairingCount⟩ hd hcall, startBridge]

/-- The session whose loop a step ends: its channel is closed, it is told to close, or a reply cannot be sent. -/
def closes (w : RelayService) : RelayEvent → Option Nat
  | .close sid => if (w.running sid).isSome then some sid else none
  | .outbound sid sent =>
    match (w.running sid).elim [] (·.outbound) with
    | [] => none
    | .close :: _ => some sid
    | .pairMatched _ _ _ :: _ => if sent then none else some sid
  | _ => none

theorem handleOutbound_cases (w : RelayService) (sid : Nat) (sent : Bool) : Quiet w (w.handleOutbound sid sent) ∨
    ∃ task, w.running sid = some task ∧ w.closes (.outbound sid sent) = some sid ∧
      w.handleOutbound sid sent = w.endSession sid := by
  unfold handleOutbound
  cases hrun : w.running sid with
  | none => exact .inl (.refl w)
  | some task =>
    rw [closes, hrun, elim_some]
    cases hq : task.outbound with
    | nil => exact .inl (by simpa only [hq] using .refl w)
    | cons out rest =>
      simp only [hq]
      cases out with
      | close => exact .inr ⟨task, rfl, rfl, rfl⟩
      | pairMatched token isInitiator streamId =>
        cases sent with
        | true => exact .inl ⟨rfl, lookup_insert_core (running_eq_some.mp hrun).1 rfl, rfl, rfl, rfl, rfl⟩
        | false => exact .inr ⟨task, rfl, rfl, rfl⟩

theorem close_cases (w : RelayService) (sid : Nat) : w.step (.close sid) = w ∨
    ∃ task, w.running sid = some task ∧ w.closes (.close sid) = some sid ∧ w.step (.close sid) = w.endSession sid := by
  rw [step, closes]
  cases hrun : w.running sid with
  | none => exact .inl rfl
  | some task => exact .inr ⟨task, rfl, rfl, rfl⟩

/-! ## Bridging -/

theorem bridgeOnePairing_cases (w : RelayService) (m : MatchedPairing) (transport : Transport) :
    ∃ w₁, Quiet w w₁ ∧ w.bridgeOnePairing m transport = (decide (idsInRange m ∧ transport = .ready), w₁) := by
  unfold bridgeOnePairing
  split
  next hsocket =>
    refine ⟨w, .refl w, ?_⟩
    rw [hsocket]
    simp
  · split
    next hready =>
      have hids : Quiet w { w with nextRelayStreamId := w.nextRelayStreamId + 1 + 1 } :=
        ⟨rfl, fun _ => rfl, rfl, rfl, rfl, rfl⟩
      rw [decide_eq_true hready]
      exact ⟨_, hids.trans ((quiet_send _ _ _).trans (quiet_send _ _ _)), rfl⟩
    next hready =>
      rw [decide_eq_false hready]
      exact ⟨{ w with nextRelayStreamId := w.nextRelayStreamId + 1 + 1 }, ⟨rfl, fun _ => rfl, rfl, rfl, rfl, rfl⟩, rfl⟩

section
variable (w : RelayService) (n : Nat)

theorem handleBridged_cases (transport : Transport) :
    ((∀ b, w.bridges.lookup n = some b → b.phase ≠ .bridging) ∧ w.handleBridged n transport = w) ∨
    ∃ b w₁, w.bridges.lookup n = some b ∧ b.phase = .bridging ∧ Quiet w w₁ ∧
      (((idsInRange b.pairing ∧ transport = .ready) ∧
          w.handleBridged n transport = { w₁ with bridges := w.bridges.insert n { b with phase := .bridged } }) ∨
        (¬ (idsInRange b.pairing ∧ transport = .ready) ∧
          w.handleBridged n transport = { w₁ with bridges := w.bridges.erase n })) := by
  unfold handleBridged
  split
  next hnone =>
    exact .inl ⟨fun b hb => by simpa [hb] using hnone, rfl⟩
  next b hb =>
    obtain ⟨hlookup, hphase⟩ := filter_eq_some_iff.mp hb
    obtain ⟨w₁, hquiet, hr⟩ := w.bridgeOnePairing_cases b.pairing transport
    refine .inr ⟨b, w₁, hlookup, by simpa using hphase, hquiet, ?_⟩
    rw [hr]
    by_cases hready : idsInRange b.pairing ∧ transport = .ready
    · rw [decide_eq_true hready]
      exact .inl ⟨hready, by simp only [hquiet.bridges]⟩
    · rw [decide_eq_false hready]
      exact .inr ⟨hready, by simp only [hquiet.bridges]⟩

theorem storeStreams_cases : w.storeStreams n = w ∨
    ∃ b, w.bridges.lookup n = some b ∧ b.phase = .bridged ∧ w.storeStreams n = { w with
        bridges := w.bridges.insert n { b with phase := .stored }
        streams := w.streams.insert b.pairing.token n
        dropped := w.dropped ++ (w.streams.lookup b.pairing.token).toList } := by
  unfold storeStreams
  split
  · exact .inl rfl
  next b hb =>
    obtain ⟨hlookup, hphase⟩ := filter_eq_some_iff.mp hb
    exact .inr ⟨b, hlookup, by simpa using hphase, rfl⟩

theorem activate_cases :
    ((∀ b, w.bridges.lookup n = some b → b.phase ≠ .stored) ∧ w.activate n = w) ∨
    ∃ b, w.bridges.lookup n = some b ∧ b.phase = .stored ∧ w.activate n = { w with
        server := w.server.markActive b.pairing.token b.sessionIds n
        bridges := w.bridges.insert n { b with phase := .active } } := by
  unfold activate
  split
  next hnone =>
    exact .inl ⟨fun b hb => by simpa [hb] using hnone, rfl⟩
  next b hb =>
    obtain ⟨hlookup, hphase⟩ := filter_eq_some_iff.mp hb
    exact .inr ⟨b, hlookup, by simpa using hphase, rfl⟩

theorem dropStreams_cases : w.dropStreams n = w ∨
    ∃ b, w.bridges.lookup n = some b ∧ b.phase = .active ∧
      (∀ token a, w.server.activePairings.lookup token = some a → a.teardownTx ≠ n) ∧ w.dropStreams n = { w with
        bridges := w.bridges.erase n
        streams := w.streams.erase b.pairing.token
        dropped := w.dropped ++ (w.streams.lookup b.pairing.token).toList } := by
  unfold dropStreams
  split
  · exact .inl rfl
  next b hb =>
    obtain ⟨hlookup, hawake⟩ := filter_eq_some_iff.mp hb
    rw [Bool.and_eq_true, decide_eq_true_eq, hungUp, List.all_eq_true] at hawake
    refine .inr ⟨b, hlookup, hawake.1, fun token a ha => ?_, rfl⟩
    simpa using hawake.2 ⟨token, a⟩ (AList.mem_lookup_iff.mp ha)

end

end RelayService
end Peeroxide.Dht
