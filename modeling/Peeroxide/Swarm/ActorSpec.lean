import Peeroxide.Swarm.Actor

/-!
# What a step of the swarm actor can do

* `attemptConnections_induction` : what every dial keeps, the loop keeps; `attemptConnections_stops` : it ends with the
  queue empty or all places taken;
* `handleConnectResult_cases`, `handleServerHandshake_cases`, `handlePunched_cases` : one lemma for each handler;
  `serverFrame_step` : what is no business of the server side.
-/

namespace Peeroxide.Swarm
open Lib Dht

namespace SwarmActor
variable {s s' s'' : SwarmActor} {hash : Bytes → Bytes32}
variable {m : Handshake} {now : Nat} {payload : NoisePayload} {pk : PublicKey}

/-! ## Dialling -/

theorem length_sortedQueue (s : SwarmActor) : s.sortedQueue.length = s.queue.length := List.length_insertionSort _ _

theorem dialNext_cases (h : s.queue ≠ []) : ∃ pk queue, s.sortedQueue = pk :: queue ∧ s.dialNext = { s with
        queue := queue
        peers := Assoc.modify s.peers pk fun info =>
          { info with queued := false, connecting := true, attempts := info.attempts + 1 }
        activeConnects := s.activeConnects + 1
        dials := s.dials ++ [⟨pk, (s.peers.lookup pk).elim [] (·.relayAddresses), s.nextAttempt⟩]
        nextAttempt := s.nextAttempt + 1 } := by
  cases hq : s.sortedQueue with
  | nil =>
    have hlen := s.length_sortedQueue
    rw [hq] at hlen
    exact absurd (List.length_eq_zero_iff.mp hlen.symm) h
  | cons pk queue => exact ⟨pk, queue, rfl, by rw [dialNext, hq]⟩

theorem length_queue_dialNext (h : s.queue ≠ []) : s.queue.length = s.dialNext.queue.length + 1 := by
  obtain ⟨pk, queue, hsorted, hnext⟩ := dialNext_cases h
  rw [hnext, ← length_sortedQueue, hsorted, List.length_cons]

section
variable {I : SwarmActor → Prop} (hdial : ∀ t, t.queue ≠ [] → I t → I t.dialNext)
include hdial

theorem loop_induction (fuel : Nat) (hs : I s) :
    I (attemptConnections.loop fuel s) := by
  induction fuel generalizing s with
  | zero => exact hs
  | succ fuel ih =>
    rw [attemptConnections.loop]
    split
    next hgo =>
      exact ih (hdial s hgo.2 hs)
    · exact hs

theorem attemptConnections_induction (hs : I s) :
    I s.attemptConnections :=
  loop_induction hdial _ hs

end

theorem attemptConnections_stops (s : SwarmActor) :
    s.attemptConnections.config.maxParallel ≤ s.attemptConnections.activeConnects ∨ s.attemptConnections.queue = [] := by
  have hloop : ∀ fuel (t : SwarmActor), t.queue.length ≤ fuel →
      (attemptConnections.loop fuel t).config.maxParallel ≤ (attemptConnections.loop fuel t).activeConnects ∨
        (attemptConnections.loop fuel t).queue = [] := by
    intro fuel
    induction fuel with
    | zero => exact fun t ht => .inr (List.length_eq_zero_iff.mp (Nat.le_zero.mp ht))
    | succ fuel ih =>
      intro t ht
      rw [attemptConnections.loop]
      split
      next hgo =>
        have hlen := length_queue_dialNext hgo.2
        exact ih _ (by omega)
      next hstop =>
        by_cases hempty : t.queue = []
        · exact .inr hempty
        · exact .inl (Nat.le_of_not_lt fun hlt => hstop ⟨hlt, hempty⟩)
  exact hloop _ s le_rfl

structure DialFrame (s s' : SwarmActor) : Prop where
  publicKey : s'.publicKey = s.publicKey
  config : s'.config = s.config
  topics : s'.topics = s.topics
  connections : s'.connections = s.connections
  flushWaiters : s'.flushWaiters = s.flushWaiters
  connects : s'.connects = s.connects
  pendingHandshakes : s'.pendingHandshakes = s.pendingHandshakes
  timers : s'.timers = s.timers
  serverTasks : s'.serverTasks = s.serverTasks
  failures : s'.failures = s.failures
  channel : s'.channel = s.channel
  nextAttempt : s.nextAttempt ≤ s'.nextAttempt

theorem DialFrame.refl (s : SwarmActor) : DialFrame s s :=
  ⟨rfl, rfl, rfl, rfl, rfl, rfl, rfl, rfl, rfl, rfl, rfl, le_rfl⟩

theorem dialFrame_attemptConnections (s : SwarmActor) : DialFrame s s.attemptConnections := by
  refine attemptConnections_induction (fun t ht h => ?_) (.refl s)
  obtain ⟨pk, queue, -, hnext⟩ := dialNext_cases ht
  rw [hnext]
  exact { h with nextAttempt := h.nextAttempt.trans (Nat.le_succ _) }

theorem dialFrame_peerFound (s : SwarmActor) (pk : PublicKey) (relays : List Ipv4Peer) (topic : Topic) :
    DialFrame s (s.peerFound pk relays topic) := by
  unfold peerFound
  split
  · exact .refl s
  · simp only
    split
    · exact { DialFrame.refl s with }
    · exact { DialFrame.refl s with }

theorem scheduleRetry_cases (s : SwarmActor) (pk : PublicKey) (draw : Nat × Nat × Nat) : s.scheduleRetry pk draw = s ∨
    ∃ info topic topics, s.peers.lookup pk = some info ∧ info.topics = topic :: topics ∧ info.banned = false ∧
      s.scheduleRetry pk draw = { s with
        peers := s.peers.insert pk { info with waiting := true }
        timers := s.timers ++ [⟨pk, info.relayAddresses, topic, retryDelay info draw⟩] } := by
  unfold scheduleRetry
  cases hp : s.peers.lookup pk with
  | none => exact .inl rfl
  | some info =>
    cases ht : info.topics with
    | nil =>
      left
      simp only [ht]
    | cons topic topics =>
      simp only [ht]
      by_cases hb : info.banned = true
      · exact .inl (if_pos hb)
      · refine .inr ⟨info, topic, topics, rfl, ht, Bool.eq_false_iff.mpr hb, ?_⟩
        rw [if_neg hb, ht]

/-- A dial that fails is retried; one that succeeds takes the slot, unless the one that is there is kept. -/
theorem handleConnectResult_cases (s : SwarmActor) (now : Nat) (d : Dial) (ok : Bool) (draw : Nat × Nat × Nat) :
    (ok = false ∧ s.handleConnectResult now d ok draw = ((s.dialEnded d).scheduleRetry d.publicKey draw).attemptConnections) ∨
    (ok = true ∧ ∃ existing, s.connections.lookup d.publicKey = some existing ∧
      existing.isInitiator = s.dominant d.publicKey ∧ s.handleConnectResult now d ok draw = s.dialEnded d) ∨
    (ok = true ∧ (∀ existing, s.connections.lookup d.publicKey = some existing →
        existing.isInitiator ≠ s.dominant d.publicKey) ∧
      s.handleConnectResult now d ok draw = ((s.dialEnded d).takeSlot now d).attemptConnections) := by
  cases ok with
  | false => exact .inl ⟨rfl, rfl⟩
  | true =>
    have hlookup : (s.dialEnded d).connections.lookup d.publicKey = s.connections.lookup d.publicKey := rfl
    unfold handleConnectResult
    rw [if_pos rfl, hlookup]
    cases hc : s.connections.lookup d.publicKey with
    | none => exact .inr (.inr ⟨rfl, by simp, rfl⟩)
    | some existing =>
      by_cases hkeep : existing.isInitiator = s.dominant d.publicKey
      · exact .inr (.inl ⟨rfl, existing, rfl, hkeep, if_pos hkeep⟩)
      · refine .inr (.inr ⟨rfl, fun existing' h => ?_, if_neg hkeep⟩)
        cases h
        exact hkeep

/-! ## The server side -/

structure HandshakeFrame (s s' : SwarmActor) : Prop where
  publicKey : s'.publicKey = s.publicKey
  config : s'.config = s.config
  topics : s'.topics = s.topics
  peers : s'.peers = s.peers
  connections : s'.connections = s.connections
  queue : s'.queue = s.queue
  flushWaiters : s'.flushWaiters = s.flushWaiters
  connects : s'.connects = s.connects
  pendingHandshakes : s'.pendingHandshakes = s.pendingHandshakes
  dials : s'.dials = s.dials
  timers : s'.timers = s.timers
  serverTasks : s'.serverTasks = s.serverTasks
  failures : s'.failures = s.failures
  channel : s'.channel = s.channel
  nextAttempt : s'.nextAttempt = s.nextAttempt

theorem handshakeFrame_of (s : SwarmActor) (cache : HandshakeReplyCache) (id : UInt64) :
    HandshakeFrame s { s with handshakeReplies := cache, nextHolepunchId := id } :=
  ⟨rfl, rfl, rfl, rfl, rfl, rfl, rfl, rfl, rfl, rfl, rfl, rfl, rfl, rfl, rfl⟩

theorem finishHandshake_cases (hash : Bytes → Bytes32) (s : SwarmActor) (now : Nat) (m : Handshake) (noiseReply : ByteVec) (pk : PublicKey)
    (udx : Option UdxInfo) (staged : Option UInt64) : ∃ t, HandshakeFrame s t ∧
      ((s.finishHandshake hash now m noiseReply pk udx staged = t ∧
          (pk ∈ s.connections ∨ s.config.maxPeers ≤ s.connections.entries.length ∨ udx = none)) ∨
        (pk ∉ s.connections ∧ s.connections.entries.length < s.config.maxPeers ∧ udx.isSome = true ∧
          ((∃ id, staged = some id ∧ s.finishHandshake hash now m noiseReply pk udx staged = t.commitPassiveHolepunch id pk) ∨
            (staged = none ∧ s.finishHandshake hash now m noiseReply pk udx staged = t.reserve pk)))) := by
  by_cases heligible : s.connections.entries.length < s.config.maxPeers ∧ udx.isSome = true ∧ pk ∉ s.connections
  · obtain ⟨hroom, hudx, hfree⟩ := heligible
    refine ⟨{ s with handshakeReplies := s.handshakeReplies.insert hash now m.noise noiseReply },
      handshakeFrame_of s _ _, .inr ⟨hfree, hroom, hudx, ?_⟩⟩
    rw [finishHandshake]
    simp only [hroom, hudx, hfree, not_false_eq_true, and_self, if_true]
    cases staged with
    | some id => exact .inl ⟨id, rfl, rfl⟩
    | none =>
      refine .inr ⟨rfl, ?_⟩
      have hnone : udx.isNone = false := by rw [← Option.not_isSome, hudx]; rfl
      simp only [Nat.not_le.mpr hroom, hnone, if_false, Bool.false_eq_true]
  · refine ⟨s, handshakeFrame_of s _ _, .inl ?_⟩
    rw [finishHandshake]
    simp only [heligible, if_false]
    by_cases hmem : pk ∈ s.connections
    · simp only [hmem, if_true, true_or, and_self]
    · by_cases hfull : s.config.maxPeers ≤ s.connections.entries.length
      · simp only [hmem, hfull, if_false, if_true, true_or, or_true, and_self]
      · have hnone : udx = none := by
          cases hudx : udx with
          | none => rfl
          | some u => exact absurd ⟨Nat.lt_of_not_le hfull, by rw [hudx]; rfl, hmem⟩ heligible
        subst hnone
        simp only [hmem, hfull, if_false, Option.isNone_none, if_true, or_true, and_self]

def stages (s : SwarmActor) (m : Handshake) (payload : NoisePayload) : Bool :=
  (stage (selectServerPath s.config.relayThrough.isSome m.firewall payload.firewall m.peerAddress.isSome)
    (s.connections.entries.length < s.config.maxPeers && payload.udx.isSome) payload.udx m.setup).2

/-- A handshake that is not a copy of one that was answered, and that the Noise responder finishes. -/
structure Answers (hash : Bytes → Bytes32) (s : SwarmActor) (now : Nat) (m : Handshake) (payload : NoisePayload)
    (pk : PublicKey) : Prop where
  uncached : (s.handshakeReplies.get hash now m.noise).1 = none
  received : m.payload = some payload
  noError : payload.error = 0
  reply : m.reply ≠ none
  remotePk : m.remotePk = some pk

theorem Answers.finish
    (h : Answers hash s now m payload pk) : ∃ t noiseReply, HandshakeFrame s t ∧ (s.handleServerHandshake hash now m).2 =
      t.finishHandshake hash now m noiseReply pk payload.udx (if s.stages m payload then some s.nextHolepunchId else none) := by
  obtain ⟨hcache, hpayload, herror, hreply, hpk⟩ := h
  obtain ⟨noiseReply, hreply⟩ := Option.ne_none_iff_exists'.mp hreply
  unfold handleServerHandshake
  cases hget : s.handshakeReplies.get hash now m.noise with
  | mk cached cache =>
    rw [hget] at hcache
    cases hcache
    simp only [hpayload, hreply, hpk, herror]
    rw [stages]
    generalize stage _ _ _ _ = staging
    obtain ⟨takesId, staged⟩ := staging
    cases takesId with
    | false => exact ⟨_, noiseReply, handshakeFrame_of s cache s.nextHolepunchId, rfl⟩
    | true => exact ⟨_, noiseReply, handshakeFrame_of s cache (s.nextHolepunchId + 1), rfl⟩

theorem HandshakeFrame.trans (h : HandshakeFrame s s') (h' : HandshakeFrame s' s'') : HandshakeFrame s s'' :=
  ⟨h'.publicKey.trans h.publicKey, h'.config.trans h.config, h'.topics.trans h.topics, h'.peers.trans h.peers,
    h'.connections.trans h.connections, h'.queue.trans h.queue, h'.flushWaiters.trans h.flushWaiters,
    h'.connects.trans h.connects, h'.pendingHandshakes.trans h.pendingHandshakes, h'.dials.trans h.dials,
    h'.timers.trans h.timers, h'.serverTasks.trans h.serverTasks, h'.failures.trans h.failures, h'.channel.trans h.channel,
    h'.nextAttempt.trans h.nextAttempt⟩

theorem Answers.accepted (h : Answers hash s now m payload pk) (hudx : payload.udx.isSome = true)
    (hfree : pk ∉ s.connections) (hroom : s.connections.entries.length < s.config.maxPeers) :
    ∃ t, HandshakeFrame s t ∧ (s.handleServerHandshake hash now m).2 =
      if s.stages m payload then t.commitPassiveHolepunch s.nextHolepunchId pk else t.reserve pk := by
  obtain ⟨t, noiseReply, ht, heq⟩ := h.finish
  obtain ⟨t', ht', ⟨-, hno⟩ | ⟨-, -, -, hyes⟩⟩ := t.finishHandshake_cases hash now m noiseReply pk payload.udx
    (if s.stages m payload then some s.nextHolepunchId else none)
  · rw [ht.connections, ht.config] at hno
    rcases hno with hmem | hfull | hnone
    · exact absurd hmem hfree
    · exact absurd hfull (Nat.not_le.mpr hroom)
    · rw [hnone] at hudx
      cases hudx
  · refine ⟨t', ht.trans ht', ?_⟩
    rw [heq]
    obtain ⟨id, hstaged, hfinish⟩ | ⟨hstaged, hfinish⟩ := hyes
    · rw [hfinish]
      split at hstaged
      next hstages =>
        cases hstaged
        rw [if_pos hstages]
      · cases hstaged
    · rw [hfinish]
      split at hstaged
      · cases hstaged
      next hstages =>
        rw [if_neg hstages]

/-- A handshake changes nothing but the cache and the next id, or stages a hole-punch, or takes a slot. -/
theorem handleServerHandshake_cases (hash : Bytes → Bytes32) (s : SwarmActor) (now : Nat) (m : Handshake) :
    ∃ t, HandshakeFrame s t ∧ ((s.handleServerHandshake hash now m).2 = t ∨
        ∃ pk, m.remotePk = some pk ∧ pk ∉ s.connections ∧ s.connections.entries.length < s.config.maxPeers ∧
          ((s.handleServerHandshake hash now m).2 = t.commitPassiveHolepunch s.nextHolepunchId pk ∨
            (s.handleServerHandshake hash now m).2 = t.reserve pk)) := by
  unfold handleServerHandshake
  cases hget : s.handshakeReplies.get hash now m.noise with
  | mk cached cache =>
    have hcache := handshakeFrame_of s cache s.nextHolepunchId
    cases cached with
    | some reply => exact ⟨_, hcache, .inl rfl⟩
    | none =>
      cases hpayload : m.payload with
      | none => exact ⟨_, hcache, .inl rfl⟩
      | some payload =>
        simp only
        split
        · exact ⟨_, hcache, .inl rfl⟩
        · generalize hstage : stage _ _ _ _ = staging
          obtain ⟨takesId, staged⟩ := staging
          -- whether or not an id is taken
          have hframe : ∃ id, (if takesId then { s with handshakeReplies := cache, nextHolepunchId := s.nextHolepunchId + 1 }
              else { s with handshakeReplies := cache }) = { s with handshakeReplies := cache, nextHolepunchId := id } := by
            cases takesId
            · exact ⟨s.nextHolepunchId, rfl⟩
            · exact ⟨s.nextHolepunchId + 1, rfl⟩
          obtain ⟨id, hid⟩ := hframe
          rw [hid]
          cases hreply : m.reply with
          | none => exact ⟨_, handshakeFrame_of s cache id, .inl rfl⟩
          | some noiseReply =>
            cases hpk : m.remotePk with
            | none => exact ⟨_, handshakeFrame_of s cache id, .inl rfl⟩
            | some pk =>
              simp only
              obtain ⟨t, ht, ⟨heq, -⟩ | ⟨hfree, hroom, -, ⟨i, hstaged, heq⟩ | ⟨-, heq⟩⟩⟩ := finishHandshake_cases hash
                { s with handshakeReplies := cache, nextHolepunchId := id } now m noiseReply pk payload.udx
                (if staged then some s.nextHolepunchId else none)
              all_goals have hs : HandshakeFrame s t := (handshakeFrame_of s cache id).trans ht
              · exact ⟨t, hs, .inl heq⟩
              · refine ⟨t, hs, .inr ⟨pk, rfl, hfree, hroom, .inl ?_⟩⟩
                rw [heq]
                split at hstaged
                · cases hstaged
                  rfl
                · cases hstaged
              · exact ⟨t, hs, .inr ⟨pk, rfl, hfree, hroom, .inr heq⟩⟩

theorem handlePunched_cases (s : SwarmActor) (id : UInt64) : (s.connects.lookup id = none ∧ s.handlePunched id = s) ∨
    ∃ entry, s.connects.lookup id = some entry ∧
      (((entry.remotePk ∈ s.connections ∨ s.config.maxPeers ≤ s.connections.entries.length) ∧
          s.handlePunched id = s.takeInFlight id entry) ∨
        (entry.remotePk ∉ s.connections ∧ s.connections.entries.length < s.config.maxPeers ∧
          s.handlePunched id = (s.takeInFlight id entry).reserve entry.remotePk)) := by
  unfold handlePunched
  cases hc : s.connects.lookup id with
  | none => exact .inl ⟨rfl, rfl⟩
  | some entry =>
    refine .inr ⟨entry, rfl, ?_⟩
    simp only
    split
    next hrefuse =>
      exact .inl ⟨hrefuse, rfl⟩
    next haccept =>
      obtain ⟨hfree, hroom⟩ := not_or.mp haccept
      exact .inr ⟨hfree, Nat.lt_of_not_le hroom, rfl⟩

/-- The topics and the dialling are as they were. -/
structure ServerFrame (s s' : SwarmActor) : Prop where
  topics : s'.topics = s.topics
  flushWaiters : s'.flushWaiters = s.flushWaiters
  peers : s'.peers = s.peers
  queue : s'.queue = s.queue
  dials : s'.dials = s.dials
  timers : s'.timers = s.timers

def isServer : SwarmEvent → Bool
  | .join .. | .leave _ | .flush _ | .peerFound .. | .refreshComplete _ | .retry _ | .connectResult .. => false
  | _ => true

theorem serverFrame_step (hash : Bytes → Bytes32) (s : SwarmActor) {e : SwarmEvent} (he : isServer e = true) :
    ServerFrame s (s.step hash e) := by
  have hsame : ServerFrame s s := ⟨rfl, rfl, rfl, rfl, rfl, rfl⟩
  cases e with
  | join | leave | flush | peerFound | refreshComplete | retry | connectResult => cases he
  | handshake now m =>
    rw [step]
    obtain ⟨t, ht, heq | ⟨pk, -, -, -, heq | heq⟩⟩ := s.handleServerHandshake_cases hash now m
    all_goals
      rw [heq]
      exact { ht with }
  | peerHolepunch id payload =>
    cases payload with
    | none | some p => exact { hsame with }
  | punched id =>
    rw [step]
    obtain ⟨-, heq⟩ | ⟨entry, -, ⟨-, heq⟩ | ⟨-, -, heq⟩⟩ := s.handlePunched_cases id
    all_goals
      rw [heq]
      exact { hsame with }
  | abort id =>
    rw [step, handleAbort]
    split <;> exact { hsame with }
  | established i =>
    rw [step]
    cases s.serverTasks[i]? with
    | none => exact hsame
    | some task =>
      rw [Option.elim_some, established]
      split
      · exact { hsame with }
      · split <;> exact { hsame with }
  | taskFailed i =>
    rw [step]
    cases s.serverTasks[i]? with
    | none | some task => exact { hsame with }
  | serverFailure i =>
    rw [step]
    cases s.failures[i]? with
    | none | some task => exact { hsame with }
  | replySweep | receive | hangUp => exact { hsame with }

end SwarmActor
end Peeroxide.Swarm
