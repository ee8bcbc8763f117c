import Peeroxide.Swarm.Slots

/-!
# Flushes and hole-punches in flight

A flush waits for the refreshes of all topics, and a hole-punch for its punch to land or to time out.

Main results: `flushes_answered_iff`, `leave_keeps_waiters`, `holepunches_inverse`.
-/

namespace Peeroxide.Swarm
open Lib Dht AList Assoc

namespace SwarmActor
variable {s s' : SwarmActor} {hash : Bytes → Bytes32}

/-! ## Flushes -/

/-- No flush waits when there are topics and all of them are refreshed. -/
def FlushesAnswered (s : SwarmActor) : Prop := s.allTopicsRefreshed = true → s.flushWaiters = []

/-- No topic is left while flushes wait, such that the other topics are all refreshed and there are some. -/
def LeavesUnrefreshed (s : SwarmActor) (e : SwarmEvent) : Prop :=
  ∀ topic, e = .leave topic → topic ∈ s.topics → s.flushWaiters ≠ [] → (s.topics.erase topic).entries ≠ [] →
    ∃ t state, (s.topics.erase topic).lookup t = some state ∧ state.refreshed = false

/-- The topics and the waiting flushes are as they were. -/
structure TopicFrame (s s' : SwarmActor) : Prop where
  topics : s'.topics = s.topics
  flushWaiters : s'.flushWaiters = s.flushWaiters

theorem FlushesAnswered.frame (h : s.FlushesAnswered) (hframe : TopicFrame s s') : s'.FlushesAnswered := by
  rw [FlushesAnswered, allTopicsRefreshed, hframe.topics, hframe.flushWaiters]
  exact h

theorem allTopicsRefreshed_iff : s.allTopicsRefreshed = true ↔ s.topics.entries ≠ [] ∧
      ∀ topic state, s.topics.lookup topic = some state → state.refreshed = true := by
  rw [allTopicsRefreshed, Bool.and_eq_true, decide_eq_true_eq, List.all_eq_true]
  refine and_congr Iff.rfl ⟨fun h topic state hlookup => ?_, fun h e he => ?_⟩
  · exact h ⟨topic, state⟩ (mem_lookup_iff.mp hlookup)
  · exact h e.1 e.2 (mem_lookup_iff.mpr he)

theorem DialFrame.topicFrame (h : DialFrame s s') : TopicFrame s s' := ⟨h.topics, h.flushWaiters⟩

theorem ServerFrame.topicFrame (h : ServerFrame s s') : TopicFrame s s' := ⟨h.topics, h.flushWaiters⟩

theorem TopicFrame.trans {s'' : SwarmActor} (h : TopicFrame s s') (h' : TopicFrame s' s'') : TopicFrame s s'' :=
  ⟨h'.topics.trans h.topics, h'.flushWaiters.trans h.flushWaiters⟩

theorem topicFrame_connectResult (s : SwarmActor) (now : Nat) (d : Dial) (ok : Bool) (draw : Nat × Nat × Nat) :
    TopicFrame s (s.handleConnectResult now d ok draw) := by
  obtain ⟨-, heq⟩ | ⟨-, existing, -, -, heq⟩ | ⟨-, -, heq⟩ := s.handleConnectResult_cases now d ok draw
  · rw [heq]
    have hretry : TopicFrame s ((s.dialEnded d).scheduleRetry d.publicKey draw) := by
      obtain h | ⟨info, topic, topics, -, -, -, h⟩ := (s.dialEnded d).scheduleRetry_cases d.publicKey draw
      · rw [h]
        exact ⟨rfl, rfl⟩
      · rw [h]
        exact ⟨rfl, rfl⟩
    exact hretry.trans (dialFrame_attemptConnections _).topicFrame
  · rw [heq]
    exact ⟨rfl, rfl⟩
  · rw [heq]
    have htake : TopicFrame s ((s.dialEnded d).takeSlot now d) := ⟨rfl, rfl⟩
    exact htake.trans (dialFrame_attemptConnections _).topicFrame

theorem topicFrame_step (hash : Bytes → Bytes32) (s : SwarmActor) (e : SwarmEvent) :
    TopicFrame s (s.step hash e) ∨ (∃ topic server client, e = .join topic server client) ∨ (∃ topic, e = .leave topic) ∨
    (∃ waiter, e = .flush waiter) ∨ ∃ topic, e = .refreshComplete topic := by
  cases e with
  | join topic server client => exact .inr (.inl ⟨topic, server, client, rfl⟩)
  | leave topic => exact .inr (.inr (.inl ⟨topic, rfl⟩))
  | flush waiter => exact .inr (.inr (.inr (.inl ⟨waiter, rfl⟩)))
  | refreshComplete topic => exact .inr (.inr (.inr (.inr ⟨topic, rfl⟩)))
  | peerFound pk relays topic => exact .inl (dialFrame_peerFound s pk relays topic).topicFrame
  | retry i =>
    left
    rw [step]
    split
    · exact ⟨rfl, rfl⟩
    · have hdrop : TopicFrame s { s with timers := s.timers.eraseIdx i } := ⟨rfl, rfl⟩
      exact hdrop.trans (dialFrame_peerFound _ _ _ _).topicFrame
  | connectResult now i ok draw =>
    left
    rw [step]
    split
    · exact ⟨rfl, rfl⟩
    · exact topicFrame_connectResult s now _ ok draw
  | _ => exact .inl (serverFrame_step hash s rfl).topicFrame

theorem flushesAnswered_join (h : s.FlushesAnswered) (topic : Topic) (server client : Bool) :
    (s.doJoin topic server client).FlushesAnswered := by
  unfold doJoin
  split
  · exact h
  · intro hall
    have hnew := (allTopicsRefreshed_iff.mp hall).2 topic ⟨server, client, false⟩ (lookup_insert _)
    cases hnew

theorem flushesAnswered_flush (h : s.FlushesAnswered) (waiter : Nat) : (s.handleFlush waiter).FlushesAnswered := by
  unfold handleFlush
  split
  · exact h
  next hnot =>
    exact fun hall => absurd hall hnot

theorem flushesAnswered_checkFlushWaiters (s : SwarmActor) : s.checkFlushWaiters.FlushesAnswered := by
  unfold checkFlushWaiters
  split
  · exact fun _ => rfl
  next hnot =>
    exact fun hall => absurd hall hnot

theorem doLeave_frame {topic : Topic} (hmem : topic ∈ s.topics) :
    (s.doLeave topic).topics = s.topics.erase topic ∧ (s.doLeave topic).flushWaiters = s.flushWaiters := by
  obtain ⟨state, hstate⟩ := Assoc.lookup_of_mem hmem
  rw [doLeave, hstate]
  exact ⟨rfl, rfl⟩

theorem flushesAnswered_step (h : s.FlushesAnswered) (e : SwarmEvent) (hleaves : s.LeavesUnrefreshed e) :
    (s.step hash e).FlushesAnswered := by
  obtain hframe | ⟨topic, server, client, rfl⟩ | ⟨topic, rfl⟩ | ⟨waiter, rfl⟩ | ⟨topic, rfl⟩ := s.topicFrame_step hash e
  · exact h.frame hframe
  · exact flushesAnswered_join h topic server client
  · rw [step]
    by_cases hmem : topic ∈ s.topics
    · obtain ⟨htopics, hwaiters⟩ := doLeave_frame hmem
      intro hall
      obtain ⟨hne, hrefreshed⟩ := allTopicsRefreshed_iff.mp hall
      rw [htopics] at hne hrefreshed
      rw [hwaiters]
      by_contra hwait
      obtain ⟨t, state, hstate, hnot⟩ := hleaves topic rfl hmem hwait hne
      cases hnot.symm.trans (hrefreshed t state hstate)
    · rw [doLeave, lookup_eq_none.mpr hmem]
      exact h
  · exact flushesAnswered_flush h waiter
  · exact flushesAnswered_checkFlushWaiters _

theorem leavesUnrefreshed_of_answered (e : SwarmEvent) (h : (s.step hash e).FlushesAnswered) : s.LeavesUnrefreshed e := by
  rintro topic rfl hmem hwait hne
  obtain ⟨htopics, hwaiters⟩ := doLeave_frame hmem
  by_contra hnone
  refine hwait (hwaiters.symm.trans (h (allTopicsRefreshed_iff.mpr ?_)))
  rw [show (s.step hash (.leave topic)).topics = s.topics.erase topic from htopics]
  refine ⟨hne, fun t state hstate => ?_⟩
  by_contra hnot
  exact hnone ⟨t, state, hstate, Bool.eq_false_iff.mpr hnot⟩

end SwarmActor

/-- **No flush waits when all topics are refreshed, in every state of a run, just when no topic is left while flushes wait
and the topics that stay are all refreshed.** -/
theorem flushes_answered_iff (hash : Bytes → Bytes32) (publicKey : PublicKey) (config : ActorConfig) (es : List SwarmEvent) :
    Visits (SwarmActor.step hash) SwarmActor.FlushesAnswered (.new publicKey config) es ↔
      Along (SwarmActor.step hash) SwarmActor.LeavesUnrefreshed (.new publicKey config) es :=
  visits_iff_along_of (I := SwarmActor.FlushesAnswered) (fun _ h => h) (fun _ e h => SwarmActor.flushesAnswered_step h e)
    (fun _ e _ => SwarmActor.leavesUnrefreshed_of_answered e) (fun _ => rfl) es

/-- Two topics are joined and one of them is refreshed; a flush waits for the other one, which is left. -/
def leaveLastUnrefreshed : List SwarmEvent :=
  [.join (keyOf 1) false true, .join (keyOf 2) false true, .refreshComplete (keyOf 1), .flush 0, .leave (keyOf 2)]

/-- The only topic is refreshed, and the flush still waits. -/
theorem leave_keeps_waiters : let s := run (SwarmActor.step firstByte) (.new (keyOf 7) {}) leaveLastUnrefreshed
    s.allTopicsRefreshed = true ∧ s.flushWaiters = [0] ∧ ¬ s.FlushesAnswered := by
  intro s
  have hall : s.allTopicsRefreshed = true := by decide +kernel
  have hwait : s.flushWaiters = [0] := by decide +kernel
  refine ⟨hall, hwait, fun h => ?_⟩
  cases hwait.symm.trans (h hall)

/-! ## Hole-punches in flight -/

inductive HolepunchEvent where
  | committed (id : UInt64) (remotePk : PublicKey)
  | round (id : UInt64) (payload : Option (UInt64 × Bool))
  | punched (id : UInt64)
  | aborted (id : UInt64)
  deriving DecidableEq

def HolepunchEvent.setup? : HolepunchEvent → Option UInt64
  | committed id _ => some id
  | _ => none

namespace SwarmActor
variable {s s' : SwarmActor} {id : UInt64} {pk : PublicKey}

def holepunchStep (s : SwarmActor) : HolepunchEvent → SwarmActor
  | .committed id remotePk => s.commitPassiveHolepunch id remotePk
  | .round id payload => s.handlePeerHolepunch id payload
  | .punched id => s.handlePunched id
  | .aborted id => s.handleAbort id

/-- A peer has an id just when the hole-punch of that id is in flight and is the peer's. -/
def Inverse (s : SwarmActor) : Prop :=
  ∀ pk id, s.pendingHandshakes.lookup pk = some id ↔ ∃ entry, s.connects.lookup id = some entry ∧ entry.remotePk = pk

theorem Inverse.of_eq (h : s.Inverse) (hpending : s'.pendingHandshakes = s.pendingHandshakes)
    (hconnects : s'.connects = s.connects) : s'.Inverse := by
  rw [Inverse, hpending, hconnects]
  exact h

theorem connects_commit (s : SwarmActor) (id : UInt64) (pk : PublicKey) :
    ∃ rest : AList fun _ : UInt64 => InFlightHolepunch,
      (s.commitPassiveHolepunch id pk).connects = rest.insert id ⟨pk, 0, false⟩ ∧
      ∀ id' entry, rest.lookup id' = some entry ↔
        s.connects.lookup id' = some entry ∧ s.pendingHandshakes.lookup pk ≠ some id' := by
  cases hold : s.pendingHandshakes.lookup pk with
  | none =>
    refine ⟨s.connects, ?_, fun id' entry => ⟨fun h => ⟨h, nofun⟩, And.left⟩⟩
    rw [commitPassiveHolepunch, hold]
  | some oldId =>
    refine ⟨s.connects.erase oldId, ?_, fun id' entry => ⟨fun h => ?_, fun h => ?_⟩⟩
    · rw [commitPassiveHolepunch, hold]
    · obtain ⟨hne, hlookup⟩ := lookup_erase_some h
      exact ⟨hlookup, fun heq => hne (Option.some.inj heq).symm⟩
    · rw [lookup_erase_ne fun heq => h.2 (by rw [heq]), h.1]

theorem Inverse.commit (h : s.Inverse) (hfresh : id ∉ s.connects) (pk : PublicKey) :
    (s.commitPassiveHolepunch id pk).Inverse := by
  obtain ⟨rest, hconnects, hrest⟩ := s.connects_commit id pk
  intro pk' id'
  rw [hconnects, show (s.commitPassiveHolepunch id pk).pendingHandshakes = s.pendingHandshakes.insert pk id from rfl]
  constructor
  · intro hpending
    by_cases hpk : pk' = pk
    · subst hpk
      rw [lookup_insert] at hpending
      cases hpending
      exact ⟨_, lookup_insert _, rfl⟩
    · rw [lookup_insert_ne hpk] at hpending
      obtain ⟨entry, hentry, hremote⟩ := (h pk' id').mp hpending
      have hne : id' ≠ id := by
        rintro rfl
        exact hfresh (Assoc.mem_of_lookup hentry)
      refine ⟨entry, ?_, hremote⟩
      rw [lookup_insert_ne hne]
      refine (hrest id' entry).mpr ⟨hentry, fun hold => ?_⟩
      obtain ⟨entry', hentry', hremote'⟩ := (h pk id').mp hold
      cases hentry.symm.trans hentry'
      exact hpk (hremote.symm.trans hremote')
  · rintro ⟨entry, hentry, rfl⟩
    obtain ⟨rfl, rfl⟩ | hold := lookup_insert_some hentry
    · exact lookup_insert _
    · obtain ⟨hentry', hkept⟩ := (hrest id' entry).mp hold
      have hpending := (h entry.remotePk id').mpr ⟨entry, hentry', rfl⟩
      have hne : entry.remotePk ≠ pk := by
        rintro rfl
        exact hkept hpending
      rw [lookup_insert_ne hne, hpending]

theorem Inverse.takeInFlight (h : s.Inverse) {entry : InFlightHolepunch} (hentry : s.connects.lookup id = some entry) :
    (s.takeInFlight id entry).Inverse := by
  have hpending := (h entry.remotePk id).mpr ⟨entry, hentry, rfl⟩
  intro pk' id'
  rw [SwarmActor.takeInFlight]
  constructor
  · intro hlookup
    obtain ⟨hne, hold⟩ := lookup_erase_some hlookup
    obtain ⟨entry', hentry', hremote⟩ := (h pk' id').mp hold
    refine ⟨entry', ?_, hremote⟩
    rw [lookup_erase_ne, hentry']
    rintro rfl
    cases hentry.symm.trans hentry'
    exact hne hremote.symm
  · rintro ⟨entry', hlookup, rfl⟩
    obtain ⟨hne, hold⟩ := lookup_erase_some hlookup
    have hpending' := (h entry'.remotePk id').mpr ⟨entry', hold, rfl⟩
    rw [lookup_erase_ne, hpending']
    intro heq
    rw [heq, hpending] at hpending'
    exact hne (Option.some.inj hpending').symm

theorem Inverse.round (h : s.Inverse) (id : UInt64) (payload : Option (UInt64 × Bool)) :
    (s.handlePeerHolepunch id payload).Inverse := by
  cases payload with
  | none => exact h
  | some p =>
    intro pk' id'
    refine (h pk' id').trans ?_
    rw [handlePeerHolepunch, lookup_modify]
    split
    · constructor
      · rintro ⟨entry, hentry, hremote⟩
        rw [hentry]
        exact ⟨_, rfl, hremote⟩
      · rintro ⟨entry, hentry, hremote⟩
        obtain ⟨entry', hentry', rfl⟩ := Option.map_eq_some_iff.mp hentry
        exact ⟨entry', hentry', hremote⟩
    · exact Iff.rfl

theorem mem_connects_holepunchStep {id : UInt64} (e : HolepunchEvent) (h : id ∈ (s.holepunchStep e).connects) :
    id ∈ s.connects ∨ e.setup? = some id := by
  cases e with
  | committed id' pk =>
    obtain ⟨rest, hconnects, hrest⟩ := s.connects_commit id' pk
    rw [holepunchStep, hconnects, mem_insert] at h
    rcases h with rfl | h
    · exact .inr rfl
    · obtain ⟨entry, hentry⟩ := Assoc.lookup_of_mem h
      exact .inl (Assoc.mem_of_lookup ((hrest id entry).mp hentry).1)
  | round id' payload =>
    left
    cases payload with
    | none => exact h
    | some p =>
      rw [holepunchStep, handlePeerHolepunch, ← lookup_isSome, lookup_modify] at h
      rw [← lookup_isSome]
      split at h
      · rwa [Option.isSome_map] at h
      · exact h
  | punched id' =>
    left
    rw [holepunchStep] at h
    obtain ⟨-, heq⟩ | ⟨entry, -, ⟨-, heq⟩ | ⟨-, -, heq⟩⟩ := s.handlePunched_cases id'
    · rwa [heq] at h
    · rw [heq] at h
      exact (mem_erase.mp h).2
    · rw [heq] at h
      exact (mem_erase.mp h).2
  | aborted id' =>
    left
    rw [holepunchStep, handleAbort] at h
    split at h
    · exact h
    · exact (mem_erase.mp h).2

theorem inverse_holepunchStep (h : s.Inverse) (e : HolepunchEvent) (hfresh : ∀ id, e.setup? = some id → id ∉ s.connects) :
    (s.holepunchStep e).Inverse := by
  cases e with
  | committed id pk => exact h.commit (hfresh id rfl) pk
  | round id payload => exact h.round id payload
  | punched id =>
    rw [holepunchStep]
    obtain ⟨-, heq⟩ | ⟨entry, hentry, ⟨-, heq⟩ | ⟨-, -, heq⟩⟩ := s.handlePunched_cases id
    · rw [heq]
      exact h
    · rw [heq]
      exact h.takeInFlight hentry
    · rw [heq]
      exact (h.takeInFlight hentry).of_eq rfl rfl
  | aborted id =>
    rw [holepunchStep, handleAbort]
    split
    · exact h
    next entry hentry =>
      exact h.takeInFlight hentry

end SwarmActor

/-- **The hole-punches in flight and the ids by peer name each other, after every sequence of set-ups with distinct ids,
rounds, punches that land and time-outs.** -/
theorem holepunches_inverse (s : SwarmActor) (hconnects : s.connects.entries = []) (hpending : s.pendingHandshakes.entries = [])
    (es : List HolepunchEvent) (hids : (es.filterMap (·.setup?)).Nodup) :
    Visits SwarmActor.holepunchStep SwarmActor.Inverse s es := by
  have hempty : s.Inverse := by
    intro pk id
    have hnone : s.pendingHandshakes.lookup pk = none := by
      rw [lookup_eq_none, mem_keys, AList.keys, hpending]
      exact List.not_mem_nil
    have hnone' : s.connects.lookup id = none := by
      rw [lookup_eq_none, mem_keys, AList.keys, hconnects]
      exact List.not_mem_nil
    rw [hnone, hnone']
    exact ⟨nofun, fun ⟨entry, hentry, _⟩ => nomatch hentry⟩
  have hfree : ∀ id ∈ es.filterMap (·.setup?), id ∉ s.connects := by
    intro id _ hmem
    rw [mem_keys, AList.keys, hconnects] at hmem
    exact List.not_mem_nil hmem
  clear hconnects hpending
  -- the ids still to come are in no table
  induction es generalizing s with
  | nil => exact hempty
  | cons e es ih =>
    have hfresh : ∀ id, e.setup? = some id → id ∉ s.connects := fun id hid =>
      hfree id (List.mem_filterMap.mpr ⟨e, List.mem_cons_self, hid⟩)
    have hrest : (es.filterMap (·.setup?)).Nodup := hids.sublist ((List.sublist_cons_self e es).filterMap _)
    refine ⟨hempty, ih _ hrest (SwarmActor.inverse_holepunchStep hempty e hfresh) fun id hid hmem => ?_⟩
    rcases SwarmActor.mem_connects_holepunchStep e hmem with hold | hsetup
    · exact hfree id ((List.sublist_cons_self e es).filterMap _ |>.subset hid) hold
    · rw [List.filterMap_cons_some hsetup, List.nodup_cons] at hids
      exact hids.1 hid

/-- A second hole-punch of a peer replaces the first, whose time-out comes late. -/
theorem holepunches_inverse_replaced : Visits SwarmActor.holepunchStep SwarmActor.Inverse (.new (keyOf 7) {})
      [.committed 0 (keyOf 1), .committed 1 (keyOf 1), .aborted 0, .punched 1] :=
  holepunches_inverse _ rfl rfl _ (by decide)

end Peeroxide.Swarm
