import Peeroxide.Swarm.Slots
import Mathlib.Logic.Relation

/-!
# Retries of failed dials

A dial that fails makes its peer wait, and a timer is to report the peer as found. What is found is queued unless it waits,
and nothing ends the wait: the timer reports in vain, and the peer is never dialled again.

Main results: `retried_iff`, `dialling_continues_iff`.
-/

namespace Peeroxide.Swarm
open Lib Dht List Assoc AList

namespace SwarmActor
variable {s s' : SwarmActor} {hash : Bytes → Bytes32} {pk : PublicKey}
variable {d : Dial} {t : RetryTimer}

/-! ## What a timer can find -/

def WaitingHasTimer (s : SwarmActor) : Prop :=
  ∀ pk info, s.peers.lookup pk = some info → info.waiting = true → ∃ t ∈ s.timers, t.publicKey = pk

/-- A timer that fires queues its peer, if that is not banned, connected, queued or being dialled and there is room. -/
def RetryQueues (hash : Bytes → Bytes32) (s : SwarmActor) (e : SwarmEvent) : Prop :=
  ∀ i t info, e = .retry i → s.timers[i]? = some t → s.peers.lookup t.publicKey = some info →
    info.banned = false → t.publicKey ∉ s.connections → info.queued = false → info.connecting = false →
    s.connections.entries.length < s.config.maxPeers → t.publicKey ∈ (s.step hash e).queue

def NoRetry (s : SwarmActor) (e : SwarmEvent) : Prop := ∀ i, e = .retry i → s.timers[i]? = none

/-! ## Moves -/

/-- Whether a peer is marked as queued, as being dialled, and as waiting. -/
def flags (s : SwarmActor) (pk : PublicKey) : Bool × Bool × Bool :=
  (s.peers.lookup pk).elim (false, false, false) fun info => (info.queued, info.connecting, info.waiting)

/-- A part of a step: a peer is queued, dialled, or done with. -/
inductive Move (s s' : SwarmActor) : Prop where
  | frame (hflags : ∀ pk, s'.flags pk = s.flags pk) (hqueue : s'.queue = s.queue) (hdials : s'.dials = s.dials)
      (htimers : s'.timers = s.timers)
  | queued (pk : PublicKey) (hfree : s.flags pk = (false, false, false)) (hpk : s'.flags pk = (true, false, false))
      (hflags : ∀ pk' ≠ pk, s'.flags pk' = s.flags pk') (hqueue : s'.queue = s.queue ++ [pk])
      (hdials : s'.dials = s.dials) (htimers : s'.timers = s.timers)
  | dialled (d : Dial) (hpk : (s.flags d.publicKey).1 = true → (s'.flags d.publicKey).2.1 = true)
      (hwaiting : (s'.flags d.publicKey).2.2 = (s.flags d.publicKey).2.2)
      (hflags : ∀ pk' ≠ d.publicKey, s'.flags pk' = s.flags pk') (hqueue : s.queue.Perm (d.publicKey :: s'.queue))
      (hdials : s'.dials = s.dials ++ [d]) (htimers : s'.timers = s.timers)
  | ended (d : Dial) (hd : d ∈ s.dials) (hwaiting : (s'.flags d.publicKey).2.2 = (s.flags d.publicKey).2.2)
      (hflags : ∀ pk' ≠ d.publicKey, s'.flags pk' = s.flags pk') (hqueue : s'.queue = s.queue)
      (hdials : s'.dials = s.dials.erase d) (htimers : s'.timers = s.timers)
  | failed (d : Dial) (t : RetryTimer) (hd : d ∈ s.dials) (ht : t.publicKey = d.publicKey)
      (hwaiting : (s'.flags d.publicKey).2.2 = true) (hflags : ∀ pk' ≠ d.publicKey, s'.flags pk' = s.flags pk')
      (hqueue : s'.queue = s.queue) (hdials : s'.dials = s.dials.erase d) (htimers : s'.timers = s.timers ++ [t])

def Moves : SwarmActor → SwarmActor → Prop := Relation.ReflTransGen Move

theorem flags_of_lookup {info : PeerInfo} (h : s.peers.lookup pk = some info) :
    s.flags pk = (info.queued, info.connecting, info.waiting) := by
  rw [flags, h, Option.elim_some]

theorem flags_congr (h : s'.peers.lookup pk = s.peers.lookup pk) : s'.flags pk = s.flags pk := by rw [flags, flags, h]

theorem move_of_frame (hpeers : s'.peers = s.peers) (hqueue : s'.queue = s.queue) (hdials : s'.dials = s.dials)
    (htimers : s'.timers = s.timers) : Move s s' :=
  .frame (fun _ => flags_congr (by rw [hpeers])) hqueue hdials htimers

theorem ServerFrame.move (h : ServerFrame s s') : Move s s' := move_of_frame h.peers h.queue h.dials h.timers

theorem move_dialNext (h : s.queue ≠ []) : Move s s.dialNext := by
  obtain ⟨pk, queue, hsorted, hnext⟩ := dialNext_cases h
  rw [hnext]
  refine .dialled ⟨pk, (s.peers.lookup pk).elim [] (·.relayAddresses), s.nextAttempt⟩ ?_ ?_ ?_ ?_ rfl rfl
  · simp only [flags, lookup_modify]
    cases s.peers.lookup pk with
    | none => exact id
    | some info => exact fun _ => rfl
  · simp only [flags, lookup_modify]
    cases s.peers.lookup pk with
    | none => rfl
    | some info => rfl
  · intro pk' hne
    refine flags_congr ?_
    rw [lookup_modify, if_neg hne]
  · have hperm := perm_insertionSort (fun a b => s.priorityOf b ≤ s.priorityOf a) s.queue
    rw [← sortedQueue, hsorted] at hperm
    exact hperm.symm

theorem moves_attemptConnections (s : SwarmActor) : Moves s s.attemptConnections :=
  attemptConnections_induction (fun _ ht h => h.tail (move_dialNext ht)) .refl

theorem move_peerFound (s : SwarmActor) (pk : PublicKey) (relays : List Ipv4Peer) (topic : Topic) :
    Move s (s.peerFound pk relays topic) := by
  have hfound : (s.foundInfo pk relays topic).queued = (s.flags pk).1 ∧
      (s.foundInfo pk relays topic).connecting = (s.flags pk).2.1 ∧
      (s.foundInfo pk relays topic).waiting = (s.flags pk).2.2 := by
    rw [foundInfo, flags]
    cases s.peers.lookup pk with
    | none | some info => split <;> split <;> exact ⟨rfl, rfl, rfl⟩
  obtain ⟨hq, hc, hw⟩ := hfound
  unfold peerFound
  split
  · exact move_of_frame rfl rfl rfl rfl
  · simp only
    split
    next hcan =>
      rw [canQueue, hq, hc, hw] at hcan
      simp only [Bool.and_eq_true, Bool.not_eq_true'] at hcan
      obtain ⟨⟨⟨hq', hc'⟩, -⟩, hw'⟩ := hcan
      refine .queued pk ?_ ?_ ?_ rfl rfl rfl
      · exact Prod.ext hq' (Prod.ext hc' hw')
      · rw [flags_of_lookup (lookup_insert _)]
        simp only [hc, hw, hc', hw']
      · exact fun pk' hne => flags_congr (lookup_insert_ne hne)
    · refine .frame (fun pk' => ?_) rfl rfl rfl
      by_cases hpk : pk' = pk
      · subst hpk
        rw [flags_of_lookup (lookup_insert _), hq, hc, hw]
      · exact flags_congr (lookup_insert_ne hpk)

section
variable (hd : d ∈ s.dials)
include hd

theorem move_dialEnded (hpeers : ∀ pk, s'.flags pk = (s.dialEnded d).flags pk)
    (hqueue : s'.queue = s.queue) (hdials : s'.dials = s.dials.erase d) (htimers : s'.timers = s.timers) : Move s s' := by
  refine .ended d hd ?_ (fun pk' hne => ?_) hqueue hdials htimers
  · rw [hpeers, dialEnded]
    simp only [flags, lookup_modify]
    cases s.peers.lookup d.publicKey with
    | none => rfl
    | some info => rfl
  · rw [hpeers, dialEnded]
    refine flags_congr ?_
    rw [lookup_modify, if_neg hne]

theorem move_scheduleRetry (draw : Nat × Nat × Nat) :
    Move s ((s.dialEnded d).scheduleRetry d.publicKey draw) := by
  obtain heq | ⟨info, topic, topics, -, -, -, heq⟩ := (s.dialEnded d).scheduleRetry_cases d.publicKey draw
  · rw [heq]
    exact move_dialEnded hd (fun _ => rfl) rfl rfl rfl
  · rw [heq]
    refine .failed d _ hd rfl ?_ (fun pk' hne => ?_) rfl rfl rfl
    · rw [flags_of_lookup (lookup_insert _)]
    · refine flags_congr ?_
      rw [lookup_insert_ne hne, dialEnded, lookup_modify, if_neg hne]

theorem move_takeSlot (now : Nat) : Move s ((s.dialEnded d).takeSlot now d) := by
  refine move_dialEnded hd (fun pk' => ?_) rfl rfl rfl
  rw [takeSlot]
  simp only [flags, lookup_modify]
  split
  · cases (s.dialEnded d).peers.lookup pk' with
    | none => rfl
    | some info => rfl
  · rfl

theorem moves_connectResult (now : Nat) (ok : Bool) (draw : Nat × Nat × Nat) :
    Moves s (s.handleConnectResult now d ok draw) := by
  obtain ⟨-, heq⟩ | ⟨-, existing, -, -, heq⟩ | ⟨-, -, heq⟩ := s.handleConnectResult_cases now d ok draw
  · rw [heq]
    exact .head (move_scheduleRetry hd draw) (moves_attemptConnections _)
  · rw [heq]
    exact .single (move_dialEnded hd (fun _ => rfl) rfl rfl rfl)
  · rw [heq]
    exact .head (move_takeSlot hd now) (moves_attemptConnections _)

end

theorem move_leave (s : SwarmActor) (topic : Topic) : Move s (s.doLeave topic) := by
  unfold doLeave
  split
  · exact move_of_frame rfl rfl rfl rfl
  · refine .frame (fun pk => ?_) rfl rfl rfl
    simp only [flags, lookup_retainMap]
    cases s.peers.lookup pk with
    | none => rfl
    | some info => rfl

theorem moves_step (hash : Bytes → Bytes32) (s : SwarmActor) {e : SwarmEvent} (hno : s.NoRetry e) :
    Moves s (s.step hash e) := by
  have hsame : ∀ {t : SwarmActor}, t.peers = s.peers → t.queue = s.queue → t.dials = s.dials → t.timers = s.timers →
      Moves s t := fun hpeers hqueue hdials htimers => .single (move_of_frame hpeers hqueue hdials htimers)
  cases e with
  | join topic server client =>
    rw [step, doJoin]
    split
    · exact .refl
    · exact hsame rfl rfl rfl rfl
  | leave topic => exact .single (move_leave s topic)
  | flush waiter =>
    rw [step, handleFlush]
    split
    · exact hsame rfl rfl rfl rfl
    · exact hsame rfl rfl rfl rfl
  | peerFound pk relays topic => exact .single (move_peerFound s pk relays topic)
  | refreshComplete topic =>
    rw [step, refreshComplete, checkFlushWaiters]
    have hmark : Move s (s.markRefreshed topic) := move_of_frame rfl rfl rfl rfl
    have hdial := Relation.ReflTransGen.head hmark (moves_attemptConnections (s.markRefreshed topic))
    split
    · exact hdial.tail (move_of_frame rfl rfl rfl rfl)
    · exact hdial
  | retry i =>
    rw [step, hno i rfl]
    exact .refl
  | connectResult now i ok draw =>
    rw [step]
    split
    · exact .refl
    next d hd =>
      exact moves_connectResult (mem_of_getElem? hd) now ok draw
  | _ => exact .single (serverFrame_step hash s rfl).move

/-! ## One place for each peer -/

def queuedCount (s : SwarmActor) (pk : PublicKey) : Nat := s.queue.count pk

def dialCount (s : SwarmActor) (pk : PublicKey) : Nat := (s.dials.map (·.publicKey)).count pk

def timerCount (s : SwarmActor) (pk : PublicKey) : Nat := (s.timers.map (·.publicKey)).count pk

/-- Every peer is in one place at most, and is marked there. -/
structure TrackedAt (s : SwarmActor) (pk : PublicKey) : Prop where
  once : s.queuedCount pk + s.dialCount pk + s.timerCount pk ≤ 1
  queued : 0 < s.queuedCount pk → (s.flags pk).1 = true
  connecting : 0 < s.dialCount pk → (s.flags pk).2.1 = true
  waiting : 0 < s.timerCount pk → (s.flags pk).2.2 = true

def Tracked (s : SwarmActor) : Prop := ∀ pk, s.TrackedAt pk

theorem TrackedAt.congr (h : s.TrackedAt pk) (hqueue : s'.queuedCount pk = s.queuedCount pk)
    (hdials : s'.dialCount pk = s.dialCount pk) (htimers : s'.timerCount pk = s.timerCount pk)
    (hflags : s'.flags pk = s.flags pk) : s'.TrackedAt pk := by
  obtain ⟨honce, hq, hd, ht⟩ := h
  rw [← hqueue, ← hdials, ← htimers] at honce
  rw [← hqueue, ← hflags] at hq
  rw [← hdials, ← hflags] at hd
  rw [← htimers, ← hflags] at ht
  exact ⟨honce, hq, hd, ht⟩

theorem dialCount_append (h : s'.dials = s.dials ++ [d]) (pk : PublicKey) :
    s'.dialCount pk = s.dialCount pk + if d.publicKey = pk then 1 else 0 := by
  rw [dialCount, dialCount, h, map_append, count_append, map_singleton, count_singleton]
  simp only [beq_iff_eq]

theorem timerCount_append (h : s'.timers = s.timers ++ [t]) (pk : PublicKey) :
    s'.timerCount pk = s.timerCount pk + if t.publicKey = pk then 1 else 0 := by
  rw [timerCount, timerCount, h, map_append, count_append, map_singleton, count_singleton]
  simp only [beq_iff_eq]

theorem dialCount_erase (hd : d ∈ s.dials) (h : s'.dials = s.dials.erase d) (pk : PublicKey) :
    s.dialCount pk = s'.dialCount pk + if d.publicKey = pk then 1 else 0 := by
  have hperm := ((perm_cons_erase hd).map (·.publicKey)).count_eq pk
  rw [dialCount, dialCount, h, hperm, map_cons, count_cons]
  simp only [beq_iff_eq]

theorem Tracked.move (h : s.Tracked) (hmove : Move s s') : s'.Tracked := by
  intro pk'
  have hat := h pk'
  cases hmove with
  | frame hflags hqueue hdials htimers =>
    exact hat.congr (by rw [queuedCount, hqueue]; rfl) (by rw [dialCount, hdials]; rfl)
      (by rw [timerCount, htimers]; rfl) (hflags pk')
  | queued pk hfree hpk hflags hqueue hdials htimers =>
    have hd : s'.dialCount pk' = s.dialCount pk' := by rw [dialCount, hdials]; rfl
    have ht : s'.timerCount pk' = s.timerCount pk' := by rw [timerCount, htimers]; rfl
    have hq : s'.queuedCount pk' = s.queuedCount pk' + if pk = pk' then 1 else 0 := by
      rw [queuedCount, queuedCount, hqueue, count_append, count_singleton]
      simp only [beq_iff_eq]
    by_cases heq : pk = pk'
    · subst heq
      -- a peer that is marked nowhere is in no place
      have hzero : s.queuedCount pk = 0 ∧ s.dialCount pk = 0 ∧ s.timerCount pk = 0 := by
        have hmarks := And.intro hat.queued (And.intro hat.connecting hat.waiting)
        rw [hfree] at hmarks
        simp only [Bool.false_eq_true, imp_false, Nat.not_lt, Nat.le_zero] at hmarks
        exact hmarks
      rw [if_pos rfl] at hq
      refine ⟨by omega, fun _ => by rw [hpk], fun _ => by omega, fun _ => by omega⟩
    · rw [if_neg heq] at hq
      exact hat.congr hq hd ht (hflags pk' (Ne.symm heq))
  | dialled d hpk hwaiting hflags hqueue hdials htimers =>
    have hd := dialCount_append hdials pk'
    have ht : s'.timerCount pk' = s.timerCount pk' := by rw [timerCount, htimers]; rfl
    have hq : s.queuedCount pk' = s'.queuedCount pk' + if d.publicKey = pk' then 1 else 0 := by
      rw [queuedCount, queuedCount, hqueue.count_eq, count_cons]
      simp only [beq_iff_eq]
    have honce := hat.once
    by_cases heq : d.publicKey = pk'
    · subst heq
      rw [if_pos rfl] at hq hd
      exact ⟨by omega, fun _ => by omega, fun _ => hpk (hat.queued (by omega)), fun _ => by omega⟩
    · rw [if_neg heq] at hq hd
      exact hat.congr hq.symm hd ht (hflags pk' (Ne.symm heq))
  | ended d hd hwaiting hflags hqueue hdials htimers =>
    have hd := dialCount_erase hd hdials pk'
    have ht : s'.timerCount pk' = s.timerCount pk' := by rw [timerCount, htimers]; rfl
    have hq : s'.queuedCount pk' = s.queuedCount pk' := by rw [queuedCount, hqueue]; rfl
    have honce := hat.once
    by_cases heq : d.publicKey = pk'
    · subst heq
      rw [if_pos rfl] at hd
      exact ⟨by omega, fun _ => by omega, fun _ => by omega, fun _ => by omega⟩
    · rw [if_neg heq] at hd
      exact hat.congr hq hd.symm ht (hflags pk' (Ne.symm heq))
  | failed d t hd ht hwaiting hflags hqueue hdials htimers =>
    have hd := dialCount_erase hd hdials pk'
    have htc := timerCount_append htimers pk'
    rw [ht] at htc
    have hq : s'.queuedCount pk' = s.queuedCount pk' := by rw [queuedCount, hqueue]; rfl
    have honce := hat.once
    by_cases heq : d.publicKey = pk'
    · subst heq
      rw [if_pos rfl] at hd htc
      exact ⟨by omega, fun _ => by omega, fun _ => by omega, fun _ => hwaiting⟩
    · rw [if_neg heq] at hd htc
      exact hat.congr hq hd.symm htc (hflags pk' (Ne.symm heq))

/-! ## Timers -/

theorem waitingHasTimer_iff : s.WaitingHasTimer ↔ ∀ pk, (s.flags pk).2.2 = true → 0 < s.timerCount pk := by
  have hcount : ∀ pk, 0 < s.timerCount pk ↔ ∃ t ∈ s.timers, t.publicKey = pk := fun pk => by
    rw [timerCount, count_pos_iff, mem_map]
  constructor
  · intro h pk hwaiting
    rw [flags] at hwaiting
    cases hinfo : s.peers.lookup pk with
    | none =>
      rw [hinfo] at hwaiting
      cases hwaiting
    | some info =>
      rw [hinfo] at hwaiting
      exact (hcount pk).mpr (h pk info hinfo hwaiting)
  · intro h pk info hinfo hwaiting
    refine (hcount pk).mp (h pk ?_)
    rw [flags_of_lookup hinfo]
    exact hwaiting

/-- A move makes a peer wait only with a new timer, and drops no timer. -/
theorem Move.timers (hmove : Move s s') (pk : PublicKey) : ∃ n, s'.timerCount pk = s.timerCount pk + n ∧
    ((s'.flags pk).2.2 = true ↔ (s.flags pk).2.2 = true ∨ 0 < n) := by
  have hsame : s'.timers = s.timers → s'.timerCount pk = s.timerCount pk + 0 := fun h => by rw [timerCount, h]; rfl
  cases hmove with
  | frame hflags hqueue hdials htimers => exact ⟨0, hsame htimers, by simp [hflags]⟩
  | queued pk' hfree hpk hflags hqueue hdials htimers =>
    refine ⟨0, hsame htimers, ?_⟩
    by_cases heq : pk = pk'
    · simp [heq, hfree, hpk]
    · simp [hflags pk heq]
  | dialled d hpk hwaiting hflags hqueue hdials htimers | ended d hd hwaiting hflags hqueue hdials htimers =>
    refine ⟨0, hsame htimers, ?_⟩
    by_cases heq : pk = d.publicKey
    · simp [heq, hwaiting]
    · simp [hflags pk heq]
  | failed d t hd ht hwaiting hflags hqueue hdials htimers =>
    refine ⟨_, timerCount_append htimers pk, ?_⟩
    by_cases heq : pk = d.publicKey
    · simp [heq, ht, hwaiting]
    · simp [hflags pk heq, ht, Ne.symm heq]

theorem WaitingHasTimer.move (h : s.WaitingHasTimer) (hmove : Move s s') : s'.WaitingHasTimer := by
  rw [waitingHasTimer_iff] at h ⊢
  intro pk hwaiting
  obtain ⟨n, hcount, hwaits⟩ := hmove.timers pk
  rcases hwaits.mp hwaiting with hold | hnew
  · have hpos := h pk hold
    omega
  · omega

theorem tracked_moves (h : s.Tracked ∧ s.WaitingHasTimer) (hmoves : Moves s s') : s'.Tracked ∧ s'.WaitingHasTimer := by
  induction hmoves with
  | refl => exact h
  | tail _ hmove ih => exact ⟨ih.1.move hmove, ih.2.move hmove⟩

theorem Move.waiting (hmove : Move s s') (h : (s.flags pk).2.2 = true) : (s'.flags pk).2.2 = true := by
  obtain ⟨n, -, hwaits⟩ := hmove.timers pk
  exact hwaits.mpr (.inl h)

theorem Tracked.retry (h : s.Tracked) {i : Nat} (ht : s.timers[i]? = some t) :
    ¬ (s.step hash (.retry i)).WaitingHasTimer := by
  have hstep : s.step hash (.retry i) = s.handleRetry i t := by rw [step, ht]
  rw [hstep, waitingHasTimer_iff]
  intro hall
  obtain ⟨hi, hti⟩ := List.getElem?_eq_some_iff.mp ht
  have hperm : s.timers.Perm (t :: s.timers.eraseIdx i) := by
    rw [← hti]
    exact (getElem_cons_eraseIdx_perm hi).symm
  have hcount : s.timerCount t.publicKey = ((s.timers.eraseIdx i).map (·.publicKey)).count t.publicKey + 1 := by
    rw [timerCount, (hperm.map _).count_eq, map_cons, count_cons_self]
  have hwaiting : ((s.handleRetry i t).flags t.publicKey).2.2 = true := by
    exact (move_peerFound _ _ _ _).waiting ((h t.publicKey).waiting (by omega))
  have htimers : (s.handleRetry i t).timers = s.timers.eraseIdx i := (dialFrame_peerFound _ _ _ _).timers
  have hleft := hall t.publicKey hwaiting
  rw [timerCount, htimers] at hleft
  have honce := (h t.publicKey).once
  omega

theorem tracked_new (publicKey : PublicKey) (config : ActorConfig) : (new publicKey config).Tracked := by
  intro pk
  exact ⟨Nat.zero_le _, nofun, nofun, nofun⟩

theorem waitingHasTimer_new (publicKey : PublicKey) (config : ActorConfig) : (new publicKey config).WaitingHasTimer := by
  intro pk info hinfo
  cases (lookup_empty pk).symm.trans hinfo

end SwarmActor
open SwarmActor

/-- **Every peer that waits has a timer, and every timer that fires queues its peer, in just the runs in which no timer
fires.** -/
theorem retried_iff (hash : Bytes → Bytes32) (publicKey : PublicKey) (config : ActorConfig) (es : List SwarmEvent) :
    Visits (step hash) WaitingHasTimer (.new publicKey config) es ∧
      Along (step hash) (RetryQueues hash) (.new publicKey config) es ↔
    Along (step hash) NoRetry (.new publicKey config) es := by
  have hvisits := @visits_iff_along_of _ _ (step hash) (fun s => s.Tracked ∧ s.WaitingHasTimer)
    WaitingHasTimer NoRetry (fun s h => h.2) (fun s e h hno => tracked_moves h (s.moves_step hash hno))
    (fun s e h hq i he => by
      subst he
      by_contra hne
      obtain ⟨t, ht⟩ := Option.ne_none_iff_exists'.mp hne
      exact h.1.retry ht hq)
    (.new publicKey config) ⟨tracked_new publicKey config, waitingHasTimer_new publicKey config⟩ es
  constructor
  · exact fun h => hvisits.mp h.1
  · refine fun h => ⟨hvisits.mpr h, h.imp fun s e hno i t info he ht => ?_⟩
    cases (hno i he).symm.trans ht

def failedDial : List SwarmEvent :=
  [.join (keyOf 9) false true, .peerFound (keyOf 1) [] (keyOf 9), .refreshComplete (keyOf 9),
    .connectResult 0 0 false (0, 0, 0)]

/-- The timer of a failed dial fires: its peer is not queued, waits on, and has no timer any more. -/
theorem retry_in_vain : let s := run (step firstByte) (.new (keyOf 7) {}) failedDial
    let s' := s.step firstByte (.retry 0)
    s.timers.map (·.publicKey) = [keyOf 1] ∧ s.connections.entries = [] ∧ s.flags (keyOf 1) = (false, false, true) ∧
    s'.queue = [] ∧ s'.timers = [] ∧ s'.flags (keyOf 1) = (false, false, true) ∧
    ¬ s.RetryQueues firstByte (.retry 0) ∧ ¬ s'.WaitingHasTimer := by
  intro s s'
  have hqueue : s'.queue = [] := by decide +kernel
  have htimers : s'.timers = [] := by decide +kernel
  have hwaits : s'.flags (keyOf 1) = (false, false, true) := by decide +kernel
  refine ⟨by decide +kernel, by decide +kernel, by decide +kernel, hqueue, htimers, hwaits, fun h => ?_, fun h => ?_⟩
  · have hmem := h 0 ⟨keyOf 1, [], keyOf 9, 15000⟩ ⟨keyOf 1, [], false, false, false, false, false, [keyOf 9], 1, .normal,
      none, true⟩ rfl (by decide +kernel) (by decide +kernel) rfl (by decide +kernel) rfl rfl (by decide +kernel)
    have hmem' : keyOf 1 ∈ s'.queue := hmem
    cases hmem'
  · have hpos := waitingHasTimer_iff.mp h (keyOf 1) (by rw [hwaits])
    cases hpos

/-! ## Dialling goes on -/

/-- A dial that succeeds is thrown away for the connection that is there. -/
def Discarded (s : SwarmActor) (d : Dial) (ok : Bool) : Prop :=
  ok = true ∧ ∃ existing, s.connections.lookup d.publicKey = some existing ∧
    existing.isInitiator = s.dominant d.publicKey

/-- **The result of a dial leaves no peer waiting with a place free just when it is not thrown away, or no peer waits, or
the places of the other dials are as many as there may be.** -/
theorem dialling_continues_iff (s : SwarmActor) (now : Nat) (d : Dial) (ok : Bool) (draw : Nat × Nat × Nat) :
    ((s.handleConnectResult now d ok draw).queue = [] ∨ (s.handleConnectResult now d ok draw).config.maxParallel ≤
        (s.handleConnectResult now d ok draw).activeConnects) ↔
      ¬ Discarded s d ok ∨ s.queue = [] ∨ s.config.maxParallel ≤ s.activeConnects - 1 := by
  obtain ⟨rfl, heq⟩ | ⟨rfl, existing, hexisting, hkept, heq⟩ | ⟨-, htakes, heq⟩ :=
    s.handleConnectResult_cases now d ok draw
  · rw [heq]
    exact iff_of_true (attemptConnections_stops _).symm (.inl fun h => nomatch h.1)
  · -- the handler returns before it dials
    rw [heq, or_iff_right (not_not_intro ⟨rfl, existing, hexisting, hkept⟩)]
    rfl
  · rw [heq]
    exact iff_of_true (attemptConnections_stops _).symm (.inl fun ⟨_, existing, h, hkept⟩ => htakes existing h hkept)

/-- With one dial at a time a second peer waits; the peer that is dialled connects itself first, so that the dial is thrown
away, and nobody is dialled. -/
theorem discarded_stops_dialling :
    let s := run (step firstByte) (.new (keyOf 0) { maxParallel := 1 }) [.join (keyOf 9) false true,
      .peerFound (keyOf 1) [] (keyOf 9), .peerFound (keyOf 2) [] (keyOf 9), .refreshComplete (keyOf 9),
      .handshake 0 (directHandshake (keyOf 1))]
    s.dials.map (·.publicKey) = [keyOf 1] ∧ (s.step firstByte (.connectResult 0 0 true (0, 0, 0))).queue = [keyOf 2] ∧
    (s.step firstByte (.connectResult 0 0 true (0, 0, 0))).activeConnects = 0 := by
  decide +kernel

end Peeroxide.Swarm
