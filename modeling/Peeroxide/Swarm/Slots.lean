import Peeroxide.Swarm.ActorSpec

/-!
# Slots of connections

A dial or a handshake that succeeds takes a slot for its peer, and a report about the attempt releases it.

Main results: `within_limit_iff`, `limit_exceeded`, `reports_release_own`, `report_releases_other`, `slots_backed`,
`slot_without_connection`.
-/

namespace Peeroxide.Swarm
open Lib Dht List AList

namespace SwarmActor
variable {s s' s'' : SwarmActor} {hash : Bytes → Bytes32}
variable {d : Dial} {pk : PublicKey}

/-! ## One step -/

structure SlotFrame (s s' : SwarmActor) : Prop where
  publicKey : s'.publicKey = s.publicKey
  config : s'.config = s.config
  connections : s'.connections = s.connections
  serverTasks : s'.serverTasks = s.serverTasks
  failures : s'.failures = s.failures
  delivered : s'.channel.delivered = s.channel.delivered
  nextAttempt : s.nextAttempt ≤ s'.nextAttempt

theorem SlotFrame.refl (s : SwarmActor) : SlotFrame s s := ⟨rfl, rfl, rfl, rfl, rfl, rfl, le_rfl⟩

theorem SlotFrame.trans (h : SlotFrame s s') (h' : SlotFrame s' s'') : SlotFrame s s'' :=
  ⟨h'.publicKey.trans h.publicKey, h'.config.trans h.config, h'.connections.trans h.connections,
    h'.serverTasks.trans h.serverTasks, h'.failures.trans h.failures, h'.delivered.trans h.delivered,
    h.nextAttempt.trans h'.nextAttempt⟩

theorem DialFrame.slotFrame (h : DialFrame s s') : SlotFrame s s' :=
  { h with delivered := by rw [h.channel] }

theorem HandshakeFrame.slotFrame (h : HandshakeFrame s s') : SlotFrame s s' :=
  { h with delivered := by rw [h.channel], nextAttempt := h.nextAttempt.ge }

theorem slotFrame_scheduleRetry (s : SwarmActor) (pk : PublicKey) (draw : Nat × Nat × Nat) :
    SlotFrame s (s.scheduleRetry pk draw) := by
  obtain h | ⟨info, topic, topics, -, -, -, h⟩ := s.scheduleRetry_cases pk draw
  · rw [h]
    exact .refl s
  · rw [h]
    exact { SlotFrame.refl s with }

theorem slotFrame_refreshComplete (s : SwarmActor) (topic : Topic) : SlotFrame s (s.refreshComplete topic) := by
  have hmark : SlotFrame s (s.markRefreshed topic) := { SlotFrame.refl s with }
  refine (hmark.trans (dialFrame_attemptConnections _).slotFrame).trans ?_
  rw [refreshComplete, checkFlushWaiters]
  split
  · exact ⟨rfl, rfl, rfl, rfl, rfl, rfl, le_rfl⟩
  · exact .refl _

inductive SlotStep (s : SwarmActor) (e : SwarmEvent) (s' : SwarmActor) : Prop where
  | frame (h : SlotFrame s s')
  /-- A slot is taken for a peer that dials. -/
  | reserved (pk : PublicKey) (hfree : pk ∉ s.connections) (hroom : s.connections.entries.length < s.config.maxPeers)
      (h : SlotFrame (s.reserve pk) s')
  /-- A dial that succeeded takes the slot. -/
  | dialled (now i : Nat) (draw : Nat × Nat × Nat) (d : Dial) (topics : List Topic)
      (hevent : e = .connectResult now i true draw) (hdial : s.dials[i]? = some d)
      (htakes : ∀ existing, s.connections.lookup d.publicKey = some existing →
        existing.isInitiator ≠ s.dominant d.publicKey)
      (h : SlotFrame { s with
        connections := s.connections.insert d.publicKey ⟨true, d.attempt⟩
        channel := s.channel.trySend ⟨d.publicKey, true, topics, d.attempt⟩ } s')
  | established (i : Nat) (task : ServerTask) (hevent : e = .established i) (htask : s.serverTasks[i]? = some task)
      (h : s' = s.established task)
  | failed (task : ServerTask) (htask : task ∈ s.serverTasks) (h : s' = s.taskFailed task)
  | reported (i : Nat) (task : ServerTask) (hevent : e = .serverFailure i) (htask : s.failures[i]? = some task)
      (h : s' = s.handleServerFailure task)

theorem slotStep_handshake (s : SwarmActor) (now : Nat) (m : Handshake) :
    SlotStep s (.handshake now m) (s.handleServerHandshake hash now m).2 := by
  obtain ⟨t, ht, heq | ⟨pk, -, hfree, hroom, heq | heq⟩⟩ := s.handleServerHandshake_cases hash now m
  · rw [heq]
    exact .frame ht.slotFrame
  · rw [heq]
    exact .frame (ht.slotFrame.trans ⟨rfl, rfl, rfl, rfl, rfl, rfl, le_rfl⟩)
  · rw [heq]
    refine .reserved pk hfree hroom ?_
    have hnext := ht.nextAttempt
    refine ⟨ht.publicKey, ht.config, ?_, ?_, ht.failures, by rw [reserve, reserve, ht.channel], ?_⟩
    · rw [reserve, reserve, ht.connections, hnext]
    · rw [reserve, reserve, ht.serverTasks, hnext]
    · rw [reserve, reserve, hnext]

theorem slotStep_connectResult (s : SwarmActor) (now i : Nat) (ok : Bool) (draw : Nat × Nat × Nat)
    (hd : s.dials[i]? = some d) : SlotStep s (.connectResult now i ok draw) (s.handleConnectResult now d ok draw) := by
  have hended : SlotFrame s (s.dialEnded d) := { SlotFrame.refl s with }
  obtain ⟨-, heq⟩ | ⟨-, existing, -, -, heq⟩ | ⟨rfl, htakes, heq⟩ := s.handleConnectResult_cases now d ok draw
  · rw [heq]
    exact .frame (hended.trans ((slotFrame_scheduleRetry _ _ _).trans (dialFrame_attemptConnections _).slotFrame))
  · rw [heq]
    exact .frame hended
  · rw [heq]
    have htake : SlotFrame { s with
        connections := s.connections.insert d.publicKey ⟨true, d.attempt⟩
        channel := s.channel.trySend ⟨d.publicKey, true, ((s.dialEnded d).peers.lookup d.publicKey).elim [] (·.topics),
          d.attempt⟩ } ((s.dialEnded d).takeSlot now d) := ⟨rfl, rfl, rfl, rfl, rfl, rfl, le_rfl⟩
    exact .dialled now i draw d _ rfl hd htakes (htake.trans (dialFrame_attemptConnections _).slotFrame)

theorem step_slots (hash : Bytes → Bytes32) (s : SwarmActor) (e : SwarmEvent) : SlotStep s e (s.step hash e) := by
  cases e with
  | join topic server client =>
    rw [step, doJoin]
    split
    · exact .frame (.refl s)
    · exact .frame { SlotFrame.refl s with }
  | leave topic =>
    rw [step, doLeave]
    split
    · exact .frame (.refl s)
    · exact .frame { SlotFrame.refl s with }
  | flush waiter =>
    rw [step, handleFlush]
    split
    · exact .frame { SlotFrame.refl s with }
    · exact .frame { SlotFrame.refl s with }
  | peerFound pk relays topic => exact .frame (dialFrame_peerFound s pk relays topic).slotFrame
  | refreshComplete topic => exact .frame (slotFrame_refreshComplete s topic)
  | retry i =>
    rw [step]
    split
    · exact .frame (.refl s)
    · have hdrop : SlotFrame s { s with timers := s.timers.eraseIdx i } := { SlotFrame.refl s with }
      exact .frame (hdrop.trans (dialFrame_peerFound _ _ _ _).slotFrame)
  | connectResult now i ok draw =>
    rw [step]
    split
    · exact .frame (.refl s)
    next d hd =>
      exact slotStep_connectResult s now i ok draw hd
  | handshake now m => exact slotStep_handshake s now m
  | peerHolepunch id payload =>
    cases payload with
    | none => exact .frame (.refl s)
    | some p => exact .frame { SlotFrame.refl s with }
  | punched id =>
    rw [step]
    obtain ⟨-, heq⟩ | ⟨entry, -, ⟨-, heq⟩ | ⟨hfree, hroom, heq⟩⟩ := s.handlePunched_cases id
    · rw [heq]
      exact .frame (.refl s)
    · rw [heq]
      exact .frame { SlotFrame.refl s with }
    · rw [heq]
      exact .reserved entry.remotePk hfree hroom ⟨rfl, rfl, rfl, rfl, rfl, rfl, le_rfl⟩
  | abort id =>
    rw [step, handleAbort]
    split
    · exact .frame (.refl s)
    · exact .frame { SlotFrame.refl s with }
  | established i =>
    rw [step]
    cases htask : s.serverTasks[i]? with
    | none => exact .frame (.refl s)
    | some task => exact .established i task rfl htask rfl
  | taskFailed i =>
    rw [step]
    cases htask : s.serverTasks[i]? with
    | none => exact .frame (.refl s)
    | some task => exact .failed task (mem_of_getElem? htask) rfl
  | serverFailure i =>
    rw [step]
    cases htask : s.failures[i]? with
    | none => exact .frame (.refl s)
    | some task => exact .reported i task rfl htask rfl
  | replySweep now | receive | hangUp => exact .frame { SlotFrame.refl s with }

theorem established_frame (s : SwarmActor) (task : ServerTask) :
    (s.established task).config = s.config ∧ (s.established task).connections = s.connections := by
  unfold established
  split
  · exact ⟨rfl, rfl⟩
  · split
    · exact ⟨rfl, rfl⟩
    · exact ⟨rfl, rfl⟩

/-! ## The limit -/

def WithinLimit (s : SwarmActor) : Prop := s.connections.entries.length ≤ s.config.maxPeers

/-- A dial that succeeds finds a slot of its peer, or one that is free. -/
def DialFits (s : SwarmActor) (e : SwarmEvent) : Prop :=
  ∀ now i draw d, e = .connectResult now i true draw → s.dials[i]? = some d → d.publicKey ∉ s.connections →
    s.connections.entries.length < s.config.maxPeers

theorem config_step (s : SwarmActor) (e : SwarmEvent) : (s.step hash e).config = s.config := by
  cases s.step_slots hash e with
  | frame h | reserved pk hfree hroom h | dialled now i draw d topics hevent hdial htakes h => exact h.config
  | established i task hevent htask h => exact h ▸ (established_frame s task).1
  | failed task htask h | reported i task hevent htask h => exact h ▸ rfl

section
variable {now i : Nat} {draw : Nat × Nat × Nat} (hd : s.dials[i]? = some d) (hfree : d.publicKey ∉ s.connections)
include hd hfree

theorem step_connectResult :
    s.step hash (.connectResult now i true draw) = ((s.dialEnded d).takeSlot now d).attemptConnections := by
  rw [step, hd]
  obtain ⟨h, -⟩ | ⟨-, existing, hc, -⟩ | ⟨-, -, heq⟩ := s.handleConnectResult_cases now d true draw
  · cases h
  · cases (lookup_eq_none.mpr hfree).symm.trans hc
  · exact heq

theorem connections_connectResult :
    (s.step hash (.connectResult now i true draw)).connections = s.connections.insert d.publicKey ⟨true, d.attempt⟩ := by
  rw [step_connectResult hd hfree, (dialFrame_attemptConnections _).connections]
  rfl

end

variable {connections : AList fun _ : PublicKey => ConnectionInfo}

theorem length_insert_of_mem (h : pk ∈ connections) (info : ConnectionInfo) :
    (connections.insert pk info).entries.length = connections.entries.length := by
  refine Assoc.length_eq_of_mem_iff fun a => ?_
  rw [mem_insert]
  exact ⟨fun ha => ha.elim (fun heq => heq ▸ h) id, .inr⟩

theorem length_insert_of_notMem (h : pk ∉ connections) (info : ConnectionInfo) :
    (connections.insert pk info).entries.length = connections.entries.length + 1 := by
  rw [entries_insert_of_notMem h, length_cons]

theorem withinLimit_step (h : s.WithinLimit) (e : SwarmEvent) (hfits : s.DialFits e) : (s.step hash e).WithinLimit := by
  rw [WithinLimit, config_step]
  cases s.step_slots hash e with
  | frame hframe =>
    rw [hframe.connections]
    exact h
  | reserved pk hfree hroom hframe =>
    rw [hframe.connections, reserve, length_insert_of_notMem hfree]
    exact hroom
  | dialled now i draw d topics hevent hdial htakes hframe =>
    rw [hframe.connections]
    by_cases hmem : d.publicKey ∈ s.connections
    · rw [length_insert_of_mem hmem]
      exact h
    · rw [length_insert_of_notMem hmem]
      exact hfits now i draw d hevent hdial hmem
  | established i task hevent htask heq =>
    rw [heq, (established_frame s task).2]
    exact h
  | failed task htask heq =>
    rw [heq]
    exact h
  | reported i task hevent htask heq =>
    rw [heq]
    exact ((kerase_sublist task.remotePk s.connections.entries).length_le).trans h

theorem dialFits_of_withinLimit (e : SwarmEvent) (h : (s.step hash e).WithinLimit) : s.DialFits e := by
  rintro now i draw d rfl hd hfree
  rw [WithinLimit, config_step, connections_connectResult hd hfree, length_insert_of_notMem hfree] at h
  exact h

end SwarmActor

/-- **The slots are within the limit, in every state of a run, just when no dial succeeds that finds its peer without a slot
and all slots taken.** -/
theorem within_limit_iff (hash : Bytes → Bytes32) (publicKey : PublicKey) (config : ActorConfig)
    (es : List SwarmEvent) : Visits (SwarmActor.step hash) SwarmActor.WithinLimit (.new publicKey config) es ↔
      Along (SwarmActor.step hash) SwarmActor.DialFits (.new publicKey config) es :=
  visits_iff_along_of (I := SwarmActor.WithinLimit) (fun _ h => h) (fun _ e h => SwarmActor.withinLimit_step h e)
    (fun _ e _ => SwarmActor.dialFits_of_withinLimit e) (Nat.zero_le _) es

def keyOf (b : UInt8) : PublicKey := .fill b

/-- A hash that tells messages of one byte apart. -/
def firstByte (bs : Bytes) : Bytes32 := keyOf (bs.headD 0)

/-- Two peers are found on a topic and dialled, and both dials succeed. -/
def twoPeersDialled : List SwarmEvent :=
  [.join (keyOf 9) false true, .peerFound (keyOf 1) [] (keyOf 9), .peerFound (keyOf 2) [] (keyOf 9),
    .refreshComplete (keyOf 9), .connectResult 0 0 true (0, 0, 0), .connectResult 0 0 true (0, 0, 0)]

/-- There is one slot, and two are taken. -/
theorem limit_exceeded :
    ((run (SwarmActor.step firstByte) (.new (keyOf 7) { maxPeers := 1 }) twoPeersDialled).connections.entries.length,
      (run (SwarmActor.step firstByte) (.new (keyOf 7) { maxPeers := 1 }) twoPeersDialled).config.maxPeers) =
    (2, 1) := by decide +kernel

namespace SwarmActor
variable {s s' : SwarmActor} {hash : Bytes → Bytes32}
variable {pk : PublicKey} {task : ServerTask}

/-! ## Reports of failure -/

/-- A report that is handled releases no slot but the one of the attempt that it is about. -/
def ReleasesOwn (hash : Bytes → Bytes32) (s : SwarmActor) (e : SwarmEvent) : Prop :=
  ∀ i task info, e = .serverFailure i → s.failures[i]? = some task → s.connections.lookup task.remotePk = some info →
    info.attempt ≠ task.attempt → (s.step hash e).connections.lookup task.remotePk = some info

/-- No dial takes over a slot whose attempt is being established or has failed. -/
def TakesNoOther (s : SwarmActor) (e : SwarmEvent) : Prop :=
  ∀ now i draw d info, e = .connectResult now i true draw → s.dials[i]? = some d →
    s.connections.lookup d.publicKey = some info → info.isInitiator ≠ s.dominant d.publicKey →
    ∀ task ∈ s.serverTasks ++ s.failures, task.attempt ≠ info.attempt

/-- An attempt that can still fail has the slot of its peer. -/
structure ReportsSound (s : SwarmActor) : Prop where
  held : ∀ task ∈ s.serverTasks ++ s.failures, ∃ info, s.connections.lookup task.remotePk = some info ∧
    info.attempt = task.attempt
  fresh : ∀ task ∈ s.serverTasks ++ s.failures, task.attempt < s.nextAttempt
  nodup : (s.serverTasks ++ s.failures).Nodup

section
variable (h : s.ReportsSound)
include h

theorem ReportsSound.frame (hframe : SlotFrame s s') : s'.ReportsSound where
  held := by
    rw [hframe.serverTasks, hframe.failures, hframe.connections]
    exact h.held
  fresh := by
    rw [hframe.serverTasks, hframe.failures]
    exact fun task htask => (h.fresh task htask).trans_le hframe.nextAttempt
  nodup := by
    rw [hframe.serverTasks, hframe.failures]
    exact h.nodup

theorem ReportsSound.ne_of_free (hfree : pk ∉ s.connections)
    (htask : task ∈ s.serverTasks ++ s.failures) : task.remotePk ≠ pk := by
  rintro rfl
  obtain ⟨info, hinfo, -⟩ := h.held task htask
  cases (lookup_eq_none.mpr hfree).symm.trans hinfo

theorem ReportsSound.reserve (hfree : pk ∉ s.connections) : (s.reserve pk).ReportsSound := by
  have hperm : (s.reserve pk).serverTasks ++ s.failures |>.Perm (⟨pk, s.nextAttempt⟩ :: (s.serverTasks ++ s.failures)) := by
    rw [SwarmActor.reserve, append_assoc]
    exact perm_middle
  have hmem : ∀ task, task ∈ (s.reserve pk).serverTasks ++ s.failures →
      task = ⟨pk, s.nextAttempt⟩ ∨ task ∈ s.serverTasks ++ s.failures := fun task htask =>
    mem_cons.mp (hperm.mem_iff.mp htask)
  refine ⟨fun task htask => ?_, fun task htask => ?_, hperm.nodup_iff.mpr (nodup_cons.mpr ⟨fun hin => ?_, h.nodup⟩)⟩
  · obtain rfl | hold := hmem task htask
    · exact ⟨_, lookup_insert _, rfl⟩
    · obtain ⟨info, hinfo, hattempt⟩ := h.held task hold
      refine ⟨info, ?_, hattempt⟩
      rw [SwarmActor.reserve, lookup_insert_ne (h.ne_of_free hfree hold), hinfo]
  · obtain rfl | hold := hmem task htask
    · exact Nat.lt_succ_self _
    · exact Nat.lt_succ_of_lt (h.fresh task hold)
  · exact lt_irrefl _ (h.fresh _ hin)

theorem ReportsSound.dialled {d : Dial} {channel : ConnChannel}
    (hother : ∀ info, s.connections.lookup d.publicKey = some info →
      ∀ task ∈ s.serverTasks ++ s.failures, task.attempt ≠ info.attempt) :
    ReportsSound { s with connections := s.connections.insert d.publicKey ⟨true, d.attempt⟩, channel := channel } := by
  refine ⟨fun task htask => ?_, h.fresh, h.nodup⟩
  obtain ⟨info, hinfo, hattempt⟩ := h.held task htask
  have hne : task.remotePk ≠ d.publicKey := by
    intro heq
    rw [heq] at hinfo
    exact hother info hinfo task htask hattempt.symm
  exact ⟨info, by rw [lookup_insert_ne hne, hinfo], hattempt⟩

theorem ReportsSound.ended {tasks : List ServerTask} (htasks : s'.serverTasks ++ s'.failures = tasks)
    (hsub : tasks.Subperm (s.serverTasks ++ s.failures)) (hconnections : s'.connections = s.connections)
    (hnext : s'.nextAttempt = s.nextAttempt) : s'.ReportsSound := by
  obtain ⟨rest, hperm, hsublist⟩ := hsub
  have hmem : ∀ task ∈ tasks, task ∈ s.serverTasks ++ s.failures := fun task htask =>
    hsublist.subset (hperm.mem_iff.mpr htask)
  refine ⟨fun task htask => ?_, fun task htask => ?_, ?_⟩
  · rw [hconnections]
    exact h.held task (hmem task (htasks ▸ htask))
  · rw [hnext]
    exact h.fresh task (hmem task (htasks ▸ htask))
  · rw [htasks]
    exact hperm.nodup_iff.mp (h.nodup.sublist hsublist)

theorem ReportsSound.established (task : ServerTask) : (s.established task).ReportsSound := by
  have hsub : (s.serverTasks.erase task ++ s.failures).Subperm (s.serverTasks ++ s.failures) :=
    ((erase_sublist).append_right _).subperm
  unfold SwarmActor.established
  split
  · exact h.ended rfl hsub rfl rfl
  · split
    · exact h.ended rfl hsub rfl rfl
    · exact h

theorem ReportsSound.taskFailed (htask : task ∈ s.serverTasks) : (s.taskFailed task).ReportsSound := by
  have hperm : (s.serverTasks.erase task ++ (s.failures ++ [task])).Perm (s.serverTasks ++ s.failures) := by
    calc (s.serverTasks.erase task ++ (s.failures ++ [task])).Perm (s.serverTasks.erase task ++ (task :: s.failures)) :=
          (perm_append_singleton task s.failures).append_left _
      _ |>.Perm (task :: s.serverTasks.erase task ++ s.failures) := perm_middle
      _ |>.Perm (s.serverTasks ++ s.failures) := ((perm_cons_erase htask).symm).append_right _
  exact h.ended rfl hperm.subperm rfl rfl

theorem ReportsSound.reported (htask : task ∈ s.failures) : (s.handleServerFailure task).ReportsSound := by
  have hsub : (s.serverTasks ++ s.failures.erase task).Sublist (s.serverTasks ++ s.failures) :=
    erase_sublist.append_left _
  refine ⟨fun other hother => ?_, fun other hother => h.fresh other (hsub.subset hother), h.nodup.sublist hsub⟩
  obtain ⟨info, hinfo, hattempt⟩ := h.held other (hsub.subset hother)
  have hne : other.remotePk ≠ task.remotePk := by
    intro heq
    -- they would be of one attempt, and so the same
    obtain ⟨info', hinfo', hattempt'⟩ := h.held task (mem_append_right _ htask)
    rw [heq] at hinfo
    cases hinfo.symm.trans hinfo'
    have hsame : other = task := by
      obtain ⟨pk', n'⟩ := task
      cases heq
      cases hattempt.symm.trans hattempt'
      rfl
    subst hsame
    obtain ⟨-, hfailures, hdisjoint⟩ := nodup_append.mp h.nodup
    rcases mem_append.mp hother with htasks | hfailed
    · exact hdisjoint _ htasks _ htask rfl
    · exact (List.Nodup.not_mem_erase hfailures) hfailed
  exact ⟨info, by rw [handleServerFailure, lookup_erase_ne hne, hinfo], hattempt⟩

theorem reportsSound_step (e : SwarmEvent) (htakes : s.TakesNoOther e) : (s.step hash e).ReportsSound := by
  cases s.step_slots hash e with
  | frame hframe => exact h.frame hframe
  | reserved pk hfree hroom hframe => exact (h.reserve hfree).frame hframe
  | dialled now i draw d topics hevent hdial hdominant hframe =>
    exact (h.dialled fun info hinfo => htakes now i draw d info hevent hdial hinfo (hdominant info hinfo)).frame hframe
  | established i task hevent htask heq => exact heq ▸ h.established task
  | failed task htask heq => exact heq ▸ h.taskFailed htask
  | reported i task hevent htask heq => exact heq ▸ h.reported (mem_of_getElem? htask)

theorem ReportsSound.releasesOwn (e : SwarmEvent) : s.ReleasesOwn hash e := by
  rintro i task info rfl htask hinfo hne
  obtain ⟨info', hinfo', hattempt⟩ := h.held task (mem_append_right _ (mem_of_getElem? htask))
  cases hinfo.symm.trans hinfo'
  exact absurd hattempt hne

end

theorem reportsSound_new (publicKey : PublicKey) (config : ActorConfig) : (new publicKey config).ReportsSound :=
  ⟨nofun, nofun, .nil⟩

end SwarmActor

/-- **Where no dial takes over the slot of an attempt that can still fail, a report releases only the slot of the attempt
that it is about.** -/
theorem reports_release_own (hash : Bytes → Bytes32) (publicKey : PublicKey) (config : ActorConfig)
    (es : List SwarmEvent) (h : Along (SwarmActor.step hash) SwarmActor.TakesNoOther (.new publicKey config) es) :
    Along (SwarmActor.step hash) (SwarmActor.ReleasesOwn hash) (.new publicKey config) es :=
  h.of_invariant (I := SwarmActor.ReportsSound) (fun _ e hs ht => ⟨SwarmActor.reportsSound_step hs e ht, hs.releasesOwn e⟩)
    (SwarmActor.reportsSound_new publicKey config)

/-! ### A peer that dials -/

theorem length_singleton_lt (b : UInt8) : [b].length < 2 ^ 64 := by
  rw [length_singleton]
  decide

/-- A handshake that reaches the actor directly and is answered. -/
def directHandshake (pk : PublicKey) : Handshake where
  noise := ⟨[pk.1.headD 0], length_singleton_lt _⟩
  mode := MODE_FROM_CLIENT
  peerAddress := none
  payload := some ⟨1, 0, 0, none, [], [], some ⟨1, true, 1, 0⟩, none, none, none⟩
  firewall := 0
  setup := .failed
  reply := some ⟨[2], length_singleton_lt 2⟩
  remotePk := some pk

/-- The connection of a peer that dials is not established, and its slot is released. -/
def serverFails : List SwarmEvent := [.handshake 0 (directHandshake (keyOf 1)), .taskFailed 0, .serverFailure 0]

theorem reports_release_own_serverFails :
    Along (SwarmActor.step firstByte) (SwarmActor.ReleasesOwn firstByte) (.new (keyOf 7) {}) serverFails ∧
    (run (SwarmActor.step firstByte) (.new (keyOf 7) {}) (serverFails.take 2)).connections.entries =
      [⟨keyOf 1, ⟨false, 0⟩⟩] ∧
    (run (SwarmActor.step firstByte) (.new (keyOf 7) {}) serverFails).connections.entries = [] := by
  refine ⟨reports_release_own _ _ _ _ ⟨?_, ?_, ?_, trivial⟩, by decide +kernel, by decide +kernel⟩
  · exact fun now i draw d info he => nomatch he
  · exact fun now i draw d info he => nomatch he
  · exact fun now i draw d info he => nomatch he

/-- A peer is dialled and dials at the same time; the dial of the actor, whose key is the greater one, succeeds, and the
other connection is not established. -/
def bothDial : List SwarmEvent :=
  [.join (keyOf 9) false true, .peerFound (keyOf 1) [] (keyOf 9), .refreshComplete (keyOf 9),
    .handshake 0 (directHandshake (keyOf 1)), .connectResult 0 0 true (0, 0, 0), .taskFailed 0]

/-- The report of the attempt that was replaced releases the slot of the dial, whose connection was delivered. -/
theorem report_releases_other : let s := run (SwarmActor.step firstByte) (.new (keyOf 7) {}) bothDial
    s.connections.lookup (keyOf 1) = some ⟨true, 0⟩ ∧ s.failures = [⟨keyOf 1, 1⟩] ∧
    (s.step firstByte (.serverFailure 0)).connections.lookup (keyOf 1) = none ∧
    ¬ SwarmActor.ReleasesOwn firstByte s (.serverFailure 0) := by
  intro s
  have hslot : s.connections.lookup (keyOf 1) = some ⟨true, 0⟩ := by decide +kernel
  have hfailures : s.failures = [⟨keyOf 1, 1⟩] := by decide +kernel
  have hafter : (s.step firstByte (.serverFailure 0)).connections.lookup (keyOf 1) = none := by decide +kernel
  refine ⟨hslot, hfailures, hafter, fun h => ?_⟩
  have hkept := h 0 ⟨keyOf 1, 1⟩ ⟨true, 0⟩ rfl (by rw [hfailures]; rfl) hslot (by decide)
  cases hafter.symm.trans hkept

namespace SwarmActor
variable {s s' : SwarmActor} {hash : Bytes → Bytes32}

/-! ## Connections behind the slots -/

/-- The connection of a slot was delivered, or its task has not ended or its report is not handled yet. -/
def SlotsBacked (s : SwarmActor) : Prop :=
  ∀ pk info, s.connections.lookup pk = some info →
    (∃ conn ∈ s.channel.delivered, conn.remotePublicKey = pk ∧ conn.isInitiator = info.isInitiator ∧
      conn.attempt = info.attempt) ∨
    info.isInitiator = false ∧ ⟨pk, info.attempt⟩ ∈ s.serverTasks ++ s.failures

/-- A dial that takes a slot finds room in the channel, and a task that has a connection finds the channel open. -/
structure Fits (s : SwarmActor) (e : SwarmEvent) : Prop where
  dialled : ∀ now i draw d, e = .connectResult now i true draw → s.dials[i]? = some d →
    (∀ info, s.connections.lookup d.publicKey = some info → info.isInitiator ≠ s.dominant d.publicKey) →
    s.channel.hasRoom = true
  established : ∀ i task, e = .established i → s.serverTasks[i]? = some task → s.channel.open_ = true

section
variable (h : s.SlotsBacked)
include h

theorem SlotsBacked.frame (hframe : SlotFrame s s') : s'.SlotsBacked := by
  rw [SlotsBacked, hframe.connections, hframe.delivered, hframe.serverTasks, hframe.failures]
  exact h

theorem SlotsBacked.reserve (pk : PublicKey) : (s.reserve pk).SlotsBacked := by
  intro pk' info hinfo
  obtain ⟨rfl, rfl⟩ | hold := Assoc.lookup_insert_some hinfo
  · right
    exact ⟨rfl, mem_append_left _ (mem_append_right _ (mem_singleton_self _))⟩
  · refine (h pk' info hold).imp id (And.imp_right fun hmem => ?_)
    rcases mem_append.mp hmem with htask | hfailed
    · exact mem_append_left _ (mem_append_left _ htask)
    · exact mem_append_right _ hfailed

theorem SlotsBacked.dialled {d : Dial} (topics : List Topic) (hroom : s.channel.hasRoom = true) : SlotsBacked { s with
      connections := s.connections.insert d.publicKey ⟨true, d.attempt⟩
      channel := s.channel.trySend ⟨d.publicKey, true, topics, d.attempt⟩ } := by
  have hdelivered : (s.channel.trySend ⟨d.publicKey, true, topics, d.attempt⟩).delivered =
      s.channel.delivered ++ [⟨d.publicKey, true, topics, d.attempt⟩] := by
    rw [ConnChannel.trySend, if_pos hroom]
    rfl
  intro pk info hinfo
  simp only [hdelivered]
  obtain ⟨rfl, rfl⟩ | hold := Assoc.lookup_insert_some hinfo
  · exact .inl ⟨_, mem_append_right _ (mem_singleton_self _), rfl, rfl, rfl⟩
  · refine (h pk info hold).imp (fun hconn => ?_) id
    obtain ⟨conn, hmem, hsame⟩ := hconn
    exact ⟨conn, mem_append_left _ hmem, hsame⟩

theorem SlotsBacked.established {task : ServerTask} (hopen : s.channel.open_ = true) :
    (s.established task).SlotsBacked := by
  unfold SwarmActor.established
  rw [hopen, if_neg (by decide)]
  split
  · intro pk info hinfo
    obtain ⟨conn, hmem, hsame⟩ | ⟨hserver, hmem⟩ := h pk info hinfo
    · exact .inl ⟨conn, mem_append_left _ hmem, hsame⟩
    · by_cases heq : task = ⟨pk, info.attempt⟩
      · subst heq
        exact .inl ⟨_, mem_append_right _ (mem_singleton_self _), rfl, hserver.symm, rfl⟩
      · refine .inr ⟨hserver, ?_⟩
        rcases mem_append.mp hmem with htask | hfailed
        · exact mem_append_left _ ((mem_erase_of_ne (Ne.symm heq)).mpr htask)
        · exact mem_append_right _ hfailed
  · exact h

theorem SlotsBacked.taskFailed (task : ServerTask) : (s.taskFailed task).SlotsBacked := by
  intro pk info hinfo
  refine (h pk info hinfo).imp id (And.imp_right fun hmem => ?_)
  by_cases heq : task = ⟨pk, info.attempt⟩
  · subst heq
    exact mem_append_right _ (mem_append_right _ (mem_singleton_self _))
  · rcases mem_append.mp hmem with htask | hfailed
    · exact mem_append_left _ ((mem_erase_of_ne (Ne.symm heq)).mpr htask)
    · exact mem_append_right _ (mem_append_left _ hfailed)

theorem SlotsBacked.reported (task : ServerTask) : (s.handleServerFailure task).SlotsBacked := by
  intro pk info hinfo
  obtain ⟨hne, hold⟩ := Assoc.lookup_erase_some hinfo
  refine (h pk info hold).imp id (And.imp_right fun hmem => ?_)
  rcases mem_append.mp hmem with htask | hfailed
  · exact mem_append_left _ htask
  · refine mem_append_right _ ((mem_erase_of_ne ?_).mpr hfailed)
    rintro rfl
    exact hne rfl

theorem slotsBacked_step (e : SwarmEvent) (hfits : s.Fits e) : (s.step hash e).SlotsBacked := by
  cases s.step_slots hash e with
  | frame hframe => exact h.frame hframe
  | reserved pk hfree hroom hframe => exact (h.reserve pk).frame hframe
  | dialled now i draw d topics hevent hdial htakes hframe =>
    exact (h.dialled topics (hfits.dialled now i draw d hevent hdial htakes)).frame hframe
  | established i task hevent htask heq => exact heq ▸ h.established (hfits.established i task hevent htask)
  | failed task htask heq => exact heq ▸ h.taskFailed task
  | reported i task hevent htask heq => exact heq ▸ h.reported task

end

theorem slotsBacked_new (publicKey : PublicKey) (config : ActorConfig) : (new publicKey config).SlotsBacked := by
  intro pk info hinfo
  cases (lookup_empty pk).symm.trans hinfo

end SwarmActor
open SwarmActor

/-- **Where every dial that takes a slot finds room in the channel and every task finds it open, each slot has a connection
that was delivered or a task that is not done.** -/
theorem slots_backed (hash : Bytes → Bytes32) (publicKey : PublicKey) (config : ActorConfig)
    (es : List SwarmEvent) (h : Along (step hash) Fits (.new publicKey config) es) :
    Visits (step hash) SlotsBacked (.new publicKey config) es :=
  h.visits (I := SlotsBacked) (fun _ e hs hf => slotsBacked_step hs e hf) (fun _ hs => hs)
    (slotsBacked_new publicKey config)

def serverAccepts : List SwarmEvent := [.handshake 0 (directHandshake (keyOf 1)), .established 0]

theorem slots_backed_serverAccepts :
    Visits (step firstByte) SlotsBacked (.new (keyOf 7) {}) serverAccepts ∧
    (run (step firstByte) (.new (keyOf 7) {}) serverAccepts).connections.entries =
      [⟨keyOf 1, ⟨false, 0⟩⟩] := by
  refine ⟨slots_backed _ _ _ _ ⟨⟨nofun, nofun⟩, ⟨nofun, fun i task _ _ => ?_⟩, trivial⟩, by decide +kernel⟩
  decide +kernel

/-- A peer is dialled, and the application drops its end of the channel before the dial succeeds. -/
def hungUpDial : List SwarmEvent :=
  [.join (keyOf 9) false true, .peerFound (keyOf 1) [] (keyOf 9), .refreshComplete (keyOf 9), .hangUp]

/-- The connection of the dial is dropped, and its slot stays taken. -/
theorem slot_without_connection :
    let s := run (step firstByte) (.new (keyOf 7) {}) (hungUpDial ++ [.connectResult 0 0 true (0, 0, 0)])
    s.connections.lookup (keyOf 1) = some ⟨true, 0⟩ ∧ s.serverTasks = [] ∧ s.failures = [] ∧ s.channel.delivered = [] ∧
    ¬ s.SlotsBacked := by
  intro s
  have hslot : s.connections.lookup (keyOf 1) = some ⟨true, 0⟩ := by decide +kernel
  have hnone : s.channel.delivered = [] := by decide +kernel
  refine ⟨hslot, by decide +kernel, by decide +kernel, hnone, fun h => ?_⟩
  obtain ⟨conn, hmem, -⟩ | ⟨hserver, -⟩ := h _ _ hslot
  · cases hmem
  · cases hserver

end Peeroxide.Swarm
