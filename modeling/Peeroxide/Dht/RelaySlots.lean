import Peeroxide.Dht.RelaySteps

/-!
# Session slots

A task that is accepted takes a slot, and releases it when the loop of its session ends. When the remote never opens the
channel, the loop does not start, and the slot is lost.

Main results: `slots_exact_iff`, `slot_lost`.
-/

namespace Peeroxide.Dht
open Lib AList

open BlindRelayServer

namespace RelayService
variable {w w' : RelayService}

/-- The count of sessions is the number of tasks that hold a slot, and that is within the limit. -/
def SlotsExact (w : RelayService) : Prop :=
  w.server.sessionCount.toNat = w.sessions.entries.length ∧
  w.sessions.entries.length ≤ w.server.config.maxSessions.toNat

/-- The step is no failure of a session's wait for its remote. -/
def WaitSucceeds (w : RelayService) (e : RelayEvent) : Prop :=
  ∀ sid, e = .opened sid false → ∀ task, w.sessions.lookup sid = some task → task.opened = true

/-! ## One step -/

inductive SlotsStep (w w' : RelayService) : Prop where
  | kept (hslots : SameSlots w.server w'.server) (hkeys : ∀ s, s ∈ w'.sessions ↔ s ∈ w.sessions)
  | accepted (task : SessionTask) (hfree : w.server.sessionCount < w.server.config.maxSessions)
      (hconfig : w'.server.config = w.server.config) (hcount : w'.server.sessionCount = w.server.sessionCount + 1)
      (hnext : w'.server.nextSessionId = w.server.nextSessionId + 1)
      (hsessions : w'.sessions = w.sessions.insert w.server.nextSessionId task)
  | released (sid : Nat) (task : SessionTask) (htask : w.sessions.lookup sid = some task)
      (hconfig : w'.server.config = w.server.config) (hcount : w'.server.sessionCount = w.server.sessionCount - 1)
      (hnext : w'.server.nextSessionId = w.server.nextSessionId) (hsessions : w'.sessions = w.sessions.erase sid)

theorem Quiet.sameSlots (h : Quiet w w') : SameSlots w.server w'.server := by
  rw [h.server]
  exact ⟨rfl, rfl, rfl⟩

theorem Quiet.mem_iff (h : Quiet w w') (s : Nat) : s ∈ w'.sessions ↔ s ∈ w.sessions := by
  rw [← lookup_isSome, ← lookup_isSome, ← Option.isSome_map, h.sessions,
    Option.isSome_map]

theorem Quiet.slotsStep (h : Quiet w w') : SlotsStep w w' := .kept h.sameSlots h.mem_iff

theorem mem_insert_of_lookup {sid : Nat} {task : SessionTask} (h : w.sessions.lookup sid = some task) (task' : SessionTask)
    (s : Nat) : s ∈ w.sessions.insert sid task' ↔ s ∈ w.sessions := by
  have hmem : sid ∈ w.sessions := Assoc.mem_of_lookup h
  rw [mem_insert]
  exact ⟨fun hs => hs.elim (fun heq => heq ▸ hmem) id, .inr⟩

theorem slotsStep_endSession {sid : Nat} {task : SessionTask} (h : w.running sid = some task) :
    SlotsStep w (w.endSession sid) :=
  .released sid task (running_eq_some.mp h).1 rfl rfl rfl rfl

theorem slotsStep_same (h : w' = w) : SlotsStep w w' := by
  subst h
  exact (Quiet.refl _).slotsStep

theorem slotsStep_message (w : RelayService) (now sid : Nat) (messageType : UInt32) (data : Bytes) :
    SlotsStep w (w.handleMessage now sid messageType data) := by
  obtain h | ⟨task, hrun, ⟨msg, -, -, out, sv', hcall, h⟩ | ⟨msg, -, -, out, sv', hcall, h⟩⟩ :=
    w.handleMessage_cases now sid messageType data
  · exact h.slotsStep
  · have hslots := sameSlots_tryPair hcall
    have hkeys := mem_insert_of_lookup (running_eq_some.mp hrun).1
      { task with pairingCount := out.counts task.pairingCount }
    rw [h]
    cases out.pairing? with
    | none | some m => exact .kept hslots hkeys
  · rw [h]
    exact .kept (sameSlots_unpair hcall) (mem_insert_of_lookup (running_eq_some.mp hrun).1 _)

theorem slotsStep_bridged (w : RelayService) (n : Nat) (transport : Transport) :
    SlotsStep w (w.handleBridged n transport) := by
  obtain ⟨-, h⟩ | ⟨b, w₁, -, -, hquiet, ⟨-, h⟩ | ⟨-, h⟩⟩ := w.handleBridged_cases n transport
  · exact slotsStep_same h
  · rw [h]
    exact .kept hquiet.sameSlots hquiet.mem_iff
  · rw [h]
    exact .kept hquiet.sameSlots hquiet.mem_iff

/-- A step keeps the slots, takes or releases one, or it is a wait that fails and ends a task that holds one. -/
theorem step_slots (w : RelayService) (e : RelayEvent) : (SlotsStep w (w.step e) ∧ WaitSucceeds w e) ∨
    ∃ sid task, w.sessions.lookup sid = some task ∧ ¬ WaitSucceeds w e ∧
      w.step e = { w with sessions := w.sessions.erase sid } := by
  by_cases hfails : ∃ sid, e = .opened sid false
  · obtain ⟨sid, rfl⟩ := hfails
    obtain ⟨hopen, h⟩ | ⟨task, htask, hopened, ⟨hok, -⟩ | ⟨-, h⟩⟩ := w.waitOpened_cases sid false
    · refine .inl ⟨slotsStep_same h, fun s hs task htask => ?_⟩
      cases hs
      exact hopen task htask
    · cases hok
    · refine .inr ⟨sid, task, htask, fun hsucceeds => ?_, h⟩
      cases (hsucceeds sid rfl task htask).symm.trans hopened
  refine .inl ⟨?_, fun sid he => absurd ⟨sid, he⟩ hfails⟩
  cases e with
  | connect now channel =>
    cases channel with
    | false => exact slotsStep_same rfl
    | true =>
      rw [step]
      obtain h | ⟨hfree, h⟩ := w.newSession_cases now
      · exact slotsStep_same h
      · rw [h]
        exact .accepted _ hfree rfl rfl rfl rfl
  | opened sid ok =>
    obtain ⟨-, h⟩ | ⟨task, htask, -, ⟨-, h⟩ | ⟨rfl, -⟩⟩ := w.waitOpened_cases sid ok
    · exact slotsStep_same h
    · rw [step, h]
      exact .kept ⟨rfl, rfl, rfl⟩ (mem_insert_of_lookup htask _)
    · exact absurd ⟨sid, rfl⟩ hfails
  | message now sid messageType data => exact slotsStep_message w now sid messageType data
  | outbound sid sent =>
    obtain h | ⟨task, hrun, -, h⟩ := w.handleOutbound_cases sid sent
    · exact h.slotsStep
    · rw [step, h]
      exact slotsStep_endSession hrun
  | close sid =>
    obtain h | ⟨task, hrun, -, h⟩ := w.close_cases sid
    · exact slotsStep_same h
    · rw [h]
      exact slotsStep_endSession hrun
  | bridged n transport => exact slotsStep_bridged w n transport
  | stored n =>
    obtain h | ⟨b, -, -, h⟩ := w.storeStreams_cases n
    · exact slotsStep_same h
    · rw [step, h]
      exact .kept ⟨rfl, rfl, rfl⟩ fun _ => Iff.rfl
  | activated n =>
    obtain ⟨-, h⟩ | ⟨b, -, -, h⟩ := w.activate_cases n
    · exact slotsStep_same h
    · rw [step, h]
      exact .kept ⟨rfl, rfl, rfl⟩ fun _ => Iff.rfl
  | teardown n =>
    obtain h | ⟨b, -, -, -, h⟩ := w.dropStreams_cases n
    · exact slotsStep_same h
    · rw [step, h]
      exact .kept ⟨rfl, rfl, rfl⟩ fun _ => Iff.rfl
  | sweepExpiredPairings now => exact .kept ⟨rfl, rfl, rfl⟩ fun _ => Iff.rfl
  | sweepIdleSessions now => exact (quiet_sweepIdleSessions w now).slotsStep

/-! ## Runs -/

/-- Ids are not handed out twice, and every task holds a slot. -/
structure SlotsSound (w : RelayService) : Prop where
  fresh : ∀ s ∈ w.sessions, s < w.server.nextSessionId
  held : w.sessions.entries.length ≤ w.server.sessionCount.toNat
  limit : w.server.sessionCount.toNat ≤ w.server.config.maxSessions.toNat

theorem toNat_add_one {m n : UInt64} (h : m < n) : (m + 1).toNat = m.toNat + 1 := by
  have hlt : m.toNat < n.toNat := h
  have hn := n.toNat_lt
  rw [UInt64.toNat_add, UInt64.toNat_one]
  omega

theorem toNat_sub_one {n : UInt64} (h : 0 < n.toNat) : (n - 1).toNat = n.toNat - 1 := by
  have hle : (1 : UInt64) ≤ n := h
  rw [UInt64.toNat_sub_of_le _ _ hle, UInt64.toNat_one]

theorem mem_erase_of_lookup {sid s : Nat} (h : s ∈ w.sessions.erase sid) : s ∈ w.sessions := (mem_erase.mp h).2

theorem SlotsStep.sound (h : SlotsStep w w') (hw : w.SlotsSound) :
    w'.SlotsSound ∧ (w'.server.sessionCount.toNat = w'.sessions.entries.length ↔
      w.server.sessionCount.toNat = w.sessions.entries.length) := by
  obtain ⟨hfresh, hheld, hlimit⟩ := hw
  cases h with
  | kept hslots hkeys =>
    have hlen := Assoc.length_eq_of_mem_iff hkeys
    refine ⟨⟨fun s hs => ?_, ?_, ?_⟩, ?_⟩
    · rw [hslots.nextSessionId]
      exact hfresh s ((hkeys s).mp hs)
    · rw [hslots.sessionCount, hlen]
      exact hheld
    · rw [hslots.sessionCount, hslots.config]
      exact hlimit
    · rw [hslots.sessionCount, hlen]
  | accepted task hfree hconfig hcount hnext hsessions =>
    have hnew : w.server.nextSessionId ∉ w.sessions := fun h => absurd (hfresh _ h) (lt_irrefl _)
    have hlen : w'.sessions.entries.length = w.sessions.entries.length + 1 := by
      rw [hsessions, entries_insert_of_notMem hnew, List.length_cons]
    have hadd := toNat_add_one hfree
    have hlt : w.server.sessionCount.toNat < w.server.config.maxSessions.toNat := hfree
    refine ⟨⟨fun s hs => ?_, ?_, ?_⟩, ?_⟩
    · rw [hsessions, mem_insert] at hs
      rw [hnext]
      rcases hs with rfl | hs
      · exact Nat.lt_succ_self _
      · exact Nat.lt_succ_of_lt (hfresh s hs)
    · rw [hcount]
      omega
    · rw [hcount, hconfig]
      omega
    · rw [hcount]
      omega
  | released sid task htask hconfig hcount hnext hsessions =>
    have hlen : w.sessions.entries.length = w'.sessions.entries.length + 1 := by
      rw [hsessions, ← Assoc.length_erase htask]
    have hsub := toNat_sub_one (n := w.server.sessionCount) (by omega)
    refine ⟨⟨fun s hs => ?_, ?_, ?_⟩, ?_⟩
    · rw [hsessions] at hs
      rw [hnext]
      exact hfresh s (mem_erase_of_lookup hs)
    · rw [hcount]
      omega
    · rw [hcount, hconfig]
      omega
    · rw [hcount]
      omega

theorem slotsSound_step (w : RelayService) (e : RelayEvent) (hw : w.SlotsSound) : (w.step e).SlotsSound := by
  obtain ⟨hstep, -⟩ | ⟨sid, task, htask, -, h⟩ := w.step_slots e
  · exact (hstep.sound hw).1
  · rw [h]
    have hlen := Assoc.length_erase htask
    have hheld := hw.held
    have hleft : (w.sessions.erase sid).entries.length ≤ w.server.sessionCount.toNat := by omega
    exact ⟨fun s hs => hw.fresh s (mem_erase_of_lookup hs), hleft, hw.limit⟩

theorem slotsExact_iff (hw : w.SlotsSound) :
    w.SlotsExact ↔ w.server.sessionCount.toNat = w.sessions.entries.length := by
  refine ⟨And.left, fun h => ⟨h, ?_⟩⟩
  rw [← h]
  exact hw.limit

theorem slotsExact_step_iff (w : RelayService) (e : RelayEvent) (hw : w.SlotsSound) (h : w.SlotsExact) :
    (w.step e).SlotsExact ↔ WaitSucceeds w e := by
  have hcount := (slotsExact_iff hw).mp h
  rw [slotsExact_iff (slotsSound_step w e hw)]
  obtain ⟨hstep, hsucceeds⟩ | ⟨sid, task, htask, hfails, heq⟩ := w.step_slots e
  · exact iff_of_true ((hstep.sound hw).2.mpr hcount) hsucceeds
  · refine iff_of_false (fun hexact => ?_) hfails
    rw [heq] at hexact
    have hlen := Assoc.length_erase htask
    have hexact' : w.server.sessionCount.toNat = (w.sessions.erase sid).entries.length := hexact
    omega

theorem slotsSound_new (config : BlindRelayServerConfig) : (new config).SlotsSound :=
  ⟨nofun, le_refl 0, Nat.zero_le _⟩

end RelayService
open RelayService

/-- **Every slot is held by a task, in every state of a run, just when no wait for a remote fails.** -/
theorem slots_exact_iff (config : BlindRelayServerConfig) (es : List RelayEvent) :
    Visits step SlotsExact (.new config) es ↔
      Along step WaitSucceeds (.new config) es :=
  visits_iff_along slotsSound_step slotsExact_step_iff
    (slotsSound_new config) ⟨rfl, Nat.zero_le _⟩ es

/-- The remote of the only session does not open the channel. -/
def remoteNeverOpens : List RelayEvent := [.connect 0 true, .opened 1 false]

/-- No task is left, and no session is accepted any more. -/
theorem slot_lost : let w := run step (.new { maxSessions := 1 }) remoteNeverOpens
    w.sessions.entries.length = 0 ∧ w.server.sessionCount = 1 ∧ w.server.tryAcceptSession.1 = none ∧ ¬ w.SlotsExact := by
  intro w
  have hlen : w.sessions.entries.length = 0 := by decide +kernel
  have hcount : w.server.sessionCount = 1 := by decide +kernel
  refine ⟨hlen, hcount, by decide +kernel, fun h => ?_⟩
  have hexact := h.1
  cases hexact

end Peeroxide.Dht
