import Peeroxide.DeadDrop.FetchSafety

/-!
# Fetching again what has failed

A position that has failed is fetched again when the next need-list is due. The loop goes on only while tasks are running,
so that it may end before: then the last task ends, no need-list is due yet, and a position is left that has failed.

Main results: `failed_retried_iff`, `failed_not_retried`.
-/

namespace Peeroxide.DeadDrop
open Lib Dht Fetch
open List hiding iterate

def AnyFailed (s : Fetch) : Prop := ∃ address, .failed address ∈ s.states

def NoneLeft (s : Fetch) : Prop := s.hadError = false → s.tasks = [] → ¬ AnyFailed s

/-- The result of a task is no error and nothing more to fetch, and some position has failed, be it that of the task. The
last progress is then at the given time. -/
inductive Quiet (fileSize : Nat) (s : Fetch) (turn : Turn) : Task → Option Bytes → Nat → Prop
  | emptyIndex {pk : Bytes32} {remaining base stop : Nat} {bytes : Bytes} (hdecode : decodeNonRootIndex bytes = .ok [])
      (hfailed : AnyFailed s) : Quiet fileSize s turn (.index pk remaining base stop) (some bytes) turn.processedAt
  | data {address : Bytes32} {position : Nat} {bytes payload : Bytes} {output : OutputSink}
      (hdecode : decodeDataChunk bytes = .ok payload)
      (haccept : s.output.accept position (trimmed fileSize position payload) turn.writes = some output)
      (hfailed : AnyFailed s) : Quiet fileSize s turn (.data address position) (some bytes) turn.processedAt
  | noData {address : Bytes32} {position : Nat} : Quiet fileSize s turn (.data address position) none s.lastProgressAt

/-- The turn takes the only task that is running, and some position is left that has failed. -/
inductive TakesLast (fileSize : Nat) (s : Fetch) (turn : Turn) : Nat → Prop
  | panicked {task : Task} (htasks : s.tasks = [task]) (hjoined : turn.joined = .panicked 0) (hfailed : AnyFailed s) :
      TakesLast fileSize s turn s.lastProgressAt
  | finished {task : Task} {result : Option Bytes} {progress : Nat} (htasks : s.tasks = [task])
      (hjoined : turn.joined = .finished 0 result) (hquiet : Quiet fileSize s turn task result progress) :
      TakesLast fileSize s turn progress

/-- The turn ends the loop with a position that has failed: no need-list is due and the window has not passed. -/
def LosesChunk (fileSize chunkTimeout : Nat) (s : Fetch) (turn : Turn) : Prop :=
  s.hadError = false ∧ ¬ Due s turn ∧ ∃ progress, TakesLast fileSize s turn progress ∧
    turn.windowAt - progress < chunkTimeout

section
variable {n depth fileSize chunkTimeout : Nat} {s : Fetch} {turn : Turn}
variable {address : Bytes32} {flow : Flow} {i position progress : Nat} {result : Option Bytes} {task : Task}

theorem not_anyFailed_respawn (s : Fetch) : ¬ AnyFailed s.respawn := by
  rintro ⟨address, hmem⟩
  obtain ⟨state, -, hstate⟩ := mem_map.mp hmem
  cases state <;> cases hstate

theorem noneLeft_endTurn (s : Fetch) (chunkTimeout : Nat) (turn : Turn) : NoneLeft (s.endTurn chunkTimeout turn) ↔
    ¬ (s.hadError = false ∧ s.tasks = [] ∧ AnyFailed s ∧ ¬ Due s turn ∧
      turn.windowAt - s.lastProgressAt < chunkTimeout) := by
  have hcore := endTurn_core s chunkTimeout turn
  by_cases hdue : Due s turn
  · rw [if_pos hdue] at hcore
    refine iff_of_true (fun _ _ => ?_) fun h => h.2.2.2.1 hdue
    rw [AnyFailed, hcore.states]
    exact not_anyFailed_respawn s
  · rw [if_neg hdue] at hcore
    rw [NoneLeft, AnyFailed, hcore.tasks, hcore.states, hadError_endTurn, Bool.or_eq_false_iff, decide_eq_false_iff_not,
      Nat.not_le]
    tauto

theorem eraseIdx_eq_nil {tasks : List Task} (h : tasks[i]? = some task) :
    tasks.eraseIdx i = [] ↔ tasks = [task] ∧ i = 0 := by
  constructor
  · intro hnil
    have hlt := (List.getElem?_eq_some_iff.mp h).1
    have hlength := length_eraseIdx_of_lt hlt
    rw [hnil, length_nil] at hlength
    obtain rfl : i = 0 := by omega
    obtain ⟨only, rfl⟩ := length_eq_one_iff.mp (show tasks.length = 1 by omega)
    exact ⟨congrArg (· :: []) (Option.some.inj h), rfl⟩
  · rintro ⟨rfl, rfl⟩
    rfl

theorem anyFailed_fillPosition
    (hflying : s.states[position]? = some (.inFlight address)) (output : OutputSink) (progress : Nat) :
    AnyFailed (fillPosition s position output progress) ↔ AnyFailed s := by
  refine exists_congr fun a => ⟨fun hmem => ?_, fun hmem => ?_⟩
  · rcases mem_or_eq_of_mem_set hmem with hmem | heq
    · exact hmem
    · cases heq
  · obtain ⟨p, hstate⟩ := mem_iff_getElem?.mp hmem
    have hne : position ≠ p := by
      rintro rfl
      cases hflying.symm.trans hstate
    exact mem_iff_getElem?.mpr ⟨p, (getElem?_set_ne hne).trans hstate⟩

theorem childTasks_eq_nil (slots : List Bytes32) (remaining : Nat) {base stop : Nat} (h : base < stop) :
    childTasks slots remaining base stop = [] ↔ slots = [] := by
  constructor
  · intro hnil
    cases slots with
    | nil => rfl
    | cons slot slots =>
      cases remaining with
      | zero =>
        rw [childTasks, dataTasks, if_neg (Nat.not_le.mpr h)] at hnil
        cases hnil
      | succ remaining =>
        rw [childTasks, indexTasks, if_neg (Nat.not_le.mpr h)] at hnil
        cases hnil
  · rintro rfl
    cases remaining <;> rfl

theorem not_takesLast_idle (hjoined : turn.joined = .idle) : ¬ TakesLast fileSize s turn progress := by
  rintro (⟨-, hother, -⟩ | ⟨-, hother, -⟩) <;> rw [hjoined] at hother <;> cases hother

theorem not_takesLast_of_noTurn (hopen : s.ended = false) (hnone : NoTurn s turn) :
    ¬ TakesLast fileSize s turn progress := by
  rcases hnone with hended | ⟨i, hi, hjoined⟩
  · rw [hopen] at hended
    cases hended
  · rintro (⟨htasks, hother, -⟩ | ⟨htasks, hother, -⟩) <;> rcases hjoined with hjoined | ⟨result, hjoined⟩ <;>
      rw [hjoined] at hother <;> cases hother <;> rw [htasks] at hi <;> cases hi

theorem takesLast_panicked (hjoined : turn.joined = .panicked i)
    (htask : s.tasks[i]? = some task) : TakesLast fileSize s turn progress ↔
      s.tasks.eraseIdx i = [] ∧ AnyFailed s ∧ progress = s.lastProgressAt := by
  rw [eraseIdx_eq_nil htask]
  constructor
  · rintro (⟨htasks, hjoined', hfailed⟩ | ⟨-, hjoined', -⟩)
    · obtain rfl := Joined.panicked.inj (hjoined.symm.trans hjoined')
      rw [htasks] at htask
      exact ⟨⟨htasks.trans (congrArg (· :: []) (Option.some.inj htask)), rfl⟩, hfailed, rfl⟩
    · cases hjoined.symm.trans hjoined'
  · rintro ⟨⟨htasks, rfl⟩, hfailed, rfl⟩
    exact .panicked htasks hjoined hfailed

theorem takesLast_finished (hjoined : turn.joined = .finished i result) (htask : s.tasks[i]? = some task) :
    TakesLast fileSize s turn progress ↔ s.tasks.eraseIdx i = [] ∧ Quiet fileSize s turn task result progress := by
  rw [eraseIdx_eq_nil htask]
  constructor
  · rintro (⟨-, hjoined', -⟩ | ⟨htasks, hjoined', hquiet⟩)
    · cases hjoined.symm.trans hjoined'
    · obtain ⟨rfl, rfl⟩ := Joined.finished.inj (hjoined.symm.trans hjoined')
      rw [htasks] at htask
      obtain rfl := Option.some.inj htask
      exact ⟨⟨htasks, rfl⟩, hquiet⟩
  · rintro ⟨⟨htasks, rfl⟩, hquiet⟩
    exact .finished htasks hjoined hquiet

/-- A result that is quiet is one after which nothing runs and some position has failed. -/
theorem noneLeft_settled (h : Sound n depth s) (herror : s.hadError = false) (htask : s.tasks[i]? = some task)
    (hsettled : Settled fileSize (removeTask s i) turn task result flow) (chunkTimeout : Nat) :
    NoneLeft (flow.finish chunkTimeout turn) ↔ ¬ (s.tasks.eraseIdx i = [] ∧ ¬ Due s turn ∧
      ∃ progress, Quiet fileSize s turn task result progress ∧ turn.windowAt - progress < chunkTimeout) := by
  have hmem := mem_of_getElem? htask
  cases hsettled with
  | @scheduled pk remaining base stop bytes slots hdecode =>
    rw [Flow.finish, noneLeft_endTurn]
    have hslots := childTasks_eq_nil slots remaining (h.within _ hmem).2.1
    refine not_congr ⟨?_, ?_⟩
    · rintro ⟨-, hnil, ⟨address, hfailed⟩, hdue, hwindow⟩
      obtain ⟨hlast, hchildren⟩ := append_eq_nil_iff.mp hnil
      rw [hchildren] at hfailed
      rw [hslots.mp hchildren] at hdecode
      exact ⟨hlast, hdue, _, .emptyIndex hdecode ⟨address, hfailed⟩, hwindow⟩
    · rintro ⟨hlast, hdue, progress, hquiet, hwindow⟩
      cases hquiet with
      | emptyIndex hdecode' hfailed =>
        obtain rfl := Except.ok.inj (hdecode.symm.trans hdecode')
        have hchildren := hslots.mpr rfl
        refine ⟨herror, append_eq_nil_iff.mpr ⟨hlast, hchildren⟩, ?_, hdue, hwindow⟩
        rw [hchildren]
        exact hfailed
  | @filled address position bytes payload output hdecode haccept =>
    rw [Flow.finish, noneLeft_endTurn]
    have hflying : (removeTask s i).states[position]? = some (.inFlight address) := h.flying address position hmem
    have hfailed := anyFailed_fillPosition hflying output turn.processedAt
    refine not_congr ⟨?_, ?_⟩
    · rintro ⟨-, hlast, hany, hdue, hwindow⟩
      exact ⟨hlast, hdue, _, .data hdecode haccept (hfailed.mp hany), hwindow⟩
    · rintro ⟨hlast, hdue, progress, hquiet, hwindow⟩
      cases hquiet with
      | data hdecode' haccept' hany => exact ⟨herror, hlast, hfailed.mpr hany, hdue, hwindow⟩
  | @failed address position =>
    rw [Flow.finish, noneLeft_endTurn]
    have hlt := (List.getElem?_eq_some_iff.mp (h.flying address position hmem)).1
    have hany : AnyFailed (failPosition (removeTask s i) position address) :=
      ⟨address, mem_iff_getElem?.mpr ⟨position, getElem?_set_self hlt⟩⟩
    refine not_congr ⟨?_, ?_⟩
    · rintro ⟨-, hlast, -, hdue, hwindow⟩
      exact ⟨hlast, hdue, _, .noData, hwindow⟩
    · rintro ⟨hlast, hdue, progress, hquiet, hwindow⟩
      cases hquiet with
      | noData => exact ⟨herror, hlast, hany, hdue, hwindow⟩
  | refused hrefused =>
    refine iff_of_true (fun hfalse => by cases hfalse) ?_
    rintro ⟨-, -, progress, hquiet, -⟩
    cases hquiet with
    | emptyIndex hdecode =>
      obtain ⟨e, he⟩ := hrefused
      cases hdecode.symm.trans he
    | data hdecode haccept =>
      have hnone := hrefused _ hdecode
      cases haccept.symm.trans hnone
    | noData => exact hrefused

theorem not_losesChunk_of_ended (hended : s.ended = true) : ¬ LosesChunk fileSize chunkTimeout s turn := by
  rintro ⟨herror, -, progress, hlast, -⟩
  rw [ended, herror, Bool.false_or, List.isEmpty_iff] at hended
  cases hlast with
  | panicked htasks | finished htasks => cases hended.symm.trans htasks

theorem noneLeft_iterate (h : Sound n depth s) (hopen : s.ended = false) (fileSize chunkTimeout : Nat) (turn : Turn) :
    NoneLeft (s.iterate fileSize chunkTimeout turn) ↔ ¬ LosesChunk fileSize chunkTimeout s turn := by
  obtain ⟨herror, hempty⟩ := Bool.or_eq_false_iff.mp hopen
  have hrunning : s.tasks ≠ [] := isEmpty_eq_false_iff.mp hempty
  rw [LosesChunk]
  rcases iterate_cases fileSize chunkTimeout s turn with ⟨hnone, hstay⟩ | ⟨-, flow, htaken, hflow⟩
  · rw [hstay]
    refine iff_of_true (fun _ hnil => absurd hnil hrunning) ?_
    rintro ⟨-, -, progress, hlast, -⟩
    exact not_takesLast_of_noTurn hopen hnone hlast
  · rw [hflow]
    cases htaken with
    | idle hjoined =>
      rw [Flow.finish, noneLeft_endTurn]
      refine not_congr (iff_of_false (fun hlost => hrunning hlost.2.1) ?_)
      rintro ⟨-, -, progress, hlast, -⟩
      exact not_takesLast_idle hjoined hlast
    | @panicked i task hjoined htask =>
      rw [Flow.finish, noneLeft_endTurn]
      simp only [takesLast_panicked hjoined htask]
      refine not_congr ⟨?_, ?_⟩
      · rintro ⟨-, hlast, hfailed, hdue, hwindow⟩
        exact ⟨herror, hdue, _, ⟨hlast, hfailed, rfl⟩, hwindow⟩
      · rintro ⟨-, hdue, progress, ⟨hlast, hfailed, rfl⟩, hwindow⟩
        exact ⟨herror, hlast, hfailed, hdue, hwindow⟩
    | @finished i task result hjoined htask =>
      rw [noneLeft_settled h herror htask (settled_of_sound h htask fileSize result turn)]
      simp only [takesLast_finished hjoined htask]
      refine not_congr ⟨?_, ?_⟩
      · rintro ⟨hlast, hdue, progress, hquiet, hwindow⟩
        exact ⟨herror, hdue, progress, ⟨hlast, hquiet⟩, hwindow⟩
      · rintro ⟨-, hdue, progress, ⟨hlast, hquiet⟩, hwindow⟩
        exact ⟨hlast, hdue, progress, hquiet, hwindow⟩

/-! ## What has failed is fetched again -/

theorem endTurn_failed (hstate : s.states[position]? = some (.failed address)) (chunkTimeout : Nat) (turn : Turn) :
    (s.endTurn chunkTimeout turn).states[position]? = some (.failed address) ∨
      Due s turn ∧ (s.endTurn chunkTimeout turn).states[position]? = some (.inFlight address) := by
  have hcore := endTurn_core s chunkTimeout turn
  by_cases hdue : Due s turn
  · rw [if_pos hdue] at hcore
    rw [hcore.states, respawn, getElem?_map, hstate]
    exact .inr ⟨hdue, rfl⟩
  · rw [if_neg hdue] at hcore
    rw [hcore.states]
    exact .inl hstate

section
variable (h : Sound n depth s) (hroom : n + NON_ROOT_INDEX_SLOT_CAP ^ depth < 2 ^ 64)
  (hstate : s.states[position]? = some (.failed address))
include h hroom hstate

theorem settled_keeps_failed (htask : s.tasks[i]? = some task)
    (hsettled : Settled fileSize (removeTask s i) turn task result flow) :
    flow.state.states[position]? = some (.failed address) ∧ flow.state.lastNeedPublish = s.lastNeedPublish := by
  have hmem := mem_of_getElem? htask
  -- a task that has the position would be running for a position that has failed
  have hother : ¬ task.covers position = true := by
    intro hcovers
    exact (settledAt_eq_zero.mp (h.free htask hcovers).2).2 address hstate
  cases hsettled with
  | @scheduled pk remaining base stop bytes slots hdecode =>
    refine ⟨(launch_of_not_mem fun a ha => hother ?_).trans hstate, rfl⟩
    have hinside := (splits_childTasks (h.room hroom hmem)).2 _ ha position (decide_eq_true rfl)
    rw [Task.covers, Bool.and_eq_true, decide_eq_true_eq, decide_eq_true_eq]
    exact hinside
  | @filled a p bytes payload output hdecode haccept | @failed a p =>
    have hne : p ≠ position := fun heq => hother (decide_eq_true heq)
    exact ⟨(getElem?_set_ne hne).trans hstate, rfl⟩
  | refused => exact ⟨hstate, rfl⟩

/-- What has failed stays so in a turn, unless the need-list is due: then it is fetched again. -/
theorem failed_step (fileSize chunkTimeout : Nat) (turn : Turn) :
    (s.iterate fileSize chunkTimeout turn).states[position]? = some (.failed address) ∨
      Due s turn ∧ (s.iterate fileSize chunkTimeout turn).states[position]? = some (.inFlight address) := by
  rcases iterate_cases fileSize chunkTimeout s turn with ⟨-, hstay⟩ | ⟨-, flow, htaken, hflow⟩
  · rw [hstay]
    exact .inl hstate
  · have hkeeps : flow.state.states[position]? = some (.failed address) ∧
        flow.state.lastNeedPublish = s.lastNeedPublish := by
      cases htaken with
      | idle | panicked => exact ⟨hstate, rfl⟩
      | @finished i task result hjoined htask =>
        exact settled_keeps_failed h hroom hstate htask (settled_of_sound h htask fileSize result turn)
    rw [hflow]
    cases flow with
    | onward s' =>
      have hdue : Due s' turn ↔ Due s turn := by rw [Due, Due, show s'.lastNeedPublish = _ from hkeeps.2]
      rw [← hdue]
      exact endTurn_failed hkeeps.1 chunkTimeout turn
    | again s' | abort s' => exact .inl hkeeps.1

theorem retried_later {turns : List Turn}
    (hlater : (run (iterate fileSize chunkTimeout) s turns).states[position]? ≠ some (.failed address)) :
    ∃ mid turn rest, turns = mid ++ turn :: rest ∧
      (run (iterate fileSize chunkTimeout) s mid).states[position]? = some (.failed address) ∧
      Due (run (iterate fileSize chunkTimeout) s mid) turn ∧
      (run (iterate fileSize chunkTimeout) s (mid ++ [turn])).states[position]? = some (.inFlight address) := by
  induction turns generalizing s with
  | nil => exact absurd hstate hlater
  | cons turn turns ih =>
    rcases failed_step h hroom hstate fileSize chunkTimeout turn with hsame | ⟨hdue, hagain⟩
    · obtain ⟨mid, turn', rest, rfl, hmid, hdue, hagain⟩ := ih (iterate_sound h hroom _ _ turn).1 hsame hlater
      exact ⟨turn :: mid, turn', rest, rfl, hmid, hdue, hagain⟩
    · exact ⟨[], turn, turns, rfl, hstate, hdue, hagain⟩

end
end
/-- What has failed is fetched again: no run ends, without an error, with a position that has failed, and a position that
has failed is in flight again in a turn with a need-list. -/
structure RetriesAll (step : Fetch → Turn → Fetch) (first : Fetch) (turns : List Turn) : Prop where
  noneLeft : Visits step NoneLeft first turns
  retried : ∀ (before after : List Turn) (position : Nat) (address : Bytes32), turns = before ++ after →
    (run step first before).states[position]? = some (.failed address) →
    (run step first turns).ended = true → (run step first turns).hadError = false →
    ∃ mid turn rest, after = mid ++ turn :: rest ∧
      (run step first (before ++ mid)).states[position]? = some (.failed address) ∧
      Due (run step first (before ++ mid)) turn ∧
      (run step first (before ++ mid ++ [turn])).states[position]? = some (.inFlight address)

/-- **Fetching again.** For every root that is opened, what has failed is fetched again in just the runs in which no turn
takes the last task that is running, without an error and before a need-list is due, while some position has failed. -/
theorem failed_retried_iff {rootData : Bytes} {timeout : Nat} {root : RootIndex}
    (hroot : openRoot rootData timeout = some root) (toFile : Bool) (now : Nat) (turns : List Turn) :
    RetriesAll (iterate root.fileSize (timeout * 1000)) (start root toFile now) turns ↔
      Along (iterate root.fileSize (timeout * 1000)) (fun s turn => ¬ LosesChunk root.fileSize (timeout * 1000) s turn)
        (start root toFile now) turns := by
  have hsize : root.fileSize < 2 ^ 64 := fileSize_lt_of_decode (openRoot_spec hroot).1
  have hroom := room_of_fileSize hsize
  have hfirst := start_sound root hsize toFile now
  have hkeep (s : Fetch) (turn : Turn) (hs : Sound (dataChunkCount root.fileSize) _ s) :=
    (iterate_sound hs hroom root.fileSize (timeout * 1000) turn).1
  have hstart : NoneLeft (start root toFile now) := by
    rintro - - ⟨address, hfailed⟩
    rw [start_eq] at hfailed
    rcases mem_launch hfailed with hmem | ⟨a, ha⟩
    · cases eq_of_mem_replicate hmem
    · cases ha
  have hstep (s : Fetch) (turn : Turn)
      (hs : Sound (dataChunkCount root.fileSize) (canonicalDepth (dataChunkCount root.fileSize)) s) (hnone : NoneLeft s) :
      NoneLeft (s.iterate root.fileSize (timeout * 1000) turn) ↔
        ¬ LosesChunk root.fileSize (timeout * 1000) s turn := by
    cases hended : s.ended with
    | false => exact noneLeft_iterate hs hended _ _ turn
    | true =>
      rw [iterate, if_pos hended]
      exact iff_of_true hnone (not_losesChunk_of_ended hended)
  have hvisits := visits_iff_along hkeep hstep hfirst hstart turns
  refine ⟨fun h => hvisits.mp h.noneLeft, fun h => ⟨hvisits.mpr h, ?_⟩⟩
  rintro before after position address rfl hstate hended herror
  have hnone := (hvisits.mpr h).last herror
  rw [ended, herror, Bool.false_or, List.isEmpty_iff] at hended
  have hlater : (run (iterate root.fileSize (timeout * 1000)) (start root toFile now) (before ++ after)).states[position]? ≠
      some (.failed address) := fun hfailed => hnone hended ⟨address, mem_of_getElem? hfailed⟩
  rw [run_append] at hlater
  obtain ⟨mid, turn, rest, rfl, hmid, hdue, hagain⟩ :=
    retried_later (run_invariant hkeep hfirst before) hroom hstate hlater
  refine ⟨mid, turn, rest, rfl, ?_, ?_, ?_⟩
  · rw [run_append]
    exact hmid
  · rw [run_append]
    exact hdue
  · rw [append_assoc, run_append]
    exact hagain

def twoRoot : RootIndex := ⟨DATA_PAYLOAD_MAX + 1, 0, [copySlot [1], copySlot [2]]⟩

def second (k : Nat) : Turn := ⟨.idle, k * 1000, k * 1000, k * 1000, k * 1000, true⟩

/-- With a timeout of ten seconds, the first chunk comes after nine, and the fetch of the second one fails when its time is
up: ten seconds before the first need-list is due. -/
def lostTurns : List Turn :=
  (List.range 8).map (fun k => second (k + 1)) ++
    [⟨.finished 0 (some (encodeDataChunk 0 (List.replicate DATA_PAYLOAD_MAX 7))), 9000, 9000, 9000, 9000, true⟩,
      second 10, ⟨.finished 0 none, 10001, 10001, 10001, 10001, true⟩]

/-- Two chunks of which the second is lost: the loop ends without an error, and the chunk has failed. -/
theorem failed_not_retried : openRoot (encodeRootIndex twoRoot.fileSize 0 twoRoot.slots) 10 = some twoRoot ∧
      (run (iterate twoRoot.fileSize (10 * 1000)) (start twoRoot true 0) lostTurns).ended = true ∧
      (run (iterate twoRoot.fileSize (10 * 1000)) (start twoRoot true 0) lostTurns).hadError = false ∧
      (run (iterate twoRoot.fileSize (10 * 1000)) (start twoRoot true 0) lostTurns).states =
        [.done, .failed (copySlot [2])] := by
  decide +kernel

/-- With a timeout of twenty seconds a need-list is due when the fetch fails. -/
def keptTurns : List Turn :=
  [⟨.finished 0 (some (encodeDataChunk 0 (List.replicate DATA_PAYLOAD_MAX 7))), 900, 900, 900, 900, true⟩] ++
    (List.range 19).map (fun k => second (k + 1)) ++ [⟨.finished 0 none, 20000, 20000, 20001, 20001, true⟩]

theorem failed_retried_kept : openRoot (encodeRootIndex twoRoot.fileSize 0 twoRoot.slots) 20 = some twoRoot ∧
      RetriesAll (iterate twoRoot.fileSize (20 * 1000)) (start twoRoot true 0) keptTurns := by
  have hroot : openRoot (encodeRootIndex twoRoot.fileSize 0 twoRoot.slots) 20 = some twoRoot := by decide +kernel
  refine ⟨hroot, (failed_retried_iff hroot true 0 keptTurns).mpr (Along.append (Along.append ⟨?_, trivial⟩ ?_) ⟨?_, trivial⟩)⟩
  · rintro ⟨-, -, progress, hlast, -⟩
    have htwo : (start twoRoot true 0).tasks.length = 2 := by decide +kernel
    cases hlast with
    | panicked htasks | finished htasks => rw [htasks] at htwo; cases htwo
  · refine Along.of_forall (fun turn hmem s => ?_) _
    obtain ⟨k, -, rfl⟩ := mem_map.mp hmem
    rintro ⟨-, -, progress, hlast, -⟩
    exact not_takesLast_idle rfl hlast
  · rintro ⟨-, hdue, -⟩
    exact hdue (by decide +kernel)

end Peeroxide.DeadDrop
