import Mathlib.Algebra.BigOperators.Group.List.Basic
import Peeroxide.DeadDrop.FetchSpec

/-!
# A fetch from a hostile sender

Whatever the tasks return and in whatever order they end, no position is in two ranges at once. That keeps the fetch
within its states, has each position accepted once, and bounds the index chunks that are fetched.

Main result: `fetch_safe`.
-/

namespace Peeroxide.DeadDrop
open Lib Dht Fetch
open List hiding iterate

/-! ## The invariant -/

/-- The range of a task is within `n` positions and its level is below `depth`. -/
def Task.Within (n depth : Nat) : Task → Prop
  | .index _ remaining base stop => remaining < depth ∧ base < stop ∧ stop ≤ n
  | .data _ position => position < n

/-- The position has failed or is done: no task is running for it. -/
def ChunkState.isSettled : ChunkState → Bool
  | .failed _ => true
  | .done => true
  | _ => false

def settledAt (s : Fetch) (position : Nat) : Nat := if (s.states[position]?).any ChunkState.isSettled then 1 else 0

structure Sound (n depth : Nat) (s : Fetch) : Prop where
  length : s.states.length = n
  within : ∀ task ∈ s.tasks, task.Within n depth
  /-- A position is in the range of one task, or is settled, or neither. -/
  once : ∀ position, cover s.tasks position + settledAt s position ≤ 1
  flying : ∀ address position, .data address position ∈ s.tasks → s.states[position]? = some (.inFlight address)
  accepted : ∀ position, s.accepted.count position = if s.states[position]? = some .done then 1 else 0
  inBounds : s.outOfBounds = false

section
variable {n depth : Nat} {s : Fetch}
variable {address : Bytes32} {i position : Nat} {root : RootIndex} {s' : Fetch} {task : Task} {tasks : List Task}

theorem Sound.core (hcore : SameCore s s') (h : Sound n depth s) : Sound n depth s' := by
  refine ⟨?_, ?_, fun position => ?_, ?_, fun position => ?_, ?_⟩
  · rw [hcore.states]
    exact h.length
  · rw [hcore.tasks]
    exact h.within
  · rw [settledAt, hcore.tasks, hcore.states]
    exact h.once position
  · rw [hcore.tasks, hcore.states]
    exact h.flying
  · rw [hcore.accepted, hcore.states]
    exact h.accepted position
  · rw [hcore.outOfBounds]
    exact h.inBounds

theorem Sound.mem_accepted (h : Sound n depth s) : position ∈ s.accepted ↔ s.states[position]? = some .done := by
  rw [← count_pos_iff, h.accepted]
  split <;> rename_i hdone
  · exact iff_of_true Nat.one_pos hdone
  · exact iff_of_false (Nat.lt_irrefl 0) hdone

theorem Sound.removeTask (h : Sound n depth s) : Sound n depth (removeTask s i) := by
  have hmem : ∀ task ∈ s.tasks.eraseIdx i, task ∈ s.tasks := fun _ => mem_of_mem_eraseIdx
  refine ⟨h.length, fun task htask => h.within task (hmem task htask), fun position => ?_,
    fun address position htask => h.flying address position (hmem _ htask), h.accepted, h.inBounds⟩
  have hle : cover (s.tasks.eraseIdx i) position ≤ cover s.tasks position := (eraseIdx_sublist ..).countP_le
  exact (Nat.add_le_add_right hle _).trans (h.once position)

theorem Sound.free (h : Sound n depth s) (htask : s.tasks[i]? = some task)
    (hcovers : task.covers position = true) : cover (s.tasks.eraseIdx i) position = 0 ∧ settledAt s position = 0 := by
  have honce := h.once position
  rw [cover_eraseIdx htask, if_pos hcovers] at honce
  omega

theorem Sound.free_data (h : Sound n depth s) (htask : s.tasks[i]? = some (.data address position)) :
    cover (s.tasks.eraseIdx i) position = 0 ∧ s.states[position]? = some (.inFlight address) :=
  ⟨(h.free htask (decide_eq_true rfl)).1, h.flying address position (mem_of_getElem? htask)⟩

theorem settledAt_eq_zero : settledAt s position = 0 ↔
    s.states[position]? ≠ some .done ∧ ∀ address, s.states[position]? ≠ some (.failed address) := by
  rw [settledAt]
  cases s.states[position]? with
  | none => exact iff_of_true rfl ⟨nofun, nofun⟩
  | some state =>
    cases state with
    | unscheduled | inFlight => exact iff_of_true rfl ⟨nofun, nofun⟩
    | failed address => exact iff_of_false nofun fun h => h.2 address rfl
    | done => exact iff_of_false nofun fun h => h.1 rfl

theorem settledAt_congr (h : s'.states[position]? = s.states[position]?) :
    settledAt s' position = settledAt s position := by rw [settledAt, settledAt, h]

section
variable (h : Sound n depth s)
include h

theorem Sound.spawn (hwithin : ∀ task ∈ tasks, task.Within n depth)
    (hfree : ∀ position, 0 < cover tasks position → cover tasks position = 1 ∧ cover s.tasks position = 0 ∧
      s.states[position]? ≠ some .done ∧
      ∀ address, s.states[position]? = some (.failed address) → .data address position ∈ tasks) :
    Sound n depth (spawn s tasks) := by
  have hflies {address : Bytes32} {position : Nat} (hmem : .data address position ∈ tasks) :
      (launch s.states tasks)[position]? = some (.inFlight address) :=
    launch_of_mem hmem (hfree position (cover_pos_of_data hmem)).1.le (h.length ▸ hwithin _ hmem)
  refine ⟨(length_launch ..).trans h.length, ?_, fun position => ?_, ?_, fun position => ?_, h.inBounds⟩
  · intro task hmem
    exact (mem_append.mp hmem).elim (h.within task) (hwithin task)
  · have hcover : cover (DeadDrop.spawn s tasks).tasks position = cover s.tasks position + cover tasks position :=
      cover_append ..
    rw [hcover]
    by_cases hmem : ∃ address, .data address position ∈ tasks
    · obtain ⟨address, hmem⟩ := hmem
      obtain ⟨hone, hzero, -, -⟩ := hfree position (cover_pos_of_data hmem)
      have hsettled : settledAt (DeadDrop.spawn s tasks) position = 0 := by
        rw [settledAt_eq_zero, DeadDrop.spawn, hflies hmem]
        exact ⟨by simp, by simp⟩
      omega
    · have hsame : (launch s.states tasks)[position]? = s.states[position]? :=
        launch_of_not_mem fun address hdata => hmem ⟨address, hdata⟩
      rw [show settledAt (DeadDrop.spawn s tasks) position = _ from settledAt_congr hsame]
      rcases Nat.eq_zero_or_pos (cover tasks position) with hzero | hpos
      · rw [hzero]
        exact h.once position
      · obtain ⟨hone, hzero, hdone, hfailed⟩ := hfree position hpos
        have hsettled : settledAt s position = 0 :=
          settledAt_eq_zero.mpr ⟨hdone, fun address hstate => hmem ⟨address, hfailed address hstate⟩⟩
        omega
  · intro address position hmem
    rcases mem_append.mp hmem with hold | hnew
    · have hsame : (launch s.states tasks)[position]? = s.states[position]? := by
        refine launch_of_not_mem fun a ha => ?_
        have hpos := cover_pos_of_data hold
        have hzero := (hfree position (cover_pos_of_data ha)).2.1
        omega
      exact hsame.trans (h.flying address position hold)
    · exact hflies hnew
  · show s.accepted.count position = if (launch s.states tasks)[position]? = some .done then 1 else 0
    by_cases hmem : ∃ address, .data address position ∈ tasks
    · obtain ⟨address, hmem⟩ := hmem
      rw [h.accepted, hflies hmem, if_neg (hfree position (cover_pos_of_data hmem)).2.2.1, if_neg (by simp)]
    · rw [launch_of_not_mem fun address hdata => hmem ⟨address, hdata⟩]
      exact h.accepted position

theorem Sound.respawn : Sound n depth s.respawn := by
  rw [respawn_eq]
  refine h.spawn (fun task hmem => ?_) fun position hpos => ?_
  · obtain ⟨address, position, hstate, rfl⟩ := mem_retries.mp hmem
    exact h.length ▸ (List.getElem?_eq_some_iff.mp hstate).1
  · rw [cover_retries] at hpos ⊢
    split at hpos
    next hany =>
      obtain ⟨address, hstate⟩ := any_isFailed.mp hany
      have hsettled : settledAt s position = 1 := by rw [settledAt, hstate]; rfl
      have honce := h.once position
      refine ⟨if_pos hany, by omega, ?_, fun address hstate => mem_retries.mpr ⟨address, position, hstate, rfl⟩⟩
      rw [hstate]
      nofun
    · cases hpos

section
variable (hfree : cover s.tasks position = 0) (hflying : s.states[position]? = some (.inFlight address))
include hfree hflying

theorem Sound.mark {state : ChunkState} (htasks : s'.tasks = s.tasks) (hstates : s'.states = s.states.set position state)
    (hbounds : s'.outOfBounds = s.outOfBounds)
    (haccepted : ∀ p, s'.accepted.count p = s.accepted.count p + if state = .done ∧ p = position then 1 else 0) :
    Sound n depth s' := by
  have hlt : position < s.states.length := (List.getElem?_eq_some_iff.mp hflying).1
  have hsame {p : Nat} (hne : p ≠ position) : s'.states[p]? = s.states[p]? := by
    rw [hstates, getElem?_set_ne hne.symm]
  refine ⟨?_, htasks ▸ h.within, fun p => ?_, ?_, fun p => ?_, hbounds.trans h.inBounds⟩
  · rw [hstates, length_set, h.length]
  · rw [htasks]
    by_cases heq : p = position
    · have hle : settledAt s' p ≤ 1 := by
        rw [settledAt]
        split <;> omega
      rw [heq] at hle ⊢
      omega
    · rw [settledAt_congr (hsame heq)]
      exact h.once p
  · intro address p hmem
    rw [htasks] at hmem
    have hne : p ≠ position := by
      rintro rfl
      exact Nat.ne_of_gt (cover_pos_of_data hmem) hfree
    rw [hsame hne]
    exact h.flying address p hmem
  · rw [haccepted, h.accepted]
    by_cases heq : p = position
    · rw [heq, hstates, getElem?_set_self hlt, hflying]
      simp
    · rw [hsame heq]
      simp [heq]

theorem Sound.failPosition : Sound n depth (failPosition s position address) :=
  h.mark hfree hflying rfl rfl rfl fun p => by rw [if_neg (by simp)]; rfl

theorem Sound.fillPosition (output : OutputSink) (progress : Nat) :
    Sound n depth (fillPosition s position output progress) := by
  refine h.mark hfree hflying rfl rfl rfl fun p => ?_
  simp [DeadDrop.fillPosition, count_singleton, eq_comm (a := p)]

end

end

/-! ## The tasks of an index chunk -/

/-- The tasks have ranges of their own within a range. -/
def Splits (base stop : Nat) (tasks : List Task) : Prop :=
  tasks.Pairwise (fun t u => ∀ position, ¬ (t.covers position ∧ u.covers position)) ∧
    ∀ task ∈ tasks, ∀ position, task.covers position → base ≤ position ∧ position < stop

theorem splits_of_cover {base stop : Nat}
    (h : ∀ position, cover tasks position ≤ if base ≤ position ∧ position < stop then 1 else 0) :
    Splits base stop tasks := by
  induction tasks with
  | nil => exact ⟨.nil, nofun⟩
  | cons task tasks ih =>
    have hcons (position : Nat) : cover tasks position + (if task.covers position then 1 else 0) ≤
        if base ≤ position ∧ position < stop then 1 else 0 := cover_cons task tasks position ▸ h position
    obtain ⟨hpairwise, hinside⟩ := ih fun position => (Nat.le_add_right _ _).trans (hcons position)
    refine ⟨pairwise_cons.mpr ⟨fun other hother position hboth => ?_, hpairwise⟩, ?_⟩
    · have hpos := cover_pos.mpr ⟨other, hother, hboth.2⟩
      have hle := hcons position
      rw [if_pos hboth.1] at hle
      split at hle <;> omega
    · intro other hother position hcovers
      rcases mem_cons.mp hother with rfl | hother
      · have hle := hcons position
        rw [if_pos hcovers] at hle
        split at hle
        · assumption
        · omega
      · exact hinside other hother position hcovers

def Task.Below (remainingDepth : Nat) : Task → Prop
  | .index _ remaining _ _ => remaining + 1 = remainingDepth
  | .data _ _ => remainingDepth = 0

variable {remainingDepth base stop : Nat} {slots : List Bytes32}

section
variable (hsmall : stop + NON_ROOT_INDEX_SLOT_CAP ^ remainingDepth < 2 ^ 64)
include hsmall

theorem splits_childTasks : Splits base stop (childTasks slots remainingDepth base stop) := by
  refine splits_of_cover fun position => ?_
  rw [cover_childTasks hsmall]
  split_ifs <;> omega

theorem below_childTasks : ∀ task ∈ childTasks slots remainingDepth base stop, task.Below remainingDepth := by
  intro task hmem
  cases remainingDepth with
  | zero =>
    obtain ⟨i, address, -, -, rfl⟩ := mem_dataTasks hmem
    rfl
  | succ remaining =>
    rw [childTasks, subtreeSize_eq (by omega)] at hmem
    obtain ⟨i, pk, -, -, rfl⟩ := mem_indexTasks hsmall hmem
    rfl

theorem within_childTasks (hdepth : remainingDepth ≤ depth) (hstop : stop ≤ n) :
    ∀ task ∈ childTasks slots remainingDepth base stop, task.Within n depth := by
  intro task hmem
  cases remainingDepth with
  | zero =>
    obtain ⟨i, address, -, hlt, rfl⟩ := mem_dataTasks hmem
    exact hlt.trans_le hstop
  | succ remaining =>
    rw [childTasks, subtreeSize_eq (by omega)] at hmem
    obtain ⟨i, pk, -, hlt, rfl⟩ := mem_indexTasks hsmall hmem
    have hsize : 0 < NON_ROOT_INDEX_SLOT_CAP ^ (remaining + 1) := Nat.pow_pos (by decide)
    rw [Nat.succ_mul]
    exact ⟨hdepth, by omega, by omega⟩

end

theorem Sound.spawnChildren (h : Sound n depth s) (hsmall : stop + NON_ROOT_INDEX_SLOT_CAP ^ remainingDepth < 2 ^ 64)
    (hdepth : remainingDepth ≤ depth) (hstop : stop ≤ n)
    (hfree : ∀ position, base ≤ position → position < stop → cover s.tasks position = 0 ∧ settledAt s position = 0) :
    Sound n depth (DeadDrop.spawn s (childTasks slots remainingDepth base stop)) := by
  refine h.spawn (within_childTasks hsmall hdepth hstop) fun position hpos => ?_
  rw [cover_childTasks hsmall] at hpos ⊢
  split at hpos
  next hinside =>
    obtain ⟨hcover, hsettled⟩ := hfree position hinside.1 hinside.2.1
    obtain ⟨hdone, hfailed⟩ := settledAt_eq_zero.mp hsettled
    exact ⟨if_pos hinside, hcover, hdone, fun address hstate => absurd hstate (hfailed address)⟩
  · cases hpos

/-! ## What is left to schedule -/

/-- The levels below an index chunk, once for each position, and `c` for the data of each. -/
def Task.weight (c : Nat) : Task → Nat
  | .index _ remaining base stop => (remaining + 1 + c) * (stop - base)
  | .data _ _ => c

def work (c : Nat) (s : Fetch) : Nat := (s.tasks.map (Task.weight c)).sum

def Task.isIndex : Task → Bool
  | .index _ _ _ _ => true
  | .data _ _ => false

theorem weight_dataTasks (c : Nat) (slots : List Bytes32) (base : Nat) :
    ((dataTasks stop slots base).map (Task.weight c)).sum ≤ c * (stop - base) := by
  induction slots generalizing base with
  | nil => exact Nat.zero_le _
  | cons address slots ih =>
    rw [dataTasks]
    split
    · exact Nat.zero_le _
    · have hrest := ih (base + 1)
      have hwidth : stop - base = stop - (base + 1) + 1 := by omega
      rw [map_cons, sum_cons, hwidth, Nat.add_comm]
      exact Nat.add_le_add_right hrest _

theorem weight_childTasks (c : Nat) (hsmall : stop + NON_ROOT_INDEX_SLOT_CAP ^ remainingDepth < 2 ^ 64) :
    ((childTasks slots remainingDepth base stop).map (Task.weight c)).sum ≤ (remainingDepth + c) * (stop - base) := by
  cases remainingDepth with
  | zero =>
    rw [Nat.zero_add]
    exact weight_dataTasks c slots base
  | succ remaining =>
    rw [childTasks, subtreeSize_eq (by omega)]
    exact sum_width_indexTasks hsmall (Task.weight c) (remaining + 1 + c) fun _ _ _ => rfl

theorem work_removeTask (c : Nat) (htask : s.tasks[i]? = some task) :
    work c s = task.weight c + work c (removeTask s i) := by
  rw [work, ← ((perm_eraseIdx htask).map (Task.weight c)).sum_eq, map_cons]
  rfl

theorem Task.Within.le_weight (h : task.Within n depth) (c : Nat) :
    (if task.isIndex then 1 else c) ≤ task.weight c := by
  cases task with
  | index pk remaining base stop => exact Nat.mul_pos (by omega) (Nat.sub_pos_of_lt h.2.1)
  | data address position => exact le_rfl

theorem work_spawn (c : Nat) (s : Fetch) (tasks : List Task) :
    work c (spawn s tasks) = work c s + (tasks.map (Task.weight c)).sum := by
  rw [work, spawn, map_append, sum_append]
  rfl

theorem work_respawn (s : Fetch) : work 0 s.respawn = work 0 s := by
  have hzero : ∀ weight ∈ s.retries.map (Task.weight 0), weight = 0 := by
    intro weight hmem
    obtain ⟨task, htask, rfl⟩ := mem_map.mp hmem
    obtain ⟨address, position, -, rfl⟩ := mem_retries.mp htask
    rfl
  rw [respawn_eq, work_spawn, sum_eq_zero hzero, Nat.add_zero]

/-! ## Results and turns -/

def Fetch.Flow.state : Flow → Fetch
  | .onward s => s
  | .again s => s
  | .abort s => s

theorem settled_of_sound (h : Sound n depth s) (htask : s.tasks[i]? = some task) (fileSize : Nat)
    (result : Option Bytes) (turn : Turn) :
    Settled fileSize (removeTask s i) turn task result ((removeTask s i).settle fileSize task result turn) := by
  refine settle_settled ?_ fileSize result turn
  cases task with
  | index pk remaining base stop =>
    have hstop := (h.within _ (mem_of_getElem? htask)).2.2
    rw [← h.length] at hstop
    exact hstop
  | data address position => exact h.flying address position (mem_of_getElem? htask)

section
variable (h : Sound n depth s) (hroom : n + NON_ROOT_INDEX_SLOT_CAP ^ depth < 2 ^ 64)
include h hroom

theorem Sound.room {pk : Bytes32}
    {remaining : Nat} (hmem : .index pk remaining base stop ∈ s.tasks) :
    stop + NON_ROOT_INDEX_SLOT_CAP ^ remaining < 2 ^ 64 := by
  obtain ⟨hdepth, -, hstop⟩ := h.within _ hmem
  have hpow : NON_ROOT_INDEX_SLOT_CAP ^ remaining ≤ NON_ROOT_INDEX_SLOT_CAP ^ depth :=
    Nat.pow_le_pow_right (by decide) hdepth.le
  omega

theorem settle_sound (htask : s.tasks[i]? = some task) (c fileSize : Nat) (result : Option Bytes) (turn : Turn) :
    Sound n depth ((removeTask s i).settle fileSize task result turn).state ∧
      work c ((removeTask s i).settle fileSize task result turn).state + (if task.isIndex then 1 else c) ≤ work c s := by
  have hremoved : Sound n depth (removeTask s i) := h.removeTask
  have hwithin := h.within task (mem_of_getElem? htask)
  have hwork := work_removeTask c htask
  have hweight := hwithin.le_weight c
  -- a result that leaves the tasks alone, as all but the slots of an index chunk do
  have hleft {s' : Fetch} (htasks : s'.tasks = (removeTask s i).tasks) :
      work c s' + (if task.isIndex then 1 else c) ≤ work c s := by
    rw [hwork, Nat.add_comm, work, htasks]
    exact Nat.add_le_add_right hweight _
  have hsettled := settled_of_sound h htask fileSize result turn
  generalize (removeTask s i).settle fileSize task result turn = flow at hsettled ⊢
  cases hsettled with
  | @scheduled pk remaining base stop bytes slots hdecode =>
    obtain ⟨hdepth, hbase, hstop⟩ := hwithin
    have hsmall := h.room hroom (mem_of_getElem? htask)
    have hcore : SameCore (removeTask s i) { removeTask s i with lastProgressAt := turn.processedAt } :=
      ⟨rfl, rfl, rfl, rfl, rfl⟩
    refine ⟨(hremoved.core hcore).spawnChildren hsmall hdepth.le hstop fun position hle hlt => ?_, ?_⟩
    · exact h.free htask (by simp [Task.covers, hle, hlt])
    · have hchildren : ((childTasks slots remaining base stop).map (Task.weight c)).sum ≤ _ := weight_childTasks c hsmall
      have hsame : work c { removeTask s i with lastProgressAt := turn.processedAt } = work c (removeTask s i) := rfl
      have hlevel : (remaining + 1 + c) * (stop - base) = (remaining + c) * (stop - base) + (stop - base) := by
        rw [Nat.add_right_comm, Nat.succ_mul]
      rw [Flow.state, work_spawn, hwork, hsame, Task.weight, Task.isIndex, if_pos rfl]
      omega
  | @filled address position bytes payload output hdecode haccept =>
    obtain ⟨hfree, hflying⟩ := h.free_data htask
    exact ⟨hremoved.fillPosition hfree hflying output turn.processedAt, hleft rfl⟩
  | @failed address position =>
    obtain ⟨hfree, hflying⟩ := h.free_data htask
    exact ⟨hremoved.failPosition hfree hflying, hleft rfl⟩
  | refused hrefused => exact ⟨hremoved, hleft rfl⟩

end

def takesIndex (s : Fetch) (turn : Turn) : Bool :=
  !s.ended && match turn.joined with
    | .idle => false
    | .panicked i => (s.tasks[i]?).any Task.isIndex
    | .finished i _ => (s.tasks[i]?).any Task.isIndex

theorem takesIndex_le (s : Fetch) (turn : Turn) (htask : s.tasks[i]? = some task)
    (hjoined : turn.joined = .panicked i ∨ ∃ result, turn.joined = .finished i result) :
    (if takesIndex s turn then 1 else 0) ≤ if task.isIndex then 1 else 0 := by
  have himp : takesIndex s turn = true → task.isIndex = true := by
    rw [takesIndex, Bool.and_eq_true]
    rintro ⟨-, hindex⟩
    rcases hjoined with hjoined | ⟨result, hjoined⟩ <;> rw [hjoined] at hindex <;> simpa [htask] using hindex
  split
  next htakes =>
    rw [if_pos (himp htakes)]
  · exact Nat.zero_le _

theorem takesIndex_of_noTurn {turn : Turn} (h : NoTurn s turn) : takesIndex s turn = false := by
  rw [takesIndex]
  rcases h with hended | ⟨i, hnone, hjoined | ⟨result, hjoined⟩⟩
  · rw [hended]
    rfl
  · rw [hjoined]
    simp [hnone]
  · rw [hjoined]
    simp [hnone]

/-- One turn keeps the invariant, and one that takes an index chunk uses up some of what is left to schedule. -/
theorem iterate_sound (h : Sound n depth s) (hroom : n + NON_ROOT_INDEX_SLOT_CAP ^ depth < 2 ^ 64)
    (fileSize chunkTimeout : Nat) (turn : Turn) : Sound n depth (s.iterate fileSize chunkTimeout turn) ∧
      work 0 (s.iterate fileSize chunkTimeout turn) + (if takesIndex s turn then 1 else 0) ≤ work 0 s := by
  have hend {s' : Fetch} {bound : Nat} (hs' : Sound n depth s' ∧ work 0 s' + bound ≤ work 0 s) :
      Sound n depth (s'.endTurn chunkTimeout turn) ∧ work 0 (s'.endTurn chunkTimeout turn) + bound ≤ work 0 s := by
    have hcore := endTurn_core s' chunkTimeout turn
    rw [work, hcore.tasks]
    by_cases hdue : Due s' turn
    · rw [if_pos hdue] at hcore ⊢
      exact ⟨hs'.1.respawn.core hcore, (Nat.add_le_add_right (work_respawn s').le bound).trans hs'.2⟩
    · rw [if_neg hdue] at hcore ⊢
      exact ⟨hs'.1.core hcore, hs'.2⟩
  rcases iterate_cases fileSize chunkTimeout s turn with ⟨hnone, hstay⟩ | ⟨hopen, flow, htaken, hflow⟩
  · rw [hstay, takesIndex_of_noTurn hnone]
    exact ⟨h, le_rfl⟩
  · rw [hflow]
    cases htaken with
    | idle hjoined =>
      have htakes : takesIndex s turn = false := by rw [takesIndex, hjoined, Bool.and_false]
      rw [htakes]
      exact hend ⟨h, le_rfl⟩
    | @panicked i task hjoined htask =>
      refine hend ⟨h.removeTask, ?_⟩
      have hwork := work_removeTask 0 htask
      have hweight := (h.within task (mem_of_getElem? htask)).le_weight 0
      have htakes := takesIndex_le s turn htask (.inl hjoined)
      omega
    | @finished i task result hjoined htask =>
      obtain ⟨hsound, hwork⟩ := settle_sound h hroom htask 0 fileSize result turn
      have htakes := takesIndex_le s turn htask (.inr ⟨result, hjoined⟩)
      have hboth := And.intro hsound ((Nat.add_le_add_left htakes _).trans hwork)
      cases hsettle : (removeTask s i).settle fileSize task result turn with
      | onward s' =>
        rw [hsettle] at hboth
        exact hend hboth
      | again s' =>
        rw [hsettle] at hboth
        exact hboth
      | abort s' =>
        rw [hsettle] at hboth
        have hcore : SameCore s' { s' with hadError := true } := ⟨rfl, rfl, rfl, rfl, rfl⟩
        exact ⟨hboth.1.core hcore, hboth.2⟩

/-! ## Runs -/

theorem room_of_fileSize {fileSize : Nat} (h : fileSize < 2 ^ 64) :
    dataChunkCount fileSize + NON_ROOT_INDEX_SLOT_CAP ^ canonicalDepth (dataChunkCount fileSize) < 2 ^ 64 := by
  have hpow : NON_ROOT_INDEX_SLOT_CAP ^ canonicalDepth (dataChunkCount fileSize) ≤ NON_ROOT_INDEX_SLOT_CAP ^ 10 :=
    Nat.pow_le_pow_right (by decide) (canonicalDepth_dataChunkCount_le h)
  have hcount : dataChunkCount fileSize ≤ 2 ^ 63 := by
    rw [dataChunkCount_eq, divCeil_le_iff (by decide)]
    exact h.le.trans (by decide)
  have hsum : 2 ^ 63 + NON_ROOT_INDEX_SLOT_CAP ^ 10 < 2 ^ 64 := by decide
  omega

def fresh (root : RootIndex) (toFile : Bool) (now : Nat) : Fetch :=
  { states := List.replicate (dataChunkCount root.fileSize) .unscheduled
    output := openOutputSink toFile root.fileSize
    lastProgressAt := now
    lastNeedPublish := now }

theorem start_eq (root : RootIndex) (toFile : Bool) (now : Nat) : start root toFile now = spawn (fresh root toFile now)
    (childTasks root.slots (canonicalDepth (dataChunkCount root.fileSize)) 0 (dataChunkCount root.fileSize)) :=
  scheduleChildren_eq (length_replicate).ge _ _ _

theorem tasks_start (root : RootIndex) (toFile : Bool) (now : Nat) : (start root toFile now).tasks =
    childTasks root.slots (canonicalDepth (dataChunkCount root.fileSize)) 0 (dataChunkCount root.fileSize) := by
  rw [start_eq]
  rfl

theorem fresh_states {toFile : Bool} {now : Nat} {state : ChunkState}
    (h : (fresh root toFile now).states[position]? = some state) : state = .unscheduled :=
  eq_of_mem_replicate (mem_of_getElem? h)

theorem settledAt_fresh (root : RootIndex) (toFile : Bool) (now position : Nat) :
    settledAt (fresh root toFile now) position = 0 := by
  refine settledAt_eq_zero.mpr ⟨fun h => ?_, fun address h => ?_⟩
  · cases fresh_states h
  · cases fresh_states h

theorem fresh_sound (root : RootIndex) (toFile : Bool) (now : Nat) :
    Sound (dataChunkCount root.fileSize) (canonicalDepth (dataChunkCount root.fileSize)) (fresh root toFile now) := by
  refine ⟨length_replicate, nofun, fun position => ?_, nofun, fun position => ?_, rfl⟩
  · rw [settledAt_fresh]
    exact Nat.zero_le _
  · rw [if_neg (settledAt_eq_zero.mp (settledAt_fresh root toFile now position)).1]
    rfl

theorem start_sound (root : RootIndex) (hsize : root.fileSize < 2 ^ 64) (toFile : Bool) (now : Nat) :
    Sound (dataChunkCount root.fileSize) (canonicalDepth (dataChunkCount root.fileSize)) (start root toFile now) := by
  rw [start_eq]
  exact (fresh_sound root toFile now).spawnChildren (room_of_fileSize hsize) le_rfl le_rfl fun position _ _ =>
    ⟨rfl, settledAt_fresh root toFile now position⟩

theorem states_of_exitCode {P : Primitives} {finalizes : Bool}
    (h : Sound (dataChunkCount root.fileSize) depth s) (hexit : s.exitCode P root finalizes = 0) :
    ∀ position < dataChunkCount root.fileSize, s.states[position]? = some .done := by
  intro position hlt
  have hcount : s.doneCount = s.states.length := by
    rw [exitCode] at hexit
    split at hexit
    · cases hexit
    split at hexit
    · cases hexit
    next hcount =>
      exact (not_not.mp hcount).trans h.length.symm
  have hall := countP_eq_length.mp hcount
  have hget := getElem?_eq_getElem (h.length.symm ▸ hlt : position < s.states.length)
  rw [hget]
  exact congrArg some (of_decide_eq_true (hall _ (mem_of_getElem? hget)))

end

/-- What holds in every state of a fetch of `n` positions, in `depth` levels of index chunks. -/
structure Safe (n depth : Nat) (s : Fetch) : Prop where
  /-- Every index into the states was in bounds. -/
  inBounds : s.outOfBounds = false ∧ s.states.length = n
  /-- Every position was accepted at most once. -/
  accepted : s.accepted.Nodup
  /-- The slots of an index chunk, whatever they are, share out its range, one level down. -/
  children : ∀ pk remaining base stop, .index pk remaining base stop ∈ s.tasks → remaining < depth ∧ stop ≤ n ∧
    ∀ slots, ∃ tasks, (s.scheduleChildren slots remaining base stop).tasks = s.tasks ++ tasks ∧
      Splits base stop tasks ∧ ∀ task ∈ tasks, task.Below remaining

theorem Sound.safe {n depth : Nat} {s : Fetch} (h : Sound n depth s)
    (hroom : n + NON_ROOT_INDEX_SLOT_CAP ^ depth < 2 ^ 64) : Safe n depth s := by
  refine ⟨⟨h.inBounds, h.length⟩, nodup_iff_count_le_one.mpr fun position => ?_, ?_⟩
  · rw [h.accepted]
    split <;> omega
  · intro pk remaining base stop hmem
    obtain ⟨hdepth, -, hstop⟩ := h.within _ hmem
    have hsmall := h.room hroom hmem
    refine ⟨hdepth, hstop, fun slots => ⟨childTasks slots remaining base stop, ?_, splits_childTasks hsmall,
      below_childTasks hsmall⟩⟩
    rw [scheduleChildren_eq (h.length.symm ▸ hstop)]
    rfl

theorem openRoot_spec {rootData : Bytes} {timeout : Nat} {root : RootIndex} (h : openRoot rootData timeout = some root) :
    decodeRootIndex rootData = .ok root ∧ root.slots.length = expectedRootSlots (computeLayout root.fileSize) := by
  rw [openRoot] at h
  split at h
  · cases h
  split at h
  · cases h
  next decoded hdecoded =>
    split at h
    · cases h
    next hslots =>
      cases h
      exact ⟨hdecoded, not_not.mp hslots⟩

/-- **Safety against the sender.** For every root that is opened, whatever the tasks return and however the turns go, the
states of the fetch are safe. The slots of the root share out all positions. The index chunks that are taken are at most
as many as levels and positions allow, and the fetch succeeds only with every position done. -/
theorem fetch_safe (P : Primitives) {rootData : Bytes} {timeout : Nat} {root : RootIndex}
    (hroot : openRoot rootData timeout = some root) (toFile finalizes : Bool) (now : Nat) (turns : List Turn) :
    let layout := computeLayout root.fileSize
    let first := start root toFile now
    let step := iterate root.fileSize (timeout * 1000)
    Visits step (Safe layout.dataChunkCount layout.depth) first turns ∧
      (Splits 0 layout.dataChunkCount first.tasks ∧ ∀ task ∈ first.tasks, task.Below layout.depth) ∧
      countSteps step takesIndex first turns ≤ layout.depth * layout.dataChunkCount ∧
      ((run step first turns).exitCode P root finalizes = 0 →
        ∀ position < layout.dataChunkCount, (run step first turns).states[position]? = some .done) := by
  intro layout first step
  have hsize : root.fileSize < 2 ^ 64 := fileSize_lt_of_decode (openRoot_spec hroot).1
  have hroom := room_of_fileSize hsize
  have hfirst : Sound layout.dataChunkCount layout.depth first := start_sound root hsize toFile now
  have hstep (s : Fetch) (turn : Turn) (hs : Sound layout.dataChunkCount layout.depth s) :
      Sound layout.dataChunkCount layout.depth (step s turn) := (iterate_sound hs hroom _ _ turn).1
  refine ⟨(visits_invariant hstep hfirst turns).imp fun s hs => hs.safe hroom, ⟨?_, ?_⟩, ?_, ?_⟩
  · rw [tasks_start]
    exact splits_childTasks hroom
  · rw [tasks_start]
    exact below_childTasks hroom
  · have hall : Along step (fun _ _ => True) first turns := Along.of_forall (fun _ _ _ => trivial) first
    have hcount : countSteps step takesIndex first turns ≤ work 0 first :=
      countSteps_le (I := Sound layout.dataChunkCount layout.depth)
        (fun s turn hs _ => iterate_sound hs hroom _ _ turn) hfirst hall
    refine hcount.trans ?_
    rw [work, tasks_start]
    exact weight_childTasks 0 hroom
  · exact states_of_exitCode (run_invariant hstep hfirst turns)

/-- A root of 31 data chunks under one index chunk, which turns out to name itself. -/
def hostileRoot : RootIndex := ⟨31 * DATA_PAYLOAD_MAX, 0, [copySlot [1]]⟩

def hostileTurns : List Turn :=
  [⟨.finished 0 (some (encodeNonRootIndex [copySlot [1], copySlot [1]])), 1, 1, 1, 1, true⟩,
    ⟨.finished 1 (some [VERSION, 0, 7]), 2, 2, 2, 2, true⟩, ⟨.finished 0 none, 3, 30003, 30004, 4, true⟩]

theorem fetch_safe_hostile :
    openRoot (encodeRootIndex hostileRoot.fileSize 0 hostileRoot.slots) 60 = some hostileRoot ∧
      countSteps (iterate hostileRoot.fileSize 60000) takesIndex (start hostileRoot true 0) hostileTurns ≤ 1 * 31 ∧
      ((run (iterate hostileRoot.fileSize 60000) (start hostileRoot true 0) hostileTurns).exitCode plainPrimitives
          hostileRoot true = 0 → ∀ position < 31, (run (iterate hostileRoot.fileSize 60000) (start hostileRoot true 0)
          hostileTurns).states[position]? = some .done) := by
  have hroot : openRoot (encodeRootIndex hostileRoot.fileSize 0 hostileRoot.slots) 60 = some hostileRoot := by
    decide +kernel
  exact ⟨hroot, (fetch_safe plainPrimitives hroot true true 0 hostileTurns).2.2⟩

end Peeroxide.DeadDrop
