import Mathlib.Data.List.Perm.Basic
import Peeroxide.DeadDrop.Fetch

/-!
# What one turn of the fetch does

* `childTasks` : the tasks of the slots of an index chunk; `spawn` : tasks are started, and the positions of data are in
  flight; `scheduleChildren_eq`, `respawn_eq` : scheduling and fetching again are starts of tasks;
* `cover tasks p` : how many tasks have position `p` in their range; `cover_childTasks`, `cover_retries`.
-/

namespace Peeroxide.DeadDrop
open Lib Dht Fetch
open List hiding iterate
variable {address : Bytes32} {i position stop : Nat} {s s' : Fetch} {states : List ChunkState} {task : Task}
  {tasks : List Task}

/-! ## Tasks and their positions -/

def Task.covers (position : Nat) : Task → Bool
  | .index _ _ base stop => base ≤ position && position < stop
  | .data _ p => p = position

def cover (tasks : List Task) (position : Nat) : Nat := tasks.countP (Task.covers position)

theorem cover_nil (position : Nat) : cover [] position = 0 := rfl

theorem cover_cons (task : Task) (tasks : List Task) (position : Nat) :
    cover (task :: tasks) position = cover tasks position + if task.covers position then 1 else 0 :=
  countP_cons

theorem cover_append (ts us : List Task) (position : Nat) :
    cover (ts ++ us) position = cover ts position + cover us position :=
  countP_append

theorem cover_pos : 0 < cover tasks position ↔ ∃ task ∈ tasks, task.covers position = true :=
  countP_pos_iff

theorem cover_pos_of_data (h : .data address position ∈ tasks) : 0 < cover tasks position :=
  cover_pos.mpr ⟨.data address position, h, decide_eq_true rfl⟩

theorem perm_eraseIdx (h : tasks[i]? = some task) : (task :: tasks.eraseIdx i).Perm tasks := by
  obtain ⟨hi, rfl⟩ := List.getElem?_eq_some_iff.mp h
  exact getElem_cons_eraseIdx_perm hi

theorem cover_eraseIdx (h : tasks[i]? = some task) (position : Nat) :
    cover tasks position = cover (tasks.eraseIdx i) position + if task.covers position then 1 else 0 := by
  rw [← cover_cons]
  exact ((perm_eraseIdx h).countP_eq _).symm

/-! ## The tasks of the slots -/

def dataTasks (stop : Nat) : List Bytes32 → Nat → List Task
  | [], _ => []
  | address :: slots, pos => if pos ≥ stop then [] else .data address pos :: dataTasks stop slots (pos + 1)

def indexTasks (remaining size stop : Nat) : List Bytes32 → Nat → List Task
  | [], _ => []
  | pk :: slots, base =>
    if base ≥ stop then []
    else
      let next := min ((base + size) % 2 ^ 64) stop
      .index pk remaining base next :: indexTasks remaining size stop slots next

def childTasks (slots : List Bytes32) (remainingDepth base stop : Nat) : List Task :=
  match remainingDepth with
  | 0 => dataTasks stop slots base
  | remaining + 1 => indexTasks remaining (subtreeSize (remaining + 1)) stop slots base

def launch (states : List ChunkState) (tasks : List Task) : List ChunkState :=
  tasks.foldl (fun states task =>
    match task with
    | .data address position => states.set position (.inFlight address)
    | .index _ _ _ _ => states) states

def spawn (s : Fetch) (tasks : List Task) : Fetch := { s with tasks := s.tasks ++ tasks, states := launch s.states tasks }

theorem scheduleData_eq (hstop : stop ≤ s.states.length) (slots : List Bytes32) (pos : Nat) :
    scheduleData stop slots pos s = spawn s (dataTasks stop slots pos) := by
  induction slots generalizing s pos with
  | nil => rw [dataTasks, spawn, append_nil]; rfl
  | cons address slots ih =>
    rw [scheduleData, dataTasks]
    split
    · rw [spawn, append_nil]
      rfl
    next hpos =>
      rw [setState, if_pos (by omega), ih (by rw [length_set]; exact hstop), spawn, append_assoc]
      rfl

theorem launch_indexTasks (states : List ChunkState) (remaining size stop : Nat) (slots : List Bytes32) (base : Nat) :
    launch states (indexTasks remaining size stop slots base) = states := by
  induction slots generalizing base with
  | nil => rfl
  | cons pk slots ih =>
    rw [indexTasks]
    split
    · rfl
    · exact ih _

theorem scheduleIndex_eq (s : Fetch) (remaining size stop : Nat) (slots : List Bytes32) (base : Nat) :
    scheduleIndex remaining size stop slots base s = spawn s (indexTasks remaining size stop slots base) := by
  rw [spawn, launch_indexTasks]
  induction slots generalizing s base with
  | nil => rw [scheduleIndex, indexTasks, append_nil]
  | cons pk slots ih =>
    rw [scheduleIndex, indexTasks]
    split
    · rw [append_nil]
    · rw [ih, append_assoc, singleton_append]

theorem scheduleChildren_eq (hstop : stop ≤ s.states.length) (slots : List Bytes32) (remainingDepth base : Nat) :
    s.scheduleChildren slots remainingDepth base stop = spawn s (childTasks slots remainingDepth base stop) := by
  cases remainingDepth with
  | zero => exact scheduleData_eq hstop slots base
  | succ remaining => exact scheduleIndex_eq s remaining _ stop slots base

theorem subtreeSize_eq {k : Nat} (h : NON_ROOT_INDEX_SLOT_CAP ^ k < 2 ^ 64) :
    subtreeSize k = NON_ROOT_INDEX_SLOT_CAP ^ k := by
  induction k with
  | zero => rfl
  | succ k ih =>
    have hless : NON_ROOT_INDEX_SLOT_CAP ^ k ≤ NON_ROOT_INDEX_SLOT_CAP ^ (k + 1) :=
      Nat.pow_le_pow_right (by decide) (Nat.le_succ k)
    rw [subtreeSize, ih (hless.trans_lt h), saturatingMul64]
    exact Nat.min_eq_left (Nat.le_pred_of_lt h)

section
variable {stop size remaining base : Nat} {slots : List Bytes32} {task : Task}

theorem mem_dataTasks (h : task ∈ dataTasks stop slots base) :
    ∃ i address, slots[i]? = some address ∧ base + i < stop ∧ task = .data address (base + i) := by
  induction slots generalizing base with
  | nil => cases h
  | cons first slots ih =>
    rw [dataTasks] at h
    split at h
    · cases h
    next hbase =>
      rcases mem_cons.mp h with rfl | h
      · exact ⟨0, first, rfl, Nat.lt_of_not_le hbase, rfl⟩
      · obtain ⟨i, address, hslot, hlt, rfl⟩ := ih h
        refine ⟨i + 1, address, hslot, by omega, ?_⟩
        rw [Nat.add_right_comm, Nat.add_assoc]

/-- Where the sum does not wrap, the ranges of the slots follow one another. -/
theorem indexTasks_cons (hsmall : stop + size < 2 ^ 64) (pk : Bytes32) :
    indexTasks remaining size stop (pk :: slots) base = if base ≥ stop then []
      else .index pk remaining base (min (base + size) stop) ::
        indexTasks remaining size stop slots (min (base + size) stop) := by
  rw [indexTasks]
  split
  · rfl
  · rw [Nat.mod_eq_of_lt (by omega)]

theorem indexTasks_of_le (h : stop ≤ base) : indexTasks remaining size stop slots base = [] := by
  cases slots with
  | nil => rfl
  | cons pk slots => rw [indexTasks, if_pos h]

theorem mem_indexTasks (hsmall : stop + size < 2 ^ 64) (h : task ∈ indexTasks remaining size stop slots base) :
    ∃ i pk, slots[i]? = some pk ∧ base + i * size < stop ∧
      task = .index pk remaining (base + i * size) (min (base + (i + 1) * size) stop) := by
  induction slots generalizing base with
  | nil => cases h
  | cons first slots ih =>
    rw [indexTasks_cons hsmall] at h
    split at h
    · cases h
    next hbase =>
      rcases mem_cons.mp h with rfl | h
      · refine ⟨0, first, rfl, by omega, ?_⟩
        rw [Nat.zero_mul, Nat.add_zero, Nat.one_mul]
      · rcases Nat.lt_or_ge (base + size) stop with hlt | hge
        · rw [Nat.min_eq_left hlt.le] at h
          obtain ⟨i, pk, hslot, hbelow, rfl⟩ := ih h
          have hnext (j : Nat) : base + size + j * size = base + (j + 1) * size := by
            rw [Nat.succ_mul, Nat.add_comm (j * size), Nat.add_assoc]
          rw [hnext] at hbelow
          refine ⟨i + 1, pk, hslot, hbelow, ?_⟩
          rw [hnext, hnext]
        · rw [Nat.min_eq_right hge, indexTasks_of_le le_rfl] at h
          cases h

theorem cover_dataTasks (position : Nat) : cover (dataTasks stop slots base) position =
    if base ≤ position ∧ position < stop ∧ position < base + slots.length then 1 else 0 := by
  induction slots generalizing base with
  | nil =>
    rw [dataTasks, cover_nil, if_neg]
    rw [length_nil]
    omega
  | cons address slots ih =>
    rw [dataTasks, length_cons]
    split
    · rw [cover_nil, if_neg (by omega)]
    · rw [cover_cons, ih]
      simp only [Task.covers, decide_eq_true_eq]
      split_ifs <;> omega

theorem cover_indexTasks (hsize : 0 < size) (hsmall : stop + size < 2 ^ 64) (position : Nat) :
    cover (indexTasks remaining size stop slots base) position =
      if base ≤ position ∧ position < stop ∧ position < base + slots.length * size then 1 else 0 := by
  induction slots generalizing base with
  | nil =>
    rw [indexTasks, cover_nil, if_neg]
    rw [length_nil]
    omega
  | cons pk slots ih =>
    rw [indexTasks_cons hsmall, length_cons, Nat.succ_mul]
    split
    · rw [cover_nil, if_neg (by omega)]
    · rw [cover_cons, ih]
      simp only [Task.covers, Bool.and_eq_true, decide_eq_true_eq]
      split_ifs <;> omega

theorem cover_childTasks {remainingDepth : Nat} (hsmall : stop + NON_ROOT_INDEX_SLOT_CAP ^ remainingDepth < 2 ^ 64)
    (position : Nat) : cover (childTasks slots remainingDepth base stop) position =
      if base ≤ position ∧ position < stop ∧
          position < base + slots.length * NON_ROOT_INDEX_SLOT_CAP ^ remainingDepth then 1 else 0 := by
  cases remainingDepth with
  | zero => rw [childTasks, cover_dataTasks, Nat.pow_zero, Nat.mul_one]
  | succ remaining =>
    rw [childTasks, subtreeSize_eq (by omega)]
    exact cover_indexTasks (Nat.pow_pos (by decide)) hsmall position

theorem sum_width_indexTasks (hsmall : stop + size < 2 ^ 64) (weight : Task → Nat) (c : Nat)
    (hweight : ∀ pk b e, weight (.index pk remaining b e) = c * (e - b)) :
    ((indexTasks remaining size stop slots base).map weight).sum ≤ c * (stop - base) := by
  induction slots generalizing base with
  | nil => exact Nat.zero_le _
  | cons pk slots ih =>
    rw [indexTasks_cons hsmall]
    split
    · exact Nat.zero_le _
    · have hrest := @ih (min (base + size) stop)
      have hwidths : (min (base + size) stop - base) + (stop - min (base + size) stop) = stop - base := by omega
      rw [map_cons, hweight, ← hwidths, Nat.mul_add]
      exact Nat.add_le_add_left hrest _

end

/-! ## Starting tasks -/

theorem length_launch (states : List ChunkState) (tasks : List Task) : (launch states tasks).length = states.length := by
  induction tasks generalizing states with
  | nil => rfl
  | cons task tasks ih =>
    cases task with
    | index => exact ih states
    | data address position => exact (ih _).trans (length_set ..)

theorem mem_launch {state : ChunkState} (h : state ∈ launch states tasks) :
    state ∈ states ∨ ∃ address, state = .inFlight address := by
  induction tasks generalizing states with
  | nil => exact .inl h
  | cons task tasks ih =>
    cases task with
    | index => exact ih h
    | data address position =>
      rcases ih h with hmem | hflying
      · exact (mem_or_eq_of_mem_set hmem).imp id fun heq => ⟨address, heq⟩
      · exact .inr hflying

theorem launch_of_not_mem
    (h : ∀ address, .data address position ∉ tasks) : (launch states tasks)[position]? = states[position]? := by
  induction tasks generalizing states with
  | nil => rfl
  | cons task tasks ih =>
    have hrest : ∀ address, .data address position ∉ tasks := fun address hmem => h address (.tail _ hmem)
    cases task with
    | index => exact ih hrest
    | data address p =>
      have hne : p ≠ position := by
        rintro rfl
        exact h address (.head _)
      exact (ih hrest).trans (getElem?_set_ne hne)

theorem launch_of_mem
    (hmem : .data address position ∈ tasks) (honce : cover tasks position ≤ 1) (hlt : position < states.length) :
    (launch states tasks)[position]? = some (.inFlight address) := by
  induction tasks generalizing states with
  | nil => cases hmem
  | cons task tasks ih =>
    rw [cover_cons] at honce
    cases hmem with
    | head =>
      have hrest : ∀ a, .data a position ∉ tasks := by
        intro a ha
        have hpos := cover_pos_of_data ha
        simp only [Task.covers, decide_true, if_true] at honce
        omega
      exact (launch_of_not_mem hrest).trans (getElem?_set_self hlt)
    | tail _ hmem =>
      cases task with
      | index => exact ih hmem (by omega) hlt
      | data => exact ih hmem (by omega) (by rw [length_set]; exact hlt)

theorem mem_retries :
    task ∈ s.retries ↔ ∃ address position, s.states[position]? = some (.failed address) ∧ task = .data address position := by
  rw [retries, mem_filterMap]
  constructor
  · rintro ⟨⟨state, position⟩, hmem, htask⟩
    cases state with
    | failed address => exact ⟨address, position, mem_zipIdx_iff_getElem?.mp hmem, (Option.some.inj htask).symm⟩
    | unscheduled | inFlight | done => cases htask
  · rintro ⟨address, position, hstate, rfl⟩
    exact ⟨(.failed address, position), mem_zipIdx_iff_getElem?.mpr hstate, rfl⟩

def ChunkState.isFailed : ChunkState → Bool
  | .failed _ => true
  | _ => false

theorem any_isFailed {state : Option ChunkState} :
    state.any ChunkState.isFailed = true ↔ ∃ address, state = some (.failed address) := by
  cases state with
  | none => exact iff_of_false nofun nofun
  | some state =>
    cases state with
    | failed address => exact iff_of_true rfl ⟨address, rfl⟩
    | unscheduled | inFlight | done => exact iff_of_false nofun nofun

theorem countP_zipIdx {α : Type} (f : α → Bool) (position : Nat) (xs : List α) (k : Nat) :
    (xs.zipIdx k).countP (fun x => f x.1 && decide (x.2 = position)) =
      if k ≤ position ∧ (xs[position - k]?).any f then 1 else 0 := by
  induction xs generalizing k with
  | nil => simp
  | cons x xs ih =>
    rw [zipIdx_cons, countP_cons, ih]
    rcases Nat.lt_trichotomy position k with hlt | rfl | hgt
    · rw [if_neg (by omega), if_neg (by simp; omega), if_neg (by omega)]
    · simp
    · obtain ⟨d, rfl⟩ := Nat.exists_eq_add_of_lt hgt
      have hhere : k + d + 1 - k = d + 1 := by omega
      have hthere : k + d + 1 - (k + 1) = d := by omega
      have hother : ¬ (f x && decide (k = k + d + 1)) = true := by simp; omega
      rw [hhere, hthere, if_neg hother]
      refine if_congr (and_congr_left fun _ => ?_) rfl rfl
      omega

theorem cover_retries (s : Fetch) (position : Nat) :
    cover s.retries position = if (s.states[position]?).any ChunkState.isFailed then 1 else 0 := by
  have hcount : cover s.retries position =
      s.states.zipIdx.countP (fun x => x.1.isFailed && decide (x.2 = position)) := by
    rw [cover, retries, countP_filterMap]
    refine countP_congr fun x _ => ?_
    obtain ⟨state, p⟩ := x
    cases state <;> simp [ChunkState.isFailed, Task.covers]
  rw [hcount, countP_zipIdx]
  exact if_congr (and_iff_right (Nat.zero_le _)) rfl rfl

theorem respawn_eq (s : Fetch) : s.respawn = spawn s s.retries := by
  rw [respawn]
  congr 1
  refine ext_getElem? fun position => ?_
  rw [getElem?_map]
  by_cases hfailed : ∃ address, s.states[position]? = some (.failed address)
  · obtain ⟨address, hstate⟩ := hfailed
    have honce : cover s.retries position ≤ 1 := by
      rw [cover_retries]
      split <;> omega
    rw [launch_of_mem (mem_retries.mpr ⟨address, position, hstate, rfl⟩) honce
      (List.getElem?_eq_some_iff.mp hstate).1, hstate]
    rfl
  · rw [launch_of_not_mem]
    · cases hstate : s.states[position]? with
      | none => rfl
      | some state =>
        cases state with
        | failed address => exact absurd ⟨address, hstate⟩ hfailed
        | unscheduled => rfl
        | inFlight => rfl
        | done => rfl
    · intro address hmem
      obtain ⟨a, p, hstate, heq⟩ := mem_retries.mp hmem
      cases heq
      exact hfailed ⟨_, hstate⟩

/-! ## A result -/

def fillPosition (s : Fetch) (position : Nat) (output : OutputSink) (progress : Nat) : Fetch :=
  { s with
    states := s.states.set position .done
    output := output
    lastProgressAt := progress
    accepted := s.accepted ++ [position] }

def failPosition (s : Fetch) (position : Nat) (address : Bytes32) : Fetch :=
  { s with states := s.states.set position (.failed address) }

/-- The result of a task is an error: it ends the loop. -/
def Refused (fileSize : Nat) (s : Fetch) (turn : Turn) : Task → Option Bytes → Prop
  | .index _ _ _ _, none => True
  | .index _ _ _ _, some bytes => ∃ e, decodeNonRootIndex bytes = .error e
  | .data _ _, none => False
  | .data _ position, some bytes => ∀ payload, decodeDataChunk bytes = .ok payload →
      s.output.accept position (trimmed fileSize position payload) turn.writes = none

/-- What becomes of a result, when the task is no longer among the tasks of `s`. -/
inductive Settled (fileSize : Nat) (s : Fetch) (turn : Turn) : Task → Option Bytes → Flow → Prop
  | scheduled {pk : Bytes32} {remaining base stop : Nat} {bytes : Bytes} {slots : List Bytes32}
      (hdecode : decodeNonRootIndex bytes = .ok slots) :
      Settled fileSize s turn (.index pk remaining base stop) (some bytes)
        (.onward (spawn { s with lastProgressAt := turn.processedAt } (childTasks slots remaining base stop)))
  | filled {address : Bytes32} {position : Nat} {bytes payload : Bytes} {output : OutputSink}
      (hdecode : decodeDataChunk bytes = .ok payload)
      (haccept : s.output.accept position (trimmed fileSize position payload) turn.writes = some output) :
      Settled fileSize s turn (.data address position) (some bytes)
        (.onward (fillPosition s position output turn.processedAt))
  | failed {address : Bytes32} {position : Nat} :
      Settled fileSize s turn (.data address position) none (.onward (failPosition s position address))
  | refused {task : Task} {result : Option Bytes} (h : Refused fileSize s turn task result) :
      Settled fileSize s turn task result (.abort s)

/-- The range of the task is within the states, and the position of data is in flight. -/
def Task.Awaited (s : Fetch) : Task → Prop
  | .index _ _ _ stop => stop ≤ s.states.length
  | .data address position => s.states[position]? = some (.inFlight address)

theorem settle_settled (h : task.Awaited s) (fileSize : Nat) (result : Option Bytes)
    (turn : Turn) : Settled fileSize s turn task result (s.settle fileSize task result turn) := by
  cases task with
  | index pk remaining base stop =>
    cases result with
    | none => exact .refused trivial
    | some bytes =>
      rw [settle]
      split
      next e hdecode =>
        exact .refused ⟨e, hdecode⟩
      next slots hdecode =>
        have hspawn := scheduleChildren_eq (s := { s with lastProgressAt := turn.processedAt }) h slots remaining base
        rw [hspawn]
        exact .scheduled hdecode
  | data address position =>
    have hflying : s.states[position]? = some (.inFlight address) := h
    have hlt : position < s.states.length := (List.getElem?_eq_some_iff.mp hflying).1
    cases result with
    | none =>
      rw [settle, settleFailure, hflying]
      simp only
      rw [setState, if_pos hlt]
      exact .failed
    | some bytes =>
      rw [settle, settleData]
      split
      next e hdecode =>
        refine .refused fun payload hok => ?_
        rw [hdecode] at hok
        cases hok
      next payload hdecode =>
        rw [hflying]
        simp only
        split
        next haccept =>
          refine .refused fun payload' hok => ?_
          rw [hdecode] at hok
          cases hok
          exact haccept
        next output haccept =>
          rw [setState, if_pos hlt]
          exact .filled hdecode haccept

/-! ## A turn -/

/-- The two states differ only in times, in what was published, and in the error. -/
structure SameCore (s s' : Fetch) : Prop where
  tasks : s'.tasks = s.tasks
  states : s'.states = s.states
  output : s'.output = s.output
  accepted : s'.accepted = s.accepted
  outOfBounds : s'.outOfBounds = s.outOfBounds

theorem SameCore.trans {s'' : Fetch} (h : SameCore s s') (h' : SameCore s' s'') : SameCore s s'' :=
  ⟨h'.tasks.trans h.tasks, h'.states.trans h.states, h'.output.trans h.output, h'.accepted.trans h.accepted,
    h'.outOfBounds.trans h.outOfBounds⟩

theorem publishNeedList_core (s : Fetch) (turn : Turn) : SameCore s (s.publishNeedList turn) := by
  rw [publishNeedList]
  split <;> exact ⟨rfl, rfl, rfl, rfl, rfl⟩

theorem checkWindow_core (s : Fetch) (chunkTimeout : Nat) (turn : Turn) :
    SameCore s (s.checkWindow chunkTimeout turn) := by
  rw [checkWindow]
  split <;> exact ⟨rfl, rfl, rfl, rfl, rfl⟩

theorem respawn_core (h : SameCore s s') : SameCore s.respawn s'.respawn := by
  have hretries : s'.retries = s.retries := by rw [retries, retries, h.states]
  refine { h with tasks := ?_, states := ?_ }
  · rw [respawn, respawn, hretries, h.tasks]
  · rw [respawn, respawn, h.states]

theorem missing_eq_nil_iff : s.missing = [] ↔ ∀ address, .failed address ∉ s.states := by
  rw [missing, filterMap_eq_nil_iff]
  constructor
  · intro h address hmem
    obtain ⟨position, hstate⟩ := mem_iff_getElem?.mp hmem
    have := h (.failed address, position) (mem_zipIdx_iff_getElem?.mpr hstate)
    cases this
  · rintro h ⟨state, position⟩ hmem
    cases state with
    | failed address => exact absurd (mem_iff_getElem?.mpr ⟨position, mem_zipIdx_iff_getElem?.mp hmem⟩) (h address)
    | unscheduled => rfl
    | inFlight => rfl
    | done => rfl

theorem respawn_core_of_missing_eq_nil (h : s.missing = []) : SameCore s s.respawn := by
  have hfailed := missing_eq_nil_iff.mp h
  have hretries : s.retries = [] := by
    rw [eq_nil_iff_forall_not_mem]
    intro task hmem
    obtain ⟨address, position, hstate, -⟩ := mem_retries.mp hmem
    exact hfailed address (mem_iff_getElem?.mpr ⟨position, hstate⟩)
  refine ⟨?_, ?_, rfl, rfl, rfl⟩
  · rw [respawn, hretries, append_nil]
  · rw [respawn_eq, hretries]
    rfl

def Due (s : Fetch) (turn : Turn) : Prop := turn.checkedAt - s.lastNeedPublish ≥ NEED_PUBLISH_INTERVAL

instance (s : Fetch) (turn : Turn) : Decidable (Due s turn) := inferInstanceAs (Decidable (_ ≥ _))

/-- When the need-list is due, what has failed is fetched again; nothing else happens at the end of a turn. -/
theorem needCycle_core (s : Fetch) (turn : Turn) : SameCore (if Due s turn then s.respawn else s) (s.needCycle turn) := by
  rw [needCycle]
  by_cases hdue : Due s turn
  · have hdue' : turn.checkedAt - s.lastNeedPublish ≥ NEED_PUBLISH_INTERVAL := hdue
    rw [if_pos hdue, if_pos hdue']
    split
    · have h := respawn_core (publishNeedList_core s turn)
      exact { h with }
    next hnone =>
      have h := respawn_core_of_missing_eq_nil (not_not.mp hnone)
      exact ⟨h.tasks.symm, h.states.symm, h.output.symm, h.accepted.symm, h.outOfBounds.symm⟩
  · have hdue' : ¬ turn.checkedAt - s.lastNeedPublish ≥ NEED_PUBLISH_INTERVAL := hdue
    rw [if_neg hdue, if_neg hdue']
    exact ⟨rfl, rfl, rfl, rfl, rfl⟩

theorem endTurn_core (s : Fetch) (chunkTimeout : Nat) (turn : Turn) :
    SameCore (if Due s turn then s.respawn else s) (s.endTurn chunkTimeout turn) :=
  (needCycle_core s turn).trans (checkWindow_core _ chunkTimeout turn)

theorem needCycle_progress (s : Fetch) (turn : Turn) :
    (s.needCycle turn).lastProgressAt = s.lastProgressAt ∧ (s.needCycle turn).hadError = s.hadError := by
  have hpublish : (s.publishNeedList turn).lastProgressAt = s.lastProgressAt ∧
      (s.publishNeedList turn).hadError = s.hadError := by
    rw [publishNeedList]
    split <;> exact ⟨rfl, rfl⟩
  rw [needCycle]
  split
  · split
    · exact hpublish
    · exact ⟨rfl, rfl⟩
  · exact ⟨rfl, rfl⟩

theorem hadError_endTurn (s : Fetch) (chunkTimeout : Nat) (turn : Turn) : (s.endTurn chunkTimeout turn).hadError =
    (s.hadError || decide (turn.windowAt - s.lastProgressAt ≥ chunkTimeout)) := by
  obtain ⟨hprogress, herror⟩ := needCycle_progress s turn
  rw [endTurn, checkWindow, hprogress]
  split
  next hpast =>
    rw [decide_eq_true hpast, Bool.or_true]
  next hwithin =>
    rw [decide_eq_false hwithin, Bool.or_false, herror]

def Fetch.Flow.finish (chunkTimeout : Nat) (turn : Turn) : Flow → Fetch
  | .onward s => s.endTurn chunkTimeout turn
  | .again s => s
  | .abort s => { s with hadError := true }

def removeTask (s : Fetch) (i : Nat) : Fetch := { s with tasks := s.tasks.eraseIdx i }

/-- What a turn takes: nothing, a task that panicked, or the result of a task. -/
inductive Taken (fileSize : Nat) (s : Fetch) (turn : Turn) : Flow → Prop
  | idle (h : turn.joined = .idle) : Taken fileSize s turn (.onward s)
  | panicked {i : Nat} {task : Task} (h : turn.joined = .panicked i) (htask : s.tasks[i]? = some task) :
      Taken fileSize s turn (.onward (removeTask s i))
  | finished {i : Nat} {task : Task} {result : Option Bytes} (h : turn.joined = .finished i result)
      (htask : s.tasks[i]? = some task) : Taken fileSize s turn ((removeTask s i).settle fileSize task result turn)

/-- There is no turn: the loop has ended, or no such task is running. -/
def NoTurn (s : Fetch) (turn : Turn) : Prop :=
  s.ended = true ∨
    ∃ i, s.tasks[i]? = none ∧ (turn.joined = .panicked i ∨ ∃ result, turn.joined = .finished i result)

theorem iterate_cases (fileSize chunkTimeout : Nat) (s : Fetch) (turn : Turn) :
    (NoTurn s turn ∧ s.iterate fileSize chunkTimeout turn = s) ∨ s.ended = false ∧ ∃ flow, Taken fileSize s turn flow ∧
      s.iterate fileSize chunkTimeout turn = flow.finish chunkTimeout turn := by
  rw [iterate]
  split
  next hended =>
    exact .inl ⟨.inl hended, rfl⟩
  next hended =>
    have hopen : s.ended = false := Bool.eq_false_of_not_eq_true hended
    split
    next hjoined =>
      exact .inr ⟨hopen, _, .idle hjoined, rfl⟩
    next i hjoined =>
      split
      next hi =>
        exact .inr ⟨hopen, _, .panicked hjoined (getElem?_eq_getElem hi), rfl⟩
      next hi =>
        exact .inl ⟨.inr ⟨i, getElem?_eq_none (Nat.le_of_not_lt hi), .inl hjoined⟩, rfl⟩
    next i result hjoined =>
      split
      next hnone =>
        exact .inl ⟨.inr ⟨i, hnone, .inr ⟨result, hjoined⟩⟩, rfl⟩
      next task htask =>
        refine .inr ⟨hopen, _, .finished hjoined htask, ?_⟩
        rw [removeTask]
        split <;> rename_i hflow <;> rw [hflow] <;> rfl

end Peeroxide.DeadDrop
