import Peeroxide.DeadDrop.FetchSafety

/-!
# The round trip of a dead drop

The sender lays the tree out from the data up and the receiver goes through it from the root down. When every chunk that
was put can be fetched, each task of the receiver is for a chunk of the sender's tree and has just the positions of that
chunk, so that the output is the file in whatever order the tasks end.

Main result: `round_trip`.
-/

namespace Peeroxide.DeadDrop
open Lib Dht Fetch
open List hiding iterate

structure Store where
  mutableGet : Bytes32 → Option Bytes
  immutableGet : Bytes32 → Option Bytes

def Store.get (store : Store) : Task → Option Bytes
  | .index publicKey _ _ _ => store.mutableGet publicKey
  | .data address _ => store.immutableGet address

structure Stored (store : Store) (tree : BuiltTree) : Prop where
  root : store.mutableGet tree.rootPublicKey = some tree.rootEncoded
  index : ∀ chunk ∈ tree.indexChunks, store.mutableGet chunk.publicKey = some chunk.encoded
  data : ∀ chunk ∈ tree.dataChunks, store.immutableGet chunk.address = some chunk.encoded

/-- The loop waits, or takes what a task has fetched, and there is progress within the window. -/
def Joined.FromStore (store : Store) (chunkTimeout : Nat) (s : Fetch) (turn : Turn) : Joined → Prop
  | .idle => turn.windowAt - s.lastProgressAt < chunkTimeout
  | .panicked _ => False
  | .finished i result => result = (s.tasks[i]?).bind store.get ∧ turn.windowAt - turn.processedAt < chunkTimeout

instance (store : Store) (chunkTimeout : Nat) (s : Fetch) (turn : Turn) :
    (joined : Joined) → Decidable (joined.FromStore store chunkTimeout s turn)
  | .idle => inferInstanceAs (Decidable (_ < _))
  | .panicked _ => inferInstanceAs (Decidable False)
  | .finished _ _ => inferInstanceAs (Decidable (_ ∧ _))

/-- The turn goes as one does when the chunks can be fetched and the stream can be written. -/
def FromStore (store : Store) (chunkTimeout : Nat) (s : Fetch) (turn : Turn) : Prop :=
  turn.writes = true ∧ turn.joined.FromStore store chunkTimeout s turn

instance (store : Store) (chunkTimeout : Nat) (s : Fetch) (turn : Turn) :
    Decidable (FromStore store chunkTimeout s turn) :=
  inferInstanceAs (Decidable (_ ∧ _))

section
variable {P : Primitives} {rootSeed : Bytes32} {file : Bytes}
variable {address pk : Bytes32} {chunkTimeout i layer position remaining : Nat} {slots : List Bytes32}
  {store : Store} {turn : Turn}

/-! ## The chunk of a task -/

/-- The task is for a chunk of the tree and has the positions of that chunk. -/
def Task.Genuine (P : Primitives) (rootSeed : Bytes32) (file : Bytes) : Task → Prop
  | .index publicKey remaining base stop => ∃ pos,
      (slotsBelow P rootSeed (addressesOf P rootSeed file) (remaining + 1))[pos]? = some publicKey ∧
      base = pos * NON_ROOT_INDEX_SLOT_CAP ^ (remaining + 1) ∧
      stop = min (base + NON_ROOT_INDEX_SLOT_CAP ^ (remaining + 1)) (dataChunkCount file.length)
  | .data address position => (addressesOf P rootSeed file)[position]? = some address

/-- The slots are those that a layer has for the positions from `base` to `stop`. -/
structure SlotsOf (P : Primitives) (rootSeed : Bytes32) (file : Bytes) (slots : List Bytes32)
    (layer base stop : Nat) : Prop where
  place : ∃ q, base = q * NON_ROOT_INDEX_SLOT_CAP ^ layer ∧ ∀ i slot, slots[i]? = some slot →
    (slotsBelow P rootSeed (addressesOf P rootSeed file) layer)[q + i]? = some slot
  stop_le : stop ≤ dataChunkCount file.length
  cut : dataChunkCount file.length ≤ stop ∨ base + slots.length * NON_ROOT_INDEX_SLOT_CAP ^ layer ≤ stop
  reach : stop ≤ base + slots.length * NON_ROOT_INDEX_SLOT_CAP ^ layer

theorem genuine_childTasks {base stop : Nat} (h : SlotsOf P rootSeed file slots layer base stop)
    (hsmall : stop + NON_ROOT_INDEX_SLOT_CAP ^ layer < 2 ^ 64) :
    ∀ task ∈ childTasks slots layer base stop, task.Genuine P rootSeed file := by
  obtain ⟨⟨q, hbase, hslots⟩, hstop, hcut, -⟩ := h
  intro task hmem
  cases layer with
  | zero =>
    obtain ⟨i, address, hslot, -, rfl⟩ := mem_dataTasks hmem
    rw [hbase, Nat.pow_zero, Nat.mul_one]
    exact hslots i address hslot
  | succ remaining =>
    rw [childTasks, subtreeSize_eq (by omega)] at hmem
    obtain ⟨i, pk, hslot, -, rfl⟩ := mem_indexTasks hsmall hmem
    refine ⟨q + i, hslots i pk hslot, ?_, ?_⟩
    · rw [hbase, Nat.add_mul]
    · have hi : i + 1 ≤ slots.length := (List.getElem?_eq_some_iff.mp hslot).1
      have hwidth := Nat.mul_le_mul_right (NON_ROOT_INDEX_SLOT_CAP ^ (remaining + 1)) hi
      rw [Nat.succ_mul] at hwidth ⊢
      omega

/-- The index chunk of a task can be fetched, and has the slots for the positions of the task. -/
theorem index_answer (hstored : Stored store (treeOf P rootSeed file))
    {base stop : Nat} (h : (Task.index pk remaining base stop).Genuine P rootSeed file)
    (hdepth : remaining < canonicalDepth (dataChunkCount file.length)) :
    ∃ slots, store.mutableGet pk = some (encodeNonRootIndex slots) ∧ slots.length ≤ NON_ROOT_INDEX_SLOT_CAP ∧
      SlotsOf P rootSeed file slots remaining base stop := by
  obtain ⟨pos, hkey, hbase, hstop⟩ := h
  have hlength (layer : Nat) : (slotsBelow P rootSeed (addressesOf P rootSeed file) layer).length =
      upCount (dataChunkCount file.length) layer := by rw [length_slotsBelow, length_addressesOf]
  have hpos : pos < upCount (dataChunkCount file.length) (remaining + 1) :=
    hlength _ ▸ (List.getElem?_eq_some_iff.mp hkey).1
  have hlevel : NON_ROOT_INDEX_SLOT_CAP * NON_ROOT_INDEX_SLOT_CAP ^ remaining =
      NON_ROOT_INDEX_SLOT_CAP ^ (remaining + 1) := Nat.pow_succ'.symm
  have hbase' : base = pos * NON_ROOT_INDEX_SLOT_CAP * NON_ROOT_INDEX_SLOT_CAP ^ remaining := by
    rw [hbase, ← hlevel, Nat.mul_assoc]
  have hfirst : pos * NON_ROOT_INDEX_SLOT_CAP < upCount (dataChunkCount file.length) remaining := by
    rw [lt_upCount_iff, ← hbase', hbase]
    exact (lt_upCount_iff _ _ _).mp hpos
  have hchunk := hstored.index (indexChunkAt P rootSeed (addressesOf P rootSeed file) remaining pos)
    (mem_layersFrom.mpr ⟨remaining, pos, Nat.zero_le _, by omega, by rw [length_addressesOf]; exact hpos, rfl⟩)
  have hpk : (indexChunkAt P rootSeed (addressesOf P rootSeed file) remaining pos).publicKey = pk := by
    rw [← keys_buildLayer, getElem?_map, getElem?_map, getElem?_range (by rw [length_addressesOf]; exact hpos)]
      at hkey
    exact Option.some.inj hkey
  refine ⟨_, hpk ▸ hchunk, length_take_le _ _,
    ⟨pos * NON_ROOT_INDEX_SLOT_CAP, hbase', fun i slot hslot => ?_⟩, hstop ▸ Nat.min_le_right _ _, ?_, ?_⟩
  · rw [getElem?_take] at hslot
    split at hslot
    · rw [getElem?_drop] at hslot
      exact hslot
    · cases hslot
  · have hwidth := Nat.mul_le_mul_right (NON_ROOT_INDEX_SLOT_CAP ^ remaining) (length_take_le NON_ROOT_INDEX_SLOT_CAP
      ((slotsBelow P rootSeed (addressesOf P rootSeed file) remaining).drop (pos * NON_ROOT_INDEX_SLOT_CAP)))
    omega
  · rw [length_take, length_drop, hlength]
    rcases Nat.le_total NON_ROOT_INDEX_SLOT_CAP
      (upCount (dataChunkCount file.length) remaining - pos * NON_ROOT_INDEX_SLOT_CAP) with hfull | hlast
    · rw [Nat.min_eq_left hfull]
      omega
    · rw [Nat.min_eq_right hlast, hbase', ← Nat.add_mul, Nat.add_sub_cancel' hfirst.le]
      have hend := (upCount_le_iff (dataChunkCount file.length) remaining _).mp le_rfl
      omega

theorem data_answer (hstored : Stored store (treeOf P rootSeed file))
    (h : (Task.data address position).Genuine P rootSeed file) : position < dataChunkCount file.length ∧
      store.immutableGet address = some (encodeDataChunk (salt rootSeed) (pieceAt file position)) := by
  have hlt : position < dataChunkCount file.length := by
    rw [← length_addressesOf]
    exact (List.getElem?_eq_some_iff.mp h).1
  have hpiece : (chunksOf DATA_PAYLOAD_MAX file)[position]? = some (pieceAt file position) :=
    getElem?_chunksOf (dataChunkCount_eq file.length ▸ hlt)
  have hmem : dataChunk P rootSeed position (pieceAt file position) ∈ (treeOf P rootSeed file).dataChunks := by
    refine mem_iff_getElem?.mpr ⟨position, ?_⟩
    show ((chunksOf DATA_PAYLOAD_MAX file).mapIdx (dataChunk P rootSeed))[position]? = _
    rw [getElem?_mapIdx, hpiece]
    rfl
  have haddress : dataChunkAddress P (encodeDataChunk (salt rootSeed) (pieceAt file position)) = address := by
    have h' : (addressesOf P rootSeed file)[position]? = some address := h
    rw [addressesOf, getElem?_map, hpiece] at h'
    exact Option.some.inj h'
  exact ⟨hlt, haddress ▸ hstored.data _ hmem⟩

theorem trimmed_pieceAt (file : Bytes) (position : Nat) :
    trimmed file.length position (pieceAt file position) = pieceAt file position := by
  rw [trimmed]
  split
  · refine take_of_length_le ?_
    rw [length_pieceAt]
    exact Nat.min_le_right _ _
  · rfl

/-! ## The invariant -/

def doneAt (s : Fetch) (position : Nat) : Bool := s.states[position]? = some .done

/-- Every position is done, or is in the range of a task for the sender's chunk; those from `base` to `stop` have still to
be scheduled. -/
structure Honest (P : Primitives) (rootSeed : Bytes32) (file : Bytes) (base stop : Nat) (s : Fetch) : Prop where
  sound : Sound (dataChunkCount file.length) (canonicalDepth (dataChunkCount file.length)) s
  all : ∀ position < dataChunkCount file.length,
    0 < cover s.tasks position + settledAt s position ∨ base ≤ position ∧ position < stop
  free : ∀ position, base ≤ position → position < stop → cover s.tasks position = 0 ∧ settledAt s position = 0
  genuine : ∀ task ∈ s.tasks, task.Genuine P rootSeed file
  noFailed : ∀ address, .failed address ∉ s.states
  assembles : Assembles file (doneAt s) s.output

variable {s : Fetch} {base stop : Nat}

theorem Honest.core {s' : Fetch} (h : Honest P rootSeed file base stop s) (hcore : SameCore s s') :
    Honest P rootSeed file base stop s' := by
  have hsettled (position : Nat) : settledAt s' position = settledAt s position := settledAt_congr (by rw [hcore.states])
  have hdone : doneAt s' = doneAt s := by
    funext position
    rw [doneAt, doneAt, hcore.states]
  refine ⟨h.sound.core hcore, fun position hlt => ?_, fun position hle hlt => ?_, ?_, ?_, ?_⟩
  · rw [hcore.tasks, hsettled]
    exact h.all position hlt
  · rw [hcore.tasks, hsettled]
    exact h.free position hle hlt
  · rw [hcore.tasks]
    exact h.genuine
  · rw [hcore.states]
    exact h.noFailed
  · rw [hdone, hcore.output]
    exact h.assembles

theorem Honest.spawnChildren (h : Honest P rootSeed file base stop s)
    (hslots : SlotsOf P rootSeed file slots layer base stop) (hsize : file.length < 2 ^ 64)
    (hlayer : layer ≤ canonicalDepth (dataChunkCount file.length)) :
    Honest P rootSeed file 0 0 (spawn s (childTasks slots layer base stop)) := by
  have hpow : NON_ROOT_INDEX_SLOT_CAP ^ layer ≤
      NON_ROOT_INDEX_SLOT_CAP ^ canonicalDepth (dataChunkCount file.length) := Nat.pow_le_pow_right (by decide) hlayer
  have hroom := room_of_fileSize hsize
  have hstop := hslots.stop_le
  have hsmall : stop + NON_ROOT_INDEX_SLOT_CAP ^ layer < 2 ^ 64 := by omega
  set s' := spawn s (childTasks slots layer base stop)
  have hsound : Sound _ _ s' := h.sound.spawnChildren hsmall hlayer hslots.stop_le h.free
  have hcover (position : Nat) : cover s'.tasks position =
      cover s.tasks position + cover (childTasks slots layer base stop) position := cover_append ..
  have hdone : doneAt s' = doneAt s := by
    funext position
    rw [doneAt, doneAt, decide_eq_decide, ← hsound.mem_accepted, ← h.sound.mem_accepted]
    rfl
  refine ⟨hsound, fun position hlt => .inl ?_, fun _ _ hlt => absurd hlt (Nat.not_lt_zero _), ?_, ?_, ?_⟩
  · rw [hcover, cover_childTasks hsmall]
    by_cases hinside : base ≤ position ∧ position < stop
    · have hreach := hslots.reach
      rw [if_pos ⟨hinside.1, hinside.2, by omega⟩]
      omega
    · have hsettled : settledAt s' position = settledAt s position := by
        refine settledAt_congr (launch_of_not_mem fun address hmem => hinside ?_)
        exact (splits_childTasks hsmall).2 _ hmem position (decide_eq_true rfl)
      have hall := (h.all position hlt).resolve_right hinside
      omega
  · intro task hmem
    exact (mem_append.mp hmem).elim (h.genuine task) (genuine_childTasks hslots hsmall task)
  · intro address hmem
    rcases mem_launch hmem with hmem | ⟨a, hflying⟩
    · exact h.noFailed address hmem
    · cases hflying
  · rw [hdone]
    exact h.assembles

section
variable (h : Honest P rootSeed file 0 0 s)
include h

theorem Honest.busy (hlt : position < dataChunkCount file.length) :
    0 < cover s.tasks position + settledAt s position :=
  (h.all position hlt).resolve_right fun hnone => Nat.not_lt_zero _ hnone.2

theorem Honest.removeIndex (htask : s.tasks[i]? = some (.index pk remaining base stop)) :
    Honest P rootSeed file base stop (removeTask s i) := by
  refine ⟨h.sound.removeTask, fun position hlt => ?_, fun position hle hlt => ?_, fun task hmem => ?_, h.noFailed,
    h.assembles⟩
  · have hall := h.busy hlt
    rw [cover_eraseIdx htask] at hall
    by_cases hinside : base ≤ position ∧ position < stop
    · exact .inr hinside
    · have hcovers : ¬ Task.covers position (.index pk remaining base stop) = true := by
        rw [Task.covers, Bool.and_eq_true, decide_eq_true_eq, decide_eq_true_eq]
        exact hinside
      rw [if_neg hcovers] at hall
      exact .inl hall
  · refine h.sound.free htask ?_
    rw [Task.covers, Bool.and_eq_true, decide_eq_true_eq, decide_eq_true_eq]
    exact ⟨hle, hlt⟩
  · exact h.genuine task (mem_of_mem_eraseIdx hmem)

theorem Honest.acceptData (htask : s.tasks[i]? = some (.data address position)) {output : OutputSink} (progress : Nat)
    (houtput : Assembles file (Function.update (doneAt s) position true) output) :
    Honest P rootSeed file 0 0 (fillPosition (removeTask s i) position output progress) := by
  obtain ⟨hfree, hflying⟩ := h.sound.free_data htask
  have hlt : position < s.states.length := (List.getElem?_eq_some_iff.mp hflying).1
  set s' := fillPosition (removeTask s i) position output progress
  have hstate (p : Nat) : s'.states[p]? = if p = position then some .done else s.states[p]? := by
    split
    next heq =>
      rw [heq]
      exact getElem?_set_self hlt
    next hne =>
      exact getElem?_set_ne (Ne.symm hne)
  have hdone : doneAt s' = Function.update (doneAt s) position true := by
    funext p
    rw [doneAt, Function.update_apply]
    simp only [hstate]
    split
    · exact decide_eq_true rfl
    · rfl
  refine ⟨h.sound.removeTask.fillPosition hfree hflying output progress, fun p hp => .inl ?_,
    fun _ _ hlt => absurd hlt (Nat.not_lt_zero _), fun task hmem => ?_, fun a hmem => ?_, hdone ▸ houtput⟩
  · rw [settledAt, hstate]
    by_cases heq : p = position
    · rw [if_pos heq]
      exact Nat.succ_pos _
    · have hall := h.busy hp
      have hcovers : ¬ Task.covers p (.data address position) = true := fun h => heq (of_decide_eq_true h).symm
      rw [cover_eraseIdx htask, if_neg hcovers] at hall
      rw [if_neg heq]
      exact hall
  · exact h.genuine task (mem_of_mem_eraseIdx hmem)
  · rcases mem_or_eq_of_mem_set hmem with hmem | heq
    · exact h.noFailed a hmem
    · cases heq

theorem Honest.endTurn (hwindow : turn.windowAt - s.lastProgressAt < chunkTimeout) :
    SameCore s (s.endTurn chunkTimeout turn) ∧ (s.endTurn chunkTimeout turn).hadError = s.hadError := by
  constructor
  · have hcore := endTurn_core s chunkTimeout turn
    split at hcore
    · exact (respawn_core_of_missing_eq_nil (missing_eq_nil_iff.mpr h.noFailed)).trans hcore
    · exact hcore
  · rw [hadError_endTurn, decide_eq_false (Nat.not_le_of_lt hwindow), Bool.or_false]

end

/-! ## Results and turns -/

def takesResult (s : Fetch) (turn : Turn) : Bool :=
  !s.ended && match turn.joined with
    | .finished i _ => decide (i < s.tasks.length)
    | _ => false

section
variable (hstored : Stored store (treeOf P rootSeed file)) (hsize : file.length < 2 ^ 64)
include hstored hsize

theorem settle_honest (h : Honest P rootSeed file 0 0 s) {task : Task} (htask : s.tasks[i]? = some task)
    (hwrites : turn.writes = true) :
    ∃ s', (removeTask s i).settle file.length task (store.get task) turn = .onward s' ∧
      Honest P rootSeed file 0 0 s' ∧ s'.hadError = s.hadError ∧ s'.lastProgressAt = turn.processedAt := by
  have hgenuine := h.genuine task (mem_of_getElem? htask)
  have hwithin := h.sound.within task (mem_of_getElem? htask)
  have hsettled := settled_of_sound h.sound htask file.length (store.get task) turn
  generalize (removeTask s i).settle file.length task (store.get task) turn = flow at hsettled ⊢
  cases task with
  | index pk remaining base stop =>
    obtain ⟨slots, hget, hlength, hslots⟩ := index_answer hstored hgenuine hwithin.1
    have hdecode := decodeNonRootIndex_encode hlength
    have hcore : SameCore (removeTask s i) { removeTask s i with lastProgressAt := turn.processedAt } :=
      ⟨rfl, rfl, rfl, rfl, rfl⟩
    rw [Store.get, hget] at hsettled
    cases hsettled with
    | scheduled hdecode' =>
      obtain rfl := Except.ok.inj (hdecode.symm.trans hdecode')
      exact ⟨_, rfl, ((h.removeIndex htask).core hcore).spawnChildren hslots hsize hwithin.1.le, rfl, rfl⟩
    | refused hrefused =>
      obtain ⟨e, herror⟩ := hrefused
      rw [hdecode] at herror
      cases herror
  | data address position =>
    obtain ⟨hposition, hget⟩ := data_answer hstored hgenuine
    have hnew : doneAt s position = false := by
      rw [doneAt, (h.sound.free_data htask).2]
      rfl
    obtain ⟨output, haccept, houtput⟩ := h.assembles.accept hsize hposition hnew
    have hdecode := decodeDataChunk_encode (salt rootSeed) (pieceAt file position)
    rw [← trimmed_pieceAt, ← hwrites] at haccept
    rw [Store.get, hget] at hsettled
    cases hsettled with
    | filled hdecode' haccept' =>
      obtain rfl := Except.ok.inj (hdecode.symm.trans hdecode')
      obtain rfl := Option.some.inj (haccept.symm.trans haccept')
      exact ⟨_, rfl, h.acceptData htask turn.processedAt houtput, rfl, rfl⟩
    | refused hrefused =>
      have hnone := hrefused _ hdecode
      cases haccept.symm.trans hnone

/-- A turn that fetches from the store keeps the invariant, and one that takes a result leaves less to do. -/
theorem iterate_honest (h : Honest P rootSeed file 0 0 s ∧ s.hadError = false) (hturn : FromStore store chunkTimeout s turn) :
    (Honest P rootSeed file 0 0 (s.iterate file.length chunkTimeout turn) ∧
        (s.iterate file.length chunkTimeout turn).hadError = false) ∧
      work 1 (s.iterate file.length chunkTimeout turn) + (if takesResult s turn then 1 else 0) ≤ work 1 s := by
  obtain ⟨h, herror⟩ := h
  obtain ⟨hwrites, hjoin⟩ := hturn
  rcases iterate_cases file.length chunkTimeout s turn with ⟨hnone, hstay⟩ | ⟨-, flow, htaken, hflow⟩
  · have htakes : takesResult s turn = false := by
      rw [takesResult]
      rcases hnone with hended | ⟨i, hnone, hjoined | ⟨result, hjoined⟩⟩
      · rw [hended]
        rfl
      · rw [hjoined, Bool.and_false]
      · rw [hjoined]
        simpa using fun _ => List.getElem?_eq_none_iff.mp hnone
    rw [hstay, htakes]
    exact ⟨⟨h, herror⟩, le_rfl⟩
  · rw [hflow]
    cases htaken with
    | idle hjoined =>
      rw [hjoined] at hjoin
      obtain ⟨hcore, hsame⟩ := h.endTurn hjoin
      have htakes : takesResult s turn = false := by rw [takesResult, hjoined, Bool.and_false]
      refine ⟨⟨h.core hcore, hsame.trans herror⟩, ?_⟩
      rw [htakes, Flow.finish, work, hcore.tasks]
      exact le_rfl
    | panicked hjoined htask =>
      rw [hjoined] at hjoin
      exact hjoin.elim
    | @finished i task result hjoined htask =>
      rw [hjoined] at hjoin
      obtain ⟨hresult, hwindow⟩ := hjoin
      rw [htask, Option.bind_some] at hresult
      rw [hresult]
      obtain ⟨s', hsettle, hs', herror', hprogress⟩ := settle_honest hstored hsize h htask hwrites
      have hwork := (settle_sound h.sound (room_of_fileSize hsize) htask 1 file.length (store.get task) turn).2
      obtain ⟨hcore, hsame⟩ := hs'.endTurn (hprogress.symm ▸ hwindow)
      rw [hsettle, ite_self] at hwork
      rw [hsettle]
      refine ⟨⟨hs'.core hcore, hsame.trans (herror'.trans herror)⟩, ?_⟩
      have htakes : (if takesResult s turn then 1 else 0) ≤ 1 := by split <;> omega
      refine (Nat.add_le_add_left htakes _).trans ?_
      rw [Flow.finish, work, hcore.tasks]
      exact hwork

theorem exists_end (htimeout : 0 < chunkTimeout) (h : Honest P rootSeed file 0 0 s ∧ s.hadError = false) :
    ∃ turns, Along (iterate file.length chunkTimeout) (FromStore store chunkTimeout) s turns ∧
      (run (iterate file.length chunkTimeout) s turns).ended = true := by
  induction hwork : work 1 s using Nat.strong_induction_on generalizing s with
  | _ bound ih =>
    by_cases hended : s.ended = true
    · exact ⟨[], trivial, hended⟩
    · have hturn : FromStore store chunkTimeout s ⟨.finished 0 ((s.tasks[0]?).bind store.get), 0, 0, 0, 0, true⟩ :=
        ⟨rfl, rfl, htimeout⟩
      obtain ⟨hnext, hless⟩ := iterate_honest hstored hsize h hturn
      have htakes : takesResult s ⟨.finished 0 ((s.tasks[0]?).bind store.get), 0, 0, 0, 0, true⟩ = true := by
        rw [takesResult, Bool.eq_false_of_not_eq_true hended]
        rw [ended, h.2, Bool.false_or, List.isEmpty_iff] at hended
        exact decide_eq_true (length_pos_iff.mpr hended)
      rw [htakes, if_pos rfl] at hless
      obtain ⟨turns, hturns, hend⟩ := ih _ (by omega) hnext rfl
      exact ⟨_ :: turns, ⟨hturn, hturns⟩, hend⟩

end

/-! ## Runs -/

def rootOf (P : Primitives) (rootSeed : Bytes32) (file : Bytes) : RootIndex :=
  ⟨file.length, P.crc32c file,
    slotsBelow P rootSeed (addressesOf P rootSeed file) (canonicalDepth (dataChunkCount file.length))⟩

theorem length_rootOf_slots (P : Primitives) (rootSeed : Bytes32) (file : Bytes) : (rootOf P rootSeed file).slots.length =
    upCount (dataChunkCount file.length) (canonicalDepth (dataChunkCount file.length)) := by
  rw [rootOf, length_slotsBelow, length_addressesOf]

theorem openRoot_treeOf (hsize : file.length < 2 ^ 64) {timeout : Nat} (htimeout : 0 < timeout) :
    openRoot (treeOf P rootSeed file).rootEncoded timeout = some (rootOf P rootSeed file) := by
  have hlength := length_rootOf_slots P rootSeed file
  have hdecode : decodeRootIndex (treeOf P rootSeed file).rootEncoded = .ok (rootOf P rootSeed file) := by
    refine decodeRootIndex_encode hsize (P.crc32c file) ?_
    exact hlength.le.trans (upCount_canonicalDepth_le _)
  rw [openRoot, if_neg (Nat.ne_of_gt htimeout), hdecode]
  have hslots : (rootOf P rootSeed file).slots.length =
      expectedRootSlots (computeLayout (rootOf P rootSeed file).fileSize) :=
    hlength.trans (expectedRootSlots_eq file.length).symm
  exact if_neg (not_not.mpr hslots)

theorem slotsOf_root (P : Primitives) (rootSeed : Bytes32) (file : Bytes) :
    SlotsOf P rootSeed file (rootOf P rootSeed file).slots (canonicalDepth (dataChunkCount file.length)) 0
      (dataChunkCount file.length) := by
  refine ⟨⟨0, (Nat.zero_mul _).symm, fun i slot hslot => ?_⟩, le_rfl, .inl le_rfl, ?_⟩
  · rw [Nat.zero_add]
    exact hslot
  · rw [length_rootOf_slots, Nat.zero_add]
    exact (upCount_le_iff _ _ _).mp le_rfl

theorem start_honest (hsize : file.length < 2 ^ 64) (toFile : Bool) (now : Nat) :
    Honest P rootSeed file 0 0 (start (rootOf P rootSeed file) toFile now) ∧
      (start (rootOf P rootSeed file) toFile now).hadError = false := by
  have hfresh : Honest P rootSeed file 0 (dataChunkCount file.length) (fresh (rootOf P rootSeed file) toFile now) := by
    refine ⟨fresh_sound (rootOf P rootSeed file) toFile now, fun position hlt => .inr ⟨Nat.zero_le _, hlt⟩,
      fun position _ _ => ⟨rfl, settledAt_fresh _ toFile now position⟩, nofun, fun address hmem => ?_, ?_⟩
    · cases eq_of_mem_replicate hmem
    · have hnone : doneAt (fresh (rootOf P rootSeed file) toFile now) = fun _ => false := by
        funext position
        refine decide_eq_false fun hdone => ?_
        cases fresh_states hdone
      rw [hnone]
      exact assembles_open toFile file
  rw [start_eq]
  exact ⟨hfresh.spawnChildren (slotsOf_root P rootSeed file) hsize le_rfl, rfl⟩

theorem Honest.complete (h : Honest P rootSeed file 0 0 s) (hempty : s.tasks = []) :
    (∀ position < dataChunkCount file.length, doneAt s position = true) ∧
      s.doneCount = dataChunkCount file.length := by
  have hdone : ∀ position < dataChunkCount file.length, s.states[position]? = some .done := by
    intro position hlt
    have hall := h.busy hlt
    rw [hempty, cover_nil, Nat.zero_add] at hall
    by_contra hnot
    refine Nat.ne_of_gt hall (settledAt_eq_zero.mpr ⟨hnot, fun address hfailed => ?_⟩)
    exact h.noFailed address (mem_of_getElem? hfailed)
  refine ⟨fun position hlt => decide_eq_true (hdone position hlt), ?_⟩
  rw [← h.sound.length, doneCount, countP_eq_length]
  intro state hmem
  obtain ⟨position, hstate⟩ := mem_iff_getElem?.mp hmem
  have hlt := (List.getElem?_eq_some_iff.mp hstate).1
  rw [hdone position (h.sound.length ▸ hlt)] at hstate
  exact decide_eq_true (Option.some.inj hstate).symm

theorem Honest.delivers (h : Honest P rootSeed file 0 0 s) (herror : s.hadError = false) (hended : s.ended = true) :
    s.output.content file.length = file ∧ s.output.verifyCrc P file.length (P.crc32c file) = true ∧
      s.exitCode P (rootOf P rootSeed file) true = 0 := by
  have hempty : s.tasks = [] := by
    rw [ended, herror, Bool.false_or, List.isEmpty_iff] at hended
    exact hended
  obtain ⟨hall, hcount⟩ := h.complete hempty
  have hcontent := h.assembles.content hall
  have hcrc := h.assembles.verifyCrc hcontent P
  refine ⟨hcontent, hcrc, ?_⟩
  have hlayout : (computeLayout (rootOf P rootSeed file).fileSize).dataChunkCount = dataChunkCount file.length := rfl
  have hcheck : s.output.verifyCrc P (rootOf P rootSeed file).fileSize (rootOf P rootSeed file).crc32c = true := hcrc
  rw [exitCode, herror, hlayout, hcount, hcheck]
  simp

end

/-- **The round trip.** The root that the sender has put is opened. As long as the chunks can be fetched, whatever the
order in which the tasks end, there is no error; the results that are taken are no more than levels and positions allow,
and every run goes on to one that has ended. One that has ended has the file as its output, which passes its check. -/
theorem round_trip (P : Primitives) (rootSeed : Bytes32) {file : Bytes} (hsize : file.length < 2 ^ 64) {tree : BuiltTree}
    (htree : buildTreeFromBytes P rootSeed file = .ok tree) {store : Store} (hstored : Stored store tree) {timeout : Nat}
    (htimeout : 0 < timeout) (toFile : Bool) (now : Nat) {turns : List Turn}
    (hturns : Along (iterate file.length (timeout * 1000)) (FromStore store (timeout * 1000))
      (start (rootOf P rootSeed file) toFile now) turns) : let root := rootOf P rootSeed file
    let step := iterate file.length (timeout * 1000)
    let first := start root toFile now
    (store.mutableGet tree.rootPublicKey).bind (openRoot · timeout) = some root ∧
      (run step first turns).hadError = false ∧
      countSteps step takesResult first turns ≤ (tree.layout.depth + 1) * tree.layout.dataChunkCount ∧
      (∃ more, Along step (FromStore store (timeout * 1000)) first (turns ++ more) ∧
        (run step first (turns ++ more)).ended = true) ∧
      ((run step first turns).ended = true → (run step first turns).output.content file.length = file ∧
        (run step first turns).output.verifyCrc P root.fileSize root.crc32c = true ∧
        (run step first turns).exitCode P root true = 0) := by
  intro root step first
  rw [buildTreeFromBytes_eq] at htree
  obtain rfl := Except.ok.inj htree
  have hfirst : Honest P rootSeed file 0 0 first ∧ first.hadError = false := start_honest hsize toFile now
  have hstep (s : Fetch) (turn : Turn) (hs : Honest P rootSeed file 0 0 s ∧ s.hadError = false)
      (hturn : FromStore store (timeout * 1000) s turn) := iterate_honest hstored hsize hs hturn
  have hlast := run_invariant_along (fun s turn hs hturn => (hstep s turn hs hturn).1) hfirst hturns
  refine ⟨?_, hlast.2, ?_, ?_, hlast.1.delivers hlast.2⟩
  · rw [hstored.root]
    exact openRoot_treeOf hsize htimeout
  · refine (countSteps_le hstep hfirst hturns).trans ?_
    rw [work, tasks_start]
    exact weight_childTasks 1 (room_of_fileSize hsize)
  · have hwindow : 0 < timeout * 1000 := Nat.mul_pos htimeout (by decide)
    obtain ⟨more, hmore, hend⟩ := exists_end hstored hsize hwindow hlast
    exact ⟨more, hturns.append hmore, by rw [run_append]; exact hend⟩

def storeOf (tree : BuiltTree) : Store where
  mutableGet key :=
    if key = tree.rootPublicKey then some tree.rootEncoded
    else (tree.indexChunks.find? (·.publicKey = key)).map (·.encoded)
  immutableGet address := (tree.dataChunks.find? (·.address = address)).map (·.encoded)

theorem find?_of_key {α : Type} {key : α → Bytes32} {encoded : α → Bytes} {chunks : List α} {chunk : α}
    (hsame : ∀ c ∈ chunks, key c = key chunk → encoded c = encoded chunk) (hmem : chunk ∈ chunks) :
    (chunks.find? (key · = key chunk)).map encoded = some (encoded chunk) := by
  cases hfind : chunks.find? (key · = key chunk) with
  | none => exact absurd (decide_eq_true rfl) (find?_eq_none.mp hfind chunk hmem)
  | some other =>
    have hkey : key other = key chunk := by simpa using find?_some hfind
    exact congrArg some (hsame other (mem_of_find?_eq_some hfind) hkey)

/-- Stand-ins with different keys for the root and the index chunks. -/
def endPrimitives : Primitives := { plainPrimitives with discoveryKey := fun bytes => copySlot bytes.reverse }

/-- The file of 31 chunks, which has one index chunk. -/
theorem stored_indexed {file : Bytes} (hfile : file = List.replicate 29941 7) :
    Stored (storeOf (treeOf endPrimitives (copySlot [1]) file)) (treeOf endPrimitives (copySlot [1]) file) := by
  set tree := treeOf endPrimitives (copySlot [1]) file
  have hcount : dataChunkCount file.length = 31 := by
    rw [hfile, length_replicate]
    decide
  have hindex : ∀ chunk ∈ tree.indexChunks,
      chunk = indexChunkAt endPrimitives (copySlot [1]) (addressesOf endPrimitives (copySlot [1]) file) 0 0 := by
    intro chunk hchunk
    obtain ⟨j, pos, -, hj, hpos, rfl⟩ := mem_layersFrom.mp hchunk
    rw [hcount, show canonicalDepth 31 = 1 from by decide] at hj
    obtain rfl : j = 0 := by omega
    rw [length_addressesOf, hcount, show upCount 31 (0 + 1) = 1 from by decide] at hpos
    obtain rfl : pos = 0 := by omega
    rfl
  have hslice (k m : Nat) : (file.drop k).take m = List.replicate (min m (29941 - k)) 7 := by
    rw [hfile, drop_replicate, take_replicate]
  have hdata : ∀ chunk ∈ tree.dataChunks, ∃ n, (n = 998 ∨ n = 1) ∧ chunk.encoded = encodeDataChunk 0 (List.replicate n 7) ∧
      chunk.address = endPrimitives.discoveryKey chunk.encoded := by
    intro chunk hchunk
    obtain ⟨i, hi, rfl⟩ := mem_mapIdx.mp hchunk
    have hpayload := getElem?_chunksOf (by simpa using hi)
    rw [getElem?_eq_getElem hi, hslice] at hpayload
    rw [length_chunksOf, ← dataChunkCount_eq, hcount] at hi
    refine ⟨min DATA_PAYLOAD_MAX (29941 - i * DATA_PAYLOAD_MAX), ?_, ?_, rfl⟩
    · simp only [show DATA_PAYLOAD_MAX = 998 from rfl]
      omega
    · rw [dataChunk, Option.some.inj hpayload]
      rfl
  have hroot : deriveIndexKey endPrimitives (copySlot [1]) 0 ≠ copySlot [1] := by decide
  constructor
  · simp [storeOf]
  · intro chunk hchunk
    refine (if_neg ?_).trans (find?_of_key (fun c hc _ => ?_) hchunk)
    · rw [hindex chunk hchunk]
      exact hroot
    · rw [hindex chunk hchunk, hindex c hc]
  · intro chunk hchunk
    refine find?_of_key (fun c hc haddress => ?_) hchunk
    obtain ⟨n, hn, he, ha⟩ := hdata chunk hchunk
    obtain ⟨n', hn', he', ha'⟩ := hdata c hc
    rw [ha, ha', he, he'] at haddress
    rw [he, he']
    rcases hn with rfl | rfl <;> rcases hn' with rfl | rfl
    · rfl
    · exact absurd haddress (by decide +kernel)
    · exact absurd haddress (by decide +kernel)
    · rfl

/-- The task that was started last ends first. -/
def lastFetched (store : Store) (s : Fetch) : Turn :=
  ⟨.finished (s.tasks.length - 1) ((s.tasks[s.tasks.length - 1]?).bind store.get), 5, 5, 5, 5, true⟩

/-- The file of 31 chunks: the index chunk comes first, and then the last chunk of the data. -/
theorem round_trip_indexed : let file : Bytes := List.replicate 29941 7
    let tree := treeOf endPrimitives (copySlot [1]) file
    let step := iterate file.length (60 * 1000)
    let first := start (rootOf endPrimitives (copySlot [1]) file) false 0
    let second := step first (lastFetched (storeOf tree) first)
    let turns := [lastFetched (storeOf tree) first, lastFetched (storeOf tree) second]
    tree.layout.depth = 1 ∧ ∃ more, (run step first (turns ++ more)).ended = true ∧
      (run step first (turns ++ more)).output.content file.length = file := by
  obtain ⟨file, hfile⟩ : ∃ file : Bytes, file = List.replicate 29941 7 := ⟨_, rfl⟩
  rw [← hfile]
  have hsize : file.length = 29941 := by rw [hfile, length_replicate]
  intro _ tree step first second turns
  have hlimit : file.length < 2 ^ 64 := by
    rw [hsize]
    decide
  have hfetched (s : Fetch) : FromStore (storeOf tree) (60 * 1000) s (lastFetched (storeOf tree) s) :=
    ⟨rfl, rfl, show 5 - 5 < 60 * 1000 by decide⟩
  have hturns : Along step (FromStore (storeOf tree) (60 * 1000)) first turns := ⟨hfetched _, hfetched _, trivial⟩
  obtain ⟨-, -, -, ⟨more, hmore, hended⟩, -⟩ := round_trip endPrimitives (copySlot [1]) hlimit (buildTreeFromBytes_eq file)
    (stored_indexed hfile) (by decide) false 0 hturns
  obtain ⟨-, -, -, -, hround⟩ := round_trip endPrimitives (copySlot [1]) hlimit (buildTreeFromBytes_eq file)
    (stored_indexed hfile) (by decide) false 0 hmore
  refine ⟨?_, more, hended, (hround hended).1⟩
  show canonicalDepth (dataChunkCount file.length) = 1
  rw [hsize]
  decide

end Peeroxide.DeadDrop
