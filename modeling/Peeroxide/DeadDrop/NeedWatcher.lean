import Peeroxide.DeadDrop.Fetch
import Peeroxide.DeadDrop.Queue
import Peeroxide.Lib.Assoc

/-!
# The watcher of need-lists

The sender looks for the need-lists of receivers and has the chunks put again that they ask for. A list is known by the
hash of its value: one that has the hash of the list serviced last is passed over.

Main results: `requeues_iff`, `keepalive_passedOver`.
-/

namespace Peeroxide.DeadDrop
open Lib Dht List

inductive PublishUnit where
  | data (encoded : Bytes)
  | index (publicKey : Bytes32) (encoded : Bytes)
  deriving DecidableEq

structure PeerState where
  lastValueHash : Option Bytes32 := none
  completed : Bool := false
  lastSeq : Option Nat := none
  /-- The sequence number of the list that was serviced last. -/
  servicedSeq : Option Nat := none
  /-- The chunks whose put has failed since then. -/
  failedSince : List ChunkId := []
  deriving DecidableEq

/-- Who waits for a put is given by a number. -/
structure Sender where
  peers : AList fun _ : Bytes32 => PeerState := ∅
  queue : WorkQueue PublishUnit Nat := .new
  nextOperation : Nat := 0
  /-- The chunks that were enqueued for need-lists. -/
  requested : List ChunkId := []

inductive SenderEvent where
  /-- A peer was found on the topic; what it has put, with its sequence number, could be had or not. -/
  | observe (publicKey : Bytes32) (record : Option (Nat × Bytes))
  /-- A chunk is enqueued for another reason. -/
  | enqueue (id : ChunkId) (lane : Lane)
  | pop
  /-- A put has ended. -/
  | putDone (id : ChunkId) (failed : Bool)
  deriving DecidableEq

def unitOf (tree : BuiltTree) : ChunkId → Option PublishUnit
  | .data i => (tree.dataChunks[i]?).map fun chunk => .data chunk.encoded
  | .index i => (tree.indexChunks[i]?).map fun chunk => .index chunk.publicKey chunk.encoded
  | .root => some (.index tree.rootPublicKey tree.rootEncoded)

def listedChunks (tree : BuiltTree) (entries : List NeedEntry) : List ChunkId :=
  (responseChunksForList tree entries).dataChunkIndices.map .data ++
    (responseChunksForList tree entries).indexChunkIndices.map .index

namespace Sender
variable (hash : Bytes → Bytes32) (tree : BuiltTree)

def peer (s : Sender) (publicKey : Bytes32) : PeerState := (s.peers.lookup publicKey).getD {}

def setPeer (s : Sender) (publicKey : Bytes32) (state : PeerState) : Sender :=
  { s with peers := s.peers.insert publicKey state }

def enqueueChunk (operation : Nat) (lane : Lane) (queue : WorkQueue PublishUnit Nat) (id : ChunkId) :
    WorkQueue PublishUnit Nat :=
  match unitOf tree id with
  | some unit => queue.enqueue id unit lane operation
  | none => queue

/-- The list is marked as serviced when its chunks are enqueued, whatever becomes of their puts. -/
def service (s : Sender) (publicKey : Bytes32) (seq : Nat) (value : Bytes) (entries : List NeedEntry) : Sender :=
  { s with
    queue := (listedChunks tree entries).foldl (enqueueChunk tree s.nextOperation .high) s.queue
    nextOperation := s.nextOperation + 1
    requested := s.requested ++ listedChunks tree entries }.setPeer publicKey
      { s.peer publicKey with
        lastValueHash := some (hash value)
        lastSeq := some seq
        servicedSeq := some seq
        failedSince := [] }

def observe (s : Sender) (publicKey : Bytes32) (record : Option (Nat × Bytes)) : Sender :=
  let state := s.peer publicKey
  let s := s.setPeer publicKey state
  if state.completed then s
  else
    match record with
    | none => s
    | some (seq, value) =>
      if state.lastValueHash = some (hash value) then s.setPeer publicKey { state with lastSeq := some seq }
      else
        match decodeNeedList value with
        | .error _ => s
        | .ok [] =>
          s.setPeer publicKey
            { state with completed := true, lastValueHash := some (hash value), lastSeq := some seq }
        | .ok (entry :: entries) => s.service hash tree publicKey seq value (entry :: entries)

/-- A put that has failed is remembered with every peer. -/
def recordFailure (id : ChunkId) (state : PeerState) : PeerState := { state with failedSince := state.failedSince ++ [id] }

def step (s : Sender) : SenderEvent → Sender
  | .observe publicKey record => s.observe hash tree publicKey record
  | .enqueue id lane =>
    { s with queue := enqueueChunk tree s.nextOperation lane s.queue id, nextOperation := s.nextOperation + 1 }
  | .pop => { s with queue := s.queue.pop.2 }
  | .putDone id failed =>
    if id ∈ s.queue.inflight then
      { s with
        queue := (s.queue.markDone id).2
        peers := if failed then Assoc.retainMap (fun _ state => some (recordFailure id state)) s.peers else s.peers }
    else s

end Sender
open Sender

/-! ## What a list asks for -/

theorem lt_of_mem_touchedIndices {offset i : Nat} {counts : List Nat} {touched : List (Nat × Nat)}
    (h : i ∈ touchedIndices offset counts touched) : i < offset + counts.sum := by
  induction counts generalizing offset touched with
  | nil => cases h
  | cons count counts ih =>
    cases touched with
    | nil => cases h
    | cons range touched =>
      obtain ⟨lo, hi⟩ := range
      rw [sum_cons]
      rcases mem_append.mp h with h | h
      · obtain ⟨j, hj, rfl⟩ := mem_map.mp h
        have hlt := (mem_range'_1.mp hj).2
        omega
      · have hlt := ih h
        omega

theorem length_layersFrom (P : Primitives) (rootSeed : Bytes32) (addresses : List Bytes32) (layer k : Nat) :
    (layersFrom P rootSeed addresses layer k).length = (layerCounts k (upCount addresses.length layer)).sum := by
  induction k generalizing layer with
  | zero => rfl
  | succ k ih =>
    rw [layersFrom, length_append, length_map, length_range, ih, layerCounts, upCount_succ, sum_cons]

theorem unitOf_listed {P : Primitives} {rootSeed : Bytes32} {file : Bytes} {entries : List NeedEntry} {id : ChunkId}
    (h : id ∈ listedChunks (treeOf P rootSeed file) entries) : ∃ unit, unitOf (treeOf P rootSeed file) id = some unit := by
  rcases mem_append.mp h with h | h
  · obtain ⟨i, hi, rfl⟩ := mem_map.mp h
    have hlt := (mem_dataChunkIndices.mp hi).1
    rw [unitOf, getElem?_eq_getElem hlt]
    exact ⟨_, rfl⟩
  · obtain ⟨i, hi, rfl⟩ := mem_map.mp h
    rw [responseChunksForList, mem_orderedSet, mem_flatMap] at hi
    obtain ⟨entry, -, hi⟩ := hi
    rw [responseChunksForEntry] at hi
    split at hi
    · cases hi
    · have hlt := lt_of_mem_touchedIndices hi
      have hlength : (treeOf P rootSeed file).indexChunks.length = (treeOf P rootSeed file).layout.layerCounts.sum := by
        have hlayers := length_layersFrom P rootSeed (addressesOf P rootSeed file) 0
          (canonicalDepth (dataChunkCount file.length))
        rw [upCount_zero, length_addressesOf] at hlayers
        exact hlayers
      rw [Nat.zero_add, ← hlength] at hlt
      rw [unitOf, getElem?_eq_getElem hlt]
      exact ⟨_, rfl⟩

theorem pending_enqueueAll {tree : BuiltTree} {operation : Nat} {lane : Lane} {ids : List ChunkId} {id : ChunkId}
    (hunit : ∃ unit, unitOf tree id = some unit) (queue : WorkQueue PublishUnit Nat) (h : id ∈ ids ∨ queue.Pending id) :
    (ids.foldl (enqueueChunk tree operation lane) queue).Pending id := by
  induction ids generalizing queue with
  | nil => exact h.resolve_left not_mem_nil
  | cons first ids ih =>
    refine ih _ ?_
    rw [mem_cons, or_assoc] at h
    rcases h with rfl | hmem | hpending
    · obtain ⟨unit, hunit⟩ := hunit
      rw [enqueueChunk, hunit]
      exact .inr (queue.pending_enqueue id unit lane operation)
    · exact .inl hmem
    · refine .inr ?_
      rw [enqueueChunk]
      split
      · exact hpending.enqueue first _ lane operation
      · exact hpending

/-! ## Lists that ask again -/

/-- The watcher sees a list that is not empty, later than the one that was serviced last. -/
structure Asks (s : Sender) (publicKey : Bytes32) (seq : Nat) (value : Bytes) (entries : List NeedEntry) : Prop where
  watched : (s.peer publicKey).completed = false
  list : decodeNeedList value = .ok entries
  nonempty : entries ≠ []
  later : ∃ serviced, (s.peer publicKey).servicedSeq = some serviced ∧ serviced < seq

/-- The chunk is enqueued for a need-list between the two states. -/
def Enqueued (s s' : Sender) (id : ChunkId) : Prop :=
  id ∈ s'.requested.drop s.requested.length ∧ s'.queue.Pending id

/-- When the list of an event asks again, the listed chunks whose puts have failed are enqueued. -/
def Requeues (hash : Bytes → Bytes32) (tree : BuiltTree) (s : Sender) : SenderEvent → Prop
  | .observe publicKey (some (seq, value)) => ∀ entries, Asks s publicKey seq value entries →
      ∀ id ∈ listedChunks tree entries, id ∈ (s.peer publicKey).failedSince →
        Enqueued s (s.step hash tree (.observe publicKey (some (seq, value)))) id
  | _ => True

/-- The list of an event has another value than the list that was serviced last, or lists no chunk whose put has failed. -/
def AsksAnew (hash : Bytes → Bytes32) (tree : BuiltTree) (s : Sender) : SenderEvent → Prop
  | .observe publicKey (some (seq, value)) => ∀ entries, Asks s publicKey seq value entries →
      (s.peer publicKey).lastValueHash = some (hash value) →
        ∀ id ∈ listedChunks tree entries, id ∉ (s.peer publicKey).failedSince
  | _ => True

section
variable {P : Primitives} {rootSeed : Bytes32} {file : Bytes} {hash : Bytes → Bytes32} {s : Sender} {publicKey : Bytes32}
  {seq : Nat} {value : Bytes} {entries : List NeedEntry}

theorem enqueued_of_other (hasks : Asks s publicKey seq value entries)
    (hother : (s.peer publicKey).lastValueHash ≠ some (hash value)) {id : ChunkId}
    (hid : id ∈ listedChunks (treeOf P rootSeed file) entries) :
    Enqueued s (s.step hash (treeOf P rootSeed file) (.observe publicKey (some (seq, value)))) id := by
  rw [step, observe, hasks.watched, if_neg hother, hasks.list]
  cases entries with
  | nil => exact absurd rfl hasks.nonempty
  | cons entry entries =>
    refine ⟨?_, pending_enqueueAll (unitOf_listed hid) s.queue (.inl hid)⟩
    show id ∈ (s.requested ++ _).drop s.requested.length
    rw [drop_left]
    exact hid

theorem requeues_iff_asksAnew (hash : Bytes → Bytes32) (s : Sender) (event : SenderEvent) :
    Requeues hash (treeOf P rootSeed file) s event ↔ AsksAnew hash (treeOf P rootSeed file) s event := by
  cases event with
  | observe publicKey record =>
    cases record with
    | none => exact Iff.rfl
    | some record =>
      obtain ⟨seq, value⟩ := record
      refine forall_congr' fun entries => forall_congr' fun hasks => ?_
      by_cases hsame : (s.peer publicKey).lastValueHash = some (hash value)
      · refine ⟨fun h _ id hid hfailed => ?_, fun h id hid hfailed => absurd hfailed (h hsame id hid)⟩
        have hnew := (h id hid hfailed).1
        rw [step, observe, hasks.watched, if_pos hsame] at hnew
        exact absurd hnew (by simp [setPeer])
      · exact iff_of_true (fun id hid _ => enqueued_of_other hasks hsame hid) fun h => absurd h hsame
  | enqueue | pop | putDone => exact Iff.rfl

end

/-- **Need-lists after failed puts.** For every file, in every run of the watcher and the puts: the listed chunks whose puts
have failed are enqueued by each list that asks again, just when each of these lists has another value than the one
serviced last, or lists no chunk whose put has failed. -/
theorem requeues_iff (P : Primitives) (rootSeed : Bytes32) (file : Bytes) (hash : Bytes → Bytes32)
    (events : List SenderEvent) {tree : BuiltTree} (htree : buildTreeFromBytes P rootSeed file = .ok tree) :
    Along (step hash tree) (Requeues hash tree) {} events ↔
      Along (step hash tree) (AsksAnew hash tree) {} events := by
  rw [buildTreeFromBytes_eq] at htree
  obtain rfl := Except.ok.inj htree
  exact along_congr (I := fun _ => True) (fun _ _ _ => trivial)
    (fun s event _ => requeues_iff_asksAnew hash s event) trivial events

def threeChunks : Bytes := List.replicate (2 * DATA_PAYLOAD_MAX + 1) 7

def smallTree : BuiltTree := treeOf plainPrimitives (copySlot [1]) threeChunks

def firstChunkNeeded : Bytes := encodeNeedList [⟨0, 1⟩]

def receiverKey : Bytes32 := copySlot [9]

/-- A receiver that could not fetch the first chunk, and has the others or waits for them. -/
def waitingFetch : Fetch :=
  { states := [.failed (copySlot [1]), .done, .inFlight (copySlot [3])]
    output := openOutputSink true threeChunks.length
    lastProgressAt := 0
    lastNeedPublish := 0 }

def failedPut : List SenderEvent :=
  [.observe receiverKey (some (1, firstChunkNeeded)), .pop, .putDone (.data 0) true]

/-- The receiver still misses the chunk after ten minutes, and puts the same list again with the next sequence number. The
watcher sees it and does not enqueue the chunk, whose put has failed. -/
theorem keepalive_passedOver : ((waitingFetch.publishNeedList ⟨.idle, 0, 40000, 40000, 0, true⟩).publishNeedList
        ⟨.idle, 0, 640000, 640000, 0, true⟩).published = [(1, firstChunkNeeded), (2, firstChunkNeeded)] ∧
      Asks (run (step copySlot smallTree) {} failedPut) receiverKey 2 firstChunkNeeded [⟨0, 1⟩] ∧
      .data 0 ∈ listedChunks smallTree [⟨0, 1⟩] ∧
      .data 0 ∈ ((run (step copySlot smallTree) {} failedPut).peer receiverKey).failedSince ∧
      ¬ Enqueued (run (step copySlot smallTree) {} failedPut)
        ((run (step copySlot smallTree) {} failedPut).step copySlot smallTree
          (.observe receiverKey (some (2, firstChunkNeeded)))) (.data 0) := by
  refine ⟨by decide +kernel, ⟨by decide +kernel, by decide +kernel, by decide, 1, by decide +kernel, by decide⟩,
    by decide +kernel, by decide +kernel, fun h => ?_⟩
  have hnone : (.data 0 : ChunkId) ∉ ((run (step copySlot smallTree) {} failedPut).step copySlot smallTree
      (.observe receiverKey (some (2, firstChunkNeeded)))).requested.drop
        (run (step copySlot smallTree) {} failedPut).requested.length := by decide +kernel
  exact hnone h.1

/-- A list with another value is serviced again. -/
theorem requeues_another : buildTreeFromBytes plainPrimitives (copySlot [1]) threeChunks = .ok smallTree ∧
      Along (step copySlot smallTree) (Requeues copySlot smallTree) {}
        (failedPut ++ [.observe receiverKey (some (2, encodeNeedList [⟨0, 2⟩]))]) := by
  have htree : buildTreeFromBytes plainPrimitives (copySlot [1]) threeChunks = .ok smallTree :=
    buildTreeFromBytes_eq threeChunks
  refine ⟨htree, (requeues_iff plainPrimitives (copySlot [1]) threeChunks copySlot _ htree).mpr
    ⟨fun entries hasks => ?_, trivial, trivial, fun entries hasks hsame => ?_, trivial⟩⟩
  · obtain ⟨serviced, hserviced, -⟩ := hasks.later
    cases hserviced
  · exact absurd hsame (by decide +kernel)

end Peeroxide.DeadDrop
