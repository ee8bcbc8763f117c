import Peeroxide.DeadDrop.Need
import Peeroxide.DeadDrop.Output
import Peeroxide.Lib.Machine

/-!
# Fetching a dead drop

The receiver reads the root, and then fetches index chunks and data chunks in tasks of their own. One loop takes what the
tasks return, in whatever order that is: the slots of an index chunk start further tasks, and data goes to the output.
Every twenty seconds the positions that could not be fetched are asked for in a need-list and are fetched again.
-/

namespace Peeroxide.DeadDrop
open Lib Dht

inductive Task where
  | index (publicKey : Bytes32) (remainingDepth base stop : Nat)
  | data (address : Bytes32) (position : Nat)
  deriving DecidableEq

inductive ChunkState where
  | unscheduled
  | inFlight (address : Bytes32)
  | failed (address : Bytes32)
  | done
  deriving DecidableEq

structure Fetch where
  tasks : List Task := []
  states : List ChunkState
  output : OutputSink
  hadError : Bool := false
  /-- Times are in milliseconds. -/
  lastProgressAt : Nat
  lastNeedPublish : Nat
  needSeq : Nat := 0
  lastPublishedEncoded : Option Bytes := none
  lastActualPublishAt : Option Nat := none
  /-- The need-lists that were put, with their sequence numbers. -/
  published : List (Nat × Bytes) := []
  /-- The positions that the output has accepted. -/
  accepted : List Nat := []
  /-- An index was past the end of the states. -/
  outOfBounds : Bool := false

/-- What the loop waits for: a task that ends, or a second without any. -/
inductive Joined where
  | idle
  | panicked (i : Nat)
  | finished (i : Nat) (result : Option Bytes)
  deriving DecidableEq

/-- One turn of the loop, with the times at which it looks at the clock. -/
structure Turn where
  joined : Joined
  processedAt : Nat
  checkedAt : Nat
  publishedAt : Nat
  windowAt : Nat
  /-- The stream can be written. -/
  writes : Bool
  deriving DecidableEq

def NEED_PUBLISH_INTERVAL : Nat := 20000
def NEED_KEEPALIVE_INTERVAL : Nat := 600000

namespace Fetch

/-! ## Scheduling -/

def setState (s : Fetch) (position : Nat) (state : ChunkState) : Fetch :=
  if position < s.states.length then { s with states := s.states.set position state } else { s with outOfBounds := true }

def scheduleData (stop : Nat) : List Bytes32 → Nat → Fetch → Fetch
  | [], _, s => s
  | address :: slots, pos, s =>
    if pos ≥ stop then s
    else
      let s := s.setState pos (.inFlight address)
      scheduleData stop slots (pos + 1) { s with tasks := s.tasks ++ [.data address pos] }

/-- The slots are keys of index chunks, each of which has `subtreeSize` positions, or what is left of them. -/
def scheduleIndex (childRemaining subtreeSize stop : Nat) : List Bytes32 → Nat → Fetch → Fetch
  | [], _, s => s
  | childPk :: slots, childBase, s =>
    if childBase ≥ stop then s
    else
      let childEnd := min ((childBase + subtreeSize) % 2 ^ 64) stop
      scheduleIndex childRemaining subtreeSize stop slots childEnd
        { s with tasks := s.tasks ++ [.index childPk childRemaining childBase childEnd] }

def subtreeSize : Nat → Nat
  | 0 => 1
  | k + 1 => saturatingMul64 (subtreeSize k) NON_ROOT_INDEX_SLOT_CAP

def scheduleChildren (s : Fetch) (slots : List Bytes32) (remainingDepth base stop : Nat) : Fetch :=
  match remainingDepth with
  | 0 => scheduleData stop slots base s
  | childRemaining + 1 => scheduleIndex childRemaining (subtreeSize (childRemaining + 1)) stop slots base s

/-! ## Results -/

inductive Flow where
  | onward (s : Fetch)
  /-- The rest of the turn is left out. -/
  | again (s : Fetch)
  | abort (s : Fetch)

/-- The payload of the last chunk is cut to the size of the file. -/
def trimmed (fileSize position : Nat) (payload : Bytes) : Bytes :=
  if (position + 1) * DATA_PAYLOAD_MAX % 2 ^ 64 > fileSize then payload.take (fileSize - position * DATA_PAYLOAD_MAX)
  else payload

def settleData (s : Fetch) (fileSize position : Nat) (bytes : Bytes) (turn : Turn) : Flow :=
  match decodeDataChunk bytes with
  | .error _ => .abort s
  | .ok payload =>
    match s.states[position]? with
    | none => .onward { s with outOfBounds := true }
    | some .done => .again s
    | some _ =>
      match s.output.accept position (trimmed fileSize position payload) turn.writes with
      | none => .abort s
      | some output =>
        .onward ({ s with
          output := output
          lastProgressAt := turn.processedAt
          accepted := s.accepted ++ [position] }.setState position .done)

def settleFailure (s : Fetch) (position : Nat) : Fetch :=
  match s.states[position]? with
  | none => { s with outOfBounds := true }
  | some (.inFlight address) => s.setState position (.failed address)
  | some _ => s

def settle (s : Fetch) (fileSize : Nat) (task : Task) (result : Option Bytes) (turn : Turn) : Flow :=
  match task, result with
  | .index _ remainingDepth base stop, some bytes =>
    match decodeNonRootIndex bytes with
    | .error _ => .abort s
    | .ok slots =>
      .onward ({ s with lastProgressAt := turn.processedAt }.scheduleChildren slots remainingDepth base stop)
  | .index _ _ _ _, none => .abort s
  | .data _ position, some bytes => s.settleData fileSize position bytes turn
  | .data _ position, none => .onward (s.settleFailure position)

/-! ## The need-list -/

def missing (s : Fetch) : List Nat := s.states.zipIdx.filterMap fun
  | (.failed _, position) => some (wrap32 position)
  | _ => none

def retries (s : Fetch) : List Task := s.states.zipIdx.filterMap fun
  | (.failed address, position) => some (.data address position)
  | _ => none

def retried : ChunkState → ChunkState
  | .failed address => .inFlight address
  | state => state

def respawn (s : Fetch) : Fetch := { s with tasks := s.tasks ++ s.retries, states := s.states.map retried }

/-- A need-list that is the same as the last one is put again only to keep it alive. -/
def publishNeedList (s : Fetch) (turn : Turn) : Fetch :=
  let encoded := encodeNeedList (coalesceMissingRanges s.missing)
  let unchanged : Bool := s.lastPublishedEncoded = some encoded
  let needsKeepalive := s.lastActualPublishAt.all fun t => NEED_KEEPALIVE_INTERVAL ≤ turn.checkedAt - t
  if !unchanged || needsKeepalive then
    { s with
      needSeq := s.needSeq + 1
      published := s.published ++ [(s.needSeq + 1, encoded)]
      lastActualPublishAt := some turn.publishedAt
      lastPublishedEncoded := some encoded }
  else s

def needCycle (s : Fetch) (turn : Turn) : Fetch :=
  if turn.checkedAt - s.lastNeedPublish ≥ NEED_PUBLISH_INTERVAL then
    let s := if s.missing ≠ [] then (s.publishNeedList turn).respawn else s
    { s with lastNeedPublish := turn.publishedAt }
  else s

/-! ## The loop -/

def checkWindow (s : Fetch) (chunkTimeout : Nat) (turn : Turn) : Fetch :=
  if turn.windowAt - s.lastProgressAt ≥ chunkTimeout then { s with hadError := true } else s

def endTurn (s : Fetch) (chunkTimeout : Nat) (turn : Turn) : Fetch := (s.needCycle turn).checkWindow chunkTimeout turn

def ended (s : Fetch) : Bool := s.hadError || s.tasks.isEmpty

def iterate (fileSize chunkTimeout : Nat) (s : Fetch) (turn : Turn) : Fetch :=
  if s.ended then s
  else
    match turn.joined with
    | .idle => s.endTurn chunkTimeout turn
    | .panicked i =>
      if i < s.tasks.length then { s with tasks := s.tasks.eraseIdx i }.endTurn chunkTimeout turn else s
    | .finished i result =>
      match s.tasks[i]? with
      | none => s
      | some task =>
        match { s with tasks := s.tasks.eraseIdx i }.settle fileSize task result turn with
        | .onward s => s.endTurn chunkTimeout turn
        | .again s => s
        | .abort s => { s with hadError := true }

/-! ## Before and after -/

/-- The root is read, and has the slots that go with its size. -/
def openRoot (rootData : Bytes) (timeout : Nat) : Option RootIndex :=
  if timeout = 0 then none
  else
    match decodeRootIndex rootData with
    | .error _ => none
    | .ok root => if root.slots.length ≠ expectedRootSlots (computeLayout root.fileSize) then none else some root

def start (root : RootIndex) (toFile : Bool) (now : Nat) : Fetch :=
  let layout := computeLayout root.fileSize
  { states := List.replicate layout.dataChunkCount .unscheduled
    output := openOutputSink toFile root.fileSize
    lastProgressAt := now
    lastNeedPublish := now : Fetch }.scheduleChildren root.slots layout.depth 0 layout.dataChunkCount

def doneCount (s : Fetch) : Nat := s.states.countP (· = .done)

/-- Zero when the output is complete and passes its check, and the file could be put in place. -/
def exitCode (P : Primitives) (root : RootIndex) (finalizes : Bool) (s : Fetch) : Nat :=
  if s.hadError then 1
  else if s.doneCount ≠ (computeLayout root.fileSize).dataChunkCount then 1
  else if !s.output.verifyCrc P root.fileSize root.crc32c then 1
  else if !finalizes then 1
  else 0

end Fetch
end Peeroxide.DeadDrop
