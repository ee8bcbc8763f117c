import Peeroxide.DeadDrop.Build
import Peeroxide.Lib.OrdMap

/-!
# Where the receiver puts the data

A file is written by position; a stream is written in order, so that what comes early is kept until its turn.
-/

namespace Peeroxide.DeadDrop
open Lib Dht List OrdMap

/-! ## The stream -/

structure StreamSink where
  emitPos : Nat
  expected : Nat
  /-- What came early. -/
  reorder : OrdMap Nat Bytes

namespace StreamSink

def new (expectedDataChunks : Nat) : StreamSink := ⟨0, expectedDataChunks, OrdMap.empty⟩

/-- Every turn of the loop takes one piece out of the buffer. -/
def drain : Nat → StreamSink → List Bytes × StreamSink
  | 0, s => ([], s)
  | fuel + 1, s =>
    match s.reorder.get? s.emitPos with
    | none => ([], s)
    | some next =>
      let (out, s') := drain fuel { s with emitPos := s.emitPos + 1, reorder := s.reorder.remove s.emitPos }
      (next :: out, s')

def accept (s : StreamSink) (position : Nat) (payload : Bytes) : List Bytes × StreamSink :=
  if position ≥ s.expected ∨ position < s.emitPos then ([], s)
  else if position = s.emitPos then
    let (out, s') := drain s.reorder.size { s with emitPos := s.emitPos + 1 }
    (payload :: out, s')
  else ([], { s with reorder := s.reorder.insert position payload })

end StreamSink

/-! ## Outputs -/

inductive OutputSink where
  /-- A file in memory, written by position. -/
  | file (mmap : Bytes)
  | emptyFile
  /-- The stream, and what was written to it. -/
  | stdout (sink : StreamSink) (written : Bytes)
  | emptyStdout

def saturatingMul64 (a b : Nat) : Nat := min (a * b) (2 ^ 64 - 1)

def openOutputSink (toFile : Bool) (fileSize : Nat) : OutputSink :=
  if toFile then
    if fileSize = 0 then .emptyFile
    else .file (List.replicate (max (saturatingMul64 (dataChunkCount fileSize) DATA_PAYLOAD_MAX) fileSize) 0)
  else if fileSize = 0 then .emptyStdout
  else .stdout (.new (dataChunkCount fileSize)) []

def overwrite (xs : Bytes) (offset : Nat) (ys : Bytes) : Bytes := xs.take offset ++ ys ++ xs.drop (offset + ys.length)

namespace OutputSink

/-- Nothing when the chunk does not fit, or the stream cannot be written. -/
def accept (o : OutputSink) (position : Nat) (payload : Bytes) (writes : Bool) : Option OutputSink :=
  match o with
  | .file mmap =>
    let offset := position * DATA_PAYLOAD_MAX % 2 ^ 64
    if offset + payload.length > mmap.length then none else some (.file (overwrite mmap offset payload))
  | .stdout sink written =>
    let (toEmit, sink) := sink.accept position payload
    if writes then some (.stdout sink (written ++ toEmit.flatten)) else none
  | .emptyFile => some .emptyFile
  | .emptyStdout => some .emptyStdout

/-- What the user gets: the file cut to its size, or what was written to the stream. -/
def content (fileSize : Nat) : OutputSink → Bytes
  | .file mmap => mmap.take fileSize
  | .stdout _ written => written
  | .emptyFile => []
  | .emptyStdout => []

/-- What was written to the stream is not checked. -/
def verifyCrc (P : Primitives) (fileSize : Nat) (expected : UInt32) : OutputSink → Bool
  | .file mmap => P.crc32c (mmap.take fileSize) = expected
  | .emptyFile => P.crc32c [] = expected
  | .emptyStdout => P.crc32c [] = expected
  | .stdout _ _ => true

end OutputSink

/-! ## What is assembled -/

def pieceAt (file : Bytes) (position : Nat) : Bytes := (file.drop (position * DATA_PAYLOAD_MAX)).take DATA_PAYLOAD_MAX

section
variable {file : Bytes} {done : Nat → Bool} {position : Nat}
variable {o : OutputSink} {offset : Nat} {sink : StreamSink} {written xs ys : Bytes}

theorem lt_dataChunkCount_iff : position < dataChunkCount file.length ↔ position * DATA_PAYLOAD_MAX < file.length := by
  rw [dataChunkCount_eq, lt_divCeil_iff (by decide)]

theorem take_add_pieceAt (position : Nat) : file.take (position * DATA_PAYLOAD_MAX) ++ pieceAt file position =
    file.take ((position + 1) * DATA_PAYLOAD_MAX) := by
  rw [pieceAt, Nat.succ_mul, take_add]

/-- The stream has the pieces below its position, and keeps those that came early. -/
structure StreamAssembles (file : Bytes) (done : Nat → Bool) (sink : StreamSink) (written : Bytes) : Prop where
  expected : sink.expected = dataChunkCount file.length
  inRange : ∀ position, done position = true → position < sink.expected
  written : written = file.take (sink.emitPos * DATA_PAYLOAD_MAX)
  below : ∀ position < sink.emitPos, done position = true
  next : done sink.emitPos = false
  kept : ∀ position payload, sink.emitPos ≤ position →
    ((position, payload) ∈ sink.reorder ↔ done position = true ∧ payload = pieceAt file position)

section
variable (hkept : ∀ position payload, sink.emitPos ≤ position →
  ((position, payload) ∈ sink.reorder ↔ done position = true ∧ payload = pieceAt file position))
include hkept

theorem not_done_of_get?_none (hnone : sink.reorder.get? sink.emitPos = none) : done sink.emitPos = false := by
  by_contra hdone
  refine get?_eq_none.mp hnone (pieceAt file sink.emitPos) ((hkept _ _ le_rfl).mpr ⟨?_, rfl⟩)
  exact (Bool.not_eq_false _).mp hdone

/-- What is contiguous is written, up to the first piece that is not there. -/
theorem StreamSink.drain_spec {fuel : Nat} (hfuel : sink.reorder.size ≤ fuel)
    (hexpected : sink.expected = dataChunkCount file.length)
    (hrange : ∀ position, done position = true → position < sink.expected)
    (hwritten : written = file.take (sink.emitPos * DATA_PAYLOAD_MAX))
    (hbelow : ∀ position < sink.emitPos, done position = true) :
    StreamAssembles file done (sink.drain fuel).2 (written ++ (sink.drain fuel).1.flatten) := by
  induction fuel generalizing sink written with
  | zero =>
    have hempty : sink.reorder.entries = [] := length_eq_zero_iff.mp (Nat.le_zero.mp hfuel)
    have hnone : sink.reorder.get? sink.emitPos = none := by
      rw [OrdMap.get?, hempty]
      rfl
    rw [StreamSink.drain, flatten_nil, append_nil]
    exact ⟨hexpected, hrange, hwritten, hbelow, not_done_of_get?_none hkept hnone, hkept⟩
  | succ fuel ih =>
    rw [StreamSink.drain]
    cases hget : sink.reorder.get? sink.emitPos with
    | none =>
      rw [flatten_nil, append_nil]
      exact ⟨hexpected, hrange, hwritten, hbelow, not_done_of_get?_none hkept hget, hkept⟩
    | some next =>
      obtain ⟨hdone, rfl⟩ := (hkept _ next le_rfl).mp (get?_eq_some.mp hget)
      have hsmaller := size_remove_lt hget
      have hbelow' : ∀ position < sink.emitPos + 1, done position = true := by
        intro position hlt
        rcases Nat.lt_succ_iff_lt_or_eq.mp hlt with hlt | rfl
        · exact hbelow position hlt
        · exact hdone
      have hkept' : ∀ position payload, sink.emitPos + 1 ≤ position →
          ((position, payload) ∈ sink.reorder.remove sink.emitPos ↔
            done position = true ∧ payload = pieceAt file position) := by
        intro position payload hle
        rw [mem_remove, ← hkept position payload (by omega)]
        exact and_iff_left (Nat.ne_of_gt hle)
      have hwritten' : written ++ pieceAt file sink.emitPos = file.take ((sink.emitPos + 1) * DATA_PAYLOAD_MAX) := by
        rw [hwritten, take_add_pieceAt]
      rw [flatten_cons, ← append_assoc]
      exact ih hkept' (Nat.le_of_lt_succ (hsmaller.trans_le hfuel)) hexpected hrange hwritten' hbelow'

end

theorem StreamAssembles.accept (h : StreamAssembles file done sink written)
    (hposition : position < dataChunkCount file.length) (hnew : done position = false) :
    StreamAssembles file (Function.update done position true) (sink.accept position (pieceAt file position)).2
      (written ++ (sink.accept position (pieceAt file position)).1.flatten) := by
  have hrange : ∀ p, Function.update done position true p = true → p < sink.expected := by
    intro p hp
    by_cases heq : p = position
    · rw [heq, h.expected]
      exact hposition
    · rw [Function.update_of_ne heq] at hp
      exact h.inRange p hp
  have hfirst : ¬ (position ≥ sink.expected ∨ position < sink.emitPos) := by
    rw [h.expected]
    rintro (hge | hlt)
    · omega
    · rw [h.below position hlt] at hnew
      cases hnew
  rw [StreamSink.accept, if_neg hfirst]
  by_cases hturn : position = sink.emitPos
  · rw [if_pos hturn, flatten_cons, ← append_assoc]
    subst hturn
    refine StreamSink.drain_spec (fun p payload hp => ?_) le_rfl h.expected hrange ?_ fun p hp => ?_
    · have hne : p ≠ sink.emitPos := Nat.ne_of_gt hp
      rw [Function.update_of_ne hne]
      exact h.kept p payload (Nat.le_of_lt hp)
    · rw [h.written, take_add_pieceAt]
    · rcases Nat.lt_succ_iff_lt_or_eq.mp hp with hp | rfl
      · rw [Function.update_of_ne (Nat.ne_of_lt hp)]
        exact h.below p hp
      · exact Function.update_self ..
  · rw [if_neg hturn, flatten_nil, append_nil]
    have hlater : sink.emitPos < position := by omega
    refine ⟨h.expected, hrange, h.written, fun p hp => ?_, ?_, fun p payload hp => ?_⟩
    · have hlt : p < sink.emitPos := hp
      rw [Function.update_of_ne (Nat.ne_of_lt (hlt.trans hlater))]
      exact h.below p hp
    · exact (Function.update_of_ne (Ne.symm hturn) _ _).trans h.next
    · by_cases heq : p = position
      · subst heq
        simp
      · rw [Function.update_of_ne heq, ← h.kept p payload hp]
        simp [heq]

theorem length_overwrite (h : offset + ys.length ≤ xs.length) : (overwrite xs offset ys).length = xs.length := by
  rw [overwrite, length_append, length_append, length_take, length_drop]
  omega

theorem getElem?_overwrite (h : offset + ys.length ≤ xs.length) (i : Nat) :
    (overwrite xs offset ys)[i]? = if offset ≤ i ∧ i < offset + ys.length then ys[i - offset]? else xs[i]? := by
  have htake : (xs.take offset).length = offset := by
    rw [length_take]
    omega
  have hfront : (xs.take offset ++ ys).length = offset + ys.length := by rw [length_append, htake]
  rw [overwrite]
  rcases Nat.lt_or_ge i offset with hlt | hge
  · rw [if_neg (by omega), append_assoc, getElem?_append_left (by omega), getElem?_take_of_lt hlt]
  · rcases Nat.lt_or_ge i (offset + ys.length) with hlt | hge'
    · rw [if_pos ⟨hge, hlt⟩, getElem?_append_left (by omega), getElem?_append_right (by omega), htake]
    · rw [if_neg (by omega), getElem?_append_right (by omega), getElem?_drop]
      congr 1
      omega

/-- The file has the bytes of the pieces that have come. -/
structure FileAssembles (file : Bytes) (done : Nat → Bool) (mmap : Bytes) : Prop where
  room : file.length ≤ mmap.length
  bytes : ∀ i < file.length, done (i / DATA_PAYLOAD_MAX) = true → mmap[i]? = file[i]?

theorem length_pieceAt (file : Bytes) (position : Nat) :
    (pieceAt file position).length = min DATA_PAYLOAD_MAX (file.length - position * DATA_PAYLOAD_MAX) := by
  rw [pieceAt, length_take, length_drop]

theorem FileAssembles.write {mmap : Bytes} (h : FileAssembles file done mmap)
    (hposition : position < dataChunkCount file.length) :
    position * DATA_PAYLOAD_MAX + (pieceAt file position).length ≤ mmap.length ∧
    FileAssembles file (Function.update done position true)
      (overwrite mmap (position * DATA_PAYLOAD_MAX) (pieceAt file position)) := by
  have hlt := lt_dataChunkCount_iff.mp hposition
  have hlen := length_pieceAt file position
  have hroom := h.room
  have hfits : position * DATA_PAYLOAD_MAX + (pieceAt file position).length ≤ mmap.length := by omega
  refine ⟨hfits, by rw [length_overwrite hfits]; exact hroom, fun i hi hdone => ?_⟩
  rw [getElem?_overwrite hfits]
  split
  next hinside =>
    rw [pieceAt, getElem?_take_of_lt (by omega), getElem?_drop]
    congr 1
    omega
  next houtside =>
    -- a byte of the piece itself would be inside
    have hne : i / DATA_PAYLOAD_MAX ≠ position := by
      rintro rfl
      have hle := Nat.div_mul_le_self i DATA_PAYLOAD_MAX
      have hrest := Nat.lt_div_mul_add (b := DATA_PAYLOAD_MAX) (a := i) (by decide)
      omega
    rw [Function.update_of_ne hne] at hdone
    exact h.bytes i hi hdone

/-- What has been accepted of a file is in the output, or is kept for its turn. -/
def Assembles (file : Bytes) (done : Nat → Bool) : OutputSink → Prop
  | .file mmap => FileAssembles file done mmap
  | .stdout sink written => StreamAssembles file done sink written
  | .emptyFile => file = []
  | .emptyStdout => file = []

theorem assembles_open (toFile : Bool) (file : Bytes) :
    Assembles file (fun _ => false) (openOutputSink toFile file.length) := by
  rw [openOutputSink]
  split
  · split
    next hempty =>
      exact length_eq_zero_iff.mp hempty
    · refine ⟨?_, nofun⟩
      rw [length_replicate]
      exact le_max_right _ _
  · split
    next hempty =>
      exact length_eq_zero_iff.mp hempty
    · refine ⟨rfl, nofun, ?_, nofun, rfl, fun p payload _ => ?_⟩
      · rw [StreamSink.new, Nat.zero_mul, take_zero]
      · refine iff_of_false (not_mem_empty _) fun h => ?_
        cases h.1

theorem Assembles.accept (h : Assembles file done o) (hsize : file.length < 2 ^ 64)
    (hposition : position < dataChunkCount file.length) (hnew : done position = false) :
    ∃ o', o.accept position (pieceAt file position) true = some o' ∧
      Assembles file (Function.update done position true) o' := by
  have hlt := lt_dataChunkCount_iff.mp hposition
  have hne : file ≠ [] := by
    rintro rfl
    exact Nat.not_lt_zero _ hlt
  cases o with
  | file mmap =>
    obtain ⟨hfits, hwrite⟩ := FileAssembles.write h hposition
    refine ⟨.file _, ?_, hwrite⟩
    rw [OutputSink.accept]
    rw [Nat.mod_eq_of_lt (hlt.trans hsize), if_neg (Nat.not_lt.mpr hfits)]
  | stdout sink written => exact ⟨_, rfl, StreamAssembles.accept h hposition hnew⟩
  | emptyFile | emptyStdout => exact absurd h hne

theorem Assembles.content (h : Assembles file done o)
    (hall : ∀ position < dataChunkCount file.length, done position = true) : o.content file.length = file := by
  cases o with
  | file mmap =>
    refine ext_getElem? fun i => ?_
    rw [OutputSink.content]
    rcases Nat.lt_or_ge i file.length with hlt | hge
    · rw [getElem?_take_of_lt hlt]
      refine FileAssembles.bytes h i hlt (hall _ (lt_dataChunkCount_iff.mpr ?_))
      exact (Nat.div_mul_le_self i _).trans_lt hlt
    · rw [getElem?_eq_none hge, getElem?_eq_none]
      exact (length_take_le _ _).trans hge
  | stdout sink written =>
    have hend : dataChunkCount file.length ≤ sink.emitPos := by
      by_contra hlt
      have hnext := StreamAssembles.next h
      rw [hall _ (Nat.lt_of_not_le hlt)] at hnext
      cases hnext
    rw [StreamAssembles.written h]
    refine take_of_length_le ?_
    rw [dataChunkCount_eq, divCeil_le_iff (by decide)] at hend
    exact hend
  | emptyFile | emptyStdout => exact h.symm

theorem Assembles.verifyCrc (h : Assembles file done o) (hcontent : o.content file.length = file)
    (P : Primitives) : o.verifyCrc P file.length (P.crc32c file) = true := by
  cases o with
  | file mmap =>
    rw [OutputSink.content] at hcontent
    rw [OutputSink.verifyCrc, hcontent]
    exact decide_eq_true rfl
  | stdout sink written => rfl
  | emptyFile | emptyStdout =>
    rw [show file = [] from h]
    exact decide_eq_true rfl

end
end Peeroxide.DeadDrop
