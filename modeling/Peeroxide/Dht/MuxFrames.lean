import Peeroxide.Dht.CompactEncoding

/-!
# Protomux frames

A frame starts with a channel id. Id `0` is a control frame: a batch of messages, or an open, a reject or a close of a
channel; any other id is a message on that channel. A batch names a channel and then lists length-prefixed items; a
length of zero is followed by the id of the channel of the items behind it.
-/

namespace Peeroxide.Dht
open Lib List Cursor
variable {bs data payload : Bytes} {channel messageType prev : UInt64} {entries : List (UInt64 × ByteVec)}
  {fuel : Nat}

inductive ProtomuxError where
  | encoding (e : EncodingError)
  | invalidFrame (reason : String)
  deriving DecidableEq, Repr

def CTRL_BATCH : UInt64 := 0
def CTRL_OPEN : UInt64 := 1
def CTRL_REJECT : UInt64 := 2
def CTRL_CLOSE : UInt64 := 3

/-! ## Encoding -/

def encodeOpen (localId : UInt64) (protocol : String) (id handshake : Option ByteVec) :
    Except (Fault EncodingError) Bytes :=
  emit
    (fun c => (preencodeBuffer (preencodeString (preencodeUint (c.reserve 2) localId) protocol) id).reserveOpt
      handshake fun c hs => c.reserve hs.1.length)
    (do
      write [0, 1]
      encodeUint localId
      encodeString protocol
      encodeBuffer id
      writeOpt handshake fun hs => write hs.1)

def encodeControl (kind : UInt8) (id : UInt64) : Except (Fault EncodingError) Bytes :=
  emit (fun c => preencodeUint (c.reserve 2) id)
    (do
      write [0, kind]
      encodeUint id)

def encodeClose (localId : UInt64) : Except (Fault EncodingError) Bytes := encodeControl 3 localId

def encodeReject (remoteId : UInt64) : Except (Fault EncodingError) Bytes := encodeControl 2 remoteId

def encodeMessage (channelId messageType : UInt64) (payload : Bytes) : Except (Fault EncodingError) Bytes :=
  emit (fun c => (preencodeUint (preencodeUint c channelId) messageType).reserve payload.length)
    (do
      encodeUint channelId
      encodeUint messageType
      write payload)

def encodeInner (messageType : UInt64) (payload : Bytes) : Except (Fault EncodingError) Bytes :=
  emit (fun c => (preencodeUint c messageType).reserve payload.length)
    (do
      encodeUint messageType
      write payload)

/-- The first pass over the items of a batch; `prev` is the channel of the item before. -/
def preencodeEntries (c : State) (prev : UInt64) : List (UInt64 × ByteVec) → State
  | [] => c
  | (channel, buf) :: entries =>
    let c := if channel ≠ prev then preencodeUint (c.reserve 1) channel else c
    preencodeEntries (preencodeBuffer c (some buf)) channel entries

def encodeEntries (prev : UInt64) : List (UInt64 × ByteVec) → Encoder
  | [] => pure ()
  | (channel, buf) :: entries => do
    writeIf (channel ≠ prev) do
      write [0]
      encodeUint channel
    encodeBuffer (some buf)
    encodeEntries channel entries

def encodeBatch : List (UInt64 × ByteVec) → Except (Fault EncodingError) Bytes
  | [] => .ok []
  | (first, buf) :: entries =>
    emit (fun c => preencodeEntries (preencodeUint (c.reserve 2) first) first ((first, buf) :: entries))
      (do
        write [0, 0]
        encodeUint first
        encodeEntries first ((first, buf) :: entries))

/-! ### The bytes of each frame -/

def openBytes (localId : UInt64) (protocol : String) (id handshake : Option ByteVec) : Bytes :=
  [0, 1] ++ (uintBytes localId ++ (stringBytes protocol ++ (bufferBytes id ++ handshake.elim [] (·.1))))

def controlBytes (kind : UInt8) (id : UInt64) : Bytes := [0, kind] ++ uintBytes id

def messageBytes (channelId messageType : UInt64) (payload : Bytes) : Bytes :=
  uintBytes channelId ++ (uintBytes messageType ++ payload)

def innerBytes (messageType : UInt64) (payload : Bytes) : Bytes := uintBytes messageType ++ payload

def entriesBytes (prev : UInt64) : List (UInt64 × ByteVec) → Bytes
  | [] => []
  | (channel, buf) :: entries =>
    (if channel ≠ prev then [0] ++ uintBytes channel else []) ++ (bufferBytes (some buf) ++ entriesBytes channel entries)

def batchBytes : List (UInt64 × ByteVec) → Bytes
  | [] => []
  | (first, buf) :: entries => [0, 0] ++ (uintBytes first ++ entriesBytes first ((first, buf) :: entries))

variable (kind : UInt8) (id : UInt64) (localId : UInt64)

theorem encodeOpen_eq (protocol : String) (id handshake : Option ByteVec) :
    encodeOpen localId protocol id handshake = .ok (openBytes localId protocol id handshake) := by
  refine Writes.emit ?_ ?_
  · exact (writes_write [0, 1]).append ((writes_uint localId).append ((writes_string protocol).append
      ((writes_buffer id).append (.writeOpt fun hs _ => writes_write hs.1))))
  · have hhandshake : ∀ c : State, c.reserveOpt handshake (fun c hs => c.reserve hs.1.length) =
        c.reserve (handshake.elim [] (·.1)).length := fun c => reserveOpt_eq fun _ _ => rfl
    rw [hhandshake, preencodeBuffer_eq, preencodeString_eq, preencodeUint_eq]
    simp only [reserve_reserve, openBytes, length_append, Nat.add_assoc]
    rfl

theorem encodeControl_eq : encodeControl kind id = .ok (controlBytes kind id) := by
  refine Writes.emit ((writes_write [0, kind]).append (writes_uint id)) ?_
  rw [preencodeUint_eq, reserve_reserve, length_append]
  rfl

theorem encodeInner_eq (messageType : UInt64) (payload : Bytes) :
    encodeInner messageType payload = .ok (innerBytes messageType payload) := by
  refine Writes.emit ((writes_uint messageType).append (writes_write payload)) ?_
  rw [preencodeUint_eq, reserve_reserve, length_append]

theorem encodeMessage_eq (channelId messageType : UInt64) (payload : Bytes) :
    encodeMessage channelId messageType payload = .ok (messageBytes channelId messageType payload) := by
  refine Writes.emit ((writes_uint channelId).append ((writes_uint messageType).append (writes_write payload))) ?_
  simp only [preencodeUint_eq, reserve_reserve, length_append, Nat.add_assoc]

theorem preencodeEntries_eq (c : State) (prev : UInt64) (entries : List (UInt64 × ByteVec)) :
    preencodeEntries c prev entries = c.reserve (entriesBytes prev entries).length := by
  induction entries generalizing c prev with
  | nil => rfl
  | cons entry entries ih =>
    obtain ⟨channel, buf⟩ := entry
    rw [preencodeEntries, ih, preencodeBuffer_eq, entriesBytes]
    by_cases h : channel = prev
    · rw [if_neg (not_not_intro h), if_neg (not_not_intro h), nil_append, length_append,
        reserve_reserve]
    · rw [if_pos h, if_pos h, preencodeUint_eq]
      simp only [reserve_reserve, length_append, length_singleton, Nat.add_assoc]

theorem writes_entries (prev : UInt64) (entries : List (UInt64 × ByteVec)) :
    Writes (encodeEntries prev entries) (entriesBytes prev entries) := by
  induction entries generalizing prev with
  | nil => exact .nil
  | cons entry entries ih =>
    obtain ⟨channel, buf⟩ := entry
    have hswitch : Writes (writeIf (channel ≠ prev) do write [0]; encodeUint channel)
        (if channel ≠ prev then [0] ++ uintBytes channel else []) := by
      have h : Writes (writeIf (channel ≠ prev) do write [0]; encodeUint channel)
          (if decide (channel ≠ prev) then [0] ++ uintBytes channel else []) :=
        .writeIf fun _ => (writes_write [0]).append (writes_uint channel)
      simpa only [decide_eq_true_eq] using h
    exact hswitch.append ((writes_buffer (some buf)).append (ih channel))

theorem encodeBatch_eq (entries : List (UInt64 × ByteVec)) : encodeBatch entries = .ok (batchBytes entries) := by
  cases entries with
  | nil => rfl
  | cons entry entries =>
    obtain ⟨first, buf⟩ := entry
    unfold encodeBatch batchBytes
    refine Writes.emit ((writes_write [0, 0]).append ((writes_uint first).append (writes_entries first _))) ?_
    rw [preencodeEntries_eq, preencodeUint_eq]
    simp only [reserve_reserve, length_append, Nat.add_assoc]
    rfl

/-- The vector an encoder hands out. A vector of more than `isize::MAX` bytes is not allocated: the program stops. -/
def vecOf : Except (Fault EncodingError) Bytes → Option ByteVec
  | .ok bs => if h : bs.length ≤ maxGrant then some ⟨bs, lt_of_le_of_lt h maxGrant_lt⟩ else none
  | .error _ => none

theorem vecOf_eq_some {v : ByteVec} (h : vecOf (.ok bs) = some v) : v.1 = bs ∧ bs.length ≤ maxGrant := by
  by_cases hlen : bs.length ≤ maxGrant
  · have hsome : vecOf (.ok bs) = some ⟨bs, lt_of_le_of_lt hlen maxGrant_lt⟩ := dif_pos hlen
    rw [hsome] at h
    cases h
    exact ⟨rfl, hlen⟩
  · have hnone : vecOf (.ok bs) = none := dif_neg hlen
    rw [hnone] at h
    cases h

/-! ## Decoding -/

inductive ControlFrame where
  | openChannel (localId : UInt64) (protocol : String) (id : Option ByteVec) (handshakeState : Option Bytes)
  | closeChannel (localId : UInt64)
  | rejectChannel (remoteId : UInt64)
  deriving DecidableEq, Repr

structure BatchItem where
  channelId : UInt64
  data : Bytes
  deriving DecidableEq, Repr

inductive DecodedFrame where
  | control (ctrl : ControlFrame)
  | batch (items : List BatchItem)
  | message (channelId messageType : UInt64) (payload : Bytes)
  deriving DecidableEq, Repr

variable {frame : DecodedFrame} {items : List BatchItem}

abbrev FrameDecoder (α : Type) := Action ProtomuxError α

def liftDecoder {α : Type} (a : Decoder α) : FrameDecoder α := liftError .encoding a

def decodeOpenTail : FrameDecoder DecodedFrame := do
  let localId ← liftDecoder decodeUint
  let protocol ← liftDecoder decodeString
  let id ← liftDecoder decodeBuffer
  let more ← hasLeft
  let handshake ← readIf more sliceToEnd
  pure (.control (.openChannel localId protocol id handshake))

/-- The data of an item. The sum of the position and the length is a `usize`. -/
def itemData (len : UInt64) : FrameDecoder Bytes := fun c =>
  if 2 ^ 64 ≤ c.start + len.toNat then .error .panic
  else if c.stop < c.start + len.toNat then .error (.error (.invalidFrame "batch item overflows frame"))
  else (slice len.toNat c).map fun r => (r.1.1, r.2)

/-- The items of a batch, and the switches from one channel to another. Each round reads a byte at least, so a fuel of
the number of bytes that are left is enough. -/
def decodeItems : Nat → UInt64 → FrameDecoder (List BatchItem)
  | 0, _ => pure []
  | fuel + 1, channel => do
    let more ← hasLeft
    if more then do
      let len ← liftDecoder decodeUint
      if len = 0 then do
        let next ← liftDecoder decodeUint
        decodeItems fuel next
      else do
        let data ← itemData len
        let items ← decodeItems fuel channel
        pure (⟨channel, data⟩ :: items)
    else pure []

def decodeBatchTail (fuel : Nat) : FrameDecoder DecodedFrame := do
  let first ← liftDecoder decodeUint
  let items ← decodeItems fuel first
  pure (.batch items)

def decodeControlTail (fuel : Nat) (ctrlType : UInt64) : FrameDecoder DecodedFrame :=
  if ctrlType = CTRL_OPEN then decodeOpenTail
  else if ctrlType = CTRL_CLOSE then do
    let localId ← liftDecoder decodeUint
    pure (.control (.closeChannel localId))
  else if ctrlType = CTRL_REJECT then do
    let remoteId ← liftDecoder decodeUint
    pure (.control (.rejectChannel remoteId))
  else if ctrlType = CTRL_BATCH then decodeBatchTail fuel
  else raise (.invalidFrame ("unknown control type: " ++ toString ctrlType.toNat))

def decodeFrameTail (fuel : Nat) (channelId : UInt64) : FrameDecoder DecodedFrame :=
  if channelId = 0 then do
    let ctrlType ← liftDecoder decodeUint
    decodeControlTail fuel ctrlType
  else do
    let messageType ← liftDecoder decodeUint
    let payload ← sliceToEnd
    pure (.message channelId messageType payload)

def decodeFrame (data : Bytes) : Except (Fault ProtomuxError) DecodedFrame :=
  if data.isEmpty then .error (.error (.invalidFrame "empty frame"))
  else parse (do
    let channelId ← liftDecoder decodeUint
    decodeFrameTail data.length channelId) data

def decodeInner (data : Bytes) : Except (Fault EncodingError) (UInt64 × Bytes) :=
  parse (do
    let messageType ← decodeUint
    let payload ← sliceToEnd
    pure (messageType, payload)) data

/-! ## What is encoded is decoded again -/

theorem reads_liftUint (n : UInt64) : Reads (liftDecoder decodeUint) (uintBytes n) n := (reads_uint n).liftError _

theorem decodeFrame_parses (channelId : UInt64)
    (hcap : data.length ≤ maxGrant) (hdata : data = uintBytes channelId ++ bs)
    (h : Parses (decodeFrameTail data.length channelId) bs frame) : decodeFrame data = .ok frame := by
  have hne : data.isEmpty = false := by
    have hpos := (length_uintBytes channelId).1
    rw [isEmpty_eq_false_iff, hdata]
    intro hnil
    rw [(append_eq_nil_iff.mp hnil).1] at hpos
    exact absurd hpos (by decide)
  unfold decodeFrame
  rw [hne]
  have hall := (reads_liftUint channelId).bind_parses h
  rw [← hdata] at hall
  exact hall.parse hcap

theorem decodeFrame_control (hkind : kind ≤ 0xfc) (hcap : data.length ≤ maxGrant) (hdata : data = [0, kind] ++ bs)
    (h : Parses (decodeControlTail data.length kind.toUInt64) bs frame) : decodeFrame data = .ok frame := by
  have hbyte : uintBytes kind.toUInt64 = [kind] := by
    have hle : kind.toUInt64 ≤ 0xfc := by
      exact hkind
    rw [uintBytes, if_pos hle]
    simp
  refine decodeFrame_parses 0 hcap (by rw [hdata]; rfl : data = uintBytes 0 ++ ([kind] ++ bs)) ?_
  rw [decodeFrameTail, ← hbyte]
  exact (reads_liftUint kind.toUInt64).bind_parses h

theorem length_controlBytes_le : (controlBytes kind id).length ≤ 11 := by
  unfold controlBytes uintBytes
  split
  · simp
  · split
    · simp
    · split <;> simp

theorem decodeFrame_close : decodeFrame (controlBytes 3 localId) = .ok (.control (.closeChannel localId)) :=
  decodeFrame_control 3 (by decide) (le_trans (length_controlBytes_le 3 localId) (by decide)) rfl
    ((reads_liftUint localId).map fun n => DecodedFrame.control (.closeChannel n)).parses

theorem decodeFrame_reject (remoteId : UInt64) :
    decodeFrame (controlBytes 2 remoteId) = .ok (.control (.rejectChannel remoteId)) :=
  decodeFrame_control 2 (by decide) (le_trans (length_controlBytes_le 2 remoteId) (by decide)) rfl
    ((reads_liftUint remoteId).map fun n => DecodedFrame.control (.rejectChannel n)).parses

/-- An empty handshake counts as none, as an empty id does. -/
theorem decodeFrame_open {protocol : String} {id handshake : Option ByteVec}
    (hcap : (openBytes localId protocol id handshake).length ≤ maxGrant) :
    decodeFrame (openBytes localId protocol id handshake) =
      .ok (.control (.openChannel localId protocol (nonEmpty id) ((nonEmpty handshake).map (·.1)))) := by
  have hprotocol : (encodeUtf8 protocol.toList).length < 2 ^ 64 := by
    have hlen := hcap
    simp only [openBytes, stringBytes, length_append] at hlen
    exact lt_of_le_of_lt (by omega) maxGrant_lt
  refine decodeFrame_control 1 (by decide) hcap rfl ?_
  refine (reads_liftUint localId).bind_parses (((reads_string hprotocol).liftError _).bind_parses
    (((reads_buffer id).liftError _).bind_parses (.hasLeft ?_)))
  have hread : Parses (ε := ProtomuxError) (readIf (!(handshake.elim [] (·.1)).isEmpty) sliceToEnd)
      (handshake.elim [] (·.1)) ((nonEmpty handshake).map (·.1)) := by
    cases handshake with
    | none => exact .pure none _
    | some hs =>
      by_cases hnil : hs.1 = []
      · rw [nonEmpty_of_nil hnil]
        simp only [Option.elim_some, hnil]
        exact .pure none _
      · have hmore : (!hs.1.isEmpty) = true := by simp [hnil]
        simp only [nonEmpty_of_ne_nil hnil, Option.elim_some, hmore]
        exact (parses_sliceToEnd hs.1).map some
  exact hread.map fun hs => DecodedFrame.control (.openChannel localId protocol (nonEmpty id) hs)

theorem decodeFrame_message {channelId : UInt64} (h : channelId ≠ 0)
    (hcap : (messageBytes channelId messageType payload).length ≤ maxGrant) :
    decodeFrame (messageBytes channelId messageType payload) = .ok (.message channelId messageType payload) := by
  refine decodeFrame_parses channelId hcap rfl ?_
  rw [decodeFrameTail, if_neg h]
  exact (reads_liftUint messageType).bind_parses
    ((parses_sliceToEnd payload).map fun p => DecodedFrame.message channelId messageType p)

theorem decodeInner_innerBytes (hcap : (innerBytes messageType payload).length ≤ maxGrant) :
    decodeInner (innerBytes messageType payload) = .ok (messageType, payload) :=
  ((reads_uint messageType).bind_parses ((parses_sliceToEnd payload).map fun p => (messageType, p))).parse hcap

/-! ### Batches -/

theorem itemData_faces {c : Cursor} {buf : Bytes} {len : UInt64} (hlen : len.toNat = buf.length)
    (hcap : c.buffer.length ≤ maxGrant) (hc : c.Faces (buf ++ bs)) : itemData len c = .ok (buf, c.skip buf.length) := by
  have hall := hc.length
  rw [length_append] at hall
  have hmax : c.buffer.length < 2 ^ 64 := lt_of_le_of_lt hcap maxGrant_lt
  have hslice := reads_slice (ε := ProtomuxError) hlen.symm c bs hc
  unfold itemData
  rw [if_neg (by omega), if_neg (by rw [hc.stop]; omega), hslice]
  rfl

theorem parses_item {buf : ByteVec} (hbuf : buf.1 ≠ []) (h : Parses (decodeItems fuel channel) bs items) :
    Parses (decodeItems (fuel + 1) channel) (bufferBytes (some buf) ++ bs) (⟨channel, buf.1⟩ :: items) := by
  have hlen : (UInt64.ofNat buf.1.length).toNat = buf.1.length := UInt64.toNat_ofNat_of_lt' buf.2
  have hne : UInt64.ofNat buf.1.length ≠ 0 := by
    intro h0
    rw [h0] at hlen
    exact hbuf (eq_nil_of_length_eq_zero hlen.symm)
  have hmore : (!(bufferBytes (some buf) ++ bs).isEmpty) = true := by simp [bufferBytes, hbuf]
  refine .hasLeft ?_
  rw [hmore, bufferBytes, append_assoc]
  refine (reads_liftUint _).bind_parses ?_
  rw [if_neg hne]
  intro c hcap hc
  rw [bind_ok (itemData_faces hlen hcap hc)]
  exact (h.map (⟨channel, buf.1⟩ :: ·)) (c.skip buf.1.length) hcap hc.skip

theorem parses_switch (h : Parses (decodeItems fuel channel) bs items) :
    Parses (decodeItems (fuel + 1) prev) ([0] ++ uintBytes channel ++ bs) items := by
  refine .hasLeft ?_
  refine (reads_liftUint 0).bind_parses ?_
  exact (reads_liftUint channel).bind_parses h

theorem parses_entries (hne : ∀ e ∈ entries, e.2.1 ≠ []) (hfuel : (entriesBytes prev entries).length ≤ fuel) :
    Parses (decodeItems fuel prev) (entriesBytes prev entries) (entries.map fun e => ⟨e.1, e.2.1⟩) := by
  induction entries generalizing fuel prev with
  | nil =>
    cases fuel with
    | zero => exact .pure [] _
    | succ fuel => exact .hasLeft (.pure [] _)
  | cons entry entries ih =>
    obtain ⟨channel, buf⟩ := entry
    have hbuf : buf.1 ≠ [] := hne (channel, buf) mem_cons_self
    have hbytes : 1 ≤ (bufferBytes (some buf)).length := by
      have := (length_uintBytes (UInt64.ofNat buf.1.length)).1
      rw [bufferBytes, length_append]
      omega
    have hrest := fun fuel (hf : (entriesBytes channel entries).length ≤ fuel) =>
      parses_item hbuf (ih (fun e he => hne e (mem_cons_of_mem _ he)) hf)
    rw [entriesBytes] at hfuel ⊢
    by_cases hsame : channel = prev
    · subst hsame
      simp only [ne_eq, length_append] at hfuel ⊢
      obtain ⟨fuel, rfl⟩ : ∃ n, fuel = n + 1 := ⟨fuel - 1, by omega⟩
      exact hrest fuel (by omega)
    · simp only [ne_eq, hsame, not_false_eq_true, if_true, length_append, length_singleton] at hfuel ⊢
      obtain ⟨fuel, rfl⟩ : ∃ n, fuel = n + 1 + 1 := ⟨fuel - 2, by omega⟩
      exact parses_switch (hrest fuel (by omega))

theorem decodeFrame_batch (hne : ∀ e ∈ entries, e.2.1 ≠ []) (hsome : entries ≠ [])
    (hcap : (batchBytes entries).length ≤ maxGrant) :
    decodeFrame (batchBytes entries) = .ok (.batch (entries.map fun e => ⟨e.1, e.2.1⟩)) := by
  cases entries with
  | nil => exact absurd rfl hsome
  | cons entry entries =>
    obtain ⟨first, buf⟩ := entry
    refine decodeFrame_control 0 (by decide) hcap rfl ?_
    have hfuel : (entriesBytes first ((first, buf) :: entries)).length ≤ (batchBytes ((first, buf) :: entries)).length := by
      rw [batchBytes, length_append, length_append]
      omega
    exact (reads_liftUint first).bind_parses ((parses_entries hne hfuel).map DecodedFrame.batch)

/-- What an encoder hands out is the frame again. A vector of more than `isize::MAX` bytes is not allocated. -/
def Inverted (encoded : Except (Fault EncodingError) Bytes) (frame : DecodedFrame) : Prop :=
  ∃ bs, encoded = .ok bs ∧ (bs.length ≤ maxGrant → decodeFrame bs = .ok frame)

/-- **Decoding inverts every encoder of frames.** -/
theorem frame_round_trip :
    (∀ localId protocol id handshake, Inverted (encodeOpen localId protocol id handshake)
      (.control (.openChannel localId protocol (nonEmpty id) ((nonEmpty handshake).map (·.1))))) ∧
    (∀ localId, Inverted (encodeClose localId) (.control (.closeChannel localId))) ∧
    (∀ remoteId, Inverted (encodeReject remoteId) (.control (.rejectChannel remoteId))) ∧
    (∀ channelId ≠ 0, ∀ messageType payload, Inverted (encodeMessage channelId messageType payload)
      (.message channelId messageType payload)) ∧
    ∀ entries : List (UInt64 × ByteVec), entries ≠ [] → (∀ e ∈ entries, e.1 ≠ 0 ∧ e.2.1 ≠ []) →
      Inverted (encodeBatch entries) (.batch (entries.map fun e => ⟨e.1, e.2.1⟩)) := by
  refine ⟨fun localId protocol id handshake => ?_, fun localId => ?_, fun remoteId => ?_,
    fun channelId hid messageType payload => ?_, fun entries hsome hne => ?_⟩
  · exact ⟨_, encodeOpen_eq localId protocol id handshake, decodeFrame_open localId⟩
  · exact ⟨_, encodeControl_eq 3 localId, fun _ => decodeFrame_close localId⟩
  · exact ⟨_, encodeControl_eq 2 remoteId, fun _ => decodeFrame_reject remoteId⟩
  · exact ⟨_, encodeMessage_eq channelId messageType payload, decodeFrame_message hid⟩
  · exact ⟨_, encodeBatch_eq entries, decodeFrame_batch (fun e he => (hne e he).2) hsome⟩

/-- A batch that switches from one channel to another. -/
theorem frame_round_trip_batch : Inverted (encodeBatch [(1, ⟨[7], by decide⟩), (2, ⟨[8, 9], by decide⟩)])
    (.batch [⟨1, [7]⟩, ⟨2, [8, 9]⟩]) :=
  frame_round_trip.2.2.2.2 [(1, ⟨[7], by decide⟩), (2, ⟨[8, 9], by decide⟩)] (by simp) (by decide)

end Peeroxide.Dht
