import Peeroxide.Dht.Secretstream

/-!
# Secret streams

The two halves of a secret stream over a reliable transport: each payload is encrypted and written as a frame, with its
length in three bytes in front. A payload that makes too long a frame is rejected, but only after it was encrypted.

Main result: `secret_stream_run`.
-/

namespace Peeroxide.Dht
open Lib Secretstream List

def MAX_MESSAGE_LEN : Nat := 0xFFFFFF

inductive SecretStreamError where
  | messageTooLarge (len : Nat)
  | unexpectedEof
  | decrypt (e : SecretstreamError)
  deriving DecidableEq

/-! ## Frames -/

/-- The bytes that were sent, and whether the frame is among them. -/
def writeFrame (raw data : Bytes) : Except SecretStreamError Unit × Bytes :=
  if MAX_MESSAGE_LEN < data.length then (.error (.messageTooLarge data.length), raw)
  else (.ok (), raw ++ (leBytes 3 data.length ++ data))

/-- The first frame and what follows it; nothing at the end of the stream. -/
def readFrame (raw : Bytes) : Except SecretStreamError (Option (Bytes × Bytes)) :=
  if raw.length < 3 then .ok none
  else
    let len := ofLeBytes (raw.take 3)
    let rest := raw.drop 3
    if rest.length < len then .error .unexpectedEof else .ok (some (rest.take len, rest.drop len))

theorem readFrame_shorter {raw msg rest : Bytes} (h : readFrame raw = .ok (some (msg, rest))) :
    rest.length < raw.length := by
  unfold readFrame at h
  split at h
  · cases h
  · dsimp only at h
    split at h
    · cases h
    · cases h
      simp only [length_drop]
      omega

section
variable {n : Nat} {body rest : Bytes} (h : body.length ≤ MAX_MESSAGE_LEN)
include h

theorem ofLeBytes_header : ofLeBytes (leBytes 3 body.length) = body.length :=
  ofLeBytes_leBytes (Nat.lt_of_le_of_lt h (by decide))

theorem readFrame_append : readFrame (leBytes 3 body.length ++ body ++ rest) = .ok (some (body, rest)) := by
  unfold readFrame
  rw [append_assoc, take_left' (length_leBytes _ _), ofLeBytes_header h]
  simp

/-- The header is cut, or it is there and the body is not. -/
theorem readFrame_cut (hn : n < 3 + body.length) : readFrame ((leBytes 3 body.length ++ body ++ rest).take n) =
    if n < 3 then .ok none else .error .unexpectedEof := by
  have hlength : ((leBytes 3 body.length ++ body ++ rest).take n).length = n := by
    simp only [length_take, length_append, length_leBytes]
    omega
  unfold readFrame
  rw [hlength]
  split
  · rfl
  next hheader =>
    dsimp only
    rw [take_take, Nat.min_eq_left (Nat.le_of_not_lt hheader), append_assoc, take_left' (length_leBytes _ _),
      ofLeBytes_header h, ← append_assoc, length_drop, hlength, if_pos (by omega)]

end

/-! ## Streams that are cut -/

abbrev Frame := { data : Bytes // data.length ≤ MAX_MESSAGE_LEN }

def written (frames : List Frame) : Bytes := frames.foldl (fun raw data => (writeFrame raw data.1).2) []

/-- One call after the other, to the first that returns no frame. -/
def readFrames : Nat → Bytes → List (Except SecretStreamError (Option Bytes))
  | 0, _ => []
  | calls + 1, raw =>
    match readFrame raw with
    | .ok (some (msg, rest)) => .ok (some msg) :: readFrames calls rest
    | .ok none => [.ok none]
    | .error e => [.error e]

/-- The frames that lie before the cut, and how many bytes of the next one do. -/
def before : Nat → List Frame → List Bytes × Nat
  | _, [] => ([], 0)
  | n, data :: frames =>
    if n < 3 + data.1.length then ([], n)
    else
      let cut := before (n - (3 + data.1.length)) frames
      (data.1 :: cut.1, cut.2)

theorem written_eq (frames : List Frame) :
    written frames = frames.flatMap fun data => leBytes 3 data.1.length ++ data.1 := by
  have hfrom : ∀ raw, frames.foldl (fun raw data => (writeFrame raw data.1).2) raw =
      raw ++ frames.flatMap fun data => leBytes 3 data.1.length ++ data.1 := by
    induction frames with
    | nil => simp
    | cons data frames ih =>
      intro raw
      rw [foldl_cons, writeFrame, if_neg (Nat.not_lt.mpr data.2), ih, flatMap_cons, append_assoc]
  exact hfrom []

theorem readFrames_take (frames : List Frame) (n : Nat) :
    readFrames ((before n frames).1.length + 1) ((written frames).take n) =
      (before n frames).1.map (fun data => .ok (some data)) ++
        [if (before n frames).2 < 3 then .ok none else .error .unexpectedEof] := by
  rw [written_eq]
  induction frames generalizing n with
  | nil => simp [before, readFrames, readFrame]
  | cons data frames ih =>
    rw [flatMap_cons, before]
    by_cases hn : n < 3 + data.1.length
    · rw [if_pos hn, readFrames, readFrame_cut data.2 hn]
      by_cases hheader : n < 3 <;> simp [hheader]
    · rw [if_neg hn, take_append, take_of_length_le (by simp; omega), length_append, length_leBytes]
      dsimp only
      rw [length_cons, readFrames, readFrame_append data.2]
      dsimp only
      rw [ih, map_cons, cons_append]

/-- **A cut stream is read as the frames before the cut, and then as ended where the cut is between two frames and as
broken elsewhere, exactly when the cut is not behind the first or second byte of a header.** -/
theorem truncation_detected_iff (frames : List Frame) (n : Nat) :
    readFrames ((before n frames).1.length + 1) ((written frames).take n) =
        (before n frames).1.map (fun data => .ok (some data)) ++
          [if (before n frames).2 = 0 then .ok none else .error .unexpectedEof] ↔
      (before n frames).2 ≠ 1 ∧ (before n frames).2 ≠ 2 := by
  rw [readFrames_take, append_right_inj]
  grind

/-- A header of which one byte is there ends the stream without an error. -/
theorem cut_header_unnoticed :
    readFrames 2 ((written [⟨[7], by decide⟩, ⟨[8], by decide⟩]).take 5) = [.ok (some [7]), .ok none] := by
  decide

/-! ## The two halves -/

structure SecretStreamWriteHalf where
  raw : Bytes
  encrypt : StreamState
  deriving DecidableEq

structure SecretStreamReadHalf where
  raw : Bytes
  decrypt : StreamState
  deriving DecidableEq

/-- The state of the cipher has moved on when the frame is rejected. -/
def SecretStreamWriteHalf.write (prim : StreamPrimitives) (w : SecretStreamWriteHalf) (data : Bytes) :
    Except SecretStreamError Unit × SecretStreamWriteHalf :=
  let encrypted := next prim w.encrypt data
  let r := writeFrame w.raw encrypted.1
  (r.1, ⟨r.2, encrypted.2⟩)

/-- Empty messages keep the stream alive and are passed over. -/
def SecretStreamReadHalf.read (prim : StreamPrimitives) (r : SecretStreamReadHalf) :
    Except SecretStreamError (Option Bytes) × SecretStreamReadHalf :=
  match _h : readFrame r.raw with
  | .error e => (.error e, r)
  | .ok none => (.ok none, r)
  | .ok (some (msg, rest)) =>
    if msg.length < ABYTES then (.error (.decrypt .ciphertextTooShort), ⟨rest, r.decrypt⟩)
    else
      match pull prim r.decrypt msg none with
      | (.error e, s) => (.error (.decrypt e), ⟨rest, s⟩)
      | (.ok (plaintext, _), s) =>
        if plaintext.isEmpty then SecretStreamReadHalf.read prim ⟨rest, s⟩ else (.ok (some plaintext), ⟨rest, s⟩)
  termination_by r.raw.length
  decreasing_by exact readFrame_shorter ‹_›

namespace SecretStream
variable (prim : StreamPrimitives)

/-- The half after a number of writes, rejected or not. -/
def writeAll (w : SecretStreamWriteHalf) (payloads : List Bytes) : SecretStreamWriteHalf :=
  payloads.foldl (fun w data => (w.write prim data).2) w

def accepted : SecretStreamWriteHalf → List Bytes → List Bytes
  | _, [] => []
  | w, data :: payloads =>
    let r := w.write prim data
    (if r.1 = .ok () then [data] else []) ++ accepted r.2 payloads

def reads : Nat → SecretStreamReadHalf → List (Except SecretStreamError (Option Bytes))
  | 0, _ => []
  | n + 1, r =>
    let result := r.read prim
    result.1 :: reads n result.2

def frame (s : StreamState) (data : Bytes) : Bytes := leBytes 3 (next prim s data).1.length ++ (next prim s data).1

def Fits (data : Bytes) : Prop := data.length + ABYTES ≤ MAX_MESSAGE_LEN

instance (data : Bytes) : Decidable (Fits data) := inferInstanceAs (Decidable (_ ≤ _))

/-- No payload that fits is written after one that does not. -/
def FitsSoFar (payloads : List Bytes) : Prop := payloads.Pairwise fun data later => Fits later → Fits data

/-! ## One write, one read -/

variable {prim} {s : StreamState} {data raw rest : Bytes}

theorem length_next (s : StreamState) (data : Bytes) : (next prim s data).1.length = data.length + ABYTES :=
  length_secretstreamEncrypt s [] TAG_MESSAGE data

theorem write_of_fits (h : Fits data) :
    (SecretStreamWriteHalf.mk raw s).write prim data = (.ok (), ⟨raw ++ frame prim s data, (next prim s data).2⟩) := by
  unfold SecretStreamWriteHalf.write writeFrame
  dsimp only
  rw [length_next, if_neg (Nat.not_lt.mpr h), frame, length_next]

theorem write_of_not_fits (h : ¬ Fits data) : (SecretStreamWriteHalf.mk raw s).write prim data =
      (.error (.messageTooLarge (data.length + ABYTES)), ⟨raw, (next prim s data).2⟩) := by
  unfold SecretStreamWriteHalf.write writeFrame
  dsimp only
  rw [length_next, if_pos (Nat.not_le.mp h)]

theorem readFrame_frame (h : Fits data) :
    readFrame (frame prim s data ++ rest) = .ok (some ((next prim s data).1, rest)) :=
  readFrame_append ((length_next s data).trans_le h)

theorem read_nil (s : StreamState) : (SecretStreamReadHalf.mk [] s).read prim = (.ok none, ⟨[], s⟩) := by
  rw [SecretStreamReadHalf.read]
  rfl

theorem read_frame (h : Fits data) : (SecretStreamReadHalf.mk (frame prim s data ++ rest) s).read prim =
      if data.isEmpty then (SecretStreamReadHalf.mk rest (next prim s data).2).read prim
      else (.ok (some data), ⟨rest, (next prim s data).2⟩) := by
  have hlong : ¬ (next prim s data).1.length < ABYTES := by
    rw [length_next]
    omega
  have hpull : pull prim s (next prim s data).1 none = (.ok (data, TAG_MESSAGE), (next prim s data).2) :=
    pull_push prim s data none TAG_MESSAGE
  rw [SecretStreamReadHalf.read]
  split
  next e he => cases (readFrame_frame h).symm.trans he
  next hnone => cases (readFrame_frame h).symm.trans hnone
  next msg after hsome =>
    cases (readFrame_frame h).symm.trans hsome
    rw [if_neg hlong, hpull]

/-! ## Whole runs -/

variable {payloads : List Bytes}

theorem accepted_eq_filter (w : SecretStreamWriteHalf) (payloads : List Bytes) :
    accepted prim w payloads = payloads.filter fun data => decide (Fits data) := by
  induction payloads generalizing w with
  | nil => rfl
  | cons data payloads ih =>
    rw [accepted]
    by_cases h : Fits data
    · simp [ih, h, write_of_fits h]
    · simp [ih, h, write_of_not_fits h]

/-- The frames of the payloads that fit; the state moves on with each payload. -/
def wire (prim : StreamPrimitives) : StreamState → List Bytes → Bytes
  | _, [] => []
  | s, data :: payloads => (if Fits data then frame prim s data else []) ++ wire prim (next prim s data).2 payloads

theorem raw_writeAll (raw : Bytes) (s : StreamState) (payloads : List Bytes) :
    (writeAll prim ⟨raw, s⟩ payloads).raw = raw ++ wire prim s payloads := by
  induction payloads generalizing raw s with
  | nil => exact (append_nil raw).symm
  | cons data payloads ih =>
    rw [writeAll, foldl_cons, ← writeAll, wire]
    by_cases h : Fits data
    · rw [write_of_fits h, ih, if_pos h, append_assoc]
    · rw [write_of_not_fits h, ih, if_neg h, nil_append]

theorem wire_of_none_fits (h : ∀ data ∈ payloads, ¬ Fits data) (s : StreamState) : wire prim s payloads = [] := by
  induction payloads generalizing s with
  | nil => rfl
  | cons data payloads ih =>
    rw [wire, if_neg (h data mem_cons_self), nil_append]
    exact ih (fun later hlater => h later (mem_cons_of_mem _ hlater)) _

def delivered (payloads : List Bytes) : List Bytes :=
  payloads.filter fun data => decide (Fits data) && !data.isEmpty

theorem delivered_of_none_fits (h : ∀ data ∈ payloads, ¬ Fits data) : delivered payloads = [] :=
  filter_eq_nil_iff.mpr fun data hdata => by simp [h data hdata]

theorem reads_congr {r r' : SecretStreamReadHalf} (h : r.read prim = r'.read prim) (n : Nat) :
    reads prim (n + 1) r = reads prim (n + 1) r' := by
  rw [reads, reads, h]

theorem reads_wire (h : FitsSoFar payloads) (s : StreamState) :
    reads prim ((delivered payloads).length + 1) ⟨wire prim s payloads, s⟩ =
      (delivered payloads).map (fun data => .ok (some data)) ++ [.ok none] := by
  induction payloads generalizing s with
  | nil => simp [wire, delivered, reads, read_nil]
  | cons data payloads ih =>
    obtain ⟨hfirst, hlater⟩ := pairwise_cons.mp h
    by_cases hfits : Fits data
    · rw [wire, if_pos hfits]
      have hread := @read_frame prim s data (wire prim (next prim s data).2 payloads) hfits
      by_cases hempty : data.isEmpty
      · rw [if_pos hempty] at hread
        have hskip : delivered (data :: payloads) = delivered payloads := by simp [delivered, hempty]
        rw [hskip, reads_congr hread]
        exact ih hlater _
      · rw [if_neg hempty] at hread
        have hkeep : delivered (data :: payloads) = data :: delivered payloads := by
          simp [delivered, hfits, hempty]
        rw [hkeep, length_cons, reads, hread, ih hlater]
        rfl
    · have hnone : ∀ d ∈ data :: payloads, ¬ Fits d :=
        forall_mem_cons.mpr ⟨hfits, fun d hd hd' => hfits (hfirst d hd hd')⟩
      rw [wire_of_none_fits hnone, delivered_of_none_fits hnone]
      simp [reads, read_nil]

/-- **As long as no payload is written after one that is too long, the other end reads the accepted payloads that are not
empty, in order, and then the end of the stream.** -/
theorem secret_stream_run (prim : StreamPrimitives) (s : StreamState) (payloads : List Bytes) (h : FitsSoFar payloads) :
    let w := writeAll prim ⟨[], s⟩ payloads
    let sent := (accepted prim ⟨[], s⟩ payloads).filter fun data => !data.isEmpty
    reads prim (sent.length + 1) ⟨w.raw, s⟩ = sent.map (fun data => .ok (some data)) ++ [.ok none] := by
  have hsent : (accepted prim ⟨[], s⟩ payloads).filter (fun data => !data.isEmpty) = delivered payloads := by
    rw [accepted_eq_filter, filter_filter, delivered]
    exact filter_congr fun data _ => Bool.and_comm _ _
  dsimp only
  rw [hsent, raw_writeAll, nil_append]
  exact reads_wire h s

/-! ## A payload that is too long -/

/-- A cipher in which the code of a message is the counter, whatever the message. -/
def counting : StreamPrimitives where
  keystream _ nonce _ := nonce.1.headD 0
  poly1305 key _ := ⟨key.1.take 16, by simp [key.2]⟩
  hchacha20Subkey key _ := key

def countingStart : StreamState :=
  initFromHeader counting (.fill 0) ⟨List.replicate 24 0, by simp⟩

/-- The shortest payload that is too long, in zeros. -/
def tooLong : Bytes := List.replicate (MAX_MESSAGE_LEN + 1 - ABYTES) 0

theorem not_fits_tooLong : ¬ Fits tooLong := by
  rw [Fits, tooLong, length_replicate]
  decide

theorem secret_stream_run_short : FitsSoFar [[1], [], [2, 3], tooLong] ∧
      reads counting 3 ⟨(writeAll counting ⟨[], countingStart⟩ [[1], [], [2, 3], tooLong]).raw, countingStart⟩ =
        [.ok (some [1]), .ok (some [2, 3]), .ok none] := by
  have hfits : FitsSoFar [[1], [], [2, 3], tooLong] := by
    refine .cons ?_ (.cons ?_ (.cons ?_ (.cons nofun .nil)))
    all_goals exact fun _ _ _ => by decide
  have hsent : (accepted counting ⟨[], countingStart⟩ [[1], [], [2, 3], tooLong]).filter (fun data => !data.isEmpty) =
      [[1], [2, 3]] := by
    have hshort : ∀ data ∈ [[1], [], [2, 3]], Fits data := by decide
    simp [accepted_eq_filter, not_fits_tooLong, hshort]
  have hrun := secret_stream_run counting countingStart [[1], [], [2, 3], tooLong] hfits
  rw [hsent] at hrun
  exact ⟨hfits, hrun⟩

theorem lastMac_append (body : Bytes) (mac : Bytes16) : lastMac (body ++ mac.1) = mac := by
  refine Subtype.ext ?_
  change (List.replicate 16 0 ++ (body ++ mac.1)).drop (body ++ mac.1).length = mac.1
  rw [← append_assoc]
  refine drop_left' ?_
  rw [length_append, length_append, length_replicate, mac.2, Nat.add_comm]

theorem next_counting (s : StreamState) (data : Bytes) : (next counting s data).2 = (next counting s []).2 := by
  have hmac : ∀ message, lastMac (secretstreamEncrypt counting s [] TAG_MESSAGE message) =
      counting.poly1305 (polyKey counting s) [] := by
    intro message
    rw [secretstreamEncrypt, ← cons_append, lastMac_append]
    rfl
  change advance counting s (lastMac (secretstreamEncrypt counting s [] TAG_MESSAGE data)) TAG_MESSAGE =
    advance counting s (lastMac (secretstreamEncrypt counting s [] TAG_MESSAGE [])) TAG_MESSAGE
  rw [hmac, hmac]

/-- **After a payload that is too long the next one is accepted, and cannot be read.** -/
theorem accepted_but_unreadable : accepted counting ⟨[], countingStart⟩ [tooLong, [1]] = [[1]] ∧
      reads counting 1 ⟨(writeAll counting ⟨[], countingStart⟩ [tooLong, [1]]).raw, countingStart⟩ =
        [.error (.decrypt .decryptionFailed)] := by
  have hshort : Fits [1] := by decide
  have hwire : wire counting countingStart [tooLong, [1]] = frame counting (next counting countingStart []).2 [1] := by
    rw [wire, wire, wire, if_neg not_fits_tooLong, if_pos hshort, next_counting, nil_append, append_nil]
  have hframe : readFrame (frame counting (next counting countingStart []).2 [1]) =
      .ok (some ((next counting (next counting countingStart []).2 [1]).1, [])) := by
    rw [← append_nil (frame counting _ [1]), readFrame_frame hshort]
  -- the code of the frame is the second, and the reader expects the first
  have hpull : (pull counting countingStart (next counting (next counting countingStart []).2 [1]).1 none) =
      (.error .decryptionFailed, countingStart) := by decide +kernel
  refine ⟨by simp [accepted_eq_filter, not_fits_tooLong, hshort], ?_⟩
  rw [raw_writeAll, nil_append, hwire, reads, reads, SecretStreamReadHalf.read]
  split
  next e he => cases hframe.symm.trans he
  next hnone => cases hframe.symm.trans hnone
  next msg after hsome =>
    cases hframe.symm.trans hsome
    rw [hpull, if_neg (by rw [length_next]; decide)]

end SecretStream
end Peeroxide.Dht
