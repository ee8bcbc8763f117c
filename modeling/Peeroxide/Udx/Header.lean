import Peeroxide.Lib.Words

/-!
# The UDX packet header

The fixed 20-byte header, its SACK extension, and where the payload starts.
-/

namespace Peeroxide.Udx
open Lib List

def HEADER_SIZE : Nat := 20
def MAGIC : UInt8 := 0xFF
def VERSION : UInt8 := 1

def FLAG_DATA : UInt8 := 0x01
def FLAG_END : UInt8 := 0x02
def FLAG_SACK : UInt8 := 0x04
def FLAG_DESTROY : UInt8 := 0x10
def FLAG_HEARTBEAT : UInt8 := 0x20

inductive HeaderError where
  | tooShort (len : Nat)
  | badMagic (b : UInt8)
  | badVersion (b : UInt8)
  | invalidSack (len : Nat)
  deriving DecidableEq, Repr

structure Header where
  typeFlags : UInt8
  dataOffset : UInt8
  remoteId : Nat
  recvWindow : Nat
  seq : Nat
  ack : Nat
  deriving DecidableEq, Repr

namespace Header

def encode (h : Header) : Bytes :=
  [MAGIC, VERSION, h.typeFlags, h.dataOffset] ++ leBytes 4 h.remoteId ++ leBytes 4 h.recvWindow ++
    leBytes 4 h.seq ++ leBytes 4 h.ack

def u32At (buf : Bytes) (i : Nat) : Nat := ofLeBytes ((buf.drop i).take 4)

def decode (buf : Bytes) : Except HeaderError Header :=
  if buf.length < HEADER_SIZE then .error (.tooShort buf.length)
  else if buf.getD 0 0 ≠ MAGIC then .error (.badMagic (buf.getD 0 0))
  else if buf.getD 1 0 ≠ VERSION then .error (.badVersion (buf.getD 1 0))
  else .ok
    { typeFlags := buf.getD 2 0
      dataOffset := buf.getD 3 0
      remoteId := u32At buf 4
      recvWindow := u32At buf 8
      seq := u32At buf 12
      ack := u32At buf 16 }

def payloadOffset (h : Header) : Nat := HEADER_SIZE + h.dataOffset.toNat

def hasFlag (h : Header) (flag : UInt8) : Bool := h.typeFlags &&& flag != 0

/-- The four `u32` fields are in range. -/
structure InRange (h : Header) : Prop where
  remoteId : h.remoteId < 2 ^ 32
  recvWindow : h.recvWindow < 2 ^ 32
  seq : h.seq < 2 ^ 32
  ack : h.ack < 2 ^ 32

@[simp] theorem length_encode (h : Header) : h.encode.length = HEADER_SIZE := by
  simp [encode, HEADER_SIZE]

theorem u32At_append {pre post : Bytes} {n i : Nat} (hi : pre.length = i) (hn : n < 2 ^ 32) :
    u32At (pre ++ (leBytes 4 n ++ post)) i = n := by
  have hdrop : (pre ++ (leBytes 4 n ++ post)).drop i = leBytes 4 n ++ post := by
    rw [← hi, drop_left]
  unfold u32At
  rw [hdrop, take_append_of_le_length (by simp), take_of_length_le (by simp)]
  exact ofLeBytes_leBytes (by simpa using hn)

/-- Decoding reads back an encoded header whatever bytes follow it. -/
theorem decode_encode {h : Header} (hr : h.InRange) (rest : Bytes) : decode (h.encode ++ rest) = .ok h := by
  have hlen : ¬ (h.encode ++ rest).length < HEADER_SIZE := by simp
  have e : h.encode ++ rest = [MAGIC, VERSION, h.typeFlags, h.dataOffset] ++ (leBytes 4 h.remoteId ++
      (leBytes 4 h.recvWindow ++ (leBytes 4 h.seq ++ (leBytes 4 h.ack ++ rest)))) := by
    simp only [encode, append_assoc]
  have h4 : u32At (h.encode ++ rest) 4 = h.remoteId := by
    rw [e]; exact u32At_append rfl hr.remoteId
  have h8 : u32At (h.encode ++ rest) 8 = h.recvWindow := by
    rw [e]; exact u32At_append (by simp) hr.recvWindow
  have h12 : u32At (h.encode ++ rest) 12 = h.seq := by
    rw [e]; exact u32At_append (by simp) hr.seq
  have h16 : u32At (h.encode ++ rest) 16 = h.ack := by
    rw [e]
    exact u32At_append (by simp) hr.ack
  unfold decode
  rw [if_neg hlen, h4, h8, h12, h16]
  simp [encode]

end Header

/-! ## Selective acknowledgements -/

/-- The half-open range `start..stop`. -/
structure SackRange where
  start : Nat
  stop : Nat
  deriving DecidableEq, Repr

def encodeSack (ranges : List SackRange) : Bytes :=
  ranges.flatMap (fun r => leBytes 4 r.start ++ leBytes 4 r.stop)

/-- `chunks_exact(8)`, one range a chunk. -/
def sackChunks : Nat → Bytes → List SackRange
  | 0, _ => []
  | n + 1, buf => ⟨Header.u32At buf 0, Header.u32At buf 4⟩ :: sackChunks n (buf.drop 8)

def decodeSack (buf : Bytes) : Except HeaderError (List SackRange) :=
  if buf.length % 8 ≠ 0 then .error (.invalidSack buf.length) else .ok (sackChunks (buf.length / 8) buf)

end Peeroxide.Udx
