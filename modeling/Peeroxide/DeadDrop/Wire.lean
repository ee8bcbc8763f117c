import Peeroxide.Dht.CompactEncoding
import Peeroxide.Lib.Chunks

/-!
# Chunks of a dead drop

A file is cut into data chunks, and index chunks hold the addresses of data chunks or the public keys of other index
chunks. Which of the two the slots of an index chunk are is not in the chunk.
-/

namespace Peeroxide.DeadDrop
open Lib Dht List

def VERSION : UInt8 := 0x02
def MAX_CHUNK_SIZE : Nat := 1000
def DATA_HEADER_SIZE : Nat := 2
def DATA_PAYLOAD_MAX : Nat := MAX_CHUNK_SIZE - DATA_HEADER_SIZE
def HASH_LEN : Nat := 32
def NON_ROOT_INDEX_HEADER_SIZE : Nat := 1
def NON_ROOT_INDEX_SLOT_CAP : Nat := (MAX_CHUNK_SIZE - NON_ROOT_INDEX_HEADER_SIZE) / HASH_LEN
def ROOT_INDEX_HEADER_SIZE : Nat := 1 + 8 + 4
def ROOT_INDEX_SLOT_CAP : Nat := (MAX_CHUNK_SIZE - ROOT_INDEX_HEADER_SIZE) / HASH_LEN
def NEED_LIST_HEADER_SIZE : Nat := 1 + 2
def NEED_ENTRY_SIZE : Nat := 8
def NEED_LIST_ENTRY_CAP : Nat := (MAX_CHUNK_SIZE - NEED_LIST_HEADER_SIZE) / NEED_ENTRY_SIZE

inductive WireError where
  | empty
  | badVersion (b : UInt8)
  | truncated (needed got : Nat)
  | badSlotByteLength (n : Nat)
  | oversizedChunk (n : Nat)
  | badCount (declared computed : Nat)
  | invalidEntry (start stop : Nat)
  deriving DecidableEq

/-! ## Data chunks -/

def encodeDataChunk (salt : UInt8) (payload : Bytes) : Bytes := VERSION :: salt :: payload

def decodeDataChunk : Bytes → Except WireError Bytes
  | [] => .error .empty
  | [v] => if v ≠ VERSION then .error (.badVersion v) else .error (.truncated DATA_HEADER_SIZE 1)
  | v :: _ :: payload => if v ≠ VERSION then .error (.badVersion v) else .ok payload

theorem decodeDataChunk_encode (salt : UInt8) (payload : Bytes) :
    decodeDataChunk (encodeDataChunk salt payload) = .ok payload := rfl

/-! ## Slots -/

def slotBytes (slots : List Bytes32) : Bytes := (slots.map (·.1)).flatten

theorem length_copySlot (bs : Bytes) : ((bs ++ List.replicate HASH_LEN 0).take HASH_LEN).length = 32 := by
  rw [length_take, length_append, length_replicate, HASH_LEN]
  omega

def copySlot (bs : Bytes) : Bytes32 := ⟨(bs ++ List.replicate HASH_LEN 0).take HASH_LEN, length_copySlot bs⟩

def readSlots (bs : Bytes) : Except WireError (List Bytes32) :=
  if bs.length % HASH_LEN ≠ 0 then .error (.badSlotByteLength bs.length)
  else .ok ((chunksOf HASH_LEN bs).map copySlot)

theorem length_slotBytes (slots : List Bytes32) : (slotBytes slots).length = slots.length * HASH_LEN := by
  induction slots with
  | nil => rfl
  | cons slot slots ih =>
    rw [slotBytes, map_cons, flatten_cons, length_append, ← slotBytes, ih, slot.2, length_cons,
      Nat.succ_mul, Nat.add_comm]
    rfl

theorem readSlots_slotBytes (slots : List Bytes32) : readSlots (slotBytes slots) = .ok slots := by
  have hpieces : ∀ piece ∈ slots.map (·.1), piece.length = HASH_LEN := by
    intro piece hmem
    obtain ⟨slot, -, rfl⟩ := mem_map.mp hmem
    exact slot.2
  have hcopy : (slots.map (·.1)).map copySlot = slots := by
    rw [map_map]
    exact (map_congr_left fun slot _ => Subtype.ext (take_left' slot.2)).trans (map_id _)
  rw [readSlots, length_slotBytes, Nat.mul_mod_left, if_neg (by decide), slotBytes,
    chunksOf_flatten (by decide) hpieces, hcopy]

/-! ## Index chunks -/

def encodeNonRootIndex (slots : List Bytes32) : Bytes := VERSION :: slotBytes slots

def decodeNonRootIndex : Bytes → Except WireError (List Bytes32)
  | [] => .error .empty
  | v :: bs =>
    if v ≠ VERSION then .error (.badVersion v)
    else if bs.length + 1 > MAX_CHUNK_SIZE then .error (.oversizedChunk (bs.length + 1))
    else readSlots bs

def encodeRootIndex (fileSize : Nat) (crc32c : UInt32) (slots : List Bytes32) : Bytes :=
  VERSION :: (leBytes 8 fileSize ++ leBytes 4 crc32c.toNat ++ slotBytes slots)

structure RootIndex where
  fileSize : Nat
  crc32c : UInt32
  slots : List Bytes32
  deriving DecidableEq

def decodeRootIndex : Bytes → Except WireError RootIndex
  | [] => .error .empty
  | v :: bs =>
    if v ≠ VERSION then .error (.badVersion v)
    else if bs.length + 1 < ROOT_INDEX_HEADER_SIZE then .error (.truncated ROOT_INDEX_HEADER_SIZE (bs.length + 1))
    else if bs.length + 1 > MAX_CHUNK_SIZE then .error (.oversizedChunk (bs.length + 1))
    else do
      let slots ← readSlots (bs.drop 12)
      pure ⟨ofLeBytes (bs.take 8), UInt32.ofNat (ofLeBytes ((bs.drop 8).take 4)), slots⟩

theorem decodeNonRootIndex_encode {slots : List Bytes32} (h : slots.length ≤ NON_ROOT_INDEX_SLOT_CAP) :
    decodeNonRootIndex (encodeNonRootIndex slots) = .ok slots := by
  have hlen : ¬ (slotBytes slots).length + 1 > MAX_CHUNK_SIZE := by
    rw [length_slotBytes]
    simp only [NON_ROOT_INDEX_SLOT_CAP, MAX_CHUNK_SIZE, HASH_LEN] at h ⊢
    omega
  rw [encodeNonRootIndex, decodeNonRootIndex, if_neg (by simp), if_neg hlen, readSlots_slotBytes]

theorem decodeRootIndex_encode {fileSize : Nat} (hsize : fileSize < 2 ^ 64) (crc32c : UInt32) {slots : List Bytes32}
    (h : slots.length ≤ ROOT_INDEX_SLOT_CAP) :
    decodeRootIndex (encodeRootIndex fileSize crc32c slots) = .ok ⟨fileSize, crc32c, slots⟩ := by
  have hbytes := length_slotBytes slots
  simp only [ROOT_INDEX_SLOT_CAP, MAX_CHUNK_SIZE, ROOT_INDEX_HEADER_SIZE, HASH_LEN] at h hbytes
  rw [encodeRootIndex]
  set body := leBytes 8 fileSize ++ leBytes 4 crc32c.toNat ++ slotBytes slots
  have hlen : body.length = 12 + (slotBytes slots).length := by
    rw [length_append, length_append, length_leBytes, length_leBytes]
  have hheader : (leBytes 8 fileSize ++ leBytes 4 crc32c.toNat).length = 12 := by
    rw [length_append, length_leBytes, length_leBytes]
  have hslots : body.drop 12 = slotBytes slots := drop_left' hheader
  have htake : body.take 8 = leBytes 8 fileSize := by
    exact take_left' (length_leBytes 8 fileSize)
  have hcrc : (body.drop 8).take 4 = leBytes 4 crc32c.toNat := by
    exact take_left' (length_leBytes 4 crc32c.toNat)
  rw [decodeRootIndex, if_neg (by simp), if_neg (by simp only [ROOT_INDEX_HEADER_SIZE]; omega),
    if_neg (by simp only [MAX_CHUNK_SIZE]; omega), hslots, htake, hcrc, readSlots_slotBytes,
    ofLeBytes_leBytes (by simpa using hsize), ofLeBytes_leBytes (by simpa using crc32c.toNat_lt), UInt32.ofNat_toNat]
  rfl

theorem fileSize_lt_of_decode {bs : Bytes} {root : RootIndex} (h : decodeRootIndex bs = .ok root) :
    root.fileSize < 2 ^ 64 := by
  cases bs with
  | nil => cases h
  | cons v bs =>
    rw [decodeRootIndex] at h
    split at h
    · cases h
    split at h
    · cases h
    split at h
    · cases h
    · cases hslots : readSlots (bs.drop 12) with
      | error e =>
        rw [hslots] at h
        cases h
      | ok slots =>
        rw [hslots] at h
        cases h
        refine (ofLeBytes_lt _).trans_le ?_
        exact Nat.pow_le_pow_right (by decide) (length_take_le _ _)

end Peeroxide.DeadDrop
