import Peeroxide.Lib.AddrText
import Peeroxide.Lib.Cursor
import Peeroxide.Lib.Utf8

/-!
# Compact encoding

The primitive codecs: each with its first pass, which reserves room, its encoder, its decoder and the bytes it stands
for. A byte vector's length is a `usize`, and ids and tokens have their size in the type.
-/

namespace Peeroxide.Dht
open Lib
variable {bs : Bytes} {host : String}

inductive EncodingError where
  | outOfBounds (need avail : Nat)
  | arrayTooLarge (len : Nat)
  | invalidIpFamily (family : UInt8)
  | invalidIpv4 (addr : String)
  | invalidIpv6 (addr : String)
  deriving DecidableEq, Repr

abbrev State := Cursor

abbrev Encoder := Action EncodingError Unit

abbrev Decoder (α : Type) := Action EncodingError α

abbrev ByteVec := { bs : Bytes // bs.length < 2 ^ 64 }

abbrev Bytes32 := { bs : Bytes // bs.length = 32 }

variable {buf : ByteVec}

instance : LawfulBEq Bytes32 := inferInstance

def Bytes32.fill (b : UInt8) : Bytes32 := ⟨List.replicate 32 b, List.length_replicate⟩

abbrev Bytes64 := { bs : Bytes // bs.length = 64 }

def checkRemaining (n : Nat) : Decoder Unit := check .outOfBounds n

/-! ## Integers -/

def encodeUint8 (val : UInt8) : Encoder := write [val]

def decodeUint8 : Decoder UInt8 := do
  checkRemaining 1
  let bs ← slice 1
  pure (UInt8.ofNat (ofLeBytes bs))

def encodeUint16 (val : UInt16) : Encoder := write (leBytes 2 val.toNat)

def decodeUint16 : Decoder UInt16 := do
  checkRemaining 2
  let bs ← slice 2
  pure (UInt16.ofNat (ofLeBytes bs))

def encodeUint32 (val : UInt32) : Encoder := write (leBytes 4 val.toNat)

def decodeUint32 : Decoder UInt32 := do
  checkRemaining 4
  let bs ← slice 4
  pure (UInt32.ofNat (ofLeBytes bs))

def encodeUint64 (val : UInt64) : Encoder := do
  encodeUint32 val.toUInt32
  encodeUint32 (val >>> 32).toUInt32

def decodeUint64 : Decoder UInt64 := do
  checkRemaining 8
  let lo ← decodeUint32
  let hi ← decodeUint32
  pure (lo.toUInt64 ||| hi.toUInt64 <<< 32)

def preencodeUint (c : State) (n : UInt64) : State :=
  if n ≤ 0xfc then c.reserve 1
  else if n ≤ 0xffff then c.reserve 3
  else if n ≤ 0xffffffff then c.reserve 5
  else c.reserve 9

def encodeUint (n : UInt64) : Encoder :=
  if n ≤ 0xfc then encodeUint8 n.toUInt8
  else if n ≤ 0xffff then do
    write [0xfd]
    encodeUint16 n.toUInt16
  else if n ≤ 0xffffffff then do
    write [0xfe]
    encodeUint32 n.toUInt32
  else do
    write [0xff]
    encodeUint64 n

def decodeUintTail (a : UInt8) : Decoder UInt64 :=
  if a ≤ 0xfc then pure a.toUInt64
  else if a = 0xfd then do
    let n ← decodeUint16
    pure n.toUInt64
  else if a = 0xfe then do
    let n ← decodeUint32
    pure n.toUInt64
  else decodeUint64

def decodeUint : Decoder UInt64 := do
  let a ← decodeUint8
  decodeUintTail a

def uintBytes (n : UInt64) : Bytes :=
  if n ≤ 0xfc then [n.toUInt8]
  else if n ≤ 0xffff then 0xfd :: leBytes 2 n.toUInt16.toNat
  else if n ≤ 0xffffffff then 0xfe :: leBytes 4 n.toUInt32.toNat
  else 0xff :: (leBytes 4 n.toUInt32.toNat ++ leBytes 4 (n >>> 32).toUInt32.toNat)

theorem reads_uint8 (b : UInt8) : Reads decodeUint8 [b] b := by
  have h : Reads (ε := EncodingError) (slice 1) [b] ⟨[b], rfl⟩ := reads_slice rfl
  have hr : Reads decodeUint8 [b] (UInt8.ofNat (ofLeBytes [b])) :=
    (h.map fun bs => UInt8.ofNat (ofLeBytes bs)).check .outOfBounds (le_refl 1)
  have e : UInt8.ofNat (ofLeBytes [b]) = b := by simp [ofLeBytes]
  rwa [e] at hr

theorem reads_uint16 (n : UInt16) : Reads decodeUint16 (leBytes 2 n.toNat) n := by
  have h := (reads_slice (ε := EncodingError) (length_leBytes 2 n.toNat)).map fun bs => UInt16.ofNat (ofLeBytes bs)
  have hr := h.check .outOfBounds (n := 2) (by simp)
  rwa [ofLeBytes_leBytes n.toNat_lt, UInt16.ofNat_toNat] at hr

theorem reads_uint32 (n : UInt32) : Reads decodeUint32 (leBytes 4 n.toNat) n := by
  have h := (reads_slice (ε := EncodingError) (length_leBytes 4 n.toNat)).map fun bs => UInt32.ofNat (ofLeBytes bs)
  have hr := h.check .outOfBounds (n := 4) (by simp)
  rwa [ofLeBytes_leBytes n.toNat_lt, UInt32.ofNat_toNat] at hr

variable (c : State) (s : String) (n : UInt64)

theorem join_halves : n.toUInt32.toUInt64 ||| (n >>> 32).toUInt32.toUInt64 <<< 32 = n := by
  have hn := n.toNat_lt
  have h32 : UInt64.toNat 32 % 64 = 32 := by decide
  have hhi : (n >>> 32).toUInt32.toUInt64.toNat = n.toNat / 2 ^ 32 := by
    rw [UInt32.toNat_toUInt64, UInt64.toNat_toUInt32, UInt64.toNat_shiftRight, h32, Nat.shiftRight_eq_div_pow]
    exact Nat.mod_eq_of_lt (by omega)
  have hshift : ((n >>> 32).toUInt32.toUInt64 <<< 32).toNat = n.toNat / 2 ^ 32 * 2 ^ 32 := by
    rw [UInt64.toNat_shiftLeft, hhi, h32, Nat.shiftLeft_eq]
    exact Nat.mod_eq_of_lt (by omega)
  apply UInt64.toNat.inj
  rw [UInt64.toNat_or, hshift, UInt32.toNat_toUInt64, UInt64.toNat_toUInt32, Nat.or_comm, ← Nat.shiftLeft_eq,
    ← Nat.shiftLeft_add_eq_or_of_lt (Nat.mod_lt _ (by decide))]
  omega

theorem reads_uint64 : Reads decodeUint64 (leBytes 4 n.toUInt32.toNat ++ leBytes 4 (n >>> 32).toUInt32.toNat) n := by
  have h : Reads (do
      let lo ← decodeUint32
      let hi ← decodeUint32
      pure (lo.toUInt64 ||| hi.toUInt64 <<< 32))
      (leBytes 4 n.toUInt32.toNat ++ leBytes 4 (n >>> 32).toUInt32.toNat) n := by
    refine (reads_uint32 n.toUInt32).bind ?_
    have hhi := (reads_uint32 (n >>> 32).toUInt32).map fun hi => n.toUInt32.toUInt64 ||| hi.toUInt64 <<< 32
    rwa [join_halves] at hhi
  exact h.check .outOfBounds (by simp)

theorem preencodeUint_eq : preencodeUint c n = c.reserve (uintBytes n).length := by
  unfold preencodeUint uintBytes
  split
  · rfl
  · split
    · rfl
    · split <;> simp

theorem writes_uint : Writes (encodeUint n) (uintBytes n) := by
  unfold encodeUint uintBytes
  split
  · exact writes_write _
  · split
    · exact (writes_write [0xfd]).append (writes_write _)
    · split
      · exact (writes_write [0xfe]).append (writes_write _)
      · exact (writes_write [0xff]).append ((writes_write _).append (writes_write _))

theorem reads_tagged {a : UInt8} {n : UInt64} (h : Reads (decodeUintTail a) bs n) :
    Reads decodeUint (a :: bs) n := (reads_uint8 a).bind h

theorem reads_uint : Reads decodeUint (uintBytes n) n := by
  unfold uintBytes
  split
  next h =>
    have hn : n.toNat ≤ 0xfc := h
    have e : n.toUInt8.toNat = n.toNat := by
      rw [UInt64.toNat_toUInt8]
      omega
    have htag : n.toUInt8 ≤ 0xfc := by
      show n.toUInt8.toNat ≤ 0xfc
      omega
    have hval : n.toUInt8.toUInt64 = n := by
      apply UInt64.toNat.inj
      rw [UInt8.toNat_toUInt64, e]
    refine reads_tagged ?_
    rw [decodeUintTail, if_pos htag, hval]
    exact .pure n
  · split
    next h =>
      have hn : n.toNat ≤ 0xffff := h
      have hval : n.toUInt16.toUInt64 = n := by
        apply UInt64.toNat.inj
        rw [UInt16.toNat_toUInt64, UInt64.toNat_toUInt16]
        omega
      have hr := (reads_uint16 n.toUInt16).map UInt16.toUInt64
      rw [hval] at hr
      exact reads_tagged hr
    · split
      next h =>
        have hn : n.toNat ≤ 0xffffffff := h
        have hval : n.toUInt32.toUInt64 = n := by
          apply UInt64.toNat.inj
          rw [UInt32.toNat_toUInt64, UInt64.toNat_toUInt32]
          omega
        have hr := (reads_uint32 n.toUInt32).map UInt32.toUInt64
        rw [hval] at hr
        exact reads_tagged hr
      · exact reads_tagged (reads_uint64 n)

theorem length_uintBytes : 1 ≤ (uintBytes n).length ∧ ((uintBytes n).length = 1 ↔ n ≤ 0xfc) := by
  unfold uintBytes
  split
  · simp [*]
  · split
    · simp [*]
    · split <;> simp [*]

/-! ## Byte strings -/

def preencodeBuffer (c : State) : Option ByteVec → State
  | some buf => (preencodeUint c (UInt64.ofNat buf.1.length)).reserve buf.1.length
  | none => c.reserve 1

def encodeBuffer : Option ByteVec → Encoder
  | some buf => do
    encodeUint (UInt64.ofNat buf.1.length)
    write buf.1
  | none => write [0]

def decodeBuffer : Decoder (Option ByteVec) := do
  let len ← decodeUint
  if len = 0 then pure none
  else do
    checkRemaining len.toNat
    let bs ← slice len.toNat
    pure (some ⟨bs, by rw [bs.2]; exact len.toNat_lt⟩)

def encodeFixed32 (buf : Bytes32) : Encoder := write buf.1

def decodeFixed32 : Decoder Bytes32 := do
  checkRemaining 32
  slice 32

def decodeFixed64 : Decoder Bytes64 := do
  checkRemaining 64
  slice 64

def bufferBytes : Option ByteVec → Bytes
  | some buf => uintBytes (UInt64.ofNat buf.1.length) ++ buf.1
  | none => [0]

def nonEmpty (buf : Option ByteVec) : Option ByteVec := buf.filter (fun b => !b.1.isEmpty)

theorem nonEmpty_of_nil (h : buf.1 = []) : nonEmpty (some buf) = none := by
  simp [nonEmpty, h]

theorem nonEmpty_of_ne_nil (h : buf.1 ≠ []) : nonEmpty (some buf) = some buf := by
  simp [nonEmpty, h]

theorem preencodeBuffer_eq (buf : Option ByteVec) : preencodeBuffer c buf = c.reserve (bufferBytes buf).length := by
  cases buf with
  | none => rfl
  | some buf => rw [preencodeBuffer, preencodeUint_eq, Cursor.reserve_reserve, bufferBytes, List.length_append]

theorem writes_buffer (buf : Option ByteVec) : Writes (encodeBuffer buf) (bufferBytes buf) := by
  cases buf with
  | none => exact writes_write _
  | some buf => exact (writes_uint _).append (writes_write _)

theorem reads_buffer (buf : Option ByteVec) : Reads decodeBuffer (bufferBytes buf) (nonEmpty buf) := by
  cases buf with
  | none =>
    exact (reads_uint 0).bind (.pure none)
  | some buf =>
    have hlen : (UInt64.ofNat buf.1.length).toNat = buf.1.length := UInt64.toNat_ofNat_of_lt' buf.2
    refine (reads_uint _).bind ?_
    by_cases he : buf.1 = []
    · rw [nonEmpty_of_nil he, he]
      exact .pure none
    · have hpos : 0 < buf.1.length := List.length_pos_of_ne_nil he
      have hne : UInt64.ofNat buf.1.length ≠ 0 := by
        intro h
        rw [h] at hlen
        exact absurd hlen (by simp; omega)
      rw [nonEmpty_of_ne_nil he, if_neg hne]
      have hr := (reads_slice (ε := EncodingError) hlen.symm).map fun bs =>
        some (⟨bs, by rw [bs.2]; exact (UInt64.ofNat buf.1.length).toNat_lt⟩ : ByteVec)
      exact hr.check .outOfBounds (le_of_eq hlen)

theorem writes_fixed32 (buf : Bytes32) : Writes (encodeFixed32 buf) buf.1 := writes_write _

theorem reads_fixed32 (buf : Bytes32) : Reads decodeFixed32 buf.1 buf :=
  Reads.check (reads_slice buf.2) EncodingError.outOfBounds (le_of_eq buf.2.symm)

/-! ## Text -/

def preencodeString (c : State) (s : String) : State :=
  let len := (encodeUtf8 s.toList).length
  (preencodeUint c (UInt64.ofNat len)).reserve len

def encodeString (s : String) : Encoder := do
  let bytes := encodeUtf8 s.toList
  encodeUint (UInt64.ofNat bytes.length)
  write bytes

def decodeString : Decoder String := do
  let len ← decodeUint
  checkRemaining len.toNat
  let bs ← slice len.toNat
  pure (String.ofList (decodeUtf8Lossy bs))

def stringBytes (s : String) : Bytes := uintBytes (UInt64.ofNat (encodeUtf8 s.toList).length) ++ encodeUtf8 s.toList

theorem preencodeString_eq : preencodeString c s = c.reserve (stringBytes s).length := by
  rw [preencodeString, preencodeUint_eq, Cursor.reserve_reserve, stringBytes, List.length_append]

theorem writes_string : Writes (encodeString s) (stringBytes s) := (writes_uint _).append (writes_write _)

theorem reads_string {s : String} (h : (encodeUtf8 s.toList).length < 2 ^ 64) :
    Reads decodeString (stringBytes s) s := by
  have hlen : (UInt64.ofNat (encodeUtf8 s.toList).length).toNat = (encodeUtf8 s.toList).length :=
    UInt64.toNat_ofNat_of_lt' h
  refine (reads_uint _).bind ?_
  have hr := (reads_slice (ε := EncodingError) hlen.symm).map fun bs => String.ofList (decodeUtf8Lossy bs)
  rw [decodeUtf8Lossy_encodeUtf8, String.ofList_toList] at hr
  exact hr.check .outOfBounds (le_of_eq hlen)

/-! ## Addresses -/

def encodeOctet (addr : String) (part : List Char) : Encoder :=
  match parseU8 part with
  | some byte => write [byte]
  | none => raise (.invalidIpv4 addr)

def encodeIpv4 (addr : String) : Encoder :=
  let parts := addr.toList.splitOn '.'
  if parts.length ≠ 4 then raise (.invalidIpv4 addr) else parts.forM (encodeOctet addr)

def decodeIpv4 : Decoder String := do
  checkRemaining 4
  let bs ← slice 4
  pure (String.ofList (dotted bs))

def encodeIpv6 (addr : String) : Encoder :=
  match parseIpv6 addr.toList with
  | some groups => write (octetsOf groups)
  | none => raise (.invalidIpv6 addr)

def decodeIpv6 : Decoder String := do
  checkRemaining 16
  let bs ← slice 16
  pure (String.ofList (ipv6Text (groupsOf bs)))

def encodeIpv4Address (addr : String) (port : UInt16) : Encoder := do
  encodeIpv4 addr
  encodeUint16 port

def decodeIpv4Address : Decoder (String × UInt16) := do
  let addr ← decodeIpv4
  let port ← decodeUint16
  pure (addr, port)

def encodeIpv6Address (addr : String) (port : UInt16) : Encoder := do
  encodeIpv6 addr
  encodeUint16 port

def decodeIpv6Address : Decoder (String × UInt16) := do
  let addr ← decodeIpv6
  let port ← decodeUint16
  pure (addr, port)

/-- A canonical dotted quad: the text of four bytes. -/
def Ipv4Host (host : String) : Prop := ∃ bs : Bytes, bs.length = 4 ∧ host = String.ofList (dotted bs)

/-- A canonical IPv6 address: the text of sixteen bytes. -/
def Ipv6Host (host : String) : Prop := ∃ bs : Bytes, bs.length = 16 ∧ host = String.ofList (ipv6Text (groupsOf bs))

def ipv4Bytes (host : String) : Bytes := (host.toList.splitOn '.').filterMap parseU8

def ipv6Bytes (host : String) : Bytes := octetsOf ((parseIpv6 host.toList).getD [])

theorem splitOn_dotted (h : bs ≠ []) : (dotted bs).splitOn '.' = bs.map fun b => Nat.toDigits 10 b.toNat := by
  refine List.splitOn_intercalate '.' (fun l hl hdot => ?_) (by simpa using h)
  obtain ⟨b, -, rfl⟩ := List.mem_map.mp hl
  exact absurd (Nat.isDigit_of_mem_toDigits (by decide) (by decide) hdot) (by decide)

theorem ipv4Bytes_dotted (h : bs ≠ []) : ipv4Bytes (String.ofList (dotted bs)) = bs := by
  have hparse : (parseU8 ∘ fun b : UInt8 => Nat.toDigits 10 b.toNat) = some := funext parseU8_toDigits
  rw [ipv4Bytes, String.toList_ofList, splitOn_dotted h, List.filterMap_map, hparse, List.filterMap_some]

theorem Ipv4Host.length (h : Ipv4Host host) : (ipv4Bytes host).length = 4 := by
  obtain ⟨bs, hlen, rfl⟩ := h
  rw [ipv4Bytes_dotted (by rintro rfl; cases hlen), hlen]

theorem writes_ipv4 (h : Ipv4Host host) : Writes (encodeIpv4 host) (ipv4Bytes host) := by
  obtain ⟨bs, hlen, rfl⟩ := h
  have hne : bs ≠ [] := by rintro rfl; cases hlen
  have hoctet : ∀ b ∈ bs, Writes (encodeOctet (String.ofList (dotted bs)) (Nat.toDigits 10 b.toNat)) [b] := by
    intro b _
    rw [encodeOctet, parseU8_toDigits]
    exact writes_write _
  rw [ipv4Bytes_dotted hne, encodeIpv4]
  rw [String.toList_ofList, splitOn_dotted hne, if_neg (by simp [hlen]), List.forM_eq_forM, List.forM_map]
  have hall := Writes.forM hoctet
  rwa [List.flatMap_singleton'] at hall

theorem reads_ipv4 (h : Ipv4Host host) : Reads decodeIpv4 (ipv4Bytes host) host := by
  obtain ⟨bs, hlen, rfl⟩ := h
  have hne : bs ≠ [] := by rintro rfl; cases hlen
  rw [ipv4Bytes_dotted hne]
  have hr := (reads_slice (ε := EncodingError) hlen).map fun bs => String.ofList (dotted bs)
  exact hr.check EncodingError.outOfBounds (le_of_eq hlen.symm)

theorem ipv6Bytes_text (h : bs.length = 16) : ipv6Bytes (String.ofList (ipv6Text (groupsOf bs))) = bs := by
  rw [ipv6Bytes, String.toList_ofList, parseIpv6_text (length_groupsOf 8 h) (groupsOf_lt bs), Option.getD_some,
    octetsOf_groupsOf 8 h]

theorem Ipv6Host.length (h : Ipv6Host host) : (ipv6Bytes host).length = 16 := by
  obtain ⟨bs, hlen, rfl⟩ := h
  rw [ipv6Bytes_text hlen, hlen]

theorem writes_ipv6 (h : Ipv6Host host) : Writes (encodeIpv6 host) (ipv6Bytes host) := by
  obtain ⟨bs, hlen, rfl⟩ := h
  rw [ipv6Bytes_text hlen, encodeIpv6, String.toList_ofList, parseIpv6_text (length_groupsOf 8 hlen) (groupsOf_lt bs)]
  dsimp only
  rw [octetsOf_groupsOf 8 hlen]
  exact writes_write _

theorem reads_ipv6 (h : Ipv6Host host) : Reads decodeIpv6 (ipv6Bytes host) host := by
  obtain ⟨bs, hlen, rfl⟩ := h
  rw [ipv6Bytes_text hlen]
  have hr := (reads_slice (ε := EncodingError) hlen).map fun bs => String.ofList (ipv6Text (groupsOf bs))
  exact hr.check EncodingError.outOfBounds (le_of_eq hlen.symm)

theorem writes_ipv4Address (h : Ipv4Host host) (port : UInt16) :
    Writes (encodeIpv4Address host port) (ipv4Bytes host ++ leBytes 2 port.toNat) :=
  (writes_ipv4 h).append (writes_write _)

theorem reads_ipv4Address (h : Ipv4Host host) (port : UInt16) :
    Reads decodeIpv4Address (ipv4Bytes host ++ leBytes 2 port.toNat) (host, port) :=
  (reads_ipv4 h).bind ((reads_uint16 port).map (host, ·))

theorem writes_ipv6Address (h : Ipv6Host host) (port : UInt16) :
    Writes (encodeIpv6Address host port) (ipv6Bytes host ++ leBytes 2 port.toNat) :=
  (writes_ipv6 h).append (writes_write _)

theorem reads_ipv6Address (h : Ipv6Host host) (port : UInt16) :
    Reads decodeIpv6Address (ipv6Bytes host ++ leBytes 2 port.toNat) (host, port) :=
  (reads_ipv6 h).bind ((reads_uint16 port).map (host, ·))

/-! ## Arrays -/

def MAX_ARRAY_LENGTH : Nat := 0x100000

def encodeArray {α : Type} (encode : α → Encoder) (xs : List α) : Encoder := do
  encodeUint (UInt64.ofNat xs.length)
  xs.forM encode

def decodeArray {α : Type} (decode : Decoder α) : Decoder (List α) := do
  let len ← decodeUint
  if MAX_ARRAY_LENGTH < len.toNat then raise (.arrayTooLarge len.toNat)
  else do
    withCapacity len.toNat
    readMany decode len.toNat

def arrayBytes {α : Type} (bytes : α → Bytes) (xs : List α) : Bytes :=
  uintBytes (UInt64.ofNat xs.length) ++ xs.flatMap bytes

section
variable {α : Type} {encode : α → Encoder} {decode : Decoder α} {bytes : α → Bytes}

theorem writes_array {xs : List α} (h : ∀ x ∈ xs, Writes (encode x) (bytes x)) :
    Writes (encodeArray encode xs) (arrayBytes bytes xs) := (writes_uint _).append (.forM h)

theorem reads_array {xs : List α} (hlen : xs.length ≤ MAX_ARRAY_LENGTH) (h : ∀ x ∈ xs, Reads decode (bytes x) x) :
    Reads (decodeArray decode) (arrayBytes bytes xs) xs := by
  have hn : (UInt64.ofNat xs.length).toNat = xs.length :=
    UInt64.toNat_ofNat_of_lt' (lt_of_le_of_lt hlen (by decide))
  refine (reads_uint _).bind ?_
  rw [hn, if_neg (by omega)]
  exact (Reads.readMany h).withCapacity hlen

theorem safe_uint8 : Safe decodeUint8 := .take _ fun _ => .pure _

theorem safe_uint16 : Safe decodeUint16 := .take _ fun _ => .pure _

theorem safe_uint32 : Safe decodeUint32 := .take _ fun _ => .pure _

theorem safe_uint : Safe decodeUint := by
  refine safe_uint8.bind fun a => ?_
  unfold decodeUintTail
  split
  · exact .pure _
  · split
    · exact safe_uint16.bind fun _ => .pure _
    · split
      · exact safe_uint32.bind fun _ => .pure _
      · exact (Safe.check _ 8).bind fun _ => safe_uint32.bind fun _ => safe_uint32.bind fun _ => .pure _

theorem moves_uint : Moves 1 decodeUint := by
  have h8 : Moves 1 decodeUint8 := (Moves.check _ 1).bind fun _ => (Moves.slice 1).bind fun _ => .pure _
  have h16 : Moves 0 decodeUint16 :=
    ((Moves.check _ 2).bind fun _ => (Moves.slice 2).bind fun _ => .pure _).mono (Nat.zero_le _)
  have h32 : Moves 0 decodeUint32 :=
    ((Moves.check _ 4).bind fun _ => (Moves.slice 4).bind fun _ => .pure _).mono (Nat.zero_le _)
  refine h8.bind (n := 0) fun a => ?_
  unfold decodeUintTail
  split
  · exact .pure _
  · split
    · exact h16.bind fun _ => .pure _
    · split
      · exact h32.bind fun _ => .pure _
      · exact (Moves.check _ 8).bind fun _ => h32.bind fun _ => h32.bind fun _ => .pure _

theorem safe_buffer : Safe decodeBuffer := by
  refine safe_uint.bind fun len => ?_
  split
  · exact .pure none
  · exact .take _ fun _ => .pure _

theorem safe_string : Safe decodeString := safe_uint.bind fun _ => .take _ fun _ => .pure _

theorem safe_fixed32 : Safe decodeFixed32 := .slice _ 32

theorem safe_fixed64 : Safe decodeFixed64 := .slice _ 64

theorem safe_ipv4Address : Safe decodeIpv4Address := by
  have h : Safe decodeIpv4 := .take _ fun _ => .pure _
  exact h.bind fun _ => safe_uint16.bind fun _ => .pure _

theorem safe_ipv6Address : Safe decodeIpv6Address := by
  have h : Safe decodeIpv6 := .take _ fun _ => .pure _
  exact h.bind fun _ => safe_uint16.bind fun _ => .pure _

theorem safe_array (h : Safe decode) : Safe (decodeArray decode) := by
  refine safe_uint.bind fun len => ?_
  split
  · exact .raise _
  next hlen =>
    exact (Safe.withCapacity (Nat.le_of_not_lt hlen)).bind fun _ => h.readMany _

end
end Peeroxide.Dht
