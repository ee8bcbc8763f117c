import Peeroxide.Dht.CompactEncoding

/-!
# DHT messages

Requests and responses on the wire: a type byte, a byte of flags for the optional fields, and the fields that are there.

Main result: `message_round_trip`.
-/

namespace Peeroxide.Dht
open Lib List Cursor

def VERSION : UInt8 := 0b11
def REQUEST_ID : UInt8 := VERSION
def RESPONSE_ID : UInt8 := ((0b0001 : UInt8) <<< 4) ||| VERSION

def FLAG_ID : UInt8 := 0b00000001
def FLAG_TOKEN : UInt8 := 0b00000010
def FLAG_INTERNAL_OR_CLOSER : UInt8 := 0b00000100
def FLAG_TARGET_OR_ERROR : UInt8 := 0b00001000
def FLAG_VALUE : UInt8 := 0b00010000

structure Ipv4Peer where
  host : String
  port : UInt16
  deriving DecidableEq, Repr

structure Request where
  tid : UInt16
  toPeer : Ipv4Peer
  id : Option Bytes32
  token : Option Bytes32
  internal : Bool
  command : UInt64
  target : Option Bytes32
  value : Option ByteVec
  deriving DecidableEq

structure Response where
  tid : UInt16
  toPeer : Ipv4Peer
  id : Option Bytes32
  token : Option Bytes32
  closerNodes : List Ipv4Peer
  error : UInt64
  value : Option ByteVec
  deriving DecidableEq

inductive Message where
  | request (req : Request)
  | response (res : Response)
  deriving DecidableEq

variable {m : Message} {peer toPeer : Ipv4Peer} {req : Request} {res : Response} {size : Nat} {typeVersion : UInt8}

/-! ## Peers -/

def encodeIpv4Peer (peer : Ipv4Peer) : Encoder := do
  encodeIpv4 peer.host
  encodeUint16 peer.port

def decodeIpv4Peer : Decoder Ipv4Peer := do
  let host ← decodeIpv4
  let port ← decodeUint16
  pure ⟨host, port⟩

def preencodeIpv4Array (c : State) (peers : List Ipv4Peer) : State :=
  (preencodeUint c (UInt64.ofNat peers.length)).reserve (peers.length * 6)

def encodeIpv4Array (peers : List Ipv4Peer) : Encoder := encodeArray encodeIpv4Peer peers

def decodeIpv4Array : Decoder (List Ipv4Peer) := decodeArray decodeIpv4Peer

def peerBytes (peer : Ipv4Peer) : Bytes := ipv4Bytes peer.host ++ leBytes 2 peer.port.toNat

theorem length_peerBytes (h : Ipv4Host peer.host) : (peerBytes peer).length = 6 := by
  rw [peerBytes, length_append, h.length, length_leBytes]

theorem writes_peer (h : Ipv4Host peer.host) : Writes (encodeIpv4Peer peer) (peerBytes peer) :=
  (writes_ipv4 h).append (writes_write _)

theorem reads_peer (h : Ipv4Host peer.host) : Reads decodeIpv4Peer (peerBytes peer) peer :=
  (reads_ipv4 h).bind ((reads_uint16 peer.port).map (Ipv4Peer.mk peer.host))

variable {α : Type} {xs : List α} {bytes : α → Bytes} (c : State)

theorem length_flatMap_of
    (h : ∀ x ∈ xs, (bytes x).length = size) : (xs.flatMap bytes).length = xs.length * size := by
  induction xs with
  | nil => simp
  | cons x xs ih =>
    rw [flatMap_cons, length_append, h x mem_cons_self,
      ih fun y hy => h y (mem_cons_of_mem x hy), length_cons, Nat.succ_mul, Nat.add_comm]

theorem reserve_array (h : ∀ x ∈ xs, (bytes x).length = size) :
    (preencodeUint c (UInt64.ofNat xs.length)).reserve (xs.length * size) = c.reserve (arrayBytes bytes xs).length := by
  rw [preencodeUint_eq, reserve_reserve, arrayBytes, length_append, length_flatMap_of h]

theorem preencodeIpv4Array_eq {peers : List Ipv4Peer} (h : ∀ p ∈ peers, Ipv4Host p.host) :
    preencodeIpv4Array c peers = c.reserve (arrayBytes peerBytes peers).length :=
  reserve_array c fun p hp => length_peerBytes (h p hp)

/-! ## Both passes -/

/-- The flags byte: id, token, internal or closer nodes, target or error, value. -/
def packFlags (id token third fourth value : Bool) : UInt8 :=
  (if id then FLAG_ID else 0) ||| (if token then FLAG_TOKEN else 0) |||
    (if third then FLAG_INTERNAL_OR_CLOSER else 0) ||| (if fourth then FLAG_TARGET_OR_ERROR else 0) |||
    (if value then FLAG_VALUE else 0)

def preencodeHead (c : State) (id token : Option Bytes32) : State :=
  let c := (((c.reserve 1).reserve 1).reserve 2).reserve 6
  let c := if id.isSome then c.reserve 32 else c
  if token.isSome then c.reserve 32 else c

def preencodeRequest (c : State) (req : Request) : State :=
  let c := preencodeHead c req.id req.token
  let c := preencodeUint c req.command
  let c := if req.target.isSome then c.reserve 32 else c
  if req.value.isSome then preencodeBuffer c req.value else c

def encodeHead (typeVersion flags : UInt8) (tid : UInt16) (toPeer : Ipv4Peer) (id token : Option Bytes32) : Encoder := do
  encodeUint8 typeVersion
  encodeUint8 flags
  encodeUint16 tid
  encodeIpv4Peer toPeer
  writeOpt id encodeFixed32
  writeOpt token encodeFixed32

def encodeRequest (req : Request) : Encoder := do
  encodeHead REQUEST_ID (packFlags req.id.isSome req.token.isSome req.internal req.target.isSome req.value.isSome)
    req.tid req.toPeer req.id req.token
  encodeUint req.command
  writeOpt req.target encodeFixed32
  writeIf req.value.isSome (encodeBuffer req.value)

def preencodeResponse (c : State) (res : Response) : State :=
  let c := preencodeHead c res.id res.token
  let c := if !res.closerNodes.isEmpty then preencodeIpv4Array c res.closerNodes else c
  let c := if res.error != 0 then preencodeUint c res.error else c
  if res.value.isSome then preencodeBuffer c res.value else c

def encodeResponse (res : Response) : Encoder := do
  encodeHead RESPONSE_ID
    (packFlags res.id.isSome res.token.isSome (!res.closerNodes.isEmpty) (res.error != 0) res.value.isSome)
    res.tid res.toPeer res.id res.token
  writeIf (!res.closerNodes.isEmpty) (encodeIpv4Array res.closerNodes)
  writeIf (res.error != 0) (encodeUint res.error)
  writeIf res.value.isSome (encodeBuffer res.value)

def encodeRequestToBytes (req : Request) : Except (Fault EncodingError) Bytes :=
  emit (preencodeRequest · req) (encodeRequest req)

def encodeResponseToBytes (res : Response) : Except (Fault EncodingError) Bytes :=
  emit (preencodeResponse · res) (encodeResponse res)

/-! ## Decoding -/

def decodeRequestTail (flags : UInt8) (tid : UInt16) (toPeer : Ipv4Peer) (id token : Option Bytes32) : Decoder Request := do
  let command ← decodeUint
  let target ← readIf (flags &&& FLAG_TARGET_OR_ERROR != 0) decodeFixed32
  let value ← readOr (flags &&& FLAG_VALUE != 0) decodeBuffer none
  pure ⟨tid, toPeer, id, token, flags &&& FLAG_INTERNAL_OR_CLOSER != 0, command, target, value⟩

def decodeResponseTail (flags : UInt8) (tid : UInt16) (toPeer : Ipv4Peer) (id token : Option Bytes32) :
    Decoder Response := do
  let closerNodes ← readOr (flags &&& FLAG_INTERNAL_OR_CLOSER != 0) decodeIpv4Array []
  let error ← readOr (flags &&& FLAG_TARGET_OR_ERROR != 0) decodeUint 0
  let value ← readOr (flags &&& FLAG_VALUE != 0) decodeBuffer none
  pure ⟨tid, toPeer, id, token, closerNodes, error, value⟩

/-- The fields behind the head, a response's when the high half of the type byte is set. -/
def decodeTail (typeVersion flags : UInt8) (tid : UInt16) (toPeer : Ipv4Peer) (id token : Option Bytes32) :
    Decoder Message :=
  if typeVersion &&& 0xF0 != 0 then do
    let res ← decodeResponseTail flags tid toPeer id token
    pure (.response res)
  else do
    let req ← decodeRequestTail flags tid toPeer id token
    pure (.request req)

def decodeBody (typeVersion : UInt8) : Decoder Message := do
  let flags ← decodeUint8
  let tid ← decodeUint16
  let toPeer ← decodeIpv4Peer
  let id ← readIf (flags &&& FLAG_ID != 0) decodeFixed32
  let token ← readIf (flags &&& FLAG_TOKEN != 0) decodeFixed32
  decodeTail typeVersion flags tid toPeer id token

def decodeMessage (buf : Bytes) (grant : Nat := maxGrant) : Except (Fault EncodingError) Message :=
  match buf with
  | [] => .error (.error (.outOfBounds 1 0))
  | typeVersion :: _ =>
    if typeVersion &&& 0x0F ≠ VERSION then .error (.error (.invalidIpFamily typeVersion))
    else (decodeBody typeVersion { Cursor.ofBuffer buf grant with start := 1 }).map Prod.fst

/-! ## The bytes of a message -/

def headBytes (typeVersion flags : UInt8) (tid : UInt16) (toPeer : Ipv4Peer) (id token : Option Bytes32) : Bytes :=
  [typeVersion] ++ ([flags] ++ (leBytes 2 tid.toNat ++ (peerBytes toPeer ++
    (id.elim [] Subtype.val ++ token.elim [] Subtype.val))))

def requestBytes (req : Request) : Bytes :=
  headBytes REQUEST_ID (packFlags req.id.isSome req.token.isSome req.internal req.target.isSome req.value.isSome)
    req.tid req.toPeer req.id req.token ++
  (uintBytes req.command ++ (req.target.elim [] Subtype.val ++
    (if req.value.isSome then bufferBytes req.value else [])))

def responseBytes (res : Response) : Bytes :=
  headBytes RESPONSE_ID
    (packFlags res.id.isSome res.token.isSome (!res.closerNodes.isEmpty) (res.error != 0) res.value.isSome)
    res.tid res.toPeer res.id res.token ++
  ((if !res.closerNodes.isEmpty then arrayBytes peerBytes res.closerNodes else []) ++
    ((if res.error != 0 then uintBytes res.error else []) ++
      (if res.value.isSome then bufferBytes res.value else [])))

theorem reserve_isSome {o : Option α} (h : ∀ x ∈ o, (bytes x).length = size) :
    (if o.isSome then c.reserve size else c) = c.reserve (o.elim [] bytes).length := by
  cases o with
  | none => rfl
  | some x => simp [h x rfl]

theorem reserve_optional {size : Nat} (o : Option { bs : Bytes // bs.length = size }) :
    (if o.isSome then c.reserve size else c) = c.reserve (o.elim [] Subtype.val).length :=
  reserve_isSome c fun b _ => b.2

section
variable (typeVersion flags : UInt8) (tid : UInt16) (h : Ipv4Host toPeer.host) (id token : Option Bytes32)
include h

theorem preencodeHead_eq :
    preencodeHead c id token = c.reserve (headBytes typeVersion flags tid toPeer id token).length := by
  unfold preencodeHead headBytes
  rw [reserve_optional, reserve_optional]
  simp only [reserve_reserve, length_append, length_peerBytes h, length_leBytes, length_singleton,
    Nat.add_assoc]

theorem writes_head :
    Writes (encodeHead typeVersion flags tid toPeer id token) (headBytes typeVersion flags tid toPeer id token) :=
  (writes_write _).append ((writes_write _).append ((writes_write _).append ((writes_peer h).append
    ((Writes.writeOpt fun b _ => writes_fixed32 b).append (.writeOpt fun b _ => writes_fixed32 b)))))

end

theorem preencodeRequest_eq (h : Ipv4Host req.toPeer.host) :
    preencodeRequest c req = c.reserve (requestBytes req).length := by
  unfold preencodeRequest requestBytes
  dsimp only
  rw [preencodeHead_eq c REQUEST_ID
      (packFlags req.id.isSome req.token.isSome req.internal req.target.isSome req.value.isSome) req.tid h,
    preencodeUint_eq, reserve_optional,
    reserve_cond fun _ => preencodeBuffer_eq _ req.value]
  simp only [reserve_reserve, length_append, Nat.add_assoc]

theorem writes_request (h : Ipv4Host req.toPeer.host) : Writes (encodeRequest req) (requestBytes req) :=
  (writes_head _ _ _ h _ _).append ((writes_uint _).append ((Writes.writeOpt fun b _ => writes_fixed32 b).append
    (.writeIf fun _ => writes_buffer _)))

section
variable (h : Ipv4Host res.toPeer.host) (hn : ∀ p ∈ res.closerNodes, Ipv4Host p.host)
include h hn

theorem preencodeResponse_eq :
    preencodeResponse c res = c.reserve (responseBytes res).length := by
  unfold preencodeResponse responseBytes
  dsimp only
  rw [preencodeHead_eq c RESPONSE_ID
      (packFlags res.id.isSome res.token.isSome (!res.closerNodes.isEmpty) (res.error != 0) res.value.isSome) res.tid h,
    reserve_cond fun _ => preencodeIpv4Array_eq _ hn,
    reserve_cond fun _ => preencodeUint_eq _ res.error, reserve_cond fun _ => preencodeBuffer_eq _ res.value]
  simp only [reserve_reserve, length_append, Nat.add_assoc]

theorem writes_response :
    Writes (encodeResponse res) (responseBytes res) :=
  (writes_head _ _ _ h _ _).append ((Writes.writeIf fun _ => writes_array fun p hp => writes_peer (hn p hp)).append
    ((Writes.writeIf fun _ => writes_uint _).append (.writeIf fun _ => writes_buffer _)))

end

/-! ## Reading it back -/

theorem packFlags_tests : ∀ id token third fourth value : Bool,
    (packFlags id token third fourth value &&& FLAG_ID != 0) = id ∧
      (packFlags id token third fourth value &&& FLAG_TOKEN != 0) = token ∧
      (packFlags id token third fourth value &&& FLAG_INTERNAL_OR_CLOSER != 0) = third ∧
      (packFlags id token third fourth value &&& FLAG_TARGET_OR_ERROR != 0) = fourth ∧
      (packFlags id token third fourth value &&& FLAG_VALUE != 0) = value := by
  decide

theorem reads_value {flag : Bool} {value : Option ByteVec} (hflag : flag = value.isSome) :
    Reads (readOr flag decodeBuffer none) (if value.isSome then bufferBytes value else []) (nonEmpty value) := by
  refine Reads.readOr hflag (fun _ => reads_buffer value) fun h => ?_
  rw [Option.isSome_eq_false_iff, Option.isNone_iff_eq_none] at h
  rw [h]
  rfl

theorem reads_requestTail (req : Request) (flags : UInt8)
    (hthird : (flags &&& FLAG_INTERNAL_OR_CLOSER != 0) = req.internal)
    (hfourth : (flags &&& FLAG_TARGET_OR_ERROR != 0) = req.target.isSome)
    (hvalue : (flags &&& FLAG_VALUE != 0) = req.value.isSome) :
    Reads (decodeRequestTail flags req.tid req.toPeer req.id req.token)
      (uintBytes req.command ++ (req.target.elim [] Subtype.val ++
        (if req.value.isSome then bufferBytes req.value else [])))
      { req with value := nonEmpty req.value } := by
  refine (reads_uint req.command).bind ((Reads.readIf hfourth fun b _ => reads_fixed32 b).bind ?_)
  rw [hthird]
  exact (reads_value hvalue).map fun value =>
    (⟨req.tid, req.toPeer, req.id, req.token, req.internal, req.command, req.target, value⟩ : Request)

theorem reads_responseTail (hlen : res.closerNodes.length ≤ MAX_ARRAY_LENGTH)
    (hnodes : ∀ p ∈ res.closerNodes, Ipv4Host p.host) (flags : UInt8)
    (hthird : (flags &&& FLAG_INTERNAL_OR_CLOSER != 0) = !res.closerNodes.isEmpty)
    (hfourth : (flags &&& FLAG_TARGET_OR_ERROR != 0) = (res.error != 0))
    (hvalue : (flags &&& FLAG_VALUE != 0) = res.value.isSome) :
    Reads (decodeResponseTail flags res.tid res.toPeer res.id res.token)
      ((if !res.closerNodes.isEmpty then arrayBytes peerBytes res.closerNodes else []) ++
        ((if res.error != 0 then uintBytes res.error else []) ++
          (if res.value.isSome then bufferBytes res.value else [])))
      { res with value := nonEmpty res.value } := by
  have hcloser : Reads (readOr (flags &&& FLAG_INTERNAL_OR_CLOSER != 0) decodeIpv4Array [])
      (if !res.closerNodes.isEmpty then arrayBytes peerBytes res.closerNodes else []) res.closerNodes :=
    .readOr hthird (fun _ => reads_array hlen fun p hp => reads_peer (hnodes p hp)) fun h =>
      (List.isEmpty_iff.mp (by simpa using h)).symm
  have herror : Reads (readOr (flags &&& FLAG_TARGET_OR_ERROR != 0) decodeUint 0)
      (if res.error != 0 then uintBytes res.error else []) res.error :=
    .readOr hfourth (fun _ => reads_uint res.error) fun h => (bne_eq_false_iff_eq.mp h).symm
  refine hcloser.bind (herror.bind ?_)
  exact (reads_value hvalue).map fun value =>
    (⟨res.tid, res.toPeer, res.id, res.token, res.closerNodes, res.error, value⟩ : Response)

theorem reads_body {flags : UInt8} {tid : UInt16} (hto : Ipv4Host toPeer.host) {id token : Option Bytes32}
    (hid : (flags &&& FLAG_ID != 0) = id.isSome) (htoken : (flags &&& FLAG_TOKEN != 0) = token.isSome) {tail : Bytes}
    (htail : Reads (decodeTail typeVersion flags tid toPeer id token) tail m) :
    Reads (decodeBody typeVersion)
      ([flags] ++ (leBytes 2 tid.toNat ++ (peerBytes toPeer ++
        (id.elim [] Subtype.val ++ (token.elim [] Subtype.val ++ tail))))) m :=
  (reads_uint8 flags).bind ((reads_uint16 tid).bind ((reads_peer hto).bind
    ((Reads.readIf hid fun b _ => reads_fixed32 b).bind ((Reads.readIf htoken fun b _ => reads_fixed32 b).bind htail))))

theorem decodeMessage_of_reads {bs : Bytes}
    (hversion : typeVersion &&& 0x0F = VERSION) (h : Reads (decodeBody typeVersion) bs m) :
    decodeMessage (typeVersion :: bs) = .ok m := by
  have hfaces : ({ Cursor.ofBuffer (typeVersion :: bs) with start := 1 } : Cursor).Faces (bs ++ []) :=
    ⟨rfl, by simp [Cursor.ofBuffer], by simp [Cursor.ofBuffer], leastGrant_le⟩
  rw [decodeMessage, if_neg (not_not_intro hversion), h _ [] hfaces]
  rfl

theorem decodeMessage_request (hto : Ipv4Host req.toPeer.host) :
    decodeMessage (requestBytes req) = .ok (.request { req with value := nonEmpty req.value }) := by
  obtain ⟨hid, htoken, hthird, hfourth, hvalue⟩ :=
    packFlags_tests req.id.isSome req.token.isSome req.internal req.target.isSome req.value.isSome
  have htail := (reads_requestTail req _ hthird hfourth hvalue).map Message.request
  rw [requestBytes, headBytes]
  simp only [append_assoc]
  exact decodeMessage_of_reads (by decide) (reads_body hto hid htoken htail)

theorem decodeMessage_response (hto : Ipv4Host res.toPeer.host)
    (hlen : res.closerNodes.length ≤ MAX_ARRAY_LENGTH) (hnodes : ∀ p ∈ res.closerNodes, Ipv4Host p.host) :
    decodeMessage (responseBytes res) = .ok (.response { res with value := nonEmpty res.value }) := by
  obtain ⟨hid, htoken, hthird, hfourth, hvalue⟩ :=
    packFlags_tests res.id.isSome res.token.isSome (!res.closerNodes.isEmpty) (res.error != 0) res.value.isSome
  have htail := (reads_responseTail hlen hnodes _ hthird hfourth hvalue).map Message.response
  rw [responseBytes, headBytes]
  simp only [append_assoc]
  exact decodeMessage_of_reads (by decide) (reads_body hto hid htoken htail)

/-! ## The round trip -/

namespace Message

/-- The addresses are canonical, and the list of closer nodes is no longer than the decoder takes. -/
def Canonical : Message → Prop
  | request req => Ipv4Host req.toPeer.host
  | response res =>
    Ipv4Host res.toPeer.host ∧ (∀ p ∈ res.closerNodes, Ipv4Host p.host) ∧ res.closerNodes.length ≤ 1048576

/-- An empty value is an absent one. -/
def normal : Message → Message
  | request req => .request { req with value := nonEmpty req.value }
  | response res => .response { res with value := nonEmpty res.value }

def preencode (m : Message) (c : State) : State :=
  match m with
  | request req => preencodeRequest c req
  | response res => preencodeResponse c res

def encode : Message → Encoder
  | request req => encodeRequest req
  | response res => encodeResponse res

def toBytes : Message → Except (Fault EncodingError) Bytes
  | request req => encodeRequestToBytes req
  | response res => encodeResponseToBytes res

end Message

/-- **Round trip of DHT messages.** The second pass writes just the bytes that the first one reserves, and they decode
to the message. -/
theorem message_round_trip (m : Message) (h : m.Canonical) :
    ∃ bs, (∀ c, m.preencode c = c.reserve bs.length) ∧ Writes m.encode bs ∧ m.toBytes = .ok bs ∧
      decodeMessage bs = .ok m.normal := by
  cases m with
  | request req =>
    have hto : Ipv4Host req.toPeer.host := h
    have hbytes : encodeRequestToBytes req = .ok (requestBytes req) :=
      (writes_request hto).emit (preencodeRequest_eq .empty hto)
    exact ⟨requestBytes req, fun c => preencodeRequest_eq c hto, writes_request hto, hbytes, decodeMessage_request hto⟩
  | response res =>
    obtain ⟨hto, hnodes, hlen⟩ := h
    have hbytes : encodeResponseToBytes res = .ok (responseBytes res) :=
      (writes_response hto hnodes).emit (preencodeResponse_eq .empty hto hnodes)
    exact ⟨responseBytes res, fun c => preencodeResponse_eq c hto hnodes, writes_response hto hnodes, hbytes,
      decodeMessage_response hto hlen hnodes⟩

/-- A reply with a closer node, an error and an empty value. -/
theorem message_round_trip_reply :
    let m : Message := .response ⟨7, ⟨"10.0.0.1", 49737⟩, none, none, [⟨"192.168.1.255", 80⟩], 300, some ⟨[], by decide⟩⟩
    m.Canonical ∧ m.normal ≠ m ∧ ∃ bs, m.toBytes = .ok bs ∧ decodeMessage bs = .ok m.normal := by
  intro m
  have h : m.Canonical := by
    refine ⟨⟨[10, 0, 0, 1], rfl, by decide⟩, fun p hp => ?_, by decide⟩
    rw [mem_singleton] at hp
    exact ⟨[192, 168, 1, 255], rfl, by rw [hp]; decide⟩
  obtain ⟨bs, -, -, hbytes, hdecode⟩ := message_round_trip m h
  exact ⟨h, by decide, bs, hbytes, hdecode⟩

end Peeroxide.Dht
