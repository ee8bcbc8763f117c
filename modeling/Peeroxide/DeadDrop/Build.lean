import Peeroxide.DeadDrop.Tree

/-!
# Building the tree

The sender encodes the data chunks and then the index chunks, layer by layer from the data up. The keys of the index chunks
are derived from the seed and a running number; the hash, the key pairs and the checksum are parameters.

Main result: `canonical_layout`.
-/

namespace Peeroxide.DeadDrop
open Lib Dht List

structure Primitives where
  discoveryKey : Bytes → Bytes32
  /-- The public key of the pair of a seed. -/
  publicKey : Bytes32 → Bytes32
  crc32c : Bytes → UInt32

def plainPrimitives : Primitives := ⟨copySlot, id, fun bytes => UInt32.ofNat bytes.length⟩

structure IndexChunk where
  keypairIndex : Nat
  publicKey : Bytes32
  encoded : Bytes
  /-- From the leaves up. -/
  layer : Nat
  positionInLayer : Nat
  deriving DecidableEq

structure DataChunk where
  filePosition : Nat
  address : Bytes32
  encoded : Bytes
  deriving DecidableEq

structure BuiltTree where
  rootEncoded : Bytes
  rootPublicKey : Bytes32
  indexChunks : List IndexChunk
  dataChunks : List DataChunk
  layout : TreeLayout
  crc32c : UInt32
  deriving DecidableEq

def BuiltTree.layer (tree : BuiltTree) (j : Nat) : List IndexChunk := tree.indexChunks.filter (·.layer = j)

/-- What belongs into the slots of a layer: the addresses of the data, or the keys of the layer below. -/
def BuiltTree.below (tree : BuiltTree) : Nat → List Bytes32
  | 0 => tree.dataChunks.map (·.address)
  | j + 1 => (tree.layer j).map (·.publicKey)

inductive BuildError where
  | dataCountMismatch (expected got : Nat)
  deriving DecidableEq

section
variable (P : Primitives)

def salt (_rootSeed : Bytes32) : UInt8 := 0x00

def idxLabel : Bytes := [0x69, 0x64, 0x78]

def deriveIndexKey (rootSeed : Bytes32) (i : Nat) : Bytes32 :=
  P.publicKey (P.discoveryKey (rootSeed.1 ++ idxLabel ++ leBytes 4 i))

def dataChunkAddress (encoded : Bytes) : Bytes32 := P.discoveryKey encoded

def dataChunk (rootSeed : Bytes32) (i : Nat) (payload : Bytes) : DataChunk :=
  let encoded := encodeDataChunk (salt rootSeed) payload
  ⟨i, dataChunkAddress P encoded, encoded⟩

/-- A layer of `count` chunks over `children`; the running number of the first one is `next`, a 32-bit number. -/
def buildLayer (rootSeed : Bytes32) (layer next count : Nat) (children : List Bytes32) : List IndexChunk :=
  (List.range count).map fun pos =>
    let start := pos * NON_ROOT_INDEX_SLOT_CAP
    let stop := min ((pos + 1) * NON_ROOT_INDEX_SLOT_CAP) children.length
    ⟨wrap32 (next + pos), deriveIndexKey P rootSeed (wrap32 (next + pos)),
      encodeNonRootIndex ((children.drop start).take (stop - start)), layer, pos⟩

/-- The layers from `layer` on, and what the root has in its slots. -/
def buildLayers (rootSeed : Bytes32) : List Nat → Nat → Nat → List Bytes32 → List IndexChunk × List Bytes32
  | [], _, _, children => ([], children)
  | count :: counts, layer, next, children =>
    let chunks := buildLayer P rootSeed layer next count children
    let (rest, top) := buildLayers rootSeed counts (layer + 1) (next + count) (chunks.map (·.publicKey))
    (chunks ++ rest, top)

def buildTree (rootSeed : Bytes32) (fileSize : Nat) (crc32c : UInt32) (payloads : List Bytes) :
    Except BuildError BuiltTree :=
  let layout := computeLayout fileSize
  let n := layout.dataChunkCount
  let dataChunks := payloads.mapIdx (dataChunk P rootSeed)
  if dataChunks.length ≠ n then .error (.dataCountMismatch n dataChunks.length)
  else if n = 0 then
    .ok ⟨encodeRootIndex fileSize crc32c [], P.publicKey rootSeed, [], dataChunks, layout, crc32c⟩
  else if layout.depth = 0 then
    .ok ⟨encodeRootIndex fileSize crc32c (dataChunks.map (·.address)), P.publicKey rootSeed, [], dataChunks, layout, crc32c⟩
  else
    let (indexChunks, top) := buildLayers P rootSeed layout.layerCounts 0 0 (dataChunks.map (·.address))
    .ok ⟨encodeRootIndex fileSize crc32c top, P.publicKey rootSeed, indexChunks, dataChunks, layout, crc32c⟩

def buildTreeFromBytes (rootSeed : Bytes32) (file : Bytes) : Except BuildError BuiltTree :=
  buildTree P rootSeed file.length (P.crc32c file) (chunksOf DATA_PAYLOAD_MAX file)

/-! ## The layers -/

def layerStart (n layer : Nat) : Nat := ((List.range layer).map fun j => upCount n (j + 1)).sum

/-- The slots of the chunks of a layer, all together: the addresses of the data, or the keys of the layer below. -/
def slotsBelow (rootSeed : Bytes32) (addresses : List Bytes32) : Nat → List Bytes32
  | 0 => addresses
  | layer + 1 => (List.range (upCount addresses.length (layer + 1))).map fun pos =>
      deriveIndexKey P rootSeed (wrap32 (layerStart addresses.length layer + pos))

variable {P} {rootSeed : Bytes32} {addresses : List Bytes32}

theorem length_slotsBelow (layer : Nat) :
    (slotsBelow P rootSeed addresses layer).length = upCount addresses.length layer := by
  cases layer with
  | zero => rw [slotsBelow, upCount_zero]
  | succ layer => rw [slotsBelow, length_map, length_range]

/-- The chunk of a layer at a place, over all slots of the layer. -/
def indexChunkAt (P : Primitives) (rootSeed : Bytes32) (addresses : List Bytes32) (layer pos : Nat) : IndexChunk :=
  let number := wrap32 (layerStart addresses.length layer + pos)
  ⟨number, deriveIndexKey P rootSeed number,
    encodeNonRootIndex (((slotsBelow P rootSeed addresses layer).drop (pos * NON_ROOT_INDEX_SLOT_CAP)).take
      NON_ROOT_INDEX_SLOT_CAP), layer, pos⟩

theorem buildLayer_eq (layer : Nat) :
    buildLayer P rootSeed layer (layerStart addresses.length layer) (upCount addresses.length (layer + 1))
      (slotsBelow P rootSeed addresses layer) =
    (List.range (upCount addresses.length (layer + 1))).map (indexChunkAt P rootSeed addresses layer) := by
  refine map_congr_left fun pos _ => ?_
  set slots := slotsBelow P rootSeed addresses layer
  have htake : (slots.drop (pos * NON_ROOT_INDEX_SLOT_CAP)).take
      (min ((pos + 1) * NON_ROOT_INDEX_SLOT_CAP) slots.length - pos * NON_ROOT_INDEX_SLOT_CAP) =
      (slots.drop (pos * NON_ROOT_INDEX_SLOT_CAP)).take NON_ROOT_INDEX_SLOT_CAP := by
    rw [take_eq_take_iff, length_drop, Nat.succ_mul]
    omega
  simp only [indexChunkAt, slots, htake]

theorem keys_buildLayer (layer : Nat) :
    ((List.range (upCount addresses.length (layer + 1))).map (indexChunkAt P rootSeed addresses layer)).map
      (·.publicKey) = slotsBelow P rootSeed addresses (layer + 1) := by
  rw [map_map]
  rfl

theorem layerStart_succ (n layer : Nat) : layerStart n (layer + 1) = layerStart n layer + upCount n (layer + 1) := by
  rw [layerStart, range_succ, map_append, sum_append, map_singleton]
  rfl

def layersFrom (P : Primitives) (rootSeed : Bytes32) (addresses : List Bytes32) : Nat → Nat → List IndexChunk
  | _, 0 => []
  | layer, k + 1 =>
    (List.range (upCount addresses.length (layer + 1))).map (indexChunkAt P rootSeed addresses layer) ++
      layersFrom P rootSeed addresses (layer + 1) k

/-- The layers from one on, and the slots of the root. -/
theorem buildLayers_eq (P : Primitives) (rootSeed : Bytes32) (addresses : List Bytes32) (k layer : Nat) :
    buildLayers P rootSeed (layerCounts k (upCount addresses.length layer)) layer (layerStart addresses.length layer)
      (slotsBelow P rootSeed addresses layer) =
    (layersFrom P rootSeed addresses layer k, slotsBelow P rootSeed addresses (layer + k)) := by
  induction k generalizing layer with
  | zero => rfl
  | succ k ih =>
    rw [layerCounts, buildLayers, upCount_succ, buildLayer_eq, keys_buildLayer, ← layerStart_succ, ih, layersFrom,
      Nat.succ_add_eq_add_succ]

theorem mem_layersFrom {k layer : Nat} {chunk : IndexChunk} :
    chunk ∈ layersFrom P rootSeed addresses layer k ↔ ∃ j pos, layer ≤ j ∧ j < layer + k ∧
      pos < upCount addresses.length (j + 1) ∧ chunk = indexChunkAt P rootSeed addresses j pos := by
  induction k generalizing layer with
  | zero =>
    refine iff_of_false not_mem_nil ?_
    omega
  | succ k ih =>
    rw [layersFrom, mem_append, ih, mem_map]
    constructor
    · rintro (⟨pos, hpos, rfl⟩ | ⟨j, pos, hle, hlt, hpos, rfl⟩)
      · exact ⟨layer, pos, le_rfl, by omega, mem_range.mp hpos, rfl⟩
      · exact ⟨j, pos, by omega, by omega, hpos, rfl⟩
    · rintro ⟨j, pos, hle, hlt, hpos, rfl⟩
      rcases Nat.eq_or_lt_of_le hle with rfl | hlt'
      · exact .inl ⟨pos, mem_range.mpr hpos, rfl⟩
      · exact .inr ⟨j, pos, hlt', by omega, hpos, rfl⟩

/-! ## The tree -/

def addressesOf (P : Primitives) (rootSeed : Bytes32) (file : Bytes) : List Bytes32 :=
  (chunksOf DATA_PAYLOAD_MAX file).map fun payload => dataChunkAddress P (encodeDataChunk (salt rootSeed) payload)

theorem length_addressesOf (file : Bytes) : (addressesOf P rootSeed file).length = dataChunkCount file.length := by
  rw [addressesOf, length_map, length_chunksOf, dataChunkCount_eq]

theorem addresses_dataChunks (file : Bytes) :
    ((chunksOf DATA_PAYLOAD_MAX file).mapIdx (dataChunk P rootSeed)).map (·.address) = addressesOf P rootSeed file := by
  refine ext_getElem? fun i => ?_
  rw [addressesOf, getElem?_map, getElem?_map, getElem?_mapIdx, Option.map_map]
  rfl

def treeOf (P : Primitives) (rootSeed : Bytes32) (file : Bytes) : BuiltTree :=
  let addresses := addressesOf P rootSeed file
  let depth := canonicalDepth (dataChunkCount file.length)
  ⟨encodeRootIndex file.length (P.crc32c file) (slotsBelow P rootSeed addresses depth), P.publicKey rootSeed,
    layersFrom P rootSeed addresses 0 depth, (chunksOf DATA_PAYLOAD_MAX file).mapIdx (dataChunk P rootSeed),
    computeLayout file.length, P.crc32c file⟩

theorem buildTreeFromBytes_eq (file : Bytes) : buildTreeFromBytes P rootSeed file = .ok (treeOf P rootSeed file) := by
  set depth := canonicalDepth (dataChunkCount file.length)
  have hcount : ((chunksOf DATA_PAYLOAD_MAX file).mapIdx (dataChunk P rootSeed)).length =
      (computeLayout file.length).dataChunkCount := by
    rw [length_mapIdx, length_chunksOf, computeLayout, dataChunkCount_eq]
  have hlayers : buildLayers P rootSeed (computeLayout file.length).layerCounts 0 0 (addressesOf P rootSeed file) =
      (layersFrom P rootSeed (addressesOf P rootSeed file) 0 depth,
        slotsBelow P rootSeed (addressesOf P rootSeed file) depth) := by
    have h := buildLayers_eq P rootSeed (addressesOf P rootSeed file) depth 0
    rw [upCount_zero, Nat.zero_add, length_addressesOf] at h
    exact h
  rw [buildTreeFromBytes, buildTree]
  rw [if_neg (not_not.mpr hcount)]
  split
  next hzero =>
    have hzero' : dataChunkCount file.length = 0 := hzero
    have hnil : addressesOf P rootSeed file = [] := length_eq_zero_iff.mp (length_addressesOf file ▸ hzero')
    rw [treeOf]
    simp only [hzero', hnil]
    rfl
  split
  next hdepth =>
    have hdepth' : canonicalDepth (dataChunkCount file.length) = 0 := hdepth
    rw [addresses_dataChunks, treeOf]
    simp only [hdepth']
    rfl
  · rw [addresses_dataChunks, hlayers]
    rfl

end

/-! ## The layout -/

section
variable (P : Primitives) (rootSeed : Bytes32) (file : Bytes)

theorem filter_layersFrom (addresses : List Bytes32) (j layer k : Nat) :
    (layersFrom P rootSeed addresses layer k).filter (·.layer = j) = if layer ≤ j ∧ j < layer + k then
      (List.range (upCount addresses.length (j + 1))).map (indexChunkAt P rootSeed addresses j) else [] := by
  induction k generalizing layer with
  | zero => simp [layersFrom]
  | succ k ih =>
    rw [layersFrom, filter_append, ih, filter_map]
    by_cases hlayer : layer = j
    · simp [Function.comp_def, indexChunkAt, hlayer]
    · simp only [Function.comp_def, indexChunkAt, hlayer, decide_false, filter_false, map_nil, nil_append]
      split_ifs <;> first | rfl | omega

theorem layer_treeOf (j : Nat) : (treeOf P rootSeed file).layer j =
    if j < canonicalDepth (dataChunkCount file.length) then
      (List.range (upCount (addressesOf P rootSeed file).length (j + 1))).map
        (indexChunkAt P rootSeed (addressesOf P rootSeed file) j)
    else [] := by
  have h := filter_layersFrom P rootSeed (addressesOf P rootSeed file) j 0 (canonicalDepth (dataChunkCount file.length))
  simpa [BuiltTree.layer, treeOf] using h

theorem below_treeOf {j : Nat} (hj : j ≤ canonicalDepth (dataChunkCount file.length)) :
    (treeOf P rootSeed file).below j = slotsBelow P rootSeed (addressesOf P rootSeed file) j := by
  cases j with
  | zero => exact addresses_dataChunks file
  | succ j => rw [BuiltTree.below, layer_treeOf, if_pos (Nat.lt_of_succ_le hj), keys_buildLayer]

/-- The bytes are within the size of a record, and are read back. -/
def Fits {α : Type} (decode : Bytes → Except WireError α) (encoded : Bytes) (content : α) : Prop :=
  encoded.length ≤ 1000 ∧ decode encoded = .ok content

theorem fits_nonRootIndex {slots : List Bytes32} (h : slots.length ≤ NON_ROOT_INDEX_SLOT_CAP) :
    Fits decodeNonRootIndex (encodeNonRootIndex slots) slots := by
  refine ⟨?_, decodeNonRootIndex_encode h⟩
  rw [encodeNonRootIndex, length_cons, length_slotBytes]
  simp only [NON_ROOT_INDEX_SLOT_CAP, MAX_CHUNK_SIZE, NON_ROOT_INDEX_HEADER_SIZE, HASH_LEN] at h ⊢
  omega

theorem fits_rootIndex {slots : List Bytes32} (hsize : file.length < 2 ^ 64) (h : slots.length ≤ ROOT_INDEX_SLOT_CAP) :
    Fits decodeRootIndex (encodeRootIndex file.length (P.crc32c file) slots) ⟨file.length, P.crc32c file, slots⟩ := by
  refine ⟨?_, decodeRootIndex_encode hsize _ h⟩
  simp only [encodeRootIndex, length_cons, length_append, length_leBytes, length_slotBytes]
  simp only [ROOT_INDEX_SLOT_CAP, MAX_CHUNK_SIZE, ROOT_INDEX_HEADER_SIZE, HASH_LEN] at h ⊢
  omega

/-- **The depth is the least one that is enough, each layer is the one below over 31 rounded up, the last one fits the
root, and the tree that is built has these layers. Each chunk fits a record and is read back: an index chunk as 31 of the
addresses or keys below it from its place on, the root as all of the last ones.** -/
theorem canonical_layout (hsize : file.length < 2 ^ 64) :
    (let layout := computeLayout file.length
    (∀ d, layout.depth ≤ d ↔ dataChunkCount file.length ≤ 30 * 31 ^ d) ∧
    layout.layerCounts.length = layout.depth ∧
    (dataChunkCount file.length :: layout.layerCounts).IsChain (fun below count => count = divCeil below 31) ∧
    expectedRootSlots layout ≤ 30 ∧
    ∃ tree, buildTreeFromBytes P rootSeed file = .ok tree ∧ tree.dataChunks.length = dataChunkCount file.length ∧
      (∀ j, (tree.layer j).length = layout.layerCounts.getD j 0) ∧
      (∀ j pos chunk, (tree.layer j)[pos]? = some chunk → chunk.positionInLayer = pos ∧
        Fits decodeNonRootIndex chunk.encoded (((tree.below j).drop (pos * 31)).take 31)) ∧
      (∀ i chunk, tree.dataChunks[i]? = some chunk → Fits decodeDataChunk chunk.encoded ((file.drop (i * 998)).take 998)) ∧
      (tree.below layout.depth).length = expectedRootSlots layout ∧
        Fits decodeRootIndex tree.rootEncoded ⟨file.length, P.crc32c file, tree.below layout.depth⟩) := by
  intro layout
  have htop : (treeOf P rootSeed file).below layout.depth =
      slotsBelow P rootSeed (addressesOf P rootSeed file) layout.depth := below_treeOf P rootSeed file le_rfl
  have hslots : ((treeOf P rootSeed file).below layout.depth).length = expectedRootSlots layout := by
    rw [htop, length_slotsBelow, length_addressesOf, expectedRootSlots_eq]
    rfl
  have hroot : expectedRootSlots layout ≤ 30 := by
    rw [expectedRootSlots_eq]
    exact upCount_canonicalDepth_le _
  refine ⟨canonicalDepth_le_iff _, by simp [layout, computeLayout, layerCounts_eq], layerCounts_isChain _ _, hroot,
    treeOf P rootSeed file, buildTreeFromBytes_eq file, ?_, fun j => ?_, fun j pos chunk hchunk => ?_, fun i chunk hi => ?_,
    hslots, ?_⟩
  · rw [treeOf, length_mapIdx, length_chunksOf, dataChunkCount_eq]
  · rw [layer_treeOf, length_addressesOf]
    by_cases hj : j < canonicalDepth (dataChunkCount file.length)
    · simp [layout, computeLayout, layerCounts_eq, hj]
    · simp [layout, computeLayout, layerCounts_eq, hj]
  · rw [layer_treeOf] at hchunk
    split_ifs at hchunk with hj
    · obtain ⟨pos', hpos, rfl⟩ := Option.map_eq_some_iff.mp (getElem?_map .. ▸ hchunk)
      obtain ⟨-, rfl⟩ := List.getElem?_eq_some_iff.mp hpos
      rw [getElem_range]
      rw [below_treeOf P rootSeed file hj.le]
      exact ⟨rfl, fits_nonRootIndex (length_take_le _ _)⟩
    · cases hchunk
  · rw [treeOf, getElem?_mapIdx] at hi
    obtain ⟨payload, hpayload, rfl⟩ := Option.map_eq_some_iff.mp hi
    have hlt : i < (chunksOf DATA_PAYLOAD_MAX file).length := (List.getElem?_eq_some_iff.mp hpayload).1
    rw [getElem?_chunksOf (by simpa using hlt)] at hpayload
    obtain rfl := Option.some.inj hpayload
    exact ⟨Nat.add_le_add_right (length_take_le 998 _) 2, rfl⟩
  · have hfits := fits_rootIndex P file hsize (hslots.trans_le hroot)
    rwa [htop] at hfits ⊢

end

/-- A file of 31 data chunks has one index chunk between them and the root. -/
theorem canonical_layout_index : let file : Bytes := replicate 29941 0
    ∃ tree, buildTreeFromBytes plainPrimitives (.fill 0) file = .ok tree ∧ (tree.layer 0).length = 1 ∧
      ∀ chunk, (tree.layer 0)[0]? = some chunk → Fits decodeNonRootIndex chunk.encoded (((tree.below 0).drop 0).take 31) := by
  intro file
  have hlength : file.length = 29941 := length_replicate
  obtain ⟨-, -, -, -, tree, htree, -, hcount, hchunk, -⟩ :=
    canonical_layout plainPrimitives (.fill 0) file (by rw [hlength]; decide)
  refine ⟨tree, htree, ?_, fun chunk hfirst => (hchunk 0 0 chunk hfirst).2⟩
  rw [hcount, hlength]
  decide

end Peeroxide.DeadDrop
