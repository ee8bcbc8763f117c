import Peeroxide.DeadDrop.Build
import Mathlib.Data.List.Dedup
import Mathlib.Data.List.Sort

/-!
# Need-lists

A receiver asks for data chunks by ranges of their positions; the sender answers with these chunks and with the index
chunks above them.

Main results: `full_path_answered`, `need_list_published_iff`.
-/

namespace Peeroxide.DeadDrop
open Lib Dht List

/-- The positions from `start` on and below `stop`, both 32-bit numbers. -/
structure NeedEntry where
  start : Nat
  stop : Nat
  deriving DecidableEq

/-! ## The record -/

def encodeNeedEntry (entry : NeedEntry) : Bytes := leBytes 4 entry.start ++ leBytes 4 entry.stop

/-- The number of entries is written as a 16-bit number. -/
def encodeNeedList (entries : List NeedEntry) : Bytes :=
  VERSION :: (leBytes 2 entries.length ++ (entries.map encodeNeedEntry).flatten)

def decodeNeedEntry (bs : Bytes) : Except WireError NeedEntry :=
  let start := ofLeBytes (bs.take 4)
  let stop := ofLeBytes ((bs.drop 4).take 4)
  if start ≥ stop then .error (.invalidEntry start stop) else .ok ⟨start, stop⟩

/-- Nothing at all says that the receiver is done. -/
def decodeNeedList : Bytes → Except WireError (List NeedEntry)
  | [] => .ok []
  | v :: bs =>
    if v ≠ VERSION then .error (.badVersion v)
    else if bs.length + 1 < NEED_LIST_HEADER_SIZE then .error (.truncated NEED_LIST_HEADER_SIZE (bs.length + 1))
    else
      let declared := ofLeBytes (bs.take 2)
      let entryBytes := bs.drop 2
      if entryBytes.length % NEED_ENTRY_SIZE ≠ 0 then
        .error (.truncated (NEED_LIST_HEADER_SIZE + divCeil entryBytes.length NEED_ENTRY_SIZE * NEED_ENTRY_SIZE)
          (bs.length + 1))
      else
        let computed := entryBytes.length / NEED_ENTRY_SIZE
        if computed ≠ declared then .error (.badCount declared computed)
        else (chunksOf NEED_ENTRY_SIZE entryBytes).mapM decodeNeedEntry

def coalesceMissingRanges.loop : List Nat → Nat → Nat → List NeedEntry
  | [], start, prev => [⟨start, wrap32 (prev + 1)⟩]
  | p :: ps, start, prev =>
    if p = wrap32 (prev + 1) then coalesceMissingRanges.loop ps start p
    else ⟨start, wrap32 (prev + 1)⟩ :: coalesceMissingRanges.loop ps p p

def coalesceMissingRanges : List Nat → List NeedEntry
  | [] => []
  | p :: ps => coalesceMissingRanges.loop ps p p

/-! ## The answer -/

structure ResponseChunks where
  dataChunkIndices : List Nat
  indexChunkIndices : List Nat
  deriving DecidableEq

/-- The range of chunks of each layer that is above a range of the layer below. -/
def touchedAtLayer : Nat → Nat → Nat → List (Nat × Nat)
  | 0, _, _ => []
  | depth + 1, lo, hi =>
    let touched := (lo / NON_ROOT_INDEX_SLOT_CAP, (hi - 1) / NON_ROOT_INDEX_SLOT_CAP + 1)
    touched :: touchedAtLayer depth touched.1 touched.2

/-- The places of these chunks in the list of all index chunks; the layers are there one after the other. -/
def touchedIndices : Nat → List Nat → List (Nat × Nat) → List Nat
  | offset, count :: counts, (lo, hi) :: touched =>
    (range' (min lo count) (min hi count - min lo count)).map (offset + ·) ++
      touchedIndices (offset + count) counts touched
  | _, _, _ => []

def responseChunksForEntry (tree : BuiltTree) (entry : NeedEntry) : ResponseChunks :=
  let stop := min entry.stop tree.dataChunks.length
  if entry.start ≥ stop then ⟨[], []⟩
  else
    ⟨range' entry.start (stop - entry.start),
      touchedIndices 0 tree.layout.layerCounts (touchedAtLayer tree.layout.depth entry.start stop)⟩

def orderedSet (xs : List Nat) : List Nat := xs.dedup.insertionSort (· ≤ ·)

theorem mem_orderedSet {xs : List Nat} {x : Nat} : x ∈ orderedSet xs ↔ x ∈ xs := by
  rw [orderedSet, mem_insertionSort, mem_dedup]

def responseChunksForList (tree : BuiltTree) (entries : List NeedEntry) : ResponseChunks :=
  ⟨orderedSet (entries.flatMap fun entry => (responseChunksForEntry tree entry).dataChunkIndices),
    orderedSet (entries.flatMap fun entry => (responseChunksForEntry tree entry).indexChunkIndices)⟩

theorem mem_dataChunkIndices {tree : BuiltTree} {entries : List NeedEntry} {i : Nat} :
    i ∈ (responseChunksForList tree entries).dataChunkIndices ↔
      i < tree.dataChunks.length ∧ ∃ entry ∈ entries, entry.start ≤ i ∧ i < entry.stop := by
  rw [responseChunksForList, mem_orderedSet, mem_flatMap]
  constructor
  · rintro ⟨entry, hentry, hmem⟩
    rw [responseChunksForEntry] at hmem
    split at hmem
    · cases hmem
    · obtain ⟨hle, hlt⟩ := mem_range'_1.mp hmem
      exact ⟨by omega, entry, hentry, hle, by omega⟩
  · rintro ⟨hlt, entry, hentry, hle, hstop⟩
    refine ⟨entry, hentry, ?_⟩
    rw [responseChunksForEntry]
    rw [if_neg (by omega)]
    exact mem_range'_1.mpr ⟨hle, by omega⟩

/-! ## The chunks above -/

theorem pairwise_orderedSet (xs : List Nat) : (orderedSet xs).Pairwise (· < ·) := by
  have hsorted : (orderedSet xs).Pairwise (· ≤ ·) := pairwise_insertionSort _ _
  have hnodup : (orderedSet xs).Nodup := (perm_insertionSort _ _).nodup_iff.mpr xs.nodup_dedup
  exact (hsorted.and hnodup).imp fun h => lt_of_le_of_ne h.1 h.2

/-- The chunk at a place of a layer has the 31 slots from `31 * pos` on of the layer below; the data are layer 0. -/
def Above : Nat → Nat → Nat → Prop
  | 0, pos, p => p = pos
  | layer + 1, pos, p => ∃ child, pos * NON_ROOT_INDEX_SLOT_CAP ≤ child ∧ child < (pos + 1) * NON_ROOT_INDEX_SLOT_CAP ∧
      Above layer child p

theorem above_iff (layer pos p : Nat) : Above layer pos p ↔ p / NON_ROOT_INDEX_SLOT_CAP ^ layer = pos := by
  induction layer generalizing pos with
  | zero => rw [Above, Nat.pow_zero, Nat.div_one]
  | succ layer ih =>
    simp only [Above, ih, show NON_ROOT_INDEX_SLOT_CAP = 31 from rfl, Nat.pow_succ, ← Nat.div_div_eq_div_mul]
    constructor
    · rintro ⟨_, hle, hlt, rfl⟩
      omega
    · rintro rfl
      exact ⟨_, by omega, by omega, rfl⟩

theorem above_succ (layer pos p : Nat) : Above (layer + 1) pos p ↔ Above layer pos (p / NON_ROOT_INDEX_SLOT_CAP) := by
  rw [above_iff, above_iff, Nat.pow_succ', Nat.div_div_eq_div_mul]

/-- The chunks over a range are those over its positions. -/
theorem exists_div_iff {lo hi q : Nat} (h : lo < hi) :
    (lo / NON_ROOT_INDEX_SLOT_CAP ≤ q ∧ q < (hi - 1) / NON_ROOT_INDEX_SLOT_CAP + 1) ↔
      ∃ p, lo ≤ p ∧ p < hi ∧ p / NON_ROOT_INDEX_SLOT_CAP = q := by
  simp only [show NON_ROOT_INDEX_SLOT_CAP = 31 from rfl]
  constructor
  · exact fun hq => ⟨max lo (q * 31), by omega, by omega, by omega⟩
  · rintro ⟨p, hlo, hhi, rfl⟩
    omega

section
variable (P : Primitives) (rootSeed : Bytes32) {addresses : List Bytes32}

/-- A chunk is above a data chunk just when one of the slots it is written with is that of a chunk which is. -/
theorem above_succ_iff_slot (layer pos : Nat) {p : Nat} (hp : p < addresses.length) :
    ∃ slots, decodeNonRootIndex (indexChunkAt P rootSeed addresses layer pos).encoded = .ok slots ∧
      (Above (layer + 1) pos p ↔ ∃ i slot, slots[i]? = some slot ∧
        (slotsBelow P rootSeed addresses layer)[pos * NON_ROOT_INDEX_SLOT_CAP + i]? = some slot ∧
        Above layer (pos * NON_ROOT_INDEX_SLOT_CAP + i) p) := by
  refine ⟨_, decodeNonRootIndex_encode (length_take_le _ _), ?_⟩
  simp only [getElem?_take, getElem?_drop]
  constructor
  · rintro ⟨child, hle, hlt, habove⟩
    rw [Nat.succ_mul] at hlt
    have hthere : child < (slotsBelow P rootSeed addresses layer).length := by
      rw [length_slotsBelow, lt_upCount_iff, ← (above_iff layer child p).mp habove]
      exact (Nat.div_mul_le_self _ _).trans_lt hp
    refine ⟨child - pos * NON_ROOT_INDEX_SLOT_CAP, (slotsBelow P rootSeed addresses layer)[child], ?_⟩
    rw [if_pos (by omega), Nat.add_sub_cancel' hle]
    exact ⟨getElem?_eq_getElem hthere, getElem?_eq_getElem hthere, habove⟩
  · rintro ⟨i, slot, hslot, -, habove⟩
    split_ifs at hslot with hi
    exact ⟨_, Nat.le_add_right _ _, by rw [Nat.succ_mul]; omega, habove⟩

theorem mem_touchedIndices {k layer lo hi : Nat} (h : lo < hi) (hhi : hi ≤ upCount addresses.length layer) (offset x : Nat) :
    x ∈ touchedIndices offset (layerCounts k (upCount addresses.length layer)) (touchedAtLayer k lo hi) ↔
      ∃ i chunk, x = offset + i ∧ (layersFrom P rootSeed addresses layer k)[i]? = some chunk ∧
        ∃ p, lo ≤ p ∧ p < hi ∧ Above (chunk.layer + 1 - layer) chunk.positionInLayer p := by
  induction k generalizing layer lo hi offset with
  | zero => simp [layerCounts, touchedAtLayer, touchedIndices, layersFrom]
  | succ k ih =>
    have htop : (hi - 1) / NON_ROOT_INDEX_SLOT_CAP < upCount addresses.length (layer + 1) := by
      rw [← upCount_succ, lt_divCeil_iff (by decide)]
      have := Nat.div_mul_le_self (hi - 1) NON_ROOT_INDEX_SLOT_CAP
      omega
    have hlow : lo / NON_ROOT_INDEX_SLOT_CAP ≤ (hi - 1) / NON_ROOT_INDEX_SLOT_CAP :=
      Nat.div_le_div_right (by omega)
    rw [layerCounts, touchedAtLayer, touchedIndices, upCount_succ, Nat.min_eq_left (by omega), Nat.min_eq_left (by omega),
      mem_append, ih (by omega) (by omega), layersFrom]
    have hup (j pos p : Nat) (hj : layer + 1 ≤ j) :
        Above (j + 1 - layer) pos p ↔ Above (j + 1 - (layer + 1)) pos (p / NON_ROOT_INDEX_SLOT_CAP) := by
      rw [← above_succ, show j + 1 - layer = j + 1 - (layer + 1) + 1 by omega]
    constructor
    · rintro (hx | ⟨i, chunk, rfl, hi, q, hle, hlt, habove⟩)
      · obtain ⟨q, hq, rfl⟩ := mem_map.mp hx
        rw [mem_range'_1] at hq
        obtain ⟨p, hlo, hhi, hp⟩ := (exists_div_iff h).mp ⟨hq.1, by omega⟩
        refine ⟨q, indexChunkAt P rootSeed addresses layer q, rfl, ?_, p, hlo, hhi, ?_⟩
        · rw [getElem?_append_left (by simp; omega), getElem?_map, getElem?_range (by omega)]
          rfl
        · simpa [above_iff, indexChunkAt] using hp
      · obtain ⟨p, hlo, hhi, rfl⟩ := (exists_div_iff h).mp ⟨hle, hlt⟩
        obtain ⟨j, pos, hj, -, -, rfl⟩ := mem_layersFrom.mp (mem_of_getElem? hi)
        refine ⟨_ + i, indexChunkAt P rootSeed addresses j pos, Nat.add_assoc .., ?_, p, hlo, hhi, (hup j pos p hj).mpr habove⟩
        rw [getElem?_append_right (by simp), length_map, length_range, Nat.add_sub_cancel_left, hi]
    · rintro ⟨i, chunk, rfl, hi, p, hlo, hhi, habove⟩
      have hq := (exists_div_iff h).mpr ⟨p, hlo, hhi, rfl⟩
      by_cases hfirst : i < upCount addresses.length (layer + 1)
      · rw [getElem?_append_left (by simpa using hfirst), getElem?_map, getElem?_range hfirst] at hi
        obtain rfl := Option.some.inj hi
        have hp : p / NON_ROOT_INDEX_SLOT_CAP = i := by simpa [above_iff, indexChunkAt] using habove
        exact .inl (mem_map.mpr ⟨i, mem_range'_1.mpr (by omega), rfl⟩)
      · rw [getElem?_append_right (by simpa using hfirst), length_map, length_range] at hi
        obtain ⟨j, pos, hj, -, -, rfl⟩ := mem_layersFrom.mp (mem_of_getElem? hi)
        exact .inr ⟨_, _, by omega, hi, _, hq.1, hq.2, (hup j pos p hj).mp habove⟩

end

/-- **The answer has just the positions that are asked for and are there, and just the index chunks above one of them,
each once and in increasing order.** -/
theorem full_path_answered (P : Primitives) (rootSeed : Bytes32) (file : Bytes) (entries : List NeedEntry) :
    ∃ tree, buildTreeFromBytes P rootSeed file = .ok tree ∧
      let answer := responseChunksForList tree entries
      answer.dataChunkIndices.Pairwise (· < ·) ∧ answer.indexChunkIndices.Pairwise (· < ·) ∧
      (∀ i, i ∈ answer.dataChunkIndices ↔
        i < tree.dataChunks.length ∧ ∃ entry ∈ entries, entry.start ≤ i ∧ i < entry.stop) ∧
      ∀ i, i ∈ answer.indexChunkIndices ↔ ∃ chunk, tree.indexChunks[i]? = some chunk ∧
        ∃ p ∈ answer.dataChunkIndices, Above (chunk.layer + 1) chunk.positionInLayer p := by
  refine ⟨_, buildTreeFromBytes_eq file, pairwise_orderedSet _, pairwise_orderedSet _, fun i => mem_dataChunkIndices,
    fun i => ?_⟩
  have hentry (entry : NeedEntry) : i ∈ (responseChunksForEntry (treeOf P rootSeed file) entry).indexChunkIndices ↔
      ∃ chunk, (treeOf P rootSeed file).indexChunks[i]? = some chunk ∧
        ∃ p, entry.start ≤ p ∧ p < min entry.stop (treeOf P rootSeed file).dataChunks.length ∧
          Above (chunk.layer + 1) chunk.positionInLayer p := by
    rw [responseChunksForEntry]
    split
    next hempty =>
      refine iff_of_false not_mem_nil ?_
      rintro ⟨-, -, p, hle, hlt, -⟩
      omega
    next hsome =>
      have hstop : min entry.stop (treeOf P rootSeed file).dataChunks.length ≤
          upCount (addressesOf P rootSeed file).length 0 := by
        rw [upCount_zero, addressesOf, length_map, treeOf, length_mapIdx]
        exact Nat.min_le_right _ _
      have htouched := mem_touchedIndices P rootSeed (k := (treeOf P rootSeed file).layout.depth)
        (Nat.lt_of_not_le hsome) hstop 0 i
      rw [upCount_zero, length_addressesOf] at htouched
      refine htouched.trans ?_
      simp [treeOf, computeLayout]
  refine (mem_orderedSet.trans mem_flatMap).trans ?_
  simp only [hentry, mem_dataChunkIndices, Nat.lt_min]
  constructor
  · rintro ⟨entry, hmem, chunk, hchunk, p, hle, ⟨hlt, hlen⟩, habove⟩
    exact ⟨chunk, hchunk, p, ⟨hlen, entry, hmem, hle, hlt⟩, habove⟩
  · rintro ⟨chunk, hchunk, p, ⟨hlen, entry, hmem, hle, hlt⟩, habove⟩
    exact ⟨entry, hmem, chunk, hchunk, p, hle, ⟨hlt, hlen⟩, habove⟩

/-! ## What a receiver publishes -/

def Covers (entries : List NeedEntry) (p : Nat) : Prop := ∃ entry ∈ entries, entry.start ≤ p ∧ p < entry.stop

/-- The positions a receiver misses, as it hands them over: 32-bit numbers in increasing order. -/
structure Missing where
  positions : List Nat
  sorted : positions.Pairwise (· < ·)
  bounded : ∀ p ∈ positions, p < 2 ^ 32

def Missing.record (m : Missing) : Bytes := encodeNeedList (coalesceMissingRanges m.positions)

/-- The number of maximal runs, by their last positions. -/
def Missing.runs (m : Missing) : Nat := m.positions.countP fun p => p + 1 ∉ m.positions

/-- The record can be put, it is accepted, and it asks only for what is missed; with few runs, for all of it. -/
structure Missing.Published (m : Missing) : Prop where
  short : m.record.length ≤ MAX_CHUNK_SIZE
  accepted : ∃ entries, decodeNeedList m.record = .ok entries ∧ (∀ p, Covers entries p → p ∈ m.positions) ∧
    (m.runs ≤ NEED_LIST_ENTRY_CAP → ∀ p ∈ m.positions, Covers entries p)

theorem decodeNeedEntry_encode {e : NeedEntry} (hstart : e.start < 2 ^ 32) (hstop : e.stop < 2 ^ 32) :
    decodeNeedEntry (encodeNeedEntry e) =
      if e.start ≥ e.stop then .error (.invalidEntry e.start e.stop) else .ok e := by
  have hstart' : ofLeBytes ((encodeNeedEntry e).take 4) = e.start := by
    rw [encodeNeedEntry, take_left' (length_leBytes ..), ofLeBytes_leBytes hstart]
  have hstop' : ofLeBytes (((encodeNeedEntry e).drop 4).take 4) = e.stop := by
    rw [encodeNeedEntry, drop_left' (length_leBytes ..), take_of_length_le (length_leBytes ..).le,
      ofLeBytes_leBytes hstop]
  rw [decodeNeedEntry, hstart', hstop']

theorem decodeNeedList_encode {es entries : List NeedEntry} (hcount : es.length < 2 ^ 16)
    (hbound : ∀ e ∈ es, e.start < 2 ^ 32 ∧ e.stop < 2 ^ 32) :
    decodeNeedList (encodeNeedList es) = .ok entries ↔ entries = es ∧ ∀ e ∈ es, e.start < e.stop := by
  have hlength : ∀ x ∈ es.map encodeNeedEntry, x.length = NEED_ENTRY_SIZE := by
    simp [encodeNeedEntry, NEED_ENTRY_SIZE]
  have hbody : (es.map encodeNeedEntry).flatten.length = es.length * NEED_ENTRY_SIZE := by
    simp [encodeNeedEntry, Function.comp_def, NEED_ENTRY_SIZE]
  have hdeclared : ofLeBytes (leBytes 2 es.length) = es.length := ofLeBytes_leBytes hcount
  have hread : decodeNeedList (encodeNeedList es) = (es.map encodeNeedEntry).mapM decodeNeedEntry := by
    rw [encodeNeedList, decodeNeedList, if_neg (by simp), if_neg (by simp [NEED_LIST_HEADER_SIZE]),
      take_left' (length_leBytes ..), drop_left' (length_leBytes ..), hdeclared]
    dsimp only
    rw [hbody, if_neg (by simp), Nat.mul_div_cancel _ (by decide), if_neg (by simp),
      chunksOf_flatten (by decide) hlength]
  rw [hread]
  clear hcount hlength hbody hdeclared hread
  induction es generalizing entries with
  | nil => simp [pure, Except.pure, eq_comm]
  | cons e es ih =>
    obtain ⟨hstart, hstop⟩ := hbound e mem_cons_self
    rw [map_cons, mapM_cons, decodeNeedEntry_encode hstart hstop]
    have ih' := fun entries => @ih entries fun e he => hbound e (mem_cons_of_mem _ he)
    split
    next hge =>
      refine iff_of_false nofun fun h => ?_
      exact absurd (h.2 e mem_cons_self) (Nat.not_lt.mpr hge)
    next hlt =>
      cases hr : (es.map encodeNeedEntry).mapM decodeNeedEntry with
      | error err =>
        refine iff_of_false nofun fun h => ?_
        have hok := (ih' es).mpr ⟨rfl, fun e he => h.2 e (mem_cons_of_mem _ he)⟩
        cases hr.symm.trans hok
      | ok rest =>
        obtain ⟨rfl, hvalid⟩ := (ih' rest).mp hr
        have hall : ∀ e' ∈ e :: rest, e'.start < e'.stop := forall_mem_cons.mpr ⟨Nat.lt_of_not_ge hlt, hvalid⟩
        exact ⟨fun h => ⟨(Except.ok.inj h).symm, hall⟩, fun h => congrArg _ h.1.symm⟩

/-- One range for each run; where the last 32-bit position is missed, its range ends at zero. -/
structure Coalesced (ps : List Nat) (covered : Nat → Prop) (es : List NeedEntry) : Prop where
  length : es.length = ps.countP fun p => p + 1 ∉ ps
  bounded : ∀ e ∈ es, e.start < 2 ^ 32 ∧ e.stop < 2 ^ 32
  wrapped : 2 ^ 32 - 1 ∈ ps → ∃ e ∈ es, e.stop = 0
  exact : 2 ^ 32 - 1 ∉ ps → (∀ e ∈ es, e.start < e.stop) ∧ ∀ q, Covers es q ↔ covered q

theorem coalesced_loop {ps : List Nat} {start prev : Nat} (hsorted : (prev :: ps).Pairwise (· < ·))
    (hbound : ∀ p ∈ prev :: ps, p < 2 ^ 32) (hstart : start ≤ prev) :
    Coalesced (prev :: ps) (fun q => (start ≤ q ∧ q ≤ prev) ∨ q ∈ ps) (coalesceMissingRanges.loop ps start prev) := by
  induction ps generalizing start prev with
  | nil =>
    have hprev := hbound prev (by simp)
    constructor <;> simp only [coalesceMissingRanges.loop, wrap32, Covers, mem_singleton, forall_eq,
      exists_eq_left, not_mem_nil, or_false]
    · simp
    · omega
    · omega
    · exact fun h => ⟨by omega, fun q => by omega⟩
  | cons p ps ih =>
    obtain ⟨hfirst, hrest⟩ := pairwise_cons.mp hsorted
    have hlt : prev < p := hfirst p mem_cons_self
    have hp := hbound p (by simp)
    have hlast : 2 ^ 32 - 1 ∈ prev :: p :: ps ↔ 2 ^ 32 - 1 ∈ p :: ps := mem_cons.trans (or_iff_right (by omega))
    -- no later position is just below the first
    have hlater : (p :: ps).countP (fun q => q + 1 ∉ prev :: p :: ps) = (p :: ps).countP fun q => q + 1 ∉ p :: ps := by
      refine countP_congr fun q hq => ?_
      have hq' := hfirst q hq
      simp [show q + 1 ≠ prev by omega]
    have ih' := fun start => @ih start p hrest fun q hq => hbound q (mem_cons_of_mem _ hq)
    rw [coalesceMissingRanges.loop, wrap32_of_lt (by omega)]
    split
    next heq =>
      have hnext : prev + 1 ∈ prev :: p :: ps := by simp [heq]
      obtain ⟨hlength, hbounds, hwrapped, hexact⟩ := ih' start (by omega)
      refine ⟨?_, hbounds, fun h => hwrapped (hlast.mp h), fun h => ?_⟩
      · rw [countP_cons, hlater, hlength, if_neg (by simp [hnext]), Nat.add_zero]
      · rw [hlast] at h
        refine ⟨(hexact h).1, fun q => ((hexact h).2 q).trans ?_⟩
        rw [mem_cons, ← or_assoc]
        exact or_congr_left (by omega)
    next hne =>
      have hgap : prev + 1 ∉ prev :: p :: ps := by
        rw [mem_cons, or_iff_right (Nat.succ_ne_self _)]
        intro hmem
        obtain h | h := mem_cons.mp hmem
        · exact hne h.symm
        · have := (pairwise_cons.mp hrest).1 _ h
          omega
      obtain ⟨hlength, hbounds, hwrapped, hexact⟩ := ih' p (le_refl p)
      refine ⟨?_, forall_mem_cons.mpr ⟨⟨show start < _ by omega, show prev + 1 < _ by omega⟩, hbounds⟩,
        fun h => ?_, fun h => ?_⟩
      · rw [countP_cons, hlater, length_cons, hlength, if_pos (by simp [hgap])]
      · obtain ⟨e, he, hstop⟩ := hwrapped (hlast.mp h)
        exact ⟨e, mem_cons_of_mem _ he, hstop⟩
      · obtain ⟨hvalid, hcovers⟩ := hexact (hlast.not.mp h)
        refine ⟨forall_mem_cons.mpr ⟨Nat.lt_succ_of_le hstart, hvalid⟩, fun q => ?_⟩
        rw [Covers, exists_mem_cons_iff, ← Covers, hcovers, mem_cons]
        exact or_congr (and_congr_right fun _ => Nat.lt_succ_iff) (or_congr_left (by omega))

theorem Missing.coalesced (m : Missing) :
    Coalesced m.positions (· ∈ m.positions) (coalesceMissingRanges m.positions) := by
  obtain ⟨_ | ⟨p, ps⟩, hsorted, hbound⟩ := m
  · constructor <;> simp [coalesceMissingRanges, Covers]
  · have h := coalesced_loop hsorted hbound (le_refl p)
    refine { h with exact := fun hlast => ⟨(h.exact hlast).1, fun q => ((h.exact hlast).2 q).trans ?_⟩ }
    rw [mem_cons]
    exact or_congr_left (by omega)

/-- **A need-list is published as it should be just when it has at most as many runs as fit, and the last 32-bit position
is not missed.** -/
theorem need_list_published_iff (m : Missing) :
    m.Published ↔ m.runs ≤ NEED_LIST_ENTRY_CAP ∧ 2 ^ 32 - 1 ∉ m.positions := by
  obtain ⟨hlength, hbounds, hwrapped, hexact⟩ := m.coalesced
  have hcap : NEED_LIST_ENTRY_CAP = 124 := rfl
  have hsize : m.record.length = 3 + 8 * m.runs := by
    simp [Missing.record, encodeNeedList, encodeNeedEntry, Function.comp_def, hlength, Missing.runs]
    omega
  rw [← Missing.runs] at hlength
  constructor
  · rintro ⟨hshort, entries, hok, -⟩
    rw [hsize, MAX_CHUNK_SIZE] at hshort
    refine ⟨by omega, fun hmem => ?_⟩
    obtain ⟨rfl, hvalid⟩ := (decodeNeedList_encode (by omega) hbounds).mp hok
    obtain ⟨e, he, hstop⟩ := hwrapped hmem
    have := hvalid e he
    omega
  · rintro ⟨hruns, hlast⟩
    obtain ⟨hvalid, hcovers⟩ := hexact hlast
    exact ⟨by rw [hsize, MAX_CHUNK_SIZE]; omega, _, (decodeNeedList_encode (by omega) hbounds).mpr ⟨rfl, hvalid⟩,
      fun p => (hcovers p).mp, fun _ p => (hcovers p).mpr⟩

/-- Of 250 chunks every second one is missed: the list has 125 ranges, and is longer than a record may be. -/
theorem need_list_too_long : ∃ m : Missing, m.positions = (range 125).map (2 * ·) ∧ m.record.length = 1003 ∧
    ¬ m.Published :=
  ⟨⟨(range 125).map (2 * ·), by decide +kernel, by decide +kernel⟩, rfl, by decide +kernel,
    fun h => absurd h.short (by decide +kernel)⟩

end Peeroxide.DeadDrop
