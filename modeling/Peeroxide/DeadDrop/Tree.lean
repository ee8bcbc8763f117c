import Peeroxide.DeadDrop.Wire

/-!
# The shape of the index tree

The size of the file is all that the shape depends on. The layers of index chunks are counted from the data up: a chunk
of a layer has up to 31 slots, the root up to 30.
-/

namespace Peeroxide.DeadDrop
open Lib List

def dataChunkCount (fileSize : Nat) : Nat := if fileSize = 0 then 0 else divCeil fileSize DATA_PAYLOAD_MAX

def canonicalDepth.loop : Nat → Nat → Nat → Nat
  | 0, _, depth => depth
  | fuel + 1, layerCount, depth =>
    if layerCount > ROOT_INDEX_SLOT_CAP then
      canonicalDepth.loop fuel (divCeil layerCount NON_ROOT_INDEX_SLOT_CAP) (depth + 1)
    else depth

/-- Every turn of the loop has fewer chunks to hold, so that `n` turns are enough. -/
def canonicalDepth (n : Nat) : Nat :=
  if n = 0 ∨ n ≤ ROOT_INDEX_SLOT_CAP then 0
  else canonicalDepth.loop n (divCeil n NON_ROOT_INDEX_SLOT_CAP) 1

structure TreeLayout where
  dataChunkCount : Nat
  depth : Nat
  /-- From the leaves up. -/
  layerCounts : List Nat
  deriving DecidableEq

def layerCounts : Nat → Nat → List Nat
  | 0, _ => []
  | depth + 1, n => divCeil n NON_ROOT_INDEX_SLOT_CAP :: layerCounts depth (divCeil n NON_ROOT_INDEX_SLOT_CAP)

def computeLayout (fileSize : Nat) : TreeLayout :=
  let n := dataChunkCount fileSize
  let depth := canonicalDepth n
  ⟨n, depth, layerCounts depth n⟩

/-! ## Depth -/

theorem dataChunkCount_eq (fileSize : Nat) : dataChunkCount fileSize = divCeil fileSize DATA_PAYLOAD_MAX := by
  rw [dataChunkCount]
  split
  next hzero =>
    rw [hzero]
    rfl
  · rfl

def upCount (n k : Nat) : Nat := divCeil n (NON_ROOT_INDEX_SLOT_CAP ^ k)

theorem upCount_zero (n : Nat) : upCount n 0 = n := by rw [upCount, Nat.pow_zero, divCeil_one]

theorem upCount_succ (n k : Nat) : divCeil (upCount n k) NON_ROOT_INDEX_SLOT_CAP = upCount n (k + 1) := by
  rw [upCount, upCount, divCeil_divCeil (Nat.pow_pos (by decide)) (by decide), Nat.pow_succ]

theorem upCount_le_iff (n k c : Nat) : upCount n k ≤ c ↔ n ≤ c * NON_ROOT_INDEX_SLOT_CAP ^ k :=
  divCeil_le_iff (Nat.pow_pos (by decide)) c

theorem lt_upCount_iff (n k c : Nat) : c < upCount n k ↔ c * NON_ROOT_INDEX_SLOT_CAP ^ k < n :=
  lt_divCeil_iff (Nat.pow_pos (by decide)) c

theorem upCount_anti (n : Nat) {j k : Nat} (h : j ≤ k) : upCount n k ≤ upCount n j :=
  divCeil_anti (Nat.pow_pos (by decide)) (Nat.pow_le_pow_right (by decide) h)

theorem le_iff_upCount_le {n k : Nat} (hfits : upCount n k ≤ ROOT_INDEX_SLOT_CAP)
    (hbelow : ∀ j < k, ROOT_INDEX_SLOT_CAP < upCount n j) (d : Nat) : k ≤ d ↔ upCount n d ≤ ROOT_INDEX_SLOT_CAP := by
  constructor
  · exact fun h => (upCount_anti n h).trans hfits
  · intro h
    by_contra hlt
    exact Nat.not_lt.mpr h (hbelow d (Nat.lt_of_not_le hlt))

theorem canonicalDepth_loop (n : Nat) {fuel k : Nat} (hfuel : upCount n k ≤ fuel + 1)
    (hbelow : ∀ j < k, ROOT_INDEX_SLOT_CAP < upCount n j) (d : Nat) :
    canonicalDepth.loop fuel (upCount n k) k ≤ d ↔ upCount n d ≤ ROOT_INDEX_SLOT_CAP := by
  induction fuel generalizing k with
  | zero => exact le_iff_upCount_le (hfuel.trans (by decide)) hbelow d
  | succ fuel ih =>
    rw [canonicalDepth.loop]
    split
    next hmore =>
      have hless : upCount n (k + 1) ≤ fuel + 1 := by
        rw [← upCount_succ, divCeil_le_iff (by decide)]
        simp only [NON_ROOT_INDEX_SLOT_CAP, MAX_CHUNK_SIZE, NON_ROOT_INDEX_HEADER_SIZE, HASH_LEN]
        omega
      rw [upCount_succ]
      refine ih hless fun j hj => ?_
      rcases Nat.lt_succ_iff_lt_or_eq.mp hj with hj | rfl
      · exact hbelow j hj
      · exact hmore
    next hfits =>
      exact le_iff_upCount_le (Nat.le_of_not_lt hfits) hbelow d

/-- The depth is the least one at which the root has enough slots. -/
theorem canonicalDepth_le_iff (n d : Nat) :
    canonicalDepth n ≤ d ↔ n ≤ ROOT_INDEX_SLOT_CAP * NON_ROOT_INDEX_SLOT_CAP ^ d := by
  rw [← upCount_le_iff, canonicalDepth]
  split
  next hsmall =>
    have hfits : upCount n 0 ≤ ROOT_INDEX_SLOT_CAP := by
      rw [upCount_zero]
      exact hsmall.elim (fun hzero => hzero ▸ Nat.zero_le _) id
    exact iff_of_true (Nat.zero_le d) ((upCount_anti n (Nat.zero_le d)).trans hfits)
  next hlarge =>
    have hmore : ROOT_INDEX_SLOT_CAP < upCount n 0 := by
      rw [upCount_zero]
      exact Nat.lt_of_not_le (not_or.mp hlarge).2
    have hfirst : divCeil n NON_ROOT_INDEX_SLOT_CAP = upCount n 1 := by rw [upCount, Nat.pow_one]
    rw [hfirst]
    refine canonicalDepth_loop n ?_ (fun j hj => ?_) d
    · exact (upCount_anti n (Nat.zero_le 1)).trans ((upCount_zero n).le.trans (Nat.le_succ n))
    · rw [Nat.lt_one_iff.mp hj]
      exact hmore

theorem upCount_canonicalDepth_le (n : Nat) : upCount n (canonicalDepth n) ≤ ROOT_INDEX_SLOT_CAP :=
  (upCount_le_iff _ _ _).mpr ((canonicalDepth_le_iff n _).mp le_rfl)

theorem canonicalDepth_dataChunkCount_le {fileSize : Nat} (h : fileSize < 2 ^ 64) :
    canonicalDepth (dataChunkCount fileSize) ≤ 10 := by
  rw [canonicalDepth_le_iff, dataChunkCount_eq, divCeil_le_iff (by decide)]
  refine h.le.trans ?_
  decide

/-! ## Layers -/

theorem layerCounts_upCount (depth n k : Nat) :
    layerCounts depth (upCount n k) = (List.range depth).map fun j => upCount n (k + 1 + j) := by
  induction depth generalizing k with
  | zero => rfl
  | succ depth ih =>
    rw [layerCounts, upCount_succ, ih, range_succ_eq_map, map_cons, map_map]
    congr 1
    refine map_congr_left fun j _ => ?_
    congr 1
    omega

theorem layerCounts_eq (depth n : Nat) : layerCounts depth n = (List.range depth).map fun j => upCount n (j + 1) := by
  have h := layerCounts_upCount depth n 0
  rw [upCount_zero] at h
  rw [h]
  refine map_congr_left fun j _ => ?_
  congr 1
  omega

theorem layerCounts_isChain (depth n : Nat) :
    (n :: layerCounts depth n).IsChain fun below count => count = divCeil below NON_ROOT_INDEX_SLOT_CAP := by
  induction depth generalizing n with
  | zero => exact .singleton n
  | succ depth ih => exact .cons_cons rfl (ih _)

/-- The slots that the root has to have: those of the data, or of the last layer. -/
def expectedRootSlots (layout : TreeLayout) : Nat :=
  if layout.depth = 0 then layout.dataChunkCount else layout.layerCounts.getLastD 0

theorem expectedRootSlots_eq (fileSize : Nat) : expectedRootSlots (computeLayout fileSize) =
    upCount (dataChunkCount fileSize) (canonicalDepth (dataChunkCount fileSize)) := by
  rw [expectedRootSlots, computeLayout]
  cases hdepth : canonicalDepth (dataChunkCount fileSize) with
  | zero => rw [if_pos rfl, upCount_zero]
  | succ d =>
    rw [if_neg (Nat.succ_ne_zero d), layerCounts_eq, range_succ, map_append, map_singleton,
      getLastD_concat]

end Peeroxide.DeadDrop
