import Mathlib.Data.List.Lex
import Mathlib.Order.Compare
import Mathlib.Order.Lattice

/-!
# Lists sorted by a key

Lists in strictly increasing order of a key, and the binary search that finds the place of a key in one.

* `SortedBy key xs` : the keys strictly increase;
* `binarySearchBy` : a position with the key, or the one where it belongs;
* `binarySearch_ok`, `binarySearch_error` : how a sorted list splits at the position that is found;
* `sortedBy_append_cons` : what a change at such a position does to the order.
-/

namespace Peeroxide.Lib
open List

/-- The keys strictly increase. -/
def SortedBy {α κ : Type} [LT κ] (key : α → κ) (xs : List α) : Prop := xs.Pairwise fun a b => key a < key b

section
variable {α : Type}

/-- Halve what is left while it has more than one element: an element that is not greater becomes the new base. -/
def bisect (xs : List α) (cmp : α → Ordering) : Nat → Nat → Nat → Nat
  | 0, base, _ => base
  | fuel + 1, base, size =>
    if size ≤ 1 then base
    else
      let mid := base + size / 2
      bisect xs cmp fuel (if xs[mid]?.map cmp = some .gt then base else mid) (size - size / 2)

/-- `.ok` with the position of a match, `.error` with the position where it belongs. -/
def binarySearchBy (xs : List α) (cmp : α → Ordering) : Except Nat Nat :=
  let base := bisect xs cmp xs.length 0 xs.length
  match xs[base]?.map cmp with
  | some .eq => .ok base
  | some .lt => .error (base + 1)
  | some .gt => .error base
  | none => .error 0

variable {κ : Type} [LinearOrder κ] {key : α → κ} {xs : List α}

theorem SortedBy.lt_of_lt (h : SortedBy key xs) {i j : Nat} {a b : α} (hij : i < j) (ha : xs[i]? = some a)
    (hb : xs[j]? = some b) : key a < key b := by
  obtain ⟨hi, rfl⟩ := List.getElem?_eq_some_iff.mp ha
  obtain ⟨hj, rfl⟩ := List.getElem?_eq_some_iff.mp hb
  exact pairwise_iff_getElem.mp h i j hi hj hij

/-- What the search has found out: everything behind what is left is greater, and the base, once it has moved, is not. -/
structure Bisected (key : α → κ) (xs : List α) (k : κ) (base size : Nat) : Prop where
  inside : base + size ≤ xs.length
  above : ∀ i x, base + size ≤ i → xs[i]? = some x → k < key x
  below : base = 0 ∨ ∃ x, xs[base]? = some x ∧ key x ≤ k

theorem bisect_spec (h : SortedBy key xs) (k : κ) {fuel base size : Nat} (hfuel : size ≤ fuel + 1) (hpos : 0 < size)
    (hb : Bisected key xs k base size) : Bisected key xs k (bisect xs (fun x => compare (key x) k) fuel base size) 1 := by
  induction fuel generalizing base size with
  | zero =>
    have hone : size = 1 := by omega
    subst hone
    exact hb
  | succ fuel ih =>
    unfold bisect
    split
    · have hone : size = 1 := by omega
      subst hone
      exact hb
    next hsize =>
      have hinside := hb.inside
      have hmid : base + size / 2 < xs.length := by omega
      have hget : xs[base + size / 2]? = some xs[base + size / 2] := getElem?_eq_getElem hmid
      simp only [hget, Option.map_some, Option.some.injEq]
      refine ih (by omega) (by omega) ?_
      split
      next hgt =>
        have hlt : k < key xs[base + size / 2] := compare_gt_iff_gt.mp hgt
        refine ⟨by omega, fun i x hi hx => ?_, hb.below⟩
        by_cases hcut : i = base + size / 2
        · subst hcut
          rw [hget, Option.some.injEq] at hx
          rwa [← hx]
        · exact lt_trans hlt (h.lt_of_lt (by omega) hget hx)
      next hngt =>
        have hle : key xs[base + size / 2] ≤ k := by
          rcases lt_or_ge k (key xs[base + size / 2]) with hlt | hle
          · exact absurd (compare_gt_iff_gt.mpr hlt) hngt
          · exact hle
        exact ⟨by omega, fun i x hi hx => hb.above i x (by omega) hx, .inr ⟨_, hget, hle⟩⟩

theorem bisected_all (h : SortedBy key xs) (k : κ) (hne : xs ≠ []) :
    Bisected key xs k (bisect xs (fun x => compare (key x) k) xs.length 0 xs.length) 1 := by
  refine bisect_spec h k (by omega) (length_pos_of_ne_nil hne) ⟨by omega, fun i x hi hx => ?_, .inl rfl⟩
  rw [getElem?_eq_none (by omega)] at hx
  cases hx

theorem split_at {base : Nat} {x : α} (hx : xs[base]? = some x) :
    xs = xs.take base ++ x :: xs.drop (base + 1) ∧ (xs.take base).length = base := by
  obtain ⟨hlt, rfl⟩ := List.getElem?_eq_some_iff.mp hx
  refine ⟨?_, by rw [length_take]; omega⟩
  rw [← drop_eq_getElem_cons hlt, take_append_drop]

theorem mem_take {i : Nat} {x : α} (h : x ∈ xs.take i) : ∃ j < i, xs[j]? = some x := by
  obtain ⟨j, hj⟩ := mem_iff_getElem?.mp h
  rw [getElem?_take] at hj
  split at hj
  · exact ⟨j, ‹_›, hj⟩
  · cases hj

theorem mem_drop {i : Nat} {x : α} (h : x ∈ xs.drop i) : ∃ j, i ≤ j ∧ xs[j]? = some x := by
  obtain ⟨j, hj⟩ := mem_iff_getElem?.mp h
  rw [getElem?_drop] at hj
  exact ⟨i + j, by omega, hj⟩

/-- A match: the list around it. -/
theorem binarySearch_ok {k : κ} {pos : Nat} (hs : binarySearchBy xs (fun x => compare (key x) k) = .ok pos) :
    ∃ l x r, xs = l ++ x :: r ∧ l.length = pos ∧ key x = k := by
  unfold binarySearchBy at hs
  simp only at hs
  generalize bisect xs (fun x => compare (key x) k) xs.length 0 xs.length = base at hs
  cases hx : xs[base]? with
  | none =>
    rw [hx] at hs
    cases hs
  | some x =>
    rw [hx] at hs
    split at hs
    next heq =>
      cases hs
      obtain ⟨hsplit, hlen⟩ := split_at hx
      exact ⟨_, x, _, hsplit, hlen, compare_eq_iff_eq.mp (Option.some.inj heq)⟩
    all_goals cases hs

/-- No match: everything in front of the position has a smaller key, everything behind it a greater one. -/
theorem binarySearch_error (h : SortedBy key xs) {k : κ} {pos : Nat}
    (hs : binarySearchBy xs (fun x => compare (key x) k) = .error pos) :
    ∃ l r, xs = l ++ r ∧ l.length = pos ∧ (∀ x ∈ l, key x < k) ∧ ∀ x ∈ r, k < key x := by
  by_cases hne : xs = []
  · subst hne
    cases hs
    exact ⟨[], [], rfl, rfl, by simp, by simp⟩
  have hb := bisected_all h k hne
  unfold binarySearchBy at hs
  simp only at hs
  generalize bisect xs (fun x => compare (key x) k) xs.length 0 xs.length = base at hs hb
  have hinside := hb.inside
  have hlt : base < xs.length := by omega
  have hx : xs[base]? = some xs[base] := getElem?_eq_getElem hlt
  rw [hx] at hs
  split at hs
  · cases hs
  next hcmp =>
    have hbase : key xs[base] < k := compare_lt_iff_lt.mp (Option.some.inj hcmp)
    cases hs
    refine ⟨xs.take (base + 1), xs.drop (base + 1), (take_append_drop _ _).symm,
      by rw [length_take]; omega, fun x hm => ?_, fun x hm => ?_⟩
    · obtain ⟨j, hj, hjx⟩ := mem_take hm
      by_cases hcut : j = base
      · subst hcut
        rw [hx, Option.some.injEq] at hjx
        rwa [← hjx]
      · exact lt_trans (h.lt_of_lt (by omega) hjx hx) hbase
    · obtain ⟨j, hj, hjx⟩ := mem_drop hm
      exact hb.above j x hj hjx
  next hcmp =>
    have hbase : k < key xs[base] := compare_gt_iff_gt.mp (Option.some.inj hcmp)
    cases hs
    -- the base has not moved, since it would not be greater if it had
    have hzero : pos = 0 := by
      rcases hb.below with hz | ⟨x, hxb, hle⟩
      · exact hz
      · rw [hx, Option.some.injEq] at hxb
        subst hxb
        exact absurd hbase (not_lt.mpr hle)
    subst hzero
    refine ⟨[], xs, rfl, rfl, by simp, fun x hm => ?_⟩
    obtain ⟨j, hj⟩ := mem_iff_getElem?.mp hm
    by_cases hcut : j = 0
    · subst hcut
      rw [hx, Option.some.injEq] at hj
      rwa [← hj]
    · exact lt_trans hbase (h.lt_of_lt (by omega) hx hj)
  next hcmp =>
    cases hcmp

/-! ## Changes at a position -/

variable {l r : List α} {x : α}

theorem modify_length (f : α → α) : (l ++ x :: r).modify l.length f = l ++ f x :: r := by
  induction l with
  | nil => rfl
  | cons a l ih => rw [cons_append, length_cons, modify_succ_cons, ih, cons_append]

theorem insertIdx_length : (l ++ r).insertIdx l.length x = l ++ x :: r := by
  induction l with
  | nil => rfl
  | cons a l ih => rw [cons_append, length_cons, insertIdx_succ_cons, ih, cons_append]

theorem sortedBy_append_cons : SortedBy key (l ++ x :: r) ↔
    SortedBy key (l ++ r) ∧ (∀ a ∈ l, key a < key x) ∧ ∀ b ∈ r, key x < key b := by
  unfold SortedBy
  rw [pairwise_append, pairwise_append, pairwise_cons]
  constructor
  · rintro ⟨hl, ⟨hx, hr⟩, hlr⟩
    exact ⟨⟨hl, hr, fun a ha b hb => hlr a ha b (mem_cons_of_mem x hb)⟩,
      fun a ha => hlr a ha x mem_cons_self, hx⟩
  · rintro ⟨⟨hl, hr, hlr⟩, hlx, hxr⟩
    refine ⟨hl, ⟨hxr, hr⟩, fun a ha b hb => ?_⟩
    rcases mem_cons.mp hb with rfl | hb
    · exact hlx a ha
    · exact hlr a ha b hb

end
end Peeroxide.Lib
