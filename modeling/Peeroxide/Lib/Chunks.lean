import Mathlib.Data.List.Basic
import Mathlib.Tactic.Ring
import Mathlib.Algebra.Order.Ring.Nat

/-!
# Cutting a list into pieces of a fixed size

* `divCeil` : division rounding up (`divCeil_le_iff`, `divCeil_divCeil`);
* `chunksOf m xs` : the pieces of `m` elements, the last one shorter (`length_chunksOf`, `flatten_chunksOf`,
  `chunksOf_flatten`).
-/

namespace Peeroxide.Lib
open List
variable {m n : Nat}

def divCeil (n m : Nat) : Nat := (n + m - 1) / m

theorem divCeil_pos (hn : 0 < n) (hm : 0 < m) : 0 < divCeil n m :=
  Nat.div_pos (by omega) hm

theorem le_divCeil_mul (hm : 0 < m) : n ≤ divCeil n m * m := by
  have h := Nat.div_add_mod (n + m - 1) m
  have hlt := Nat.mod_lt (n + m - 1) hm
  rw [Nat.mul_comm] at h
  unfold divCeil
  omega

theorem divCeil_le_iff (hm : 0 < m) (c : Nat) : divCeil n m ≤ c ↔ n ≤ c * m := by
  rw [divCeil, ← Nat.lt_succ_iff, Nat.div_lt_iff_lt_mul hm, Nat.succ_mul]
  omega

theorem lt_divCeil_iff (hm : 0 < m) (c : Nat) : c < divCeil n m ↔ c * m < n := by
  rw [← Nat.not_le, divCeil_le_iff hm, Nat.not_le]

theorem divCeil_anti {m' : Nat} (hm : 0 < m) (h : m ≤ m') : divCeil n m' ≤ divCeil n m :=
  (divCeil_le_iff (hm.trans_le h) _).mpr ((le_divCeil_mul hm).trans (Nat.mul_le_mul_left _ h))

theorem divCeil_one (n : Nat) : divCeil n 1 = n := by rw [divCeil, Nat.div_one, Nat.add_sub_cancel]

theorem divCeil_divCeil {a b : Nat} (ha : 0 < a) (hb : 0 < b) (n : Nat) :
    divCeil (divCeil n a) b = divCeil n (a * b) := by
  refine eq_of_forall_ge_iff fun c => ?_
  rw [divCeil_le_iff hb, divCeil_le_iff ha, divCeil_le_iff (Nat.mul_pos ha hb)]
  rw [Nat.mul_assoc, Nat.mul_comm b a]

theorem divCeil_add_self (hm : 0 < m) : divCeil (m + n) m = divCeil n m + 1 := by
  rw [divCeil, divCeil, show m + n + m - 1 = n + m - 1 + m by omega, Nat.add_div_right _ hm]

variable {α : Type}

def chunksOf (m : Nat) (xs : List α) : List (List α) :=
  (List.range (divCeil xs.length m)).map (fun i => (xs.drop (i * m)).take m)

@[simp] theorem length_chunksOf (m : Nat) (xs : List α) : (chunksOf m xs).length = divCeil xs.length m := by
  simp [chunksOf]

theorem flatten_pieces (m : Nat) : ∀ (n : Nat) (xs : List α), xs.length ≤ n * m →
    ((List.range n).map (fun i => (xs.drop (i * m)).take m)).flatten = xs
  | 0, xs, h => by
    have : xs = [] := length_eq_zero_iff.mp (by omega)
    simp [this]
  | n + 1, xs, h => by
    have ih := flatten_pieces m n (xs.drop m) (by rw [length_drop, Nat.add_mul] at *; omega)
    rw [range_succ_eq_map, map_cons, flatten_cons, map_map]
    have e : ((fun i => (xs.drop (i * m)).take m) ∘ Nat.succ) = fun i => ((xs.drop m).drop (i * m)).take m := by
      funext i
      rw [Function.comp_apply, drop_drop, Nat.succ_mul, Nat.add_comm]
    rw [e, ih]
    simp

theorem flatten_chunksOf (hm : 0 < m) (xs : List α) : (chunksOf m xs).flatten = xs :=
  flatten_pieces m _ xs (le_divCeil_mul hm)

theorem getElem?_chunksOf {xs : List α} {i : Nat} (h : i < divCeil xs.length m) :
    (chunksOf m xs)[i]? = some ((xs.drop (i * m)).take m) := by
  rw [chunksOf, getElem?_map, getElem?_range h, Option.map_some]

theorem chunksOf_append (hm : 0 < m) {x : List α} (hx : x.length = m) (xs : List α) :
    chunksOf m (x ++ xs) = x :: chunksOf m xs := by
  rw [chunksOf, length_append, hx, divCeil_add_self hm, range_succ_eq_map, map_cons, map_map]
  congr 1
  · rw [Nat.zero_mul, drop_zero, ← hx, take_left]
  · refine map_congr_left fun i _ => ?_
    rw [Function.comp_apply, Nat.succ_mul, Nat.add_comm, ← drop_drop, ← hx, drop_left]

/-- Pieces of the right size, put together, are cut where they were. -/
theorem chunksOf_flatten (hm : 0 < m) {xss : List (List α)} (h : ∀ x ∈ xss, x.length = m) :
    chunksOf m xss.flatten = xss := by
  induction xss with
  | nil =>
    have hzero : divCeil 0 m = 0 := Nat.le_zero.mp ((divCeil_le_iff hm 0).mpr (Nat.zero_le _))
    rw [flatten_nil, chunksOf, length_nil, hzero]
    rfl
  | cons x xss ih =>
    rw [flatten_cons, chunksOf_append hm (h x mem_cons_self), ih fun y hy => h y (mem_cons_of_mem _ hy)]

end Peeroxide.Lib
