import Mathlib.Data.List.Basic
import Mathlib.Data.List.Perm.Basic

/-!
# Removal by swapping

An element is taken out of a list by putting the last one in its place, so that nothing else moves.

* `swapRemove`, `perm_swapRemove` : what is left.
-/

namespace Peeroxide.Lib
open List
variable {α : Type}

/-- Take out the element at a position, and put the last one there. -/
def swapRemove (xs : List α) (i : Nat) : List α :=
  match xs.getLast? with
  | some last => (xs.set i last).dropLast
  | none => []

theorem swapRemove_append_cons (l : List α) (x last : α) (r : List α) :
    swapRemove (l ++ x :: (r ++ [last])) l.length = l ++ last :: r := by
  have hlast : (l ++ x :: (r ++ [last])).getLast? = some last := by
    rw [← cons_append, ← append_assoc, getLast?_concat]
  rw [swapRemove, hlast]
  dsimp only
  rw [set_append_right _ _ (Nat.le_refl _), Nat.sub_self, set_cons_zero, ← cons_append,
    ← append_assoc, dropLast_concat]

theorem swapRemove_concat (l : List α) (x : α) : swapRemove (l ++ [x]) l.length = l := by
  rw [swapRemove, getLast?_concat]
  dsimp only
  rw [set_append_right _ _ (Nat.le_refl _), Nat.sub_self, set_cons_zero, dropLast_concat]

theorem swapRemove_cases {xs : List α} {i : Nat} {x : α} (h : xs[i]? = some x) :
    (∃ l, l.length = i ∧ xs = l ++ [x] ∧ swapRemove xs i = l) ∨
    ∃ l r last, l.length = i ∧ xs = l ++ x :: (r ++ [last]) ∧ swapRemove xs i = l ++ last :: r := by
  obtain ⟨hi, rfl⟩ := List.getElem?_eq_some_iff.mp h
  have hlen : (xs.take i).length = i := by
    rw [length_take]
    omega
  have hsplit : xs = xs.take i ++ xs[i] :: xs.drop (i + 1) := by
    rw [← drop_eq_getElem_cons hi, take_append_drop]
  rcases eq_nil_or_concat (xs.drop (i + 1)) with hr | ⟨r, last, hr⟩
  · left
    rw [hr] at hsplit
    refine ⟨xs.take i, hlen, hsplit, ?_⟩
    have hrem := swapRemove_concat (xs.take i) xs[i]
    rwa [← hsplit, hlen] at hrem
  · right
    rw [hr, concat_eq_append] at hsplit
    refine ⟨xs.take i, r, last, hlen, hsplit, ?_⟩
    have hrem := swapRemove_append_cons (xs.take i) xs[i] last r
    rwa [← hsplit, hlen] at hrem

theorem perm_swapRemove {xs : List α} {i : Nat} {x : α} (h : xs[i]? = some x) : xs.Perm (x :: swapRemove xs i) := by
  rcases swapRemove_cases h with ⟨l, -, hxs, hrem⟩ | ⟨l, r, last, -, hxs, hrem⟩
  · rw [hrem, hxs]
    exact perm_append_singleton x l
  · rw [hrem, hxs]
    have hlast : (l ++ (r ++ [last])).Perm (l ++ last :: r) :=
      List.Perm.append_left l (perm_append_singleton last r)
    exact perm_middle.trans (hlast.cons x)

end Peeroxide.Lib
