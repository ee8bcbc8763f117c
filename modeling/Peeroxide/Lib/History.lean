import Mathlib.Data.List.Induction
import Mathlib.Data.List.Pairwise
import Mathlib.Order.Basic

/-!
# Histories of writes

A history is the list of the writes to the registers of a store, the newest last.

* `latest h k` : the value that was last written for the key `k`;
* `Rising v h` : the versions `v` of the values written for one key rise; `Rising.append` : one more write.
-/

namespace Peeroxide.Lib
open List
variable {κ α β : Type} [DecidableEq κ]

def latest (h : List (κ × α)) (k : κ) : Option α := h.foldl (fun old w => if w.1 = k then some w.2 else old) none

theorem latest_append (h : List (κ × α)) (w : κ × α) (k : κ) :
    latest (h ++ [w]) k = if w.1 = k then some w.2 else latest h k := by
  rw [latest, foldl_append]
  rfl

theorem mem_of_latest {h : List (κ × α)} {k : κ} {a : α} (hlatest : latest h k = some a) : (k, a) ∈ h := by
  induction h using List.reverseRecOn with
  | nil => cases hlatest
  | append_singleton h w ih =>
    rw [latest_append] at hlatest
    split at hlatest
    next hkey =>
      rw [← hkey, ← Option.some.inj hlatest]
      exact mem_append_right _ (mem_singleton_self _)
    · exact mem_append_left _ (ih hlatest)

def Rising [LT β] (v : α → β) (h : List (κ × α)) : Prop := h.Pairwise fun w w' => w.1 = w'.1 → v w.2 < v w'.2

variable [Preorder β] {v : α → β} {h : List (κ × α)} {k : κ} {a b : α}

theorem Rising.le_latest (hrising : Rising v h) (hmem : (k, a) ∈ h) : ∃ b, latest h k = some b ∧ v a ≤ v b := by
  induction h using List.reverseRecOn with
  | nil => cases hmem
  | append_singleton h w ih =>
    obtain ⟨hinit, -, hlast⟩ := pairwise_append.mp hrising
    rw [latest_append]
    obtain hold | hnew := mem_append.mp hmem
    · split
      next hkey =>
        exact ⟨w.2, rfl, (hlast _ hold _ (mem_singleton_self _) hkey.symm).le⟩
      · exact ih hinit hold
    · have hw : w = (k, a) := (mem_singleton.mp hnew).symm
      subst hw
      exact ⟨a, if_pos rfl, le_refl _⟩

theorem Rising.append (hrising : Rising v h) (habove : ∀ b ∈ latest h k, v b < v a) : Rising v (h ++ [(k, a)]) := by
  refine pairwise_append.mpr ⟨hrising, pairwise_singleton _ _, ?_⟩
  rintro ⟨k', b⟩ hmem w hw hkey
  rw [mem_singleton.mp hw] at hkey ⊢
  obtain rfl : k' = k := hkey
  obtain ⟨c, hlatest, hle⟩ := hrising.le_latest hmem
  exact lt_of_le_of_lt hle (habove c hlatest)

end Peeroxide.Lib
