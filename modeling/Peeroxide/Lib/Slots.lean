import Mathlib.Data.List.Basic

/-!
# Numbered slots filled out of order

A sequence of slots is laid out block after block; each block belongs to one piece of data and is filled from its front,
possibly not to its end. What stands in the slots before the first empty one is then a prefix of the data.

* `Fills f slots data` : a block whose filled slots, read by `f`, are a prefix of `data`, and all of it when no slot is
  empty;
* `Fills.flatMap_prefix`, `Fills.flatMap_eq` : blocks put together;
* `Grows` : slots are only filled and appended (`grows_append`, `grows_set_flatMap`).
-/

namespace Peeroxide.Lib
open List
variable {α β ι : Type}

/-- A block of slots for `data`: filled from the front, completely when no slot is empty. -/
def Fills (f : α → List β) (slots : List (Option α)) (data : List β) : Prop :=
  ∃ (filled : List α) (missing : Nat), slots = filled.map some ++ List.replicate missing none ∧ filled.flatMap f <+: data ∧
    (missing = 0 → filled.flatMap f = data)

theorem map_some_injective {xs ys : List α} (h : xs.map some = ys.map some) : xs = ys :=
  map_injective_iff.mpr (fun _ _ => Option.some.inj) h

variable {i : Nat} {ss : List α} {data : ι → List β} {f : α → List β} {ws : List ι}
variable {slots : ι → List (Option α)}

theorem Fills.flatMap_prefix (h : ∀ w ∈ ws, Fills f (slots w) (data w))
    (hs : (ws.flatMap slots).take ss.length = ss.map some) : ss.flatMap f <+: ws.flatMap data := by
  induction ws generalizing ss with
  | nil =>
    have : ss = [] := by simpa using hs.symm
    simp [this]
  | cons w ws ih =>
    obtain ⟨filled, missing, hw, hpre, hfull⟩ := h w mem_cons_self
    rw [flatMap_cons] at hs ⊢
    rcases Nat.lt_or_ge filled.length ss.length with hlt | hge
    · have hm : missing = 0 := by
        by_contra hm
        have hget := congrArg (fun l => l[filled.length]?) hs
        simp only [hw, getElem?_take, getElem?_map] at hget
        rw [append_assoc, getElem?_append_right (by simp), length_map,
          getElem?_append_left (by simp; omega), getElem?_replicate,
          getElem?_eq_getElem hlt] at hget
        simp at hget
      subst hm
      rw [hw, replicate_zero, append_nil, take_append, length_map,
        take_of_length_le (by simp; omega)] at hs
      obtain ⟨front, back, rfl, hfront, hback⟩ := map_eq_append_iff.mp hs.symm
      have : front = filled := map_some_injective hfront
      subst this
      have hback' : (ws.flatMap slots).take back.length = back.map some := by
        rw [hback, length_append, Nat.add_sub_cancel_left]
      rw [flatMap_append, hfull rfl]
      exact (prefix_append_right_inj _).mpr (ih (fun w hw => h w (mem_cons_of_mem _ hw)) hback')
    · have hss : ss = filled.take ss.length := by
        refine map_some_injective ?_
        rw [← hs, hw, append_assoc, take_append_of_le_length (by simpa using hge), map_take]
      have hle : ss.flatMap f <+: filled.flatMap f := by
        rw [hss]
        exact ⟨(filled.drop ss.length).flatMap f, by rw [← flatMap_append, take_append_drop]⟩
      exact (hle.trans hpre).trans (prefix_append _ _)

theorem Fills.flatMap_eq (h : ∀ w ∈ ws, Fills f (slots w) (data w)) (hs : ws.flatMap slots = ss.map some) :
    ss.flatMap f = ws.flatMap data := by
  induction ws generalizing ss with
  | nil =>
    have : ss = [] := by simpa using hs.symm
    simp [this]
  | cons w ws ih =>
    obtain ⟨filled, missing, hw, -, hfull⟩ := h w mem_cons_self
    rw [flatMap_cons] at hs ⊢
    obtain ⟨front, back, rfl, hfront, hback⟩ := map_eq_append_iff.mp hs.symm
    have hm : missing = 0 := by
      by_contra hm
      have : none ∈ front.map some := by
        rw [hfront, hw]
        exact mem_append_right _ (mem_replicate.mpr ⟨hm, rfl⟩)
      simp at this
    subst hm
    rw [hw, replicate_zero, append_nil] at hfront
    rw [flatMap_append, map_some_injective hfront, hfull rfl,
      ih (fun w hw => h w (mem_cons_of_mem _ hw)) hback.symm]

/-! ## Filling slots over time -/

/-- What a slot holds it keeps. -/
def Grows (σ σ' : List (Option α)) : Prop := ∀ (q : Nat) (a : α), σ[q]? = some (some a) → σ'[q]? = some (some a)

theorem Grows.refl (σ : List (Option α)) : Grows σ σ := fun _ _ h => h

theorem grows_append (σ new : List (Option α)) : Grows σ (σ ++ new) := by
  intro q a h
  rw [getElem?_append_left (List.getElem?_eq_some_iff.mp h).1]
  exact h

theorem getElem?_flatMap_block {w : ι} (hi : ws[i]? = some w) {j : Nat} (hj : j < (slots w).length) :
    (ws.flatMap slots)[((ws.take i).flatMap slots).length + j]? = (slots w)[j]? := by
  obtain ⟨hlt, rfl⟩ := List.getElem?_eq_some_iff.mp hi
  have e : ws = ws.take i ++ ws[i] :: ws.drop (i + 1) := by simp
  have hf : ws.flatMap slots = (ws.take i).flatMap slots ++ (slots ws[i] ++ (ws.drop (i + 1)).flatMap slots) := by
    conv_lhs => rw [e]
    rw [flatMap_append, flatMap_cons]
  rw [hf, getElem?_append_right (by omega), Nat.add_sub_cancel_left, getElem?_append_left hj]

/-- Replacing a block of empty slots by one of the same length fills slots and leaves the others. -/
theorem grows_set_flatMap {w w' : ι} (hi : ws[i]? = some w) (hlen : (slots w').length = (slots w).length)
    (hgrow : Grows (slots w) (slots w')) : Grows (ws.flatMap slots) ((ws.set i w').flatMap slots) := by
  obtain ⟨hlt, rfl⟩ := List.getElem?_eq_some_iff.mp hi
  have hset : (ws.set i w').flatMap slots =
      (ws.take i).flatMap slots ++ (slots w' ++ (ws.drop (i + 1)).flatMap slots) := by
    rw [set_eq_take_append_cons_drop, if_pos hlt, flatMap_append, flatMap_cons]
  have hws : ws.flatMap slots =
      (ws.take i).flatMap slots ++ (slots ws[i] ++ (ws.drop (i + 1)).flatMap slots) := by
    conv_lhs => rw [show ws = ws.take i ++ ws[i] :: ws.drop (i + 1) by simp]
    rw [flatMap_append, flatMap_cons]
  intro q a h
  rw [hws] at h
  rw [hset]
  rcases Nat.lt_or_ge q ((ws.take i).flatMap slots).length with h₁ | h₁
  · rwa [getElem?_append_left h₁] at h ⊢
  · rw [getElem?_append_right h₁] at h ⊢
    rcases Nat.lt_or_ge (q - ((ws.take i).flatMap slots).length) (slots ws[i]).length with h₂ | h₂
    · rw [getElem?_append_left h₂] at h
      rw [getElem?_append_left (hlen ▸ h₂)]
      exact hgrow _ _ h
    · rw [getElem?_append_right h₂] at h
      rw [getElem?_append_right (hlen ▸ h₂), hlen]
      exact h

end Peeroxide.Lib
