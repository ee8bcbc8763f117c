import Mathlib.Algebra.BigOperators.Group.List.Basic
import Mathlib.Algebra.Order.BigOperators.Group.List
import Mathlib.Algebra.Ring.Nat
import Mathlib.Data.List.AList
import Mathlib.Data.List.MinMax

/-!
# Association lists

* `lookup_insert_some`, `lookup_erase_some` : what is found after a change was there or is new;
* `perm_erase`, `length_erase` : the entries before an erasure are the erased one and those after it;
* `countP_insert_of_notMem`, `countP_insert_of_some`, `countP_insert_le`, `countP_erase` : how many entries meet a
  condition;
* `retainMap` : the entries that are kept, each with a new value; `lookup_retainMap`, `length_retainMap`,
  `countP_retainMap`;
* `modify` : the value of a key is changed, if it has one;
* `total` : the sum of a measure over the values; `total_insert`, `total_erase`;
* `pickLeast` : one of the elements with the least measure, when the order of a table is not known.
-/

namespace Peeroxide.Lib.Assoc
open List AList Option
variable {α : Type} {β : α → Type} [DecidableEq α] {s : AList β} {a : α} {b : β a}

theorem mem_of_lookup (h : s.lookup a = some b) : a ∈ s := lookup_isSome.mp (by rw [h]; rfl)

theorem lookup_of_mem (h : a ∈ s) : ∃ b, s.lookup a = some b := isSome_iff_exists.mp (lookup_isSome.mpr h)

theorem perm_erase (h : s.lookup a = some b) : s.entries.Perm (⟨a, b⟩ :: (s.erase a).entries) := by
  have hkey : a ∈ s.entries.keys := AList.mem_keys.mp (mem_of_lookup h)
  obtain ⟨b', l₁, l₂, hl₁, hsplit, herase⟩ := exists_of_kerase hkey
  have hb : b' = b := by
    have hmem : ⟨a, b'⟩ ∈ s.entries := by
      rw [hsplit]
      simp
    have hlookup : s.lookup a = some b' := mem_lookup_iff.mpr hmem
    exact Option.some.inj (hlookup.symm.trans h)
  subst hb
  show s.entries.Perm (⟨a, b'⟩ :: s.entries.kerase a)
  rw [herase, hsplit]
  exact perm_middle

theorem length_erase (h : s.lookup a = some b) : s.entries.length = (s.erase a).entries.length + 1 := by
  rw [(perm_erase h).length_eq, length_cons]

omit [DecidableEq α] in
theorem length_eq_of_mem_iff {s' : AList β} (h : ∀ a, a ∈ s' ↔ a ∈ s) : s'.entries.length = s.entries.length := by
  have hperm : s'.keys.Perm s.keys := (perm_ext_iff_of_nodup s'.keys_nodup s.keys_nodup).mpr h
  simpa [AList.keys, List.keys] using hperm.length_eq

variable (p : Sigma β → Bool)

theorem countP_erase (h : s.lookup a = some b) :
    s.entries.countP p = (s.erase a).entries.countP p + if p ⟨a, b⟩ then 1 else 0 := by
  rw [(perm_erase h).countP_eq, countP_cons]

theorem countP_insert_of_notMem (h : a ∉ s) :
    (s.insert a b).entries.countP p = s.entries.countP p + if p ⟨a, b⟩ then 1 else 0 := by
  rw [entries_insert_of_notMem h, countP_cons]

theorem countP_insert_of_some {c : β a} (h : s.lookup a = some b) :
    (s.insert a c).entries.countP p + (if p ⟨a, b⟩ then 1 else 0) =
      s.entries.countP p + if p ⟨a, c⟩ then 1 else 0 := by
  have herase : (s.insert a c).entries.countP p = (s.erase a).entries.countP p + if p ⟨a, c⟩ then 1 else 0 := by
    rw [entries_insert, countP_cons]
    rfl
  rw [countP_erase p h]
  omega

theorem countP_insert_le : (s.insert a b).entries.countP p ≤ s.entries.countP p + if p ⟨a, b⟩ then 1 else 0 := by
  rw [entries_insert, countP_cons]
  exact Nat.add_le_add_right ((kerase_sublist a s.entries).countP_le) _

@[grind =] theorem lookup_insert_eq_ite {γ : Type} (s : AList fun _ : α => γ) (a a' : α) (c : γ) :
    (s.insert a c).lookup a' = if a' = a then some c else s.lookup a' := by
  split_ifs with ha
  · rw [ha, lookup_insert]
  · exact lookup_insert_ne ha

@[grind =] theorem lookup_erase_eq_ite {γ : Type} (s : AList fun _ : α => γ) (a a' : α) :
    (s.erase a).lookup a' = if a' = a then none else s.lookup a' := by
  split_ifs with ha
  · rw [ha, lookup_erase]
  · exact lookup_erase_ne ha

section
variable {γ : Type} {s : AList fun _ : α => γ}

@[grind =] theorem mem_iff_isSome {a : α} : a ∈ s ↔ (s.lookup a).isSome = true :=
  lookup_isSome.symm

theorem lookup_insert_some {a a' : α} {c c' : γ}
    (h : (s.insert a c).lookup a' = some c') : (a' = a ∧ c' = c) ∨ s.lookup a' = some c' := by
  by_cases ha : a' = a
  · subst ha
    rw [lookup_insert] at h
    exact .inl ⟨rfl, (Option.some.inj h).symm⟩
  · rw [lookup_insert_ne ha] at h
    exact .inr h

theorem lookup_erase_some {a a' : α} {c : γ}
    (h : (s.erase a).lookup a' = some c) : a' ≠ a ∧ s.lookup a' = some c := by
  have ha : a' ≠ a := by
    rintro rfl
    rw [lookup_erase] at h
    cases h
  rw [lookup_erase_ne ha] at h
  exact ⟨ha, h⟩

end

/-! ## Entries that are kept -/

section
variable {γ : Type} (f : α → γ → Option γ)

/-- The entry with its new value, if it is kept. -/
def keepEntry (e : Sigma fun _ : α => γ) : Option (Sigma fun _ : α => γ) := (f e.1 e.2).map (Sigma.mk e.1)

omit [DecidableEq α] in
theorem nodupKeys_keepEntry {es : List (Sigma fun _ : α => γ)} (h : es.NodupKeys) :
    (es.filterMap (keepEntry f)).NodupKeys := by
  have hsub : (es.filterMap (keepEntry f)).keys.Sublist es.keys := by
    clear h
    induction es with
    | nil => exact .slnil
    | cons e es ih =>
      rw [filterMap_cons]
      cases hf : f e.1 e.2 with
      | none =>
        rw [keepEntry, hf]
        exact ih.cons _
      | some c =>
        rw [keepEntry, hf]
        exact ih.cons_cons _
  exact List.Nodup.sublist hsub h

def retainMap (s : AList fun _ : α => γ) : AList fun _ : α => γ :=
  ⟨s.entries.filterMap (keepEntry f), nodupKeys_keepEntry f s.nodupKeys⟩

variable {f} {s : AList fun _ : α => γ}

theorem lookup_retainMap (a : α) : (retainMap f s).lookup a = (s.lookup a).bind (f a) := by
  ext c
  rw [← mem_def, mem_lookup_iff, ← mem_def, mem_bind_iff]
  show _ ∈ s.entries.filterMap (keepEntry f) ↔ _
  rw [mem_filterMap]
  constructor
  · rintro ⟨⟨a', c'⟩, hmem, hkeep⟩
    obtain ⟨c₁, hc₁, heq⟩ := map_eq_some_iff.mp hkeep
    cases heq
    exact ⟨c', mem_lookup_iff.mpr hmem, hc₁⟩
  · rintro ⟨c', hlookup, hf⟩
    refine ⟨⟨a, c'⟩, mem_lookup_iff.mp hlookup, ?_⟩
    rw [keepEntry, show f a c' = some c from hf]
    rfl

omit [DecidableEq α] in
theorem length_retainMap :
    (retainMap f s).entries.length + s.entries.countP (fun e => (f e.1 e.2).isNone) = s.entries.length := by
  show (s.entries.filterMap (keepEntry f)).length + _ = _
  induction s.entries with
  | nil => rfl
  | cons e es ih =>
    rw [filterMap_cons, countP_cons]
    cases hf : f e.1 e.2 with
    | none =>
      rw [keepEntry, hf]
      simp only [map_none, isNone_none, if_true, length_cons]
      omega
    | some c =>
      rw [keepEntry, hf]
      simp only [map_some, isNone_some, Bool.false_eq_true, if_false, length_cons]
      omega

/-- Where entries are dropped or keep their value, those that meet a condition are kept or dropped. -/
theorem countP_retainMap (p : (Sigma fun _ : α => γ) → Bool)
    (hf : ∀ a c c', s.lookup a = some c → f a c = some c' → c' = c) :
    (retainMap f s).entries.countP p + s.entries.countP (fun e => p e && (f e.1 e.2).isNone) = s.entries.countP p := by
  have hmem : ∀ e ∈ s.entries, ∀ c', f e.1 e.2 = some c' → c' = e.2 := fun e he c' =>
    hf e.1 e.2 c' (mem_lookup_iff.mpr he)
  show (s.entries.filterMap (keepEntry f)).countP p + _ = _
  generalize s.entries = es at hmem ⊢
  induction es with
  | nil => rfl
  | cons e es ih =>
    obtain ⟨a, c⟩ := e
    have hrest := ih fun e' he' => hmem e' (mem_cons_of_mem _ he')
    rw [filterMap_cons, countP_cons, countP_cons]
    cases hf : f a c with
    | none =>
      rw [keepEntry, hf]
      simp only [map_none, isNone_none, Bool.and_true]
      omega
    | some c' =>
      rw [keepEntry, hf, hmem ⟨a, c⟩ mem_cons_self c' hf]
      simp only [map_some, isNone_some, Bool.and_false, Bool.false_eq_true, if_false, countP_cons]
      omega

theorem countP_retainMap_of_kept {p : (Sigma fun _ : α => γ) → Bool}
    (hf : ∀ a c c', s.lookup a = some c → f a c = some c' → c' = c)
    (hkept : ∀ a c, s.lookup a = some c → p ⟨a, c⟩ = true → f a c ≠ none) :
    (retainMap f s).entries.countP p = s.entries.countP p := by
  have hcount := countP_retainMap p hf
  have hzero : s.entries.countP (fun e => p e && (f e.1 e.2).isNone) = 0 := by
    rw [countP_eq_zero]
    rintro ⟨a, c⟩ he h
    rw [Bool.and_eq_true, isNone_iff_eq_none] at h
    exact hkept a c (mem_lookup_iff.mpr he) h.1 h.2
  omega

end

/-! ## One value changed -/

section
variable {γ : Type}

def modify (s : AList fun _ : α => γ) (a : α) (f : γ → γ) : AList fun _ : α => γ :=
  match s.lookup a with
  | none => s
  | some c => s.insert a (f c)

theorem lookup_modify (s : AList fun _ : α => γ) (a : α) (f : γ → γ) (a' : α) :
    (modify s a f).lookup a' = if a' = a then (s.lookup a').map f else s.lookup a' := by
  unfold modify
  by_cases ha : a' = a
  · subst ha
    rw [if_pos rfl]
    cases h : s.lookup a' with
    | none => exact h
    | some c => exact lookup_insert _
  · rw [if_neg ha]
    cases h : s.lookup a with
    | none => rfl
    | some c => exact lookup_insert_ne ha

end

/-! ## Sums -/

section
variable {γ : Type} (f : γ → Nat)

def total (s : AList fun _ : α => γ) : Nat := (s.entries.map fun e => f e.2).sum

variable {s : AList fun _ : α => γ} {a : α} {c : γ}

theorem total_erase (h : s.lookup a = some c) : total f s = total f (s.erase a) + f c := by
  rw [total, ((perm_erase h).map _).sum_eq, map_cons, Nat.add_comm]
  rfl

theorem total_insert : total f (s.insert a c) = total f (s.erase a) + f c := by
  rw [total, entries_insert, map_cons, Nat.add_comm]
  rfl

theorem total_insert_of_some {d : γ} (h : s.lookup a = some c) : total f (s.insert a d) + f c = total f s + f d := by
  rw [total_insert, total_erase f h]
  omega

theorem total_insert_of_none (h : s.lookup a = none) : total f (s.insert a c) = total f s + f c := by
  have herase : (s.erase a).entries = s.entries := kerase_of_notMem_keys (lookup_eq_none.mp h)
  rw [total_insert, total, herase, total]

theorem length_le_total (h : ∀ a c, s.lookup a = some c → 1 ≤ f c) : s.entries.length ≤ total f s := by
  rw [← length_map (fun e => f e.2)]
  refine length_le_sum_of_one_le _ fun n hn => ?_
  obtain ⟨⟨a, c⟩, he, rfl⟩ := List.mem_map.mp hn
  exact h a c (mem_lookup_iff.mpr he)

theorem exists_of_total_pos (h : 0 < total f s) : ∃ a c, s.lookup a = some c ∧ 0 < f c := by
  obtain ⟨n, hn, hpos⟩ := exists_mem_ne_zero_of_sum_ne_zero (Nat.ne_of_gt h)
  obtain ⟨⟨a, c⟩, he, rfl⟩ := List.mem_map.mp hn
  exact ⟨a, c, mem_lookup_iff.mpr he, Nat.pos_of_ne_zero hpos⟩

end

/-! ## The least element -/

section
variable {γ : Type} (f : γ → Nat)

/-- One of the elements with the least measure; `tie` chooses among several. -/
def pickLeast (xs : List γ) (tie : Nat) : Option γ :=
  let least := xs.filter fun x => xs.all fun y => f x ≤ f y
  least[tie % least.length]?

variable {f} {xs : List γ} {tie : Nat}

theorem pickLeast_mem {x : γ} (h : pickLeast f xs tie = some x) : x ∈ xs ∧ ∀ y ∈ xs, f x ≤ f y := by
  have hmem := mem_of_getElem? h
  rw [mem_filter, List.all_eq_true] at hmem
  exact ⟨hmem.1, fun y hy => of_decide_eq_true (hmem.2 y hy)⟩

theorem exists_pickLeast (f : γ → Nat) (tie : Nat) (h : xs ≠ []) : ∃ x, pickLeast f xs tie = some x := by
  obtain ⟨x, hx⟩ := ne_none_iff_exists'.mp fun hnone => h (argmin_eq_none (f := f).mp hnone)
  have hleast : x ∈ xs.filter fun x => xs.all fun y => f x ≤ f y := by
    rw [mem_filter, List.all_eq_true]
    exact ⟨argmin_mem hx, fun y hy => decide_eq_true (le_of_mem_argmin hy hx)⟩
  have hpos := length_pos_of_mem hleast
  exact ⟨_, getElem?_eq_getElem (Nat.mod_lt tie hpos)⟩

theorem exists_tie_pickLeast {x : γ} (hx : x ∈ xs) (hleast : ∀ y ∈ xs, f x ≤ f y) :
    ∃ tie, pickLeast f xs tie = some x := by
  have hmem : x ∈ xs.filter fun x => xs.all fun y => f x ≤ f y := by
    rw [mem_filter, List.all_eq_true]
    exact ⟨hx, fun y hy => decide_eq_true (hleast y hy)⟩
  obtain ⟨i, hi, hget⟩ := mem_iff_getElem.mp hmem
  refine ⟨i, ?_⟩
  rw [pickLeast, Nat.mod_eq_of_lt hi, getElem?_eq_getElem hi, hget]

end
end Peeroxide.Lib.Assoc
