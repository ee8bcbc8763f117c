import Mathlib.Data.List.Sort
import Mathlib.Order.Basic

/-!
# Ordered finite maps

A map is its list of entries in strictly increasing key order, so iteration order is part of the value and the
order proof travels with it.

* `OrdMap κ α` : the entries and the proof that their keys increase;
* `insert`, `remove`, `orInsert`, `filter`, `mapVal` : the operations, each described by membership (`mem_insert`,
  `mem_filter`, `mem_mapVal`, ...);
* `get?_eq_some` : lookup is membership;
* `lastKey?` : the greatest key (`le_lastKey`).
-/

namespace Peeroxide.Lib

/-- A finite map as its entries in strictly increasing key order. -/
structure OrdMap (κ α : Type) [LinearOrder κ] where
  entries : List (κ × α)
  sorted : entries.Pairwise (fun a b => a.1 < b.1)

namespace OrdMap
variable {κ α : Type} [LinearOrder κ]

instance : Membership (κ × α) (OrdMap κ α) := ⟨fun m e => e ∈ m.entries⟩

variable {f : κ × α → α} {v : α} {k : κ} {e : κ × α} {m : OrdMap κ α}

theorem mem_def : e ∈ m ↔ e ∈ m.entries := Iff.rfl

def empty : OrdMap κ α := ⟨[], List.Pairwise.nil⟩

instance : Inhabited (OrdMap κ α) := ⟨empty⟩

def isEmpty (m : OrdMap κ α) : Bool := m.entries.isEmpty

def size (m : OrdMap κ α) : Nat := m.entries.length

def keys (m : OrdMap κ α) : List κ := m.entries.map Prod.fst

def get? (m : OrdMap κ α) (k : κ) : Option α := (m.entries.find? (fun e => e.1 = k)).map Prod.snd

def filter (m : OrdMap κ α) (p : κ × α → Bool) : OrdMap κ α :=
  ⟨m.entries.filter p, m.sorted.sublist List.filter_sublist⟩

def remove (m : OrdMap κ α) (k : κ) : OrdMap κ α := m.filter (fun e => e.1 ≠ k)

def insert (m : OrdMap κ α) (k : κ) (v : α) : OrdMap κ α where
  entries := m.entries.filter (fun e => e.1 < k) ++ (k, v) :: m.entries.filter (fun e => k < e.1)
  sorted := by
    refine List.pairwise_append.mpr ⟨m.sorted.sublist List.filter_sublist, ?_, ?_⟩
    · refine List.pairwise_cons.mpr ⟨fun e he => ?_, m.sorted.sublist List.filter_sublist⟩
      simpa using (List.mem_filter.mp he).2
    · intro a ha b hb
      have hak : a.1 < k := by simpa using (List.mem_filter.mp ha).2
      rcases List.mem_cons.mp hb with rfl | hb
      · exact hak
      · exact hak.trans (by simpa using (List.mem_filter.mp hb).2)

/-- Set `k` to `v` unless it is already there. -/
def orInsert (m : OrdMap κ α) (k : κ) (v : α) : OrdMap κ α :=
  if (m.get? k).isSome then m else m.insert k v

def mapVal (m : OrdMap κ α) (f : κ × α → α) : OrdMap κ α where
  entries := m.entries.map (fun e => (e.1, f e))
  sorted := List.pairwise_map.mpr m.sorted

def modify (m : OrdMap κ α) (k : κ) (f : α → α) : OrdMap κ α :=
  m.mapVal (fun e => if e.1 = k then f e.2 else e.2)

def lastKey? (m : OrdMap κ α) : Option κ := m.keys.getLast?

/-! ## Membership -/

@[simp] theorem entries_empty : (empty : OrdMap κ α).entries = [] := rfl

@[simp] theorem not_mem_empty (e : κ × α) : e ∉ (empty : OrdMap κ α) := by simp [mem_def]

@[simp] theorem entries_filter (m : OrdMap κ α) (p : κ × α → Bool) : (m.filter p).entries = m.entries.filter p := rfl

@[simp] theorem mem_filter {p : κ × α → Bool} : e ∈ m.filter p ↔ e ∈ m ∧ p e = true := by
  simp [mem_def]

@[simp] theorem mem_remove : e ∈ m.remove k ↔ e ∈ m ∧ e.1 ≠ k := by
  simp [remove]

@[simp] theorem mem_insert : e ∈ m.insert k v ↔ e = (k, v) ∨ e ∈ m ∧ e.1 ≠ k := by
  simp only [mem_def, insert, List.mem_append, List.mem_cons, List.mem_filter, decide_eq_true_eq]
  constructor
  · rintro (⟨h, hlt⟩ | rfl | ⟨h, hlt⟩)
    · exact .inr ⟨h, hlt.ne⟩
    · exact .inl rfl
    · exact .inr ⟨h, hlt.ne'⟩
  · rintro (rfl | ⟨h, hne⟩)
    · exact .inr (.inl rfl)
    · rcases lt_or_gt_of_ne hne with hlt | hlt
      · exact .inl ⟨h, hlt⟩
      · exact .inr (.inr ⟨h, hlt⟩)

@[simp] theorem mem_mapVal : e ∈ m.mapVal f ↔ ∃ v, (e.1, v) ∈ m ∧ f (e.1, v) = e.2 := by
  simp only [mem_def, mapVal, List.mem_map]
  constructor
  · rintro ⟨⟨k, v⟩, h, rfl⟩
    exact ⟨v, h, rfl⟩
  · rintro ⟨v, h, hv⟩
    exact ⟨(e.1, v), h, by rw [hv]⟩

@[ext] theorem ext {m m' : OrdMap κ α} (h : m.entries = m'.entries) : m = m' := by
  cases m'
  cases h
  rfl

theorem mapVal_eq_self (h : ∀ e ∈ m, f e = e.2) : m.mapVal f = m := by
  ext1
  refine (List.map_congr_left fun e he => ?_).trans (List.map_id _)
  rw [h e he]
  rfl

theorem mapVal_mapVal (m : OrdMap κ α) (f g : κ × α → α) :
    (m.mapVal f).mapVal g = m.mapVal (fun e => g (e.1, f e)) := by
  simp [mapVal]

theorem mapVal_congr {f g : κ × α → α} (h : ∀ e ∈ m, f e = g e) : m.mapVal f = m.mapVal g := by
  ext1
  exact List.map_congr_left fun e he => by rw [h e he]

theorem mem_keys : k ∈ m.keys ↔ ∃ v, (k, v) ∈ m := by
  simp [keys, mem_def]

theorem mem_keys_of_mem (h : e ∈ m) : e.1 ∈ m.keys := mem_keys.mpr ⟨e.2, h⟩

/-! ## Lookup -/

theorem nodup_keys (m : OrdMap κ α) : m.keys.Nodup := (List.pairwise_map.mpr m.sorted).imp (fun h => ne_of_lt h)

theorem mem_unique {v w : α} (hv : (k, v) ∈ m) (hw : (k, w) ∈ m) : v = w :=
  (Prod.mk.inj (List.inj_on_of_nodup_map m.nodup_keys hv hw rfl)).2

theorem get?_eq_some : m.get? k = some v ↔ (k, v) ∈ m := by
  unfold get?
  constructor
  · intro h
    obtain ⟨e, he, rfl⟩ := Option.map_eq_some_iff.mp h
    have hk : e.1 = k := by simpa using List.find?_some he
    subst hk
    exact List.mem_of_find?_eq_some he
  · intro h
    cases hf : m.entries.find? (fun e => e.1 = k) with
    | none => exact absurd (by simp) (List.find?_eq_none.mp hf _ h)
    | some e =>
      have hk : e.1 = k := by simpa using List.find?_some hf
      subst hk
      rw [Option.map_some, mem_unique (List.mem_of_find?_eq_some hf) h]

theorem get?_eq_none : m.get? k = none ↔ ∀ v, (k, v) ∉ m := by
  rw [Option.eq_none_iff_forall_ne_some]
  simp only [ne_eq, get?_eq_some]

theorem mem_orInsert (h : e ∈ m.orInsert k v) : e = (k, v) ∨ e ∈ m := by
  unfold orInsert at h
  split at h
  · exact .inr h
  · rcases mem_insert.mp h with h | h
    · exact .inl h
    · exact .inr h.1

theorem size_remove_lt (h : m.get? k = some v) : (m.remove k).size < m.size := by
  refine lt_of_le_of_ne (List.length_filter_le _ _) fun heq => ?_
  have := (List.length_filter_eq_length_iff.mp heq) (k, v) (get?_eq_some.mp h)
  simp at this

/-! ## The greatest key -/

theorem le_lastKey (h : m.lastKey? = some k) (he : e ∈ m) : e.1 ≤ k := by
  obtain ⟨l, hl⟩ := List.getLast?_eq_some_iff.mp h
  have hs : m.keys.Pairwise (· < ·) := List.pairwise_map.mpr m.sorted
  have hm : e.1 ∈ m.keys := mem_keys_of_mem he
  rw [hl] at hs hm
  rcases List.mem_append.mp hm with hm | hm
  · exact ((List.pairwise_append.mp hs).2.2 _ hm _ (List.mem_singleton_self k)).le
  · exact (List.mem_singleton.mp hm).le

theorem lastKey?_of_mem (he : e ∈ m) : ∃ k, m.lastKey? = some k := by
  cases h : m.lastKey? with
  | some k => exact ⟨k, rfl⟩
  | none =>
    have hm := mem_keys_of_mem he
    rw [List.getLast?_eq_none_iff.mp h] at hm
    exact absurd hm List.not_mem_nil

end OrdMap
end Peeroxide.Lib
