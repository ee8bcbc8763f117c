import Mathlib.Data.Finset.Card
import Peeroxide.Lib.Sorted

/-!
# The nearest elements seen so far

A list of at most `k` elements in increasing order of a distance, kept by inserting each new element from the back,
leaving out one that is there already and dropping the last one when there are too many.

* `bubble`, `pushNearest` : the insertion;
* `nearest d k S` : the elements of `S` with fewer than `k` nearer ones in `S`;
* `Nearest d k S ids` : the list `ids` holds just those; `Nearest.place`, `Nearest.skip` : one more element;
* `Nearest.push` : `pushNearest` keeps such a list;
* `Nearest.toFinset_eq` : so the elements of the list do not depend on the order in which they came.
-/

namespace Peeroxide.Lib
open List

section
variable {α : Type}

/-- Walk `m` to its place from the front of a list in decreasing order; `none` when an equal element is there. -/
def bubble (cmp : α → Ordering) (m : α) : List α → Option (List α)
  | [] => some [m]
  | p :: ps =>
    match cmp p with
    | .lt => some (m :: p :: ps)
    | .eq => none
    | .gt => (bubble cmp m ps).map (p :: ·)

/-- Insert from the back and keep at most `k`. -/
def pushNearest (k : Nat) (cmp : α → Ordering) (m : α) (xs : List α) : List α :=
  match bubble cmp m xs.reverse with
  | none => xs
  | some rev => if k < rev.reverse.length then rev.reverse.dropLast else rev.reverse

theorem bubble_none {cmp : α → Ordering} {m : α} {rev : List α} (h : bubble cmp m rev = none) :
    ∃ p ∈ rev, cmp p = .eq := by
  induction rev with
  | nil => cases h
  | cons p ps ih =>
    rw [bubble] at h
    split at h
    · cases h
    next heq =>
      exact ⟨p, mem_cons_self, heq⟩
    · obtain ⟨q, hq, heq⟩ := ih (Option.map_eq_none_iff.mp h)
      exact ⟨q, mem_cons_of_mem p hq, heq⟩

theorem bubble_some {cmp : α → Ordering} {m : α} {rev ys : List α} (h : bubble cmp m rev = some ys) :
    ∃ r l, rev = r ++ l ∧ ys = r ++ m :: l ∧ (∀ p ∈ r, cmp p = .gt) ∧ ∀ p ∈ l.head?, cmp p = .lt := by
  induction rev generalizing ys with
  | nil =>
    cases h
    exact ⟨[], [], rfl, rfl, by simp, by simp⟩
  | cons p ps ih =>
    rw [bubble] at h
    split at h
    next hlt =>
      cases h
      exact ⟨[], p :: ps, rfl, rfl, by simp, by simpa using hlt⟩
    · cases h
    next hgt =>
      obtain ⟨zs, hzs, rfl⟩ := Option.map_eq_some_iff.mp h
      obtain ⟨r, l, rfl, rfl, hr, hl⟩ := ih hzs
      refine ⟨p :: r, l, rfl, rfl, fun q hq => ?_, hl⟩
      rcases mem_cons.mp hq with rfl | hq
      · exact hgt
      · exact hr q hq

end

section
variable {ι κ : Type} [LinearOrder κ]

/-- The elements of `S` with fewer than `k` nearer ones. -/
def nearest (d : ι → κ) (k : Nat) (S : Finset ι) : Finset ι := S.filter fun a => (S.filter fun b => d b < d a).card < k

/-- In increasing order of distance, the `k` nearest elements of `S`, or all of them if they are fewer. -/
structure Nearest (d : ι → κ) (k : Nat) (S : Finset ι) (ids : List ι) : Prop where
  sorted : SortedBy d ids
  length_le : ids.length ≤ k
  subset : ∀ a ∈ ids, a ∈ S
  complete : ∀ a ∈ S, a ∈ ids ∨ ids.length = k ∧ ∀ b ∈ ids, d b < d a

variable {a : ι} {k : Nat} {S : Finset ι} {ids : List ι} {d : ι → κ}

theorem SortedBy.nodup (h : SortedBy d ids) : ids.Nodup :=
  h.imp fun hab he => absurd (congrArg d he) (ne_of_lt hab)

theorem nearest_nil (d : ι → κ) (k : Nat) : Nearest d k ∅ [] := ⟨.nil, Nat.zero_le k, by simp, by simp⟩

theorem SortedBy.lt_of_getLast {x : κ} (h : SortedBy d ids) (hlast : ∀ b ∈ ids.getLast?, d b < x) : ∀ b ∈ ids, d b < x := by
  intro b hb
  obtain ⟨front, last, rfl⟩ := (eq_nil_or_concat' ids).resolve_left (ne_nil_of_mem hb)
  have hlt : d last < x := hlast last (by simp)
  rcases mem_append.mp hb with hb | hb
  · exact ((pairwise_append.mp h).2.2 b hb last (by simp)).trans hlt
  · rw [mem_singleton.mp hb]
    exact hlt

variable [DecidableEq ι]

theorem Nearest.toFinset_eq (h : Nearest d k S ids) : ids.toFinset = nearest d k S := by
  have hcard : ids.toFinset.card = ids.length := toFinset_card_of_nodup h.sorted.nodup
  ext a
  rw [mem_toFinset, nearest, Finset.mem_filter]
  constructor
  · intro ha
    refine ⟨h.subset a ha, ?_⟩
    -- what is nearer than an element of the list is another element of the list
    have hsub : (S.filter fun b => d b < d a) ⊆ ids.toFinset.erase a := by
      intro b hb
      rw [Finset.mem_filter] at hb
      rw [Finset.mem_erase, mem_toFinset]
      refine ⟨fun he => absurd hb.2 (by rw [he]; exact lt_irrefl _), ?_⟩
      rcases h.complete b hb.1 with hmem | ⟨-, hfar⟩
      · exact hmem
      · exact absurd (hfar a ha) (not_lt.mpr hb.2.le)
    have hle := Finset.card_le_card hsub
    have hpos : 0 < ids.length := length_pos_of_mem ha
    have := h.length_le
    rw [Finset.card_erase_of_mem (mem_toFinset.mpr ha)] at hle
    omega
  · rintro ⟨haS, hfew⟩
    rcases h.complete a haS with hmem | ⟨hlen, hfar⟩
    · exact hmem
    · have hsub : ids.toFinset ⊆ S.filter fun b => d b < d a := by
        intro b hb
        rw [mem_toFinset] at hb
        exact Finset.mem_filter.mpr ⟨h.subset b hb, hfar b hb⟩
      have := Finset.card_le_card hsub
      omega

theorem Nearest.skip {a last : ι} (h : Nearest d k S ids)
    (hlen : ids.length = k) (hlast : ids.getLast? = some last) (hd : d last ≤ d a)
    (hinj : d last = d a → last = a) : Nearest d k (insert a S) ids := by
  refine ⟨h.sorted, h.length_le, fun b hb => Finset.mem_insert_of_mem (h.subset b hb), fun b hb => ?_⟩
  rcases Finset.mem_insert.mp hb with rfl | hb
  · rcases lt_or_eq_of_le hd with hlt | heq
    · exact .inr ⟨hlen, h.sorted.lt_of_getLast (by rw [hlast]; simpa using hlt)⟩
    · exact .inl (hinj heq ▸ mem_of_getLast? hlast)
  · exact h.complete b hb

theorem Nearest.again (h : Nearest d k S ids) (ha : a ∈ ids) : Nearest d k (insert a S) ids := by
  rwa [Finset.insert_eq_self.mpr (h.subset a ha)]

/-- A new element at its place, the last one dropped when there are too many. -/
theorem Nearest.place {l r : List ι} (h : Nearest d k S (l ++ r)) (hl : ∀ b ∈ l, d b < d a) (hr : ∀ b ∈ r, d a < d b) :
    Nearest d k (insert a S) (if k < (l ++ a :: r).length then (l ++ a :: r).dropLast else l ++ a :: r) := by
  have hlen := h.length_le
  have hlength : (l ++ a :: r).length = (l ++ r).length + 1 := by simp [Nat.add_assoc]
  have hsorted : SortedBy d (l ++ a :: r) := sortedBy_append_cons.mpr ⟨h.sorted, hl, hr⟩
  have hmem : ∀ b, b ∈ l ++ a :: r ↔ b = a ∨ b ∈ l ++ r := by
    intro b
    rw [mem_append, mem_cons, mem_append, or_left_comm]
  have hsub : ∀ b ∈ l ++ a :: r, b ∈ insert a S := fun b hb =>
    Finset.mem_insert.mpr (((hmem b).mp hb).imp_right (h.subset b))
  have hcomplete : ∀ b ∈ insert a S, b ∈ l ++ a :: r ∨ (l ++ r).length = k ∧ ∀ c ∈ l ++ r, d c < d b := by
    intro b hb
    rw [hmem b]
    rcases Finset.mem_insert.mp hb with rfl | hb
    · exact .inl (.inl rfl)
    · exact (h.complete b hb).imp_left .inr
  split
  next hover =>
    obtain ⟨front, last, hwhole⟩ := (eq_nil_or_concat' (l ++ a :: r)).resolve_left (by simp)
    rw [hwhole] at hover hsorted hsub hcomplete hmem hlength ⊢
    rw [length_append, length_singleton] at hover hlength
    have hfull : front.length = k := by omega
    obtain ⟨hfront, -, hbefore⟩ := pairwise_append.mp hsorted
    have hlast : ∀ c ∈ front, d c < d last := fun c hc => hbefore c hc last (by simp)
    rw [dropLast_concat]
    refine ⟨hfront, hfull.le, fun b hb => hsub b (mem_append_left _ hb), fun b hb => ?_⟩
    rcases hcomplete b hb with hb | ⟨-, hfar⟩
    · refine (mem_append.mp hb).imp_right fun hb => ?_
      rw [mem_singleton.mp hb]
      exact ⟨hfull, hlast⟩
    · refine .inr ⟨hfull, fun c hc => ?_⟩
      rcases (hmem c).mp (mem_append_left _ hc) with rfl | hold
      · -- the new element stands before the last one, which is an old one
        have hold := ((hmem last).mp (by simp)).resolve_left fun he => absurd (hlast c hc) (by rw [he]; exact lt_irrefl _)
        exact (hlast c hc).trans (hfar last hold)
      · exact hfar c hold
  next hfits =>
    refine ⟨hsorted, not_lt.mp hfits, hsub, fun b hb => (hcomplete b hb).imp_right fun hfull => ?_⟩
    omega

/-- Inserting into a list whose elements carry the names: the names are the nearest ones, the new one included. -/
theorem Nearest.push {α : Type} {name : α → Option ι} {cmp : α → Ordering} {m : α} {xs : List α} (h : Nearest d k S ids)
    (hids : xs.map name = ids.map some) (hm : name m = some a) (hlt : ∀ p b, name p = some b → cmp p = .lt → d b < d a)
    (heq : ∀ p b, name p = some b → cmp p = .eq → b = a) (hgt : ∀ p b, name p = some b → cmp p = .gt → d a < d b) :
    ∃ ids', (pushNearest k cmp m xs).map name = ids'.map some ∧ Nearest d k (insert a S) ids' := by
  have hname : ∀ p ∈ xs, ∃ b ∈ ids, name p = some b := by
    intro p hp
    have hp' := mem_map_of_mem (f := name) hp
    rw [hids, mem_map] at hp'
    obtain ⟨b, hb, he⟩ := hp'
    exact ⟨b, hb, he.symm⟩
  unfold pushNearest
  cases hb : bubble cmp m xs.reverse with
  | none =>
    obtain ⟨p, hp, hpe⟩ := bubble_none hb
    obtain ⟨b, hbm, hpb⟩ := hname p (mem_reverse.mp hp)
    exact ⟨ids, hids, h.again (heq p b hpb hpe ▸ hbm)⟩
  | some ys =>
    obtain ⟨r, l, hrev, rfl, hr, hl⟩ := bubble_some hb
    obtain rfl : xs = l.reverse ++ r.reverse := by rw [← reverse_append, ← hrev, reverse_reverse]
    have hys : (r ++ m :: l).reverse = l.reverse ++ m :: r.reverse := by simp
    rw [map_append, eq_comm, map_eq_append_iff] at hids
    obtain ⟨il, ir, rfl, hil, hir⟩ := hids
    have hbelow : ∀ b ∈ il, d b < d a := by
      refine SortedBy.lt_of_getLast (pairwise_append.mp h.sorted).1 fun b hb => ?_
      have hlast := congrArg getLast? hil
      rw [getLast?_map, getLast?_map, hb, getLast?_reverse] at hlast
      obtain ⟨p, hp, hpb⟩ := Option.map_eq_some_iff.mp hlast.symm
      exact hlt p b hpb (hl p hp)
    have habove : ∀ b ∈ ir, d a < d b := by
      intro b hbm
      have hbm' := mem_map_of_mem (f := some) hbm
      rw [hir, mem_map] at hbm'
      obtain ⟨p, hp, hpb⟩ := hbm'
      exact hgt p b hpb (hr p (mem_reverse.mp hp))
    have hmap : (l.reverse ++ m :: r.reverse).map name = (il ++ a :: ir).map some := by
      rw [map_append, map_cons, map_append, map_cons, hil, hir, hm]
    have hsame : (l.reverse ++ m :: r.reverse).length = (il ++ a :: ir).length := by
      simpa only [length_map] using congrArg List.length hmap
    refine ⟨_, ?_, h.place hbelow habove⟩
    dsimp only
    rw [hys, hsame]
    split
    · rw [map_dropLast, hmap, map_dropLast]
    · exact hmap

end
end Peeroxide.Lib
