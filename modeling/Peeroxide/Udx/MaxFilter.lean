import Mathlib.Algebra.Order.Ring.Nat
import Mathlib.Data.List.Induction

/-!
# The windowed maximum

The filter behind the bandwidth estimate has three entries of which the first is its answer. They are always equal, so
that a sample below the one that is held leaves no trace, and is forgotten with it.

Main result: `windowed_iff`.
-/

namespace Peeroxide.Udx

abbrev Sample (α : Type) := α × UInt32

structure WindowedMaxFilter (α : Type) where
  first : Sample α
  second : Sample α
  third : Sample α

namespace WindowedMaxFilter
variable {α : Type} [LinearOrder α]

def new [Zero α] : WindowedMaxFilter α := ⟨(0, 0), (0, 0), (0, 0)⟩

def get (f : WindowedMaxFilter α) : α := f.first.1

/-- The two comparisons that let a sample in. -/
def place (f : WindowedMaxFilter α) (x : Sample α) : WindowedMaxFilter α :=
  if f.second.1 ≤ x.1 then { f with second := x, third := x }
  else if f.third.1 ≤ x.1 then { f with third := x }
  else f

def shift (f : WindowedMaxFilter α) (x : Sample α) : WindowedMaxFilter α := ⟨f.second, f.third, x⟩

def update (f : WindowedMaxFilter α) (window : UInt32) (x : Sample α) : WindowedMaxFilter α :=
  let expired (round : UInt32) : Prop := window ≤ x.2 - round
  if f.first.1 ≤ x.1 ∨ expired f.third.2 then ⟨x, x, x⟩
  else
    let f := f.place x
    if expired f.first.2 then
      let f := f.shift x
      if expired f.first.2 then f.shift x else f
    else f

variable [Zero α]

def feed (window : UInt32) (xs : List (Sample α)) : WindowedMaxFilter α := xs.foldl (update · window) new

/-! ## The sample that is held -/

/-- A sample that is as great, or that finds the one before expired, takes its place. -/
def leader (window : UInt32) (xs : List (Sample α)) : Sample α :=
  xs.foldl (fun y x => if y.1 ≤ x.1 ∨ window ≤ x.2 - y.2 then x else y) (0, 0)

variable {xs : List (Sample α)} {window : UInt32}

theorem leader_concat (window : UInt32) (xs : List (Sample α)) (x : Sample α) : leader window (xs ++ [x]) =
    if (leader window xs).1 ≤ x.1 ∨ window ≤ x.2 - (leader window xs).2 then x else leader window xs := by
  rw [leader, List.foldl_append]
  rfl

theorem feed_eq (window : UInt32) (xs : List (Sample α)) :
    feed window xs = ⟨leader window xs, leader window xs, leader window xs⟩ := by
  induction xs using List.reverseRecOn with
  | nil => rfl
  | append_singleton xs x ih =>
    rw [leader_concat, feed, List.foldl_append, ← feed, ih]
    by_cases htakes : (leader window xs).1 ≤ x.1 ∨ window ≤ x.2 - (leader window xs).2
    · rw [if_pos htakes]
      exact if_pos htakes
    · obtain ⟨hless, hlive⟩ := not_or.mp htakes
      rw [if_neg htakes]
      simp [update, place, hless, hlive]

/-! ## The last rounds -/

/-- After each update the answer is a sample of the last `window` rounds, and at least as great as every sample of the
last half of them. -/
def Windowed (window : UInt32) (xs : List (Sample α)) : Prop :=
  ∀ i (h : i < xs.length), let answer := (feed window (xs.take (i + 1))).get
    (∃ y ∈ xs.take (i + 1), answer = y.1 ∧ xs[i].2 - y.2 < window) ∧
      ∀ y ∈ xs.take (i + 1), xs[i].2 - y.2 < window / 2 → y.1 ≤ answer

/-- A sample that finds the leader expired is at least as great as every sample of the last half of the window. -/
def Renewed (window : UInt32) (xs : List (Sample α)) : Prop :=
  ∀ i (h : i < xs.length), window ≤ xs[i].2 - (leader window (xs.take i)).2 →
    ∀ y ∈ xs.take i, xs[i].2 - y.2 < window / 2 → y.1 ≤ xs[i].1

instance (window : UInt32) (xs : List (Sample α)) : Decidable (Windowed window xs) := Nat.decidableBallLT _ _

instance (window : UInt32) (xs : List (Sample α)) : Decidable (Renewed window xs) := Nat.decidableBallLT _ _

theorem leader_recent (hw : 0 < window) (xs : List (Sample α)) (x : Sample α) (hpos : ∀ y ∈ xs ++ [x], 0 ≤ y.1) :
    leader window (xs ++ [x]) ∈ xs ++ [x] ∧ x.2 - (leader window (xs ++ [x])).2 < window := by
  have hnow : x.2 - x.2 < window := by simpa using hw
  induction xs using List.reverseRecOn generalizing x with
  | nil =>
    have hfirst : leader window [x] = x := if_pos (.inl (hpos x (by simp)))
    rw [List.nil_append, hfirst]
    exact ⟨by simp, hnow⟩
  | append_singleton xs z ih =>
    rw [leader_concat]
    split_ifs with htakes
    · exact ⟨by simp, hnow⟩
    · obtain ⟨hmem, -⟩ := ih z (fun y hy => hpos y (List.mem_append_left _ hy)) (by simpa using hw)
      exact ⟨List.mem_append_left _ hmem, UInt32.not_le.mp (not_or.mp htakes).2⟩

/-- What is recent now was recent before. -/
theorem recent_of_le {age a b c : UInt32} (hab : a ≤ b) (hbc : b ≤ c) (h : c - a < age) : b - a < age := by
  have hb := UInt32.toNat_sub_of_le b a hab
  have hc := UInt32.toNat_sub_of_le c a (UInt32.le_trans hab hbc)
  rw [UInt32.le_iff_toNat_le] at hbc
  rw [UInt32.lt_iff_toNat_lt] at h ⊢
  omega

theorem round_le {β : Type} {xs : List (Sample β)} {y : Sample β} (hrounds : xs.Pairwise fun y x => y.2 ≤ x.2) {i : Nat}
    (hi : i < xs.length) (hy : y ∈ xs.take (i + 1)) : y.2 ≤ xs[i].2 := by
  obtain ⟨j, hj, rfl⟩ := List.mem_take_iff_getElem.mp hy
  rcases Nat.lt_or_eq_of_le (show j ≤ i by omega) with hlt | rfl
  · exact List.pairwise_iff_getElem.mp hrounds j i _ hi hlt
  · exact UInt32.le_refl _

/-- While expired leaders are renewed, the leader is at least as great as the samples of the last half of the window. -/
theorem Renewed.le_leader (hrounds : xs.Pairwise fun y x => y.2 ≤ x.2) (h : Renewed window xs) {i : Nat}
    (hi : i < xs.length) :
    ∀ y ∈ xs.take (i + 1), xs[i].2 - y.2 < window / 2 → y.1 ≤ (leader window (xs.take (i + 1))).1 := by
  rw [List.take_succ_eq_append_getElem hi, leader_concat window (xs.take i)]
  intro y hy hrecent
  have hbefore : y ∈ xs.take i → y.1 ≤ (leader window (xs.take i)).1 := by
    intro hold
    cases i with
    | zero => cases hold
    | succ i =>
      have hlast := round_le hrounds (by omega) hold
      have hnext := List.pairwise_iff_getElem.mp hrounds i (i + 1) (by omega) hi (by omega)
      exact h.le_leader hrounds (by omega) y hold (recent_of_le hlast hnext hrecent)
  rcases List.mem_append.mp hy with hold | hnew
  · split_ifs with htakes
    · rcases htakes with hgreat | hexpired
      · exact (hbefore hold).trans hgreat
      · exact h i hi hexpired y hold hrecent
    · exact hbefore hold
  · obtain rfl := List.mem_singleton.mp hnew
    split_ifs with htakes
    · exact le_rfl
    · exact le_of_not_ge (not_or.mp htakes).1

/-- **The answer is a sample of the last `window` rounds and at least as great as every sample of the last half of them,
just when a sample that finds the leader expired is.** -/
theorem windowed_iff (hw : 0 < window) (hpos : ∀ y ∈ xs, 0 ≤ y.1) (hrounds : xs.Pairwise fun y x => y.2 ≤ x.2) :
    Windowed window xs ↔ Renewed window xs := by
  have htake {i : Nat} (hi : i < xs.length) : xs.take (i + 1) = xs.take i ++ [xs[i]] := List.take_succ_eq_append_getElem hi
  constructor
  · intro h i hi hexpired y hy hrecent
    have hle := (h i hi).2 y (htake hi ▸ List.mem_append_left _ hy) hrecent
    rwa [feed_eq, htake hi, get, leader_concat, if_pos (.inr hexpired)] at hle
  · intro h i hi
    dsimp only
    obtain ⟨hmem, hrecent⟩ := leader_recent hw (xs.take i) xs[i] fun y hy => hpos y (List.mem_of_mem_take (htake hi ▸ hy))
    rw [← htake hi] at hmem hrecent
    rw [feed_eq]
    exact ⟨⟨_, hmem, rfl, hrecent⟩, h.le_leader hrounds hi⟩

/-- The third sample finds the first expired, and is greater than the second. -/
theorem windowed_renewed : Windowed 4 [((10 : Nat), 0), (8, 3), (9, 4)] :=
  (windowed_iff (by decide) (by simp) (by decide)).mpr (by decide)

/-- The first sample hides the second, which is forgotten with it one round later. -/
theorem recent_sample_forgotten : ¬ Windowed 4 [((10 : Nat), 0), (8, 3), (1, 4)] := by
  decide

end WindowedMaxFilter
end Peeroxide.Udx
