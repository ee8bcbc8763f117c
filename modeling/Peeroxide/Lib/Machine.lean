import Mathlib.Data.List.Basic

/-!
# Runs of a deterministic machine

`step : σ → ε → σ` is fed a list of events. What a reachable state satisfies is proved from what one step preserves.

* `run` : the state after a list of events;
* `Along P s es` : every step of the run meets `P` when it is taken; `Visits Q s es` : every state of the run, the
  first one included, satisfies `Q`; `countSteps p s es` : how many steps meet `p`;
* `run_invariant`, `run_invariant_along`, `visits_invariant`, `visits_iff_along`, `visits_iff_along_of`,
  `Along.of_invariant`, `Along.visits`, `Visits.imp`, `Visits.last`, `countSteps_le` : the induction rules.
-/

namespace Peeroxide.Lib
variable {σ ε : Type} (step : σ → ε → σ)

def run (s : σ) (es : List ε) : σ := es.foldl step s

/-- Every step of the run from `s` meets `P` when it is taken. -/
def Along (P : σ → ε → Prop) : σ → List ε → Prop
  | _, [] => True
  | s, e :: es => P s e ∧ Along P (step s e) es

/-- Every state of the run from `s` satisfies `Q`. -/
def Visits (Q : σ → Prop) : σ → List ε → Prop
  | s, [] => Q s
  | s, e :: es => Q s ∧ Visits Q (step s e) es

/-- How many steps of the run from `s` meet `p` when they are taken. -/
def countSteps (p : σ → ε → Bool) : σ → List ε → Nat
  | _, [] => 0
  | s, e :: es => (if p s e then 1 else 0) + countSteps p (step s e) es

variable {step}

instance decidableAlong {P : σ → ε → Prop} [∀ s e, Decidable (P s e)] :
    (s : σ) → (es : List ε) → Decidable (Along step P s es)
  | _, [] => .isTrue trivial
  | s, e :: es => @instDecidableAnd _ _ _ (decidableAlong (step s e) es)

@[simp] theorem run_nil (s : σ) : run step s [] = s := rfl

@[simp] theorem run_cons (s : σ) (e : ε) (es : List ε) : run step s (e :: es) = run step (step s e) es := rfl

theorem run_append (s : σ) (es fs : List ε) : run step s (es ++ fs) = run step (run step s es) fs := by
  simp [run]

theorem run_snoc (s : σ) (es : List ε) (e : ε) : run step s (es ++ [e]) = step (run step s es) e := by
  simp [run]

theorem run_invariant {I : σ → Prop} (hstep : ∀ s e, I s → I (step s e)) {s : σ} (hs : I s) (es : List ε) :
    I (run step s es) := by
  induction es generalizing s with
  | nil => exact hs
  | cons e es ih => exact ih (hstep s e hs)

/-- What every step meeting `P` preserves holds at the end of every run whose steps all meet `P`. -/
theorem run_invariant_along {I : σ → Prop} {P : σ → ε → Prop} (hstep : ∀ s e, I s → P s e → I (step s e)) {s : σ}
    (hs : I s) {es : List ε} (hp : Along step P s es) : I (run step s es) := by
  induction es generalizing s with
  | nil => exact hs
  | cons e es ih => exact ih (hstep s e hs hp.1) hp.2

theorem Along.imp {P Q : σ → ε → Prop} (h : ∀ s e, P s e → Q s e) {s : σ} {es : List ε} (hp : Along step P s es) :
    Along step Q s es := by
  induction es generalizing s with
  | nil => trivial
  | cons e es ih => exact ⟨h s e hp.1, ih hp.2⟩

/-- Where steps meeting `P` keep an invariant and meet `Q`, the runs whose steps meet `P` meet `Q`. -/
theorem Along.of_invariant {I : σ → Prop} {P Q : σ → ε → Prop} (hstep : ∀ s e, I s → P s e → I (step s e) ∧ Q s e) {s : σ}
    (hs : I s) {es : List ε} (hp : Along step P s es) : Along step Q s es := by
  induction es generalizing s with
  | nil => trivial
  | cons e es ih =>
    obtain ⟨hs', hq⟩ := hstep s e hs hp.1
    exact ⟨hq, ih hs' hp.2⟩

/-- Where steps meeting `P` keep an invariant that gives `Q`, the runs whose steps meet `P` go through `Q`. -/
theorem Along.visits {I Q : σ → Prop} {P : σ → ε → Prop} (hkeep : ∀ s e, I s → P s e → I (step s e))
    (hQ : ∀ s, I s → Q s) {s : σ} (hs : I s) {es : List ε} (hp : Along step P s es) : Visits step Q s es := by
  induction es generalizing s with
  | nil => exact hQ s hs
  | cons e es ih => exact ⟨hQ s hs, ih (hkeep s e hs hp.1) hp.2⟩

/-- Two conditions that agree wherever an invariant holds are met along the same runs. -/
theorem along_congr {I : σ → Prop} {P Q : σ → ε → Prop} (hstep : ∀ s e, I s → I (step s e))
    (hPQ : ∀ s e, I s → (P s e ↔ Q s e)) {s : σ} (hs : I s) (es : List ε) : Along step P s es ↔ Along step Q s es := by
  induction es generalizing s with
  | nil => exact Iff.rfl
  | cons e es ih => exact and_congr (hPQ s e hs) (ih (hstep s e hs))

/-- When steps meeting `P` keep an invariant that gives `Q`, and a step from the invariant to `Q` meets `P`, the runs
through `Q` are those whose steps all meet `P`. -/
theorem visits_iff_along_of {I Q : σ → Prop} {P : σ → ε → Prop} (hQ : ∀ s, I s → Q s)
    (hkeep : ∀ s e, I s → P s e → I (step s e)) (hmeet : ∀ s e, I s → Q (step s e) → P s e) {s : σ} (hs : I s)
    (es : List ε) : Visits step Q s es ↔ Along step P s es := by
  induction es generalizing s with
  | nil => exact iff_of_true (hQ s hs) trivial
  | cons e es ih =>
    constructor
    · rintro ⟨-, hv⟩
      have hq : Q (step s e) := by
        cases es with
        | nil => exact hv
        | cons => exact hv.1
      have hp := hmeet s e hs hq
      exact ⟨hp, (ih (hkeep s e hs hp)).mp hv⟩
    · rintro ⟨hp, ha⟩
      exact ⟨hQ s hs, (ih (hkeep s e hs hp)).mpr ha⟩

/-- When a step leads from good states to good ones just if it meets `P`, the runs through good states are those whose
steps all meet `P`. -/
theorem visits_iff_along {I Q : σ → Prop} {P : σ → ε → Prop} (hinv : ∀ s e, I s → I (step s e))
    (hstep : ∀ s e, I s → Q s → (Q (step s e) ↔ P s e)) {s : σ} (hs : I s) (hq : Q s) (es : List ε) :
    Visits step Q s es ↔ Along step P s es :=
  visits_iff_along_of (I := fun s => I s ∧ Q s) (fun _ h => h.2)
    (fun s e h hp => ⟨hinv s e h.1, (hstep s e h.1 h.2).mpr hp⟩) (fun s e h hq => (hstep s e h.1 h.2).mp hq) ⟨hs, hq⟩ es

theorem visits_invariant {I : σ → Prop} (hstep : ∀ s e, I s → I (step s e)) {s : σ} (hs : I s) (es : List ε) :
    Visits step I s es := by
  induction es generalizing s with
  | nil => exact hs
  | cons e es ih => exact ⟨hs, ih (hstep s e hs)⟩

theorem Visits.imp {Q R : σ → Prop} (h : ∀ s, Q s → R s) {s : σ} {es : List ε} (hv : Visits step Q s es) :
    Visits step R s es := by
  induction es generalizing s with
  | nil => exact h s hv
  | cons e es ih => exact ⟨h s hv.1, ih hv.2⟩

theorem Visits.last {Q : σ → Prop} {s : σ} {es : List ε} (h : Visits step Q s es) : Q (run step s es) := by
  induction es generalizing s with
  | nil => exact h
  | cons e es ih => exact ih h.2

theorem Along.of_forall {P : σ → ε → Prop} {es : List ε} (h : ∀ e ∈ es, ∀ s, P s e) (s : σ) : Along step P s es := by
  induction es generalizing s with
  | nil => trivial
  | cons e es ih => exact ⟨h e (.head _) s, ih (fun e he => h e (.tail _ he)) (step s e)⟩

theorem Along.append {P : σ → ε → Prop} {s : σ} {es fs : List ε} (h : Along step P s es)
    (h' : Along step P (run step s es) fs) : Along step P s (es ++ fs) := by
  induction es generalizing s with
  | nil => exact h'
  | cons e es ih => exact ⟨h.1, ih h.2 h'⟩

/-- Steps that use up some of a measure are at most as many as there is of it. -/
theorem countSteps_le {I : σ → Prop} {P : σ → ε → Prop} {p : σ → ε → Bool} {m : σ → Nat}
    (hstep : ∀ s e, I s → P s e → I (step s e) ∧ m (step s e) + (if p s e then 1 else 0) ≤ m s) {s : σ} (hs : I s)
    {es : List ε} (h : Along step P s es) : countSteps step p s es ≤ m s := by
  induction es generalizing s with
  | nil => exact Nat.zero_le _
  | cons e es ih =>
    obtain ⟨hs', hm⟩ := hstep s e hs h.1
    have hrest := ih hs' h.2
    rw [countSteps]
    omega

end Peeroxide.Lib
