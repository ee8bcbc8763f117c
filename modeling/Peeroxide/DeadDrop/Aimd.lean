import Peeroxide.Lib.Machine

/-!
# The concurrency of the sender

How many puts may be in flight: a target that shrinks when puts degrade and grows when they do not, up to a cap that is
set by the speed the user asks for. What the smoothed degradation decides is an input of a sample.

Main result: `speed_cap_iff`.
-/

namespace Peeroxide.DeadDrop
open Lib

/-- The smoothed degradation is above `0.3`, below `0.05`, or between the two. -/
inductive Degradation where
  | high
  | low
  | between
  deriving DecidableEq

structure AimdController where
  current : Nat
  initial : Nat
  maxCap : Option Nat
  samplesSinceDecision : Nat
  decisionInterval : Nat
  degradedSinceDecision : Nat
  fastTripThreshold : Nat
  shrinkCooldown : Bool
  deriving DecidableEq

namespace AimdController

def new (initial : Nat) (maxCap : Option Nat) : AimdController := ⟨initial, initial, maxCap, 0, 20, 0, 10, false⟩

def resetDecisionWindow (a : AimdController) : AimdController :=
  { a with samplesSinceDecision := 0, degradedSinceDecision := 0 }

/-- The watchdog lifts the target to half of where it started. -/
def kickStall (a : AimdController) : Option Nat × AimdController :=
  let floor := max (a.initial / 2) 1
  if floor ≤ a.current then (none, a)
  else (some floor, { a.resetDecisionWindow with current := floor, shrinkCooldown := false })

def shrinkStep (a : AimdController) : Option Nat × AimdController :=
  let current := max (a.current * 3 / 4) 1
  (some current, { a with current, shrinkCooldown := true })

def shrinkUnlessCooling (a : AimdController) : Option Nat × AimdController :=
  if a.shrinkCooldown then (none, { a with shrinkCooldown := false }) else a.shrinkStep

def growStep (a : AimdController) : Option Nat × AimdController :=
  let next := a.current + 2
  let current := a.maxCap.elim next (min next)
  (some current, { a with current, shrinkCooldown := false })

def record (a : AimdController) (degraded : Bool) (ewma : Degradation) : Option Nat × AimdController :=
  let a := { a with
    samplesSinceDecision := a.samplesSinceDecision + 1
    degradedSinceDecision := a.degradedSinceDecision + if degraded then 1 else 0 }
  if a.fastTripThreshold ≤ a.degradedSinceDecision then a.resetDecisionWindow.shrinkUnlessCooling
  else if a.decisionInterval ≤ a.samplesSinceDecision then
    match ewma with
    | .high => a.resetDecisionWindow.shrinkUnlessCooling
    | .low => a.resetDecisionWindow.growStep
    | .between => (none, { a.resetDecisionWindow with shrinkCooldown := false })
  else (none, a)

inductive Event where
  | record (degraded : Bool) (ewma : Degradation)
  | kickStall
  deriving DecidableEq

def step (a : AimdController) : Event → AimdController
  | .record degraded ewma => (a.record degraded ewma).2
  | .kickStall => a.kickStall.2

structure Capped (c : Nat) (a : AimdController) : Prop where
  cap : a.maxCap = some c
  initial : a.initial ≤ c
  pos : 1 ≤ a.current
  le : a.current ≤ c

variable {c : Nat} {a : AimdController}

section
variable (h : Capped c a)
include h

theorem Capped.shrink : Capped c a.shrinkUnlessCooling.2 := by
  obtain ⟨hcap, hinitial, hpos, hle⟩ := h
  unfold shrinkUnlessCooling
  split
  · exact ⟨hcap, hinitial, hpos, hle⟩
  · refine ⟨hcap, hinitial, ?_, ?_⟩ <;> dsimp only [shrinkStep] <;> omega

theorem Capped.growStep : Capped c a.growStep.2 := by
  obtain ⟨hcap, hinitial, hpos, hle⟩ := h
  refine ⟨hcap, hinitial, ?_, ?_⟩ <;> simp only [AimdController.growStep, hcap, Option.elim_some] <;> omega

theorem Capped.record (degraded : Bool) (ewma : Degradation) :
    Capped c (a.record degraded ewma).2 := by
  unfold AimdController.record
  dsimp only
  generalize a.degradedSinceDecision + _ = n
  have hreset : Capped c { a with samplesSinceDecision := 0, degradedSinceDecision := 0 } := { h with }
  split
  · exact hreset.shrink
  split
  · cases ewma with
    | high => exact hreset.shrink
    | low => exact hreset.growStep
    | between => exact { h with }
  · exact { h with }

theorem Capped.kickStall : Capped c a.kickStall.2 := by
  obtain ⟨hcap, hinitial, hpos, hle⟩ := h
  unfold AimdController.kickStall
  dsimp only
  split
  · exact ⟨hcap, hinitial, hpos, hle⟩
  · refine ⟨hcap, hinitial, ?_, ?_⟩ <;> dsimp only <;> omega

theorem Capped.step : ∀ e : Event, Capped c (a.step e)
  | .record degraded ewma => h.record degraded ewma
  | .kickStall => h.kickStall

end

end AimdController

/-- `initial_concurrency`, whatever the speed. -/
def INITIAL_CONCURRENCY : Nat := 128

/-- The cap for a speed in bytes per second. -/
def maxConcurrency (speed : Nat) : Nat := max (speed / 22000) 1

/-- **The target stays between `1` and the cap, from construction on and whatever is recorded, just when the cap is not
below the concurrency that every sender starts with.** -/
theorem speed_cap_iff (c : Nat) (es : List AimdController.Event) :
    Visits AimdController.step (fun a => 1 ≤ a.current ∧ a.current ≤ c) (.new INITIAL_CONCURRENCY (some c)) es ↔
      INITIAL_CONCURRENCY ≤ c := by
  constructor
  · intro h
    have hstart : 1 ≤ INITIAL_CONCURRENCY ∧ INITIAL_CONCURRENCY ≤ c := by
      cases es with
      | nil => exact h
      | cons => exact h.1
    exact hstart.2
  · intro hc
    have hnew : (AimdController.new INITIAL_CONCURRENCY (some c)).Capped c := ⟨rfl, hc, (by decide : 1 ≤ 128), hc⟩
    exact (visits_invariant (fun _ e h => h.step e) hnew es).imp fun _ h => ⟨h.pos, h.le⟩

/-- At one megabyte per second 45 puts may be in flight, and the sender starts with 128; a stall later on brings 64. -/
theorem starts_above_cap :
    maxConcurrency 1000000 = 45 ∧ (AimdController.new INITIAL_CONCURRENCY (some 45)).current = 128 ∧
      (run AimdController.step (.new INITIAL_CONCURRENCY (some 45))
        (List.replicate 20 (.record false .low) ++ List.replicate 10 (.record true .low) ++ [.kickStall])).current = 64 := by
  decide +kernel

end Peeroxide.DeadDrop
