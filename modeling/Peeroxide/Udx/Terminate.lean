import Peeroxide.Udx.Core

/-!
# After termination

`terminate` marks the stream disconnected and answers the pending writes, but leaves an armed firewall hook in place,
and a stream with an armed hook takes writes.

Main result: `terminate_final`.
-/

namespace Peeroxide.Udx
open Lib StreamInner Sys
variable {e : Ev} {y : Sys}

/-- The step runs `terminate`: the processor leaves its loop, or the stream is destroyed. -/
def Sys.terminates (y : Sys) : Ev → Bool
  | .destroy => true
  | .proc e ctx => y.proc.running && (branch y.inner y.proc.shuttingDown ctx e).stop
  | _ => false

/-- The stream as `terminate` finds it. -/
def Sys.atTerminate (y : Sys) : Ev → StreamInner
  | .proc e ctx => (branch y.inner y.proc.shuttingDown ctx e).s
  | _ => y.inner

/-- Every write and every shutdown is refused, and no write is waiting. -/
def Refuses (y : Sys) : Prop :=
  (∀ len ch, ∃ err, (y.inner.prepareWrite len ch).2 = .error err) ∧
  (∀ ch, ∃ err, (y.inner.prepareEnd ch).2 = .error err) ∧ y.inner.pendingWrites = []

def reopens : Ev → Bool
  | .connect _ _ _ | .setFirewallHook _ _ _ => true
  | _ => false

theorem terminates_spec (h : y.terminates e = true) :
    (y.step e).inner = { y.atTerminate e with
      connected := false, notifyTx := false, pendingWrites := [], closeTx := (y.step e).inner.closeTx } ∧
    (y.step e).proc.running = false := by
  cases e with
  | destroy => exact ⟨rfl, rfl⟩
  | proc e ctx =>
    obtain ⟨hr, hs⟩ := Bool.and_eq_true_iff.mp h
    have hstep : y.step (.proc e ctx) = y.procTurn e ctx := rfl
    rw [hstep]
    unfold procTurn Proc.turn
    rw [if_pos hr]
    rw [if_pos hs]
    exact ⟨rfl, rfl⟩
  | _ => cases h

/-! ## Refusing -/

/-- Ended, or disconnected without a hook and without a processor; and no write waiting. -/
structure Closed (y : Sys) : Prop where
  pending : y.inner.pendingWrites = []
  shut : y.inner.ended = true ∨
    y.inner.connected = false ∧ y.inner.firewallHook = none ∧ y.proc.running = false

theorem Closed.refuses (h : Closed y) : Refuses y := by
  refine ⟨fun len ch => ?_, fun ch => ?_, h.pending⟩
  · have hw : y.inner.writable = false := by
      unfold writable
      rcases h.shut with he | ⟨hc, hh, -⟩
      · simp [he]
      · simp [hc, hh]
    obtain ⟨err, e⟩ := prepareWrite_of_not_writable hw len ch
    exact ⟨err, congrArg Prod.snd e⟩
  · unfold prepareEnd
    by_cases hc : (!y.inner.connected) = true
    · rw [if_pos hc]
      exact ⟨_, rfl⟩
    · rcases h.shut with he | ⟨hc', -⟩
      · rw [if_neg hc, if_pos he]
        exact ⟨_, rfl⟩
      · rw [hc'] at hc
        exact absurd rfl hc

theorem ended_stepRule : StepRule (fun _ _ _ => True) (fun _ _ => True)
    (fun y => y.inner.ended = true ∧ y.inner.pendingWrites = []) where
  gate _ _ _ _ h := h
  proc _ _ h := h
  hookTaken _ h := h
  hookAccepted _ _ h := h
  relay y data dest _ h := relay_ind y data dest fun _ _ _ => h
  ackSack y h data ctx _ _ _ hJ := by
    refine ⟨(congrArg Rest.ended (onAckSack_rest y.inner h data ctx)).trans hJ.1, ?_⟩
    cases ha : y.inner.accepts h with
    | false => exact (onAckSack_of_not y.inner h data ctx ha).1.trans hJ.2
    | true =>
      refine (onAckSack_of_accepts y.inner h data ctx ha).1.trans ?_
      rw [hJ.2]
      rfl
  data y h data _ _ hJ := data_ind y h data fun _ _ _ _ => hJ
  destroy _ _ _ _ _ _ h := h
  heartbeat _ _ h := h
  pacing y shuttingDown now hJ := by
    have f : FlushRule (fun y => y.inner.ended = true ∧ y.inner.pendingWrites = []) :=
      ⟨fun _ _ _ h => h, fun z q rest now _ h =>
        ⟨(congrArg Rest.ended (sendOne_rest { z.inner with sendQueue := rest } q now)).trans h.1,
          (sendOne_pending { z.inner with sendQueue := rest } q now).1.trans h.2⟩⟩
    exact f.onPacing y shuttingDown now hJ
  rto y now h := by
    refine ⟨(congrArg Rest.ended (onRto_rest y.inner now)).trans h.1, List.eq_nil_iff_forall_not_mem.mpr fun w hw => ?_⟩
    have hm := (onRto_pending y.inner now).2 w hw
    rw [h.2] at hm
    cases hm
  keepalive _ h := h
  finish _ h := ⟨h.1, rfl⟩
  start y registered h := y.start_ind registered fun _ _ => h
  connect _ _ _ h := h
  hook _ _ _ h := h
  write y data h := y.write_ind data h fun _ ho _ => absurd (h.1.symm.trans ho) (by decide)
  shutdown y h := y.shutdown_ind h ⟨rfl, h.2⟩ fun _ _ _ ho _ => absurd (h.1.symm.trans ho) (by decide)
  cut y i h := y.cut_ind i h fun _ _ _ => h
  queue y i now h := y.queue_ind i now h fun _ _ _ _ _ _ _ => h
  relayTo _ h := h
  kill _ h := ⟨h.1, rfl⟩

/-- A disconnected stream without hook and processor changes only by calls that open it again. -/
theorem step_disconnected (hp : y.inner.pendingWrites = []) (hc : y.inner.connected = false)
    (hh : y.inner.firewallHook = none) (hr : y.proc.running = false) (e : Ev) (he : reopens e = false) :
    (y.step e).inner.pendingWrites = [] ∧ (y.step e).inner.connected = false ∧ (y.step e).inner.firewallHook = none ∧
      (y.step e).proc.running = false ∧ (y.step e).inner.ended = y.inner.ended := by
  have hsame : y.inner.pendingWrites = [] ∧ y.inner.connected = false ∧ y.inner.firewallHook = none ∧
      y.proc.running = false ∧ y.inner.ended = y.inner.ended := ⟨hp, hc, hh, hr, rfl⟩
  cases e with
  | connect id addr registered | setFirewallHook id hook registered => cases he
  | relayTo => exact hsame
  | write data => simpa [Sys.step, Sys.write, prepareWrite, hc, hh] using hsame
  | shutdown => simpa [Sys.step, shutdown, prepareEnd, hc] using hsame
  | cut i =>
    rw [Sys.step]
    unfold cut
    split <;> [split; skip] <;> exact hsame
  | queue i now =>
    rw [Sys.step]
    unfold queue
    split <;> [split; skip] <;> try exact hsame
    split <;> exact hsame
  | proc e ctx => simpa [Sys.step, procTurn, hr] using hsame
  | destroy => exact ⟨rfl, rfl, hh, rfl, rfl⟩

theorem Closed.step (h : Closed y) (e : Ev) (he : y.inner.ended = true ∨ reopens e = false) :
    Closed (y.step e) ∧ (y.step e).inner.ended = y.inner.ended := by
  cases hend : y.inner.ended with
  | true =>
    have h' := ended_stepRule.step y e (fun _ _ => ⟨trivial, trivial⟩) ⟨hend, h.pending⟩
    exact ⟨⟨h'.2, .inl h'.1⟩, h'.1⟩
  | false =>
    rw [hend] at he
    obtain ⟨hc, hh, hr⟩ := h.shut.resolve_left (by simp [hend])
    obtain ⟨h₁, h₂, h₃, h₄, h₅⟩ := step_disconnected h.pending hc hh hr e (he.resolve_left (by simp))
    exact ⟨⟨h₁, .inr ⟨h₂, h₃, h₄⟩⟩, h₅.trans hend⟩

/-! ## Listening -/

def HookSocket (y : Sys) : Prop := y.inner.firewallHook.isSome = true → y.inner.udp = true

theorem hookSocket_flagRule : FlagRule HookSocket where
  same h hf _ := by
    intro hs
    exact (congrArg Flags.udp hf).trans (h ((congrArg (Option.isSome ∘ Flags.firewallHook) hf).symm.trans hs))
  hookTaken _ _ := fun hs => by cases hs
  hookAccepted _ _ _ := fun hs => by cases hs
  close _ h := h
  connect _ _ _ := fun _ => rfl
  hook _ _ _ := fun _ => rfl
  write y data h := y.write_ind data h fun _ _ _ => h
  shutdown y h := y.shutdown_ind h h fun _ _ _ _ _ => h
  stage _ _ _ _ _ h := h

theorem hookSocket_after (es : List Ev) : HookSocket (after es) :=
  hookSocket_flagRule.stepRule.after (fun hs => by cases hs) es

/-! ## For good -/

theorem not_refuses (hw : y.inner.writable = true) : ¬ Refuses y := by
  intro h
  obtain ⟨prep, hp⟩ := prepareWrite_of_writable hw 0 0
  obtain ⟨err, herr⟩ := h.1 0 0
  rw [hp] at herr
  cases herr

theorem not_refuses_of_reopens (hr : reopens e = true) (he : y.inner.ended = false) :
    ¬ Refuses (y.step e) := by
  have hstart : ∀ (z : Sys) registered, (z.startProcessor registered).inner = z.inner := by
    intro z registered
    unfold startProcessor
    split <;> rfl
  cases e with
  | connect id addr registered =>
    refine not_refuses ?_
    rw [Sys.step, Sys.connect, hstart]
    simp [writable, he]
  | setFirewallHook id hook registered =>
    refine not_refuses ?_
    rw [Sys.step, Sys.setFirewallHook, hstart]
    simp [writable, he]
  | _ => cases hr

theorem visits_head {es : List Ev} (h : Visits Sys.step Refuses y es) : Refuses y := by
  cases es with
  | nil => exact h
  | cons e es => exact h.1

/-- A closed stream refuses along a run just when nothing opens it again, or it has ended. -/
theorem Closed.visits_iff (h : Closed y) (later : List Ev) :
    Visits Sys.step Refuses y later ↔ y.inner.ended = true ∨ ∀ e ∈ later, reopens e = false := by
  induction later generalizing y with
  | nil =>
    refine ⟨fun _ => .inr fun e' he' => ?_, fun _ => h.refuses⟩
    cases he'
  | cons e later ih =>
    show Refuses y ∧ _ ↔ _
    by_cases he : y.inner.ended = true ∨ reopens e = false
    · obtain ⟨hc, hend⟩ := h.step e he
      rw [ih hc, hend, and_iff_right h.refuses, List.forall_mem_cons]
      tauto
    · rw [not_or, Bool.not_eq_true, Bool.not_eq_false] at he
      refine iff_of_false (fun hv => not_refuses_of_reopens he.2 he.1 (visits_head hv.2)) ?_
      rw [he.1, List.forall_mem_cons, he.2]
      simp

/-- **Terminated streams.** Whatever state `terminate` runs in, every later write and shutdown is refused and no write is
left waiting if and only if the stream had ended, or no firewall hook was armed and it is not opened again. -/
theorem terminate_final (es : List Ev) (e : Ev) (ht : (after es).terminates e = true) (later : List Ev) :
    Visits Sys.step Refuses ((after es).step e) later ↔
      ((after es).atTerminate e).ended = true ∨
      ((after es).atTerminate e).firewallHook = none ∧ ∀ e' ∈ later, reopens e' = false := by
  obtain ⟨hinner, hr⟩ := terminates_spec ht
  have hsock : HookSocket ((after es).step e) :=
    hookSocket_flagRule.stepRule.step _ e (fun _ _ => ⟨trivial, trivial⟩) (hookSocket_after es)
  generalize (after es).step e = y at hinner hr hsock ⊢
  have hc : y.inner.connected = false := by rw [hinner]
  have hp : y.inner.pendingWrites = [] := by rw [hinner]
  have he : y.inner.ended = ((after es).atTerminate e).ended := by rw [hinner]
  have hf : y.inner.firewallHook = ((after es).atTerminate e).firewallHook := by rw [hinner]
  rw [← he, ← hf]
  cases hend : y.inner.ended with
  | true =>
    have hclosed : Closed y := ⟨hp, .inl hend⟩
    exact ⟨fun _ => .inl rfl, fun _ => (hclosed.visits_iff later).mpr (.inl hend)⟩
  | false =>
    cases hh : y.inner.firewallHook with
    | none =>
      have hclosed : Closed y := ⟨hp, .inr ⟨hc, hh, hr⟩⟩
      rw [hclosed.visits_iff later, hend]
      simp
    | some hook =>
      -- a listening stream still takes writes
      have hu : y.inner.udp = true := hsock (by rw [hh]; rfl)
      have hw : y.inner.writable = true := by simp [writable, hh, hend, hu]
      refine ⟨fun hv => absurd (visits_head hv) (not_refuses hw), fun hor => ?_⟩
      rcases hor with hor | ⟨hor, -⟩ <;> cases hor

/-- A connected stream whose processor has ended refuses a write and a shutdown. -/
theorem terminate_final_connected :
    Visits Sys.step Refuses ((after [.connect 1 loopback true]).step (.proc .incomingClosed {})) [.write [1], .shutdown] :=
  (terminate_final [.connect 1 loopback true] (.proc .incomingClosed {}) (by decide) _).mpr (.inr ⟨rfl, by decide⟩)

/-- A listening stream that has sent a packet into nowhere is terminated by the sixth retransmission timeout; a later
write is taken and waits for ever. -/
theorem terminate_final_listening :
    let run : List Ev := .setFirewallHook 1 (fun _ => true) true :: writeNow [1] 0 ++
      .proc .pacing {} :: List.replicate 5 (.proc .rto {})
    (after run).terminates (.proc .rto {}) = true ∧
    (after (run ++ [.proc .rto {}])).proc.running = false ∧
    (((after (run ++ [.proc .rto {}])).inner.prepareWrite 1 1).2.toOption).isSome = true ∧
    (after (run ++ [.proc .rto {}, .write [2]])).inner.pendingWrites ≠ [] := by
  decide

end Peeroxide.Udx
