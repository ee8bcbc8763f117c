import Mathlib.Algebra.Order.BigOperators.Group.Finset
import Peeroxide.Dht.IoSpec

/-!
# The congestion window holds

Creation and the queue look at the window before they send, retries do not. The window holds in just those runs in which
every call of `checkTimeouts` finds room for all requests that it sends again.

Main results: `congestion_gated`, `congestion_exceeded`.
-/

namespace Peeroxide.Dht
open Lib List

theorem i32_eq {x : Int} (h₁ : -2147483648 ≤ x) (h₂ : x < 2147483648) : i32 x = x := by
  unfold i32
  omega

namespace CongestionWindow

/-- The total is that of the quarters, none of them exceeds the window, and the total not twice the window. -/
structure Bounded (w : Int) (c : CongestionWindow) : Prop where
  max : c.maxWindow = w
  sum : c.total = ∑ j, c.window j
  quarter : ∀ j, 0 ≤ c.window j ∧ c.window j ≤ w
  total : c.total ≤ 2 * w

variable {w : Int} {c : CongestionWindow}

theorem sum_update (f : Fin 4 → Int) (i : Fin 4) (v : Int) : ∑ j, Function.update f i v j = ∑ j, f j - f i + v := by
  rw [Finset.sum_update_of_mem (Finset.mem_univ i), ← Finset.add_sum_erase Finset.univ f (Finset.mem_univ i),
    Finset.sdiff_singleton_eq_erase]
  ring

section
variable (h : Bounded w c)
include h

theorem Bounded.total_nonneg : 0 ≤ c.total := by
  rw [h.sum]
  exact Finset.sum_nonneg fun j _ => (h.quarter j).1

theorem Bounded.set (hw : w < 1073741824) (j : Fin 4) {v t : Int} (hv : 0 ≤ v ∧ v ≤ w)
    (ht : t = c.total - c.window j + v) (hle : t ≤ 2 * w) (i : Fin 4) :
    Bounded w { c with i := i, total := i32 t, window := Function.update c.window j v } := by
  have hsum : t = ∑ k, Function.update c.window j v k := by
    rw [sum_update, ← h.sum]
    exact ht
  have hquarter : ∀ k, 0 ≤ Function.update c.window j v k ∧ Function.update c.window j v k ≤ w := by
    intro k
    by_cases hk : k = j
    · rw [hk, Function.update_self]
      exact hv
    · rw [Function.update_of_ne hk]
      exact h.quarter k
  have ht0 : 0 ≤ t := by
    rw [hsum]
    exact Finset.sum_nonneg fun k _ => (hquarter k).1
  have hi32 : i32 t = t := i32_eq (by omega) (by omega)
  exact ⟨h.max, by rw [hi32]; exact hsum, hquarter, by rw [hi32]; exact hle⟩

theorem Bounded.recv (hw : w < 1073741824) : Bounded w c.recv := by
  unfold CongestionWindow.recv
  split
  next hpos =>
    have := h.quarter c.i
    have := h.total
    exact h.set hw c.i ⟨by omega, by omega⟩ (by omega) (by omega) c.i
  · exact h

theorem Bounded.drain (hw : w < 1073741824) : Bounded w c.drain := by
  have := h.quarter (c.i + 1)
  have := h.total
  exact h.set hw (c.i + 1) ⟨le_rfl, by omega⟩ (by omega) (by omega) (c.i + 1)

theorem Bounded.isFull_eq (hw₀ : 0 ≤ w) (hw : w < 1073741824) :
    c.isFull = false ↔ c.total < 2 * w ∧ c.window c.i < w := by
  unfold isFull
  rw [h.max, i32_eq (by omega) (by omega), Bool.or_eq_false_iff, decide_eq_false_iff_not, decide_eq_false_iff_not,
    not_le, not_le]

theorem Bounded.send (hw₀ : 0 ≤ w) (hw : w < 1073741824) (hroom : c.isFull = false) :
    Bounded w c.send ∧ c.send.total = c.total + 1 ∧ c.send.window c.send.i = c.window c.i + 1 := by
  obtain ⟨ht, hq⟩ := (h.isFull_eq hw₀ hw).mp hroom
  have hnonneg := h.total_nonneg
  have hquarter := h.quarter c.i
  have hi32 : i32 (c.window c.i + 1) = c.window c.i + 1 := i32_eq (by omega) (by omega)
  refine ⟨?_, i32_eq (by omega) (by omega), ?_⟩
  · exact h.set hw c.i ⟨by omega, by omega⟩ (by omega) (by omega) c.i
  · show Function.update c.window c.i (i32 (c.window c.i + 1)) c.i = _
    rw [Function.update_self, hi32]

end

def Fits (c : CongestionWindow) (m : Nat) : Prop :=
  m = 0 ∨ c.total + m ≤ 2 * c.maxWindow ∧ c.window c.i + m ≤ c.maxWindow

theorem Bounded.fits_succ (h : Bounded w c) (hw₀ : 0 ≤ w) (hw : w < 1073741824) (m : Nat) :
    c.Fits (m + 1) ↔ c.isFull = false ∧ c.send.Fits m := by
  unfold Fits
  rw [h.isFull_eq hw₀ hw]
  constructor
  · rintro (h0 | ⟨ht, hq⟩)
    · cases h0
    · rw [h.max] at ht hq
      have hroom : c.isFull = false := (h.isFull_eq hw₀ hw).mpr ⟨by omega, by omega⟩
      obtain ⟨hb, htotal, hwindow⟩ := h.send hw₀ hw hroom
      rw [hb.max]
      constructor <;> omega
  · rintro ⟨⟨ht, hq⟩, hrest⟩
    obtain ⟨hb, htotal, hwindow⟩ := h.send hw₀ hw ((h.isFull_eq hw₀ hw).mpr ⟨ht, hq⟩)
    rw [hb.max] at hrest
    rw [h.max]
    right
    rcases hrest with rfl | hrest
    · constructor <;> omega
    · constructor <;> omega

end CongestionWindow

namespace Io
variable {io : Io} {w : Int}

/-- Every transmission was made when the window was not full. -/
def Gated (io : Io) : Prop := ∀ x ∈ io.log, x.full = false

theorem gated_append {io io' : Io} {x : Transmission} (h : io'.log = io.log ++ [x]) :
    Gated io' ↔ Gated io ∧ x.full = false := by
  unfold Gated
  rw [h, forall_mem_append, forall_mem_singleton]

theorem sendInflightAt_log {idx : Nat} {e : InflightEntry} (h : io.inflight[idx]? = some e) :
    (io.sendInflightAt idx).log = io.log ++ [⟨e.serial, e.retries, io.congestion.isFull⟩] ∧
    (io.sendInflightAt idx).congestion = io.congestion.send := by
  rw [sendInflightAt_eq h]
  exact ⟨rfl, rfl⟩

theorem retryAt_log {idx : Nat} {e : InflightEntry} (h : io.inflight[idx]? = some e) :
    (io.retryAt idx).log = io.log ++ [⟨e.serial, e.retries, io.congestion.isFull⟩] ∧
    (io.retryAt idx).congestion = io.congestion.send := by
  have hget : ({ io with stats := { io.stats with retries := io.stats.retries + 1 } } : Io).inflight[idx]? = some e := h
  exact sendInflightAt_log hget

theorem sendInflightAt_extends (io : Io) (idx : Nat) : io.log <+: (io.sendInflightAt idx).log := by
  unfold sendInflightAt
  split
  · exact prefix_refl _
  · exact prefix_append _ _

theorem retryAt_extends (io : Io) (idx : Nat) : io.log <+: (io.retryAt idx).log :=
  sendInflightAt_extends { io with stats := { io.stats with retries := io.stats.retries + 1 } } idx

theorem retries_extends (io : Io) (idxs : List Nat) : io.log <+: (idxs.foldl retryAt io).log :=
  idxs.foldlRecOn _ (motive := fun io' => io.log <+: io'.log) (prefix_refl _) fun io' h i _ =>
    h.trans (retryAt_extends io' i)

theorem drainPending_prefix (io : Io) (queue : List UInt16) : io.log <+: (io.drainPending queue).log := by
  induction queue generalizing io with
  | nil => exact prefix_refl _
  | cons tid rest ih =>
    unfold drainPending
    split
    · exact prefix_refl _
    · split
      · exact (sendInflightAt_extends io _).trans (ih _)
      · exact ih io

theorem step_extends (io : Io) (op : Op) : io.log <+: (io.step op).log := by
  cases op with
  | createRequest t params =>
    have hcreated := createRequest_created io t params
    show io.log <+: (io.createRequest t params).2.log
    generalize io.createRequest t params = r at hcreated
    cases hcreated with
    | sent e => exact sendInflightAt_extends (io.tracked params.toPeer e) _
    | _ => exact prefix_refl _
  | sendRequestViaSocket t params accepted =>
    have hsent := sendRequestViaSocket_sentVia io t params accepted
    show io.log <+: (io.sendRequestViaSocket t params accepted).2.log
    generalize io.sendRequestViaSocket t params accepted = r at hsent
    cases hsent with
    | sent => exact prefix_append _ _
    | _ => exact prefix_refl _
  | relay toPeer preserveTid =>
    show io.log <+: (io.relay toPeer preserveTid).log
    rcases relay_cases io toPeer preserveTid with heq | heq
    · rw [heq]
    · rw [heq]
      exact prefix_refl _
  | drain => exact drainPending_prefix { io with congestion := io.congestion.drain } io.pending
  | checkTimeouts =>
    exact checkTimeouts_rule (I := fun io' => io.log <+: io'.log) (fun _ h => h)
      (fun io' i _ h _ _ => h.trans (retryAt_extends io' i)) (fun _ _ _ h _ => h) (prefix_refl _)
  | datagram data addr kind tokenValid =>
    have hprocessed := processDatagram_processed io data addr kind tokenValid
    show io.log <+: (io.processDatagram data addr kind tokenValid).2.log
    generalize io.processDatagram data addr kind tokenValid = r at hprocessed
    cases hprocessed with
    | _ => exact prefix_refl _

theorem Gated.of_prefix {io io' : Io} (h : Gated io') (hp : io.log <+: io'.log) : Gated io :=
  fun x hx => h x (hp.subset hx)

/-! ## The calls -/

abbrev Within (w : Int) (io : Io) : Prop := io.congestion.Bounded w

def dueRetries (io : Io) : Nat := io.inflight.countP fun e => decide (e.deadline ≤ io.now ∧ e.sent ≤ e.retries)

theorem length_retryIndices (io : Io) : (io.retryIndices io.now).length = io.dueRetries := by
  unfold retryIndices due dueRetries
  rw [length_map, filter_filter, ← countP_eq_length_filter]
  conv_rhs => rw [← zipIdx_map_fst 0 io.inflight, countP_map]
  refine countP_congr fun p _ => ?_
  simp only [Function.comp_apply, Bool.and_eq_true, Bool.not_eq_true', decide_eq_false_iff_not, decide_eq_true_eq,
    UInt32.not_lt]
  exact and_comm

section
variable (hw₀ : 0 ≤ w) (hw : w < 1073741824)
include hw₀ hw

theorem send_gated (h : Within w io) {idx : Nat} {e : InflightEntry} (hget : io.inflight[idx]? = some e)
    (hroom : io.congestion.isFull = false) :
    (Gated (io.sendInflightAt idx) ↔ Gated io) ∧ Within w (io.sendInflightAt idx) := by
  obtain ⟨hlog, hcong⟩ := sendInflightAt_log hget
  refine ⟨?_, ?_⟩
  · rw [gated_append hlog]
    exact and_iff_left hroom
  · rw [Within, hcong]
    exact (h.send hw₀ hw hroom).1

theorem drainPending_gated (h : Within w io) (queue : List UInt16) :
    (Gated (io.drainPending queue) ↔ Gated io) ∧ Within w (io.drainPending queue) := by
  induction queue generalizing io with
  | nil => exact ⟨Iff.rfl, h⟩
  | cons tid rest ih =>
    unfold drainPending
    split
    · exact ⟨Iff.rfl, h⟩
    next hroom =>
      split
      next idx hpos =>
        obtain ⟨e, hget, -⟩ := position_eq_some hpos
        obtain ⟨hgated, hwithin⟩ := send_gated hw₀ hw h hget (Bool.eq_false_iff.mpr hroom)
        obtain ⟨hgated', hwithin'⟩ := ih hwithin
        exact ⟨hgated'.trans hgated, hwithin'⟩
      · exact ih h

theorem create_gated (h : Within w io) (t : RoutingTable) (params : RequestParams) :
    (Gated (io.createRequest t params).2 ↔ Gated io) ∧ Within w (io.createRequest t params).2 := by
  have hcreated := createRequest_created io t params
  generalize io.createRequest t params = r at hcreated
  cases hcreated with
  | sent e he hd hroom =>
    have htracked : Within w (io.tracked params.toPeer e) := h
    exact send_gated hw₀ hw htracked (getElem?_tracked io params.toPeer e) hroom
  | _ => exact ⟨Iff.rfl, h⟩

/-- The retries of one call are all made within the window just when there is room for all of them. -/
theorem retries_gated (h : Within w io) {idxs : List Nat} (hnodup : idxs.Nodup)
    (hidxs : ∀ i ∈ idxs, ∃ e, io.inflight[i]? = some e) :
    (Gated (idxs.foldl retryAt io) ↔ Gated io ∧ io.congestion.Fits idxs.length) ∧
    (io.congestion.Fits idxs.length → Within w (idxs.foldl retryAt io)) := by
  induction idxs generalizing io with
  | nil => exact ⟨(and_iff_left (.inl rfl)).symm, fun _ => h⟩
  | cons i idxs ih =>
    obtain ⟨hi, hnodup⟩ := nodup_cons.mp hnodup
    obtain ⟨e, hget⟩ := hidxs i mem_cons_self
    obtain ⟨hlog, hcong⟩ := retryAt_log hget
    have hothers : ∀ j ∈ idxs, ∃ e, (io.retryAt i).inflight[j]? = some e := by
      intro j hj
      have hne : j ≠ i := fun hji => hi (hji ▸ hj)
      rw [retryAt, getElem?_sendInflightAt hne]
      exact hidxs j (mem_cons_of_mem i hj)
    rw [foldl_cons, length_cons, h.fits_succ hw₀ hw]
    by_cases hroom : io.congestion.isFull = false
    · have hwithin : Within w (io.retryAt i) := by
        rw [Within, hcong]
        exact (h.send hw₀ hw hroom).1
      obtain ⟨hgated, hfits⟩ := ih hwithin hnodup hothers
      rw [hcong] at hgated hfits
      have hone : Gated (io.retryAt i) ↔ Gated io := (gated_append hlog).trans (and_iff_left hroom)
      exact ⟨by rw [hgated, hone, and_iff_right hroom], fun hf => hfits hf.2⟩
    · refine ⟨⟨fun hgated => ?_, fun hf => absurd hf.2.1 hroom⟩, fun hf => absurd hf.1 hroom⟩
      -- the first retry is made with the window full
      have hfirst : Gated (io.retryAt i) := hgated.of_prefix (retries_extends _ idxs)
      exact absurd ((gated_append hlog).mp hfirst).2 hroom

def RetriesFit (io : Io) : Op → Prop
  | .checkTimeouts => io.congestion.Fits io.dueRetries
  | _ => True

def Op.own : Op → Bool
  | .sendRequestViaSocket .. => false
  | _ => true

theorem checkTimeouts_gated (h : Within w io) :
    (Gated io.checkTimeouts.2 ↔ Gated io ∧ io.congestion.Fits io.dueRetries) ∧
    (io.congestion.Fits io.dueRetries → Within w io.checkTimeouts.2) := by
  have hclock : Within w io.readClock := h
  obtain ⟨hgated, hfits⟩ := retries_gated hw₀ hw hclock (nodup_retryIndices io io.now) fun i hi => by
    obtain ⟨e, hget, -⟩ := mem_retryIndices.mp hi
    exact ⟨e, hget⟩
  rw [length_retryIndices] at hgated hfits
  constructor
  · have hlog : io.checkTimeouts.2.log = ((io.retryIndices io.now).foldl retryAt io.readClock).log :=
      timeOutAll_rule (I := fun io' => io'.log = ((io.retryIndices io.now).foldl retryAt io.readClock).log)
        (fun _ _ _ h _ => h) rfl _
    rw [Gated, hlog]
    exact hgated
  · exact fun hf => timeOutAll_rule (fun _ _ _ h _ => h.recv hw) (hfits hf) _

theorem step_gated (h : Within w io) (op : Op) (hop : op.own = true) :
    (Gated (io.step op) ↔ Gated io ∧ RetriesFit io op) ∧ (RetriesFit io op → Within w (io.step op)) := by
  have hquiet : ∀ io', (Gated io' ↔ Gated io) ∧ Within w io' →
      (Gated io' ↔ Gated io ∧ True) ∧ (True → Within w io') :=
    fun _ h => ⟨h.1.trans (and_iff_left trivial).symm, fun _ => h.2⟩
  cases op with
  | createRequest t params => exact hquiet _ (create_gated hw₀ hw h t params)
  | sendRequestViaSocket => cases hop
  | relay toPeer preserveTid =>
    refine hquiet _ ?_
    show (Gated (io.relay toPeer preserveTid) ↔ _) ∧ Within w (io.relay toPeer preserveTid)
    rcases relay_cases io toPeer preserveTid with heq | heq
    · rw [heq]
      exact ⟨Iff.rfl, h⟩
    · rw [heq]
      exact ⟨Iff.rfl, h⟩
  | drain =>
    have hrotated : Within w { io with congestion := io.congestion.drain } := h.drain hw
    exact hquiet _ (drainPending_gated hw₀ hw hrotated io.pending)
  | checkTimeouts => exact checkTimeouts_gated hw₀ hw h
  | datagram data addr kind tokenValid =>
    refine hquiet _ ?_
    have hprocessed := processDatagram_processed io data addr kind tokenValid
    show (Gated (io.processDatagram data addr kind tokenValid).2 ↔ _) ∧
      Within w (io.processDatagram data addr kind tokenValid).2
    generalize io.processDatagram data addr kind tokenValid = r at hprocessed
    cases hprocessed with
    | ignored | request => exact ⟨Iff.rfl, h⟩
    | response => exact ⟨Iff.rfl, h.recv hw⟩

/-! ## Runs -/

theorem run_gated (h : Within w io) {ops : List Op} (hops : ∀ op ∈ ops, op.own = true) :
    (Gated (run step io ops) ↔ Gated io ∧ Along step RetriesFit io ops) ∧
    (Along step RetriesFit io ops → Visits step (Within w) io ops) := by
  induction ops generalizing io with
  | nil => exact ⟨(and_iff_left trivial).symm, fun _ => h⟩
  | cons op ops ih =>
    obtain ⟨hop, hops⟩ := forall_mem_cons.mp hops
    obtain ⟨hgated, hwithin⟩ := step_gated hw₀ hw h op hop
    refine ⟨⟨fun hrun => ?_, fun hf => ?_⟩, fun hf => ⟨h, (ih (hwithin hf.1) hops).2 hf.2⟩⟩
    · have hstep : Gated (io.step op) := by
        refine hrun.of_prefix ?_
        exact run_invariant (I := fun io' => (io.step op).log <+: io'.log) (fun io' op' h => h.trans (step_extends io' op'))
          (prefix_refl _) ops
      obtain ⟨hio, hfit⟩ := hgated.mp hstep
      exact ⟨hio, hfit, ((ih (hwithin hfit) hops).1.mp hrun).2⟩
    · exact (ih (hwithin hf.2.1) hops).1.mpr ⟨hgated.mpr ⟨hf.1, hf.2.1⟩, hf.2.2⟩

end

theorem within_bind {maxWindow : Nat} (hw : maxWindow < 1073741824) (firewalled ephemeral : Bool) (tid : UInt16)
    (clock : Nat → Nat) : Within maxWindow (bind maxWindow firewalled ephemeral tid clock) := by
  refine ⟨i32_eq (by omega) (by omega), ?_, fun _ => ⟨le_rfl, Int.natCast_nonneg _⟩, ?_⟩
  · exact Finset.sum_const_zero.symm
  · show (0 : Int) ≤ 2 * maxWindow
    omega

/-- **Every transmission is made while the window is not full, and the window's limits hold all along, in just those runs
in which every call of `checkTimeouts` finds room for all the requests that it sends again.** -/
theorem congestion_gated (maxWindow : Nat) (hw : maxWindow < 2 ^ 30) (firewalled ephemeral : Bool) (tid : UInt16)
    (clock : Nat → Nat) (ops : List Op) (hops : ∀ op ∈ ops, op.own = true) :
    let io := bind maxWindow firewalled ephemeral tid clock
    ((∀ x ∈ (run step io ops).log, x.full = false) ∧
      Visits step (fun io => io.congestion.total ≤ 2 * maxWindow ∧ ∀ j, io.congestion.window j ≤ maxWindow) io ops) ↔
    Along step RetriesFit io ops := by
  have hstart := within_bind hw firewalled ephemeral tid clock
  have hempty : Gated (bind maxWindow firewalled ephemeral tid clock) := fun _ h => absurd h not_mem_nil
  obtain ⟨hgated, hvisits⟩ := run_gated (Int.natCast_nonneg maxWindow) (by omega) hstart hops
  constructor
  · exact fun h => (hgated.mp h.1).2
  · exact fun h => ⟨hgated.mpr ⟨hempty, h⟩, (hvisits h).imp fun _ hb => ⟨hb.total, fun j => (hb.quarter j).2⟩⟩

/-- One request under a window of one, sent once. -/
theorem congestion_gated_once : let io := bind 1 true true 0 fun n => 1000 * n
    let ops := [Op.createRequest (.new (.fill 0)) ⟨⟨"10.0.0.1", 1⟩, none, true, 0, none, none, none, none⟩, .drain]
    ∀ x ∈ (run step io ops).log, x.full = false := by
  intro io ops
  have h := congestion_gated 1 (by decide) true true 0 (fun n => 1000 * n) ops (by decide)
  exact (h.mpr ⟨trivial, trivial, trivial⟩).1

/-- Two requests under a window of one: the second is queued, and both are sent when their deadlines have passed. -/
theorem congestion_exceeded :
    let ping := fun host : String => Op.createRequest (.new (.fill 0)) ⟨⟨host, 1⟩, none, true, 0, none, none, none, none⟩
    let io := run step (bind 1 true true 0 fun n => 1000 * n) [ping "10.0.0.1", ping "10.0.0.2", .checkTimeouts]
    (∃ x ∈ io.log, x.full = true) ∧ io.congestion.total = 3 ∧ io.congestion.window 0 = 3 := by
  refine ⟨⟨⟨1, 3, true⟩, ?_⟩, ?_⟩ <;> decide +kernel

end Io
end Peeroxide.Dht
