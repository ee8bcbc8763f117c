import Peeroxide.DeadDrop.Queue
import Peeroxide.Lib.Assoc
import Peeroxide.Lib.Machine

/-!
# What the work queue owes to those who wait

The calls on the queue in any order, where a put is marked as done once for each chunk that was popped. Every operation
has a counter of the chunks it still waits for, and a subscriber counts it down when its chunk is put.

Main result: `work_queue_correct`.
-/

namespace Peeroxide.DeadDrop
open Lib List Assoc Option

namespace WorkQueue
variable {α σ : Type} {q : WorkQueue α σ}

def laneOf (queued : AList fun _ : ChunkId => QueueEntry α σ) (id : ChunkId) : Option Lane :=
  (queued.lookup id).map (·.lane)

/-- A chunk is queued or in flight, the high deque holds just the ids queued there, and the normal one at least its own:
an id that was moved up stays behind in it. -/
structure Inv (q : WorkQueue α σ) : Prop where
  disjoint : ∀ id, q.inflight.lookup id = none ∨ q.queued.lookup id = none
  nodup : q.high.Nodup
  high_iff : ∀ id, id ∈ q.high ↔ laneOf q.queued id = some .high
  normal : ∀ id, laneOf q.queued id = some .normal → id ∈ q.normal

theorem Inv.enqueue (h : q.Inv) (id : ChunkId) (unit : α) (lane : Lane) (sub : σ) : (q.enqueue id unit lane sub).Inv := by
  obtain ⟨hdisjoint, hnodup, hhigh, hnormal⟩ := h
  unfold WorkQueue.enqueue
  split
  · constructor <;> grind
  split
  · split_ifs <;> constructor <;> grind [laneOf]
  · cases lane <;> constructor <;> grind [laneOf]

theorem mem_inflight_enqueue (q : WorkQueue α σ) (id : ChunkId) (unit : α) (lane : Lane) (sub : σ) (x : ChunkId) :
    x ∈ (q.enqueue id unit lane sub).inflight ↔ x ∈ q.inflight := by
  unfold enqueue
  grind

theorem nextNormal_cases (queued : AList fun _ : ChunkId => QueueEntry α σ) (ids : List ChunkId) :
    (∃ id entry rest, nextNormal queued ids = (some (id, entry), rest) ∧ queued.lookup id = some entry ∧
      ∀ x ≠ id, laneOf queued x = some .normal → x ∈ ids → x ∈ rest) ∨
    ∃ rest, nextNormal queued ids = (none, rest) ∧ ∀ x, laneOf queued x = some .normal → x ∉ ids := by
  induction ids with
  | nil => exact .inr ⟨[], rfl, by simp⟩
  | cons first ids ih =>
    unfold nextNormal
    split
    next e he =>
      split_ifs
      · grind [laneOf]
      · exact .inl ⟨first, e, ids, rfl, he, by grind⟩
    · grind [laneOf]

/-- What a pop does: it takes nothing only where nothing is queued, and the normal lane waits for the other. -/
theorem pop_spec (h : q.Inv) : q.pop.2.Inv ∧
    ((∀ id, q.queued.lookup id = none) ∧ q.pop.1 = none ∧ q.pop.2.queued = q.queued ∧ q.pop.2.inflight = q.inflight ∨
    ∃ id entry, q.queued.lookup id = some entry ∧ q.pop.1 = some (id, entry.unit, entry.subs) ∧
      q.pop.2.queued = q.queued.erase id ∧ q.pop.2.inflight = q.inflight.insert id entry.subs ∧
      (entry.lane = .normal → ∀ x, laneOf q.queued x ≠ some .high)) := by
  obtain ⟨hdisjoint, hnodup, hhigh, hnormal⟩ := h
  unfold pop
  cases hq : q.high with
  | cons id ids =>
    obtain ⟨entry, hentry, hlane⟩ := map_eq_some_iff.mp ((hhigh id).mp (by simp [hq]))
    simp only [nextHigh, hentry]
    refine ⟨?_, .inr ⟨id, entry, hentry, rfl, rfl, rfl, by simp [hlane]⟩⟩
    constructor <;> grind [laneOf, start]
  | nil =>
    have hlow : ∀ x, laneOf q.queued x ≠ some .high := by grind
    rcases nextNormal_cases q.queued q.normal with ⟨id, entry, rest, hnext, hentry, hrest⟩ | ⟨rest, hnext, hnone⟩
    · simp only [nextHigh, hnext]
      refine ⟨?_, .inr ⟨id, entry, hentry, rfl, rfl, rfl, fun _ => hlow⟩⟩
      constructor <;> grind [laneOf, start]
    · have hempty : ∀ x, q.queued.lookup x = none := by
        intro x
        cases hx : q.queued.lookup x with
        | none => rfl
        | some e =>
          have hlane : laneOf q.queued x = some e.lane := by rw [laneOf, hx, map_some]
          cases he : e.lane <;> grind
      simp only [nextHigh, hnext]
      refine ⟨?_, .inl ⟨hempty, trivial, trivial, trivial⟩⟩
      constructor <;> grind

section
variable [DecidableEq σ]

/-- How often `x` waits for a chunk. -/
def waiting (q : WorkQueue α σ) (x : σ) : Nat :=
  Assoc.total (fun entry => entry.subs.count x) q.queued + Assoc.total (fun subs => subs.count x) q.inflight

theorem waiting_enqueue (q : WorkQueue α σ) (id : ChunkId) (unit : α) (lane : Lane) (sub x : σ) :
    (q.enqueue id unit lane sub).waiting x = q.waiting x + [sub].count x := by
  unfold enqueue
  split
  next subs hin =>
    have := total_insert_of_some (fun subs => subs.count x) hin (d := subs ++ [sub])
    simp only [waiting, count_append] at this ⊢
    omega
  split
  next e he =>
    have hinsert := fun lane =>
      total_insert_of_some (fun e => e.subs.count x) he (d := ⟨e.unit, lane, e.subs ++ [sub]⟩)
    simp only [count_append] at hinsert
    have hup := hinsert lane
    have hsame := hinsert e.lane
    split_ifs <;> simp only [waiting] <;> omega
  next he =>
    have := total_insert_of_none (fun e => e.subs.count x) he (c := ⟨unit, lane, [sub]⟩)
    cases lane <;> simp only [waiting] at this ⊢ <;> omega

theorem waiting_eq_zero (hempty : ∀ id, ¬ q.Pending id) (x : σ) : q.waiting x = 0 := by
  by_contra hpos
  rcases Nat.add_pos_iff_pos_or_pos.mp (Nat.pos_of_ne_zero hpos) with hpos | hpos <;>
    obtain ⟨id, e, he, -⟩ := exists_of_total_pos _ hpos <;> have := hempty id <;> grind [Pending]

end
end WorkQueue

/-! ## Operations and their subscribers -/

/-- A subscriber of an operation; the serial number tells apart those that are enqueued. -/
structure Subscriber where
  operation : Nat
  serial : Nat
  deriving DecidableEq

/-- The queue and the counters, with what was enqueued, what is being put and what was fired so far. -/
structure Dispatch (α : Type) where
  queue : WorkQueue α Subscriber := .new
  remaining : Nat → UInt64
  notified : List Nat := []
  enqueued : List Subscriber := []
  putting : List ChunkId := []
  fired : List Subscriber := []

inductive QueueEvent (α : Type) where
  | enqueue (id : ChunkId) (unit : α) (lane : Lane) (operation : Nat)
  | pop
  | markDone (id : ChunkId)
  deriving DecidableEq

def QueueEvent.isPop {α : Type} : QueueEvent α → Bool
  | .pop => true
  | _ => false

namespace Dispatch
open WorkQueue (laneOf)
variable {α : Type} {count : Nat → UInt64} {e : QueueEvent α} {es : List (QueueEvent α)} {s : Dispatch α} {id : ChunkId}

/-- One chunk less to wait for; the operation is told when it was the last. -/
def fire (s : Dispatch α) (sub : Subscriber) : Dispatch α :=
  { s with
    remaining := Function.update s.remaining sub.operation (s.remaining sub.operation - 1)
    notified := if s.remaining sub.operation = 1 then s.notified ++ [sub.operation] else s.notified
    fired := s.fired ++ [sub] }

def step (s : Dispatch α) : QueueEvent α → Dispatch α
  | .enqueue id unit lane operation =>
    let sub := ⟨operation, s.enqueued.length⟩
    { s with queue := s.queue.enqueue id unit lane sub, enqueued := s.enqueued ++ [sub] }
  | .pop => { s with queue := s.queue.pop.2, putting := s.putting ++ (s.queue.pop.1.map Prod.fst).toList }
  | .markDone id =>
    (s.queue.markDone id).1.foldl fire { s with queue := (s.queue.markDone id).2, putting := s.putting.erase id }

/-- Only a chunk that was popped is marked, once. -/
def MarksPopped (s : Dispatch α) : QueueEvent α → Prop
  | .markDone id => id ∈ s.putting
  | _ => True

instance (s : Dispatch α) : (e : QueueEvent α) → Decidable (s.MarksPopped e)
  | .markDone id => inferInstanceAs (Decidable (id ∈ s.putting))
  | .enqueue .. | .pop => .isTrue trivial

theorem foldl_fire (subs : List Subscriber) (s : Dispatch α) : let s' := subs.foldl fire s
    s'.queue = s.queue ∧ s'.enqueued = s.enqueued ∧ s'.putting = s.putting ∧ s'.fired = s.fired ++ subs ∧
      ∀ o, s'.remaining o = s.remaining o - UInt64.ofNat (subs.countP (·.operation = o)) := by
  induction subs generalizing s with
  | nil => simp
  | cons sub subs ih =>
    obtain ⟨hq, he, hp, hf, hr⟩ := ih (s.fire sub)
    refine ⟨hq, he, hp, by simpa [fire] using hf, fun o => ?_⟩
    rw [foldl_cons, hr, countP_cons]
    by_cases ho : sub.operation = o
    · subst ho
      simp only [fire, UInt64.ofNat_add]
      grind
    · simp [fire, ho, Function.update_of_ne (Ne.symm ho)]

structure Inv (count : Nat → UInt64) (s : Dispatch α) : Prop where
  queue : s.queue.Inv
  nodup : s.putting.Nodup
  putting : ∀ id, id ∈ s.putting ↔ id ∈ s.queue.inflight
  distinct : s.enqueued.Nodup
  serial : ∀ sub ∈ s.enqueued, sub.serial < s.enqueued.length
  once : ∀ x, s.queue.waiting x + s.fired.count x = s.enqueued.count x
  counter : ∀ o, s.remaining o = count o - UInt64.ofNat (s.fired.countP (·.operation = o))

theorem Inv.enqueue (h : Inv count s) (id : ChunkId) (unit : α) (lane : Lane) (operation : Nat) :
    Inv count (s.step (.enqueue id unit lane operation)) := by
  have hfresh : ⟨operation, s.enqueued.length⟩ ∉ s.enqueued := fun hin => Nat.lt_irrefl _ (h.serial _ hin)
  refine ⟨h.queue.enqueue .., h.nodup, fun x => ?_, ?_, fun sub hsub => ?_, fun x => ?_, h.counter⟩
  · exact (h.putting x).trans (WorkQueue.mem_inflight_enqueue ..).symm
  · simpa [step] using List.Nodup.concat hfresh h.distinct
  · simp only [step, mem_append, mem_singleton, length_append] at hsub ⊢
    rcases hsub with hsub | rfl
    · exact Nat.lt_succ_of_lt (h.serial sub hsub)
    · exact Nat.lt_succ_self _
  · have := h.once x
    simp only [step, WorkQueue.waiting_enqueue, count_append]
    omega

theorem Inv.pop (h : Inv count s) : Inv count (s.step .pop) := by
  obtain ⟨hinv, ⟨-, hnone, hqueued, hinflight⟩ | ⟨id, entry, hentry, hsome, hqueued, hinflight, -⟩⟩ :=
    WorkQueue.pop_spec h.queue
  · refine ⟨hinv, ?_, fun x => ?_, h.distinct, h.serial, fun x => ?_, h.counter⟩
    · simpa [step, hnone] using h.nodup
    · simpa [step, hnone, hinflight] using h.putting x
    · simpa [step, WorkQueue.waiting, hqueued, hinflight] using h.once x
  · have hid : s.queue.inflight.lookup id = none := (h.queue.disjoint id).resolve_right (by simp [hentry])
    have hput : id ∉ s.putting := mt (h.putting id).mp (AList.lookup_eq_none.mp hid)
    refine ⟨hinv, ?_, fun x => ?_, h.distinct, h.serial, fun x => ?_, h.counter⟩
    · simpa [step, hsome] using List.Nodup.concat hput h.nodup
    · simp [step, hsome, hinflight, h.putting, or_comm]
    · have hq := total_erase (fun e => e.subs.count x) hentry
      have hi := total_insert_of_none (fun subs => subs.count x) hid (c := entry.subs)
      have := h.once x
      simp only [step, WorkQueue.waiting, hqueued, hinflight] at this ⊢
      omega

theorem Inv.markDone (h : Inv count s) (hid : id ∈ s.putting) : Inv count (s.step (.markDone id)) := by
  obtain ⟨subs, hsubs⟩ := Assoc.lookup_of_mem ((h.putting id).mp hid)
  obtain ⟨hq, he, hp, hf, hr⟩ := foldl_fire subs
    { s with queue := (s.queue.markDone id).2, putting := s.putting.erase id }
  have hstep : s.step (.markDone id) = subs.foldl fire
      { s with queue := (s.queue.markDone id).2, putting := s.putting.erase id } := by
    rw [step, WorkQueue.markDone, hsubs, getD_some]
  rw [← hstep] at hq he hp hf hr
  refine ⟨?_, ?_, fun x => ?_, he ▸ h.distinct, he ▸ h.serial, fun x => ?_, fun o => ?_⟩
  · rw [hq]
    refine { h.queue with disjoint := fun x => ?_ }
    have := h.queue.disjoint x
    grind [WorkQueue.markDone]
  · rw [hp]
    exact h.nodup.erase id
  · rw [hp, hq, h.nodup.mem_erase_iff, h.putting]
    exact AList.mem_erase.symm
  · have hi := total_erase (fun subs => subs.count x) hsubs
    have := h.once x
    rw [hq, he, hf, count_append]
    simp only [WorkQueue.waiting, WorkQueue.markDone] at this ⊢
    omega
  · rw [hr, hf, countP_append, UInt64.ofNat_add, h.counter]
    grind

theorem Inv.step (h : Inv count s) (hmark : s.MarksPopped e) : Inv count (s.step e) := by
  cases e with
  | enqueue id unit lane operation => exact h.enqueue id unit lane operation
  | pop => exact h.pop
  | markDone id => exact h.markDone hmark

def returned : Dispatch α → List (QueueEvent α) → List ChunkId
  | _, [] => []
  | s, .pop :: es => (s.queue.pop.1.map Prod.fst).toList ++ returned (s.step .pop) es
  | s, e :: es => returned (s.step e) es

/-- What holds in every state of a run. -/
structure Correct (count : Nat → UInt64) (s : Dispatch α) : Prop where
  disjoint : ∀ id, ¬ (id ∈ s.queue.queued ∧ id ∈ s.queue.inflight)
  putOnce : s.putting.Nodup ∧ ∀ id, id ∈ s.putting ↔ id ∈ s.queue.inflight
  lanes : ∀ id unit subs, s.queue.pop.1 = some (id, unit, subs) → ∃ lane, laneOf s.queue.queued id = some lane ∧
    (lane = .normal → ∀ x, laneOf s.queue.queued x ≠ some .high)
  once : ∀ sub ∈ s.enqueued, s.queue.waiting sub + s.fired.count sub = 1
  known : ∀ sub ∈ s.fired, sub ∈ s.enqueued
  all : (∀ id, ¬ s.queue.Pending id) → ∀ sub ∈ s.enqueued, s.fired.count sub = 1
  counter : ∀ o, s.enqueued.countP (·.operation = o) ≤ (count o).toNat →
    (s.remaining o = 0 ↔ s.enqueued.countP (·.operation = o) = (count o).toNat ∧
      ∀ sub ∈ s.enqueued, sub.operation = o → sub ∈ s.fired)

theorem Inv.correct (h : Inv count s) : Correct count s := by
  have honce : ∀ sub ∈ s.enqueued, s.queue.waiting sub + s.fired.count sub = 1 := fun sub hsub =>
    (h.once sub).trans (count_eq_one_of_mem h.distinct hsub)
  have hfired : s.fired.Subperm s.enqueued := by
    rw [subperm_ext_iff]
    intro x _
    have := h.once x
    omega
  refine ⟨fun id hid => by have := h.queue.disjoint id; grind, ⟨h.nodup, h.putting⟩, fun id unit subs hpop => ?_, honce,
    hfired.subset, fun hempty sub hsub => ?_, fun o hle => ?_⟩
  · obtain ⟨-, ⟨-, hnone, -⟩ | ⟨id', entry, hentry, hsome, -, -, hlane⟩⟩ := WorkQueue.pop_spec h.queue
    · simp [hnone] at hpop
    · rw [hsome] at hpop
      cases hpop
      exact ⟨entry.lane, by rw [laneOf, hentry, map_some], hlane⟩
  · have := honce sub hsub
    rwa [WorkQueue.waiting_eq_zero hempty, Nat.zero_add] at this
  · have hsub : (s.fired.filter (·.operation = o)).Subperm (s.enqueued.filter (·.operation = o)) := hfired.filter _
    have hall : (s.enqueued.filter (·.operation = o)).length ≤ (s.fired.filter (·.operation = o)).length ↔
        ∀ sub ∈ s.enqueued, sub.operation = o → sub ∈ s.fired := by
      constructor
      · intro hlen sub hsub' ho
        have hmem := (hsub.perm_of_length_le hlen).mem_iff.mpr (mem_filter.mpr ⟨hsub', by simpa using ho⟩)
        exact (mem_filter.mp hmem).1
      · intro hin
        refine (subperm_of_subset (h.distinct.filter _) fun sub hsub' => ?_).length_le
        obtain ⟨hsub', ho⟩ := mem_filter.mp hsub'
        exact mem_filter.mpr ⟨hin sub hsub' (by simpa using ho), ho⟩
    have hle' := hsub.length_le
    have hlt := (count o).toNat_lt
    rw [h.counter, ← hall]
    simp only [countP_eq_length_filter] at hle ⊢
    have hzero : ∀ a b : UInt64, a - b = 0 ↔ a = b := by grind
    rw [hzero, ← UInt64.toNat_inj, UInt64.toNat_ofNat_of_lt' (by rw [UInt64.size]; omega)]
    omega

theorem Inv.mem_returned (h : Inv count s) (hes : Along Dispatch.step MarksPopped s es)
    (hno : ∀ e ∈ es, ∀ id unit lane o, e ≠ .enqueue id unit lane o)
    (hpops : s.queue.queued.entries.length ≤ es.countP QueueEvent.isPop) (hid : id ∈ s.queue.queued) :
    id ∈ s.returned es := by
  induction es generalizing s with
  | nil =>
    obtain ⟨e, he⟩ := Assoc.lookup_of_mem hid
    have := Assoc.length_erase he
    simp only [countP_nil] at hpops
    omega
  | cons e es ih =>
    have hrest := h.step hes.1
    have hno' := fun e he => hno e (mem_cons_of_mem _ he)
    cases e with
    | enqueue id' unit lane o => exact absurd rfl (hno _ (by simp) id' unit lane o)
    | pop =>
      rw [Dispatch.returned, mem_append]
      rw [countP_cons, QueueEvent.isPop, if_pos rfl] at hpops
      obtain ⟨-, ⟨hempty, -⟩ | ⟨id', entry, hentry, hsome, hqueued, -⟩⟩ := WorkQueue.pop_spec h.queue
      · grind
      · by_cases hne : id = id'
        · exact .inl (by simp [hsome, hne])
        · have := Assoc.length_erase hentry
          refine .inr (ih hrest hes.2 hno' ?_ ?_) <;> simp only [Dispatch.step, hqueued]
          · omega
          · exact AList.mem_erase.mpr ⟨hne, hid⟩
    | markDone id' =>
      have hq : (s.step (.markDone id')).queue.queued = s.queue.queued := by
        rw [Dispatch.step, (foldl_fire _ _).1]
        rfl
      refine ih hrest hes.2 hno' ?_ (hq ▸ hid)
      rw [hq]
      simpa [QueueEvent.isPop] using hpops

/-- **The work queue.** In every state of every run a chunk is put once at a time, the high lane goes first, and every
subscriber waits once or was fired once, by a `markDone` after its enqueue; the counter of an operation is zero just when
all it announced was enqueued and fired; and from every such state enough pops return every queued chunk. -/
theorem work_queue_correct (count : Nat → UInt64) (es : List (QueueEvent α))
    (hes : Along step MarksPopped { remaining := count } es) :
    Visits step (Correct count) { remaining := count } es ∧
      Along step (fun s e => ∀ sub ∈ (s.step e).fired, sub ∉ s.fired → sub ∈ s.enqueued ∧ ∃ id, e = .markDone id)
        { remaining := count } es ∧
      let s := run step { remaining := count } es
      ∀ fs, Along step MarksPopped s fs → (∀ e ∈ fs, ∀ id unit lane o, e ≠ .enqueue id unit lane o) →
        s.queue.queued.entries.length ≤ fs.countP QueueEvent.isPop → ∀ id ∈ s.queue.queued, id ∈ s.returned fs := by
  have hinit : Inv count ({ remaining := count } : Dispatch α) := by
    refine ⟨⟨?_, .nil, ?_, ?_⟩, .nil, ?_, .nil, ?_, fun x => rfl, fun o => ?_⟩ <;> simp [WorkQueue.new, laneOf]
  refine ⟨hes.visits (fun s e h => h.step) (fun s h => h.correct) hinit,
    hes.of_invariant (fun s e h hmark => ⟨h.step hmark, ?_⟩) hinit,
    fun fs hfs hno hpops id hid => (run_invariant_along (fun s e h => h.step) hinit hes).mem_returned hfs hno hpops hid⟩
  intro sub hsub hnew
  have hknown := (h.step hmark).correct.known sub hsub
  cases e with
  | enqueue id unit lane o => exact absurd hsub hnew
  | pop => exact absurd hsub hnew
  | markDone id =>
    refine ⟨?_, id, rfl⟩
    rw [step, (foldl_fire _ _).2.1] at hknown
    exact hknown

/-- A chunk is moved up while it waits, and put once for the two who asked. -/
theorem upgraded_put_once : let es : List (QueueEvent Unit) :=
      [.enqueue (.data 0) () .normal 0, .enqueue (.data 0) () .high 0, .pop, .markDone (.data 0)]
    Along step MarksPopped { remaining := fun _ => 2 } es ∧
      Correct (fun _ => 2) (run step { remaining := fun _ => 2 } es) :=
  ⟨by decide, (work_queue_correct (fun _ => 2) _ (by decide)).1.last⟩

end Dispatch
end Peeroxide.DeadDrop
