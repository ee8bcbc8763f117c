import Mathlib.Data.List.AList

/-!
# The work queue of the sender

Whoever wants a chunk put enqueues it and waits. A chunk that is queued or in flight already is not put twice: the newcomer
waits for the put there is.
-/

namespace Peeroxide.DeadDrop
open AList

inductive ChunkId where
  | data (i : Nat)
  | index (i : Nat)
  | root
  deriving DecidableEq

inductive Lane where
  | normal
  | high
  deriving DecidableEq

structure QueueEntry (α σ : Type) where
  unit : α
  lane : Lane
  subs : List σ

structure WorkQueue (α σ : Type) where
  queued : AList fun _ : ChunkId => QueueEntry α σ
  high : List ChunkId
  normal : List ChunkId
  inflight : AList fun _ : ChunkId => List σ

namespace WorkQueue
variable {α σ : Type}

def new : WorkQueue α σ := ⟨∅, [], [], ∅⟩

def enqueue (q : WorkQueue α σ) (id : ChunkId) (unit : α) (lane : Lane) (sub : σ) : WorkQueue α σ :=
  match q.inflight.lookup id with
  | some subs => { q with inflight := q.inflight.insert id (subs ++ [sub]) }
  | none =>
    match q.queued.lookup id with
    | some entry =>
      if lane = .high ∧ entry.lane = .normal then
        { q with
          queued := q.queued.insert id { entry with lane := lane, subs := entry.subs ++ [sub] }
          high := q.high ++ [id] }
      else { q with queued := q.queued.insert id { entry with subs := entry.subs ++ [sub] } }
    | none =>
      let queued := q.queued.insert id ⟨unit, lane, [sub]⟩
      match lane with
      | .high => { q with queued := queued, high := q.high ++ [id] }
      | .normal => { q with queued := queued, normal := q.normal ++ [id] }

/-- The first id that is still queued, and what is behind it. -/
def nextHigh (queued : AList fun _ : ChunkId => QueueEntry α σ) :
    List ChunkId → Option (ChunkId × QueueEntry α σ) × List ChunkId
  | [] => (none, [])
  | id :: ids =>
    match queued.lookup id with
    | some entry => (some (id, entry), ids)
    | none => nextHigh queued ids

/-- An id that has been moved up is left to the other lane. -/
def nextNormal (queued : AList fun _ : ChunkId => QueueEntry α σ) :
    List ChunkId → Option (ChunkId × QueueEntry α σ) × List ChunkId
  | [] => (none, [])
  | id :: ids =>
    match queued.lookup id with
    | some entry => if entry.lane = .high then nextNormal queued ids else (some (id, entry), ids)
    | none => nextNormal queued ids

def start (q : WorkQueue α σ) (id : ChunkId) (entry : QueueEntry α σ) : WorkQueue α σ :=
  { q with queued := q.queued.erase id, inflight := q.inflight.insert id entry.subs }

def pop (q : WorkQueue α σ) : Option (ChunkId × α × List σ) × WorkQueue α σ :=
  match nextHigh q.queued q.high with
  | (some (id, entry), high) => (some (id, entry.unit, entry.subs), { q with high := high }.start id entry)
  | (none, high) =>
    match nextNormal q.queued q.normal with
    | (some (id, entry), normal) =>
      (some (id, entry.unit, entry.subs), { q with high := high, normal := normal }.start id entry)
    | (none, normal) => (none, { q with high := high, normal := normal })

def markDone (q : WorkQueue α σ) (id : ChunkId) : List σ × WorkQueue α σ :=
  ((q.inflight.lookup id).getD [], { q with inflight := q.inflight.erase id })

/-- A put of the chunk is still to come, or to end. -/
def Pending (q : WorkQueue α σ) (id : ChunkId) : Prop := id ∈ q.queued ∨ id ∈ q.inflight

instance (q : WorkQueue α σ) (id : ChunkId) : Decidable (q.Pending id) := inferInstanceAs (Decidable (_ ∨ _))

theorem pending_enqueue (q : WorkQueue α σ) (id : ChunkId) (unit : α) (lane : Lane) (sub : σ) :
    (q.enqueue id unit lane sub).Pending id := by
  rw [enqueue]
  split
  · exact .inr ((mem_insert _).mpr (.inl rfl))
  split
  · split
    · exact .inl ((mem_insert _).mpr (.inl rfl))
    · exact .inl ((mem_insert _).mpr (.inl rfl))
  · cases lane <;> exact .inl ((mem_insert _).mpr (.inl rfl))

theorem Pending.enqueue {q : WorkQueue α σ} {id : ChunkId} (h : q.Pending id) (other : ChunkId) (unit : α) (lane : Lane)
    (sub : σ) : (q.enqueue other unit lane sub).Pending id := by
  rw [WorkQueue.enqueue]
  split
  · exact h.imp_right fun hin => (mem_insert _).mpr (.inr hin)
  split
  · split
    · exact h.imp_left fun hin => (mem_insert _).mpr (.inr hin)
    · exact h.imp_left fun hin => (mem_insert _).mpr (.inr hin)
  · cases lane <;> exact h.imp_left fun hin => (mem_insert _).mpr (.inr hin)

end WorkQueue
end Peeroxide.DeadDrop
