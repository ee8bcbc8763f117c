import Peeroxide.Dht.MuxSpec

/-!
# The ids of local channels

A slot is freed by a close of its handle and by a reject of the remote, and each of them pushes the slot onto the stack
of free ids whether or not a channel is in it.

Main results: `ids_exact_iff`, `slot_handed_out_twice`.
-/

namespace Peeroxide.Dht
open Lib List Option MuxState

theorem join_getElem?_set {α : Type} {xs : List (Option α)} {i : Nat} (hi : i < xs.length) (x : Option α) (j : Nat) :
    (xs.set i x)[j]?.join = if j = i then x else xs[j]?.join := by
  rw [getElem?_set]
  by_cases hij : i = j
  · subst hij
    simp [hi]
  · rw [if_neg hij, if_neg (Ne.symm hij)]

namespace MuxState
variable {s s' s'' : MuxState}
variable {ch : LocalChannel} {i : Nat} {o : Option Nat} {protocol : String}

theorem localAt_lt (h : s.localAt i = some ch) : i < s.locals.length := by
  by_contra hlen
  rw [localAt, getElem?_eq_none (Nat.le_of_not_lt hlen)] at h
  cases h

/-- The free ids are the empty slots, each once; the next slot handed out is empty. -/
structure IdsExact (s : MuxState) : Prop where
  nodup : s.freeIds.Nodup
  mem_iff : ∀ i, i ∈ s.freeIds ↔ i < s.locals.length ∧ s.localAt i = none
  fresh : s.localAt s.allocLocalId.1 = none

def FreeExact (s : MuxState) : Prop :=
  s.freeIds.Nodup ∧ ∀ i, i ∈ s.freeIds ↔ i < s.locals.length ∧ s.localAt i = none

/-- As long as a slot's number fits into `u32`, the next slot is empty when the free ids are the empty slots. -/
theorem idsExact_iff (hlen : s.locals.length < 2 ^ 32) : s.IdsExact ↔ s.FreeExact := by
  refine ⟨fun h => ⟨h.nodup, h.mem_iff⟩, fun ⟨hnodup, hmem⟩ => ⟨hnodup, hmem, ?_⟩⟩
  rw [allocLocalId_fst]
  obtain ⟨ids, i, hids, hnext, -⟩ | ⟨-, hnext, -⟩ := s.allocated_cases
  · rw [hnext]
    exact ((hmem i).mp (by rw [hids]; simp)).2
  · rw [hnext, wrap32_of_lt hlen, localAt, getElem?_eq_none (le_refl _)]
    rfl

/-! ## Steps that leave the slots as they are -/

structure SameSlots (s s' : MuxState) : Prop where
  freeIds : s'.freeIds = s.freeIds
  length : s'.locals.length = s.locals.length
  empty : ∀ i, s'.localAt i = none ↔ s.localAt i = none

theorem SameSlots.refl (s : MuxState) : SameSlots s s := ⟨rfl, rfl, fun _ => Iff.rfl⟩

theorem SameSlots.freeExact_iff (h : SameSlots s s') : s'.FreeExact ↔ s.FreeExact := by
  simp only [FreeExact, h.freeIds, h.length, h.empty]

theorem sameSlots_set {ch' : LocalChannel} (h : s.localAt i = some ch) (hfree : s'.freeIds = s.freeIds)
    (hlocals : s'.locals = s.locals.set i (some ch')) : SameSlots s s' := by
  refine ⟨hfree, by rw [hlocals, length_set], fun j => ?_⟩
  rw [localAt, hlocals, join_getElem?_set (localAt_lt h)]
  split
  next hj =>
    rw [hj, h]
    exact ⟨nofun, nofun⟩
  · exact Iff.rfl

theorem sameSlots_of_eq (hfree : s'.freeIds = s.freeIds) (hlocals : s'.locals = s.locals) : SameSlots s s' :=
  ⟨hfree, by rw [hlocals], fun i => by rw [localAt, hlocals]; rfl⟩

theorem FrameStep.sameSlots (h : FrameStep s s') : SameSlots s s' := by
  obtain hlocals | ⟨i, ch, ch', hch, hlocals⟩ := h.locals
  · exact sameSlots_of_eq h.freeIds hlocals
  · exact sameSlots_set hch h.freeIds hlocals

theorem sameSlots_shutdownAll (s : MuxState) : SameSlots s s.shutdownAll := by
  refine ⟨rfl, length_map _, fun i => ?_⟩
  have hget : s.shutdownAll.localAt i = (s.localAt i).map fun ch => { ch with closed := true } := by
    unfold localAt shutdownAll
    rw [getElem?_map]
    cases s.locals[i]? <;> rfl
  rw [hget, map_eq_none_iff]

/-! ## Steps that take or free a slot -/

theorem freeExact_free (hs : s.FreeExact) (hi : i < s.locals.length) : (s.free i).FreeExact ↔ s.localAt i ≠ none := by
  have hlocals : (s.free i).locals = s.locals.set i none := rfl
  have hids : (s.free i).freeIds = s.freeIds ++ [i] := rfl
  constructor
  · intro h hnone
    exact (nodup_append.mp h.1).2.2 i ((hs.2 i).mpr ⟨hi, hnone⟩) i (mem_singleton_self i) rfl
  · refine fun hch => ⟨?_, fun j => ?_⟩
    · rw [hids, nodup_append]
      refine ⟨hs.1, nodup_singleton i, fun a ha b hb hab => ?_⟩
      rw [hab, mem_singleton.mp hb] at ha
      exact hch ((hs.2 i).mp ha).2
    · rw [hids, hlocals, localAt, hlocals, join_getElem?_set hi, mem_append, hs.2]
      by_cases hj : j = i
      · simp [hj, hi]
      · simp [hj, localAt]

theorem length_allocated_lt (hlen : s.locals.length < 2 ^ 32) (hnext : s.nextSlot + 1 < 2 ^ 32) :
    s.allocated.locals.length < 2 ^ 32 := by
  obtain ⟨ids, i, -, -, h⟩ | ⟨-, hn, h⟩ := s.allocated_cases
  · rw [h]
    exact hlen
  · rw [hn, wrap32_of_lt hlen] at hnext
    rw [h, length_append]
    exact hnext

theorem freeExact_fill (hlen : s.locals.length < 2 ^ 32) (hs : s.FreeExact) (hfree : s'.freeIds = s.allocated.freeIds)
    (hlocals : s'.locals = s.allocated.locals.set s.nextSlot (some ch)) : s'.FreeExact := by
  obtain ⟨ids, i, hids, hn, halloc⟩ | ⟨hids, hn, halloc⟩ := s.allocated_cases
  · have hnodup := hs.1
    rw [hids, nodup_append] at hnodup
    have hi : i < s.locals.length := ((hs.2 i).mp (by rw [hids]; simp)).1
    rw [halloc, hn] at hlocals
    rw [halloc] at hfree
    refine ⟨by rw [hfree]; exact hnodup.1, fun j => ?_⟩
    rw [hfree, hlocals, length_set, localAt, hlocals, join_getElem?_set hi]
    have hmem := hs.2 j
    rw [hids, mem_append, mem_singleton] at hmem
    by_cases hj : j = i
    · subst hj
      rw [if_pos rfl]
      exact ⟨fun h => absurd rfl (hnodup.2.2 j h j (mem_singleton_self j)), fun h => nomatch h.2⟩
    · rw [if_neg hj]
      rw [or_iff_left hj] at hmem
      exact hmem
  · rw [wrap32_of_lt hlen] at hn
    rw [halloc, hn] at hlocals
    rw [halloc, hids] at hfree
    have hi : s.locals.length < (s.locals ++ [none]).length := by simp
    refine ⟨by rw [hfree]; exact nodup_nil, fun j => ?_⟩
    rw [hfree, hlocals, length_set, localAt, hlocals, join_getElem?_set hi]
    have hmem := hs.2 j
    rw [hids] at hmem
    refine ⟨nofun, fun h => ?_⟩
    by_cases hj : j = s.locals.length
    · rw [if_pos hj] at h
      exact nomatch h.2
    · have hjlt : j < s.locals.length := by
        have := h.1
        rw [length_append, length_singleton] at this
        omega
      rw [if_neg hj, getElem?_append_left hjlt] at h
      exact hmem.mpr ⟨hjlt, h.2⟩

/-- What a step does to the slots: nothing, it fills the next one, or it frees one. -/
inductive SlotStep (s s' : MuxState) : Option Nat → Prop where
  | same (h : SameSlots s s') : SlotStep s s' none
  | fill {ch : LocalChannel} (hnext : s.nextSlot + 1 < 2 ^ 32) (hfree : s'.freeIds = s.allocated.freeIds)
      (hlocals : s'.locals = s.allocated.locals.set s.nextSlot (some ch)) : SlotStep s s' none
  | freed {i : Nat} {t : MuxState} (hi : i < s.locals.length) (hsame : SameSlots s t) (hfree : SameSlots (t.free i) s') :
      SlotStep s s' (some i)

theorem SlotStep.length_lt (h : SlotStep s s' o) (hlen : s.locals.length < 2 ^ 32) : s'.locals.length < 2 ^ 32 := by
  cases h with
  | same h =>
    rw [h.length]
    exact hlen
  | fill hnext _ hlocals =>
    rw [hlocals, length_set]
    exact length_allocated_lt hlen hnext
  | freed _ hsame hfree =>
    have hlocals : ∀ (t : MuxState) i, (t.free i).locals.length = t.locals.length := fun t i => length_set
    rw [hfree.length, hlocals, hsame.length]
    exact hlen

theorem SlotStep.freeExact_iff (h : SlotStep s s' o) (hlen : s.locals.length < 2 ^ 32) (hs : s.FreeExact) :
    s'.FreeExact ↔ ∀ i ∈ o, s.localAt i ≠ none := by
  cases h with
  | same h => exact iff_of_true (h.freeExact_iff.mpr hs) nofun
  | fill _ hfree hlocals => exact iff_of_true (freeExact_fill hlen hs hfree hlocals) nofun
  | freed hi hsame hfree =>
    rw [hfree.freeExact_iff, freeExact_free (hsame.freeExact_iff.mpr hs) (hi.trans_eq hsame.length.symm), Ne, hsame.empty]
    simp only [mem_some_iff, forall_eq', Ne]

/-! ## Handlers -/

theorem slotStep_create {id handshake : Option ByteVec}
    (h : s.createChannelInternal protocol id handshake = .ok s') : SlotStep s s' none := by
  obtain ⟨hnext, -, f, -, -, ⟨r, rest, -, -, rfl⟩ | ⟨-, rfl⟩⟩ := createChannelInternal_ok h
  · exact .fill hnext rfl rfl
  · exact .fill hnext rfl rfl

end MuxState

/-! ## Runs -/

def slotOf (wireId : Nat) : Option Nat := if wireId = 0 then none else some (wireId - 1)

/-- The slot that a close or a reject aims at. -/
def released : MuxEvent → Option Nat
  | .command (.closeChannel localId) => slotOf localId.toNat
  | .frame data => ((decodeFrame data).toOption.bind rejects).bind slotOf
  | _ => none

/-- A close or a reject that aims at a slot there is, aims at a channel. -/
def AimsAtChannel (m : Mux) (e : MuxEvent) : Prop :=
  ∀ s, m = .running s → ∀ i ∈ released e, i < s.locals.length → s.localAt i ≠ none

namespace MuxState
variable {s s' : MuxState}
variable {c : MuxCommand} {data : Bytes} {frame : DecodedFrame} {i : Nat} {localId : UInt32}

theorem slotStep_close (h : s.closeChannelInternal localId = .ok s') : ∃ o, SlotStep s s' o ∧
      ((∀ i ∈ o, s.localAt i ≠ none) ↔ ∀ i ∈ slotOf localId.toNat, i < s.locals.length → s.localAt i ≠ none) := by
  obtain ⟨hzero, hcases⟩ := closeChannelInternal_ok h
  have hne : localId.toNat ≠ 0 := fun h => hzero (UInt32.toNat.inj h)
  have hslot : slotOf localId.toNat = some (localId.toNat - 1) := if_neg hne
  simp only [hslot, mem_some_iff, forall_eq']
  obtain ⟨hlen, rfl⟩ | ⟨ch, hch, -, rfl⟩ | ⟨hlt, -, f, ds, -, -, rfl⟩ := hcases
  · exact ⟨none, .same (.refl _), iff_of_true nofun fun h => absurd h (Nat.not_lt.mpr hlen)⟩
  · exact ⟨none, .same (.refl _), iff_of_true nofun fun _ h => nomatch hch.symm.trans h⟩
  · refine ⟨some (localId.toNat - 1), .freed hlt (sameSlots_of_eq rfl rfl) (sameSlots_of_eq rfl rfl), ?_⟩
    simp only [mem_some_iff, forall_eq', hlt, true_implies]

theorem slotStep_command (h : s.handleCommand c = .ok s') : ∃ o, SlotStep s s' o ∧ ((∀ i ∈ o, s.localAt i ≠ none) ↔
      ∀ i ∈ released (.command c), i < s.locals.length → s.localAt i ≠ none) := by
  cases c with
  | createChannel protocol id handshake => exact ⟨none, slotStep_create h, iff_of_true nofun nofun⟩
  | closeChannel localId => exact slotStep_close h
  | sendMessage | cork | uncork =>
    obtain ⟨batch, depth, written, rfl⟩ := handleCommand_writes h nofun nofun
    exact ⟨none, .same (sameSlots_of_eq rfl rfl), iff_of_true nofun nofun⟩

theorem released_error {e : Fault ProtomuxError} (h : decodeFrame data = .error e) :
    released (.frame data) = none := by
  rw [released, h]
  rfl

theorem released_ok (h : decodeFrame data = .ok frame) : released (.frame data) = (rejects frame).bind slotOf := by
  rw [released, h]
  rfl

theorem slotStep_frame (h : s.handleIncomingFrame data = .ok s' ∨ ∃ e, s.handleIncomingFrame data = .err e s') :
    ∃ o, SlotStep s s' o ∧ ((∀ i ∈ o, s.localAt i ≠ none) ↔
      ∀ i ∈ released (.frame data), i < s.locals.length → s.localAt i ≠ none) := by
  obtain ⟨frame, hd, hf⟩ | ⟨⟨e, hd⟩, rfl⟩ := Mux.handleIncomingFrame_cases h
  · rw [released_ok hd]
    obtain ⟨t, ht, ⟨hr, rfl⟩ | ⟨i, hr, hlt, rfl⟩⟩ := handleFrame_step hf <;> rw [hr]
    · exact ⟨none, .same ht.sameSlots, iff_of_true nofun nofun⟩
    · refine ⟨some i, .freed hlt ht.sameSlots (.refl _), ?_⟩
      have hslot : slotOf (i + 1) = some i := rfl
      simp only [bind_some, hslot, mem_some_iff, forall_eq', hlt, true_implies]
  · rw [released_error hd]
    exact ⟨none, .same (.refl _), iff_of_true nofun nofun⟩

theorem close_ne_panic (h : slotOf localId.toNat = some i) : s.closeChannelInternal localId ≠ .panic := by
  have hzero : localId ≠ 0 := by
    rintro rfl
    cases h
  unfold closeChannelInternal
  rw [if_neg hzero]
  simp only
  split
  · simp
  · split
    · split
      · simp
      · obtain ⟨f, -, hw⟩ := enqueueWrite_control ((s.deliver _).free (localId.toNat - 1)) 3 localId.toUInt64
        rw [encodeClose, hw]
        simp
    · obtain ⟨f, -, hw⟩ := enqueueWrite_control (s.free (localId.toNat - 1)) 3 localId.toUInt64
      rw [encodeClose, hw]
      simp

theorem command_ne_panic (h : i ∈ released (.command c)) : s.handleCommand c ≠ .panic := by
  cases c with
  | closeChannel localId => exact close_ne_panic h
  | createChannel protocol id handshake | sendMessage localId messageType data | cork | uncork => cases h

theorem frame_ne_panic (h : i ∈ released (.frame data)) (hi : i < s.locals.length) :
    s.handleIncomingFrame data ≠ .panic := by
  unfold handleIncomingFrame
  cases hd : decodeFrame data with
  | error e =>
    rw [released_error hd] at h
    cases h
  | ok frame =>
    rw [released_ok hd] at h
    obtain ⟨n, hn, hslot⟩ := bind_eq_some_iff.mp h
    unfold rejects at hn
    split at hn
    next remoteId =>
      cases hn
      show s.handleRemoteReject remoteId ≠ .panic
      unfold slotOf at hslot
      split at hslot <;> cases hslot
      unfold handleRemoteReject
      rw [if_neg (by omega)]
      exact nofun
    · cases hn

end MuxState

namespace Mux

/-- The free ids are exact, as long as the program has not stopped. -/
def IdsExact (m : Mux) : Prop := ∀ s ∈ m.state?, s.IdsExact

def Bounded (m : Mux) : Prop := ∀ s ∈ m.state?, s.locals.length < 2 ^ 32

theorem settle_slots {s : MuxState} {r : Outcome} {P : Prop} (h : ∀ s', r = .ok s' ∨ (∃ e, r = .err e s') →
      ∃ o, SlotStep s s' o ∧ ((∀ i ∈ o, s.localAt i ≠ none) ↔ P)) (hpanic : r = .panic → P)
    (hlen : s.locals.length < 2 ^ 32) : (settle r).Bounded ∧ (s.IdsExact → ((settle r).IdsExact ↔ P)) := by
  cases r with
  | ok s' =>
    obtain ⟨o, hstep, hiff⟩ := h s' (.inl rfl)
    refine ⟨fun t ht => ?_, fun hs => ?_⟩
    · cases ht
      exact hstep.length_lt hlen
    · rw [← hiff, ← hstep.freeExact_iff hlen ((idsExact_iff hlen).mp hs), ← idsExact_iff (hstep.length_lt hlen)]
      exact ⟨fun hall => hall s' rfl, fun hall t ht => by cases ht; exact hall⟩
  | err e s' =>
    obtain ⟨o, hstep, hiff⟩ := h s' (.inr ⟨e, rfl⟩)
    have hdown := s'.sameSlots_shutdownAll
    have hlen' := hdown.length.trans_lt (hstep.length_lt hlen)
    refine ⟨fun t ht => ?_, fun hs => ?_⟩
    · cases ht
      exact hlen'
    · rw [← hiff, ← hstep.freeExact_iff hlen ((idsExact_iff hlen).mp hs), ← hdown.freeExact_iff, ← idsExact_iff hlen']
      exact ⟨fun hall => hall _ rfl, fun hall t ht => by cases ht; exact hall⟩
  | panic => exact ⟨nofun, fun _ => iff_of_true nofun (hpanic rfl)⟩

theorem step_slots {m : Mux} (hm : m.Bounded) (e : MuxEvent) :
    (m.step e).Bounded ∧ (m.IdsExact → ((m.step e).IdsExact ↔ AimsAtChannel m e)) := by
  cases m with
  | running s =>
    have hlen := hm s rfl
    have haims : AimsAtChannel (running s) e ↔ ∀ i ∈ released e, i < s.locals.length → s.localAt i ≠ none :=
      ⟨fun h => h s rfl, fun h t ht => by cases ht; exact h⟩
    rw [haims]
    -- an outcome that stops the program does not release a slot
    cases e with
    | command c =>
      refine (settle_slots (fun s' h => ?_) (fun hp i hi _ => (command_ne_panic hi hp).elim) hlen).imp_right
        fun hiff hs => hiff (hs s rfl)
      exact slotStep_command (h.resolve_right fun ⟨e, he⟩ => handleCommand_ne_err he)
    | frame data =>
      by_cases hempty : data = []
      · subst hempty
        exact ⟨hm, fun hs => iff_of_true hs nofun⟩
      · rw [step_frame hempty]
        exact (settle_slots (fun s' h => slotStep_frame h)
          (fun hp i hi hlt => (frame_ne_panic hi hlt hp).elim) hlen).imp_right fun hiff hs => hiff (hs s rfl)
    | stop =>
      have hdown := s.sameSlots_shutdownAll
      have hlen' := hdown.length.trans_lt hlen
      refine ⟨fun t ht => ?_, fun hs => iff_of_true (fun t ht => ?_) nofun⟩ <;> cases ht
      · exact hlen'
      · exact (idsExact_iff hlen').mpr (hdown.freeExact_iff.mpr ((idsExact_iff hlen).mp (hs s rfl)))
  | ended s | panicked => exact ⟨hm, fun hs => iff_of_true hs nofun⟩

theorem idsExact_new : new.IdsExact := by
  intro s hs
  cases hs
  exact (idsExact_iff (by decide)).mpr ⟨nodup_nil, fun i => ⟨nofun, fun h => absurd h.1 (Nat.not_lt_zero i)⟩⟩

theorem bounded_new : new.Bounded := by
  intro s hs
  cases hs
  decide

end Mux

/-- **Exact free ids.** In every state of a run from the start, the free ids are the empty slots, each once, and the next
slot handed out is empty, just when no close and no reject of the run aims at a slot that is empty already. -/
theorem ids_exact_iff (es : List MuxEvent) :
    Visits Mux.step Mux.IdsExact .new es ↔ Along Mux.step AimsAtChannel .new es :=
  visits_iff_along (fun _ e hm => (Mux.step_slots hm e).1)
    (fun _ e hm hs => (Mux.step_slots hm e).2 hs) Mux.bounded_new Mux.idsExact_new es

/-- A channel is created, the remote rejects it, and its handle closes it: the slot is free twice. -/
def rejectedThenClosed : List MuxEvent :=
  [.command (.createChannel "a" none none), .frame [0, 2, 1], .command (.closeChannel 1)]

/-- The two channels created next share slot `0`, and the second one takes the place of the first. -/
theorem slot_handed_out_twice :
    ∃ s, run Mux.step .new rejectedThenClosed = .running s ∧ s.freeIds = [0, 0] ∧ ¬ s.IdsExact ∧
    ∃ t, run Mux.step .new (rejectedThenClosed ++ [.command (.createChannel "b" none none)]) = .running t ∧
      (t.localAt 0).isSome ∧ t.allocLocalId.1 = 0 := by
  refine ⟨_, rfl, by decide +kernel, fun h => absurd h.nodup (by decide +kernel), _, rfl, by decide +kernel, by decide +kernel⟩

end Peeroxide.Dht
