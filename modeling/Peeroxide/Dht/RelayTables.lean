import Peeroxide.Dht.BlindRelay

/-!
# What a call of the blind relay server can do

* `tryPair_cases`, `unpair_cases` : everything a call can answer, with the tables it leaves;
* `lookup_releaseSession`, `lookup_sweepExpiredPairings` : what is left after entries are dropped.
-/

namespace Peeroxide.Dht
open Lib

namespace PendingPairing
variable {p : PendingPairing} {l : PendingLink} {b : Bool} {sid : Nat}

@[simp] theorem slot_empty (b : Bool) : empty.slot b = none := by cases b <;> rfl

@[simp] theorem slot_put_self (p : PendingPairing) (l : PendingLink) (b : Bool) : (p.put l b).slot b = some l := by
  cases b <;> rfl

@[simp] theorem slot_put_not (p : PendingPairing) (l : PendingLink) (b : Bool) : (p.put l b).slot (!b) = p.slot (!b) := by
  cases b <;> rfl

@[simp] theorem slot_clear (p : PendingPairing) (sid : Nat) (b : Bool) :
    (p.clear sid).slot b = (p.slot b).filter fun l => l.sessionId ≠ sid := by
  cases b <;> rfl

theorem ext_slot {q : PendingPairing} (h : ∀ b, p.slot b = q.slot b) : p = q := by
  obtain ⟨a, c⟩ := p
  obtain ⟨a', c'⟩ := q
  have hfst : a = a' := h false
  have hsnd : c = c' := h true
  rw [hfst, hsnd]

theorem holds_iff : p.holds sid = true ↔ ∃ b l, p.slot b = some l ∧ l.sessionId = sid := by
  simp only [holds, Bool.or_eq_true, Option.any_eq_true, decide_eq_true_eq]
  constructor
  · rintro (⟨l, hl, hsid⟩ | ⟨l, hl, hsid⟩)
    · exact ⟨false, l, hl, hsid⟩
    · exact ⟨true, l, hl, hsid⟩
  · rintro ⟨b, l, hl, hsid⟩
    cases b with
    | false => exact .inl ⟨l, hl, hsid⟩
    | true => exact .inr ⟨l, hl, hsid⟩

theorem oldest_le (h : p.slot b = some l) : ∃ t, p.oldest = some t ∧ t ≤ l.createdAt := by
  have hmem : l.createdAt ∈ [p.links.1, p.links.2].filterMap fun l => l.map (·.createdAt) := by
    rw [List.mem_filterMap]
    refine ⟨p.slot b, ?_, by rw [h]; rfl⟩
    cases b <;> simp [slot]
  obtain ⟨t, ht⟩ := Option.isSome_iff_exists.mp (List.isSome_min?_of_mem hmem)
  exact ⟨t, ht, (List.min?_eq_some_iff.mp ht).2 _ hmem⟩

def Single (p : PendingPairing) : Prop := ∃ b l, p.slot b = some l ∧ p.slot (!b) = none

theorem Single.put (l : PendingLink) (h : p.slot (!b) = none) : (p.put l b).Single :=
  ⟨b, l, slot_put_self p l b, by rw [slot_put_not, h]⟩

theorem Single.clear (h : p.Single) (sid : Nat) :
    (p.holds sid = true ∧ p.clear sid = .empty) ∨ (p.holds sid = false ∧ p.clear sid = p) := by
  obtain ⟨b, l, hl, hnone⟩ := h
  have hslot : ∀ b', p.slot b' = if b' = b then some l else none := by
    intro b'
    by_cases hb : b' = b
    · rw [if_pos hb, hb, hl]
    · rw [if_neg hb, Bool.eq_not_of_ne hb, hnone]
  by_cases hsid : l.sessionId = sid
  · left
    refine ⟨holds_iff.mpr ⟨b, l, hl, hsid⟩, ext_slot fun b' => ?_⟩
    rw [slot_clear, hslot, slot_empty]
    split
    · simp [hsid]
    · rfl
  · right
    constructor
    · rw [Bool.eq_false_iff]
      intro hholds
      obtain ⟨b', l', hl', hsid'⟩ := holds_iff.mp hholds
      rw [hslot] at hl'
      split at hl'
      · cases hl'
        exact hsid hsid'
      · cases hl'
    · refine ext_slot fun b' => ?_
      rw [slot_clear, hslot]
      split
      · simp [hsid]
      · rfl

theorem slot_getD {o : Option PendingPairing} {b : Bool} {l : PendingLink} (h : (o.getD .empty).slot b = some l) :
    ∃ pair, o = some pair ∧ pair.slot b = some l := by
  cases o with
  | none => simp at h
  | some pair => exact ⟨pair, rfl, h⟩

end PendingPairing

namespace BlindRelayServer
variable {sv sv' : BlindRelayServer} {now sid : Nat} {isInitiator : Bool} {token : PairingToken} {streamId : UInt64} {count : Nat}

def requested (sv : BlindRelayServer) (now sid : Nat) : BlindRelayServer :=
  { sv.touchSession now sid with stats := { sv.stats with pairingsRequested := sv.stats.pairingsRequested + 1 } }

/-- What a request finds: the limit, its slot taken, no other side, or the other side. -/
theorem tryPair_cases {out : PairOutcome} (h : sv.tryPair now sid isInitiator token streamId count = (out, sv')) :
    (sv.config.maxPairingsPerSession ≤ count ∧ out = .limitExceeded ∧ sv' = sv.touchSession now sid) ∨
    (count < sv.config.maxPairingsPerSession ∧
      ((∃ pair l, sv.pairing.lookup token = some pair ∧ pair.slot isInitiator = some l ∧
          out = .alreadyPairing ∧ sv' = sv.requested now sid) ∨
        (((sv.pairing.lookup token).getD .empty).slot isInitiator = none ∧
          ((sv.pairing.lookup token).getD .empty).slot (!isInitiator) = none ∧ out = .pending ∧
          sv' = { sv.requested now sid with
            pairing := sv.pairing.insert token
              (((sv.pairing.lookup token).getD .empty).put ⟨sid, isInitiator, streamId, now⟩ isInitiator)
            stats := { (sv.requested now sid).stats with pairingsPending := sv.stats.pairingsPending + 1 } }) ∨
        (∃ pair other, sv.pairing.lookup token = some pair ∧ pair.slot isInitiator = none ∧
          pair.slot (!isInitiator) = some other ∧
          out = .matched ⟨token, ⟨other.sessionId, other.isInitiator, other.clientStreamId⟩, ⟨sid, isInitiator, streamId⟩⟩ ∧
          sv' = { sv.requested now sid with
            pairing := sv.pairing.erase token
            stats := { (sv.requested now sid).stats with
              pairingsPending := sv.stats.pairingsPending - 1
              pairingsMatched := sv.stats.pairingsMatched + 1
              pairingsActive := sv.stats.pairingsActive + 1 } }))) := by
  unfold tryPair at h
  simp only at h
  split at h
  next hlimit =>
    cases h
    exact .inl ⟨hlimit, rfl, rfl⟩
  rename_i hlimit
  refine .inr ⟨Nat.lt_of_not_le hlimit, ?_⟩
  split at h
  next hslot =>
    cases h
    left
    obtain ⟨l, hl⟩ := Option.isSome_iff_exists.mp hslot
    obtain ⟨pair, hp, hl⟩ := PendingPairing.slot_getD hl
    exact ⟨pair, l, hp, hl, rfl, rfl⟩
  next hslot =>
    have hfree := Option.not_isSome_iff_eq_none.mp hslot
    right
    split at h
    next hother =>
      cases h
      exact .inl ⟨hfree, hother, rfl, rfl⟩
    next other hother =>
      cases h
      obtain ⟨pair, hp, hother⟩ := PendingPairing.slot_getD hother
      rw [hp] at hfree
      exact .inr ⟨pair, other, hp, hfree, hother, rfl, rfl⟩

/-- What an unpair finds: a request that waits, of the session or of another one, or a pairing that is active, or nothing. -/
theorem unpair_cases {out : UnpairOutcome} (h : sv.unpair now sid token = (out, sv')) :
    (∃ pair, sv.pairing.lookup token = some pair ∧ pair.holds sid = false ∧ out = .notFound ∧
      sv' = sv.touchSession now sid) ∨
    (∃ pair, sv.pairing.lookup token = some pair ∧ pair.holds sid = true ∧ out = .cancelled ∧
      sv' = { sv.touchSession now sid with
        pairing := if pair.clear sid = .empty then sv.pairing.erase token else sv.pairing.insert token (pair.clear sid)
        stats := { sv.stats with
          pairingsCancelled := sv.stats.pairingsCancelled + 1
          pairingsPending := sv.stats.pairingsPending - 1 } }) ∨
    (sv.pairing.lookup token = none ∧ sv.activePairings.lookup token = none ∧ out = .notFound ∧
      sv' = sv.touchSession now sid) ∨
    (sv.pairing.lookup token = none ∧ ∃ pair, sv.activePairings.lookup token = some pair ∧ out = .destroyed ∧
      sv' = { sv.touchSession now sid with
        activePairings := sv.activePairings.erase token
        stats := { sv.stats with pairingsActive := sv.stats.pairingsActive - 1 }
        signalled := sv.signalled ++ [pair.teardownTx] }) := by
  unfold unpair at h
  have hlookup : (sv.touchSession now sid).pairing.lookup token = sv.pairing.lookup token := rfl
  simp only [hlookup] at h
  split at h
  next hnone =>
    unfold unpairActive at h
    split at h
    next hnoactive =>
      cases h
      exact .inr (.inr (.inl ⟨hnone, hnoactive, rfl, rfl⟩))
    next pair hpair =>
      cases h
      exact .inr (.inr (.inr ⟨hnone, pair, hpair, rfl, rfl⟩))
  next pair hpair =>
    split at h
    next hholds =>
      cases h
      exact .inl ⟨pair, hpair, by simpa using hholds, rfl, rfl⟩
    next hholds =>
      cases h
      exact .inr (.inl ⟨pair, hpair, by simpa using hholds, rfl, rfl⟩)

theorem lookup_releaseSession (sv : BlindRelayServer) (sid : Nat) (token : PairingToken) :
    (sv.releaseSession sid).pairing.lookup token = (sv.pairing.lookup token).bind (releaseLink sid) :=
  Assoc.lookup_retainMap token

theorem lookup_sweepExpiredPairings (sv : BlindRelayServer) (now : Nat) (token : PairingToken) :
    (sv.sweepExpiredPairings now).2.pairing.lookup token =
      (sv.pairing.lookup token).bind fun pair => if sv.expired now pair then none else some pair :=
  Assoc.lookup_retainMap token

theorem pairingsPending_erase {pair : PendingPairing} {n : Int} (hp : sv.pairing.lookup token = some pair)
    (h : n = sv.pairing.entries.length) : n - 1 = (sv.pairing.erase token).entries.length := by
  have hlen := Assoc.length_erase hp
  omega

theorem pairingsPending_retainMap {f : PairingToken → PendingPairing → Option PendingPairing} {n : Int}
    (h : n = sv.pairing.entries.length) :
    n - ((sv.pairing.entries.length - (Assoc.retainMap f sv.pairing).entries.length : Nat) : Int) =
      (Assoc.retainMap f sv.pairing).entries.length := by
  have hlen := Assoc.length_retainMap (f := f) (s := sv.pairing)
  omega

/-- What requests do not touch. -/
structure SameSlots (sv sv' : BlindRelayServer) : Prop where
  config : sv'.config = sv.config
  sessionCount : sv'.sessionCount = sv.sessionCount
  nextSessionId : sv'.nextSessionId = sv.nextSessionId

theorem sameSlots_tryPair {out : PairOutcome} (h : sv.tryPair now sid isInitiator token streamId count = (out, sv')) :
    SameSlots sv sv' := by
  obtain ⟨-, -, rfl⟩ | ⟨-, ⟨p, l', -, -, -, rfl⟩ | ⟨-, -, -, rfl⟩ | ⟨p, o, -, -, -, -, rfl⟩⟩ := tryPair_cases h
  all_goals exact ⟨rfl, rfl, rfl⟩

theorem sameSlots_unpair {out : UnpairOutcome} (h : sv.unpair now sid token = (out, sv')) : SameSlots sv sv' := by
  obtain ⟨p, -, -, -, rfl⟩ | ⟨p, -, -, -, rfl⟩ | ⟨-, -, -, rfl⟩ | ⟨-, a, -, -, rfl⟩ := unpair_cases h
  all_goals exact ⟨rfl, rfl, rfl⟩

end BlindRelayServer
end Peeroxide.Dht
