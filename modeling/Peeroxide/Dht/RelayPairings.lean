import Peeroxide.Dht.RelayTables

/-!
# Waiting requests

Every call of the server is logged with its answer. A request that waits is one that was answered so and that no call has
ended since.

Main results: `pending_sound`, `unpair_own_iff`, `unpair_destroys_other`.
-/

namespace Peeroxide.Dht
open Lib List PendingPairing AList BlindRelayServer

/-! ## The log -/

inductive RelayCall where
  | tryAcceptSession
  | registerSession (now sessionId : Nat)
  | tryPair (now sessionId : Nat) (isInitiator : Bool) (token : PairingToken) (clientStreamId : UInt64) (count : Nat)
  | markActive (token : PairingToken) (sessionIds : Nat × Nat) (teardownTx : Nat)
  | unpair (now sessionId : Nat) (token : PairingToken)
  | releaseSession (sessionId : Nat)
  | sweepExpiredPairings (now : Nat)
  deriving DecidableEq

inductive RelayReply where
  | accepted (id : Option Nat)
  | paired (out : PairOutcome)
  | unpaired (out : UnpairOutcome)
  | swept (dropped : Nat)
  | done
  deriving DecidableEq

namespace BlindRelayServer

def answer (sv : BlindRelayServer) : RelayCall → RelayReply × BlindRelayServer
  | .tryAcceptSession => (.accepted sv.tryAcceptSession.1, sv.tryAcceptSession.2)
  | .registerSession now sessionId => (.done, sv.registerSession now sessionId)
  | .tryPair now sessionId isInitiator token clientStreamId count =>
    let r := sv.tryPair now sessionId isInitiator token clientStreamId count
    (.paired r.1, r.2)
  | .markActive token sessionIds teardownTx => (.done, sv.markActive token sessionIds teardownTx)
  | .unpair now sessionId token => (.unpaired (sv.unpair now sessionId token).1, (sv.unpair now sessionId token).2)
  | .releaseSession sessionId => (.done, sv.releaseSession sessionId)
  | .sweepExpiredPairings now => (.swept (sv.sweepExpiredPairings now).1, (sv.sweepExpiredPairings now).2)

end BlindRelayServer

structure Ledger where
  server : BlindRelayServer
  log : List (RelayCall × RelayReply)

namespace Ledger

def new (config : BlindRelayServerConfig) : Ledger := ⟨.new config, []⟩

def step (r : Ledger) (c : RelayCall) : Ledger := ⟨(r.server.answer c).2, r.log ++ [(c, (r.server.answer c).1)]⟩

end Ledger

/-- A call that unpairs, releases, expires or matches the request of a link. -/
def Ends (timeout : Nat) (token : PairingToken) (l : PendingLink) : RelayCall × RelayReply → Prop
  | (.unpair _ sessionId t, _) => t = token ∧ sessionId = l.sessionId
  | (.releaseSession sessionId, _) => sessionId = l.sessionId
  | (.sweepExpiredPairings now, _) => timeout < now - l.createdAt
  | (.tryPair _ _ _ t _ _, .paired (.matched _)) => t = token
  | _ => False

/-- Call `i` asked for this link and was told to wait, and no call since then has ended it. -/
def Waits (timeout : Nat) (log : List (RelayCall × RelayReply)) (token : PairingToken) (l : PendingLink) (i : Nat) : Prop :=
  (∃ count, log[i]? = some (.tryPair l.createdAt l.sessionId l.isInitiator token l.clientStreamId count, .paired .pending)) ∧
  ∀ k, i < k → ∀ e, log[k]? = some e → ¬ Ends timeout token l e

/-- Call `j` is answered with a match of its own request and of the one of call `i`, of the other role, that waits. -/
def Joins (timeout : Nat) (log : List (RelayCall × RelayReply)) (i j : Nat) : Prop :=
  ∃ now sessionId isInitiator token clientStreamId count l,
    log[j]? = some (.tryPair now sessionId isInitiator token clientStreamId count,
      .paired (.matched ⟨token, ⟨l.sessionId, l.isInitiator, l.clientStreamId⟩, ⟨sessionId, isInitiator, clientStreamId⟩⟩)) ∧
    l.isInitiator = !isInitiator ∧ i < j ∧ Waits timeout (log.take j) token l i

/-- Call `n` is one of the two that the match of call `j` joins. -/
def UsedIn (timeout : Nat) (log : List (RelayCall × RelayReply)) (n j : Nat) : Prop :=
  ∃ i, Joins timeout log i j ∧ (n = i ∨ n = j)

structure PendingSound (r : Ledger) : Prop where
  /-- Each entry has one link. -/
  single : ∀ token pair, r.server.pairing.lookup token = some pair → pair.Single
  /-- The statistic is the number of entries. -/
  counted : r.server.stats.pairingsPending = r.server.pairing.entries.length
  /-- Every match joins a request that waits. -/
  joined : ∀ j c m, r.log[j]? = some (c, .paired (.matched m)) → ∃ i, Joins r.server.config.pairingTimeout r.log i j
  /-- Each request is used in one match at the most. -/
  once : ∀ n j j', UsedIn r.server.config.pairingTimeout r.log n j → UsedIn r.server.config.pairingTimeout r.log n j' → j = j'

/-! ## One call -/

namespace BlindRelayServer
variable {sv : BlindRelayServer}

def AllSingle (sv : BlindRelayServer) : Prop := ∀ token pair, sv.pairing.lookup token = some pair → pair.Single

/-- A request that finds no other side finds no entry. -/
theorem AllSingle.lookup_eq_none (hs : sv.AllSingle) {token : PairingToken} {b : Bool}
    (hself : ((sv.pairing.lookup token).getD .empty).slot b = none)
    (hother : ((sv.pairing.lookup token).getD .empty).slot (!b) = none) : sv.pairing.lookup token = none := by
  cases hp : sv.pairing.lookup token with
  | none => rfl
  | some pair =>
    rw [hp] at hself hother
    obtain ⟨b', l, hl, -⟩ := hs token pair hp
    by_cases hb : b' = b
    · subst hb
      cases hself.symm.trans hl
    · rw [Bool.eq_not_of_ne hb] at hl
      cases hother.symm.trans hl

theorem releaseLink_of_single {p : PendingPairing} (h : p.Single) (sid : Nat) :
    releaseLink sid p = if p.holds sid then none else some p := by
  unfold releaseLink
  obtain ⟨hholds, hclear⟩ | ⟨hholds, hclear⟩ := h.clear sid
  · rw [if_pos ⟨hholds, hclear⟩, if_pos hholds]
  · simp [hholds, hclear]

section
variable (hs : sv.AllSingle) (c : RelayCall)
include hs

/-- What a call leaves in the table was there before and is not ended by it, unless the call's own request is told to
wait; and the statistic goes with the number of entries. -/
theorem answer_table : (sv.stats.pairingsPending = sv.pairing.entries.length →
      (sv.answer c).2.stats.pairingsPending = (sv.answer c).2.pairing.entries.length) ∧
    ((∀ token pair, (sv.answer c).2.pairing.lookup token = some pair → sv.pairing.lookup token = some pair ∧
        ∀ b l, pair.slot b = some l → ¬ Ends sv.config.pairingTimeout token l (c, (sv.answer c).1)) ∨
      ∃ now sid b token streamId count, c = .tryPair now sid b token streamId count ∧
        (sv.answer c).1 = .paired .pending ∧
        (sv.answer c).2.pairing = sv.pairing.insert token (PendingPairing.empty.put ⟨sid, b, streamId, now⟩ b)) := by
  cases c with
  | tryAcceptSession =>
    rw [answer, tryAcceptSession]
    split
    · exact ⟨id, .inl fun _ _ hp => ⟨hp, fun _ _ _ => id⟩⟩
    · exact ⟨id, .inl fun _ _ hp => ⟨hp, fun _ _ _ => id⟩⟩
  | registerSession now sid | markActive t ids tx => exact ⟨id, .inl fun _ _ hp => ⟨hp, fun _ _ _ => id⟩⟩
  | tryPair now sid isInitiator t streamId count =>
    cases hr : sv.tryPair now sid isInitiator t streamId count with
    | mk out sv' =>
      simp only [answer, hr]
      obtain ⟨-, rfl, rfl⟩ | ⟨-, ⟨p, l', -, -, rfl, rfl⟩ | ⟨hself, hother, rfl, rfl⟩ | ⟨p, o, hp, -, -, rfl, rfl⟩⟩ :=
        tryPair_cases hr
      · exact ⟨id, .inl fun _ _ hp => ⟨hp, fun _ _ _ => id⟩⟩
      · exact ⟨id, .inl fun _ _ hp => ⟨hp, fun _ _ _ => id⟩⟩
      · have hnone := hs.lookup_eq_none hself hother
        refine ⟨fun hcount => ?_, .inr ⟨now, sid, isInitiator, t, streamId, count, rfl, rfl, by rw [hnone]; rfl⟩⟩
        rw [entries_insert_of_notMem (lookup_eq_none.mp hnone), hcount]
        rfl
      · refine ⟨pairingsPending_erase hp, .inl fun token pair hlookup => ?_⟩
        obtain ⟨hne, hold⟩ := Assoc.lookup_erase_some hlookup
        exact ⟨hold, fun _ _ _ h => hne h.symm⟩
  | unpair now sid t =>
    cases hr : sv.unpair now sid t with
    | mk out sv' =>
      simp only [answer, hr]
      obtain ⟨p, hp, hholds, rfl, rfl⟩ | ⟨p, hp, hholds, rfl, rfl⟩ | ⟨hnone, -, rfl, rfl⟩ | ⟨hnone, a, -, rfl, rfl⟩ :=
        unpair_cases hr
      · refine ⟨id, .inl fun token pair hlookup => ⟨hlookup, ?_⟩⟩
        rintro b l hl ⟨rfl, rfl⟩
        cases hp.symm.trans hlookup
        rw [holds_iff.mpr ⟨b, l, hl, rfl⟩] at hholds
        cases hholds
      · rw [if_pos (((hs t p hp).clear sid).resolve_right fun h => nomatch h.1.symm.trans hholds).2]
        refine ⟨pairingsPending_erase hp, .inl fun token pair hlookup => ?_⟩
        obtain ⟨hne, hold⟩ := Assoc.lookup_erase_some hlookup
        exact ⟨hold, fun _ _ _ h => hne h.1.symm⟩
      all_goals
        refine ⟨id, .inl fun token pair hlookup => ⟨hlookup, ?_⟩⟩
        rintro b l hl ⟨rfl, -⟩
        cases hnone.symm.trans hlookup
  | releaseSession sid =>
    refine ⟨pairingsPending_retainMap, .inl fun token pair hlookup => ?_⟩
    rw [answer, lookup_releaseSession] at hlookup
    obtain ⟨p, hp, hkeep⟩ := Option.bind_eq_some_iff.mp hlookup
    rw [releaseLink_of_single (hs token p hp)] at hkeep
    split_ifs at hkeep with hholds
    cases hkeep
    exact ⟨hp, fun b l hl hsid => hholds (holds_iff.mpr ⟨b, l, hl, hsid.symm⟩)⟩
  | sweepExpiredPairings now =>
    refine ⟨pairingsPending_retainMap, .inl fun token pair hlookup => ?_⟩
    rw [answer, lookup_sweepExpiredPairings] at hlookup
    obtain ⟨p, hp, hkeep⟩ := Option.bind_eq_some_iff.mp hlookup
    split_ifs at hkeep with hexpired
    cases hkeep
    refine ⟨hp, fun b l hl hlate => hexpired ?_⟩
    obtain ⟨t, ht, hle⟩ := oldest_le hl
    have hlate' : sv.config.pairingTimeout < now - l.createdAt := hlate
    rw [expired, ht]
    exact decide_eq_true (by omega)

theorem answer_link {token : PairingToken} {pair' : PendingPairing} {b : Bool} {l : PendingLink}
    (hlookup : (sv.answer c).2.pairing.lookup token = some pair') (hl : pair'.slot b = some l) :
    (∃ pair, sv.pairing.lookup token = some pair ∧ pair.slot b = some l ∧
      ¬ Ends sv.config.pairingTimeout token l (c, (sv.answer c).1)) ∨
    (∃ count, c = .tryPair l.createdAt l.sessionId b token l.clientStreamId count ∧ (sv.answer c).1 = .paired .pending ∧
      l.isInitiator = b) := by
  obtain ⟨-, hkept | ⟨now, sid, b', t, streamId, count, rfl, hreply, htable⟩⟩ := answer_table hs c
  · obtain ⟨hold, hends⟩ := hkept token pair' hlookup
    exact .inl ⟨pair', hold, hl, hends b l hl⟩
  · rw [htable] at hlookup
    obtain ⟨rfl, rfl⟩ | hold := Assoc.lookup_insert_some hlookup
    · by_cases hb : b = b'
      · subst hb
        rw [slot_put_self] at hl
        cases hl
        exact .inr ⟨count, rfl, hreply, rfl⟩
      · rw [Bool.eq_not_of_ne hb, slot_put_not, slot_empty] at hl
        cases hl
    · rw [hreply]
      exact .inl ⟨pair', hold, hl, id⟩

theorem allSingle_answer : (sv.answer c).2.AllSingle := by
  intro token pair' hlookup
  obtain ⟨-, hkept | ⟨now, sid, b, t, streamId, count, -, -, htable⟩⟩ := answer_table hs c
  · exact hs token pair' (hkept token pair' hlookup).1
  · rw [htable] at hlookup
    obtain ⟨rfl, rfl⟩ | hold := Assoc.lookup_insert_some hlookup
    · exact .put _ (slot_empty _)
    · exact hs token pair' hold

end

theorem config_answer (sv : BlindRelayServer) (c : RelayCall) : (sv.answer c).2.config = sv.config := by
  cases c with
  | tryAcceptSession =>
    rw [answer, tryAcceptSession]
    split <;> rfl
  | tryPair now sid isInitiator t streamId count => exact (sameSlots_tryPair rfl).config
  | unpair now sid t => exact (sameSlots_unpair rfl).config
  | registerSession | markActive | releaseSession | sweepExpiredPairings => rfl

theorem answer_matched {c : RelayCall} {m : MatchedPairing} (h : (sv.answer c).1 = .paired (.matched m)) :
    ∃ now sid isInitiator token streamId count pair l,
      c = .tryPair now sid isInitiator token streamId count ∧ sv.pairing.lookup token = some pair ∧
      pair.slot (!isInitiator) = some l ∧
      m = ⟨token, ⟨l.sessionId, l.isInitiator, l.clientStreamId⟩, ⟨sid, isInitiator, streamId⟩⟩ := by
  cases c with
  | tryPair now sid isInitiator t streamId count =>
    cases hr : sv.tryPair now sid isInitiator t streamId count with
    | mk out sv' =>
      simp only [answer, hr] at h
      obtain ⟨-, rfl, -⟩ | ⟨-, ⟨p, l', -, -, rfl, -⟩ | ⟨-, -, rfl, -⟩ | ⟨p, o, hp, -, ho, rfl, -⟩⟩ := tryPair_cases hr
      · cases h
      · cases h
      · cases h
      · cases h
        exact ⟨now, sid, isInitiator, t, streamId, count, p, o, rfl, hp, ho, rfl⟩
  | _ => cases h

end BlindRelayServer

/-! ## Runs -/

/-- Every link in the table waits, in the slot of its role. -/
def LinksWait (r : Ledger) : Prop :=
  ∀ token pair b l, r.server.pairing.lookup token = some pair → pair.slot b = some l →
    l.isInitiator = b ∧ ∃ i, Waits r.server.config.pairingTimeout r.log token l i

section
variable {timeout : Nat} {log : List (RelayCall × RelayReply)} {token : PairingToken} {l : PendingLink} {i j : Nat}

theorem Waits.lt (h : Waits timeout log token l i) : i < log.length := by
  obtain ⟨⟨count, hi⟩, -⟩ := h
  exact (List.getElem?_eq_some_iff.mp hi).1

theorem Waits.snoc (h : Waits timeout log token l i) {e : RelayCall × RelayReply} (he : ¬ Ends timeout token l e) :
    Waits timeout (log ++ [e]) token l i := by
  have hlt := h.lt
  obtain ⟨⟨count, hi⟩, hsince⟩ := h
  refine ⟨⟨count, by rw [getElem?_append_left hlt, hi]⟩, fun k hk e' he' => ?_⟩
  by_cases hkl : k < log.length
  · rw [getElem?_append_left hkl] at he'
    exact hsince k hk e' he'
  · rw [getElem?_append_right (Nat.le_of_not_lt hkl)] at he'
    rw [mem_singleton.mp (mem_of_getElem? he')]
    exact he

theorem Joins.snoc (h : Joins timeout log i j) (e : RelayCall × RelayReply) : Joins timeout (log ++ [e]) i j := by
  obtain ⟨now, sid, isInitiator, token, streamId, count, l, hj, hrole, hij, hwaits⟩ := h
  have hlt := (List.getElem?_eq_some_iff.mp hj).1
  refine ⟨now, sid, isInitiator, token, streamId, count, l, ?_, hrole, hij, ?_⟩
  · rw [getElem?_append_left hlt, hj]
  · rw [take_append_of_le_length (Nat.le_of_lt hlt)]
    exact hwaits

/-- Between a request and its match there is no other match of its token. -/
theorem Joins.unique {j' : Nat} (h : Joins timeout log i j) (h' : Joins timeout log i j') : j = j' := by
  have hnot : ∀ {j j' : Nat}, Joins timeout log i j → Joins timeout log i j' → ¬ j < j' := by
    rintro j j' ⟨now, sid, isInitiator, token, streamId, count, l, hj, -, hij, ⟨n, hi⟩, -⟩
      ⟨now', sid', isInitiator', token', streamId', count', l', hj', -, hij', ⟨n', hi'⟩, hsince⟩ hlt
    have htoken : token = token' := by
      rw [getElem?_take_of_lt hij] at hi
      rw [getElem?_take_of_lt hij', hi, Option.some.injEq, Prod.mk.injEq, RelayCall.tryPair.injEq] at hi'
      exact hi'.1.2.2.2.1
    refine hsince j hij _ (by rw [getElem?_take_of_lt hlt, hj]) ?_
    exact htoken
  exact Nat.le_antisymm (Nat.le_of_not_lt (hnot h' h)) (Nat.le_of_not_lt (hnot h h'))

theorem Joins.ne {i' j' : Nat} (h : Joins timeout log i j) (h' : Joins timeout log i' j') : i ≠ j' := by
  rintro rfl
  obtain ⟨now, sid, isInitiator, token, streamId, count, l, -, -, hij, ⟨n, hi⟩, -⟩ := h
  obtain ⟨now', sid', isInitiator', token', streamId', count', l', hj', -⟩ := h'
  rw [getElem?_take_of_lt hij, hj'] at hi
  cases hi

theorem usedIn_unique {n j' : Nat} (h : UsedIn timeout log n j) (h' : UsedIn timeout log n j') : j = j' := by
  obtain ⟨i, hi, hn⟩ := h
  obtain ⟨i', hi', hn'⟩ := h'
  rcases hn with rfl | rfl
  · rcases hn' with rfl | rfl
    · exact hi.unique hi'
    · exact absurd rfl (hi.ne hi')
  · rcases hn' with rfl | rfl
    · exact absurd rfl (hi'.ne hi)
    · rfl

end

namespace Ledger

theorem linksWait_step {r : Ledger} (hs : r.server.AllSingle) (h : LinksWait r) (c : RelayCall) : LinksWait (r.step c) := by
  intro token pair' b l hlookup hl
  rw [show (r.step c).server = (r.server.answer c).2 from rfl, config_answer]
  obtain ⟨pair, hp, hslot, hends⟩ | ⟨count, hc, hreply, hrole⟩ := answer_link hs c hlookup hl
  · obtain ⟨hrole, i, hi⟩ := h token pair b l hp hslot
    exact ⟨hrole, i, hi.snoc hends⟩
  · refine ⟨hrole, r.log.length, ⟨count, ?_⟩, fun k hk e he => ?_⟩
    · show (r.log ++ [(c, (r.server.answer c).1)])[r.log.length]? = _
      rw [getElem?_append_right (le_refl _), Nat.sub_self, hreply, hc, hrole]
      rfl
    · have hlt := (List.getElem?_eq_some_iff.mp he).1
      rw [show (r.step c).log = r.log ++ [(c, (r.server.answer c).1)] from rfl, length_append,
        length_singleton] at hlt
      omega

theorem joined_step {r : Ledger} (hw : LinksWait r)
    (h : ∀ j c m, r.log[j]? = some (c, .paired (.matched m)) → ∃ i, Joins r.server.config.pairingTimeout r.log i j)
    (c : RelayCall) : ∀ j c' m, (r.step c).log[j]? = some (c', .paired (.matched m)) →
      ∃ i, Joins (r.step c).server.config.pairingTimeout (r.step c).log i j := by
  intro j c' m hj
  have hlog : (r.step c).log = r.log ++ [(c, (r.server.answer c).1)] := rfl
  rw [show (r.step c).server = (r.server.answer c).2 from rfl, config_answer, hlog]
  rw [hlog] at hj
  by_cases hlt : j < r.log.length
  · rw [getElem?_append_left hlt] at hj
    obtain ⟨i, hi⟩ := h j c' m hj
    exact ⟨i, hi.snoc _⟩
  · have hje : j = r.log.length := by
      have := (List.getElem?_eq_some_iff.mp hj).1
      rw [length_append, length_singleton] at this
      omega
    subst hje
    have hself := hj
    rw [getElem?_append_right (le_refl _), Nat.sub_self, getElem?_cons_zero, Option.some.injEq, Prod.mk.injEq] at hj
    obtain ⟨now, sid, isInitiator, token, streamId, count, pair, l, rfl, hp, hl, rfl⟩ := answer_matched hj.2
    obtain ⟨hrole, i, hi⟩ := hw token pair _ l hp hl
    refine ⟨i, now, sid, isInitiator, token, streamId, count, l, ?_, hrole, hi.lt, ?_⟩
    · rw [hself, hj.1]
    · rw [take_left]
      exact hi

end Ledger

/-- **In every state the waiting requests are those of the log, each match joins two of them, and none is used twice.** -/
theorem pending_sound (config : BlindRelayServerConfig) (cs : List RelayCall) :
    PendingSound (run Ledger.step (.new config) cs) := by
  have hinv := @run_invariant _ _ Ledger.step
    (fun r => r.server.AllSingle ∧ r.server.stats.pairingsPending = r.server.pairing.entries.length ∧ LinksWait r ∧
      ∀ j c m, r.log[j]? = some (c, .paired (.matched m)) → ∃ i, Joins r.server.config.pairingTimeout r.log i j)
    (fun r c ⟨hs, hcount, hw, hj⟩ => ⟨allSingle_answer hs c,
      (answer_table hs c).1 hcount, Ledger.linksWait_step hs hw c, Ledger.joined_step hw hj c⟩)
    (.new config) ⟨nofun, rfl, nofun, nofun⟩ cs
  obtain ⟨hs, hcount, -, hj⟩ := hinv
  exact ⟨hs, hcount, hj, fun n j j' => usedIn_unique⟩

/-! ## Unpair -/

/-- An unpair ends a pairing only if the session is one of its two, and otherwise does nothing but note the activity. -/
structure OwnOnly (sv : BlindRelayServer) (now sid : Nat) (token : PairingToken) (out : UnpairOutcome) (sv' : BlindRelayServer) :
    Prop where
  pending : ∀ t p, sv.pairing.lookup t = some p → sv'.pairing.lookup t ≠ some p → p.holds sid = true
  active : ∀ t a, sv.activePairings.lookup t = some a → sv'.activePairings.lookup t ≠ some a → a.has sid = true
  signals : ∀ tx ∈ sv'.signalled.drop sv.signalled.length, ∃ t a, sv.activePairings.lookup t = some a ∧
    a.teardownTx = tx ∧ a.has sid = true
  otherwise : (∀ p, sv.pairing.lookup token = some p → p.holds sid = false) →
    (∀ a, sv.activePairings.lookup token = some a → a.has sid = false) → out = .notFound ∧ sv' = sv.touchSession now sid

theorem ownOnly_touchSession (sv : BlindRelayServer) (now sid : Nat) (token : PairingToken) :
    OwnOnly sv now sid token .notFound (sv.touchSession now sid) where
  pending := fun t p hp hne => absurd hp hne
  active := fun t a ha hne => absurd ha hne
  signals := fun tx htx => by
    rw [show (sv.touchSession now sid).signalled = sv.signalled from rfl, drop_length] at htx
    cases htx
  otherwise := fun _ _ => ⟨rfl, rfl⟩

/-- **An unpair leaves the pairings of others alone just when the token waits or is not active with other sessions.** -/
theorem unpair_own_iff (sv : BlindRelayServer) (now sid : Nat) (token : PairingToken) :
    OwnOnly sv now sid token (sv.unpair now sid token).1 (sv.unpair now sid token).2 ↔
      sv.pairing.lookup token ≠ none ∨ ∀ a, sv.activePairings.lookup token = some a → a.has sid = true := by
  cases hr : sv.unpair now sid token with
  | mk out sv' =>
    obtain ⟨p, hp, -, rfl, rfl⟩ | ⟨p, hp, hholds, rfl, rfl⟩ | ⟨-, hnone, rfl, rfl⟩ | ⟨hnone, a, ha, rfl, rfl⟩ :=
      unpair_cases hr
    · exact iff_of_true (ownOnly_touchSession sv now sid token) (.inl (by rw [hp]; exact nofun))
    · refine iff_of_true ⟨fun t q hq hne => ?_, fun t a ha hne => absurd ha hne, fun tx htx => ?_, fun hno _ => ?_⟩
        (.inl (by rw [hp]; exact nofun))
      · by_cases ht : t = token
        · subst ht
          cases hp.symm.trans hq
          exact hholds
        · refine absurd ?_ hne
          split
          · rw [lookup_erase_ne ht, hq]
          · rw [lookup_insert_ne ht, hq]
      · have htx' : tx ∈ sv.signalled.drop sv.signalled.length := htx
        rw [drop_length] at htx'
        cases htx'
      · cases (hno p hp).symm.trans hholds
    · refine iff_of_true (ownOnly_touchSession sv now sid token) (.inr fun a ha => ?_)
      cases hnone.symm.trans ha
    · constructor
      · intro hown
        refine .inr fun a' ha' => ?_
        refine hown.active token a' ha' ?_
        rw [lookup_erase]
        exact nofun
      · intro hcond
        have hhas : a.has sid = true := (hcond.resolve_left fun h => h hnone) a ha
        refine ⟨fun t p hp hne => absurd hp hne, fun t a' ha' hne => ?_, fun tx htx => ?_, fun _ hno => ?_⟩
        · by_cases ht : t = token
          · subst ht
            cases ha.symm.trans ha'
            exact hhas
          · refine absurd ?_ hne
            rw [lookup_erase_ne ht, ha']
        · have htx' : tx ∈ (sv.signalled ++ [a.teardownTx]).drop sv.signalled.length := htx
          rw [drop_left, mem_singleton] at htx'
          exact ⟨token, a, ha, htx'.symm, hhas⟩
        · cases (hno a ha).symm.trans hhas

def zeroToken : PairingToken := .fill 0

/-- Sessions `1` and `2` are paired, and session `3` is accepted. -/
def pairedAndAnother : List RelayCall :=
  [.tryAcceptSession, .tryAcceptSession, .tryAcceptSession, .tryPair 0 1 true zeroToken 5 0,
    .tryPair 0 2 false zeroToken 6 0, .markActive zeroToken (1, 2) 0]

/-- Session `3` tears down the pairing of sessions `1` and `2`. -/
theorem unpair_destroys_other : let sv := (run Ledger.step (.new {}) pairedAndAnother).server
    sv.activePairings.lookup zeroToken = some ⟨(1, 2), 0⟩ ∧ (sv.unpair 1 3 zeroToken).1 = .destroyed ∧
      (sv.unpair 1 3 zeroToken).2.signalled = [0] ∧
      ¬ OwnOnly sv 1 3 zeroToken (sv.unpair 1 3 zeroToken).1 (sv.unpair 1 3 zeroToken).2 := by
  intro sv
  have hactive : sv.activePairings.lookup zeroToken = some ⟨(1, 2), 0⟩ := by decide +kernel
  refine ⟨hactive, by decide +kernel, by decide +kernel, fun hown => ?_⟩
  have hafter : (sv.unpair 1 3 zeroToken).2.activePairings.lookup zeroToken = none := by decide +kernel
  have hhas := hown.active zeroToken _ hactive (by rw [hafter]; exact nofun)
  revert hhas
  decide

end Peeroxide.Dht
