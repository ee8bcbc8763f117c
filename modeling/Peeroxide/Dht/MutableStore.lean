import Peeroxide.Dht.Authority
import Peeroxide.Lib.History

/-!
# Mutable values

The store keeps one record for each target. While nothing expires and nothing is evicted it is a register for each
target, whose value is the last put that was accepted.

Main result: `mutable_store_run`.
-/

namespace Peeroxide.Dht
open Lib Option

namespace LruCache
variable {c : LruCache} {now : Nat} {key : String}

/-- An entry is stored under the key, and none was inserted before it. -/
def Oldest (c : LruCache) (key : String) : Prop :=
  ∃ e, c.entries.lookup key = some e ∧ ∀ k e', c.entries.lookup k = some e' → e.insertedAt ≤ e'.insertedAt

theorem oldest_of_pick {tie : Nat} {e : (_ : String) × CacheEntry}
    (h : Assoc.pickLeast (fun e => e.2.insertedAt) c.entries.entries tie = some e) : c.Oldest e.1 := by
  obtain ⟨he, hleast⟩ := Assoc.pickLeast_mem h
  exact ⟨e.2, AList.mem_lookup_iff.mpr he, fun k e' h' => hleast ⟨k, e'⟩ (AList.mem_lookup_iff.mp h')⟩

theorem makeRoom_cases (c : LruCache) (tie : Nat) : (c.makeRoom tie).entries = c.entries ∨
    ∃ key, c.maxSize ≤ c.len ∧ c.Oldest key ∧ (c.makeRoom tie).entries = c.entries.erase key := by
  unfold makeRoom
  split
  next hfull =>
    split
    next e hpick =>
      exact .inr ⟨e.1, hfull, oldest_of_pick hpick, rfl⟩
    · exact .inl rfl
  · exact .inl rfl

/-- Each of the oldest entries of a full table can be the one that goes. -/
theorem Oldest.exists_tie (h : c.Oldest key) (hfull : c.maxSize ≤ c.len) :
    ∃ tie, (c.makeRoom tie).entries = c.entries.erase key := by
  obtain ⟨e, he, hleast⟩ := h
  obtain ⟨tie, hpick⟩ := Assoc.exists_tie_pickLeast (f := fun e => e.2.insertedAt) (AList.mem_lookup_iff.mp he)
    fun y hy => hleast y.1 y.2 (AList.mem_lookup_iff.mpr hy)
  refine ⟨tie, ?_⟩
  unfold len at hfull
  rw [makeRoom, if_pos hfull, hpick]

theorem exists_oldest {e : CacheEntry} (h : c.entries.lookup key = some e) : ∃ k, c.Oldest k := by
  obtain ⟨x, hx⟩ := Assoc.exists_pickLeast (fun e => e.2.insertedAt) 0
    (List.ne_nil_of_mem (AList.mem_lookup_iff.mp h))
  exact ⟨x.1, oldest_of_pick hx⟩

theorem lookup_set (c : LruCache) (now tie : Nat) (key : String) (value : Bytes) :
    (c.set now tie key value).entries.lookup key = some ⟨value, now⟩ := AList.lookup_insert _

theorem lookup_set_other (c : LruCache) (now tie : Nat) (value : Bytes) {key key' : String} (hne : key' ≠ key) :
    (c.set now tie key value).entries.lookup key' = (c.makeRoom tie).entries.lookup key' := AList.lookup_insert_ne hne

theorem lookup_set_ne (c : LruCache) (now tie : Nat) (value : Bytes) {key key' : String} (hne : key' ≠ key) :
    (c.set now tie key value).entries.lookup key' = c.entries.lookup key' ∨
      (c.set now tie key value).entries.lookup key' = none := by
  rw [lookup_set_other c now tie value hne]
  obtain hsame | ⟨evicted, -, -, herase⟩ := makeRoom_cases c tie
  · rw [hsame]
    exact .inl rfl
  · rw [herase]
    by_cases hkey : key' = evicted
    · rw [hkey]
      exact .inr (AList.lookup_erase _ _)
    · exact .inl (AList.lookup_erase_ne hkey)

theorem set_maxAge (c : LruCache) (now tie : Nat) (key : String) (value : Bytes) :
    (c.set now tie key value).maxAge = c.maxAge := by
  unfold set makeRoom
  split
  · split <;> rfl
  · rfl

theorem get_of_lookup {entry : CacheEntry} (hlookup : c.entries.lookup key = some entry)
    (hfresh : now - entry.insertedAt < c.maxAge) : c.get now key = some entry.value := by
  rw [get, hlookup, bind_some, if_neg (Nat.not_le.mpr hfresh)]

/-- What replacing or inserting the key leaves of the other entries: all of them, or all but an oldest one when the key
is new and the table full. -/
structure Framed (c c' : LruCache) (key : String) : Prop where
  known : c.entries.lookup key ≠ none → ∀ k ≠ key, c'.entries.lookup k = c.entries.lookup k
  new : c.entries.lookup key = none → (∀ k ≠ key, c'.entries.lookup k = c.entries.lookup k) ∨
    c.maxSize ≤ c.len ∧ ∃ old, c.Oldest old ∧ c'.entries.lookup old = none ∧
      ∀ k ≠ key, k ≠ old → c'.entries.lookup k = c.entries.lookup k

/-- **Setting a key leaves the entries of the others, but for an oldest one that makes room for a new key, whichever of
several equally old entries is found first, exactly when the table is not full or the key is new or alone the oldest.**
A full table makes room before it looks whether the key is known. -/
theorem set_framed_iff (c : LruCache) (now : Nat) (key : String) (value : Bytes) :
    (∀ tie, Framed c (c.set now tie key value) key) ↔ ∀ e, c.entries.lookup key = some e →
      c.len < c.maxSize ∨ ∀ k e', c.entries.lookup k = some e' → k ≠ key → e.insertedAt < e'.insertedAt := by
  constructor
  · intro h e he
    by_cases hfull : c.len < c.maxSize
    · exact .inl hfull
    -- any other oldest entry is lost for some choice
    have hkey : ∀ k, c.Oldest k → k = key := by
      intro k hk
      by_contra hne
      obtain ⟨tie, htie⟩ := hk.exists_tie (Nat.le_of_not_lt hfull)
      obtain ⟨e', he', -⟩ := hk
      have hsame := (h tie).known (by simp [he]) k hne
      rw [lookup_set_other c now tie value hne, htie, AList.lookup_erase, he'] at hsame
      cases hsame
    refine .inr fun k e' he' hne => ?_
    by_contra hle
    obtain ⟨o, ho⟩ := exists_oldest he
    obtain rfl := hkey o ho
    obtain ⟨e₀, he₀, hleast⟩ := ho
    obtain rfl := Option.some.inj (he₀.symm.trans he)
    exact hne (hkey k ⟨e', he', fun k₂ e₂ h₂ => (Nat.le_of_not_lt hle).trans (hleast k₂ e₂ h₂)⟩)
  · intro h tie
    obtain hsame | ⟨old, hfull, hold, herase⟩ := makeRoom_cases c tie
    · have hall : ∀ k ≠ key, (c.set now tie key value).entries.lookup k = c.entries.lookup k := by
        intro k hne
        rw [lookup_set_other c now tie value hne, hsame]
      exact ⟨fun _ => hall, fun _ => .inl hall⟩
    have hrest : ∀ k ≠ key, k ≠ old → (c.set now tie key value).entries.lookup k = c.entries.lookup k := by
      intro k hne ho
      rw [lookup_set_other c now tie value hne, herase, AList.lookup_erase_ne ho]
    obtain ⟨e₀, he₀, hleast⟩ := id hold
    refine ⟨fun hknown k hne => hrest k hne ?_, fun hnew => .inr ⟨hfull, old, hold, ?_, hrest⟩⟩
    · rintro rfl
      obtain ⟨e, he⟩ := Option.ne_none_iff_exists'.mp hknown
      have := hleast key e he
      have := (h e he).resolve_left (Nat.not_lt.mpr hfull) k e₀ he₀ hne
      omega
    · have hne : old ≠ key := by rintro rfl; simp [he₀] at hnew
      rw [lookup_set_other c now tie value hne, herase, AList.lookup_erase]

/-- A table of two that is full: setting `b` again loses `a`. -/
theorem stored_key_evicts : let c := (((new 2 1000).set 0 0 "a" [1]).set 1 0 "b" [2])
    c.entries.lookup "a" = some ⟨[1], 0⟩ ∧ c.entries.lookup "b" = some ⟨[2], 1⟩ ∧
      (c.set 2 0 "b" [3]).entries.lookup "a" = none := by
  decide

end LruCache
open LruCache

namespace Persistent
variable {crypto : Crypto} {p : Persistent} {a : Arrival} {req : IncomingHyperRequest} {target : NodeId}
  {put : MutablePutRequest}
variable {m : Moment} {now : Nat} {ownId : Option NodeId} {puts : List (NodeId × MutablePutRequest)}

/-! ## Puts -/

/-- A put for `target`, with a valid signature of the key whose hash the target is. -/
structure Puts (crypto : Crypto) (req : IncomingHyperRequest) (target : NodeId) (put : MutablePutRequest) : Prop where
  addressed : req.target = some target
  token : req.token.isSome
  decoded : ∃ value ∈ req.value, decodeMutablePutRequestFromBytes value.1 = .ok put
  owner : crypto.hash put.publicKey.1 = target
  signed : crypto.verifyDetached put.signature (crypto.mutableSignable crypto.NS_MUTABLE_PUT put.seq put.value)
    put.publicKey = true

theorem verifiedPut_eq_some : verifiedPut crypto req = some (target, put) ↔ Puts crypto req target put := by
  simp only [verifiedPut, bind_eq_bind, bind_eq_some_iff, toOption_eq_some, ite_not,
    ite_none_right_eq_some, Option.some.injEq, Prod.mk.injEq]
  constructor
  · rintro ⟨target, ht, token, htok, value, hv, put, hput, howner, hsigned, rfl, rfl⟩
    exact ⟨ht, isSome_iff_exists.mpr ⟨token, htok⟩, ⟨value, hv, hput⟩, howner, hsigned⟩
  · rintro ⟨ht, htok, ⟨value, hv, hput⟩, howner, hsigned⟩
    obtain ⟨token, htok⟩ := isSome_iff_exists.mp htok
    exact ⟨target, ht, token, htok, value, hv, put, hput, howner, hsigned, rfl, rfl⟩

def storedBytes (put : MutablePutRequest) : Bytes := mutableGetBytes ⟨put.seq, put.value, put.signature⟩

/-- A put is rejected and changes nothing, or it is above the record that is stored and replaces it. -/
theorem onMutablePut_cases (crypto : Crypto) (p : Persistent) (m : Moment) (req : IncomingHyperRequest) :
    (∃ reply, reply ≠ .value none ∧ (∀ target put, Puts crypto req target put →
      ∃ existing ∈ p.storedMutable m.now target, put.seq ≤ existing.seq) ∧ p.onMutablePut crypto m req = (reply, p)) ∨
    ∃ target put, Puts crypto req target put ∧ (∀ existing ∈ p.storedMutable m.now target, existing.seq < put.seq) ∧
      p.onMutablePut crypto m req = (.value none, { p with
        mutables := p.mutables.set m.now (m.tie .mutables) (toHex target) (storedBytes put) }) := by
  unfold onMutablePut
  cases hverified : verifiedPut crypto req with
  | none =>
    refine .inl ⟨.silent, nofun, fun target put hputs => ?_, rfl⟩
    rw [verifiedPut_eq_some.mpr hputs] at hverified
    cases hverified
  | some verified =>
    obtain ⟨target, put⟩ := verified
    have hputs := verifiedPut_eq_some.mp hverified
    have hunique : ∀ target' put', Puts crypto req target' put' → target' = target ∧ put' = put := by
      intro target' put' hputs'
      cases (verifiedPut_eq_some.mpr hputs').symm.trans hverified
      exact ⟨rfl, rfl⟩
    dsimp only
    split_ifs with hreused hlow
    · refine .inl ⟨.error SEQ_REUSED, nofun, fun target' put' hputs' => ?_, rfl⟩
      obtain ⟨rfl, rfl⟩ := hunique target' put' hputs'
      obtain ⟨existing, hmem, hseq⟩ := hreused
      exact ⟨existing, hmem, hseq ▸ UInt64.le_refl _⟩
    · refine .inl ⟨.error SEQ_TOO_LOW, nofun, fun target' put' hputs' => ?_, rfl⟩
      obtain ⟨rfl, rfl⟩ := hunique target' put' hputs'
      obtain ⟨existing, hmem, hseq⟩ := hlow
      exact ⟨existing, hmem, UInt64.le_of_lt hseq⟩
    · refine .inr ⟨target, put, hputs, fun existing hmem => ?_, by rw [encodeMutableGet_ok]; rfl⟩
      have hne : existing.seq ≠ put.seq := fun h => hreused ⟨existing, hmem, h⟩
      have hnot : ¬ put.seq < existing.seq := fun h => hlow ⟨existing, hmem, h⟩
      exact UInt64.lt_of_le_of_ne (UInt64.not_lt.mp hnot) hne

theorem handle_mutablePut (hcommand : req.command = MUTABLE_PUT) :
    p.handle crypto m ownId req = p.onMutablePut crypto m req := by
  unfold handle
  rw [hcommand]
  rfl

theorem handle_mutableGet (hcommand : req.command = MUTABLE_GET) :
    p.handle crypto m ownId req = (p.onMutableGet m.now req, p) := by
  unfold handle
  rw [hcommand]
  rfl

theorem keepRefresh_mutables (p : Persistent) (m : Moment) (refresh : Option Bytes32) (record : Bytes) :
    (p.keepRefresh m refresh record).mutables = p.mutables := by
  cases refresh <;> rfl

theorem announceOther_mutables (p : Persistent) (m : Moment) (key : String) (publicKey : Bytes32) (bump : UInt64)
    (record : Bytes) : (p.announceOther m key publicKey bump record).mutables = p.mutables := by
  unfold announceOther
  split <;> rfl

theorem onAnnounce_mutables (m : Moment) (nodeId : NodeId) :
    (p.onAnnounce crypto m req nodeId).2.mutables = p.mutables := by
  refine onAnnounce_rule (P := fun r => r.2.mutables = p.mutables) rfl ?_ ?_
  · intro target msg peer encoded _ _ _
    exact keepRefresh_mutables ..
  · intro target msg peer encoded _ _ _
    exact (keepRefresh_mutables ..).trans (announceOther_mutables ..)

theorem onUnannounce_mutables (nodeId : NodeId) : (p.onUnannounce crypto req nodeId).2.mutables = p.mutables :=
  onUnannounce_rule (P := fun r => r.2.mutables = p.mutables) (fun _ => rfl) fun _ _ _ _ _ => rfl

theorem handle_mutables (hcommand : req.command ≠ MUTABLE_PUT) :
    (p.handle crypto m ownId req).2.mutables = p.mutables := by
  unfold handle
  split_ifs with hfind hlookup hannounce hunannounce hget himput himget
  · rfl
  · exact (onLookup_kept p m req).2
  · cases ownId with
    | none => rfl
    | some nodeId => exact onAnnounce_mutables m nodeId
  · cases ownId with
    | none => rfl
    | some nodeId => exact onUnannounce_mutables nodeId
  · rfl
  · exact (onImmutablePut_kept m).2
  · rfl
  · rfl

/-! ## Runs -/

def Fresh (p : Persistent) (now : Nat) : Prop :=
  ∀ key entry, p.mutables.entries.lookup key = some entry → now - entry.insertedAt < p.mutables.maxAge

/-- No entry has expired, and none is evicted by the step. -/
structure Kept (crypto : Crypto) (p : Persistent) (a : Arrival) : Prop where
  fresh : p.Fresh a.moment.now
  stays : ∀ key, (p.mutables.entries.lookup key).isSome → ((p.step crypto a).mutables.entries.lookup key).isSome

def recordAt (p : Persistent) (target : NodeId) : Option MutableGetResponse :=
  (p.mutables.entries.lookup (toHex target)).bind fun entry =>
    (decodeMutableGetResponseFromBytes entry.value).toOption

def requestedPut (req : IncomingHyperRequest) : Option (NodeId × MutablePutRequest) := do
  let target ← req.target
  let value ← req.value
  let put ← (decodeMutablePutRequestFromBytes value.1).toOption
  some (target, put)

def acceptedPut (crypto : Crypto) (p : Persistent) (a : Arrival) : Option (NodeId × MutablePutRequest) :=
  if a.req.command = MUTABLE_PUT ∧ (p.handle crypto a.moment a.ownId a.req).1 = .value none then requestedPut a.req
  else none

/-- The accepted puts of a run, the latest one last. -/
def acceptedPuts (crypto : Crypto) : Persistent → List Arrival → List (NodeId × MutablePutRequest)
  | _, [] => []
  | p, a :: arrivals => (p.acceptedPut crypto a).toList ++ acceptedPuts crypto (p.step crypto a) arrivals

/-- The table holds the latest of the puts, each of which is signed by the key whose hash is its target, in rising
order. -/
structure Registers (crypto : Crypto) (puts : List (NodeId × MutablePutRequest)) (p : Persistent) : Prop where
  stored : ∀ target,
    (p.mutables.entries.lookup (toHex target)).map CacheEntry.value = (latest puts target).map storedBytes
  signed : ∀ target put, (target, put) ∈ puts → crypto.hash put.publicKey.1 = target ∧
    crypto.verifyDetached put.signature (crypto.mutableSignable crypto.NS_MUTABLE_PUT put.seq put.value)
      put.publicKey = true
  rising : Rising (fun put => put.seq.toNat) puts

theorem Puts.requested (h : Puts crypto req target put) : requestedPut req = some (target, put) := by
  obtain ⟨value, hvalue, hdecoded⟩ := h.decoded
  simp only [requestedPut, h.addressed, mem_def.mp hvalue, hdecoded, Except.toOption, bind_eq_bind,
    bind_some]

/-- What a step does to the mutable values: nothing, if the record that is there is above it, or it stores an accepted put above the record that is there. -/
theorem mutables_step (crypto : Crypto) (p : Persistent) (a : Arrival) :
    (p.acceptedPut crypto a = none ∧ (p.step crypto a).mutables = p.mutables ∧
      (a.req.command = MUTABLE_PUT → ∀ target put, Puts crypto a.req target put →
        ∃ existing ∈ p.storedMutable a.moment.now target, put.seq ≤ existing.seq)) ∨
      ∃ target put, p.acceptedPut crypto a = some (target, put) ∧ Puts crypto a.req target put ∧
        (∀ existing ∈ p.storedMutable a.moment.now target, existing.seq < put.seq) ∧ (p.step crypto a).mutables =
          p.mutables.set a.moment.now (a.moment.tie .mutables) (toHex target) (storedBytes put) := by
  by_cases hcommand : a.req.command = MUTABLE_PUT
  · unfold acceptedPut step
    rw [handle_mutablePut hcommand]
    obtain ⟨reply, hreply, hbelow, heq⟩ | ⟨target, put, hputs, habove, heq⟩ :=
      onMutablePut_cases crypto p a.moment a.req
    · rw [heq]
      exact .inl ⟨if_neg fun h => hreply h.2, rfl, fun _ => hbelow⟩
    · rw [heq]
      exact .inr ⟨target, put, (if_pos ⟨hcommand, rfl⟩).trans hputs.requested, hputs, habove, rfl⟩
  · exact .inl ⟨if_neg fun h => hcommand h.1, handle_mutables hcommand, fun h => absurd h hcommand⟩

theorem storedMutable_of_fresh (h : p.Fresh now) (target : NodeId) :
    p.mutables.get now (toHex target) = (p.mutables.entries.lookup (toHex target)).map CacheEntry.value ∧
      p.storedMutable now target = p.recordAt target := by
  unfold storedMutable recordAt
  cases hlookup : p.mutables.entries.lookup (toHex target) with
  | none =>
    rw [LruCache.get, hlookup, bind_none]
    exact ⟨rfl, rfl⟩
  | some entry =>
    rw [get_of_lookup hlookup (h _ _ hlookup)]
    exact ⟨rfl, rfl⟩

theorem Kept.lookup_step {key : String} (h : Kept crypto p a) (hne : key ≠ toHex target) {value : Bytes}
    (hset : (p.step crypto a).mutables = p.mutables.set a.moment.now (a.moment.tie .mutables) (toHex target) value) :
    (p.step crypto a).mutables.entries.lookup key = p.mutables.entries.lookup key := by
  have hstays := h.stays key
  rw [hset] at hstays ⊢
  obtain hsame | hgone := lookup_set_ne p.mutables a.moment.now (a.moment.tie .mutables) value hne
  · exact hsame
  · rw [hgone] at hstays ⊢
    cases hlookup : p.mutables.entries.lookup key with
    | none => rfl
    | some entry =>
      rw [hlookup] at hstays
      exact absurd (hstays rfl) Bool.false_ne_true

theorem recordAt_of_latest (h : Registers crypto puts p) (target : NodeId) :
    p.recordAt target = (latest puts target).map fun put => ⟨put.seq, put.value, put.signature⟩ := by
  have hstored := h.stored target
  unfold recordAt
  cases hlookup : p.mutables.entries.lookup (toHex target) with
  | none =>
    rw [hlookup] at hstored
    rw [map_eq_none_iff.mp hstored.symm]
    rfl
  | some entry =>
    rw [hlookup] at hstored
    obtain ⟨put, hlatest, hbytes⟩ := map_eq_some_iff.mp hstored.symm
    rw [hlatest, bind_some, ← hbytes, storedBytes, decodeMutableGet_bytes]
    rfl

theorem Registers.step (h : Registers crypto puts p) (hkept : Kept crypto p a) :
    Registers crypto (puts ++ (p.acceptedPut crypto a).toList) (p.step crypto a) := by
  obtain ⟨hnone, hsame, -⟩ | ⟨target, put, haccepted, hputs, habove, hset⟩ := mutables_step crypto p a
  · rw [hnone, toList_none, List.append_nil]
    exact ⟨fun target => by rw [hsame]; exact h.stored target, h.signed, h.rising⟩
  · rw [haccepted, toList_some]
    refine ⟨fun target' => ?_, fun target' put' hmem => ?_, h.rising.append fun old hold => ?_⟩
    · rw [latest_append]
      split
      next hkey =>
        obtain rfl : target = target' := hkey
        rw [hset, lookup_set]
        rfl
      next hkey =>
        rw [hkept.lookup_step (fun hhex => hkey (toHex_injective hhex).symm) hset]
        exact h.stored target'
    · obtain hold | hnew := List.mem_append.mp hmem
      · exact h.signed target' put' hold
      · cases List.mem_singleton.mp hnew
        exact ⟨hputs.owner, hputs.signed⟩
    · rw [(storedMutable_of_fresh hkept.fresh target).2, recordAt_of_latest h] at habove
      exact UInt64.lt_iff_toNat_lt.mp (habove ⟨old.seq, old.value, old.signature⟩ (mem_map_of_mem _ hold))

theorem Registers.run {arrivals : List Arrival} (h : Registers crypto puts p)
    (hkept : Along (Persistent.step crypto) (Kept crypto) p arrivals) :
    Registers crypto (puts ++ acceptedPuts crypto p arrivals) (Lib.run (Persistent.step crypto) p arrivals) := by
  induction arrivals generalizing p puts with
  | nil => rwa [acceptedPuts, List.append_nil]
  | cons a arrivals ih =>
    have hnext := ih (h.step hkept.1) hkept.2
    rwa [List.append_assoc] at hnext

/-- The sequence number that is stored for a target does not go down. -/
def SeqRises (crypto : Crypto) (p : Persistent) (a : Arrival) : Prop :=
  ∀ target old, p.recordAt target = some old → ∃ new, (p.step crypto a).recordAt target = some new ∧ old.seq ≤ new.seq

theorem seqRises_of_kept (p : Persistent) (a : Arrival) (hkept : Kept crypto p a) : SeqRises crypto p a := by
  intro target old hold
  obtain ⟨-, hsame, -⟩ | ⟨target', put, -, -, habove, hset⟩ := mutables_step crypto p a
  · refine ⟨old, ?_, UInt64.le_refl _⟩
    rw [recordAt, hsame]
    exact hold
  · by_cases hkey : target = target'
    · subst hkey
      rw [(storedMutable_of_fresh hkept.fresh target).2] at habove
      refine ⟨⟨put.seq, put.value, put.signature⟩, ?_, UInt64.le_of_lt (habove old hold)⟩
      rw [recordAt, hset, lookup_set, bind_some, storedBytes, decodeMutableGet_bytes]
      rfl
    · refine ⟨old, ?_, UInt64.le_refl _⟩
      rw [recordAt, hkept.lookup_step (fun hhex => hkey (toHex_injective hhex)) hset]
      exact hold

theorem onMutableGet_registers {value : ByteVec} (h : Registers crypto puts p) (hfresh : p.Fresh now)
    (htarget : req.target = some target) (hvalue : req.value = some value) : p.onMutableGet now req =
      .value (((latest puts target).filter fun put => requestedSeq value ≤ put.seq).map storedBytes) := by
  obtain ⟨hget, hrecord⟩ := storedMutable_of_fresh hfresh target
  unfold onMutableGet
  rw [htarget, hvalue]
  dsimp only
  rw [hget, hrecord, recordAt_of_latest h, h.stored target]
  cases latest puts target with
  | none => simp
  | some put => by_cases hseq : requestedSeq value ≤ put.seq <;> simp [hseq, -UInt64.not_le]

/-- **While nothing expires and nothing is evicted, the table holds for each target the latest put that was accepted: it
is signed by the key whose hash is the target, the sequence numbers do not go down, a rejected put changes nothing, and
a get is answered by the latest put if its sequence number is high enough, and by nothing otherwise.** -/
theorem mutable_store_run (crypto : Crypto) (config : PersistentConfig) (arrivals : List Arrival)
    (hkept : Along (step crypto) (Kept crypto) (new config) arrivals) :
    let p := run (step crypto) (new config) arrivals
    let puts := acceptedPuts crypto (new config) arrivals
    Along (step crypto) (SeqRises crypto) (new config) arrivals ∧
    (∀ target, (p.mutables.entries.lookup (toHex target)).map CacheEntry.value = (latest puts target).map storedBytes) ∧
    (∀ target put, latest puts target = some put → crypto.hash put.publicKey.1 = target ∧
      crypto.verifyDetached put.signature (crypto.mutableSignable crypto.NS_MUTABLE_PUT put.seq put.value)
        put.publicKey = true) ∧
    (∀ a : Arrival, a.req.command = MUTABLE_PUT → (p.handle crypto a.moment a.ownId a.req).1 ≠ .value none →
      p.step crypto a = p) ∧
    (∀ (a : Arrival) target value, a.req.command = MUTABLE_GET → a.req.target = some target → a.req.value = some value →
      p.Fresh a.moment.now → (p.handle crypto a.moment a.ownId a.req).1 =
        .value (((latest puts target).filter fun put => requestedSeq value ≤ put.seq).map storedBytes)) := by
  intro p puts
  have hstart : Registers crypto [] (new config) := ⟨fun _ => rfl, nofun, .nil⟩
  have hregisters : Registers crypto puts p := hstart.run hkept
  refine ⟨hkept.imp seqRises_of_kept, hregisters.stored, fun target put hlatest => ?_, fun a hcommand hreply => ?_,
    fun a target value hcommand htarget hvalue hfresh => ?_⟩
  · exact hregisters.signed target put (mem_of_latest hlatest)
  · unfold step
    rw [handle_mutablePut hcommand] at hreply ⊢
    obtain ⟨reply, -, -, heq⟩ | ⟨target, put, -, -, heq⟩ := onMutablePut_cases crypto p a.moment a.req
    · rw [heq]
    · rw [heq] at hreply
      exact absurd rfl hreply
  · rw [handle_mutableGet hcommand]
    exact onMutableGet_registers hregisters hfresh htarget hvalue

/-! ## A record that is put and read -/

def plainRecord (key : Bytes32) : MutablePutRequest :=
  ⟨key, 0, ⟨[7], by decide⟩, plainSign key (plain.mutableSignable plain.NS_MUTABLE_PUT 0 ⟨[7], by decide⟩)⟩

theorem length_plainRecord (key : Bytes32) : (mutablePutBytes (plainRecord key)).length = 99 := by
  have hseq : (uintBytes 0).length = 1 := rfl
  have hvalue : (bufferBytes (some ⟨[7], by decide⟩)).length = 2 := rfl
  simp only [mutablePutBytes, plainRecord, List.length_append, key.2, (plainSign key _).2, hseq, hvalue]

def plainPut (now : Nat) (key : Bytes32) : Arrival where
  moment := ⟨now, fun _ => 0⟩
  ownId := none
  req := ⟨MUTABLE_PUT, some key, some zeroKey,
    some ⟨mutablePutBytes (plainRecord key), lt_of_eq_of_lt (length_plainRecord key) (by decide)⟩, ⟨"10.0.0.1", 1⟩, none⟩

def plainGet (now : Nat) (target : NodeId) : Arrival where
  moment := ⟨now, fun _ => 0⟩
  ownId := none
  req := ⟨MUTABLE_GET, some target, none, some ⟨[0], by decide⟩, ⟨"10.0.0.1", 1⟩, none⟩

theorem plainPut_puts (now : Nat) (key : Bytes32) : Puts plain (plainPut now key).req key (plainRecord key) :=
  ⟨rfl, rfl, ⟨_, rfl, decodeMutablePut_bytes _⟩, plain_hash key, plain_verify ..⟩

theorem kept_of_entries {p : Persistent} {a : Arrival} (h : ∀ e ∈ p.mutables.entries.entries,
      a.moment.now - e.2.insertedAt < p.mutables.maxAge ∧ ((p.step crypto a).mutables.entries.lookup e.1).isSome) :
    Kept crypto p a := by
  refine ⟨fun key entry hlookup => (h ⟨key, entry⟩ (AList.mem_lookup_iff.mp hlookup)).1, fun key hsome => ?_⟩
  obtain ⟨entry, hlookup⟩ := Option.isSome_iff_exists.mp hsome
  exact (h ⟨key, entry⟩ (AList.mem_lookup_iff.mp hlookup)).2

/-- Two records are put, the first once more, and this is read while it has not expired. -/
theorem mutable_store_run_read :
    let p := run (step plain) (new .default) [plainPut 0 (smallKey 1), plainPut 3 (smallKey 2), plainPut 4 (smallKey 1)]
    (p.handle plain (plainGet 5 (smallKey 1)).moment none (plainGet 5 (smallKey 1)).req).1 =
      .value (some (storedBytes (plainRecord (smallKey 1)))) := by
  intro p
  have hkept : Along (step plain) (Kept plain) (new .default)
      [plainPut 0 (smallKey 1), plainPut 3 (smallKey 2), plainPut 4 (smallKey 1)] := by
    have hsecond : Kept plain (run (step plain) (new .default) [plainPut 0 (smallKey 1)]) (plainPut 3 (smallKey 2)) :=
      kept_of_entries (by decide +kernel)
    have hthird : Kept plain (run (step plain) (new .default) [plainPut 0 (smallKey 1), plainPut 3 (smallKey 2)])
        (plainPut 4 (smallKey 1)) := kept_of_entries (by decide +kernel)
    exact ⟨kept_of_entries nofun, hsecond, hthird, trivial⟩
  have hages : ∀ e ∈ p.mutables.entries.entries, 5 - e.2.insertedAt < p.mutables.maxAge := by
    decide +kernel
  have hfresh : p.Fresh 5 := fun key entry hlookup => hages ⟨key, entry⟩ (AList.mem_lookup_iff.mp hlookup)
  obtain ⟨-, -, -, -, hget⟩ := mutable_store_run plain .default _ hkept
  replace hget := hget (plainGet 5 (smallKey 1)) (smallKey 1) ⟨[0], by decide⟩ rfl rfl rfl hfresh
  have hputs : acceptedPuts plain (new .default)
      [plainPut 0 (smallKey 1), plainPut 3 (smallKey 2), plainPut 4 (smallKey 1)] =
        [(smallKey 1, plainRecord (smallKey 1)), (smallKey 2, plainRecord (smallKey 2))] := by
    decide +kernel
  rw [hputs] at hget
  exact hget

end Persistent
end Peeroxide.Dht
