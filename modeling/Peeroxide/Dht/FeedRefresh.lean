import Peeroxide.Dht.MutableStore

/-!
# Records that are put again

A publisher puts its record again from time to time so that it does not expire: with the same sequence number, unless
there is something new. The store rejects a put whose sequence number is the stored one, and does not note the time.

Main result: `feed_refresh`.
-/

namespace Peeroxide.Dht
open Lib Option

namespace Persistent
variable {crypto : Crypto} {p : Persistent} {a g : Arrival} {target : NodeId} {put : MutablePutRequest}
variable {entry : CacheEntry} {record : MutableGetResponse}

structure ReadsRecord (g : Arrival) (target : NodeId) : Prop where
  command : g.req.command = MUTABLE_GET
  addressed : g.req.target = some target
  seq : ∃ value ∈ g.req.value, requestedSeq value = 0

def KeepsRecord (crypto : Crypto) (target : NodeId) (p : Persistent) (a : Arrival) : Prop :=
  (p.mutables.entries.lookup (toHex target)).isSome →
    ((p.step crypto a).mutables.entries.lookup (toHex target)).isSome

/-- From `since` on, for as long as a record lives, a get is answered with a record; other requests may come in
between, if they do not evict it. -/
def ServedFrom (crypto : Crypto) (target : NodeId) (since : Nat) (p : Persistent) : Prop :=
  ∀ others g, (∀ b ∈ others, b.req.command = MUTABLE_PUT → ∀ put, ¬ Puts crypto b.req target put) →
    Along (step crypto) (KeepsRecord crypto target) p others → ReadsRecord g target → since ≤ g.moment.now →
    g.moment.now < since + p.mutables.maxAge →
    ∃ bytes, ((run (step crypto) p others).handle crypto g.moment g.ownId g.req).1 = .value (some bytes)

def ServesPut (crypto : Crypto) (target : NodeId) (p : Persistent) (a : Arrival) : Prop :=
  a.req.command = MUTABLE_PUT → ∀ put, Puts crypto a.req target put →
    ServedFrom crypto target a.moment.now (p.step crypto a)

/-- A put for the target that finds a record is above it, or the record was stored at the same time. -/
def Renews (crypto : Crypto) (target : NodeId) (p : Persistent) (a : Arrival) : Prop :=
  a.req.command = MUTABLE_PUT → ∀ put, Puts crypto a.req target put →
    ∀ entry, p.mutables.entries.lookup (toHex target) = some entry →
      ∀ existing ∈ p.storedMutable a.moment.now target, existing.seq < put.seq ∨ a.moment.now ≤ entry.insertedAt

/-! ## Other requests -/

theorem step_maxAge (crypto : Crypto) (p : Persistent) (a : Arrival) :
    (p.step crypto a).mutables.maxAge = p.mutables.maxAge := by
  obtain ⟨-, hsame, -⟩ | ⟨target, put, -, -, -, hset⟩ := mutables_step crypto p a
  · rw [hsame]
  · rw [hset, LruCache.set_maxAge]

/-- A request that is no put for the target and does not evict its record leaves it as it is. -/
theorem lookup_step_other (hother : a.req.command = MUTABLE_PUT → ∀ put, ¬ Puts crypto a.req target put)
    (hkeeps : KeepsRecord crypto target p a) (hlookup : p.mutables.entries.lookup (toHex target) = some entry) :
    (p.step crypto a).mutables.entries.lookup (toHex target) = some entry := by
  obtain ⟨-, hsame, -⟩ | ⟨target', put, haccepted, hputs, -, hset⟩ := mutables_step crypto p a
  · rw [hsame]
    exact hlookup
  · have hcommand : a.req.command = MUTABLE_PUT := by
      by_contra hne
      rw [acceptedPut, if_neg fun h => hne h.1] at haccepted
      cases haccepted
    have hne : toHex target ≠ toHex target' := by
      intro hkey
      obtain rfl := toHex_injective hkey
      exact hother hcommand put hputs
    have hsome := hkeeps (by rw [hlookup]; rfl)
    rw [hset] at hsome ⊢
    obtain hsame | hgone :=
      LruCache.lookup_set_ne p.mutables a.moment.now (a.moment.tie .mutables) (storedBytes put) hne
    · rw [hsame]
      exact hlookup
    · rw [hgone] at hsome
      exact absurd hsome Bool.false_ne_true

theorem lookup_run_others {others : List Arrival}
    (hothers : ∀ b ∈ others, b.req.command = MUTABLE_PUT → ∀ put, ¬ Puts crypto b.req target put)
    (hkeeps : Along (step crypto) (KeepsRecord crypto target) p others)
    (hlookup : p.mutables.entries.lookup (toHex target) = some entry) :
    (run (step crypto) p others).mutables.entries.lookup (toHex target) = some entry ∧
      (run (step crypto) p others).mutables.maxAge = p.mutables.maxAge := by
  induction others generalizing p with
  | nil => exact ⟨hlookup, rfl⟩
  | cons b others ih =>
    obtain ⟨hb, hrest⟩ := List.forall_mem_cons.mp hothers
    obtain ⟨hfound, hage⟩ := ih hrest hkeeps.2 (lookup_step_other hb hkeeps.1 hlookup)
    exact ⟨hfound, hage.trans (step_maxAge crypto p b)⟩

/-! ## Gets -/

theorem ReadsRecord.handle_eq (h : ReadsRecord g target) (crypto : Crypto) (p : Persistent) : ∃ value, requestedSeq value = 0 ∧
    (p.handle crypto g.moment g.ownId g.req).1 =
      if ∃ stored ∈ p.storedMutable g.moment.now target, requestedSeq value ≤ stored.seq then
        .value (p.mutables.get g.moment.now (toHex target)) else .value none := by
  obtain ⟨value, hvalue, hseq⟩ := h.seq
  refine ⟨value, hseq, ?_⟩
  rw [handle_mutableGet h.command, onMutableGet, h.addressed, mem_def.mp hvalue]

section
variable (hlookup : p.mutables.entries.lookup (toHex target) = some entry)
include hlookup

theorem ReadsRecord.found (h : ReadsRecord g target)
    (hdecoded : decodeMutableGetResponseFromBytes entry.value = .ok record)
    (hfresh : g.moment.now - entry.insertedAt < p.mutables.maxAge) :
    (p.handle crypto g.moment g.ownId g.req).1 = .value (some entry.value) := by
  obtain ⟨value, hseq, heq⟩ := h.handle_eq crypto p
  have hget := LruCache.get_of_lookup hlookup hfresh
  have hstored : p.storedMutable g.moment.now target = some record := by
    rw [storedMutable, hget, bind_some, hdecoded]
    rfl
  rw [heq, hget, if_pos ⟨record, hstored, by rw [hseq]; exact UInt64.zero_le⟩]

theorem ReadsRecord.expired (h : ReadsRecord g target)
    (hold : p.mutables.maxAge ≤ g.moment.now - entry.insertedAt) :
    (p.handle crypto g.moment g.ownId g.req).1 = .value none := by
  obtain ⟨value, -, heq⟩ := h.handle_eq crypto p
  have hget : p.mutables.get g.moment.now (toHex target) = none := by
    rw [LruCache.get, hlookup, bind_some, if_pos hold]
  rw [heq, hget, ite_self]

/-! ## Puts -/

theorem servedFrom_of_lookup {since : Nat}
    (hdecoded : decodeMutableGetResponseFromBytes entry.value = .ok record) (hsince : since ≤ entry.insertedAt) :
    ServedFrom crypto target since p := by
  intro others g hothers hkeeps hreads _ hbefore
  obtain ⟨hfound, hage⟩ := lookup_run_others hothers hkeeps hlookup
  exact ⟨entry.value, hreads.found hfound hdecoded (by omega)⟩

end

theorem storedMutable_entry {now : Nat} {existing : MutableGetResponse}
    (h : existing ∈ p.storedMutable now target) : ∃ entry, p.mutables.entries.lookup (toHex target) = some entry ∧
      now - entry.insertedAt < p.mutables.maxAge ∧ decodeMutableGetResponseFromBytes entry.value = .ok existing := by
  obtain ⟨bytes, hget, hdecoded⟩ := bind_eq_some_iff.mp h
  obtain ⟨entry, hlookup, hlive⟩ := bind_eq_some_iff.mp hget
  split at hlive
  · cases hlive
  next hfresh =>
    cases hlive
    exact ⟨entry, hlookup, Nat.not_le.mp hfresh, toOption_eq_some.mp hdecoded⟩

theorem servesPut_of_renews (h : Renews crypto target p a) : ServesPut crypto target p a := by
  intro hcommand put hputs
  obtain ⟨-, hsame, hbelow⟩ | ⟨target', put', -, hputs', -, hset⟩ := mutables_step crypto p a
  · obtain ⟨existing, hmem, hle⟩ := hbelow hcommand target put hputs
    obtain ⟨entry, hlookup, -, hdecoded⟩ := storedMutable_entry hmem
    obtain hlt | hnew := h hcommand put hputs entry hlookup existing hmem
    · exact absurd hle (UInt64.not_le.mpr hlt)
    · exact servedFrom_of_lookup (by rw [hsame]; exact hlookup) hdecoded hnew
  · cases hputs'.requested.symm.trans hputs.requested
    have hlookup : (p.step crypto a).mutables.entries.lookup (toHex target) = some ⟨storedBytes put, a.moment.now⟩ := by
      rw [hset]
      exact LruCache.lookup_set ..
    have hdecoded : decodeMutableGetResponseFromBytes (storedBytes put) = .ok ⟨put.seq, put.value, put.signature⟩ :=
      decodeMutableGet_bytes _
    exact servedFrom_of_lookup hlookup hdecoded (Nat.le_refl _)

theorem plainGet_reads (now : Nat) (target : NodeId) : ReadsRecord (plainGet now target) target := ⟨rfl, rfl, _, rfl, rfl⟩

theorem renews_of_servesPut (h : ServesPut crypto target p a) : Renews crypto target p a := by
  intro hcommand put hputs entry hlookup existing hmem
  by_contra hnot
  obtain ⟨hseq, hold⟩ := not_or.mp hnot
  obtain ⟨entry', hlookup', hfresh, -⟩ := storedMutable_entry hmem
  obtain ⟨-, hsame, -⟩ | ⟨target', put', -, hputs', habove, -⟩ := mutables_step crypto p a
  · obtain ⟨last, hlast⟩ : ∃ last, last = a.moment.now + p.mutables.maxAge - 1 := ⟨_, rfl⟩
    obtain ⟨bytes, hserved⟩ := h hcommand put hputs [] (plainGet last target) nofun trivial (plainGet_reads _ _)
      (show _ ≤ last by omega) (by rw [step_maxAge]; show last < _; omega)
    have hexpired : ((p.step crypto a).handle crypto (plainGet last target).moment none (plainGet last target).req).1 =
        .value none := by
      refine (plainGet_reads _ _).expired (by rw [hsame]; exact hlookup) ?_
      rw [step_maxAge]
      show _ ≤ last - entry.insertedAt
      omega
    cases hexpired.symm.trans hserved
  · cases hputs'.requested.symm.trans hputs.requested
    exact hseq (habove existing hmem)

/-- **In every run each put makes its target served for as long as a record lives, just when every put that finds a
record is above it or as new.** -/
theorem feed_refresh (crypto : Crypto) (target : NodeId) (p : Persistent) (arrivals : List Arrival) :
    Along (step crypto) (ServesPut crypto target) p arrivals ↔ Along (step crypto) (Renews crypto target) p arrivals :=
  along_congr (I := fun _ => True) (fun _ _ _ => trivial) (fun _ _ _ => ⟨renews_of_servesPut, servesPut_of_renews⟩) trivial
    arrivals

/-! ## A record that is refreshed in vain -/

/-- The publisher's timer, in milliseconds. -/
def REFRESH_INTERVAL : Nat := 480 * 1000

section
variable {now : Nat} {key : Bytes32}
  (hstored : p.mutables.entries.lookup (toHex key) = some ⟨storedBytes (plainRecord key), 0⟩)
  (hfresh : now < p.mutables.maxAge)
include hstored hfresh

theorem storedMutable_plainRecord : p.storedMutable now key =
    some ⟨(plainRecord key).seq, (plainRecord key).value, (plainRecord key).signature⟩ := by
  have hget : p.mutables.get now (toHex key) = some _ := LruCache.get_of_lookup hstored hfresh
  rw [storedMutable, hget, bind_some, storedBytes, decodeMutableGet_bytes]
  rfl

theorem not_servesPut_again (hlater : 0 < now) : ¬ ServesPut plain key p (plainPut now key) := by
  intro hserves
  have hrenews := renews_of_servesPut hserves rfl _ (plainPut_puts now key) _ hstored _
    (storedMutable_plainRecord hstored hfresh)
  obtain hlt | hle := hrenews
  · exact UInt64.lt_irrefl _ hlt
  · exact Nat.not_le.mpr hlater hle

end

/-- A record is put at time 0 and refreshed every eight minutes, each time with the sequence number 0. After twenty
minutes it is gone, four minutes after the last refresh. -/
theorem refreshed_in_vain : let arrivals := [plainPut 0 (smallKey 1), plainPut REFRESH_INTERVAL (smallKey 1),
      plainPut (2 * REFRESH_INTERVAL) (smallKey 1)]
    let g := plainGet PersistentConfig.default.maxLruAge (smallKey 1)
    let p := run (step plain) (new .default) arrivals
    g.moment.now < 2 * REFRESH_INTERVAL + PersistentConfig.default.maxLruAge ∧ p.mutables.len = 1 ∧
      (p.handle plain g.moment g.ownId g.req).1 = .value none ∧
      ¬ Along (step plain) (ServesPut plain (smallKey 1)) (new .default) arrivals := by
  intro arrivals g p
  refine ⟨by decide, by decide +kernel, by decide +kernel, ?_⟩
  -- the first refresh finds the record, and does not renew it
  rintro ⟨-, hserves, -⟩
  exact not_servesPut_again (by decide +kernel) (by decide +kernel) (by decide) hserves

end Persistent
end Peeroxide.Dht
