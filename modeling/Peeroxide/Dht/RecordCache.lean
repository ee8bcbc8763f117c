import Peeroxide.Dht.Messages
import Peeroxide.Lib.Assoc
import Peeroxide.Lib.Machine

/-!
# The record cache

Announcements are kept by topic, in buckets with one record for each public key. A full bucket loses its oldest record,
a full cache the oldest of all; records that have grown too old go when their bucket is read. Times are inputs, and so is
the choice between topics whose oldest records are equally old.

Main result: `record_cache_run`.
-/

namespace Peeroxide.Dht
open Lib List Assoc AList

structure RecordEntry where
  publicKey : Bytes32
  record : Bytes
  insertedAt : Nat
  deriving DecidableEq

structure RecordCache where
  entries : AList fun _ : String => List RecordEntry
  maxSize : Nat
  maxAge : Nat
  maxPerKey : Nat
  total : Nat

namespace RecordCache
variable {e : RecordEntry} {key' : String}

def new (maxSize maxAge maxPerKey : Nat) : RecordCache := ⟨∅, maxSize, maxAge, maxPerKey, 0⟩

def bucket (c : RecordCache) (key : String) : List RecordEntry := (c.entries.lookup key).getD []

/-- The bucket without the first of its oldest records. -/
def dropOldest (bucket : List RecordEntry) : Option (List RecordEntry) :=
  (bucket.zipIdx.argmin fun e => e.1.insertedAt).map fun e => bucket.eraseIdx e.2

def shrink (c : RecordCache) (key : String) (bucket : List RecordEntry) (removed : Nat) : RecordCache :=
  { c with entries := c.entries.insert key bucket, total := c.total - removed }

/-- A bucket that has become empty goes. -/
def prune (c : RecordCache) (key : String) (bucket : List RecordEntry) : RecordCache :=
  if bucket.isEmpty then { c with entries := c.entries.erase key } else c

/-- The topics with a record, each with the time of its oldest one. -/
def oldestTimes (c : RecordCache) : List (String × Nat) :=
  c.entries.entries.filterMap fun e => (e.2.map RecordEntry.insertedAt).min?.map (e.1, ·)

def evictOldest (c : RecordCache) (tie : Nat) : RecordCache :=
  match Assoc.pickLeast Prod.snd c.oldestTimes tie with
  | none => c
  | some (key, _) =>
    match c.entries.lookup key with
    | none => c
    | some bucket =>
      match dropOldest bucket with
      | some rest => (c.shrink key rest 1).prune key rest
      | none => c.prune key bucket

def evictFromBucket (c : RecordCache) (key : String) : RecordCache :=
  if c.maxPerKey ≤ (c.bucket key).length then
    match dropOldest (c.bucket key) with
    | some rest => c.shrink key rest 1
    | none => c
  else c

def push (c : RecordCache) (key : String) (entry : RecordEntry) : RecordCache :=
  { c with entries := c.entries.insert key (c.bucket key ++ [entry]), total := c.total + 1 }

def add (c : RecordCache) (now tie : Nat) (key : String) (publicKey : Bytes32) (record : Bytes) : RecordCache :=
  match (c.bucket key).findIdx? fun e => e.publicKey == publicKey with
  | some i =>
    { c with entries := c.entries.insert key ((c.bucket key).modify i fun e => { e with record, insertedAt := now }) }
  | none =>
    let c := c.evictFromBucket key
    let c := if c.maxSize ≤ c.total then c.evictOldest tie else c
    c.push key ⟨publicKey, record, now⟩

def remove (c : RecordCache) (key : String) (publicKey : Bytes32) : RecordCache :=
  match c.entries.lookup key with
  | none => c
  | some bucket =>
    let rest := bucket.filter fun e => e.publicKey ≠ publicKey
    (c.shrink key rest (bucket.length - rest.length)).prune key rest

def live (c : RecordCache) (now : Nat) (e : RecordEntry) : Bool := now - e.insertedAt < c.maxAge

/-- Up to `max` records. The old ones are taken out; a bucket that becomes empty stays. -/
def get (c : RecordCache) (now : Nat) (key : String) (max : Nat) : List Bytes × RecordCache :=
  match c.entries.lookup key with
  | none => ([], c)
  | some bucket =>
    let rest := bucket.filter (c.live now)
    ((rest.take max).map RecordEntry.record, c.shrink key rest (bucket.length - rest.length))

def destroy (c : RecordCache) : RecordCache := { c with entries := ∅, total := 0 }

def recordCount (c : RecordCache) : Nat := c.total

def topicCount (c : RecordCache) : Nat := c.entries.entries.length

/-! ## The counter and the limits -/

/-- What holds in every run: the counter is the number of records, the limits are kept, and the keys of a bucket are
distinct. -/
structure Inv (c : RecordCache) : Prop where
  counted : c.total = Assoc.total List.length c.entries
  size : c.total ≤ c.maxSize
  perKey : ∀ key bucket, c.entries.lookup key = some bucket → bucket.length ≤ c.maxPerKey
  distinct : ∀ key bucket, c.entries.lookup key = some bucket → (bucket.map RecordEntry.publicKey).Nodup

def Filled (c : RecordCache) : Prop := ∀ key bucket, c.entries.lookup key = some bucket → bucket ≠ []

variable {c : RecordCache} {key : String} {bucket rest : List RecordEntry}

theorem dropOldest_cons (e : RecordEntry) (es : List RecordEntry) :
    ∃ rest, dropOldest (e :: es) = some rest ∧ rest.Sublist (e :: es) ∧ rest.length = es.length := by
  have hzip : (e :: es).zipIdx ≠ [] := by simp
  obtain ⟨⟨x, i⟩, hx⟩ := Option.ne_none_iff_exists'.mp fun hnone =>
    hzip (argmin_eq_none (f := fun e : RecordEntry × Nat => e.1.insertedAt).mp hnone)
  have hlt : i < (e :: es).length := by
    have hbound := (mem_zipIdx (argmin_mem hx)).2.1
    omega
  refine ⟨(e :: es).eraseIdx i, by rw [dropOldest, hx]; rfl, eraseIdx_sublist _ _, ?_⟩
  rw [length_eraseIdx, if_pos hlt]
  rfl

theorem bucket_of_lookup (hlookup : c.entries.lookup key = some bucket) : c.bucket key = bucket := by
  rw [RecordCache.bucket, hlookup, Option.getD_some]

theorem total_insert (c : RecordCache) (key : String) (rest : List RecordEntry) :
    Assoc.total List.length (c.entries.insert key rest) + (c.bucket key).length =
      Assoc.total List.length c.entries + rest.length := by
  cases hlookup : c.entries.lookup key with
  | none =>
    rw [total_insert_of_none _ hlookup, RecordCache.bucket, hlookup]
    rfl
  | some bucket =>
    rw [bucket_of_lookup hlookup, total_insert_of_some _ hlookup]

theorem Inv.insert (h : Inv c) {total : Nat} (hcount : total + (c.bucket key).length = c.total + rest.length)
    (hsize : total ≤ c.maxSize) (hper : rest.length ≤ c.maxPerKey) (hdistinct : (rest.map RecordEntry.publicKey).Nodup) :
    Inv { c with entries := c.entries.insert key rest, total } := by
  have htotal := c.total_insert key rest
  have hcounted := h.counted
  refine ⟨?_, hsize, fun key' bucket' hb => ?_, fun key' bucket' hb => ?_⟩
  · dsimp only
    omega
  · rcases lookup_insert_some hb with ⟨-, rfl⟩ | hb
    · exact hper
    · exact h.perKey key' bucket' hb
  · rcases lookup_insert_some hb with ⟨-, rfl⟩ | hb
    · exact hdistinct
    · exact h.distinct key' bucket' hb

theorem Inv.limits (h : Inv c) (key : String) :
    (c.bucket key).length ≤ c.maxPerKey ∧ ((c.bucket key).map RecordEntry.publicKey).Nodup := by
  cases hlookup : c.entries.lookup key with
  | none =>
    rw [RecordCache.bucket, hlookup]
    exact ⟨Nat.zero_le _, nodup_nil⟩
  | some bucket =>
    rw [bucket_of_lookup hlookup]
    exact ⟨h.perKey key bucket hlookup, h.distinct key bucket hlookup⟩

theorem Inv.shrink (h : Inv c) (hsub : rest.Sublist (c.bucket key)) {removed : Nat}
    (hremoved : rest.length + removed = (c.bucket key).length) : Inv (c.shrink key rest removed) := by
  have htotal := c.total_insert key rest
  have hcounted := h.counted
  obtain ⟨hper, hdistinct⟩ := h.limits key
  exact h.insert (by omega) (Nat.le_trans (Nat.sub_le _ _) h.size) (hsub.length_le.trans hper) ((hsub.map _).nodup hdistinct)

theorem Inv.prune (h : Inv c) (hlookup : c.entries.lookup key = some bucket) : Inv (c.prune key bucket) := by
  unfold RecordCache.prune
  split
  next hempty =>
    have htotal := total_erase List.length hlookup
    rw [List.isEmpty_iff.mp hempty, length_nil] at htotal
    exact ⟨h.counted.trans htotal, h.size, fun key' bucket' hb => h.perKey key' bucket' (lookup_erase_some hb).2,
      fun key' bucket' hb => h.distinct key' bucket' (lookup_erase_some hb).2⟩
  · exact h

theorem lookup_shrink (c : RecordCache) (key : String) (rest : List RecordEntry) (removed : Nat) :
    (c.shrink key rest removed).entries.lookup key = some rest := lookup_insert ..

theorem Inv.dropped (h : Inv c) {es : List RecordEntry} (hb : c.bucket key = e :: es) :
    ∃ rest, dropOldest (c.bucket key) = some rest ∧
      rest.length = es.length ∧ Inv (c.shrink key rest 1) ∧ (c.shrink key rest 1).total + 1 = c.total := by
  obtain ⟨rest, hdrop, hsub, hlen⟩ := dropOldest_cons e es
  have htotal := c.total_insert key rest
  rw [← hb] at hdrop hsub
  have hremoved : rest.length + 1 = (c.bucket key).length := by rw [hb, hlen, length_cons]
  refine ⟨rest, hdrop, hlen, h.shrink hsub hremoved, ?_⟩
  show c.total - 1 + 1 = c.total
  rw [h.counted]
  omega

theorem oldestTimes_ne_nil (hlookup : c.entries.lookup key = some bucket) (hne : bucket ≠ []) : c.oldestTimes ≠ [] := by
  obtain ⟨t, ht⟩ := Option.isSome_iff_exists.mp
    (isSome_min?_of_ne_nil (mt map_eq_nil_iff.mp hne) : (bucket.map RecordEntry.insertedAt).min?.isSome)
  refine ne_nil_of_mem (a := (key, t)) (mem_filterMap.mpr ⟨⟨key, bucket⟩, ?_, ?_⟩)
  · exact mem_lookup_iff.mp hlookup
  · rw [ht]
    rfl

theorem lookup_of_oldestTimes {t : Nat} (h : (key, t) ∈ c.oldestTimes) :
    ∃ e es, c.entries.lookup key = some (e :: es) := by
  obtain ⟨⟨key', bucket⟩, hmem, hmin⟩ := mem_filterMap.mp h
  obtain ⟨t', ht', heq⟩ := Option.map_eq_some_iff.mp hmin
  cases heq
  cases bucket with
  | nil => cases ht'
  | cons e es => exact ⟨e, es, mem_lookup_iff.mpr hmem⟩

theorem Inv.evictOldest (h : Inv c) (hpos : 0 < c.total) (tie : Nat) :
    Inv (c.evictOldest tie) ∧ (c.evictOldest tie).total + 1 = c.total := by
  rw [h.counted] at hpos
  obtain ⟨key, bucket, hlookup, hne⟩ := exists_of_total_pos List.length hpos
  obtain ⟨⟨key', t⟩, hpick⟩ := exists_pickLeast Prod.snd tie
    (oldestTimes_ne_nil hlookup (ne_nil_of_length_pos hne))
  obtain ⟨e, es, hchosen⟩ := lookup_of_oldestTimes (pickLeast_mem hpick).1
  have hb := bucket_of_lookup hchosen
  obtain ⟨rest, hdrop, -, hinv, htotal⟩ := h.dropped hb
  have heq : c.evictOldest tie = (c.shrink key' rest 1).prune key' rest := by
    rw [RecordCache.evictOldest, hpick]
    dsimp only
    rw [hchosen]
    dsimp only
    rw [← hb, hdrop]
  have hprune : ((c.shrink key' rest 1).prune key' rest).total = (c.shrink key' rest 1).total := by
    unfold RecordCache.prune
    split <;> rfl
  rw [heq, hprune]
  exact ⟨hinv.prune (lookup_shrink ..), htotal⟩

structure Thinner (c c' : RecordCache) : Prop where
  maxSize : c'.maxSize = c.maxSize
  maxPerKey : c'.maxPerKey = c.maxPerKey
  bucket : ∀ key, (c'.bucket key).Sublist (c.bucket key)

theorem Thinner.refl (c : RecordCache) : Thinner c c := ⟨rfl, rfl, fun _ => .refl _⟩

theorem Thinner.trans {c c' c'' : RecordCache} (h : Thinner c c') (h' : Thinner c' c'') : Thinner c c'' :=
  ⟨h'.maxSize.trans h.maxSize, h'.maxPerKey.trans h.maxPerKey, fun key => (h'.bucket key).trans (h.bucket key)⟩

theorem lookup_of_bucket_ne_nil (hne : c.bucket key ≠ []) : c.entries.lookup key = some (c.bucket key) := by
  cases hlookup : c.entries.lookup key with
  | none => exact absurd (by rw [RecordCache.bucket, hlookup]; rfl) hne
  | some bucket => rw [bucket_of_lookup hlookup]

theorem thinner_shrink (hsub : rest.Sublist (c.bucket key)) (removed : Nat) : Thinner c (c.shrink key rest removed) := by
  refine ⟨rfl, rfl, fun key' => ?_⟩
  by_cases hkey : key' = key
  · subst hkey
    rw [bucket_of_lookup (lookup_shrink ..)]
    exact hsub
  · have hsame : (c.shrink key rest removed).bucket key' = c.bucket key' :=
      congrArg (Option.getD · []) (lookup_insert_ne hkey)
    rw [hsame]

theorem thinner_prune (c : RecordCache) (key : String) (bucket : List RecordEntry) : Thinner c (c.prune key bucket) := by
  unfold RecordCache.prune
  split
  · refine ⟨rfl, rfl, fun key' => ?_⟩
    by_cases hkey : key' = key
    · subst hkey
      rw [RecordCache.bucket, lookup_erase]
      exact nil_sublist _
    · rw [RecordCache.bucket, lookup_erase_ne hkey, RecordCache.bucket]
  · exact .refl c

theorem thinner_dropOldest (hdrop : dropOldest (c.bucket key) = some rest) : Thinner c (c.shrink key rest 1) := by
  refine thinner_shrink ?_ 1
  obtain ⟨e, -, rfl⟩ := Option.map_eq_some_iff.mp hdrop
  exact eraseIdx_sublist _ _

theorem thinner_evictOldest (c : RecordCache) (tie : Nat) : Thinner c (c.evictOldest tie) := by
  unfold RecordCache.evictOldest
  split
  · exact .refl c
  · split
    · exact .refl c
    next key _ _ bucket hlookup =>
      split
      next rest hdrop =>
        rw [← bucket_of_lookup hlookup] at hdrop
        exact (thinner_dropOldest hdrop).trans (thinner_prune ..)
      · exact thinner_prune ..

theorem thinner_evictFromBucket (c : RecordCache) (key : String) : Thinner c (c.evictFromBucket key) := by
  unfold RecordCache.evictFromBucket
  split
  · split
    next hdrop =>
      exact thinner_dropOldest hdrop
    · exact .refl c
  · exact .refl c

theorem Inv.evictFromBucket (h : Inv c) (hper : 1 ≤ c.maxPerKey) (key : String) :
    Inv (c.evictFromBucket key) ∧ ((c.evictFromBucket key).bucket key).length < c.maxPerKey := by
  unfold RecordCache.evictFromBucket
  split
  next hfull =>
    have hlimit := (h.limits key).1
    obtain ⟨e, es, hb⟩ := exists_cons_of_length_pos (Nat.lt_of_lt_of_le hper hfull)
    obtain ⟨rest, hdrop, hlen, hinv, -⟩ := h.dropped hb
    rw [hdrop]
    refine ⟨hinv, ?_⟩
    rw [bucket_of_lookup (lookup_shrink ..), hlen]
    rwa [hb] at hlimit
  next hroom =>
    exact ⟨h, Nat.lt_of_not_le hroom⟩

theorem Inv.push (h : Inv c) (hsize : c.total < c.maxSize) (hper : (c.bucket key).length < c.maxPerKey)
    {entry : RecordEntry} (hnew : ∀ e ∈ c.bucket key, e.publicKey ≠ entry.publicKey) : Inv (c.push key entry) := by
  refine h.insert ?_ hsize (by rw [length_append]; exact hper) ?_
  · rw [length_append, Nat.add_right_comm]
    rfl
  · rw [map_append, nodup_append]
    refine ⟨(h.limits key).2, nodup_singleton _, fun a ha b hb => ?_⟩
    obtain ⟨e, he, rfl⟩ := mem_map.mp ha
    rw [map_singleton, mem_singleton] at hb
    rw [hb]
    exact hnew e he

theorem Inv.replace (h : Inv c) (hkeys : rest.map RecordEntry.publicKey = (c.bucket key).map RecordEntry.publicKey) :
    Inv { c with entries := c.entries.insert key rest } := by
  have hlen : rest.length = (c.bucket key).length := by
    rw [← length_map RecordEntry.publicKey, hkeys, length_map]
  exact h.insert (by rw [hlen]) h.size (hlen ▸ (h.limits key).1) (hkeys ▸ (h.limits key).2)

theorem map_modify_of_eq {α β : Type} {f : α → α} {g : α → β} (hf : ∀ a, g (f a) = g a) (xs : List α) (i : Nat) :
    (xs.modify i f).map g = xs.map g := by
  induction xs generalizing i with
  | nil => rw [modify_nil]
  | cons x xs ih =>
    cases i with
    | zero => rw [modify_zero_cons, map_cons, map_cons, hf]
    | succ i => rw [modify_succ_cons, map_cons, map_cons, ih]

theorem lookup_of_findIdx? {p : RecordEntry → Bool} {i : Nat} (h : (c.bucket key).findIdx? p = some i) :
    c.entries.lookup key = some (c.bucket key) := by
  refine lookup_of_bucket_ne_nil fun hnil => ?_
  rw [hnil] at h
  cases h

theorem Inv.add (h : Inv c) (hsize : 1 ≤ c.maxSize) (hper : 1 ≤ c.maxPerKey) (now tie : Nat) (key : String)
    (publicKey : Bytes32) (record : Bytes) : Inv (c.add now tie key publicKey record) := by
  unfold RecordCache.add
  split
  next i hi =>
    exact h.replace
      (map_modify_of_eq (f := fun e : RecordEntry => { e with record, insertedAt := now }) (fun _ => rfl) _ _)
  next hnone =>
    obtain ⟨hinv, hroom⟩ := h.evictFromBucket hper key
    have hthin := thinner_evictFromBucket c key
    dsimp only
    generalize c.evictFromBucket key = c₁ at hinv hthin hroom
    have hnext : ∃ c₂, (if c₁.maxSize ≤ c₁.total then c₁.evictOldest tie else c₁) = c₂ ∧ Inv c₂ ∧ Thinner c₁ c₂ ∧
        c₂.total < c₂.maxSize := by
      refine ⟨_, rfl, ?_⟩
      split
      next hfull =>
        obtain ⟨hinv₂, htotal⟩ := hinv.evictOldest (by have := hthin.maxSize; omega) tie
        have hthin₂ := thinner_evictOldest c₁ tie
        have hlimit := hinv.size
        exact ⟨hinv₂, hthin₂, by rw [hthin₂.maxSize]; omega⟩
      next hless =>
        exact ⟨hinv, .refl _, Nat.lt_of_not_le hless⟩
    obtain ⟨c₂, heq, hinv₂, hthin₂, hless⟩ := hnext
    have hsub := hthin₂.bucket key
    rw [heq]
    refine hinv₂.push hless ?_ fun e he => ?_
    · rw [hthin₂.maxPerKey, hthin.maxPerKey]
      exact Nat.lt_of_le_of_lt hsub.length_le hroom
    · have hmem := (hsub.trans (hthin.bucket key)).subset he
      have hother := findIdx?_eq_none_iff.mp hnone e hmem
      exact ne_of_beq_false hother

theorem Inv.remove (h : Inv c) (key : String) (publicKey : Bytes32) : Inv (c.remove key publicKey) := by
  unfold RecordCache.remove
  split
  · exact h
  next bucket hlookup =>
    have hle := length_filter_le (fun e : RecordEntry => decide (e.publicKey ≠ publicKey)) bucket
    rw [← bucket_of_lookup hlookup] at hle ⊢
    exact (h.shrink filter_sublist (by omega)).prune (lookup_shrink ..)

theorem mem_bucket_remove {publicKey : Bytes32} (he : e ∈ c.bucket key) (hne : e.publicKey ≠ publicKey) :
    e ∈ (c.remove key publicKey).bucket key := by
  have hlookup := lookup_of_bucket_ne_nil (ne_nil_of_mem he)
  have hmem : e ∈ (c.bucket key).filter fun e => e.publicKey ≠ publicKey :=
    mem_filter.mpr ⟨he, decide_eq_true hne⟩
  unfold RecordCache.remove
  rw [hlookup]
  dsimp only
  rw [prune, if_neg fun h => ne_nil_of_mem hmem (List.isEmpty_iff.mp h), bucket_of_lookup (lookup_shrink ..)]
  exact hmem

theorem Inv.get (h : Inv c) (now : Nat) (key : String) (max : Nat) : Inv (c.get now key max).2 := by
  unfold RecordCache.get
  split
  · exact h
  next bucket hlookup =>
    have hle := length_filter_le (c.live now) bucket
    rw [← bucket_of_lookup hlookup] at hle ⊢
    exact h.shrink filter_sublist (by omega)

/-! ## Empty buckets -/

def FilledAt (c : RecordCache) (key : String) : Prop := ∀ bucket, c.entries.lookup key = some bucket → bucket ≠ []

theorem FilledAt.insert (h : FilledAt c key') (hkey : key' ≠ key) (bucket : List RecordEntry)
    (total : Nat) : FilledAt { c with entries := c.entries.insert key bucket, total } key' := by
  intro bucket' hb
  refine h bucket' ?_
  rwa [lookup_insert_ne hkey] at hb

theorem filledAt_insert (hne : bucket ≠ []) (total : Nat) :
    FilledAt { c with entries := c.entries.insert key bucket, total } key := by
  intro bucket' hb
  rw [lookup_insert] at hb
  exact Option.some.inj hb ▸ hne

theorem FilledAt.prune (h : FilledAt c key') (key : String) (bucket : List RecordEntry) :
    FilledAt (c.prune key bucket) key' := by
  unfold RecordCache.prune
  split
  · exact fun bucket' hb => h bucket' (lookup_erase_some hb).2
  · exact h

theorem filledAt_prune (hlookup : c.entries.lookup key = some bucket) : FilledAt (c.prune key bucket) key := by
  unfold RecordCache.prune
  split
  · intro bucket' hb
    exact absurd rfl (lookup_erase_some hb).1
  next hne =>
    intro bucket' hb
    rw [hlookup] at hb
    exact Option.some.inj hb ▸ fun hnil => hne (List.isEmpty_iff.mpr hnil)

theorem FilledAt.pruned (h : FilledAt c key') (key : String) (rest : List RecordEntry) (removed : Nat) :
    FilledAt ((c.shrink key rest removed).prune key rest) key' := by
  by_cases hkey : key' = key
  · subst hkey
    exact filledAt_prune (lookup_shrink ..)
  · exact FilledAt.prune (h.insert hkey rest _) key rest

theorem FilledAt.evictOldest (h : FilledAt c key') (tie : Nat) : FilledAt (c.evictOldest tie) key' := by
  unfold RecordCache.evictOldest
  split
  · exact h
  · split
    · exact h
    · split
      · exact h.pruned _ _ _
      · exact h.prune _ _

theorem FilledAt.evictFromBucket (h : FilledAt c key') (hkey : key' ≠ key) :
    FilledAt (c.evictFromBucket key) key' := by
  unfold RecordCache.evictFromBucket
  split
  · split
    · exact h.insert hkey _ _
    · exact h
  · exact h

theorem Filled.add (h : Filled c) (now tie : Nat) (key : String) (publicKey : Bytes32) (record : Bytes) :
    Filled (c.add now tie key publicKey record) := by
  intro key'
  unfold RecordCache.add
  split
  next i hi =>
    by_cases hkey : key' = key
    · subst hkey
      refine filledAt_insert (fun hnil => h key' _ (lookup_of_findIdx? hi) ?_) c.total
      rw [← length_eq_zero_iff, length_modify] at hnil
      exact length_eq_zero_iff.mp hnil
    · exact FilledAt.insert (h key') hkey _ c.total
  · by_cases hkey : key' = key
    · subst hkey
      exact filledAt_insert (append_ne_nil_of_right_ne_nil _ (cons_ne_nil _ _)) _
    · refine FilledAt.insert ?_ hkey _ _
      have hfirst : FilledAt (c.evictFromBucket key) key' := FilledAt.evictFromBucket (h key') hkey
      split
      · exact hfirst.evictOldest tie
      · exact hfirst

theorem Filled.remove (h : Filled c) (key : String) (publicKey : Bytes32) : Filled (c.remove key publicKey) := by
  intro key'
  unfold RecordCache.remove
  split
  · exact h key'
  · exact FilledAt.pruned (h key') _ _ _

theorem filled_get (h : Filled c) (now : Nat) (key : String) (max : Nat) : Filled (c.get now key max).2 ↔
      ∀ bucket, c.entries.lookup key = some bucket → ∃ e ∈ bucket, c.live now e = true := by
  unfold RecordCache.get
  split
  next hnone =>
    refine iff_of_true h fun bucket hb => ?_
    rw [hnone] at hb
    cases hb
  next bucket hlookup =>
    have hexists : bucket.filter (c.live now) ≠ [] ↔ ∃ e ∈ bucket, c.live now e = true := by
      rw [← isEmpty_eq_false_iff, isEmpty_eq_false_iff_exists_mem]
      simp only [mem_filter]
    constructor
    · intro hfilled bucket' hb
      rw [hlookup] at hb
      rw [← Option.some.inj hb]
      exact hexists.mp (hfilled key _ (lookup_shrink ..))
    · intro hlive key'
      by_cases hkey : key' = key
      · subst hkey
        exact filledAt_insert (hexists.mpr (hlive bucket hlookup)) _
      · exact FilledAt.insert (h key') hkey _ _

/-! ## Every run -/

inductive Call where
  | add (now tie : Nat) (key : String) (publicKey : Bytes32) (record : Bytes)
  | remove (key : String) (publicKey : Bytes32)
  | get (now : Nat) (key : String) (max : Nat)

def step (c : RecordCache) : Call → RecordCache
  | .add now tie key publicKey record => c.add now tie key publicKey record
  | .remove key publicKey => c.remove key publicKey
  | .get now key max => (c.get now key max).2

/-- A read finds a record that is not too old in its bucket, if there is a bucket. -/
def LeavesLive (c : RecordCache) : Call → Prop
  | .get now key _ => ∀ bucket, c.entries.lookup key = some bucket → ∃ e ∈ bucket, c.live now e = true
  | _ => True

structure Sound (c : RecordCache) : Prop where
  inv : Inv c
  filled : Filled c
  topics : c.topicCount ≤ c.recordCount
  records : c.recordCount ≤ c.maxSize

theorem sound_of_filled (h : Inv c) (hf : Filled c) : Sound c := by
  refine ⟨h, hf, ?_, h.size⟩
  show c.entries.entries.length ≤ c.total
  rw [h.counted]
  exact length_le_total List.length fun key bucket hb => length_pos_iff.mpr (hf key bucket hb)

theorem step_limits (c : RecordCache) (call : Call) :
    (c.step call).maxSize = c.maxSize ∧ (c.step call).maxPerKey = c.maxPerKey := by
  cases call with
  | add now tie key publicKey record =>
    unfold step RecordCache.add
    dsimp only
    split
    · exact ⟨rfl, rfl⟩
    · have hbucket := thinner_evictFromBucket c key
      split
      · have hthin := hbucket.trans (thinner_evictOldest _ tie)
        exact ⟨hthin.maxSize, hthin.maxPerKey⟩
      · exact ⟨hbucket.maxSize, hbucket.maxPerKey⟩
  | remove key publicKey =>
    unfold step RecordCache.remove
    dsimp only
    split
    · exact ⟨rfl, rfl⟩
    · exact ⟨(thinner_prune (c.shrink key _ _) key _).maxSize, (thinner_prune (c.shrink key _ _) key _).maxPerKey⟩
  | get now key max =>
    unfold step RecordCache.get
    dsimp only
    split <;> exact ⟨rfl, rfl⟩

structure Usable (c : RecordCache) : Prop extends Inv c where
  someSize : 1 ≤ c.maxSize
  somePerKey : 1 ≤ c.maxPerKey

theorem Usable.step (h : Usable c) (call : Call) : Usable (c.step call) := by
  obtain ⟨hsize, hper⟩ := step_limits c call
  refine ⟨?_, by rw [hsize]; exact h.someSize, by rw [hper]; exact h.somePerKey⟩
  cases call with
  | add now tie key publicKey record => exact h.toInv.add h.someSize h.somePerKey now tie key publicKey record
  | remove key publicKey => exact h.toInv.remove key publicKey
  | get now key max => exact h.toInv.get now key max

theorem usable_new {maxSize maxPerKey : Nat} (hsize : 1 ≤ maxSize) (hper : 1 ≤ maxPerKey) (maxAge : Nat) :
    Usable (new maxSize maxAge maxPerKey) :=
  ⟨⟨rfl, Nat.zero_le _, fun _ _ hb => (nomatch hb), fun _ _ hb => (nomatch hb)⟩, hsize, hper⟩

theorem Filled.step_iff (h : Filled c) (call : Call) : Filled (c.step call) ↔ c.LeavesLive call := by
  cases call with
  | add now tie key publicKey record => exact iff_of_true (h.add now tie key publicKey record) trivial
  | remove key publicKey => exact iff_of_true (h.remove key publicKey) trivial
  | get now key max => exact filled_get h now key max

/-- **In every run the counter is the number of records, the limits are kept and the keys of a bucket are distinct; no
bucket is empty, and there are as many records as topics, just when every read leaves a record in its bucket.** -/
theorem record_cache_run {maxSize maxPerKey : Nat} (hsize : 1 ≤ maxSize) (hper : 1 ≤ maxPerKey) (maxAge : Nat)
    (calls : List Call) : Visits step Inv (new maxSize maxAge maxPerKey) calls ∧
      (Visits step Sound (new maxSize maxAge maxPerKey) calls ↔
        Along step LeavesLive (new maxSize maxAge maxPerKey) calls) := by
  have hstart := usable_new hsize hper maxAge
  refine ⟨Visits.imp (fun _ h => h.toInv) (visits_invariant (fun _ call h => h.step call) hstart calls),
    visits_iff_along (fun _ call h => h.step call) (fun c call h hs => ?_) hstart
      (sound_of_filled hstart.toInv fun _ _ hb => (nomatch hb)) calls⟩
  rw [← hs.filled.step_iff call]
  exact ⟨Sound.filled, sound_of_filled (h.step call).toInv⟩

/-- A record is read while it is not too old. -/
theorem record_cache_run_read : let key : Bytes32 := .fill 0
    Visits step Sound (new 1 60 1) [.add 0 0 "topic" key [1], .get 59 "topic" 20] := by
  intro key
  refine (record_cache_run (by decide) (by decide) 60 _).2.mpr ⟨trivial, fun bucket hb => ?_, trivial⟩
  have hbucket : bucket = [⟨key, [1], 0⟩] := by
    have hlookup : ((new 1 60 1).step (.add 0 0 "topic" key [1])).entries.lookup "topic" = some [⟨key, [1], 0⟩] := by
      decide +kernel
    exact Option.some.inj (hb.symm.trans hlookup)
  exact ⟨⟨key, [1], 0⟩, by rw [hbucket]; exact mem_singleton_self _, by decide +kernel⟩

/-- A read that takes the last record of a topic leaves the topic: one topic, no record. -/
theorem topic_without_record : let key : Bytes32 := .fill 0
    let c := run step (new 1 60 1) [.add 0 0 "topic" key [1], .get 60 "topic" 20]
    c.entries.lookup "topic" = some [] ∧ c.topicCount = 1 ∧ c.recordCount = 0 := by
  decide +kernel

end RecordCache
end Peeroxide.Dht
