import Mathlib.Algebra.BigOperators.Fin
import Peeroxide.Dht.Peer
import Peeroxide.Lib.Machine
import Peeroxide.Lib.Sorted

/-!
# The routing table

Buckets of nodes by the number of leading bits an id shares with the table's own, each sorted by id and searched by
halving. A bucket that was never used and one that became empty behave alike, so a bucket is its list of nodes.

Main results: `table_run`, `closest_scanned`, `closest_not_nearest`.
-/

namespace Peeroxide.Dht
open Lib List Option

def K : Nat := 20

def NUM_BUCKETS : Nat := 256

structure Node where
  id : NodeId
  host : String
  port : UInt16
  token : Option ByteVec
  addedTick : Nat
  seenTick : Nat
  pingedTick : Nat
  downHints : UInt32
  deriving DecidableEq

/-- `BucketFull`: a node was rejected. -/
structure TableEvent where
  newNode : Node
  bucketIndex : Nat
  deriving DecidableEq

structure RoutingTable where
  id : NodeId
  k : Nat
  buckets : Nat → List Node
  size : Nat
  pendingEvents : List TableEvent

variable {t : RoutingTable}

/-! ## The index of a bucket -/

def leadingZeros (b : UInt8) : Nat := if b = 0 then 8 else 7 - Nat.log2 b.toNat

def bucketIndexFrom (i : Nat) : Bytes → Bytes → Nat
  | a :: as, b :: bs => if a ≠ b then i * 8 + leadingZeros (a ^^^ b) else bucketIndexFrom (i + 1) as bs
  | _, _ => NUM_BUCKETS - 1

theorem leadingZeros_xor_le {a b : UInt8} (h : a ≠ b) : leadingZeros (a ^^^ b) ≤ 7 := by
  rw [leadingZeros, if_neg fun hz => h (UInt8.xor_eq_zero_iff.mp hz)]
  omega

theorem bucketIndexFrom_lt {as bs : Bytes} {i : Nat} (h : i + as.length ≤ 32) :
    bucketIndexFrom i as bs < NUM_BUCKETS := by
  induction as generalizing bs i with
  | nil => simp [bucketIndexFrom, NUM_BUCKETS]
  | cons a as ih =>
    rw [length_cons] at h
    cases bs with
    | nil => simp [bucketIndexFrom, NUM_BUCKETS]
    | cons b bs =>
      unfold bucketIndexFrom
      split
      next hne =>
        have := leadingZeros_xor_le hne
        unfold NUM_BUCKETS
        omega
      · exact ih (by omega)

/-- Of three bytes the one with the fewest leading zeros is the far one. -/
theorem xor_lt_xor {a b c : UInt8} (ha : a ≠ 0) (hb : leadingZeros a < leadingZeros b)
    (hc : leadingZeros a < leadingZeros c) : (c ^^^ b).toNat < (c ^^^ a).toNat := by
  have hbelow {x : UInt8} (hx : leadingZeros a < leadingZeros x) : x.toNat < 2 ^ a.toNat.log2 := by
    by_cases h0 : x = 0
    · rw [h0]
      exact Nat.two_pow_pos _
    · rw [leadingZeros, leadingZeros, if_neg ha, if_neg h0] at hx
      exact (Nat.log2_lt fun h => h0 (UInt8.toNat.inj h)).mp (by omega)
  have habove : 2 ^ a.toNat.log2 ≤ a.toNat := Nat.log2_self_le fun h => ha (UInt8.toNat.inj h)
  rw [UInt8.toNat_xor, UInt8.toNat_xor]
  refine (Nat.xor_lt_two_pow (hbelow hc) (hbelow hb)).trans_le (Nat.le_of_not_lt fun hlt => ?_)
  have := Nat.xor_lt_two_pow (hbelow hc) hlt
  rw [← Nat.xor_assoc, Nat.xor_self, Nat.zero_xor] at this
  omega

theorem le_bucketIndexFrom {as bs : Bytes} {i : Nat} (h : i + bs.length ≤ 32) : i * 8 ≤ bucketIndexFrom i as bs + 1 := by
  induction bs generalizing as i with
  | nil =>
    simp only [bucketIndexFrom, NUM_BUCKETS]
    omega
  | cons b bs ih =>
    rw [length_cons] at h
    cases as with
    | nil =>
      simp only [bucketIndexFrom, NUM_BUCKETS]
      omega
    | cons a as =>
      have := @ih as (i + 1) (by omega)
      unfold bucketIndexFrom
      split <;> omega

/-- Two ids that share more leading bits with `os` than `xs` does are nearer to each other than to `xs`. -/
theorem xor_lt_of_bucketIndexFrom {i : Nat} {os ts xs ys : Bytes} (hi : i + os.length ≤ 32) (ht : ts.length = os.length)
    (hx : xs.length = os.length) (hy : ys.length = os.length)
    (hxy : bucketIndexFrom i xs os < bucketIndexFrom i ys os) (hxt : bucketIndexFrom i xs os < bucketIndexFrom i ts os) :
    (zipWith (· ^^^ ·) ts ys).map UInt8.toNat < (zipWith (· ^^^ ·) ts xs).map UInt8.toNat := by
  induction os generalizing i ts xs ys with
  | nil => simp [bucketIndexFrom] at hxy
  | cons o os ih =>
    obtain ⟨t, ts, rfl⟩ := exists_cons_of_length_eq_add_one ht
    obtain ⟨x, xs, rfl⟩ := exists_cons_of_length_eq_add_one hx
    obtain ⟨y, ys, rfl⟩ := exists_cons_of_length_eq_add_one hy
    rw [length_cons] at hi
    simp only [zipWith_cons_cons, map_cons, cons_lt_cons_iff]
    by_cases hxo : x = o
    · have heq {z : UInt8} {zs : Bytes} (hz : bucketIndexFrom i (x :: xs) (o :: os) < bucketIndexFrom i (z :: zs) (o :: os)) :
          z = o := by
        by_contra hne
        have := @le_bucketIndexFrom xs os (i + 1) (by omega)
        have := leadingZeros_xor_le hne
        simp only [bucketIndexFrom, ne_eq, hxo, hne, not_true, not_false_iff, if_true, if_false] at hz
        omega
      obtain rfl := heq hxy
      obtain rfl := heq hxt
      subst hxo
      simp only [bucketIndexFrom, ne_eq, not_true, if_false] at hxy hxt
      exact .inr ⟨rfl, ih (by omega) (Nat.succ.inj ht) (Nat.succ.inj hx) (Nat.succ.inj hy) hxy hxt⟩
    · have hzeros {z : UInt8} {zs : Bytes} (hz : bucketIndexFrom i (x :: xs) (o :: os) < bucketIndexFrom i (z :: zs) (o :: os)) :
          leadingZeros (x ^^^ o) < leadingZeros (z ^^^ o) := by
        by_cases hzo : z = o
        · rw [hzo, UInt8.xor_self]
          exact Nat.lt_succ_of_le (leadingZeros_xor_le hxo)
        · simp only [bucketIndexFrom, ne_eq, hxo, hzo, not_false_iff, if_true] at hz
          omega
      have h := xor_lt_xor (fun h => hxo (UInt8.xor_eq_zero_iff.mp h)) (hzeros hxy) (hzeros hxt)
      have hcancel (z : UInt8) : t ^^^ o ^^^ (z ^^^ o) = t ^^^ z := by
        rw [UInt8.xor_comm z, ← UInt8.xor_assoc, UInt8.xor_assoc t, UInt8.xor_self, UInt8.xor_zero]
      rw [hcancel, hcancel] at h
      exact .inl h

namespace RoutingTable
variable {done l r : List Node} {evt : TableEvent} {f : Node → Node} {i k size : Nat} {id target x : NodeId} {n node : Node}
  {old now : Option Node} {t t' : RoutingTable}

def bucketIndex (t : RoutingTable) (id : NodeId) : Nat := bucketIndexFrom 0 id.1 t.id.1

theorem bucketIndex_lt (t : RoutingTable) (id : NodeId) : t.bucketIndex id < NUM_BUCKETS :=
  bucketIndexFrom_lt (by rw [id.2])

/-- A node that shares fewer leading bits with the table's id than the target and another node do is the far one. -/
theorem distance_lt_of_bucketIndex {y : NodeId} (hy : t.bucketIndex x < t.bucketIndex y)
    (ht : t.bucketIndex x < t.bucketIndex target) : distance target y < distance target x :=
  xor_lt_of_bucketIndexFrom (by rw [t.id.2]) (target.2.trans t.id.2.symm) (x.2.trans t.id.2.symm) (y.2.trans t.id.2.symm)
    hy ht

/-! ## The calls -/

def withK (id : NodeId) (k : Nat) : RoutingTable := ⟨id, k, fun _ => [], 0, []⟩

def new (id : NodeId) : RoutingTable := withK id K

/-- The position of an id in a bucket, or the one where it belongs. -/
def search (nodes : List Node) (id : NodeId) : Except Nat Nat := binarySearchBy nodes fun n => compare n.id id

def setBucket (t : RoutingTable) (i : Nat) (nodes : List Node) : RoutingTable :=
  { t with buckets := Function.update t.buckets i nodes }

def add (t : RoutingTable) (node : Node) : Bool × RoutingTable :=
  let idx := t.bucketIndex node.id
  let nodes := t.buckets idx
  match search nodes node.id with
  | .ok pos => (true, t.setBucket idx (nodes.set pos node))
  | .error pos =>
    if nodes.length < t.k then (true, { t.setBucket idx (nodes.insertIdx pos node) with size := t.size + 1 })
    else (false, { t with pendingEvents := t.pendingEvents ++ [⟨node, idx⟩] })

def remove (t : RoutingTable) (id : NodeId) : Option Node × RoutingTable :=
  let idx := t.bucketIndex id
  let nodes := t.buckets idx
  match search nodes id with
  | .ok pos => (nodes[pos]?, { t.setBucket idx (nodes.eraseIdx pos) with size := t.size - 1 })
  | .error _ => (none, t)

def get (t : RoutingTable) (id : NodeId) : Option Node :=
  let nodes := t.buckets (t.bucketIndex id)
  match search nodes id with
  | .ok pos => nodes[pos]?
  | .error _ => none

def modify (t : RoutingTable) (id : NodeId) (f : Node → Node) : RoutingTable :=
  let idx := t.bucketIndex id
  let nodes := t.buckets idx
  match search nodes id with
  | .ok pos => t.setBucket idx (nodes.modify pos f)
  | .error _ => t

def nodes (t : RoutingTable) : List Node := (List.range NUM_BUCKETS).flatMap t.buckets

def isEmpty (t : RoutingTable) : Bool := t.size == 0

def pushUpTo (k : Nat) (result nodes : List Node) : List Node := result ++ nodes.take (k - result.length)

/-- The bucket of the target and those below it, then those above it. -/
def scanOrder (d : Nat) : List Nat := (List.range (d + 1)).reverse ++ (List.range (NUM_BUCKETS - (d + 1))).map (d + 1 + ·)

def closest (t : RoutingTable) (target : NodeId) (k : Nat) : List Node :=
  (scanOrder (t.bucketIndex target)).foldl (fun result i => pushUpTo k result (t.buckets i)) []

def rebuildWithId (t : RoutingTable) (newId : NodeId) : RoutingTable :=
  if t.id = newId then t
  else
    t.nodes.foldl (fun t node => if node.id = newId then t else (t.add node).2) (withK newId t.k)

/-- A node of an occupied bucket; the two numbers are the random choices. -/
def random (t : RoutingTable) (i j : Nat) : Option Node :=
  if t.size = 0 then none
  else
    let occupied := (List.range NUM_BUCKETS).filter fun i => !(t.buckets i).isEmpty
    match occupied[i % occupied.length]? with
    | some idx => (t.buckets idx)[j % (t.buckets idx).length]?
    | none => none

def drainEvents (t : RoutingTable) : List TableEvent × RoutingTable := (t.pendingEvents, { t with pendingEvents := [] })

/-! ## The invariant -/

/-- Buckets are sorted, hold their own nodes and at most `k` of them, and the size is their number. -/
structure Inv (t : RoutingTable) : Prop where
  sorted : ∀ i, SortedBy Node.id (t.buckets i)
  placed : ∀ i, ∀ n ∈ t.buckets i, t.bucketIndex n.id = i
  bounded : ∀ i, (t.buckets i).length ≤ t.k
  size_eq : t.size = t.nodes.length

theorem length_nodes (t : RoutingTable) : t.nodes.length = ∑ i ∈ Finset.range NUM_BUCKETS, (t.buckets i).length := by
  rw [nodes, length_flatMap]
  rfl

theorem mem_nodes (h : t.Inv) : n ∈ t.nodes ↔ n ∈ t.buckets (t.bucketIndex n.id) := by
  rw [nodes, mem_flatMap]
  constructor
  · rintro ⟨i, -, hn⟩
    rwa [h.placed i n hn]
  · intro hn
    exact ⟨_, mem_range.mpr (t.bucketIndex_lt n.id), hn⟩

/-! ## The place of an id in its bucket -/

/-- The bucket of an id around the node with this id, if there is one. -/
structure Split (t : RoutingTable) (id : NodeId) (l : List Node) (old : Option Node) (r : List Node) : Prop where
  bucket : t.buckets (t.bucketIndex id) = l ++ (old.toList ++ r)
  below : ∀ n ∈ l, n.id < id
  above : ∀ n ∈ r, id < n.id
  here : ∀ n ∈ old, n.id = id

theorem Split.mem_iff (hs : t.Split id l old r) : n ∈ t.buckets (t.bucketIndex id) ∧ n.id = id ↔ old = some n := by
  simp only [hs.bucket, mem_append, mem_toList]
  constructor
  · rintro ⟨hn | hn | hn, rfl⟩
    · exact absurd (hs.below n hn) (lt_irrefl _)
    · exact hn
    · exact absurd (hs.above n hn) (lt_irrefl _)
  · intro hn
    exact ⟨.inr (.inl hn), hs.here n hn⟩

theorem exists_split (h : t.Inv) (id : NodeId) : ∃ l old r, t.Split id l old r ∧
    search (l ++ (old.toList ++ r)) id = if old.isSome then .ok l.length else .error l.length := by
  cases hs : search (t.buckets (t.bucketIndex id)) id with
  | ok pos =>
    obtain ⟨l, n, r, hsplit, rfl, rfl⟩ := binarySearch_ok hs
    have hsorted := h.sorted (t.bucketIndex n.id)
    rw [hsplit] at hsorted
    obtain ⟨-, hl, hr⟩ := sortedBy_append_cons.mp hsorted
    exact ⟨l, some n, r, ⟨hsplit, hl, hr, by simp⟩, hsplit ▸ hs⟩
  | error pos =>
    obtain ⟨l, r, hsplit, rfl, hl, hr⟩ := binarySearch_error (h.sorted _) hs
    exact ⟨l, none, r, ⟨hsplit, hl, hr, by simp⟩, hsplit ▸ hs⟩

theorem get_iff_bucket (h : t.Inv) (id : NodeId) (n : Node) :
    t.get id = some n ↔ n ∈ t.buckets (t.bucketIndex id) ∧ n.id = id := by
  obtain ⟨l, old, r, hs, hsearch⟩ := exists_split h id
  rw [hs.mem_iff]
  simp only [get, hs.bucket, hsearch]
  cases old <;> simp

theorem Split.get_eq (h : t.Inv) (hs : t.Split id l old r) : t.get id = old :=
  Option.ext fun n => by rw [get_iff_bucket h, hs.mem_iff]

theorem get_eq_some (h : t.Inv) : t.get id = some n ↔ n ∈ t.nodes ∧ n.id = id := by
  rw [get_iff_bucket h, mem_nodes h]
  constructor <;> rintro ⟨hn, rfl⟩ <;> exact ⟨hn, rfl⟩

theorem buckets_setBucket (t : RoutingTable) (i j : Nat) (xs : List Node) :
    (t.setBucket i xs).buckets j = if j = i then xs else t.buckets j := by
  exact Function.update_apply ..

theorem length_nodes_setBucket (t : RoutingTable) (hi : i < NUM_BUCKETS) (xs : List Node) :
    (t.setBucket i xs).nodes.length + (t.buckets i).length = t.nodes.length + xs.length := by
  have hmem : i ∈ Finset.range NUM_BUCKETS := Finset.mem_range.mpr hi
  have hrest : ∑ j ∈ (Finset.range NUM_BUCKETS).erase i, ((t.setBucket i xs).buckets j).length =
      ∑ j ∈ (Finset.range NUM_BUCKETS).erase i, (t.buckets j).length := by
    refine Finset.sum_congr rfl fun j hj => ?_
    exact congrArg List.length (Function.update_of_ne (Finset.ne_of_mem_erase hj) ..)
  have hself : (t.setBucket i xs).buckets i = xs := Function.update_self ..
  rw [length_nodes, length_nodes, ← Finset.add_sum_erase _ _ hmem, ← Finset.add_sum_erase _ (fun j => (t.buckets j).length) hmem, hself]
  omega

/-- The table with another node, or none, at the place of an id. -/
def put (t : RoutingTable) (id : NodeId) (l : List Node) (now : Option Node) (r : List Node) (size : Nat) : RoutingTable :=
  { t.setBucket (t.bucketIndex id) (l ++ (now.toList ++ r)) with size }

theorem buckets_put (t : RoutingTable) (id : NodeId) (l : List Node) (now : Option Node) (r : List Node) (size i : Nat) :
    (t.put id l now r size).buckets i = if i = t.bucketIndex id then l ++ (now.toList ++ r) else t.buckets i :=
  buckets_setBucket ..

theorem Split.put_self (hs : t.Split id l old r) : t.put id l old r t.size = t := by
  rw [put, ← hs.bucket, setBucket, Function.update_eq_self]

theorem Split.put (hs : t.Split id l old r) (hnew : ∀ n ∈ now, n.id = id) : (t.put id l now r size).Split id l now r :=
  ⟨(buckets_put ..).trans (if_pos rfl), hs.below, hs.above, hnew⟩

/-- **One place of the table.** Another node with the same id, or none, keeps the invariant if the bucket has room, and
changes the lookup of this id only. -/
theorem put_spec (h : t.Inv) (hs : t.Split id l old r) (hnew : ∀ n ∈ now, n.id = id)
    (hroom : (l ++ (now.toList ++ r)).length ≤ t.k) (hsize : size + old.toList.length = t.size + now.toList.length) :
    (t.put id l now r size).Inv ∧ ∀ x, (t.put id l now r size).get x = if x = id then now else t.get x := by
  have hbase : SortedBy Node.id (l ++ r) := by
    have hsorted := h.sorted (t.bucketIndex id)
    rw [hs.bucket] at hsorted
    exact List.Pairwise.sublist (List.Sublist.append_left (sublist_append_right ..) l) hsorted
  have hinv : (t.put id l now r size).Inv := by
    refine ⟨fun j => ?_, fun j n hn => ?_, fun j => ?_, ?_⟩
    · rw [buckets_put]
      split_ifs
      · cases now with
        | none => exact hbase
        | some n => exact sortedBy_append_cons.mpr ⟨hbase, hnew n rfl ▸ hs.below, hnew n rfl ▸ hs.above⟩
      · exact h.sorted j
    · show t.bucketIndex n.id = j
      rw [buckets_put] at hn
      split_ifs at hn with hj
      · rw [hj]
        have hold : n ∈ l ++ r → t.bucketIndex n.id = t.bucketIndex id := by
          intro hn
          refine h.placed _ n ?_
          rw [hs.bucket]
          exact (List.Sublist.append_left (sublist_append_right ..) l).subset hn
        simp only [mem_append, mem_toList] at hn hold
        rcases hn with hn | hn | hn
        · exact hold (.inl hn)
        · rw [hnew n hn]
        · exact hold (.inr hn)
      · exact h.placed j n hn
    · rw [buckets_put]
      split_ifs
      · exact hroom
      · exact h.bounded j
    · have hnodes := length_nodes_setBucket t (t.bucketIndex_lt id) (l ++ (now.toList ++ r))
      have hold := h.size_eq
      rw [hs.bucket] at hnodes
      simp only [length_append] at hnodes
      show size = (t.setBucket (t.bucketIndex id) (l ++ (now.toList ++ r))).nodes.length
      omega
  refine ⟨hinv, fun x => ?_⟩
  split_ifs with hx
  · rw [hx, (hs.put hnew).get_eq hinv]
  · refine Option.ext fun n => ?_
    rw [get_iff_bucket h, get_iff_bucket hinv]
    show n ∈ (t.put id l now r size).buckets (t.bucketIndex x) ∧ n.id = x ↔ _
    rw [buckets_put]
    refine and_congr_left fun hid => ?_
    split_ifs with hi
    · have hold : old ≠ some n := fun hn => hx (hid.symm.trans (hs.here n hn))
      have hno : now ≠ some n := fun hn => hx (hid.symm.trans (hnew n hn))
      simp [hi, hs.bucket, hold, hno]
    · rfl

theorem inv_withK (id : NodeId) (k : Nat) : (withK id k).Inv := by
  refine ⟨fun _ => .nil, fun _ _ hn => absurd hn not_mem_nil, fun _ => Nat.zero_le _, ?_⟩
  rw [length_nodes]
  exact (Finset.sum_eq_zero fun _ _ => rfl).symm

/-! ## What the calls do -/

section
variable {t : RoutingTable} (h : t.Inv)
variable {f : Node → Node} {node : Node}
include h

theorem add_cases (node : Node) : ∃ l old r, t.Split node.id l old r ∧
    ((old = none → (t.buckets (t.bucketIndex node.id)).length < t.k) ∧
      t.add node = (true, t.put node.id l (some node) r (t.size + 1 - old.toList.length)) ∨
    old = none ∧ (t.buckets (t.bucketIndex node.id)).length = t.k ∧
      t.add node = (false, { t with pendingEvents := t.pendingEvents ++ [⟨node, t.bucketIndex node.id⟩] })) := by
  obtain ⟨l, old, r, hs, hsearch⟩ := exists_split h node.id
  refine ⟨l, old, r, hs, ?_⟩
  have hlen := h.bounded (t.bucketIndex node.id)
  simp only [add, hs.bucket, hsearch] at hlen ⊢
  cases old with
  | some n => simp [put, setBucket]
  | none =>
    by_cases hk : l.length + r.length < t.k
    · simp [put, insertIdx_length, hk]
    · simp at hlen ⊢
      omega

theorem remove_eq (id : NodeId) : ∃ l old r, t.Split id l old r ∧
    t.remove id = (old, t.put id l none r (t.size - old.toList.length)) := by
  obtain ⟨l, old, r, hs, hsearch⟩ := exists_split h id
  refine ⟨l, old, r, hs, ?_⟩
  simp only [remove, hs.bucket, hsearch]
  cases old with
  | some n => simp [put, eraseIdx_append_of_length_le]
  | none => simp [hs.put_self]

theorem remove_of_none {id : NodeId} (hget : t.get id = none) : t.remove id = (none, t) := by
  obtain ⟨l, old, r, hs, he⟩ := remove_eq h id
  obtain rfl : none = old := hget.symm.trans (hs.get_eq h)
  rw [he]
  exact congrArg _ hs.put_self

theorem modify_eq (id : NodeId) (f : Node → Node) : ∃ l old r, t.Split id l old r ∧
    t.modify id f = t.put id l (old.map f) r t.size := by
  obtain ⟨l, old, r, hs, hsearch⟩ := exists_split h id
  refine ⟨l, old, r, hs, ?_⟩
  simp only [modify, hs.bucket, hsearch]
  cases old with
  | some n => simp [put, modify_length, setBucket]
  | none => simp [hs.put_self]

theorem add_spec (node : Node) : (t.add node).2.Inv ∧ ((t.add node).1 = true →
    ∀ id, (t.add node).2.get id = if id = node.id then some node else t.get id) := by
  obtain ⟨l, old, r, hs, ⟨hroom, he⟩ | ⟨-, -, he⟩⟩ := add_cases h node <;> rw [he]
  · have hk := h.bounded (t.bucketIndex node.id)
    rw [hs.bucket] at hroom hk
    refine And.imp_right (fun hget _ => hget) (put_spec h hs (by simp) ?_ ?_)
    · cases old <;> simp at hroom hk ⊢ <;> omega
    · cases old <;> simp
  · exact ⟨{ h with }, by simp⟩

theorem Inv.add (node : Node) : (t.add node).2.Inv := (add_spec h node).1

theorem get_add_of_true (hadd : (t.add node).1 = true) (id : NodeId) :
    (t.add node).2.get id = if id = node.id then some node else t.get id := (add_spec h node).2 hadd id

/-- A node that was not taken is not found, its bucket is full, and the table only has one more event. -/
theorem add_of_false (hadd : (t.add node).1 = false) :
    t.get node.id = none ∧ (t.buckets (t.bucketIndex node.id)).length = t.k ∧
      (t.add node).2 = { t with pendingEvents := t.pendingEvents ++ [⟨node, t.bucketIndex node.id⟩] } := by
  obtain ⟨l, old, r, hs, ⟨-, he⟩ | ⟨rfl, hlen, he⟩⟩ := add_cases h node
  · rw [he] at hadd
    cases hadd
  · exact ⟨hs.get_eq h, hlen, by rw [he]⟩

theorem remove_spec (id : NodeId) : (t.remove id).2.Inv ∧
    ∀ x, (t.remove id).2.get x = if x = id then none else t.get x := by
  obtain ⟨l, old, r, hs, he⟩ := remove_eq h id
  have hk := h.bounded (t.bucketIndex id)
  have hpos : old.toList.length ≤ t.size := by
    cases old with
    | none => simp
    | some n =>
      have hn := ((get_eq_some h).mp (hs.get_eq h)).1
      rw [h.size_eq]
      exact length_pos_of_mem hn
  rw [he]
  rw [hs.bucket] at hk
  simp only [length_append] at hk
  exact put_spec h hs (by simp) (by simp; omega) (by simp; omega)

theorem Inv.remove (id : NodeId) : (t.remove id).2.Inv := (remove_spec h id).1

theorem modify_spec (id : NodeId) (hf : ∀ n, (f n).id = n.id) : (t.modify id f).Inv ∧
    ∀ x, (t.modify id f).get x = if x = id then (t.get id).map f else t.get x := by
  obtain ⟨l, old, r, hs, he⟩ := modify_eq h id f
  have hk := h.bounded (t.bucketIndex id)
  rw [hs.bucket] at hk
  rw [he, hs.get_eq h]
  refine put_spec h hs (fun n hn => ?_) (by cases old <;> simpa using hk) (by cases old <;> simp)
  obtain ⟨m, hm, rfl⟩ := map_eq_some_iff.mp hn
  rw [hf, hs.here m hm]

theorem Inv.modify (id : NodeId) (hf : ∀ n, (f n).id = n.id) : (t.modify id f).Inv := (modify_spec h id hf).1

end

/-! ## The nearest nodes -/

theorem foldl_pushUpTo (f : Nat → List Node) (is : List Nat) {acc : List Node} (hacc : acc.length ≤ k) :
    is.foldl (fun result i => pushUpTo k result (f i)) acc = acc ++ (is.flatMap f).take (k - acc.length) := by
  induction is generalizing acc with
  | nil => simp
  | cons i is ih =>
    have hlen : (pushUpTo k acc (f i)).length ≤ k := by
      rw [pushUpTo, length_append, length_take]
      omega
    rw [foldl_cons, ih hlen, flatMap_cons, take_append, pushUpTo, append_assoc,
      length_append, length_take]
    congr 3
    omega

theorem closest_eq (t : RoutingTable) (target : NodeId) (k : Nat) :
    t.closest target k = ((scanOrder (t.bucketIndex target)).flatMap t.buckets).take k := by
  rw [closest, foldl_pushUpTo _ _ (Nat.zero_le k), nil_append, length_nil, Nat.sub_zero]

theorem mem_scanOrder {d : Nat} (hd : d < NUM_BUCKETS) : i ∈ scanOrder d ↔ i < NUM_BUCKETS := by
  simp only [scanOrder, mem_append, mem_reverse, mem_range, List.mem_map]
  constructor
  · rintro (h | ⟨j, hj, rfl⟩) <;> omega
  · intro hi
    rcases Nat.lt_or_ge i (d + 1) with h | h
    · exact .inl h
    · exact .inr ⟨i - (d + 1), by omega, by omega⟩

theorem mem_scan : n ∈ (scanOrder (t.bucketIndex target)).flatMap t.buckets ↔ n ∈ t.nodes := by
  simp only [nodes, mem_flatMap, mem_scanOrder (t.bucketIndex_lt target), mem_range]

theorem mem_of_mem_closest (hn : n ∈ t.closest target k) : n ∈ t.nodes := by
  rw [closest_eq] at hn
  exact mem_scan.mp (mem_of_mem_take hn)

def scanRank (d i : Nat) : Nat := if i ≤ d then d - i else i

theorem pairwise_scanOrder (d : Nat) : (scanOrder d).Pairwise (scanRank d · < scanRank d ·) := by
  unfold scanOrder scanRank
  rw [pairwise_append, pairwise_reverse, pairwise_map]
  refine ⟨pairwise_lt_range.imp_of_mem fun hi hj hij => ?_, pairwise_lt_range.imp fun hij => ?_, fun i hi j hj => ?_⟩
  · rw [mem_range] at hi hj
    rw [if_pos (by omega), if_pos (by omega)]
    omega
  · rw [if_neg (by omega), if_neg (by omega)]
    omega
  · obtain ⟨j, -, rfl⟩ := List.mem_map.mp hj
    rw [mem_reverse, mem_range] at hi
    rw [if_pos (by omega), if_neg (by omega)]
    omega

theorem perm_scan (target : NodeId) : ((scanOrder (t.bucketIndex target)).flatMap t.buckets).Perm t.nodes := by
  refine Perm.flatMap_right _ ((perm_ext_iff_of_nodup ?_ nodup_range).mpr fun i => ?_)
  · exact (pairwise_scanOrder _).imp fun hlt heq => by rw [heq] at hlt; omega
  · exact (mem_scanOrder (t.bucketIndex_lt target)).trans mem_range.symm

theorem Inv.pairwise_scan (h : t.Inv) (d : Nat) : ((scanOrder d).flatMap t.buckets).Pairwise
    (fun n m => scanRank d (t.bucketIndex n.id) ≤ scanRank d (t.bucketIndex m.id)) := by
  rw [pairwise_flatMap]
  refine ⟨fun i _ => ?_, (pairwise_scanOrder d).imp fun hlt n hn m hm => ?_⟩
  · refine pairwise_of_forall_mem_list fun n hn m hm => ?_
    rw [h.placed i n hn, h.placed i m hm]
  · rw [h.placed _ n hn, h.placed _ m hm]
    exact hlt.le

/-! ## A new id -/

theorem pairwise_nodes (h : t.Inv) : t.nodes.Pairwise fun m n => m.id ≠ n.id := by
  rw [nodes, pairwise_flatMap]
  refine ⟨fun i _ => (h.sorted i).imp ne_of_lt, (pairwise_lt_range).imp fun {i j} hij m hm n hn hid => ?_⟩
  have hi := h.placed i m hm
  have hj := h.placed j n hn
  rw [hid] at hi
  omega

theorem add_frame (h : t.Inv) (node : Node) : (t.add node).2.id = t.id ∧ (t.add node).2.k = t.k ∧
      ∀ i, (t.buckets i).length ≤ ((t.add node).2.buckets i).length := by
  obtain ⟨l, old, r, hs, ⟨-, he⟩ | ⟨-, -, he⟩⟩ := add_cases h node <;> rw [he]
  · refine ⟨rfl, rfl, fun i => ?_⟩
    rw [buckets_put]
    split_ifs with hi
    · rw [hi, hs.bucket]
      cases old <;> simp
    · exact le_refl _
  · exact ⟨rfl, rfl, fun i => le_refl _⟩

theorem mem_add (h : t.Inv) (hn : n ∈ (t.add node).2.nodes) : n = node ∨ n ∈ t.nodes := by
  have hget := (get_eq_some (h.add node)).mpr ⟨hn, rfl⟩
  cases hadd : (t.add node).1 with
  | true =>
    rw [get_add_of_true h hadd] at hget
    split at hget
    · exact .inl (Option.some.inj hget).symm
    · exact .inr ((get_eq_some h).mp hget).1
  | false =>
    rw [(add_of_false h hadd).2.2] at hn
    exact .inr hn

/-- The nodes `done` have been moved to a table with the id `x`. -/
structure Rebuilt (x : NodeId) (k : Nat) (done : List Node) (t : RoutingTable) : Prop where
  inv : t.Inv
  id_eq : t.id = x
  k_eq : t.k = k
  kept : ∀ n ∈ t.nodes, n ∈ done ∧ n.id ≠ x
  dropped : ∀ n ∈ done, n.id ≠ x → n ∈ t.nodes ∨ (t.buckets (t.bucketIndex n.id)).length = k

theorem Rebuilt.add (h : Rebuilt x k done t)
    (hnew : ∀ n ∈ done, n.id ≠ node.id) (hx : node.id ≠ x) : Rebuilt x k (done ++ [node]) (t.add node).2 := by
  obtain ⟨hid, hk, hgrows⟩ := add_frame h.inv node
  have hinv := h.inv.add node
  refine ⟨hinv, hid.trans h.id_eq, hk.trans h.k_eq, fun n hn => ?_, fun n hn hnx => ?_⟩
  · rcases mem_add h.inv hn with rfl | hn
    · exact ⟨by simp, hx⟩
    · obtain ⟨hdone, hne⟩ := h.kept n hn
      exact ⟨mem_append_left _ hdone, hne⟩
  have hindex : (t.add node).2.bucketIndex n.id = t.bucketIndex n.id := by rw [bucketIndex, bucketIndex, hid]
  rw [hindex]
  -- a full bucket stays full
  have hstays : (t.buckets (t.bucketIndex n.id)).length = k →
      ((t.add node).2.buckets (t.bucketIndex n.id)).length = k := by
    have := hgrows (t.bucketIndex n.id)
    have := hinv.bounded (t.bucketIndex n.id)
    have := h.k_eq
    omega
  rcases mem_append.mp hn with hn | hn
  · rcases h.dropped n hn hnx with hmem | hfull
    · left
      cases hadd : (t.add node).1 with
      | true =>
        have hget := get_add_of_true h.inv hadd n.id
        rw [if_neg (hnew n hn), (get_eq_some h.inv).mpr ⟨hmem, rfl⟩] at hget
        exact ((get_eq_some hinv).mp hget).1
      | false =>
        rw [(add_of_false h.inv hadd).2.2]
        exact hmem
    · exact .inr (hstays hfull)
  · rw [mem_singleton] at hn
    subst hn
    cases hadd : (t.add n).1 with
    | true =>
      have hget := get_add_of_true h.inv hadd n.id
      rw [if_pos rfl] at hget
      exact .inl ((get_eq_some hinv).mp hget).1
    | false => exact .inr (hstays ((add_of_false h.inv hadd).2.1.trans h.k_eq))

theorem nodes_withK (x : NodeId) (k : Nat) : (withK x k).nodes = [] := flatMap_eq_nil_iff.mpr fun _ _ => rfl

theorem rebuilt_withK (x : NodeId) (k : Nat) : Rebuilt x k [] (withK x k) :=
  ⟨inv_withK x k, rfl, rfl, by rw [nodes_withK]; simp, by simp⟩

theorem Rebuilt.loop {rest : List Node} (h : Rebuilt x k done t)
    (hdistinct : (done ++ rest).Pairwise fun m n => m.id ≠ n.id) :
    Rebuilt x k (done ++ rest) (rest.foldl (fun t node => if node.id = x then t else (t.add node).2) t) := by
  induction rest generalizing done t with
  | nil =>
    rw [append_nil]
    exact h
  | cons node rest ih =>
    rw [append_cons] at hdistinct ⊢
    refine ih ?_ hdistinct
    have hnew : ∀ n ∈ done, n.id ≠ node.id := fun n hn =>
      (pairwise_append.mp (pairwise_append.mp hdistinct).1).2.2 n hn node (by simp)
    dsimp only
    split
    · rename_i hx
      refine ⟨h.inv, h.id_eq, h.k_eq, fun n hn => ?_, fun n hn hnx => ?_⟩
      · obtain ⟨hdone, hne⟩ := h.kept n hn
        exact ⟨mem_append_left _ hdone, hne⟩
      · rcases mem_append.mp hn with hn | hn
        · exact h.dropped n hn hnx
        · rw [mem_singleton] at hn
          exact absurd (hn ▸ hx) hnx
    next hx =>
      exact h.add hnew hx

theorem rebuilt_rebuildWithId (h : t.Inv) (hx : t.id ≠ x) : Rebuilt x t.k t.nodes (t.rebuildWithId x) := by
  rw [rebuildWithId, if_neg hx]
  exact (rebuilt_withK x t.k).loop (pairwise_nodes h)

theorem rebuildWithId_new (id x : NodeId) : (new id).rebuildWithId x = new x := by
  unfold rebuildWithId
  split
  next h =>
    rw [show id = x from h]
  · rw [new, nodes_withK]
    rfl

theorem Inv.rebuildWithId (h : t.Inv) (x : NodeId) : (t.rebuildWithId x).Inv := by
  by_cases hx : t.id = x
  · rw [RoutingTable.rebuildWithId, if_pos hx]
    exact h
  · exact (rebuilt_rebuildWithId h hx).inv

/-! ## Nodes, id and events after a call -/

theorem mem_pendingEvents_add
    (h : evt ∈ (t.add node).2.pendingEvents) : evt ∈ t.pendingEvents ∨ evt.newNode = node := by
  unfold add at h
  dsimp only at h
  split at h
  · exact .inl h
  · split at h
    · exact .inl h
    · rcases mem_append.mp h with h | h
      · exact .inl h
      · rw [mem_singleton] at h
        exact .inr (h ▸ rfl)

theorem mem_pendingEvents_rebuildWithId (hx : t.id ≠ x)
    (h : evt ∈ (t.rebuildWithId x).pendingEvents) : evt.newNode ∈ t.nodes ∧ evt.newNode.id ≠ x := by
  have hloop : ∀ (nodes : List Node) (t₀ : RoutingTable),
      evt ∈ (nodes.foldl (fun t node => if node.id = x then t else (t.add node).2) t₀).pendingEvents →
      evt ∈ t₀.pendingEvents ∨ (evt.newNode ∈ nodes ∧ evt.newNode.id ≠ x) := by
    intro nodes
    induction nodes with
    | nil => exact fun _ h => .inl h
    | cons node nodes ih =>
      intro t₀ h
      rw [foldl_cons] at h
      rcases ih _ h with h | ⟨hmem, hne⟩
      · split at h
        · exact .inl h
        next hid =>
          rcases mem_pendingEvents_add h with h | rfl
          · exact .inl h
          · exact .inr ⟨mem_cons_self, hid⟩
      · exact .inr ⟨mem_cons_of_mem _ hmem, hne⟩
  rw [rebuildWithId, if_neg hx] at h
  rcases hloop _ _ h with h | h
  · cases h
  · exact h

theorem modify_frame (t : RoutingTable) (id : NodeId) (f : Node → Node) :
    (t.modify id f).id = t.id ∧ (t.modify id f).size = t.size ∧ (t.modify id f).pendingEvents = t.pendingEvents := by
  unfold modify
  dsimp only
  split
  · exact ⟨rfl, rfl, rfl⟩
  · exact ⟨rfl, rfl, rfl⟩

theorem mem_modify (h : t.Inv) (hf : ∀ n, (f n).id = n.id)
    (hn : n ∈ (t.modify id f).nodes) : n ∈ t.nodes ∨ ∃ m ∈ t.nodes, n = f m := by
  have hget := (get_eq_some (h.modify id hf)).mpr ⟨hn, rfl⟩
  rw [(modify_spec h id hf).2] at hget
  split at hget
  · obtain ⟨m, hm, hfm⟩ := map_eq_some_iff.mp hget
    exact .inr ⟨m, ((get_eq_some h).mp hm).1, hfm.symm⟩
  · exact .inl ((get_eq_some h).mp hget).1

theorem remove_frame (t : RoutingTable) (id : NodeId) :
    (t.remove id).2.id = t.id ∧ (t.remove id).2.pendingEvents = t.pendingEvents := by
  unfold remove
  dsimp only
  split
  · exact ⟨rfl, rfl⟩
  · exact ⟨rfl, rfl⟩

theorem mem_remove (h : t.Inv) (hn : n ∈ (t.remove id).2.nodes) : n ∈ t.nodes := by
  have hget := (get_eq_some (h.remove id)).mpr ⟨hn, rfl⟩
  rw [(remove_spec h id).2] at hget
  split at hget
  · cases hget
  · exact ((get_eq_some h).mp hget).1

structure SameIds (t t' : RoutingTable) : Prop where
  id : t'.id = t.id
  k : t'.k = t.k
  ids : ∀ i, (t'.buckets i).map Node.id = (t.buckets i).map Node.id

theorem SameIds.refl (t : RoutingTable) : SameIds t t := ⟨rfl, rfl, fun _ => rfl⟩

theorem SameIds.trans {t'' : RoutingTable} (h : SameIds t t') (h' : SameIds t' t'') : SameIds t t'' :=
  ⟨h'.id.trans h.id, h'.k.trans h.k, fun i => (h'.ids i).trans (h.ids i)⟩

theorem SameIds.modify (t : RoutingTable) (id : NodeId) (hf : ∀ n, (f n).id = n.id) : SameIds t (t.modify id f) := by
  have hmap : ∀ (nodes : List Node) (pos : Nat), (nodes.modify pos f).map Node.id = nodes.map Node.id := by
    intro nodes
    induction nodes with
    | nil => simp
    | cons n nodes ih =>
      intro pos
      cases pos with
      | zero => simp [hf]
      | succ pos => simp [ih]
  unfold RoutingTable.modify
  dsimp only
  split
  · refine ⟨rfl, rfl, fun i => ?_⟩
    rw [buckets_setBucket]
    split
    next hi =>
      rw [hmap, hi]
    · rfl
  · exact .refl t

theorem SameIds.bucketIndex (h : SameIds t t') (id : NodeId) : t'.bucketIndex id = t.bucketIndex id := by
  rw [RoutingTable.bucketIndex, RoutingTable.bucketIndex, h.id]

theorem SameIds.length (h : SameIds t t') (i : Nat) : (t'.buckets i).length = (t.buckets i).length := by
  have hlen := congrArg List.length (h.ids i)
  rwa [length_map, length_map] at hlen

theorem isSome_get (h : t.Inv) (id : NodeId) :
    (t.get id).isSome = true ↔ id ∈ (t.buckets (t.bucketIndex id)).map Node.id := by
  rw [isSome_iff_exists, List.mem_map]
  exact exists_congr fun n => get_iff_bucket h id n

theorem SameIds.isSome_get (h : SameIds t t') (hinv : t.Inv) (hinv' : t'.Inv) (id : NodeId) :
    (t'.get id).isSome = (t.get id).isSome := by
  rw [Bool.eq_iff_iff, RoutingTable.isSome_get hinv', RoutingTable.isSome_get hinv, h.bucketIndex, h.ids]

end RoutingTable
open RoutingTable

/-! ## Whole runs -/

/-- The calls that change a table; a change through `get_mut` keeps the id of a node. -/
inductive TableOp where
  | add (node : Node)
  | remove (id : NodeId)
  | update (id : NodeId) (f : Node → Node) (keeps : ∀ n, (f n).id = n.id)
  | rebuild (newId : NodeId)

def RoutingTable.step (t : RoutingTable) : TableOp → RoutingTable
  | .add node => (t.add node).2
  | .remove id => (t.remove id).2
  | .update id f _ => t.modify id f
  | .rebuild newId => t.rebuildWithId newId

theorem RoutingTable.Inv.step (h : t.Inv) (op : TableOp) : (t.step op).Inv := by
  cases op with
  | add node => exact h.add node
  | remove id => exact h.remove id
  | update id f keeps => exact h.modify id keeps
  | rebuild newId => exact h.rebuildWithId newId

theorem RoutingTable.step_k (h : t.Inv) (op : TableOp) : (t.step op).k = t.k := by
  cases op with
  | add node => exact (add_frame h node).2.1
  | remove id =>
    show (t.remove id).2.k = t.k
    obtain ⟨l, old, r, -, he⟩ := remove_eq h id
    rw [he]
    rfl
  | update id f keeps =>
    show (t.modify id f).k = t.k
    obtain ⟨l, old, r, -, he⟩ := modify_eq h id f
    rw [he]
    rfl
  | rebuild newId =>
    show (t.rebuildWithId newId).k = t.k
    by_cases hx : t.id = newId
    · rw [rebuildWithId, if_pos hx]
    · exact (rebuilt_rebuildWithId h hx).k_eq

/-- **The routing table.** After any sequence of calls the buckets are sorted, hold their own nodes and at most `k` of
them, the size is their number, lookups find just what is stored, a node is found after `add` just when it was taken,
and a new id keeps every other node unless its new bucket is full. The id that the table already has changes nothing. -/
theorem table_run (id : NodeId) (k : Nat) (ops : List TableOp) : let t := run step (.withK id k) ops
    t.Inv ∧ t.k = k ∧ (∀ id n, t.get id = some n ↔ n ∈ t.nodes ∧ n.id = id) ∧
      (∀ n, (t.add n).2.get n.id = if (t.add n).1 then some n else none) ∧
      t.rebuildWithId t.id = t ∧ ∀ x ≠ t.id, let t' := t.rebuildWithId x
        (∀ n ∈ t'.nodes, n ∈ t.nodes ∧ n.id ≠ x) ∧
          ∀ n ∈ t.nodes, n.id ≠ x → n ∈ t'.nodes ∨ (t'.buckets (t'.bucketIndex n.id)).length = k := by
  intro t
  obtain ⟨h, hk⟩ : t.Inv ∧ t.k = k := by
    refine run_invariant (I := fun t : RoutingTable => t.Inv ∧ t.k = k) (fun t op h => ?_) ⟨inv_withK id k, rfl⟩ ops
    exact ⟨h.1.step op, (step_k h.1 op).trans h.2⟩
  refine ⟨h, hk, fun id n => get_eq_some h, fun n => ?_, if_pos rfl, fun x hx => ?_⟩
  · cases hadd : (t.add n).1 with
    | true =>
      rw [get_add_of_true h hadd, if_pos rfl]
      rfl
    | false =>
      obtain ⟨hget, -, he⟩ := add_of_false h hadd
      rw [he]
      exact hget
  · have hr := rebuilt_rebuildWithId h hx.symm
    exact ⟨hr.kept, hk ▸ hr.dropped⟩

/-- A table that has taken a node with its own id keeps it when it is rebuilt with that id. -/
theorem rebuild_keeps_own_id : let x : NodeId := ⟨List.replicate 32 7, rfl⟩
    let n : Node := ⟨x, "10.0.0.1", 49737, none, 0, 0, 0, 0⟩
    let t := run step (.withK x 20) [.add n, .rebuild x]
    t.get x = some n := by
  decide

/-- **What `closest` returns.** It is as many different stored nodes as are asked for and there. A node outside that is
nearer to the target than one inside is in the same bucket as that one, or in a bucket above the target's. -/
theorem closest_scanned (id : NodeId) (kTable : Nat) (ops : List TableOp) (target : NodeId) (k : Nat) :
    let t := run step (.withK id kTable) ops
    (t.closest target k).length = min k t.size ∧ (t.closest target k).Nodup ∧
      (∀ n ∈ t.closest target k, n ∈ t.nodes) ∧
      ∀ n ∈ t.closest target k, ∀ m ∈ t.nodes, m ∉ t.closest target k → distance target m.id < distance target n.id →
        t.bucketIndex m.id = t.bucketIndex n.id ∨ t.bucketIndex target < t.bucketIndex m.id := by
  intro t
  let d := t.bucketIndex target
  have h : t.Inv := run_invariant (fun _ op h => h.step op) (inv_withK id kTable) ops
  have hperm : ((scanOrder d).flatMap t.buckets).Perm t.nodes := perm_scan target
  have hnodup : ((scanOrder d).flatMap t.buckets).Nodup :=
    hperm.nodup_iff.mpr ((pairwise_nodes h).imp fun hne heq => hne (congrArg Node.id heq))
  have hsorted := h.pairwise_scan d
  rw [closest_eq, length_take, hperm.length_eq, ← h.size_eq]
  refine ⟨rfl, hnodup.sublist (take_sublist ..), fun n hn => mem_scan.mp (mem_of_mem_take hn),
    fun n hn m hm hout hnear => ?_⟩
  rw [← take_append_drop k ((scanOrder d).flatMap t.buckets), pairwise_append] at hsorted
  rw [← hperm.mem_iff, ← take_append_drop k ((scanOrder d).flatMap t.buckets), mem_append] at hm
  have hrank := hsorted.2.2 n hn m (hm.resolve_left hout)
  by_contra! hm'
  -- Bucket `m` is then scanned after bucket `n` on the way down, so `m` parts from the target before `n` does.
  have hbelow : t.bucketIndex m.id < t.bucketIndex n.id ∧ t.bucketIndex m.id < d := by
    unfold scanRank at hrank
    split_ifs at hrank <;> omega
  exact hnear.asymm (distance_lt_of_bucketIndex hbelow.1 hbelow.2)

/-- The node that shares no bit with the table's id is taken, and not the one that is nearer to the target. -/
theorem closest_not_nearest : let near : Node := ⟨⟨0x20 :: replicate 31 0, rfl⟩, "10.0.0.1", 1, none, 0, 0, 0, 0⟩
    let far : Node := ⟨⟨0x80 :: replicate 31 0, rfl⟩, "10.0.0.2", 1, none, 0, 0, 0, 0⟩
    let target : NodeId := ⟨0x40 :: replicate 31 0, rfl⟩
    let t := run step (.withK ⟨replicate 32 0, rfl⟩ 20) [.add near, .add far]
    near ∈ t.nodes ∧ t.closest target 1 = [far] ∧ distance target near.id < distance target far.id := by
  decide +kernel

end Peeroxide.Dht
