import Mathlib.Data.List.Lex
import Peeroxide.Dht.Messages
import Peeroxide.Lib.Blake2b

/-!
# Node ids

A node's id is the hash of its address. Distances between ids are bitwise, and both are compared byte by byte.
-/

namespace Peeroxide.Dht
open Lib List

abbrev NodeId := Bytes32

/-- Ids are compared byte by byte. -/
instance NodeId.instLinearOrder : LinearOrder NodeId :=
  LinearOrder.lift' (fun id => id.1.map UInt8.toNat) fun _ _ h =>
    Subtype.ext (List.map_injective_iff.mpr (fun _ _ => UInt8.toNat.inj) h)

-- ids are subtypes of lists, which have an order of their own
instance : LT NodeId := NodeId.instLinearOrder.toLT
instance : Ord NodeId := NodeId.instLinearOrder.toOrd

/-- The hash of the six bytes of an address. The source stops the program for a host that is no IPv4 address. -/
def peerId (host : String) (port : UInt16) : NodeId :=
  ⟨Blake2b.blake2b256 (ipv4Bytes host ++ leBytes 2 port.toNat), Blake2b.length_blake2b256 _⟩

def distance (target id : NodeId) : NodeId :=
  ⟨List.zipWith (· ^^^ ·) target.1 id.1, by rw [List.length_zipWith, target.2, id.2, Nat.min_self]⟩

/-- Negative if the first id is nearer, positive if the second is, zero if they are the same. -/
def compareFrom : Bytes → Bytes → Bytes → Int
  | t :: ts, a :: as, b :: bs =>
    if a = b then compareFrom ts as bs else ((t ^^^ a).toNat : Int) - ((t ^^^ b).toNat : Int)
  | _, _, _ => 0

theorem xor_left_inj {t a b : UInt8} : t ^^^ a = t ^^^ b ↔ a = b := by
  constructor
  · intro h
    have h' := congrArg (t ^^^ ·) h
    simpa using h'
  · rintro rfl
    rfl

theorem compareFrom_spec {ts as bs : Bytes} (ha : as.length = ts.length) (hb : bs.length = ts.length) :
    (compareFrom ts as bs < 0 ↔
      (List.zipWith (· ^^^ ·) ts as).map UInt8.toNat < (List.zipWith (· ^^^ ·) ts bs).map UInt8.toNat) ∧
    (compareFrom ts as bs = 0 ↔ as = bs) := by
  induction ts generalizing as bs with
  | nil =>
    rw [length_nil, length_eq_zero_iff] at ha hb
    subst ha hb
    simp [compareFrom]
  | cons t ts ih =>
    obtain ⟨a, as, rfl⟩ := exists_cons_of_length_eq_add_one ha
    obtain ⟨b, bs, rfl⟩ := exists_cons_of_length_eq_add_one hb
    obtain ⟨hlt, heq⟩ := ih (Nat.succ.inj ha) (Nat.succ.inj hb)
    rw [compareFrom]
    simp only [zipWith_cons_cons, map_cons, cons_lt_cons_iff, List.cons.injEq]
    by_cases h : a = b
    · subst h
      rw [if_pos rfl, hlt, heq]
      simp
    · have hne : (t ^^^ a).toNat ≠ (t ^^^ b).toNat := fun he => h (xor_left_inj.mp (UInt8.toNat.inj he))
      rw [if_neg h]
      constructor
      · constructor
        · intro hneg
          exact .inl (by omega)
        · rintro (hl | ⟨he, -⟩)
          · omega
          · exact absurd he hne
      · constructor
        · intro hz
          exact absurd (by omega) hne
        · rintro ⟨he, -⟩
          exact absurd he h

theorem compareFrom_lt (target a b : NodeId) :
    compareFrom target.1 a.1 b.1 < 0 ↔ distance target a < distance target b :=
  (compareFrom_spec (a.2.trans target.2.symm) (b.2.trans target.2.symm)).1

theorem compareFrom_eq (target a b : NodeId) : compareFrom target.1 a.1 b.1 = 0 ↔ a = b :=
  (compareFrom_spec (a.2.trans target.2.symm) (b.2.trans target.2.symm)).2.trans Subtype.ext_iff.symm

theorem zipWith_xor_inj {ts as bs : Bytes} (ha : as.length = ts.length) (hb : bs.length = ts.length)
    (h : List.zipWith (· ^^^ ·) ts as = List.zipWith (· ^^^ ·) ts bs) : as = bs := by
  induction ts generalizing as bs with
  | nil =>
    rw [length_nil, length_eq_zero_iff] at ha hb
    rw [ha, hb]
  | cons t ts ih =>
    obtain ⟨a, as, rfl⟩ := exists_cons_of_length_eq_add_one ha
    obtain ⟨b, bs, rfl⟩ := exists_cons_of_length_eq_add_one hb
    rw [zipWith_cons_cons, zipWith_cons_cons, List.cons.injEq] at h
    rw [xor_left_inj.mp h.1, ih (Nat.succ.inj ha) (Nat.succ.inj hb) h.2]

theorem distance_inj {target a b : NodeId} (h : distance target a = distance target b) : a = b :=
  Subtype.ext (zipWith_xor_inj (a.2.trans target.2.symm) (b.2.trans target.2.symm) (congrArg Subtype.val h))

end Peeroxide.Dht
