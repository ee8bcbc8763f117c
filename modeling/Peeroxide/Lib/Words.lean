import Mathlib.Data.Nat.Basic
import Mathlib.Tactic.Ring
import Mathlib.Algebra.Order.Ring.Nat

/-!
# Machine words as naturals

`u32` values are naturals; arithmetic that can leave the range is reduced with `wrap32`, as a release build does.

* `wrap32`, `wrappingSub32`, `seqAfter` : 32-bit arithmetic and the serial-number order;
* `leBytes w n` : the `w` low bytes of `n`, least significant first; `ofLeBytes` reads them back
  (`ofLeBytes_leBytes`);
* `hexByte` : the two digits of a byte (`flatMap_hexByte_injective`).
-/

namespace Peeroxide.Lib

abbrev Bytes := List UInt8

/-! ## 32-bit arithmetic -/

def wrap32 (n : Nat) : Nat := n % 2 ^ 32

def wrappingSub32 (a b : Nat) : Nat := (a + 2 ^ 32 - b % 2 ^ 32) % 2 ^ 32

/-- `(a.wrapping_sub(b)) as i32 > 0`: the difference is non-zero and its sign bit is clear. -/
def seqAfter (a b : Nat) : Bool := 0 < wrappingSub32 a b && wrappingSub32 a b < 2 ^ 31

theorem wrap32_of_lt {n : Nat} (h : n < 2 ^ 32) : wrap32 n = n := Nat.mod_eq_of_lt h

theorem wrap32_lt (n : Nat) : wrap32 n < 2 ^ 32 := Nat.mod_lt _ (by decide)

/-! ## Little-endian bytes -/

def leBytes : Nat → Nat → Bytes
  | 0, _ => []
  | w + 1, n => UInt8.ofNat n :: leBytes w (n / 256)

def ofLeBytes : Bytes → Nat
  | [] => 0
  | b :: bs => b.toNat + 256 * ofLeBytes bs

@[simp] theorem length_leBytes (w n : Nat) : (leBytes w n).length = w := by
  induction w generalizing n with
  | zero => rfl
  | succ w ih => simp [leBytes, ih]

theorem ofLeBytes_leBytes_mod (w n : Nat) : ofLeBytes (leBytes w n) = n % 256 ^ w := by
  induction w generalizing n with
  | zero => simp [leBytes, ofLeBytes, Nat.mod_one]
  | succ w ih =>
    rw [leBytes, ofLeBytes, ih, pow_succ', Nat.mod_mul]
    simp

theorem ofLeBytes_leBytes {w n : Nat} (h : n < 256 ^ w) : ofLeBytes (leBytes w n) = n := by
  rw [ofLeBytes_leBytes_mod, Nat.mod_eq_of_lt h]

theorem ofLeBytes_lt (bs : Bytes) : ofLeBytes bs < 256 ^ bs.length := by
  induction bs with
  | nil => simp [ofLeBytes]
  | cons b bs ih =>
    have hb := b.toNat_lt
    rw [ofLeBytes, List.length_cons]
    omega

/-! ## Hexadecimal text -/

def hexByte (b : UInt8) : List Char := [Nat.digitChar (b.toNat / 16), Nat.digitChar (b.toNat % 16)]

theorem hexByte_injective {a b : UInt8} (h : hexByte a = hexByte b) : a = b := by
  have hdigit : ∀ m < 16, ∀ n < 16, Nat.digitChar m = Nat.digitChar n → m = n := by decide
  have ha := a.toNat_lt
  have hb := b.toNat_lt
  obtain ⟨hhigh, htail⟩ := List.cons_eq_cons.mp h
  have hhigh' := hdigit _ (by omega) _ (by omega) hhigh
  have hlow := hdigit _ (by omega) _ (by omega) (List.cons_eq_cons.mp htail).1
  exact UInt8.toNat.inj (by omega)

theorem flatMap_hexByte_injective {xs ys : Bytes} (h : xs.flatMap hexByte = ys.flatMap hexByte) : xs = ys := by
  induction xs generalizing ys with
  | nil =>
    cases ys with
    | nil => rfl
    | cons y ys => cases h
  | cons x xs ih =>
    cases ys with
    | nil => cases h
    | cons y ys =>
      rw [List.flatMap_cons] at h
      obtain ⟨hhead, htail⟩ := List.append_inj h rfl
      rw [hexByte_injective hhead, ih htail]

end Peeroxide.Lib
