import Peeroxide.Lib.Words

/-!
# Blake2b

The hash function, without a key, with a digest of 32 bytes. Words of 64 bits are naturals below `2 ^ 64`.

* `blake2b256` : the digest of a byte string (`length_blake2b256`).
-/

namespace Peeroxide.Lib.Blake2b

def iv : List Nat :=
  [0x6a09e667f3bcc908, 0xbb67ae8584caa73b, 0x3c6ef372fe94f82b, 0xa54ff53a5f1d36f1,
    0x510e527fade682d1, 0x9b05688c2b3e6c1f, 0x1f83d9abfb41bd6b, 0x5be0cd19137e2179]

/-- The order in which each of the twelve rounds takes the words of a block. -/
def sigma : List (List Nat) :=
  [[0, 1, 2, 3, 4, 5, 6, 7, 8, 9, 10, 11, 12, 13, 14, 15],
    [14, 10, 4, 8, 9, 15, 13, 6, 1, 12, 0, 2, 11, 7, 5, 3],
    [11, 8, 12, 0, 5, 2, 15, 13, 10, 14, 3, 6, 7, 1, 9, 4],
    [7, 9, 3, 1, 13, 12, 11, 14, 2, 6, 5, 10, 4, 0, 15, 8],
    [9, 0, 5, 7, 2, 4, 10, 15, 14, 1, 11, 12, 6, 8, 3, 13],
    [2, 12, 6, 10, 0, 11, 8, 3, 4, 13, 7, 5, 15, 14, 1, 9],
    [12, 5, 1, 15, 14, 13, 4, 10, 0, 7, 6, 3, 9, 2, 8, 11],
    [13, 11, 7, 14, 12, 1, 3, 9, 5, 0, 15, 4, 8, 6, 2, 10],
    [6, 15, 14, 9, 11, 3, 0, 8, 12, 2, 13, 7, 1, 4, 10, 5],
    [10, 2, 8, 4, 7, 6, 1, 5, 15, 11, 9, 14, 3, 12, 13, 0],
    [0, 1, 2, 3, 4, 5, 6, 7, 8, 9, 10, 11, 12, 13, 14, 15],
    [14, 10, 4, 8, 9, 15, 13, 6, 1, 12, 0, 2, 11, 7, 5, 3]]

def wrap64 (n : Nat) : Nat := n % 2 ^ 64

def rotateRight (n r : Nat) : Nat := n >>> r ||| wrap64 (n <<< (64 - r))

/-- Mix two words of the block into four words of the state. -/
def mix (v : List Nat) (a b c d x y : Nat) : List Nat :=
  let va := wrap64 (v.getD a 0 + v.getD b 0 + x)
  let vd := rotateRight (v.getD d 0 ^^^ va) 32
  let vc := wrap64 (v.getD c 0 + vd)
  let vb := rotateRight (v.getD b 0 ^^^ vc) 24
  let va := wrap64 (va + vb + y)
  let vd := rotateRight (vd ^^^ va) 16
  let vc := wrap64 (vc + vd)
  let vb := rotateRight (vb ^^^ vc) 63
  (((v.set a va).set b vb).set c vc).set d vd

/-- The columns of the state, then its diagonals. -/
def lanes : List (Nat × Nat × Nat × Nat) :=
  [(0, 4, 8, 12), (1, 5, 9, 13), (2, 6, 10, 14), (3, 7, 11, 15),
    (0, 5, 10, 15), (1, 6, 11, 12), (2, 7, 8, 13), (3, 4, 9, 14)]

def round (m v order : List Nat) : List Nat :=
  lanes.zipIdx.foldl (fun v ((a, b, c, d), i) =>
    mix v a b c d (m.getD (order.getD (2 * i) 0) 0) (m.getD (order.getD (2 * i + 1) 0) 0)) v

/-- One block, with the number of bytes up to its end. -/
def compress (h m : List Nat) (count : Nat) (last : Bool) : List Nat :=
  let v := h ++ iv
  let v := v.set 12 (v.getD 12 0 ^^^ wrap64 count)
  let v := v.set 13 (v.getD 13 0 ^^^ wrap64 (count >>> 64))
  let v := if last then v.set 14 (v.getD 14 0 ^^^ (2 ^ 64 - 1)) else v
  let v := sigma.foldl (round m) v
  List.zipWith (· ^^^ ·) h (List.zipWith (· ^^^ ·) (v.take 8) (v.drop 8))

def words (block : Bytes) : List Nat := (List.range 16).map fun i => ofLeBytes ((block.drop (8 * i)).take 8)

def blocks : Nat → List Nat → Nat → Bytes → List Nat
  | 0, h, _, _ => h
  | fuel + 1, h, count, bs =>
    if bs.length ≤ 128 then compress h (words bs) (count + bs.length) true
    else blocks fuel (compress h (words (bs.take 128)) (count + 128) false) (count + 128) (bs.drop 128)

/-- The first word holds the length of the digest. -/
def start : List Nat := iv.set 0 (iv.getD 0 0 ^^^ 0x01010020)

def blake2b256 (bs : Bytes) : Bytes :=
  let h := blocks (bs.length + 1) start 0 bs
  (List.range 4).flatMap fun i => leBytes 8 (h.getD i 0)

theorem length_blake2b256 (bs : Bytes) : (blake2b256 bs).length = 32 := by
  simp [blake2b256, List.range_succ]

/-- The digest of the bytes of `"abc"` begins like this. -/
example : (blake2b256 [0x61, 0x62, 0x63]).take 4 = [0xbd, 0xdd, 0x81, 0x3c] := by decide +kernel

end Peeroxide.Lib.Blake2b
