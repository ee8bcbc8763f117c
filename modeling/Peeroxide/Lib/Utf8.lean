import Peeroxide.Lib.Words

/-!
# UTF-8 text read from bytes that need not be UTF-8

* `encodeUtf8` : the bytes of a text;
* `decodeUtf8Lossy` : a text for any bytes, with one replacement character for each longest start of a character that
  does not go on as one;
* `decodeUtf8Lossy_encodeUtf8` : nothing is lost of the bytes of a text.
-/

namespace Peeroxide.Lib

def encodeUtf8 (text : List Char) : Bytes := text.flatMap String.utf8EncodeChar

def replacementChar : Char := Char.ofNat 0xfffd

/-- A byte that continues a character. -/
def isContinuation (b : UInt8) : Bool := 0x80 ≤ b.toNat && b.toNat < 0xc0

/-- The second byte of a character of three bytes: no overlong form and no surrogate. -/
def isSecondOfThree (a b : UInt8) : Bool :=
  if a = 0xe0 then 0xa0 ≤ b.toNat && b.toNat < 0xc0
  else if a = 0xed then 0x80 ≤ b.toNat && b.toNat < 0xa0
  else isContinuation b

/-- The second byte of a character of four bytes: no overlong form and nothing above `U+10FFFF`. -/
def isSecondOfFour (a b : UInt8) : Bool :=
  if a = 0xf0 then 0x90 ≤ b.toNat && b.toNat < 0xc0
  else if a = 0xf4 then 0x80 ≤ b.toNat && b.toNat < 0x90
  else isContinuation b

def decodeUtf8Lossy : Bytes → List Char
  | [] => []
  | a :: bs =>
    if a.toNat < 0x80 then .ofNat a.toNat :: decodeUtf8Lossy bs
    else if a.toNat < 0xc2 then replacementChar :: decodeUtf8Lossy bs
    else if a.toNat < 0xe0 then
      match bs with
      | [] => [replacementChar]
      | b :: cs =>
        if isContinuation b then .ofNat (a.toNat % 32 * 64 + b.toNat % 64) :: decodeUtf8Lossy cs
        else replacementChar :: decodeUtf8Lossy (b :: cs)
    else if a.toNat < 0xf0 then
      match bs with
      | [] => [replacementChar]
      | b :: cs =>
        if isSecondOfThree a b then
          match cs with
          | [] => [replacementChar]
          | c :: ds =>
            if isContinuation c then
              .ofNat (a.toNat % 16 * 4096 + b.toNat % 64 * 64 + c.toNat % 64) :: decodeUtf8Lossy ds
            else replacementChar :: decodeUtf8Lossy (c :: ds)
        else replacementChar :: decodeUtf8Lossy (b :: cs)
    else if a.toNat < 0xf5 then
      match bs with
      | [] => [replacementChar]
      | b :: cs =>
        if isSecondOfFour a b then
          match cs with
          | [] => [replacementChar]
          | c :: ds =>
            if isContinuation c then
              match ds with
              | [] => [replacementChar]
              | d :: es =>
                if isContinuation d then
                  .ofNat (a.toNat % 8 * 262144 + b.toNat % 64 * 4096 + c.toNat % 64 * 64 + d.toNat % 64) ::
                    decodeUtf8Lossy es
                else replacementChar :: decodeUtf8Lossy (d :: es)
            else replacementChar :: decodeUtf8Lossy (c :: ds)
        else replacementChar :: decodeUtf8Lossy (b :: cs)
    else replacementChar :: decodeUtf8Lossy bs

theorem toNat_byte {n : Nat} (h : n < 256) : (UInt8.ofNat n).toNat = n := UInt8.toNat_ofNat_of_lt' h

theorem toNat_tail (n : Nat) : (UInt8.ofNat (n % 64 + 128)).toNat = n % 64 + 128 := toNat_byte (by omega)

theorem isContinuation_ofNat (n : Nat) : isContinuation (.ofNat (n % 64 + 128)) = true := by
  simp only [isContinuation, toNat_tail, Bool.and_eq_true, decide_eq_true_eq]
  omega

/-- A second byte, whose bounds depend on the first one. -/
theorem second_ofNat {x n low high : Nat} {a₁ a₂ : UInt8} (hx : x < 256) (hlow : x = a₁.toNat → low ≤ n % 64 + 128)
    (hhigh : x = a₂.toNat → n % 64 + 128 < high) :
    (if UInt8.ofNat x = a₁ then low ≤ (UInt8.ofNat (n % 64 + 128)).toNat && (UInt8.ofNat (n % 64 + 128)).toNat < 0xc0
    else if UInt8.ofNat x = a₂ then
      0x80 ≤ (UInt8.ofNat (n % 64 + 128)).toNat && (UInt8.ofNat (n % 64 + 128)).toNat < high
    else isContinuation (.ofNat (n % 64 + 128))) = true := by
  simp only [toNat_tail]
  split_ifs with h₁ h₂
  · have := hlow (h₁ ▸ (toNat_byte hx).symm)
    simp only [Bool.and_eq_true, decide_eq_true_eq]
    omega
  · have := hhigh (h₂ ▸ (toNat_byte hx).symm)
    simp only [Bool.and_eq_true, decide_eq_true_eq]
    omega
  · exact isContinuation_ofNat n

theorem decodeUtf8Lossy_two {v : Nat} (hlow : 127 < v) (hhigh : v ≤ 2047) (rest : Bytes) :
    decodeUtf8Lossy (.ofNat (v / 64 % 32 + 192) :: .ofNat (v % 64 + 128) :: rest) = .ofNat v :: decodeUtf8Lossy rest := by
  have ha : (UInt8.ofNat (v / 64 % 32 + 192)).toNat = v / 64 % 32 + 192 := toNat_byte (by omega)
  have hv : (v / 64 % 32 + 192) % 32 * 64 + (v % 64 + 128) % 64 = v := by omega
  rw [decodeUtf8Lossy.eq_def]
  dsimp only
  rw [ha, toNat_tail, if_neg (by omega), if_neg (by omega), if_pos (by omega)]
  simp only [isContinuation_ofNat, if_true, hv]

theorem decodeUtf8Lossy_three {v : Nat} (hlow : 2047 < v) (hhigh : v ≤ 65535) (hvalid : v.isValidChar) (rest : Bytes) :
    decodeUtf8Lossy (.ofNat (v / 4096 % 16 + 224) :: .ofNat (v / 64 % 64 + 128) :: .ofNat (v % 64 + 128) :: rest) =
      .ofNat v :: decodeUtf8Lossy rest := by
  have ha : (UInt8.ofNat (v / 4096 % 16 + 224)).toNat = v / 4096 % 16 + 224 := toNat_byte (by omega)
  have hv : (v / 4096 % 16 + 224) % 16 * 4096 + (v / 64 % 64 + 128) % 64 * 64 + (v % 64 + 128) % 64 = v := by omega
  have hsecond : isSecondOfThree (.ofNat (v / 4096 % 16 + 224)) (.ofNat (v / 64 % 64 + 128)) = true := by
    refine second_ofNat (by omega) (fun h => ?_) fun h => ?_ <;> simp only [UInt8.reduceToNat] at h
    · omega
    · omega
  rw [decodeUtf8Lossy.eq_def]
  dsimp only
  rw [ha, toNat_tail, toNat_tail, if_neg (by omega), if_neg (by omega), if_neg (by omega), if_pos (by omega)]
  simp only [hsecond, isContinuation_ofNat, if_true, hv]

theorem decodeUtf8Lossy_four {v : Nat} (hlow : 65535 < v) (hvalid : v.isValidChar) (rest : Bytes) :
    decodeUtf8Lossy (.ofNat (v / 262144 % 8 + 240) :: .ofNat (v / 4096 % 64 + 128) :: .ofNat (v / 64 % 64 + 128) ::
      .ofNat (v % 64 + 128) :: rest) = .ofNat v :: decodeUtf8Lossy rest := by
  have ha : (UInt8.ofNat (v / 262144 % 8 + 240)).toNat = v / 262144 % 8 + 240 := toNat_byte (by omega)
  have hv : (v / 262144 % 8 + 240) % 8 * 262144 + (v / 4096 % 64 + 128) % 64 * 4096 + (v / 64 % 64 + 128) % 64 * 64 +
      (v % 64 + 128) % 64 = v := by omega
  have hsecond : isSecondOfFour (.ofNat (v / 262144 % 8 + 240)) (.ofNat (v / 4096 % 64 + 128)) = true := by
    refine second_ofNat (by omega) (fun h => ?_) fun h => ?_ <;> simp only [UInt8.reduceToNat] at h <;> omega
  rw [decodeUtf8Lossy.eq_def]
  dsimp only
  rw [ha, toNat_tail, toNat_tail, toNat_tail, if_neg (by omega), if_neg (by omega), if_neg (by omega), if_neg (by omega),
    if_pos (by omega)]
  simp only [hsecond, isContinuation_ofNat, if_true, hv]

theorem decodeUtf8Lossy_char (c : Char) (rest : Bytes) :
    decodeUtf8Lossy (String.utf8EncodeChar c ++ rest) = c :: decodeUtf8Lossy rest := by
  have hvalid : c.toNat.isValidChar := c.valid
  have hc : Char.ofNat c.toNat = c := Char.ofNat_toNat c
  have hv : c.val.toNat = c.toNat := rfl
  unfold String.utf8EncodeChar
  simp only [hv]
  split
  · have ha : (UInt8.ofNat c.toNat).toNat = c.toNat := toNat_byte (by omega)
    rw [List.singleton_append, decodeUtf8Lossy.eq_def]
    dsimp only
    rw [ha, if_pos (by omega), hc]
  · split
    · have h := decodeUtf8Lossy_two (v := c.toNat) (by omega) (by omega) rest
      rwa [hc] at h
    · split
      · have h := decodeUtf8Lossy_three (by omega) (by omega) hvalid rest
        rwa [hc] at h
      · have h := decodeUtf8Lossy_four (by omega) hvalid rest
        rwa [hc] at h

theorem decodeUtf8Lossy_encodeUtf8 (text : List Char) : decodeUtf8Lossy (encodeUtf8 text) = text := by
  induction text with
  | nil => rfl
  | cons c text ih =>
    unfold encodeUtf8 at *
    rw [List.flatMap_cons, decodeUtf8Lossy_char, ih]

end Peeroxide.Lib
