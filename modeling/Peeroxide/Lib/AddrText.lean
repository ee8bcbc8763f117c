import Mathlib.Data.List.Basic
import Mathlib.Tactic.IntervalCases
import Peeroxide.Lib.Words

/-!
# The text of IP addresses

How the standard library writes and reads addresses: dotted decimal for IPv4, and for IPv6 colon-separated groups with
the longest run of zero groups left out, or a trailing dotted part for a mapped IPv4 address. A reader gives back what
it read and the text behind it.

* `readNumber`, `parseU8` : the two readers of numbers; `readNumber_toDigits`, `parseU8_toDigits`;
* `dotted`, `readIpv4` : `readIpv4_dotted`;
* `ipv6Text`, `parseIpv6` : **`parseIpv6_text`**, what is written is read back.
-/

namespace Peeroxide.Lib
open List Option
variable {bs : Bytes} {groups gs : List Nat} {hi left lo radix : Nat} {l rest s : List Char}

/-! ## Numbers -/

def digitValue (radix : Nat) (c : Char) : Option Nat :=
  let v :=
    if '0' ≤ c ∧ c ≤ '9' then some (c.toNat - '0'.toNat)
    else if 'a' ≤ c ∧ c ≤ 'z' then some (c.toNat - 'a'.toNat + 10)
    else if 'A' ≤ c ∧ c ≤ 'Z' then some (c.toNat - 'A'.toNat + 10)
    else none
  v.filter (· < radix)

/-- Read digits as long as there are any: the value, how many, and the rest. -/
def scanDigits (radix : Nat) : List Char → Nat → Nat → Nat × Nat × List Char
  | [], value, count => (value, count, [])
  | c :: cs, value, count =>
    match digitValue radix c with
    | some d => scanDigits radix cs (value * radix + d) (count + 1)
    | none => (value, count, c :: cs)

/-- A number below `bound` of at most `maxDigits` digits. -/
def readNumber (radix maxDigits : Nat) (allowZeroPrefix : Bool) (bound : Nat) (s : List Char) :
    Option (Nat × List Char) :=
  let r := scanDigits radix s 0 0
  if maxDigits < r.2.1 then none
  else if r.2.1 = 0 then none
  else if !allowZeroPrefix && s.head? == some '0' && 1 < r.2.1 then none
  else if r.1 < bound then some (r.1, r.2.2) else none

def dropPlus : List Char → List Char
  | '+' :: rest => rest
  | s => s

/-- The whole text as a `u8`: a plus sign may stand in front, and any number of zeros. -/
def parseU8 (s : List Char) : Option UInt8 :=
  let r := scanDigits 10 (dropPlus s) 0 0
  if r.2.1 = 0 then none
  else if r.2.2 ≠ [] then none
  else if r.1 < 256 then some (UInt8.ofNat r.1) else none

theorem digitValue_digitChar {d : Nat} (hr : radix ≤ 16) (hd : d < radix) :
    digitValue radix d.digitChar = some d := by
  have hd' : d < 16 := by omega
  have hv : digitValue 16 d.digitChar = some d := by
    interval_cases d <;> decide
  unfold digitValue at hv ⊢
  dsimp only at hv ⊢
  obtain ⟨hsome, -⟩ := filter_eq_some_iff.mp hv
  rw [hsome]
  simpa using hd

theorem scanDigits_toDigits (radix : Nat) (h₁ : 1 < radix) (h₂ : radix ≤ 16) (n : Nat) (rest : List Char) (k : Nat) :
    scanDigits radix (Nat.toDigits radix n ++ rest) 0 k =
      scanDigits radix rest n (k + (Nat.toDigits radix n).length) := by
  induction n using Nat.strong_induction_on generalizing rest with
  | _ n ih =>
    by_cases hn : n < radix
    · rw [Nat.toDigits_of_lt_base hn, singleton_append, scanDigits, digitValue_digitChar h₂ hn]
      simp
    · -- the last digit comes after those of the quotient
      have hmod : n % radix < radix := Nat.mod_lt _ (by omega)
      rw [Nat.toDigits_of_base_le h₁ (by omega), append_assoc, ih (n / radix) (Nat.div_lt_self (by omega) h₁),
        singleton_append, scanDigits, digitValue_digitChar h₂ hmod]
      simp only [length_append, length_singleton, Nat.add_assoc]
      rw [Nat.div_add_mod' n radix]

theorem scanDigits_stop (h : ∀ c ∈ rest.head?, digitValue radix c = none) (n k : Nat) :
    scanDigits radix rest n k = (n, k, rest) := by
  cases rest with
  | nil => rfl
  | cons c cs => rw [scanDigits, h c rfl]

theorem head_toDigits (h₁ : 1 < radix) (n : Nat) (h₀ : (Nat.toDigits radix n).head? = some '0') : n = 0 := by
  induction n using Nat.strong_induction_on with
  | _ n ih =>
    by_cases hn : n < radix
    · rw [Nat.toDigits_of_lt_base hn] at h₀
      simpa using h₀
    · rw [Nat.toDigits_of_base_le h₁ (by omega), head?_append_of_ne_nil _ Nat.toDigits_ne_nil] at h₀
      have hq := ih (n / radix) (Nat.div_lt_self (by omega) h₁) h₀
      have hpos : 0 < n / radix := Nat.div_pos (by omega) (by omega)
      omega

theorem readNumber_toDigits (radix maxDigits : Nat) {bound n : Nat} (h₁ : 1 < radix) (h₂ : radix ≤ 16) (hm : 0 < maxDigits)
    (hn : n < radix ^ maxDigits) (hb : n < bound) (allowZeroPrefix : Bool)
    (hrest : ∀ c ∈ rest.head?, digitValue radix c = none) :
    readNumber radix maxDigits allowZeroPrefix bound (Nat.toDigits radix n ++ rest) = some (n, rest) := by
  have hscan : scanDigits radix (Nat.toDigits radix n ++ rest) 0 0 = (n, (Nat.toDigits radix n).length, rest) := by
    rw [scanDigits_toDigits radix h₁ h₂, scanDigits_stop hrest, Nat.zero_add]
  have hlen : (Nat.toDigits radix n).length ≤ maxDigits := (Nat.length_toDigits_le_iff h₁ hm).mpr hn
  have hpos : 0 < (Nat.toDigits radix n).length := Nat.length_toDigits_pos
  unfold readNumber
  rw [hscan]
  dsimp only
  rw [if_neg (by omega), if_neg (by omega), if_neg, if_pos hb]
  -- only zero itself begins with a zero
  intro hz
  simp only [Bool.and_eq_true, beq_iff_eq] at hz
  obtain ⟨⟨-, hz⟩, hlong⟩ := hz
  rw [head?_append_of_ne_nil _ Nat.toDigits_ne_nil] at hz
  have h0 := head_toDigits h₁ n hz
  rw [h0] at hlong
  simp at hlong

theorem parseU8_toDigits (b : UInt8) : parseU8 (Nat.toDigits 10 b.toNat) = some b := by
  have hscan : scanDigits 10 (Nat.toDigits 10 b.toNat) 0 0 = (b.toNat, (Nat.toDigits 10 b.toNat).length, []) := by
    have h := scanDigits_toDigits 10 (by decide) (by decide) b.toNat [] 0
    rw [append_nil, Nat.zero_add] at h
    exact h
  have hpos : 0 < (Nat.toDigits 10 b.toNat).length := Nat.length_toDigits_pos
  have hplus : '+' ∉ Nat.toDigits 10 b.toNat := fun h =>
    absurd (Nat.isDigit_of_mem_toDigits (by decide) (by decide) h) (by decide)
  have hsame : dropPlus (Nat.toDigits 10 b.toNat) = Nat.toDigits 10 b.toNat := by
    unfold dropPlus
    split
    next rest e =>
      rw [e] at hplus
      exact absurd mem_cons_self hplus
    · rfl
  unfold parseU8
  rw [hsame, hscan]
  dsimp only
  rw [if_neg (by omega), if_neg (by simp), if_pos b.toNat_lt, UInt8.ofNat_toNat]

/-! ## IPv4 -/

def readChar (c : Char) : List Char → Option (List Char)
  | x :: rest => if x = c then some rest else none
  | [] => none

/-- Bytes in decimal, with dots between them. -/
def dotted (bs : Bytes) : List Char := ['.'].intercalate (bs.map fun b => Nat.toDigits 10 b.toNat)

/-- One number of an IPv4 address: no zeros in front. -/
def readOctet (s : List Char) : Option (UInt8 × List Char) :=
  (readNumber 10 3 false 256 s).map fun r => (UInt8.ofNat r.1, r.2)

def readIpv4 (s : List Char) : Option (Bytes × List Char) := do
  let (a, s) ← readOctet s
  let s ← readChar '.' s
  let (b, s) ← readOctet s
  let s ← readChar '.' s
  let (c, s) ← readOctet s
  let s ← readChar '.' s
  let (d, s) ← readOctet s
  some ([a, b, c, d], s)

theorem readOctet_toDigits (b : UInt8) (hrest : ∀ c ∈ rest.head?, digitValue 10 c = none) :
    readOctet (Nat.toDigits 10 b.toNat ++ rest) = some (b, rest) := by
  have hb := b.toNat_lt
  have h := readNumber_toDigits 10 3 (by decide) (by decide) (by decide)
    (lt_trans hb (by decide)) hb false hrest
  rw [readOctet, h]
  simp

theorem readIpv4_dotted (a b c d : UInt8) (hrest : ∀ x ∈ rest.head?, digitValue 10 x = none) :
    readIpv4 (dotted [a, b, c, d] ++ rest) = some ([a, b, c, d], rest) := by
  have dot : ∀ s : List Char, ∀ x ∈ ('.' :: s).head?, digitValue 10 x = none := by
    intro s x hx
    cases hx
    decide
  have e : dotted [a, b, c, d] ++ rest = Nat.toDigits 10 a.toNat ++ '.' :: (Nat.toDigits 10 b.toNat ++
      '.' :: (Nat.toDigits 10 c.toNat ++ '.' :: (Nat.toDigits 10 d.toNat ++ rest))) := by
    simp [dotted]
  rw [e, readIpv4, readOctet_toDigits a (dot _)]
  simp only [bind_eq_bind, bind_some, readChar, if_true]
  rw [readOctet_toDigits b (dot _)]
  simp only [bind_some, if_true]
  rw [readOctet_toDigits c (dot _)]
  simp only [bind_some, if_true]
  rw [readOctet_toDigits d hrest]
  rfl

/-! ## IPv6: writing -/

/-- The eight groups of sixteen bytes. -/
def groupsOf : Bytes → List Nat
  | a :: b :: rest => (a.toNat * 256 + b.toNat) :: groupsOf rest
  | _ => []

def octetsOf (groups : List Nat) : Bytes := groups.flatMap fun g => [UInt8.ofNat (g / 256), UInt8.ofNat (g % 256)]

structure Span where
  start : Nat
  len : Nat
  deriving DecidableEq, Repr

variable {z : Span}

/-- The loop that looks for the longest run of zero groups: the groups left, the index, the longest run so far and the
one under way. -/
def zeroSpan : List Nat → Nat → Span → Span → Span
  | [], _, longest, _ => longest
  | g :: rest, i, longest, current =>
    if g = 0 then
      let current : Span := if current.len = 0 then ⟨i, 1⟩ else ⟨current.start, current.len + 1⟩
      zeroSpan rest (i + 1) (if longest.len < current.len then current else longest) current
    else zeroSpan rest (i + 1) longest ⟨0, 0⟩

def colonHex : List Nat → List Char
  | [] => []
  | g :: gs => Nat.toDigits 16 g ++ gs.flatMap fun h => ':' :: Nat.toDigits 16 h

def ipv6Text (groups : List Nat) : List Char :=
  match groups with
  | [0, 0, 0, 0, 0, 0xffff, hi, lo] => "::ffff:".toList ++ dotted (octetsOf [hi, lo])
  | _ =>
    let z := zeroSpan groups 0 ⟨0, 0⟩ ⟨0, 0⟩
    if 1 < z.len then colonHex (groups.take z.start) ++ "::".toList ++ colonHex (groups.drop (z.start + z.len))
    else colonHex groups

/-! ## IPv6: reading -/

/-- The separator in front of every group but the first. -/
def readSep (first : Bool) (s : List Char) : Option (List Char) := if first then some s else readChar ':' s

/-- Up to `left` groups: those read, whether the last two were an IPv4 address, and the rest. -/
def readGroups : Nat → Bool → List Char → List Nat × Bool × List Char
  | 0, _, s => ([], false, s)
  | left + 1, first, s =>
    match if 0 < left then (readSep first s).bind readIpv4 else none with
    | some (octets, s) => (groupsOf octets, true, s)
    | none =>
      match (readSep first s).bind (readNumber 16 4 true 65536) with
      | some (g, s) =>
        let r := readGroups left false s
        (g :: r.1, r.2)
      | none => ([], false, s)

def readIpv6 (s : List Char) : Option (List Nat × List Char) :=
  let head := readGroups 8 true s
  if head.1.length = 8 then some (head.1, head.2.2)
  else if head.2.1 then none
  else do
    let s ← readChar ':' head.2.2
    let s ← readChar ':' s
    let tail := readGroups (8 - (head.1.length + 1)) true s
    some (head.1 ++ List.replicate (8 - head.1.length - tail.1.length) 0 ++ tail.1, tail.2.2)

def parseIpv6 (s : List Char) : Option (List Nat) :=
  match readIpv6 s with
  | some (groups, []) => some groups
  | _ => none

/-! ## IPv6: the round trip -/

theorem octetsOf_groupsOf (n : Nat) (h : bs.length = 2 * n) : octetsOf (groupsOf bs) = bs := by
  induction n generalizing bs with
  | zero =>
    rw [length_eq_zero_iff.mp h]
    rfl
  | succ n ih =>
    match bs, h with
    | a :: b :: rest, h =>
      have hb := b.toNat_lt
      have hdiv : (a.toNat * 256 + b.toNat) / 256 = a.toNat := by omega
      have hmod : (a.toNat * 256 + b.toNat) % 256 = b.toNat := by omega
      have hrest : octetsOf (groupsOf rest) = rest := ih (by simp only [length_cons] at h; omega)
      unfold octetsOf at hrest ⊢
      rw [groupsOf, flatMap_cons, hdiv, hrest]
      simp

theorem length_groupsOf (n : Nat) (h : bs.length = 2 * n) : (groupsOf bs).length = n := by
  induction n generalizing bs with
  | zero =>
    rw [length_eq_zero_iff.mp h]
    rfl
  | succ n ih =>
    match bs, h with
    | a :: b :: rest, h =>
      rw [groupsOf, length_cons, ih (by simp only [length_cons] at h; omega)]

theorem groupsOf_lt (bs : Bytes) : ∀ g ∈ groupsOf bs, g < 65536 := by
  fun_induction groupsOf bs with
  | case1 a b rest ih =>
    intro g hg
    rcases mem_cons.mp hg with rfl | hg
    · have ha := a.toNat_lt
      have hb := b.toNat_lt
      omega
    · exact ih g hg
  | case2 => intro g hg; cases hg

theorem groupsOf_octetsOf (h : ∀ g ∈ gs, g < 65536) : groupsOf (octetsOf gs) = gs := by
  induction gs with
  | nil => rfl
  | cons g gs ih =>
    have hg := h g mem_cons_self
    have hrest := ih fun x hx => h x (mem_cons_of_mem g hx)
    unfold octetsOf at hrest ⊢
    rw [flatMap_cons]
    simp only [cons_append, nil_append, groupsOf, UInt8.toNat_ofNat']
    rw [hrest]
    congr 1
    omega

/-- The run found is a run of zeros of the groups. -/
def IsZeroSpan (groups : List Nat) (z : Span) : Prop :=
  z.start + z.len ≤ groups.length ∧ (groups.drop z.start).take z.len = List.replicate z.len 0

theorem IsZeroSpan.append (h : IsZeroSpan groups z) (more : List Nat) : IsZeroSpan (groups ++ more) z := by
  obtain ⟨hle, hz⟩ := h
  refine ⟨by rw [length_append]; omega, ?_⟩
  rw [drop_append_of_le_length (by omega), take_append_of_le_length (by rw [length_drop]; omega), hz]

theorem IsZeroSpan.snoc (h : IsZeroSpan groups z) (hend : z.start + z.len = groups.length) :
    IsZeroSpan (groups ++ [0]) ⟨z.start, z.len + 1⟩ := by
  have hlen : (groups.drop z.start).length = z.len := by rw [length_drop]; omega
  have hz : groups.drop z.start = List.replicate z.len 0 := by rw [← h.2, take_of_length_le (by omega)]
  refine ⟨by simp only [length_append, length_singleton]; omega, ?_⟩
  have hdrop : (groups ++ [0]).drop z.start = List.replicate (z.len + 1) 0 := by
    rw [drop_append_of_le_length (by omega), hz, ← replicate_succ']
  rw [hdrop, take_of_length_le (by simp)]

theorem zeroSpan_spec (rest done : List Nat) {longest current : Span} (hl : IsZeroSpan done longest)
    (hc : current.len ≠ 0 → current.start + current.len = done.length ∧ IsZeroSpan done current) :
    IsZeroSpan (done ++ rest) (zeroSpan rest done.length longest current) := by
  induction rest generalizing done longest current with
  | nil =>
    rw [append_nil]
    exact hl
  | cons g rest ih =>
    have hdone : done ++ g :: rest = (done ++ [g]) ++ rest := by simp
    have hlen : done.length + 1 = (done ++ [g]).length := by simp
    rw [zeroSpan, hdone, hlen]
    split
    next hg =>
      subst hg
      -- the run under way, one longer
      generalize hcur : (if current.len = 0 then (⟨done.length, 1⟩ : Span) else ⟨current.start, current.len + 1⟩) = cur
      have hnew : cur.start + cur.len = (done ++ [0]).length ∧ IsZeroSpan (done ++ [0]) cur := by
        subst hcur
        split
        · exact ⟨by simp, by simp, by simp⟩
        next hne =>
          obtain ⟨hend, hz⟩ := hc hne
          exact ⟨by rw [length_append, ← hend]; rfl, hz.snoc hend⟩
      refine ih (done ++ [0]) ?_ fun _ => hnew
      split
      · exact hnew.2
      · exact hl.append _
    · exact ih (done ++ [g]) (hl.append _) fun h => absurd rfl h

theorem isZeroSpan_zeroSpan (groups : List Nat) : IsZeroSpan groups (zeroSpan groups 0 ⟨0, 0⟩ ⟨0, 0⟩) :=
  zeroSpan_spec groups [] ⟨Nat.zero_le _, rfl⟩ fun h => absurd rfl h

theorem IsZeroSpan.fill (h : IsZeroSpan groups z) :
    groups.take z.start ++ List.replicate z.len 0 ++ groups.drop (z.start + z.len) = groups := by
  rw [← h.2, append_assoc, ← drop_drop, take_append_drop, take_append_drop]

/-- The text ends, or goes on with a colon. -/
def GroupEnd (s : List Char) : Prop := ∀ c ∈ s.head?, c = ':'

theorem GroupEnd.not_digit (h : GroupEnd s) (hr : radix = 10 ∨ radix = 16) :
    ∀ c ∈ s.head?, digitValue radix c = none := by
  intro c hc
  rw [h c hc]
  rcases hr with rfl | rfl <;> decide

theorem dot_not_mem_toDigits (g : Nat) : '.' ∉ Nat.toDigits 16 g := by
  induction g using Nat.strong_induction_on with
  | _ g ih =>
    by_cases hg : g < 16
    · rw [Nat.toDigits_of_lt_base hg, mem_singleton]
      exact (Nat.digitChar_ne '.' (by decide)).symm
    · rw [Nat.toDigits_of_base_le (by decide) (by omega), mem_append, mem_singleton]
      rintro (h | h)
      · exact ih (g / 16) (Nat.div_lt_self (by omega) (by decide)) h
      · exact Nat.digitChar_ne '.' (by decide) h.symm

theorem scanDigits_no_dot (hl : '.' ∉ l) (hs : GroupEnd s) (v k : Nat) :
    (scanDigits 10 (l ++ s) v k).2.2.head? ≠ some '.' := by
  induction l generalizing v k with
  | nil =>
    rw [nil_append, scanDigits_stop (hs.not_digit (.inl rfl))]
    intro h
    exact absurd (hs '.' h) (by decide)
  | cons c cs ih =>
    rw [cons_append, scanDigits]
    split
    · exact ih (fun h => hl (mem_cons_of_mem c h)) _ _
    · intro h
      exact hl (by simp_all)

theorem readOctet_rest {b : UInt8} (h : readOctet s = some (b, rest)) : (scanDigits 10 s 0 0).2.2 = rest := by
  unfold readOctet readNumber at h
  dsimp only at h
  split at h
  · cases h
  · split at h
    · cases h
    · split at h
      · cases h
      · split at h
        · cases h
          rfl
        · cases h

theorem readIpv4_none (hl : '.' ∉ l) (hs : GroupEnd s) : readIpv4 (l ++ s) = none := by
  unfold readIpv4
  cases hr : readOctet (l ++ s) with
  | none => rfl
  | some r =>
    have hdot := scanDigits_no_dot hl hs 0 0
    rw [readOctet_rest hr] at hdot
    have hchar : readChar '.' r.2 = none := by
      unfold readChar
      split
      next x rest e =>
        rw [if_neg]
        rintro rfl
        rw [e] at hdot
        exact hdot rfl
      · rfl
    simp [hchar]

theorem readNumber_none (hs : GroupEnd s) : readNumber 16 4 true 65536 s = none := by
  unfold readNumber
  rw [scanDigits_stop (hs.not_digit (.inr rfl))]
  rfl

def groupText (first : Bool) (g : Nat) : List Char :=
  if first then Nat.toDigits 16 g else ':' :: Nat.toDigits 16 g

theorem readSep_groupText (first : Bool) (g : Nat) (s : List Char) :
    readSep first (groupText first g ++ s) = some (Nat.toDigits 16 g ++ s) := by
  cases first <;> simp [readSep, groupText, readChar]

theorem readGroups_group {g : Nat} (first : Bool) (hg : g < 65536) (hs : GroupEnd s) :
    readGroups (left + 1) first (groupText first g ++ s) =
      (g :: (readGroups left false s).1, (readGroups left false s).2) := by
  rw [readGroups, readSep_groupText, bind_some, bind_some, readIpv4_none (dot_not_mem_toDigits g) hs,
    ite_self, readNumber_toDigits 16 4 (by decide) (by decide) (by decide) hg hg true (hs.not_digit (.inr rfl))]

theorem readGroups_stop (left : Nat) (first : Bool) (hs : s = [] ∨ ∃ r, s = ':' :: ':' :: r) :
    readGroups left first s = ([], false, s) := by
  cases left with
  | zero => rfl
  | succ left =>
    -- behind the separator, if it can be read, there is still no number
    have hsep : ∀ r ∈ readSep first s, GroupEnd r := by
      intro r hr c hc
      rcases hs with rfl | ⟨r', rfl⟩ <;> cases first
      · cases hr
      · cases hr
        cases hc
      · cases hr
        cases hc
        rfl
      · cases hr
        cases hc
        rfl
    have h₁ : (readSep first s).bind readIpv4 = none := by
      refine bind_eq_none_iff.mpr fun r hr => ?_
      exact readIpv4_none (l := []) (by simp) (hsep r hr)
    have h₂ : (readSep first s).bind (readNumber 16 4 true 65536) = none := by
      refine bind_eq_none_iff.mpr fun r hr => ?_
      exact readNumber_none (hsep r hr)
    rw [readGroups, h₁, ite_self, h₂]

def groupsText (first : Bool) : List Nat → List Char
  | [] => []
  | g :: gs => groupText first g ++ groupsText false gs

theorem colonHex_eq (gs : List Nat) : colonHex gs = groupsText true gs := by
  have htail : ∀ gs : List Nat, (gs.flatMap fun h => ':' :: Nat.toDigits 16 h) = groupsText false gs := by
    intro gs
    induction gs with
    | nil => rfl
    | cons g gs ih =>
      rw [flatMap_cons, ih]
      rfl
  cases gs with
  | nil => rfl
  | cons g gs =>
    rw [colonHex, htail]
    rfl

theorem groupEnd_groupsText (gs : List Nat) (hs : s = [] ∨ ∃ r, s = ':' :: ':' :: r) :
    GroupEnd (groupsText false gs ++ s) := by
  intro c hc
  cases gs with
  | nil =>
    rcases hs with rfl | ⟨r, rfl⟩
    · cases hc
    · cases hc
      rfl
  | cons g gs =>
    cases hc
    rfl

/-- Written groups are read back, up to the end of the text or a double colon. -/
theorem readGroups_groupsText (hgs : ∀ g ∈ gs, g < 65536) (hleft : gs.length ≤ left)
    (first : Bool) (hs : s = [] ∨ ∃ r, s = ':' :: ':' :: r) :
    readGroups left first (groupsText first gs ++ s) = (gs, false, s) := by
  induction gs generalizing left first with
  | nil => exact readGroups_stop left first hs
  | cons g gs ih =>
    obtain ⟨left, rfl⟩ : ∃ l, left = l + 1 := ⟨left - 1, by simp only [length_cons] at hleft; omega⟩
    rw [groupsText, append_assoc, readGroups_group first (hgs g mem_cons_self) (groupEnd_groupsText gs hs),
      ih (fun x hx => hgs x (mem_cons_of_mem g hx)) (by simpa using hleft) false]

theorem readGroups_dotted (hleft : 0 < left) (hhi : hi < 65536) (hlo : lo < 65536) :
    readGroups (left + 1) false (':' :: dotted (octetsOf [hi, lo])) = ([hi, lo], true, []) := by
  have hread : readIpv4 (dotted (octetsOf [hi, lo]) ++ []) = some (octetsOf [hi, lo], []) :=
    readIpv4_dotted _ _ _ _ fun x hx => by cases hx
  have hsep : readSep false (':' :: dotted (octetsOf [hi, lo])) = some (dotted (octetsOf [hi, lo])) := rfl
  have hgroups : groupsOf (octetsOf [hi, lo]) = [hi, lo] := groupsOf_octetsOf (by simp [hhi, hlo])
  rw [append_nil] at hread
  rw [readGroups, if_pos hleft, hsep, bind_some, hread]
  show (groupsOf (octetsOf [hi, lo]), true, []) = _
  rw [hgroups]

theorem readIpv6_mapped (hhi : hi < 65536) (hlo : lo < 65536) :
    readIpv6 ("::ffff:".toList ++ dotted (octetsOf [hi, lo])) = some ([0, 0, 0, 0, 0, 0xffff, hi, lo], []) := by
  have htext : "::ffff:".toList ++ dotted (octetsOf [hi, lo]) =
      ':' :: ':' :: (groupText true 0xffff ++ ':' :: dotted (octetsOf [hi, lo])) := rfl
  have htail : readGroups 7 true (groupText true 0xffff ++ ':' :: dotted (octetsOf [hi, lo])) =
      ([0xffff, hi, lo], true, []) := by
    rw [readGroups_group true (by decide) (fun c hc => by cases hc; rfl), readGroups_dotted (by decide) hhi hlo]
  unfold readIpv6
  rw [htext, readGroups_stop 8 true (.inr ⟨_, rfl⟩)]
  simp only [length_nil, readChar, if_true, bind_eq_bind, bind_some]
  rw [htail]
  rfl

section
variable (hlen : groups.length = 8) (hlt : ∀ g ∈ groups, g < 65536)
include hlen hlt

theorem readIpv6_plain :
    readIpv6 (colonHex groups) = some (groups, []) := by
  have h := readGroups_groupsText hlt (le_of_eq hlen) true (.inl rfl)
  rw [append_nil] at h
  rw [colonHex_eq, readIpv6, h]
  exact if_pos hlen

theorem readIpv6_compressed (hz : IsZeroSpan groups z) (hlong : 1 < z.len) :
    readIpv6 (colonHex (groups.take z.start) ++ "::".toList ++ colonHex (groups.drop (z.start + z.len))) =
      some (groups, []) := by
  have hend := hz.1
  have hhead : (groups.take z.start).length = z.start := by rw [length_take]; omega
  have hback : (groups.drop (z.start + z.len)).length = 8 - (z.start + z.len) := by rw [length_drop, hlen]
  rw [colonHex_eq, colonHex_eq, append_assoc]
  have h₁ : readGroups 8 true (groupsText true (groups.take z.start) ++
      ("::".toList ++ groupsText true (groups.drop (z.start + z.len)))) =
      (groups.take z.start, false, "::".toList ++ groupsText true (groups.drop (z.start + z.len))) :=
    readGroups_groupsText (fun g hg => hlt g (mem_of_mem_take hg)) (by omega) true (.inr ⟨_, rfl⟩)
  have h₂ : readGroups (8 - (z.start + 1)) true (groupsText true (groups.drop (z.start + z.len)) ++ []) =
      (groups.drop (z.start + z.len), false, []) :=
    readGroups_groupsText (fun g hg => hlt g (mem_of_mem_drop hg)) (by omega) true (.inl rfl)
  rw [append_nil] at h₂
  unfold readIpv6
  rw [h₁]
  dsimp only
  rw [if_neg (by omega), if_neg (by simp), hhead]
  have hcolons : ∀ r : List Char, (readChar ':' ("::".toList ++ r)).bind (readChar ':') = some r := fun _ => rfl
  simp only [bind_eq_bind]
  rw [← bind_assoc, hcolons, bind_some, h₂]
  dsimp only
  have hfill : 8 - z.start - (groups.drop (z.start + z.len)).length = z.len := by omega
  rw [hfill, hz.fill]

/-- **The text of an IPv6 address is read back as that address.** -/
theorem parseIpv6_text :
    parseIpv6 (ipv6Text groups) = some groups := by
  have hread : readIpv6 (ipv6Text groups) = some (groups, []) := by
    unfold ipv6Text
    split
    · exact readIpv6_mapped (hlt _ (by simp)) (hlt _ (by simp))
    · dsimp only
      split
      · exact readIpv6_compressed hlen hlt (isZeroSpan_zeroSpan groups) ‹_›
      · exact readIpv6_plain hlen hlt
  rw [parseIpv6, hread]

end

example : String.ofList (ipv6Text [0x2001, 0xdb8, 0, 0, 1, 0, 0, 1]) = "2001:db8::1:0:0:1" := by decide

end Peeroxide.Lib
