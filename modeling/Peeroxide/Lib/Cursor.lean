import Peeroxide.Lib.Words

/-!
# Two-pass codecs over a byte buffer

A first pass moves the end of a cursor by the size of a value, the buffer is allocated, and a second pass writes the
value at the start of the cursor; reading moves the start over a buffer that is there. Writing past the buffer, taking a
slice past it, and asking for more capacity than the allocator grants, stops the program; an error is a result.

* `Cursor`, `Fault`, `Action` : the state, the two ways to fail, and code that works on the state;
* `Writes a bs` : `a` writes `bs`, and stops the program when the buffer has no room for all of it;
* `Reads a bs x` : in front of `bs`, `a` returns `x` and stops behind `bs`;
* `Parses a bs x` : in front of `bs` with nothing behind it, `a` returns `x`;
* `Safe a` : on a buffer that is there, `a` never stops the program, whatever the bytes are;
* `Moves n a` : what `a` changes is the start, by `n` bytes at the least;
* `emit` : both passes; `Writes.emit` : what they produce when the first pass reserves enough.
-/

namespace Peeroxide.Lib
open List

/-- A position in a buffer, the end of what is reserved, and the largest capacity the allocator grants. -/
structure Cursor where
  start : Nat
  stop : Nat
  buffer : Bytes
  grant : Nat
  deriving DecidableEq, Repr

/-- What an allocation can have at most: `isize::MAX`. -/
def maxGrant : Nat := 2 ^ 63 - 1

/-- A capacity that is always granted. -/
def leastGrant : Nat := 2 ^ 20

theorem maxGrant_lt : maxGrant < 2 ^ 64 := by decide

theorem leastGrant_le : leastGrant ≤ maxGrant := by decide

/-- The program stops, or returns an error. -/
inductive Fault (ε : Type) where
  | panic
  | error (e : ε)
  deriving DecidableEq, Repr

abbrev Action (ε α : Type) := StateT Cursor (Except (Fault ε)) α

namespace Cursor
variable {bs : Bytes} {c : Cursor}

def empty : Cursor := ⟨0, 0, [], maxGrant⟩

/-- A cursor at the start of a buffer that is there. -/
def ofBuffer (buffer : Bytes) (grant : Nat := maxGrant) : Cursor := ⟨0, buffer.length, buffer, grant⟩

/-- The first pass over `n` bytes. -/
def reserve (c : Cursor) (n : Nat) : Cursor := { c with stop := c.stop + n }

def alloc (c : Cursor) : Cursor := { c with buffer := c.buffer ++ List.replicate (c.stop - c.buffer.length) 0 }

/-- The bytes at the start replaced by `bs`, and the start behind them. -/
def put (c : Cursor) (bs : Bytes) : Cursor :=
  { c with
    start := c.start + bs.length
    buffer := c.buffer.take c.start ++ bs ++ c.buffer.drop (c.start + bs.length) }

def skip (c : Cursor) (n : Nat) : Cursor := { c with start := c.start + n }

def room (c : Cursor) : Nat := c.buffer.length - c.start

/-- The first pass over a field that may be absent. -/
def reserveOpt {α : Type} (c : Cursor) (o : Option α) (pre : Cursor → α → Cursor) : Cursor :=
  match o with
  | some x => pre c x
  | none => c

theorem reserve_reserve (c : Cursor) (m n : Nat) : (c.reserve m).reserve n = c.reserve (m + n) := by
  simp [reserve, Nat.add_assoc]

theorem reserveOpt_eq {α : Type} {o : Option α} {pre : Cursor → α → Cursor} {bytes : α → Bytes}
    (h : ∀ x ∈ o, pre c x = c.reserve (bytes x).length) :
    c.reserveOpt o pre = c.reserve (o.elim [] bytes).length := by
  cases o with
  | none => rfl
  | some x => exact h x rfl

theorem foldl_reserve {α : Type} {xs : List α} {pre : Cursor → α → Cursor} {bytes : α → Bytes}
    (h : ∀ x ∈ xs, ∀ c, pre c x = c.reserve (bytes x).length) (c : Cursor) :
    xs.foldl pre c = c.reserve (xs.flatMap bytes).length := by
  induction xs generalizing c with
  | nil => rfl
  | cons x xs ih =>
    rw [foldl_cons, ih fun y hy => h y (mem_cons_of_mem x hy), h x mem_cons_self, reserve_reserve, flatMap_cons,
      length_append]

theorem reserve_cond {c' : Cursor} {cond : Bool} (h : cond = true → c' = c.reserve bs.length) :
    (if cond then c' else c) = c.reserve (if cond then bs else []).length := by
  cases cond with
  | false => rfl
  | true => exact h rfl

theorem length_put (h : c.start + bs.length ≤ c.buffer.length) : (c.put bs).buffer.length = c.buffer.length := by
  simp only [put, length_append, length_take, length_drop]
  omega

theorem put_nil : c.put [] = c := by
  simp [put]

theorem put_put {ds : Bytes} (h : c.start + bs.length ≤ c.buffer.length) : (c.put bs).put ds = c.put (bs ++ ds) := by
  have hlen : (c.buffer.take c.start).length = c.start := by rw [length_take]; omega
  have htake : (c.put bs).buffer.take (c.start + bs.length) = c.buffer.take c.start ++ bs := by
    rw [put, take_left' (by rw [length_append, hlen])]
  have hdrop : (c.put bs).buffer.drop (c.start + bs.length + ds.length) =
      c.buffer.drop (c.start + (bs.length + ds.length)) := by
    rw [put, ← drop_drop, drop_left' (by rw [length_append, hlen]), drop_drop, Nat.add_assoc]
  have e : (c.put bs).start = c.start + bs.length := rfl
  rw [put, e, htake, hdrop]
  simp only [put, length_append, append_assoc, Nat.add_assoc]

end Cursor

section
variable {ε α β : Type}
variable {bs ds : Bytes} {c : Cursor} {cond : Bool} {grant m n : Nat}

variable {δ : Type} {y : β} {xs : List α} {o : Option α} {bytes : α → Bytes} {f : α → Action ε β} {x : α}
variable (short : Nat → Nat → ε) {a : Action ε α}

theorem bind_ok {c' : Cursor} (h : a c = .ok (x, c')) (f : α → Action ε β) : (a >>= f) c = f x c' := by
  show (a c >>= fun p => f p.1 p.2) = f x c'
  rw [h]
  rfl

theorem bind_error {e : Fault ε} (h : a c = .error e) (f : α → Action ε β) : (a >>= f) c = .error e := by
  show (a c >>= fun p => f p.1 p.2) = .error e
  rw [h]
  rfl

/-! ## Writing -/

def write (bs : Bytes) : Action ε Unit := fun c =>
  if c.start + bs.length ≤ c.buffer.length then .ok ((), c.put bs) else .error .panic

/-- Nothing for `none`. -/
def writeOpt (o : Option α) (f : α → Action ε Unit) : Action ε Unit :=
  match o with
  | some x => f x
  | none => pure ()

def writeIf (cond : Bool) (a : Action ε Unit) : Action ε Unit := if cond then a else pure ()

/-- The code writes exactly `bs`, or stops the program for lack of room. -/
def Writes (a : Action ε Unit) (bs : Bytes) : Prop :=
  ∀ c : Cursor, c.start ≤ c.buffer.length →
    (bs.length ≤ c.room → a c = .ok ((), c.put bs)) ∧ (c.room < bs.length → a c = .error .panic)

theorem writes_write (bs : Bytes) : Writes (ε := ε) (write bs) bs := by
  intro c hc
  unfold Cursor.room write
  exact ⟨fun h => if_pos (by omega), fun h => if_neg (by omega)⟩

theorem Writes.nil : Writes (ε := ε) (pure ()) [] := by
  intro c _
  refine ⟨fun _ => ?_, fun h => absurd h (by simp)⟩
  rw [Cursor.put_nil]
  rfl

theorem Writes.append {a b : Action ε Unit} (ha : Writes a bs) (hb : Writes b ds) : Writes (do a; b) (bs ++ ds) := by
  intro c hc
  rw [length_append]
  by_cases hfit : bs.length ≤ c.room
  · have hroom : c.start + bs.length ≤ c.buffer.length := by unfold Cursor.room at hfit; omega
    have hlen := Cursor.length_put hroom
    have hput : (c.put bs).start = c.start + bs.length := rfl
    obtain ⟨hok, hpanic⟩ := hb (c.put bs) (by omega)
    have hleft : (c.put bs).room = c.room - bs.length := by unfold Cursor.room; omega
    rw [bind_ok ((ha c hc).1 hfit)]
    refine ⟨fun h => ?_, fun h => hpanic (by omega)⟩
    rw [hok (by omega), Cursor.put_put hroom]
  · refine ⟨fun h => absurd h (by omega), fun _ => ?_⟩
    exact bind_error ((ha c hc).2 (by omega)) _

theorem Writes.writeOpt {f : α → Action ε Unit}
    (h : ∀ x ∈ o, Writes (f x) (bytes x)) : Writes (writeOpt o f) (o.elim [] bytes) := by
  cases o with
  | none => exact .nil
  | some x => exact h x rfl

theorem Writes.writeIf {a : Action ε Unit} (h : cond = true → Writes a bs) :
    Writes (writeIf cond a) (if cond then bs else []) := by
  cases cond with
  | false => exact .nil
  | true => exact h rfl

theorem Writes.forM {f : α → Action ε Unit}
    (h : ∀ x ∈ xs, Writes (f x) (bytes x)) : Writes (xs.forM f) (xs.flatMap bytes) := by
  induction xs with
  | nil => exact .nil
  | cons x xs ih =>
    exact (h x mem_cons_self).append (ih fun y hy => h y (mem_cons_of_mem x hy))

/-- Both passes from an empty cursor. -/
def emit (pre : Cursor → Cursor) (a : Action ε Unit) : Except (Fault ε) Bytes :=
  (a (pre .empty).alloc).map (fun r => r.2.buffer)

theorem Writes.emit {a : Action ε Unit} (h : Writes a bs) {pre : Cursor → Cursor}
    (hpre : pre .empty = Cursor.empty.reserve bs.length) : emit pre a = .ok bs := by
  have hstart := (h (pre .empty).alloc (by rw [hpre]; exact Nat.zero_le _)).1
    (by rw [hpre]; simp [Cursor.room, Cursor.alloc, Cursor.reserve, Cursor.empty])
  unfold Lib.emit
  rw [hstart, hpre]
  simp [Except.map, Cursor.put, Cursor.alloc, Cursor.reserve, Cursor.empty]

/-! ## Reading -/

def check (short : Nat → Nat → ε) (n : Nat) : Action ε Unit := fun c =>
  if c.stop - c.start < n then .error (.error (short n (c.stop - c.start))) else .ok ((), c)

def slice (n : Nat) : Action ε { bs : Bytes // bs.length = n } := fun c =>
  if h : c.start + n ≤ c.buffer.length then
    .ok (⟨(c.buffer.drop c.start).take n, by rw [List.length_take, List.length_drop]; omega⟩, c.skip n)
  else .error .panic

/-- Ask for room for `n` elements. -/
def withCapacity (n : Nat) : Action ε Unit := fun c => if n ≤ c.grant then .ok ((), c) else .error .panic

def raise (e : ε) : Action ε α := fun _ => .error (.error e)

/-- `none` without reading when the condition fails. -/
def readIf (cond : Bool) (a : Action ε α) : Action ε (Option α) :=
  if cond then do
    let x ← a
    pure (some x)
  else pure none

/-- The default without reading when the condition fails. -/
def readOr (cond : Bool) (a : Action ε α) (default : α) : Action ε α := if cond then a else pure default

def readMany (a : Action ε α) : Nat → Action ε (List α)
  | 0 => pure []
  | n + 1 => do
    let x ← a
    let xs ← readMany a n
    pure (x :: xs)

/-- The cursor is at the start of `bs`, which is the rest of its buffer. -/
structure Cursor.Faces (c : Cursor) (bs : Bytes) : Prop where
  stop : c.stop = c.buffer.length
  start : c.start ≤ c.buffer.length
  drop : c.buffer.drop c.start = bs
  grant : leastGrant ≤ c.grant

theorem Cursor.faces_ofBuffer (bs : Bytes) : (ofBuffer bs).Faces bs := ⟨rfl, Nat.zero_le _, rfl, leastGrant_le⟩

theorem Cursor.Faces.length (h : c.Faces bs) : c.start + bs.length = c.buffer.length := by
  have := congrArg List.length h.drop
  have := h.start
  rw [length_drop] at *
  omega

theorem Cursor.Faces.skip {rest : Bytes} (h : c.Faces (bs ++ rest)) : (c.skip bs.length).Faces rest := by
  have hlen := h.length
  rw [length_append] at hlen
  refine ⟨h.stop, by simp only [Cursor.skip]; omega, ?_, h.grant⟩
  simp only [Cursor.skip]
  rw [← drop_drop, h.drop, drop_left]

/-- In front of `bs`, whatever follows, the code returns `x` and stops behind `bs`. -/
def Reads (a : Action ε α) (bs : Bytes) (x : α) : Prop :=
  ∀ (c : Cursor) (rest : Bytes), c.Faces (bs ++ rest) → a c = .ok (x, c.skip bs.length)

theorem Reads.pure (x : α) : Reads (ε := ε) (pure x) [] x := fun _ _ _ => rfl

theorem Reads.bind (ha : Reads a bs x) (hf : Reads (f x) ds y) : Reads (a >>= f) (bs ++ ds) y := by
  intro c rest hc
  rw [append_assoc] at hc
  rw [bind_ok (ha c _ hc), hf _ rest hc.skip]
  simp [Cursor.skip, Nat.add_assoc]

theorem Reads.map (ha : Reads a bs x) (f : α → β) : Reads (do let y ← a; Pure.pure (f y)) bs (f x) := by
  have h := ha.bind (f := fun y => Pure.pure (f y)) (.pure (f x))
  rwa [append_nil] at h

theorem reads_slice (h : bs.length = n) : Reads (ε := ε) (slice n) bs ⟨bs, h⟩ := by
  intro c rest hc
  have hlen := hc.length
  rw [length_append] at hlen
  have htake : (c.buffer.drop c.start).take n = bs := by rw [hc.drop, take_left' h]
  unfold slice
  rw [dif_pos (by omega), h]
  simp only [htake]

theorem Reads.check (ha : Reads a bs x) (short : Nat → Nat → ε)
    (hn : n ≤ bs.length) : Reads (do Lib.check short n; a) bs x := by
  intro c rest hc
  have hlen := hc.length
  rw [length_append] at hlen
  have hcheck : Lib.check short n c = .ok ((), c) := if_neg (by rw [hc.stop]; omega)
  rw [bind_ok hcheck]
  exact ha c rest hc

theorem Reads.withCapacity (ha : Reads a bs x) (hn : n ≤ leastGrant) : Reads (do Lib.withCapacity n; a) bs x := by
  intro c rest hc
  have hgrant : Lib.withCapacity (ε := ε) n c = .ok ((), c) := if_pos (le_trans hn hc.grant)
  rw [bind_ok hgrant]
  exact ha c rest hc

theorem Reads.readIf (hcond : cond = o.isSome)
    (h : ∀ x ∈ o, Reads a (bytes x) x) : Reads (readIf cond a) (o.elim [] bytes) o := by
  subst hcond
  cases o with
  | none => exact .pure none
  | some x => exact (h x rfl).map some

theorem Reads.readOr {x default : α} {flag : Bool} (hflag : flag = cond)
    (h : cond = true → Reads a bs x) (hdefault : cond = false → default = x) :
    Reads (readOr flag a default) (if cond then bs else []) x := by
  subst hflag
  cases flag with
  | false =>
    rw [hdefault rfl]
    exact .pure x
  | true => exact h rfl

theorem Reads.readMany (h : ∀ x ∈ xs, Reads a (bytes x) x) : Reads (readMany a xs.length) (xs.flatMap bytes) xs := by
  induction xs with
  | nil => exact .pure []
  | cons x xs ih =>
    have htail := ih fun y hy => h y (mem_cons_of_mem x hy)
    exact (h x mem_cons_self).bind (htail.map (x :: ·))

/-- The rest of what is reserved, without moving. -/
def sliceToEnd : Action ε Bytes := fun c =>
  if c.start ≤ c.stop ∧ c.stop ≤ c.buffer.length then .ok ((c.buffer.take c.stop).drop c.start, c) else .error .panic

def hasLeft : Action ε Bool := fun c => .ok (c.start < c.stop, c)

/-- The code with its errors as errors of another kind. -/
def liftError {δ : Type} (f : ε → δ) (a : Action ε α) : Action δ α := fun c =>
  match a c with
  | .ok r => .ok r
  | .error .panic => .error .panic
  | .error (.error e) => .error (.error (f e))

theorem Reads.liftError (ha : Reads a bs x) (f : ε → δ) : Reads (Lib.liftError f a) bs x := by
  intro c rest hc
  simp only [Lib.liftError, ha c rest hc]

/-- In front of `bs`, with nothing behind it, in a buffer that can be allocated, the code returns `x`. -/
def Parses (a : Action ε α) (bs : Bytes) (x : α) : Prop :=
  ∀ c : Cursor, c.buffer.length ≤ maxGrant → c.Faces bs → (a c).map Prod.fst = .ok x

theorem Parses.pure (x : α) (bs : Bytes) : Parses (ε := ε) (pure x) bs x := fun _ _ _ => rfl

theorem Reads.parses (ha : Reads a bs x) : Parses a bs x := by
  intro c _ hc
  rw [ha c [] (by rwa [append_nil])]
  rfl

theorem Reads.bind_parses (ha : Reads a bs x) (hf : Parses (f x) ds y) : Parses (a >>= f) (bs ++ ds) y := by
  intro c hcap hc
  rw [bind_ok (ha c ds hc)]
  exact hf _ hcap hc.skip

theorem Parses.map (ha : Parses a bs x) (f : α → β) : Parses (do let y ← a; Pure.pure (f y)) bs (f x) := by
  intro c hcap hc
  have h := ha c hcap hc
  cases hr : a c with
  | error e =>
    rw [hr] at h
    cases h
  | ok r =>
    rw [hr] at h
    rw [bind_ok hr]
    cases h
    rfl

theorem parses_sliceToEnd (bs : Bytes) : Parses (ε := ε) sliceToEnd bs bs := by
  intro c _ hc
  have hslice : sliceToEnd (ε := ε) c = .ok ((c.buffer.take c.stop).drop c.start, c) :=
    if_pos ⟨by rw [hc.stop]; exact hc.start, le_of_eq hc.stop⟩
  rw [hslice, hc.stop, take_length, hc.drop]
  rfl

theorem Parses.hasLeft {f : Bool → Action ε α} (h : Parses (f !bs.isEmpty) bs x) :
    Parses (do let more ← Lib.hasLeft; f more) bs x := by
  intro c hcap hc
  have hlen := hc.length
  have hmore : Lib.hasLeft (ε := ε) c = .ok (!bs.isEmpty, c) := by
    unfold Lib.hasLeft
    rw [hc.stop]
    cases bs with
    | nil =>
      simp [← hlen]
    | cons b bs =>
      rw [length_cons] at hlen
      have : c.start < c.buffer.length := by omega
      simp [this]
  rw [bind_ok hmore]
  exact h c hcap hc

def parse (a : Action ε α) (bs : Bytes) (grant : Nat := maxGrant) : Except (Fault ε) α :=
  (a (.ofBuffer bs grant)).map Prod.fst

theorem Reads.parse (h : Reads a bs x) : parse a bs = .ok x := by
  unfold Lib.parse
  rw [h (.ofBuffer bs) [] (by rw [append_nil]; exact Cursor.faces_ofBuffer bs)]
  rfl

theorem Parses.parse (h : Parses a bs x) (hcap : bs.length ≤ maxGrant) :
    Lib.parse a bs = .ok x := h (.ofBuffer bs) hcap (Cursor.faces_ofBuffer bs)

/-! ## Safety -/

/-- The start is inside a buffer that is there. -/
structure Cursor.Sound (c : Cursor) : Prop where
  start : c.start ≤ c.stop
  stop : c.stop = c.buffer.length
  grant : leastGrant ≤ c.grant

theorem Cursor.sound_ofBuffer (bs : Bytes) (h : leastGrant ≤ grant) : (ofBuffer bs grant).Sound :=
  ⟨Nat.zero_le _, rfl, h⟩

/-- From a sound cursor the code never stops the program, and what it returns it returns with a sound cursor. -/
def Safe (a : Action ε α) : Prop :=
  ∀ c : Cursor, c.Sound → a c ≠ .error .panic ∧ ∀ x c', a c = .ok (x, c') → c'.Sound

theorem Safe.pure (x : α) : Safe (ε := ε) (pure x) := by
  intro c hc
  refine ⟨nofun, fun y c' h => ?_⟩
  cases h
  exact hc

theorem Safe.hasLeft : Safe (ε := ε) Lib.hasLeft := by
  intro c hc
  refine ⟨nofun, fun x c' h => ?_⟩
  cases h
  exact hc

theorem Safe.raise (e : ε) : Safe (α := α) (raise e) := fun _ _ => ⟨nofun, nofun⟩

theorem Safe.bind (ha : Safe a) (hf : ∀ x, Safe (f x)) : Safe (a >>= f) := by
  intro c hc
  obtain ⟨hpanic, hnext⟩ := ha c hc
  cases h : a c with
  | error e =>
    rw [bind_error h]
    refine ⟨fun hp => hpanic ?_, nofun⟩
    cases hp
    exact h
  | ok r =>
    rw [bind_ok h]
    exact hf r.1 r.2 (hnext r.1 r.2 h)

theorem Safe.check (n : Nat) : Safe (Lib.check short n) := by
  intro c hc
  unfold Lib.check
  split
  · exact ⟨nofun, nofun⟩
  · refine ⟨nofun, fun x c' h => ?_⟩
    cases h
    exact hc

theorem Safe.take {f : { bs : Bytes // bs.length = n } → Action ε α} (hf : ∀ bs, Safe (f bs)) :
    Safe (do Lib.check short n; let bs ← slice n; f bs) := by
  intro c hc
  by_cases hn : c.stop - c.start < n
  · have hcheck : Lib.check short n c = .error (.error (short n (c.stop - c.start))) := if_pos hn
    rw [bind_error hcheck]
    exact ⟨nofun, nofun⟩
  · have hcheck : Lib.check short n c = .ok ((), c) := if_neg hn
    have hstart := hc.start
    have hstop := hc.stop
    have hslice : slice (ε := ε) n c = .ok (⟨(c.buffer.drop c.start).take n, by
        rw [length_take, length_drop]; omega⟩, c.skip n) := dif_pos (by omega)
    rw [bind_ok hcheck, bind_ok hslice]
    exact hf _ _ ⟨by simp only [Cursor.skip]; omega, hc.stop, hc.grant⟩

theorem Safe.slice (n : Nat) : Safe (do Lib.check short n; Lib.slice n) := by
  have h := Safe.take short (n := n) fun bs => .pure bs
  rwa [bind_pure] at h

theorem Safe.withCapacity (hn : n ≤ leastGrant) : Safe (ε := ε) (Lib.withCapacity n) := by
  intro c hc
  have hgrant : Lib.withCapacity (ε := ε) n c = .ok ((), c) := if_pos (le_trans hn hc.grant)
  rw [hgrant]
  refine ⟨nofun, fun x c' h => ?_⟩
  cases h
  exact hc

theorem Safe.readOr (ha : Safe a) (cond : Bool) (default : α) : Safe (readOr cond a default) := by
  cases cond with
  | false => exact .pure default
  | true => exact ha

theorem Safe.readIf (ha : Safe a) (cond : Bool) : Safe (readIf cond a) := by
  unfold Lib.readIf
  split
  · exact ha.bind fun x => .pure (some x)
  · exact .pure none

theorem Safe.readMany (ha : Safe a) (n : Nat) : Safe (readMany a n) := by
  induction n with
  | zero => exact .pure []
  | succ n ih => exact ha.bind fun x => ih.bind fun xs => .pure (x :: xs)

theorem Safe.sliceToEnd : Safe (ε := ε) Lib.sliceToEnd := by
  intro c hc
  have hslice : Lib.sliceToEnd (ε := ε) c = .ok ((c.buffer.take c.stop).drop c.start, c) :=
    if_pos ⟨hc.start, le_of_eq hc.stop⟩
  rw [hslice]
  refine ⟨nofun, fun x c' h => ?_⟩
  cases h
  exact hc

theorem Safe.liftError (ha : Safe a) (f : ε → δ) : Safe (Lib.liftError f a) := by
  intro c hc
  obtain ⟨hpanic, hnext⟩ := ha c hc
  unfold Lib.liftError
  cases hr : a c with
  | ok r =>
    refine ⟨nofun, fun x c' h => ?_⟩
    cases h
    exact hnext x c' hr
  | error e =>
    cases e with
    | panic => exact absurd hr hpanic
    | error e => exact ⟨nofun, nofun⟩

/-- The code moves the start, by `least` at the least, and changes nothing else. -/
def Moves (least : Nat) (a : Action ε α) : Prop := ∀ c x c', a c = .ok (x, c') → ∃ n, least ≤ n ∧ c' = c.skip n

theorem Moves.pure (x : α) : Moves (ε := ε) 0 (pure x) := by
  intro c y c' h
  cases h
  exact ⟨0, le_refl 0, rfl⟩

theorem Moves.bind (ha : Moves m a) (hf : ∀ x, Moves n (f x)) : Moves (m + n) (a >>= f) := by
  intro c y c' h
  cases hr : a c with
  | error e =>
    rw [bind_error hr] at h
    cases h
  | ok r =>
    obtain ⟨x, c₁⟩ := r
    rw [bind_ok hr] at h
    obtain ⟨i, hi, rfl⟩ := ha c x c₁ hr
    obtain ⟨j, hj, rfl⟩ := hf x _ y c' h
    exact ⟨i + j, Nat.add_le_add hi hj, by simp [Cursor.skip, Nat.add_assoc]⟩

theorem Moves.mono (ha : Moves n a) (h : m ≤ n) : Moves m a := by
  intro c x c' hr
  obtain ⟨i, hi, hc⟩ := ha c x c' hr
  exact ⟨i, le_trans h hi, hc⟩

theorem Moves.check (n : Nat) : Moves 0 (Lib.check short n) := by
  intro c x c' h
  unfold Lib.check at h
  split at h
  · cases h
  · cases h
    exact ⟨0, le_refl 0, rfl⟩

theorem Moves.slice (n : Nat) : Moves (ε := ε) n (Lib.slice n) := by
  intro c x c' h
  unfold Lib.slice at h
  split at h
  · cases h
    exact ⟨n, le_refl n, rfl⟩
  · cases h

/-- The code does not ask the allocator for anything: what it does is the same whatever is granted. -/
def Blind (a : Action ε α) : Prop :=
  ∀ (c : Cursor) (g : Nat), a { c with grant := g } = (a c).map fun r => (r.1, { r.2 with grant := g })

theorem Blind.pure (x : α) : Blind (ε := ε) (pure x) := fun _ _ => rfl

theorem Blind.bind (ha : Blind a) (hf : ∀ x, Blind (f x)) : Blind (a >>= f) := by
  intro c g
  have h := ha c g
  cases hr : a c with
  | error e =>
    rw [hr] at h
    rw [bind_error h, bind_error hr]
    rfl
  | ok r =>
    rw [hr] at h
    rw [bind_ok h, bind_ok hr]
    exact hf r.1 r.2 g

theorem Blind.check (n : Nat) : Blind (Lib.check short n) := by
  intro c g
  unfold Lib.check
  split <;> rfl

theorem Blind.slice (n : Nat) : Blind (ε := ε) (Lib.slice n) := by
  intro c g
  unfold Lib.slice
  split <;> rfl

theorem Blind.parse (h : Blind a) (bs : Bytes) (grant : Nat) : Lib.parse a bs grant = Lib.parse a bs := by
  have hg := h (.ofBuffer bs) grant
  have hr : a (.ofBuffer bs grant) = _ := hg
  unfold Lib.parse
  rw [hr]
  cases a (.ofBuffer bs) <;> rfl

theorem map_ne_panic {r : Except (Fault ε) α} (h : r ≠ .error .panic) (f : α → β) : r.map f ≠ .error .panic := by
  cases r with
  | error e =>
    intro he
    cases he
    exact h rfl
  | ok x => exact nofun

theorem Safe.parse (ha : Safe a) (bs : Bytes) (h : leastGrant ≤ grant) :
    Lib.parse a bs grant ≠ .error .panic := map_ne_panic (ha _ (Cursor.sound_ofBuffer bs h)).1 _

end
end Peeroxide.Lib
