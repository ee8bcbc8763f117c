import Peeroxide.Dht.CompactEncoding
import Peeroxide.Lib.Machine

/-!
# Write tokens

A node gives a peer a token for its host, made with the newer of two secrets, and takes a token made with either. Every
ten drains the newer secret becomes the older one, and the older one, hashed with itself, the newer. The keyed hash is
a parameter; the two random secrets a node starts with are inputs.

Main result: `write_tokens`.
-/

namespace Peeroxide.Dht
open Lib List

/-- The secrets, the newer one last, and how many drains are left until they change. -/
structure Tokens where
  secrets : Option (Bytes32 × Bytes32)
  rotateCountdown : Nat
  deriving DecidableEq

namespace Tokens
variable (mac : Bytes32 → Bytes → Bytes32)
variable {all more : List Bytes32} {drains start : Nat} {s0 s1 : Bytes32}

def new : Tokens := ⟨none, 10⟩

def hostBytes (host : String) : Bytes := host.toUTF8.data.toList

def initSecretsIfNeeded (t : Tokens) (fresh : Bytes32 × Bytes32) : Tokens :=
  match t.secrets with
  | some _ => t
  | none => { t with secrets := some fresh }

/-- The token of a host, by the secret at `index`. -/
def token (t : Tokens) (fresh : Bytes32 × Bytes32) (host : String) (index : Nat) : Bytes32 × Tokens :=
  let t := t.initSecretsIfNeeded fresh
  match t.secrets with
  | some secrets => (mac (if index % 2 = 0 then secrets.1 else secrets.2) (hostBytes host), t)
  | none => (.fill 0, t)

def replyToken (t : Tokens) (fresh : Bytes32 × Bytes32) (host : String) : Bytes32 × Tokens := t.token mac fresh host 1

def validateToken (t : Tokens) (fresh : Bytes32 × Bytes32) (host : String) (token : Bytes32) : Bool × Tokens :=
  let t0 := t.token mac fresh host 0
  let t1 := t0.2.token mac fresh host 1
  (t0.1 == token || t1.1 == token, t1.2)

def drain (t : Tokens) : Tokens :=
  match t.secrets with
  | none => t
  | some secrets =>
    if t.rotateCountdown - 1 = 0 then ⟨some (secrets.2, mac secrets.1 secrets.1.1), 10⟩
    else { t with rotateCountdown := t.rotateCountdown - 1 }

inductive Event where
  | drain
  | replyToken (fresh : Bytes32 × Bytes32) (host : String)
  | validateToken (fresh : Bytes32 × Bytes32) (host : String) (token : Bytes32)
  deriving DecidableEq

def step (t : Tokens) : Event → Tokens
  | .drain => t.drain mac
  | .replyToken fresh host => (t.replyToken mac fresh host).2
  | .validateToken fresh host token => (t.validateToken mac fresh host token).2

def made (t : Tokens) : Event → List Bytes32
  | .drain =>
    match t.secrets with
    | some secrets => if t.rotateCountdown - 1 = 0 then [mac secrets.1 secrets.1.1] else []
    | none => []
  | .replyToken .. => []
  | .validateToken .. => []

def madeBy : Tokens → List Event → List Bytes32
  | _, [] => []
  | t, e :: events => made mac t e ++ madeBy (t.step mac e) events

/-- The secrets of a run, the two it starts with first. -/
def secretsOf (t : Tokens) (events : List Event) : List Bytes32 :=
  (t.secrets.elim [] fun secrets => [secrets.1, secrets.2]) ++ madeBy mac t events

/-- The hash of one of the secrets and one of the hosts is the hash of no others. -/
def CollisionFree (secrets : List Bytes32) (hosts : List String) : Prop :=
  ∀ s ∈ secrets, ∀ s' ∈ secrets, ∀ host ∈ hosts, ∀ host' ∈ hosts,
    mac s (hostBytes host) = mac s' (hostBytes host') → s = s' ∧ host = host'

variable {mac} {t : Tokens} {secrets : Bytes32 × Bytes32}

/-! ## One step -/

section
variable (h : t.secrets = some secrets) (fresh : Bytes32 × Bytes32) (host : String)
include h host

theorem token_of_some (index : Nat) :
    t.token mac fresh host index = (mac (if index % 2 = 0 then secrets.1 else secrets.2) (hostBytes host), t) := by
  rw [token, initSecretsIfNeeded, h]
  rw [h]

theorem validateToken_of_some (token : Bytes32) : t.validateToken mac fresh host token =
      (mac secrets.1 (hostBytes host) == token || mac secrets.2 (hostBytes host) == token, t) := by
  rw [validateToken, token_of_some h]
  rw [token_of_some h]
  rfl

end

/-- The first token makes the secrets; it does not touch the countdown. -/
theorem replyToken_spec (mac : Bytes32 → Bytes → Bytes32) (t : Tokens) (fresh : Bytes32 × Bytes32) (host : String) :
    ∃ secrets, (t.replyToken mac fresh host).2.secrets = some secrets ∧
      (t.replyToken mac fresh host).1 = mac secrets.2 (hostBytes host) ∧
      (t.replyToken mac fresh host).2.rotateCountdown = t.rotateCountdown := by
  cases h : t.secrets with
  | none =>
    refine ⟨fresh, ?_⟩
    rw [replyToken, token, initSecretsIfNeeded, h]
    exact ⟨rfl, rfl, rfl⟩
  | some secrets =>
    refine ⟨secrets, ?_⟩
    rw [replyToken, token_of_some h]
    exact ⟨h, rfl, rfl⟩

def Counting (t : Tokens) : Prop := 1 ≤ t.rotateCountdown ∧ t.rotateCountdown ≤ 10

theorem token_rotateCountdown (t : Tokens) (fresh : Bytes32 × Bytes32) (host : String) (index : Nat) :
    (t.token mac fresh host index).2.rotateCountdown = t.rotateCountdown := by
  cases h : t.secrets with
  | none =>
    rw [token, initSecretsIfNeeded, h]
  | some secrets => rw [token_of_some h]

theorem Counting.step (h : t.Counting) (e : Event) : (t.step mac e).Counting := by
  unfold Counting at h ⊢
  cases e with
  | drain =>
    rw [Tokens.step, drain]
    split
    · exact h
    · split
      · exact ⟨Nat.le_add_left 1 9, Nat.le_refl 10⟩
      · dsimp only
        omega
  | replyToken fresh host =>
    rw [Tokens.step, replyToken, token_rotateCountdown]
    exact h
  | validateToken fresh host token =>
    rw [Tokens.step, validateToken]
    rw [token_rotateCountdown, token_rotateCountdown]
    exact h

/-! ## Runs -/

/-- After `drains` drains from a countdown of `start`, the secrets are the last two of those made so far, and every ten
drains made one. -/
structure Window (start drains : Nat) (all : List Bytes32) (t : Tokens) : Prop where
  counting : t.Counting
  last : ∃ older secrets, t.secrets = some secrets ∧ all = older ++ [secrets.1, secrets.2]
  rate : t.rotateCountdown + drains + 20 = start + 10 * all.length

section
variable (mac : Bytes32 → Bytes → Bytes32) (h : Window start drains all t)
include h

theorem Window.step (e : Event) : Window start (drains + [e].count .drain) (all ++ made mac t e) (t.step mac e) := by
  obtain ⟨older, secrets, hsecrets, hall⟩ := h.last
  have hcounting := h.counting
  have hrate := h.rate
  cases e with
  | drain =>
    refine ⟨hcounting.step _, ?_, ?_⟩
    · rw [Tokens.step, drain, made, hsecrets]
      dsimp only
      split
      · exact ⟨older ++ [secrets.1], _, rfl, by rw [hall]; simp⟩
      · exact ⟨older, secrets, rfl, by rw [hall, append_nil]⟩
    · unfold Counting at hcounting
      rw [Tokens.step, drain, made, hsecrets, length_append]
      dsimp only
      split
      · simp only [count_singleton_self, length_singleton]
        omega
      · simp only [count_singleton_self, length_nil]
        omega
  | replyToken fresh host =>
    rw [Tokens.step, replyToken, token_of_some hsecrets, made, append_nil]
    exact h
  | validateToken fresh host token =>
    rw [Tokens.step, validateToken_of_some hsecrets, made, append_nil]
    exact h

theorem Window.run (events : List Event) :
    Window start (drains + events.count .drain) (all ++ madeBy mac t events) (Lib.run (Tokens.step mac) t events) := by
  induction events generalizing t drains all with
  | nil =>
    rw [madeBy, append_nil]
    exact h
  | cons e events ih =>
    have hnext := ih (h.step mac e)
    rw [append_assoc, Nat.add_assoc, ← count_append] at hnext
    exact hnext

end

/-- How many secrets were made while the issued one was the newer of the first two. -/
theorem Window.made_bounds (hstart : 1 ≤ start ∧ start ≤ 10) (h : Window start drains ([s0, s1] ++ more) t) :
    (drains ≤ 10 → more.length ≤ 1) ∧ (20 ≤ drains → 2 ≤ more.length) := by
  have hcounting := h.counting
  have hrate := h.rate
  unfold Counting at hcounting
  simp only [length_append, length_cons, length_nil] at hrate
  omega

theorem Window.issued_mem (h : Window start drains ([s0, s1] ++ more) t) (hfew : more.length ≤ 1) :
    ∃ secrets, t.secrets = some secrets ∧ (s1 = secrets.1 ∨ s1 = secrets.2) := by
  obtain ⟨older, secrets, hsecrets, hall⟩ := h.last
  have hlength : more.length = older.length := by simpa using congrArg List.length hall
  refine ⟨secrets, hsecrets, ?_⟩
  match more with
  | [] =>
    rw [eq_nil_of_length_eq_zero hlength.symm] at hall
    exact .inr (by simp_all)
  | [m] =>
    obtain ⟨o, rfl⟩ := length_eq_one_iff.mp hlength.symm
    exact .inl (by simp_all)
  | m :: m' :: more => exact absurd hfew (by simp)

theorem Window.issued_gone
    (h : Window start drains ([s0, s1] ++ more) t) (hmany : 2 ≤ more.length) (hdistinct : ([s0, s1] ++ more).Nodup) :
    ∃ secrets, t.secrets = some secrets ∧ secrets.1 ∈ [s0, s1] ++ more ∧ secrets.2 ∈ [s0, s1] ++ more ∧
      secrets.1 ≠ s1 ∧ secrets.2 ≠ s1 := by
  obtain ⟨older, secrets, hsecrets, hall⟩ := h.last
  have hlength : more.length = older.length := by simpa using congrArg List.length hall
  have hs1 : s1 ∈ older := by
    match older with
    | [] => exact absurd (hlength ▸ hmany) (by simp)
    | [o] => exact absurd (hlength ▸ hmany) (by simp)
    | o :: o' :: older =>
      simp only [cons_append, List.cons.injEq] at hall
      rw [← hall.2.1]
      simp
  rw [hall] at hdistinct ⊢
  obtain ⟨-, -, hdisjoint⟩ := nodup_append.mp hdistinct
  exact ⟨secrets, hsecrets, by simp, by simp, fun h => hdisjoint s1 hs1 _ (by simp) h.symm,
    fun h => hdisjoint s1 hs1 _ (by simp) h.symm⟩

/-- **A token that a reply carries is good for its host after at most ten drains, not good after twenty or more if the
secrets are distinct and the hash is free of collisions, and never good for another host.** -/
theorem write_tokens (mac : Bytes32 → Bytes → Bytes32) (history events : List Event) (fresh : Bytes32 × Bytes32)
    (host : String) : let issued := (run (step mac) new history).replyToken mac fresh host
    let t := run (step mac) issued.2 events
    let secrets := secretsOf mac issued.2 events
    let drains := events.count .drain
    (drains ≤ 10 → ∀ fresh', (t.validateToken mac fresh' host issued.1).1 = true) ∧
    (20 ≤ drains → secrets.Nodup → CollisionFree mac secrets [host] →
      ∀ fresh', (t.validateToken mac fresh' host issued.1).1 = false) ∧
    (∀ other, other ≠ host → CollisionFree mac secrets [host, other] →
      ∀ fresh', (t.validateToken mac fresh' other issued.1).1 = false) := by
  intro issued t secrets drains
  have hreached : (run (step mac) new history).Counting :=
    run_invariant (fun _ e h => h.step e) ⟨by decide, by decide⟩ history
  obtain ⟨⟨s0, s1⟩, hsecrets, htoken, hcountdown⟩ := replyToken_spec mac (run (step mac) new history) fresh host
  have hall : secrets = [s0, s1] ++ madeBy mac issued.2 events := by
    show secretsOf mac issued.2 events = _
    rw [secretsOf, hsecrets]
    rfl
  have hcounting : issued.2.Counting := by
    rw [Counting, hcountdown]
    exact hreached
  have hwindow : Window issued.2.rotateCountdown drains secrets t := by
    have hstart : Window issued.2.rotateCountdown 0 [s0, s1] issued.2 :=
      ⟨hcounting, ⟨[], (s0, s1), hsecrets, rfl⟩, by simp⟩
    have hrun := hstart.run mac events
    rw [Nat.zero_add, ← hall] at hrun
    exact hrun
  rw [hall] at hwindow ⊢
  obtain ⟨hfew, hmany⟩ := hwindow.made_bounds hcounting
  refine ⟨fun hdrains fresh' => ?_, fun hdrains hdistinct hfree fresh' => ?_, fun other hother hfree fresh' => ?_⟩
  · obtain ⟨current, hcurrent, hmem⟩ := hwindow.issued_mem (hfew hdrains)
    rw [validateToken_of_some hcurrent, htoken]
    obtain rfl | rfl := hmem <;> simp
  · obtain ⟨current, hcurrent, hfirst, hsecond, hne, hne'⟩ := hwindow.issued_gone (hmany hdrains) hdistinct
    rw [validateToken_of_some hcurrent, htoken, Bool.or_eq_false_iff, beq_eq_false_iff_ne, beq_eq_false_iff_ne]
    exact ⟨fun h => hne (hfree _ hfirst s1 (by simp) host (by simp) host (by simp) h).1,
      fun h => hne' (hfree _ hsecond s1 (by simp) host (by simp) host (by simp) h).1⟩
  · obtain ⟨older, current, hcurrent, hlast⟩ := hwindow.last
    have hfirst : current.1 ∈ [s0, s1] ++ madeBy mac issued.2 events := by rw [hlast]; simp
    have hsecond : current.2 ∈ [s0, s1] ++ madeBy mac issued.2 events := by rw [hlast]; simp
    rw [validateToken_of_some hcurrent, htoken, Bool.or_eq_false_iff, beq_eq_false_iff_ne, beq_eq_false_iff_ne]
    exact ⟨fun h => hother (hfree _ hfirst s1 (by simp) other (by simp) host (by simp) h).2,
      fun h => hother (hfree _ hsecond s1 (by simp) other (by simp) host (by simp) h).2⟩

/-- A hash that shows how long its input is, and the last byte of its key. -/
def countMac (key : Bytes32) (input : Bytes) : Bytes32 :=
  ⟨List.replicate 31 (UInt8.ofNat input.length) ++ [key.1.getLastD 0 + 2], by simp⟩

/-- A token after ten drains, after twenty, and for another host. -/
theorem write_tokens_counted :
    let fresh : Bytes32 × Bytes32 := (⟨List.replicate 31 0 ++ [0], rfl⟩, ⟨List.replicate 31 0 ++ [1], rfl⟩)
    let issued := new.replyToken countMac fresh "10.0.0.1"
    let after := fun n => run (step countMac) issued.2 (List.replicate n .drain)
    ((after 10).validateToken countMac fresh "10.0.0.1" issued.1).1 = true ∧
      ((after 20).validateToken countMac fresh "10.0.0.1" issued.1).1 = false ∧
      ((after 0).validateToken countMac fresh "10.0.0.20" issued.1).1 = false := by
  intro fresh issued after
  have htokens := fun n => write_tokens countMac [] (List.replicate n .drain) fresh "10.0.0.1"
  refine ⟨(htokens 10).1 (by decide) fresh, (htokens 20).2.1 (by decide) (by decide +kernel) ?_ fresh,
    (htokens 0).2.2 "10.0.0.20" (by decide) ?_ fresh⟩
  · unfold CollisionFree
    decide +kernel
  · unfold CollisionFree
    decide +kernel

end Tokens
end Peeroxide.Dht
