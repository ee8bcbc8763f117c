import Peeroxide.Lib.Words

/-!
# Congestion control

The controller a stream calls on send, acknowledgement and loss: delivery-rate sampling, the token-bucket pacer and
the open/recovery/loss state. The BBR model behind it computes with floating point; what it answers to one
acknowledgement is an input here (`BbrAnswer`), so everything proved holds whatever BBR answers.
-/

namespace Peeroxide.Udx
open Lib

abbrev Instant := Nat

/-- `Duration::as_millis() as u32`. -/
def asMillis32 (d : Nat) : Nat := wrap32 (d / 1000000)

def clampedMillis (d : Nat) : Nat := if d = 0 then 0 else max (asMillis32 d) 1

/-! ## Rate sampling -/

structure PacketRateInfo where
  firstSentTs : Instant
  deliveredTs : Instant
  delivered : Nat
  isAppLimited : Bool
  deriving DecidableEq, Repr

structure RateSample where
  delivered : Nat := 0
  intervalMs : Nat := 0
  rttMs : Nat := 0
  losses : Nat := 0
  ackedSacked : Nat := 0
  isAppLimited : Bool := false
  priorDelivered : Nat := 0
  priorTimestamp : Option Instant := none
  priorFirstSentTs : Option Instant := none
  deriving DecidableEq, Repr

structure RateState where
  current : RateSample := {}
  rateDelivered : Nat := 0
  rateIntervalMs : Nat := 0
  deriving DecidableEq, Repr

namespace RateState

/-- Keep the acknowledged packet sent with the highest delivered count; answers its send time. -/
def onPacketDelivered (r : RateState) (info : PacketRateInfo) (timeSent : Instant) (rttMs : Nat) :
    RateState × Option Instant :=
  if r.current.priorDelivered ≤ info.delivered then
    ({ r with current := { r.current with
        priorDelivered := info.delivered
        priorTimestamp := some info.deliveredTs
        priorFirstSentTs := some info.firstSentTs
        isAppLimited := info.isAppLimited
        rttMs := rttMs } }, some timeSent)
  else (r, none)

def generate (r : RateState) (streamDelivered : Nat) (streamFirstSentTs streamDeliveredTs : Instant)
    (minRttMs lostCount deliveredCount : Nat) : RateState :=
  let c := { r.current with losses := lostCount, ackedSacked := deliveredCount }
  match c.priorTimestamp, c.priorFirstSentTs with
  | some priorTs, some priorFirstSent =>
    let delivered := streamDelivered - c.priorDelivered
    let sndMs := clampedMillis (streamFirstSentTs - priorFirstSent)
    let ackMs := clampedMillis (streamDeliveredTs - priorTs)
    let intervalMs := max sndMs ackMs
    if intervalMs < minRttMs then { r with current := { c with delivered := 0, intervalMs := 0 } }
    else
      let c := { c with delivered := delivered, intervalMs := intervalMs }
      if !c.isAppLimited || r.rateDelivered * intervalMs ≤ delivered * r.rateIntervalMs then
        { current := c, rateDelivered := delivered, rateIntervalMs := intervalMs }
      else { r with current := c }
  | _, _ => { r with current := { c with delivered := 0, intervalMs := 0 } }

end RateState

/-! ## Pacing -/

structure TokenBucket where
  available : Nat
  lastRefill : Option Instant
  rateBytesPerMs : Nat
  maxBurst : Nat
  deriving DecidableEq, Repr

def u32Max : Nat := 2 ^ 32 - 1

namespace TokenBucket

def new (mss : Nat) : TokenBucket := ⟨2 * mss, none, 0, 2 * mss⟩

def setRate (b : TokenBucket) (bytesPerMs : Nat) : TokenBucket := { b with rateBytesPerMs := bytesPerMs }

def refill (b : TokenBucket) (now : Instant) : TokenBucket :=
  let available := match b.lastRefill with
    | some last =>
      if 0 < b.rateBytesPerMs then
        let tokens := min (asMillis32 (now - last) * b.rateBytesPerMs) u32Max
        min (min (b.available + tokens) u32Max) b.maxBurst
      else b.available
    | none => b.available
  { b with available := available, lastRefill := some now }

def tryConsume (b : TokenBucket) (bytes : Nat) (now : Instant) : TokenBucket × Bool :=
  let b := b.refill now
  if bytes ≤ b.available then ({ b with available := b.available - bytes }, true) else (b, false)

def delayFor (b : TokenBucket) (bytes : Nat) (now : Instant) : Nat :=
  if b.rateBytesPerMs = 0 ∨ bytes ≤ b.available then 0
  else
    let deficit := bytes - b.available
    let effective := match b.lastRefill with
      | some last => deficit - min (asMillis32 (now - last) * b.rateBytesPerMs) u32Max
      | none => deficit
    if effective = 0 then 0 else (effective + b.rateBytesPerMs - 1) / b.rateBytesPerMs

def reset (b : TokenBucket) (now : Instant) : TokenBucket :=
  { b with available := b.maxBurst, lastRefill := some now }

/-- The tokens are within the burst, and the burst is a 32-bit number. -/
structure Valid (b : TokenBucket) : Prop where
  capped : b.available ≤ b.maxBurst
  bounded : b.maxBurst ≤ u32Max

def sinceRefill (b : TokenBucket) (now : Instant) : Nat :=
  (b.lastRefill.map fun last => asMillis32 (now - last)).getD 0

/-- The whole milliseconds of every gap between successive times, added up. -/
def elapsedMs : Instant → List Instant → Nat
  | _, [] => 0
  | t, u :: ts => asMillis32 (u - t) + elapsedMs u ts

theorem valid_new {mss : Nat} (h : 2 * mss ≤ u32Max) : (new mss).Valid := ⟨le_rfl, h⟩

section
variable {b : TokenBucket} (hb : b.Valid)
include hb

theorem Valid.setRate (bytesPerMs : Nat) : (b.setRate bytesPerMs).Valid := { hb with }

theorem Valid.refill (now : Instant) : (b.refill now).Valid := by
  refine ⟨?_, hb.bounded⟩
  have := hb.capped
  simp only [TokenBucket.refill]
  split
  · split <;> omega
  · exact this

theorem Valid.tryConsume (bytes : Nat) (now : Instant) : (b.tryConsume bytes now).1.Valid := by
  have h := hb.refill now
  unfold TokenBucket.tryConsume
  dsimp only
  split
  · exact ⟨(Nat.sub_le _ _).trans h.capped, h.bounded⟩
  · exact h

theorem Valid.reset (now : Instant) : (b.reset now).Valid := ⟨le_rfl, hb.bounded⟩

variable (hr : 0 < b.rateBytesPerMs)
include hr

/-- Neither saturation matters: the burst cuts lower. -/
theorem Valid.available_refill (now : Instant) :
    (b.refill now).available = min (b.available + b.sinceRefill now * b.rateBytesPerMs) b.maxBurst := by
  have := hb.capped
  have := hb.bounded
  simp only [TokenBucket.refill, sinceRefill]
  cases b.lastRefill with
  | none => simp only [Option.map_none, Option.getD_none]; omega
  | some last => simp only [hr, ↓reduceIte, Option.map_some, Option.getD_some]; omega

theorem Valid.available_foldl {t : Instant} (ht : b.lastRefill = some t) (ts : List Instant) :
    (ts.foldl TokenBucket.refill b).available = min (b.available + elapsedMs t ts * b.rateBytesPerMs) b.maxBurst := by
  induction ts generalizing b t with
  | nil =>
    have := hb.capped
    simp only [List.foldl_nil, elapsedMs]
    omega
  | cons u ts ih =>
    rw [List.foldl_cons, ih (hb.refill u) hr rfl, hb.available_refill hr u, elapsedMs, add_mul]
    simp only [TokenBucket.refill, sinceRefill, ht, Option.map_some, Option.getD_some]
    omega

/-- **Refilling at every time of a sequence leaves what refilling at its first and last leaves exactly when the gaps
lose no millisecond against the whole, or the bucket is full either way.** A refill moves `last_refill` to now and
counts whole milliseconds only, so what is left of a millisecond at each refill is never counted. -/
theorem refill_subdivided_iff (t : Instant) (ts : List Instant) :
    (ts.foldl TokenBucket.refill (b.refill t)).available = ((b.refill t).refill (ts.getLastD t)).available ↔
      elapsedMs t ts = asMillis32 (ts.getLastD t - t) ∨
        b.maxBurst ≤ b.available +
          (b.sinceRefill t + min (elapsedMs t ts) (asMillis32 (ts.getLastD t - t))) * b.rateBytesPerMs := by
  have h := hb.refill t
  rw [h.available_foldl hr rfl, h.available_refill hr, hb.available_refill hr, add_mul]
  simp only [TokenBucket.refill, sinceRefill, Option.map_some, Option.getD_some]
  generalize asMillis32 (ts.getLastD t - t) = m
  generalize elapsedMs t ts = e
  rcases lt_trichotomy e m with hlt | rfl | hlt
  · have := Nat.mul_lt_mul_of_pos_right hlt hr
    rw [min_eq_left hlt.le]
    omega
  · simp
  · have := Nat.mul_lt_mul_of_pos_right hlt hr
    rw [min_eq_right hlt.le]
    omega

end

/-- A bucket that is full at the end loses nothing. -/
theorem refill_subdivided_full :
    ([1500000, 10000000].foldl TokenBucket.refill (TokenBucket.refill ⟨0, some 0, 1000, 2360⟩ 0)).available = 2360 :=
  ((refill_subdivided_iff ⟨by decide, by decide⟩ (by decide) 0 [1500000, 10000000]).mpr
    (by decide)).trans (by decide)

/-- Two refills half a millisecond apart add nothing; one refill after the millisecond adds 1000 bytes. -/
theorem refill_loses_half_milliseconds :
    ([500000, 1000000].foldl TokenBucket.refill (TokenBucket.refill ⟨0, some 0, 1000, 2360⟩ 0)).available = 0 ∧
      ((TokenBucket.refill ⟨0, some 0, 1000, 2360⟩ 0).refill 1000000).available = 1000 := by
  decide

end TokenBucket

/-! ## The controller -/

inductive CaState where
  | opened
  | recovery
  | loss
  deriving DecidableEq, Repr

/-- What the BBR model answers to one acknowledgement. -/
structure BbrAnswer where
  minRttMs : Nat := 1
  cwnd : Nat := 10
  pacing : Nat := 0
  ssthresh : Option Nat := none
  probeRtt : Bool := false
  deriving DecidableEq, Repr

structure CongestionController where
  rate : RateState
  pacing : TokenBucket
  delivered : Nat
  lost : Nat
  appLimited : Nat
  firstSentTs : Option Instant
  deliveredTs : Option Instant
  caState : CaState
  highSeq : Nat
  cwnd : Nat
  ssthresh : Nat
  pacingBytesPerMs : Nat
  mss : Nat
  deriving DecidableEq, Repr

namespace CongestionController

def INITIAL_CWND : Nat := 10
def INITIAL_SSTHRESH : Nat := 0xffff

def new (mss : Nat) : CongestionController where
  rate := {}
  pacing := .new mss
  delivered := 0
  lost := 0
  appLimited := u32Max
  firstSentTs := none
  deliveredTs := none
  caState := .opened
  highSeq := 0
  cwnd := INITIAL_CWND
  ssthresh := INITIAL_SSTHRESH
  pacingBytesPerMs := 0
  mss := mss

def onPacketSent (c : CongestionController) (inflight : Nat) (now : Instant) :
    CongestionController × PacketRateInfo :=
  let c := if inflight = 0 ∨ c.firstSentTs = none then
      { c with firstSentTs := some now, deliveredTs := some now } else c
  (c, { firstSentTs := c.firstSentTs.getD now, deliveredTs := c.deliveredTs.getD now,
        delivered := c.delivered, isAppLimited := 0 < c.appLimited })

/-- The sequence number that decides leaving recovery: the greatest one acknowledged, `0` when there is none. -/
def maxAcked (acked : List (Nat × PacketRateInfo)) : Nat := (acked.map Prod.fst).foldl max 0

def sampleOne (now : Instant) (c : CongestionController) (a : Nat × PacketRateInfo) : CongestionController :=
  let rttMs := clampedMillis (now - a.2.firstSentTs)
  match c.rate.onPacketDelivered a.2 a.2.firstSentTs rttMs with
  | (rate, some sent) => { c with rate := rate, firstSentTs := some sent }
  | (rate, none) => { c with rate := rate }

/-- Counting the packets of one acknowledgement and leaving recovery when the boundary is reached. -/
def countAcked (c : CongestionController) (acked : List (Nat × PacketRateInfo)) (now : Instant) :
    CongestionController :=
  { c with
    delivered := wrap32 (c.delivered + wrap32 acked.length)
    deliveredTs := some now
    caState := if c.caState ≠ .opened ∧ c.highSeq ≤ maxAcked acked then .opened else c.caState }

def onAck (c : CongestionController) (acked : List (Nat × PacketRateInfo)) (lostCount inflight : Nat)
    (now : Instant) (bbr : BbrAnswer) : CongestionController :=
  let c := c.countAcked acked now
  let c := if 0 < c.appLimited ∧ c.appLimited < c.delivered then { c with appLimited := 0 } else c
  let c := acked.foldl (sampleOne now) c
  let rate := c.rate.generate c.delivered (c.firstSentTs.getD now) (c.deliveredTs.getD now) bbr.minRttMs lostCount
    (wrap32 acked.length)
  let c := { c with rate := rate }
  let c := { c with
    ssthresh := bbr.ssthresh.getD c.ssthresh
    cwnd := bbr.cwnd
    pacingBytesPerMs := bbr.pacing
    pacing := c.pacing.setRate bbr.pacing }
  if bbr.probeRtt then { c with appLimited := max (wrap32 (c.delivered + inflight)) 1 } else c

def onPacketLost (c : CongestionController) : CongestionController :=
  let c := { c with lost := wrap32 (c.lost + 1) }
  if c.caState = .opened then { c with caState := .recovery, ssthresh := c.cwnd } else c

def onRto (c : CongestionController) : CongestionController := { c with caState := .loss }

def onTransmitStart (c : CongestionController) (now : Instant) : CongestionController :=
  { c with pacing := c.pacing.reset now }

def canSend (c : CongestionController) (inflight sendRwnd : Nat) : Bool :=
  inflight < min c.cwnd (sendRwnd / c.mss)

def pacingDelay (c : CongestionController) (bytes : Nat) (now : Instant) : CongestionController × Nat :=
  let pacing := c.pacing.refill now
  ({ c with pacing := pacing }, pacing.delayFor bytes now)

def isAppLimited (c : CongestionController) (queuedBytes inflight : Nat) (retransmitPending : Bool) : Bool :=
  wrap32 queuedBytes < c.mss && inflight < c.cwnd && !retransmitPending

def onMtuChange (c : CongestionController) (oldMtu newMtu : Nat) : CongestionController :=
  let c := if 0 < oldMtu then { c with cwnd := wrap32 (c.cwnd * newMtu) / oldMtu } else c
  { c with mss := newMtu - 20 }

def checkAppLimited (c : CongestionController) (queuedBytes inflight : Nat) : CongestionController :=
  if c.isAppLimited queuedBytes inflight false then
    { c with appLimited := max (wrap32 (c.delivered + inflight)) 1 }
  else c

/-! ## What sending leaves alone -/

/-- `c` counts and stands where `c₀` does: the same delivered count, state and recovery boundary. -/
structure Keeps (c₀ c : CongestionController) : Prop where
  delivered : c.delivered = c₀.delivered
  caState : c.caState = c₀.caState
  highSeq : c.highSeq = c₀.highSeq

variable (c : CongestionController)

theorem Keeps.refl : Keeps c c := ⟨rfl, rfl, rfl⟩

theorem Keeps.trans {a b c : CongestionController} (hab : Keeps a b) (hbc : Keeps b c) : Keeps a c :=
  ⟨hbc.delivered.trans hab.delivered, hbc.caState.trans hab.caState, hbc.highSeq.trans hab.highSeq⟩

theorem keeps_checkAppLimited (queuedBytes inflight : Nat) : Keeps c (c.checkAppLimited queuedBytes inflight) := by
  unfold checkAppLimited
  split <;> exact ⟨rfl, rfl, rfl⟩

theorem keeps_onPacketSent (inflight : Nat) (now : Instant) : Keeps c (c.onPacketSent inflight now).1 := by
  unfold onPacketSent
  split <;> exact ⟨rfl, rfl, rfl⟩

theorem keeps_onMtuChange (oldMtu newMtu : Nat) : Keeps c (c.onMtuChange oldMtu newMtu) := by
  unfold onMtuChange
  split <;> exact ⟨rfl, rfl, rfl⟩

theorem keeps_foldl_sampleOne (now : Instant) (acked : List (Nat × PacketRateInfo)) (c : CongestionController) :
    Keeps c (acked.foldl (sampleOne now) c) := by
  refine acked.foldlRecOn _ (.refl c) fun b h a _ => h.trans ?_
  unfold sampleOne
  dsimp only
  split <;> exact ⟨rfl, rfl, rfl⟩

theorem keeps_onAck (acked : List (Nat × PacketRateInfo)) (lostCount inflight : Nat)
    (now : Instant) (bbr : BbrAnswer) : Keeps (c.countAcked acked now) (c.onAck acked lostCount inflight now bbr) := by
  have hlim : Keeps (c.countAcked acked now)
      (if 0 < (c.countAcked acked now).appLimited ∧ (c.countAcked acked now).appLimited < (c.countAcked acked now).delivered
        then { c.countAcked acked now with appLimited := 0 } else c.countAcked acked now) := by
    split <;> exact ⟨rfl, rfl, rfl⟩
  have hs := hlim.trans (keeps_foldl_sampleOne now acked _)
  unfold onAck
  split <;> exact { hs with }

end CongestionController
end Peeroxide.Udx
