import Peeroxide.Dht.CompactEncoding
import Peeroxide.Lib.Assoc
import Peeroxide.Lib.Machine
import Mathlib.Data.Finset.Basic

/-!
# The blind relay server

A relay joins two sessions that ask for the same token, one as the initiator and one not. The server holds the requests
that wait, the pairings whose streams are bridged, and the limits; a session drives the `pair` and `unpair` messages of
one connection. Times are readings of one clock. Every call of the server is one step.
-/

namespace Peeroxide.Dht
open Lib

/-! ## Messages -/

abbrev PairingToken := Bytes32

structure PairMessage where
  isInitiator : Bool
  token : PairingToken
  id : UInt64
  seq : UInt64
  deriving DecidableEq

structure UnpairMessage where
  token : PairingToken
  deriving DecidableEq

def MSG_TYPE_PAIR : UInt32 := 0

def MSG_TYPE_UNPAIR : UInt32 := 1

def decodePair : Decoder PairMessage := do
  let flags ← decodeUint8
  let token ← decodeFixed32
  let id ← decodeUint
  let seq ← decodeUint
  pure ⟨flags &&& 1 ≠ 0, token, id, seq⟩

def decodeUnpair : Decoder UnpairMessage := do
  let _flags ← decodeUint8
  let token ← decodeFixed32
  pure ⟨token⟩

def decodePairFromSlice (data : Bytes) : Except (Fault EncodingError) PairMessage := parse decodePair data

def decodeUnpairFromSlice (data : Bytes) : Except (Fault EncodingError) UnpairMessage := parse decodeUnpair data

def pairBytes (msg : PairMessage) : Bytes :=
  [if msg.isInitiator then 1 else 0] ++ (msg.token.1 ++ (uintBytes msg.id ++ uintBytes msg.seq))

/-! ## The server -/

structure BlindRelayServerConfig where
  maxSessions : UInt64 := 10000
  maxPairingsPerSession : Nat := 256
  /-- Milliseconds. -/
  pairingTimeout : Nat := 300000
  /-- Milliseconds. -/
  idleSessionTimeout : Nat := 600000
  deriving DecidableEq

structure RelayStats where
  sessionsAccepted : Nat := 0
  sessionsActive : Int := 0
  pairingsRequested : Nat := 0
  pairingsMatched : Nat := 0
  pairingsCancelled : Nat := 0
  pairingsPending : Int := 0
  pairingsActive : Int := 0
  deriving DecidableEq

/-- One side of a matched pairing. Its answer goes to the queue of its session. -/
structure MatchedSide where
  sessionId : Nat
  isInitiator : Bool
  clientStreamId : UInt64
  deriving DecidableEq

structure MatchedPairing where
  token : PairingToken
  first : MatchedSide
  second : MatchedSide
  deriving DecidableEq

inductive PairOutcome where
  | pending
  | alreadyPairing
  | matched (m : MatchedPairing)
  | limitExceeded
  deriving DecidableEq

inductive UnpairOutcome where
  | cancelled
  | destroyed
  | notFound
  deriving DecidableEq

structure PendingLink where
  sessionId : Nat
  isInitiator : Bool
  clientStreamId : UInt64
  createdAt : Nat
  deriving DecidableEq

/-- The two sides that may wait for a token; the initiator's is the second. -/
structure PendingPairing where
  links : Option PendingLink × Option PendingLink
  deriving DecidableEq

namespace PendingPairing

def empty : PendingPairing := ⟨none, none⟩

def slot (p : PendingPairing) : Bool → Option PendingLink
  | false => p.links.1
  | true => p.links.2

def put (p : PendingPairing) (link : PendingLink) : Bool → PendingPairing
  | false => ⟨some link, p.links.2⟩
  | true => ⟨p.links.1, some link⟩

def clear (p : PendingPairing) (sessionId : Nat) : PendingPairing :=
  ⟨p.links.1.filter fun l => l.sessionId ≠ sessionId, p.links.2.filter fun l => l.sessionId ≠ sessionId⟩

def holds (p : PendingPairing) (sessionId : Nat) : Bool :=
  p.links.1.any (·.sessionId = sessionId) || p.links.2.any (·.sessionId = sessionId)

def oldest (p : PendingPairing) : Option Nat :=
  ([p.links.1, p.links.2].filterMap fun l => l.map (·.createdAt)).min?

end PendingPairing

structure ActivePairing where
  sessionIds : Nat × Nat
  /-- The number of the channel to the task that holds the streams. -/
  teardownTx : Nat
  deriving DecidableEq

def ActivePairing.has (a : ActivePairing) (sessionId : Nat) : Bool :=
  a.sessionIds.1 = sessionId || a.sessionIds.2 = sessionId

structure BlindRelayServer where
  config : BlindRelayServerConfig
  pairing : AList fun _ : PairingToken => PendingPairing
  activePairings : AList fun _ : PairingToken => ActivePairing
  sessionCount : UInt64
  nextSessionId : Nat
  sessionActivity : AList fun _ : Nat => Nat
  /-- The sessions whose queue is registered. -/
  sessionOutbound : Finset Nat
  stats : RelayStats
  /-- All teardown signals sent. -/
  signalled : List Nat

namespace BlindRelayServer

def new (config : BlindRelayServerConfig) : BlindRelayServer := ⟨config, ∅, ∅, 0, 1, ∅, ∅, {}, []⟩

def tryAcceptSession (sv : BlindRelayServer) : Option Nat × BlindRelayServer :=
  if sv.config.maxSessions ≤ sv.sessionCount then (none, sv)
  else
    (some sv.nextSessionId, { sv with
      sessionCount := sv.sessionCount + 1
      nextSessionId := sv.nextSessionId + 1
      stats := { sv.stats with
        sessionsAccepted := sv.stats.sessionsAccepted + 1
        sessionsActive := sv.stats.sessionsActive + 1 } })

def touchSession (sv : BlindRelayServer) (now sessionId : Nat) : BlindRelayServer :=
  { sv with sessionActivity := sv.sessionActivity.insert sessionId now }

def registerSession (sv : BlindRelayServer) (now sessionId : Nat) : BlindRelayServer :=
  { sv with sessionOutbound := insert sessionId sv.sessionOutbound }.touchSession now sessionId

/-- An entry after a session is released; it is dropped with the last of its links. -/
def releaseLink (sessionId : Nat) (pair : PendingPairing) : Option PendingPairing :=
  if pair.holds sessionId ∧ pair.clear sessionId = .empty then none else some (pair.clear sessionId)

def releasePending (sv : BlindRelayServer) (sessionId : Nat) : BlindRelayServer :=
  let pairing := Assoc.retainMap (fun _ => releaseLink sessionId) sv.pairing
  let dropped := sv.pairing.entries.length - pairing.entries.length
  { sv with
    pairing := pairing
    stats := { sv.stats with
      pairingsCancelled := sv.stats.pairingsCancelled + dropped
      pairingsPending := sv.stats.pairingsPending - dropped } }

def releaseActive (sv : BlindRelayServer) (sessionId : Nat) : BlindRelayServer :=
  let dropped := sv.activePairings.entries.filter fun e => e.2.has sessionId
  { sv with
    activePairings := Assoc.retainMap (fun _ pair => if pair.has sessionId then none else some pair) sv.activePairings
    stats := { sv.stats with pairingsActive := sv.stats.pairingsActive - dropped.length }
    signalled := sv.signalled ++ dropped.map fun e => e.2.teardownTx }

def releaseSession (sv : BlindRelayServer) (sessionId : Nat) : BlindRelayServer :=
  (releasePending { sv with
    sessionCount := sv.sessionCount - 1
    stats := { sv.stats with sessionsActive := sv.stats.sessionsActive - 1 }
    sessionActivity := sv.sessionActivity.erase sessionId
    sessionOutbound := sv.sessionOutbound.erase sessionId } sessionId).releaseActive sessionId

def tryPair (sv : BlindRelayServer) (now sessionId : Nat) (isInitiator : Bool) (token : PairingToken) (clientStreamId : UInt64)
    (sessionPairingCount : Nat) : PairOutcome × BlindRelayServer :=
  let sv := sv.touchSession now sessionId
  if sv.config.maxPairingsPerSession ≤ sessionPairingCount then (.limitExceeded, sv)
  else
    let sv := { sv with stats := { sv.stats with pairingsRequested := sv.stats.pairingsRequested + 1 } }
    let pair := (sv.pairing.lookup token).getD .empty
    -- whichever session holds the slot
    if (pair.slot isInitiator).isSome then (.alreadyPairing, sv)
    else
      match pair.slot (!isInitiator) with
      | none =>
        (.pending, { sv with
          pairing := sv.pairing.insert token (pair.put ⟨sessionId, isInitiator, clientStreamId, now⟩ isInitiator)
          stats := { sv.stats with pairingsPending := sv.stats.pairingsPending + 1 } })
      | some other =>
        (.matched ⟨token, ⟨other.sessionId, other.isInitiator, other.clientStreamId⟩,
            ⟨sessionId, isInitiator, clientStreamId⟩⟩, { sv with
          pairing := sv.pairing.erase token
          stats := { sv.stats with
            pairingsPending := sv.stats.pairingsPending - 1
            pairingsMatched := sv.stats.pairingsMatched + 1
            pairingsActive := sv.stats.pairingsActive + 1 } })

/-- An entry of the same token is replaced, and its channel dropped. -/
def markActive (sv : BlindRelayServer) (token : PairingToken) (sessionIds : Nat × Nat) (teardownTx : Nat) : BlindRelayServer :=
  { sv with activePairings := sv.activePairings.insert token ⟨sessionIds, teardownTx⟩ }

def unpairActive (sv : BlindRelayServer) (token : PairingToken) : UnpairOutcome × BlindRelayServer :=
  match sv.activePairings.lookup token with
  | none => (.notFound, sv)
  | some pair =>
    (.destroyed, { sv with
      activePairings := sv.activePairings.erase token
      stats := { sv.stats with pairingsActive := sv.stats.pairingsActive - 1 }
      signalled := sv.signalled ++ [pair.teardownTx] })

def unpair (sv : BlindRelayServer) (now sessionId : Nat) (token : PairingToken) : UnpairOutcome × BlindRelayServer :=
  let sv := sv.touchSession now sessionId
  match sv.pairing.lookup token with
  | none => sv.unpairActive token
  | some pair =>
    if !pair.holds sessionId then (.notFound, sv)
    else
      let left := pair.clear sessionId
      (.cancelled, { sv with
        pairing := if left = .empty then sv.pairing.erase token else sv.pairing.insert token left
        stats := { sv.stats with
          pairingsCancelled := sv.stats.pairingsCancelled + 1
          pairingsPending := sv.stats.pairingsPending - 1 } })

def sweepIdleSessions (sv : BlindRelayServer) (now : Nat) : List Nat :=
  (sv.sessionActivity.entries.filter fun e => sv.config.idleSessionTimeout < now - e.2).map (·.1)
    |>.filter (· ∈ sv.sessionOutbound)

def expired (sv : BlindRelayServer) (now : Nat) (pair : PendingPairing) : Bool :=
  pair.oldest.any fun createdAt => sv.config.pairingTimeout < now - createdAt

def sweepExpiredPairings (sv : BlindRelayServer) (now : Nat) : Nat × BlindRelayServer :=
  let pairing := Assoc.retainMap (fun _ pair => if sv.expired now pair then none else some pair) sv.pairing
  let dropped := sv.pairing.entries.length - pairing.entries.length
  (dropped, { sv with
    pairing := pairing
    stats := { sv.stats with
      pairingsCancelled := sv.stats.pairingsCancelled + dropped
      pairingsPending := sv.stats.pairingsPending - dropped } })

end BlindRelayServer

/-! ## Sessions -/

structure BlindRelaySession where
  sessionId : Nat
  pairingCount : Nat
  deriving DecidableEq

namespace BlindRelaySession

/-- Only a request that waits is counted, and only a request that is cancelled is taken off. -/
def onMessage (session : BlindRelaySession) (sv : BlindRelayServer) (now : Nat) (messageType : UInt32) (data : Bytes) :
    BlindRelaySession × BlindRelayServer × Option MatchedPairing :=
  if messageType = MSG_TYPE_PAIR then
    match decodePairFromSlice data with
    | .error _ => (session, sv, none)
    | .ok msg =>
      match sv.tryPair now session.sessionId msg.isInitiator msg.token msg.id session.pairingCount with
      | (.pending, sv) => ({ session with pairingCount := session.pairingCount + 1 }, sv, none)
      | (.matched m, sv) => (session, sv, some m)
      | (.alreadyPairing, sv) => (session, sv, none)
      | (.limitExceeded, sv) => (session, sv, none)
  else if messageType = MSG_TYPE_UNPAIR then
    match decodeUnpairFromSlice data with
    | .error _ => (session, sv, none)
    | .ok msg =>
      match sv.unpair now session.sessionId msg.token with
      | (.cancelled, sv) => ({ session with pairingCount := session.pairingCount - 1 }, sv, none)
      | (.destroyed, sv) => (session, sv, none)
      | (.notFound, sv) => (session, sv, none)
  else (session, sv, none)

end BlindRelaySession
end Peeroxide.Dht
