import Peeroxide.Dht.QuerySpec

/-!
# The replies a query keeps

Over any calls before the second phase, the list of the nearest replies holds the `K` nearest of the ids that have
answered without an error, in order of distance.

Main result: `closestReplies_nearest`.
-/

namespace Peeroxide.Dht
open Lib List
namespace Query
variable {S : Finset NodeId} {c : Int} {id : NodeId} {q q' : Query}

/-! ## Parts that leave the replies alone -/

structure SameReplies (q q' : Query) : Prop where
  target : q'.target = q.target
  k : q'.k = q.k
  replies : q'.closestReplies = q.closestReplies

theorem SameReplies.refl (q : Query) : SameReplies q q := ⟨rfl, rfl, rfl⟩

theorem SameReplies.trans {q'' : Query} (h : SameReplies q q') (h' : SameReplies q' q'') : SameReplies q q'' :=
  ⟨h'.target.trans h.target, h'.k.trans h.k, h'.replies.trans h.replies⟩

theorem Filled.replies (h : Filled q q') : SameReplies q q' := by
  rw [h]
  exact ⟨rfl, rfl, rfl⟩

theorem finishInternal_replies (q : Query) : SameReplies q q.finishInternal := by
  unfold finishInternal
  split
  · exact .refl q
  · dsimp only
    split
    · exact ⟨rfl, rfl, rfl⟩
    · exact ⟨rfl, rfl, rfl⟩

theorem flush_replies (hc : q.committing = false) : SameReplies q q.flush.2 := by
  rcases flush_cases hc with ⟨n, -, h⟩ | ⟨-, h⟩
  · have hfin := finishInternal_replies { q with committing := true, commitInflight := n }
    rw [h]
    exact { hfin with }
  · rw [h]
    exact ⟨rfl, rfl, rfl⟩

theorem readMore_replies (t : RoutingTable) (q : Query) : SameReplies q (readMore t q).2 :=
  readMore_rule (R := fun q _ q' => SameReplies q q') SameReplies.refl (fun _ _ _ _ _ h h' => h.trans h')
    (fun q rs q' _ _ h => by
      rw [show q' = _ from h.query]
      exact ⟨rfl, rfl, rfl⟩)
    (fun _ _ => ⟨rfl, rfl, rfl⟩) (fun q => (addFromTable_filled q t).replies) (fun _ hc _ => flush_replies hc) q

/-! ## One reply -/

/-- The replies kept are those of the nearest ids of a set, in order of distance. -/
def Holds (q : Query) (S : Finset NodeId) : Prop :=
  ∃ ids : List NodeId, q.closestReplies.map QueryReply.fromId = ids.map some ∧ Nearest (distance q.target) q.k S ids

theorem Holds.same (h : Holds q S) (hs : SameReplies q q') : Holds q' S := by
  rw [Holds, hs.target, hs.k, hs.replies]
  exact h

theorem sign_lt : sign c = .lt ↔ c < 0 := by
  unfold sign
  split
  · simp [*]
  · split <;> simp [*]

theorem sign_eq : sign c = .eq ↔ c = 0 := by
  unfold sign
  split
  · simp only [reduceCtorEq, false_iff]
    omega
  · split <;> simp [*]

theorem distance_lt_of_sign_gt {a b : NodeId} (h : sign (q.compare b a) = .gt) :
    distance q.target a < distance q.target b := by
  have hlt : ¬distance q.target b < distance q.target a := by
    rw [← compareFrom_lt, ← sign_lt]
    rw [compare] at h
    rw [h]
    decide
  have hne : distance q.target a ≠ distance q.target b := by
    intro he
    have hz : q.compare b a = 0 := (compareFrom_eq q.target b a).mpr (distance_inj he).symm
    rw [sign_eq.mpr hz] at h
    cases h
  exact lt_of_le_of_ne (not_lt.mp hlt) hne

theorem isCloser_false (h : q.isCloser id = false) : q.k ≤ q.closestReplies.length ∧
    ∃ last b, q.closestReplies.getLast? = some last ∧ last.fromId = some b ∧ ¬q.compare id b < 0 := by
  unfold isCloser at h
  split at h
  · cases h
  next hfull =>
    refine ⟨not_lt.mp hfull, ?_⟩
    split at h
    next last hlast =>
      split at h
      next b hb =>
        exact ⟨last, b, hlast, hb, of_decide_eq_false h⟩
      · cases h
    · cases h

theorem Holds.pushClosest (h : Holds q S) {reply : QueryReply} (hid : reply.fromId = some id) :
    Holds (q.pushClosest reply) (insert id S) := by
  obtain ⟨ids, hids, hnear⟩ := h
  unfold Query.pushClosest
  rw [hid]
  refine hnear.push hids hid (fun p b hp hc => ?_) (fun p b hp hc => ?_) fun p b hp hc => ?_
  · rw [hp] at hc
    exact (compareFrom_lt q.target b id).mp (sign_lt.mp hc)
  · rw [hp] at hc
    exact (compareFrom_eq q.target b id).mp (sign_eq.mp hc)
  · rw [hp] at hc
    exact distance_lt_of_sign_gt hc

theorem Holds.skip (h : Holds q S) (hfar : q.isCloser id = false) : Holds q (insert id S) := by
  obtain ⟨ids, hids, hnear⟩ := h
  obtain ⟨hfull, last, b, hlast, hb, hcmp⟩ := isCloser_false hfar
  have hlen : q.closestReplies.length = ids.length := by simpa using congrArg List.length hids
  have hidsLast : ids.getLast? = some b := by
    have hl := congrArg List.getLast? hids
    rw [getLast?_map, getLast?_map, hlast, Option.map_some, hb] at hl
    obtain ⟨c, hc, hcb⟩ := Option.map_eq_some_iff.mp hl.symm
    rw [hc, Option.some.inj hcb]
  refine ⟨ids, hids, hnear.skip (le_antisymm hnear.length_le (hlen ▸ hfull)) hidsLast ?_ distance_inj⟩
  exact not_lt.mp fun hlt => hcmp ((compareFrom_lt q.target id b).mpr hlt)

/-- The id that a response adds to those that have answered. -/
def answered (data : IoResponseData) : Option NodeId := if data.error = 0 then data.fromId else none

theorem Holds.takeReply (h : Holds q S) (data : IoResponseData) :
    Holds (q.takeReply data) (S ∪ (answered data).toFinset) := by
  unfold Query.takeReply answered
  split
  · have h' : Holds { q with successes := q.successes + 1 } S := h
    cases hid : data.fromId with
    | none =>
      rw [Option.toFinset_none, Finset.union_empty]
      exact h'
    | some id =>
      rw [Option.toFinset_some, Finset.union_comm]
      dsimp only
      split
      · exact h'.pushClosest rfl
      next hfar =>
        exact h'.skip (Bool.eq_false_iff.mpr hfar)
  · rw [Option.toFinset_none, Finset.union_empty]
    exact h

/-! ## Runs -/

/-- The calls on a query before its second phase, each with the table as it is then. -/
inductive Call where
  | addFromTable (t : RoutingTable)
  | addNodes (nodes : List (String × UInt16))
  | pollRequests (t : RoutingTable)
  | onResponse (t : RoutingTable) (data : IoResponseData)
  | onTimeout (t : RoutingTable) (toPeer : Ipv4Peer)

def call (q : Query) : Call → Query
  | .addFromTable t => q.addFromTable t
  | .addNodes nodes => q.addNodes nodes
  | .pollRequests t => (q.pollRequests t).2
  | .onResponse t data => (q.onResponse t data).2
  | .onTimeout t toPeer => (q.onTimeout t toPeer).2

def responses (cs : List Call) : List IoResponseData :=
  cs.filterMap fun
    | .onResponse _ data => some data
    | _ => none

def received (cs : List Call) : Finset NodeId := ((responses cs).filterMap answered).toFinset

def replyIds (q : Query) : Finset NodeId := (q.closestReplies.filterMap QueryReply.fromId).toFinset

theorem onTimeout_replies (q : Query) (t : RoutingTable) (toPeer : Ipv4Peer) :
    SameReplies q (q.onTimeout t toPeer).2 := by
  have hmissed : SameReplies q (q.missed toPeer).2 := ⟨rfl, rfl, rfl⟩
  cases hc : q.committing with
  | true =>
    rw [onTimeout_committing hc]
    exact hmissed
  | false =>
    rw [onTimeout_eq hc]
    exact hmissed.trans (readMore_replies t _)

/-- A response before the second phase: the reply is taken, and the rest leaves the replies alone. -/
theorem onResponse_replies (hc : q.committing = false) (t : RoutingTable) (data : IoResponseData) :
    SameReplies ((q.settled data.fromPeer .done).takeReply data) (q.onResponse t data).2 := by
  obtain ⟨slowdown, heq⟩ := onResponse_eq hc t data
  have hfilled : SameReplies _ (q.heard data).2 := (addCloser_filled _ data.fromPeer data.closerNodes).replies
  have hslow : SameReplies (q.heard data).2 { (q.heard data).2 with slowdown := slowdown } := ⟨rfl, rfl, rfl⟩
  rw [heq]
  exact (hfilled.trans hslow).trans (readMore_replies t _)

theorem holds_call (h : Holds q S) (hc : q.committing = false) (c : Call) :
    Holds (q.call c) (S ∪ received [c]) ∧ (q.call c).k = q.k ∧ (q.call c).target = q.target := by
  have hsame : ∀ q', SameReplies q q' → Holds q' (S ∪ ∅) ∧ q'.k = q.k ∧ q'.target = q.target := by
    intro q' hs
    rw [Finset.union_empty]
    exact ⟨h.same hs, hs.k, hs.target⟩
  cases c with
  | addFromTable t => exact hsame _ (addFromTable_filled q t).replies
  | addNodes nodes => exact hsame _ (addNodes_filled q nodes).replies
  | pollRequests t => exact hsame _ (readMore_replies t q)
  | onTimeout t toPeer => exact hsame _ (onTimeout_replies q t toPeer)
  | onResponse t data =>
    have hs₁ : SameReplies q (q.settled data.fromPeer .done) := ⟨rfl, rfl, rfl⟩
    have hs₂ := onResponse_replies hc t data
    have htaken := takeReply_eq (q.settled data.fromPeer .done) data
    have htarget : ((q.settled data.fromPeer .done).takeReply data).target = q.target := by
      rw [htaken]
      rfl
    have hk' : ((q.settled data.fromPeer .done).takeReply data).k = q.k := by
      rw [htaken]
      rfl
    have hone : received [.onResponse t data] = (answered data).toFinset := by
      unfold received responses
      cases hid : answered data <;> simp [hid]
    rw [hone]
    exact ⟨((h.same hs₁).takeReply data).same hs₂, hs₂.k.trans hk', hs₂.target.trans htarget⟩

theorem received_cons (c : Call) (cs : List Call) : received (c :: cs) = received [c] ∪ received cs := by
  unfold received responses
  rw [← toFinset_append, ← filterMap_append, ← filterMap_append, singleton_append]

/-- Every call is made before the second phase. -/
abbrev BeforeCommit (q : Query) (cs : List Call) : Prop := Along call (fun q _ => q.committing = false) q cs

theorem holds_run (h : Holds q S) {cs : List Call}
    (hcs : BeforeCommit q cs) : Holds (run call q cs) (S ∪ received cs) ∧ (run call q cs).k = q.k ∧
      (run call q cs).target = q.target := by
  induction cs generalizing q S with
  | nil =>
    rw [show received [] = ∅ from rfl, Finset.union_empty]
    exact ⟨h, rfl, rfl⟩
  | cons c cs ih =>
    obtain ⟨h', hk', ht'⟩ := holds_call h hcs.1 c
    obtain ⟨h'', hk'', ht''⟩ := ih h' hcs.2
    rw [received_cons, ← Finset.union_assoc]
    exact ⟨h'', hk''.trans hk', ht''.trans ht'⟩

theorem Holds.replyIds_eq (h : Holds q S) : q.replyIds = nearest (distance q.target) q.k S := by
  obtain ⟨ids, hids, hnear⟩ := h
  have hlist : q.closestReplies.filterMap QueryReply.fromId = ids := by
    have hm : (q.closestReplies.map QueryReply.fromId).filterMap (fun o => o) = ids := by
      rw [hids, filterMap_map]
      exact filterMap_some
    rw [← hm, filterMap_map]
    rfl
  rw [replyIds, hlist, hnear.toFinset_eq]

section
variable (id : Nat) (target : NodeId) (internal : Bool) (command : UInt64) (value : Option ByteVec) (concurrency : Nat)
  (commit : Bool) (ownId : NodeId)

/-- **Over any calls before the second phase, the replies kept are those of the `K` nearest ids that have answered without
an error, in strictly increasing order of distance. The order of the responses does not matter.** -/
theorem closestReplies_nearest (cs : List Call)
    (hcs : BeforeCommit (new id target internal command value concurrency commit ownId) cs) :
    let q := run call (new id target internal command value concurrency commit ownId) cs
    (∃ ids : List NodeId, q.closestReplies.map QueryReply.fromId = ids.map some ∧ SortedBy (distance target) ids) ∧
    q.closestReplies.length ≤ K ∧
    q.replyIds = nearest (distance target) K (received cs) ∧
    ∀ cs', BeforeCommit (new id target internal command value concurrency commit ownId) cs' →
      (responses cs').Perm (responses cs) →
      (run call (new id target internal command value concurrency commit ownId) cs').replyIds = q.replyIds := by
  have hstart : Holds (new id target internal command value concurrency commit ownId) ∅ :=
    ⟨[], rfl, nearest_nil _ _⟩
  set q₀ := new id target internal command value concurrency commit ownId
  have hall : ∀ cs, BeforeCommit q₀ cs →
      Holds (run call q₀ cs) (received cs) ∧ (run call q₀ cs).k = K ∧ (run call q₀ cs).target = target := by
    intro cs hcs
    have h := holds_run hstart hcs
    rwa [Finset.empty_union] at h
  obtain ⟨hq, hk, htarget⟩ := hall cs hcs
  have hids := hq.replyIds_eq
  obtain ⟨ids, hmap, hnear⟩ := hq
  rw [hk, htarget] at hnear hids
  have hlen : (run call q₀ cs).closestReplies.length = ids.length := by simpa using congrArg List.length hmap
  refine ⟨⟨ids, hmap, hnear.sorted⟩, hlen ▸ hnear.length_le, hids, fun cs' hcs' hperm => ?_⟩
  obtain ⟨hq', hk', htarget'⟩ := hall cs' hcs'
  have hsame : received cs' = received cs := toFinset_eq_of_perm _ _ (hperm.filterMap _)
  rw [hq'.replyIds_eq, hk', htarget', hsame, hids]

end

def replyOf (host : String) (byte : UInt8) : IoResponseData where
  fromPeer := ⟨host, 1⟩
  fromId := some (.fill byte)
  token := none
  closerNodes := []
  error := 0
  value := none
  rtt := 1
  toPeer := ⟨"10.0.0.9", 9⟩

def zeroId : NodeId := .fill 0

/-- Two nodes are asked and answer, the nearer one first or last. -/
def twoReplies (first second : IoResponseData) : List Call :=
  let t := RoutingTable.new zeroId
  [.addNodes [("10.0.0.1", 1), ("10.0.0.2", 1)], .pollRequests t, .onResponse t first, .onResponse t second]

theorem closestReplies_nearest_two : let q := new 0 zeroId true 2 none 10 false zeroId
    let near := replyOf "10.0.0.1" 1
    let far := replyOf "10.0.0.2" 2
    (run call q (twoReplies near far)).closestReplies.length ≤ K ∧
    (run call q (twoReplies far near)).replyIds = (run call q (twoReplies near far)).replyIds := by
  have h := closestReplies_nearest 0 zeroId true 2 none 10 false zeroId
    (twoReplies (replyOf "10.0.0.1" 1) (replyOf "10.0.0.2" 2)) (by decide +kernel)
  exact ⟨h.2.1, h.2.2.2 _ (by decide +kernel) (.swap _ _ _)⟩

end Query
end Peeroxide.Dht
