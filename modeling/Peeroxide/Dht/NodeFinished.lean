import Peeroxide.Dht.NodeTicks
import Peeroxide.Dht.QuerySpec

/-!
# Finished queries

A query is dropped when an answer or a timeout finishes it. One that begins with an empty table is finished before it is
kept, and nothing drops it later.

Main result: `finished_dropped`.
-/

namespace Peeroxide.Dht
open Lib List

/-! ## New queries -/

namespace RoutingTable

theorem closest_eq_nil {t : RoutingTable} (h : t.Inv) (target : NodeId) {k : Nat} (hk : 0 < k) :
    t.closest target k = [] ↔ t.isEmpty = true := by
  have hempty : t.isEmpty = true ↔ t.nodes = [] := by
    rw [isEmpty, beq_iff_eq, h.size_eq, length_eq_zero_iff]
  rw [hempty, closest_eq, take_eq_nil_iff, or_iff_right (by omega), eq_nil_iff_forall_not_mem,
    eq_nil_iff_forall_not_mem]
  exact forall_congr' fun n => not_congr mem_scan

end RoutingTable

namespace Query
variable {q : Query} {t : RoutingTable}

theorem finishInternal_finished (q : Query) : q.finishInternal.finished = true := by
  unfold finishInternal
  split
  · assumption
  · dsimp only
    split
    · rfl
    · rfl

/-- Without replies there is no second phase. -/
theorem flush_finished (hc : q.committing = false) (hr : q.closestReplies = []) : q.flush.2.finished = true := by
  rcases flush_cases hc with ⟨k, -, heq⟩ | ⟨hne, -⟩
  · rw [heq]
    exact finishInternal_finished _
  · refine absurd ?_ hne
    rw [commitRequests, hr]
    rfl

theorem addPending_ne_nil (h : q.pending ≠ []) (node : QueryNode) (referrer : Option Ipv4Peer) :
    (q.addPendingReturning node referrer).2.2.pending ≠ [] := by
  rcases addPendingReturning_cases q node referrer with heq | ⟨refs, -, heq⟩ | ⟨refs, -, heq⟩
  · rw [heq]
    exact h
  · rw [heq]
    exact h
  · rw [heq]
    exact cons_ne_nil _ _

theorem addFromTable_pending (ht : t.Inv) (hk : 0 < q.k) (hp : q.pending = [])
    (hseen : ∀ p, q.seen p = none) (hr : q.closestReplies = []) :
    (q.addFromTable t).pending = [] ↔ t.isEmpty = true := by
  have hroom : ¬q.k ≤ q.pending.length := by
    rw [hp]
    exact Nat.not_le.mpr hk
  rw [← RoutingTable.closest_eq_nil ht q.target (k := q.k - q.pending.length) (by omega)]
  unfold addFromTable
  rw [if_neg hroom]
  dsimp only
  constructor
  · intro h
    cases hclosest : t.closest q.target (q.k - q.pending.length) with
    | nil => rfl
    | cons m rest =>
      rw [hclosest, foldl_cons] at h
      refine absurd h (addAll_rule (I := fun q => q.pending ≠ []) (fun _ node referrer h => addPending_ne_nil h node _) ?_ rest)
      have hcloser : ({ q with fromTable := true } : Query).isCloser m.id = true := by
        refine if_pos ?_
        rw [hr]
        exact hk
      rw [addPending, addPendingReturning, hcloser]
      rw [hseen]
      exact cons_ne_nil _ _
  · intro h
    rw [h]
    exact hp

theorem poll_finished (id : Nat) (target : NodeId) (internal : Bool) (command : UInt64) (value : Option ByteVec)
    (concurrency : Nat) (commit : Bool) (ownId : NodeId) (ht : t.Inv) :
    (((new id target internal command value concurrency commit ownId).addFromTable t).pollRequests t).2.finished =
      t.isEmpty := by
  have hK : 0 < K := by decide
  set q₀ := new id target internal command value concurrency commit ownId
  have hfilled := addFromTable_filled q₀ t
  have hpending := addFromTable_pending (q := q₀) ht hK rfl (fun _ => rfl) rfl
  have hfrom := addFromTable_fromTable (q := q₀) (t := t) hK
  generalize addFromTable q₀ t = q at hfilled hpending hfrom
  have hf : q.finished = false := by rw [hfilled]; rfl
  have hc : q.committing = false := by rw [hfilled]; rfl
  have hr : q.closestReplies = [] := by rw [hfilled]; rfl
  have hi : q.inflight = 0 := by rw [hfilled]; rfl
  have hk : q.closestReplies.length < q.k := by rw [hfilled]; exact hK
  unfold pollRequests
  cases he : t.isEmpty with
  | true =>
    rw [readMore_idle hf hc (hpending.mpr he) hi hfrom]
    exact flush_finished hc hr
  | false =>
    refine readMore_waits hf hc hk (fun hnil => ?_) t
    rw [hpending.mp hnil] at he
    cases he

theorem onCommitDone_finished (hf : q.finished = false) (hmore : q.onCommitDone.1 = false) :
    q.onCommitDone.2.finished = false := by
  unfold onCommitDone at hmore ⊢
  dsimp only at hmore ⊢
  split at hmore
  · cases hmore
  next hne =>
    rw [if_neg hne]
    exact hf

end Query

/-! ## The active queries -/

namespace DhtNode
variable {q : Query} {queryId : Nat}

def Clean (n : DhtNode) : Prop := ∀ queryId q, n.activeQueries.lookup queryId = some q → q.finished = false

variable {n n' : DhtNode}

theorem Clean.congr (h : Clean n) (hq : n'.activeQueries = n.activeQueries) : Clean n' := by
  unfold Clean
  rw [hq]
  exact h

theorem Clean.outer (h : Clean n) (ho : Outer n n') : Clean n' := h.congr (by rw [ho])

theorem Clean.inner (h : Clean n) (hi : Inner n n') : Clean n' := h.congr (by rw [hi])

theorem Clean.insert (h : Clean n) (queryId : Nat) (hq : q.finished = false) :
    Clean { n with activeQueries := n.activeQueries.insert queryId q } := by
  intro queryId' q' hlookup
  rcases Assoc.lookup_insert_some hlookup with ⟨-, rfl⟩ | hlookup
  · exact hq
  · exact h queryId' q' hlookup

theorem Clean.removed (h : Clean n) (hr : Removed n n') : Clean n' := by
  cases hr with
  | other | again | bootstrapped => exact h

theorem clean_removeQuery
    (h : ∀ queryId' q, queryId' ≠ queryId → n.activeQueries.lookup queryId' = some q → q.finished = false) :
    Clean (n.removeQuery queryId) := by
  refine Clean.removed ?_ (onQueryRemoved_removed _ queryId)
  intro queryId' q hlookup
  obtain ⟨hne, hlookup⟩ := Assoc.lookup_erase_some hlookup
  exact h queryId' q hne hlookup

theorem Clean.removeInserted (h : Clean n)
    (hq : n'.activeQueries = n.activeQueries.insert queryId q) : Clean (n'.removeQuery queryId) := by
  refine clean_removeQuery fun queryId' q' hne hlookup => ?_
  rw [hq, AList.lookup_insert_ne hne] at hlookup
  exact h queryId' q' hlookup

theorem Clean.queryCalled (h : Clean n) (queryId : Nat) (call : RoutingTable → Query → List QueryRequest × Query) :
    Clean (n.queryCalled queryId call) := by
  unfold DhtNode.queryCalled
  split
  next q hq =>
    dsimp only
    have hinner := dispatchQueryRequests_inner
      { n with activeQueries := n.activeQueries.insert queryId (call n.table q).2 } queryId (call n.table q).1
    split
    · exact h.removeInserted (by rw [hinner])
    next hmore =>
      exact (h.insert queryId (Bool.eq_false_iff.mpr hmore)).inner hinner
  · exact h

theorem Clean.commitDone (h : Clean n) (queryId : Nat) : Clean (n.commitDone queryId) := by
  unfold DhtNode.commitDone
  split
  next q hq =>
    split
    · exact h.removeInserted rfl
    next hmore =>
      exact h.insert queryId (Query.onCommitDone_finished (h queryId q hq) (Bool.eq_false_iff.mpr hmore))
  · exact clean_removeQuery fun queryId' q _ hlookup => h queryId' q hlookup

theorem Clean.tids (h : Clean n) (tidToQuery : AList fun _ : UInt16 => Nat × Bool) : Clean { n with tidToQuery } := h

theorem Clean.settled {s : StandaloneRequest} {standaloneTids : AList fun _ : UInt16 => StandaloneRequest}
    (h : Clean n) (hs : Settled { n with standaloneTids } s n') : Clean n' := by
  cases hs with
  | ping | userRequest | keptOld | replaced | kept | removed => exact h

section
variable (target : NodeId) (internal : Bool) (command : UInt64) (value : Option ByteVec) (concurrency : Nat)
  (commit : Bool) (ht : n.table.Inv)
include ht

theorem insertQuery_active : ∃ q : Query, q.finished = n.table.isEmpty ∧
      (n.insertQuery target internal command value concurrency commit).activeQueries =
        n.activeQueries.insert n.nextQueryId q := by
  refine ⟨_, Query.poll_finished n.nextQueryId target internal command value concurrency commit n.table.id ht, ?_⟩
  unfold insertQuery
  dsimp only
  rw [dispatchQueryRequests_inner]

theorem Clean.insertQuery (h : Clean n) (he : n.table.isEmpty = false) :
    Clean (n.insertQuery target internal command value concurrency commit) := by
  obtain ⟨q, hq, heq⟩ := insertQuery_active target internal command value concurrency commit ht
  exact (h.insert n.nextQueryId (hq.trans he)).congr heq

theorem not_clean_insertQuery (he : n.table.isEmpty = true) :
    ¬Clean (n.insertQuery target internal command value concurrency commit) := by
  intro hclean
  obtain ⟨q, hq, heq⟩ := insertQuery_active target internal command value concurrency commit ht
  have hlookup : (n.insertQuery target internal command value concurrency commit).activeQueries.lookup n.nextQueryId =
      some q := by
    rw [heq, AList.lookup_insert]
  have hf := hclean _ q hlookup
  rw [hq, he] at hf
  cases hf

end

theorem Clean.viaSocket (h : Clean n) (target : Ipv4Peer) (accepted : Bool) :
    Clean (n.handleCommand (.pingViaSocket target accepted)) := by
  unfold handleCommand
  dsimp only
  split
  · exact h
  · exact h

theorem clean_rule : Rule (fun _ => True) (fun empty => empty = false) fun _ n => Ticks n ∧ Clean n where
  counters h _ _ _ _ _ := ⟨{ h.1 with }, h.2⟩
  tick h hle := ⟨ticks_rule.tick h.1 hle, h.2⟩
  drain h := ⟨ticks_rule.drain h.1, h.2⟩
  relay h _ _ := ⟨ticks_rule.relay h.1 _ _, h.2⟩
  request h hs := ⟨ticks_rule.request h.1 hs, h.2.outer (createStandalone_outer ..)⟩
  viaSocket h := ⟨ticks_rule.viaSocket h.1, h.2.viaSocket _ _⟩
  insert h he _ _ _ _ _ _ := ⟨ticks_unqueried.insertQuery h.1 .., h.2.insertQuery _ _ _ _ _ _ h.1.inv he⟩
  checks h hms := ⟨ticks_rule.checks h.1 hms, h.2.outer (foldl_check_outer ..)⟩
  hint h hget hpinged := ⟨ticks_rule.hint h.1 hget hpinged, h.2.outer (check_outer ..)⟩
  network h _ fromPeer fromId := ⟨(h.1.network fromPeer fromId).1, h.2.outer (addNodeFromNetwork_outer ..)⟩
  timeouts h := ⟨ticks_rule.timeouts h.1, h.2⟩
  response h hp := ⟨ticks_rule.response h.1 hp, h.2⟩
  call h hlookup ha := ⟨ticks_rule.call (B := []) h.1 hlookup ha, (h.2.tids _).queryCalled _ _⟩
  commit h hlookup := ⟨ticks_rule.commit (B := []) h.1 hlookup, (h.2.tids _).commitDone _⟩
  settle h _ hlookup hs := ⟨h.1.settled hlookup hs, h.2.settled hs⟩
  unknown h _ _ := h

/-! ## Every run -/

theorem clean_startBootstrap (h : Clean n) : Clean n.startBootstrap := by
  unfold startBootstrap
  dsimp only
  split
  · exact Clean.removed (Clean.inner (by exact h) (dispatchQueryRequests_inner ..)) (onQueryRemoved_removed ..)
  next hmore =>
    exact (Clean.inner (by exact h) (dispatchQueryRequests_inner ..)).insert _ (Bool.eq_false_iff.mpr hmore)

theorem not_clean_runRefresh (ht : n.table.Inv) (he : n.table.isEmpty = true) (i j : Nat) :
    ¬Clean (n.runRefresh i j) :=
  not_clean_insertQuery _ _ _ _ _ _ ht he

theorem not_clean_handleTick (h : Ticks n) (hr : n.refreshes = true) (he : n.table.isEmpty = true) (i j : Nat) :
    ¬Clean (n.handleTick i j) := by
  have ht : n.ticked.table.Inv := (ticks_rule.ticked h).inv
  rw [refreshes, ← ticked_bootstrapped, ← ticked_table] at hr
  rw [← ticked_table] at he
  unfold handleTick
  generalize n.ticked = n at ht hr he
  rw [Bool.and_eq_true, he, Bool.and_true] at hr
  dsimp only
  rw [hr.1, if_neg (by decide)]
  split
  · have hnot : ¬Clean (n.pingSome i j) := by
      rw [pingSome, if_pos he]
      exact not_clean_runRefresh ht he i j
    have hcount : ¬(n.pingSome i j).refreshTicks - 1 = 0 := by
      rw [pingSome, if_pos he, runRefresh_refreshTicks]
      decide
    rw [if_neg hcount]
    exact hnot
  next height =>
    have hdue : n.refreshTicks - 1 = 0 := by
      rcases Bool.or_eq_true_iff.mp hr.2 with h8 | hdue
      · exact absurd (beq_iff_eq.mp h8) height
      · exact beq_iff_eq.mp hdue
    rw [if_pos hdue]
    exact not_clean_runRefresh (n := { n with refreshTicks := n.refreshTicks - 1 }) ht he i j

theorem not_clean_step (h : Ticks n) {e : Event} (hs : n.starts e = true) (he : n.table.isEmpty = true) :
    ¬Clean (n.step e) := by
  unfold step
  cases e with
  | datagram | drain | timeouts => cases hs
  | tick i j =>
    rw [starts, Bool.and_eq_true, Bool.not_eq_true'] at hs
    rw [hs.1]
    exact not_clean_handleTick h hs.2 he i j
  | command c =>
    cases c with
    | findNode target | query params =>
      rw [starts, Bool.not_eq_true'] at hs
      rw [hs]
      exact not_clean_insertQuery _ _ _ _ _ _ h.inv he
    | ping | request | relay | destroy | inboundReplyBytes | pingViaSocket => cases hs

/-- **Finished queries are dropped, in every state of a run, just when no query begins with an empty table.** -/
theorem finished_dropped (config : DhtConfig) (resolved : List String) (tableId : NodeId) (localPort tid : UInt16)
    (clock : Nat → Nat) (tieBreak : Nat) (es : List Event) :
    let n := (spawn config resolved tableId localPort tid clock tieBreak).startBootstrap
    Visits step Clean n es ↔ Along step (fun n e => n.starts e = true → n.table.isEmpty = false) n es := by
  intro n
  have hticks : Ticks n := ticks_unqueried.startBootstrap (ticks_spawn ..)
  have hclean : Clean n := clean_startBootstrap fun _ _ hlookup => (nomatch hlookup)
  refine visits_iff_along (I := Ticks) (fun n e h => ticks_rule.step h e (fun _ _ => trivial) fun _ => trivial)
    (fun n e ht hc => ⟨fun hc' hs => ?_, fun hs => ?_⟩) hticks hclean es
  · cases he : n.table.isEmpty with
    | false => rfl
    | true => exact absurd hc' (not_clean_step ht hs he)
  · exact (clean_rule.step ⟨ht, hc⟩ e (fun _ _ => trivial) hs).2

/-- A node that knows no other is asked for a node: the query stays although it is finished. -/
theorem finished_kept :
    ¬Clean (reached ⟨[], 0, "0.0.0.0", none, false, 10, 80⟩ [] (.fill 0) 1 0 (fun _ => 0) 0
      [.command (.findNode (.fill 1))]) := by
  intro hclean
  have hlookup : ((reached ⟨[], 0, "0.0.0.0", none, false, 10, 80⟩ [] (.fill 0) 1 0 (fun _ => 0) 0
      [.command (.findNode (.fill 1))]).activeQueries.lookup 1).map Query.finished = some true := by
    decide +kernel
  obtain ⟨q, hq, hf⟩ := Option.map_eq_some_iff.mp hlookup
  rw [hclean 1 q hq] at hf
  cases hf

end DhtNode
end Peeroxide.Dht
