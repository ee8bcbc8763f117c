import Peeroxide.Dht.QuerySpec

/-!
# Progress of a query

A query together with what has been asked and what has not been answered yet. Every unanswered request of the first
phase may be answered with any data or time out, and every one of the second phase may complete, in any order.

Main result: `query_progress`.
-/

namespace Peeroxide.Dht
open Lib List
namespace Query

/-! ## The invariant -/

structure Phase (q : Query) : Prop where
  unsent : q.finished = false → q.resultTx = true ∧ q.sent = []
  closed : q.finished = true → q.committing = true ∧ q.commitInflight = 0 ∧ q.sent.length = 1
  first : q.committing = false → q.commitInflight = 0
  second : q.committing = true → q.inflight = 0 ∧ (q.finished = false → 0 < q.commitInflight)

theorem Phase.unfinished {q : Query} (h : Phase q) (hc : q.committing = false) : q.finished = false := by
  cases hf : q.finished with
  | false => rfl
  | true =>
    rw [(h.closed hf).1] at hc
    cases hc

/-- The query with limit `m` agrees with the addresses asked so far, `n` unanswered requests of the first phase and `c`
of the second. -/
structure Sound (m : Nat) (q : Query) (asked : List Ipv4Peer) (n c : Nat) : Prop where
  k : q.k = K
  limit : q.concurrency = m
  nodup : (asked ++ q.pending.map QueryNode.peer).Nodup
  seen : ∀ p ∈ asked ++ q.pending.map QueryNode.peer, (q.seen p).isSome
  inflight : q.inflight = n
  commitInflight : q.commitInflight = c
  room : q.inflight ≤ m
  phase : Phase q

/-- What a call leaves agrees, with what the call asks for. -/
def Absorbed (m : Nat) (asked : List Ipv4Peer) (n c : Nat) (r : List QueryRequest × Query) : Prop :=
  Sound m r.2 (asked ++ phase1 r.1) (n + (phase1 r.1).length) (c + (commits r.1).length)

variable {m n c : Nat} {q : Query} {asked : List Ipv4Peer}

theorem sound_new (id : Nat) (target : NodeId) (internal : Bool) (command : UInt64) (value : Option ByteVec)
    (m : Nat) (commit : Bool) (ownId : NodeId) :
    Sound m (new id target internal command value m commit ownId) [] 0 0 where
  k := rfl
  limit := rfl
  nodup := nodup_nil
  seen := fun _ h => absurd h not_mem_nil
  inflight := rfl
  commitInflight := rfl
  room := Nat.zero_le m
  phase := ⟨fun _ => ⟨rfl, rfl⟩, fun h => (nomatch h), fun _ => rfl, fun h => (nomatch h)⟩

theorem setSeen_isSome {p peer : Ipv4Peer} {s : SeenState} (h : p = peer ∨ (q.seen p).isSome) :
    ((q.setSeen peer s).seen p).isSome := by
  unfold setSeen
  dsimp only
  by_cases hp : p = peer
  · rw [hp, Function.update_self]
    rfl
  · rw [Function.update_of_ne hp]
    exact h.resolve_left hp

section
variable (h : Sound m q asked n c)
include h

theorem Sound.setSeen (peer : Ipv4Peer) (s : SeenState) :
    Sound m (q.setSeen peer s) asked n c :=
  { h with seen := fun p hp => setSeen_isSome (.inr (h.seen p hp)), phase := { h.phase with } }

theorem Sound.addPendingReturning (node : QueryNode) (referrer : Option Ipv4Peer) :
    Sound m (q.addPendingReturning node referrer).2.2 asked n c := by
  rcases addPendingReturning_cases q node referrer with heq | ⟨refs, -, heq⟩ | ⟨refs, hnone, heq⟩
  · rw [heq]
    exact h
  · rw [heq]
    exact h.setSeen _ _
  · rw [heq]
    have hnew : node.peer ∉ asked ++ q.pending.map QueryNode.peer := by
      intro hmem
      have hsome := h.seen _ hmem
      rw [hnone] at hsome
      cases hsome
    have hperm : (asked ++ (node :: q.pending).map QueryNode.peer).Perm
        (node.peer :: (asked ++ q.pending.map QueryNode.peer)) := perm_middle
    refine { h with nodup := hperm.nodup_iff.mpr (nodup_cons.mpr ⟨hnew, h.nodup⟩), seen := fun p hp => ?_, phase := { h.phase with } }
    rcases mem_cons.mp (hperm.mem_iff.mp hp) with hp | hp
    · exact setSeen_isSome (.inl hp)
    · exact setSeen_isSome (.inr (h.seen p hp))

theorem Sound.addNodes (nodes : List (String × UInt16)) :
    Sound m (q.addNodes nodes) asked n c :=
  addNodes_rule (I := fun q => Sound m q asked n c) (fun _ node referrer h => h.addPendingReturning node referrer) h nodes

theorem Sound.addCloser (referrer : Ipv4Peer) (nodes : List Ipv4Peer) :
    Sound m (q.addCloser referrer nodes).2 asked n c :=
  addCloser_rule (I := fun q => Sound m q asked n c) (fun _ node referrer h => h.addPendingReturning node referrer) h
    referrer nodes

theorem Sound.addFromTable (t : RoutingTable) : Sound m (q.addFromTable t) asked n c :=
  addFromTable_rule (I := fun q => Sound m q asked n c) (fun _ node referrer h => h.addPendingReturning node referrer)
    (fun _ h => { h with phase := { h.phase with } }) h t

theorem Sound.issue {rs : List QueryRequest} {q' : Query} (hc : q.committing = false)
    (hi : Issued q q.effectiveConcurrency q.pending (rs, q')) : Absorbed m asked n c (rs, q') := by
  have hq : q' = { q with pending := q'.pending, inflight := q.inflight + (phase1 rs).length } := hi.query
  have hcommits : commits rs = [] := hi.commits
  have hsub : (asked ++ phase1 rs ++ q'.pending.map QueryNode.peer).Sublist (asked ++ q.pending.map QueryNode.peer) := by
    rw [append_assoc]
    exact hi.asked.append_left asked
  have hbelow : q'.inflight ≤ max q.effectiveConcurrency q.inflight := hi.below
  have hlimit := effectiveConcurrency_le q
  have hroom := h.room
  rw [h.limit] at hlimit
  unfold Absorbed
  dsimp only
  rw [hcommits]
  have hc' : q'.committing = false := by
    rw [hq]
    exact hc
  refine ⟨?_, ?_, h.nodup.sublist hsub, fun p hp => ?_, ?_, ?_, by omega, ⟨fun hf => ?_, fun hf => ?_, fun _ => ?_,
    fun hcc => (nomatch hc'.symm.trans hcc)⟩⟩
  · rw [hq]
    exact h.k
  · rw [hq]
    exact h.limit
  · rw [hq]
    exact h.seen p (hsub.subset hp)
  · rw [hq, ← h.inflight]
  · rw [hq]
    exact h.commitInflight
  · rw [hq]
    exact h.phase.unsent (h.phase.unfinished hc)
  · rw [hq] at hf
    cases (h.phase.unfinished hc).symm.trans hf
  · rw [hq]
    exact h.phase.first hc

end

theorem finishInternal_eq (hf : q.finished = false) (htx : q.resultTx = true) : q.finishInternal =
    { q with finished := true, resultTx := false, sent := q.sent ++ [⟨q.closestReplies, q.successes, q.errors⟩] } := by
  unfold finishInternal
  rw [hf, if_neg (by decide)]
  rw [htx, if_pos rfl]

theorem Sound.flush (h : Sound m q asked n c) (hc : q.committing = false) (hi : q.inflight = 0) :
    Absorbed m asked n c q.flush := by
  have hf := h.phase.unfinished hc
  obtain ⟨htx, hsent⟩ := h.phase.unsent hf
  have hzero := h.phase.first hc
  have hc0 : c = 0 := h.commitInflight.symm.trans hzero
  rcases flush_cases hc with ⟨k, hk, heq⟩ | ⟨hne, heq⟩
  · have hk0 : k = 0 := by
      rcases hk with rfl | rfl
      · rfl
      · exact hzero
    subst hk0
    rw [heq, finishInternal_eq (by exact hf) (by exact htx), Absorbed, phase1_nil, append_nil, hc0]
    refine { h with commitInflight := rfl, phase := ⟨fun hff => (nomatch hff), fun _ => ⟨rfl, rfl, ?_⟩,
      fun hcc => (nomatch hcc), fun _ => ⟨hi, fun hff => (nomatch hff)⟩⟩ }
    rw [hsent]
    rfl
  · rw [heq, Absorbed, phase1_map_commit, commits_map_commit, append_nil, hc0, Nat.zero_add]
    exact { h with commitInflight := rfl, phase := ⟨h.phase.1, fun hff => (nomatch hf.symm.trans hff), fun hcc => (nomatch hcc),
        fun _ => ⟨hi, fun _ => length_pos_of_ne_nil hne⟩⟩ }

theorem Sound.slow (h : Sound m q asked n c) (slowdown : Bool) : Sound m { q with slowdown := slowdown } asked n c :=
  { h with phase := { h.phase with } }

theorem Sound.absorbed_nil (h : Sound m q asked n c) : Absorbed m asked n c ([], q) := by
  rw [Absorbed, phase1_nil, commits_nil, append_nil]
  exact h

theorem Sound.readMore (h : Sound m q asked n c) (t : RoutingTable) : Absorbed m asked n c (readMore t q) := by
  refine readMore_rule (R := fun q rs q' => ∀ asked n c, Sound m q asked n c → Absorbed m asked n c (rs, q'))
    (fun q asked n c => Sound.absorbed_nil) ?_ ?_ ?_ ?_ ?_ q asked n c h
  · intro q rs q' rs' q'' h₁ h₂ asked n c h
    have h' := h₂ _ _ _ (h₁ asked n c h)
    rw [Absorbed, phase1_append, commits_append, ← append_assoc, length_append, length_append, ← Nat.add_assoc,
      ← Nat.add_assoc]
    exact h'
  · intro q rs q' _ hc hi asked n c h
    exact h.issue hc hi
  · exact fun q slowdown asked n c h => (h.slow slowdown).absorbed_nil
  · exact fun q asked n c h => (h.addFromTable t).absorbed_nil
  · intro q hc hi asked n c h
    exact h.flush hc hi

/-! ## Answers -/

theorem Sound.takeReply (h : Sound m q asked n c) (data : IoResponseData) : Sound m (q.takeReply data) asked n c := by
  rw [takeReply_eq]
  exact { h with phase := { h.phase with } }

section
variable (h : Sound m q asked (n + 1) c)
include h

theorem Sound.not_committing : q.committing = false := by
  cases hc : q.committing with
  | false => rfl
  | true =>
    have h0 := (h.phase.second hc).1
    rw [h.inflight] at h0
    cases h0

theorem Sound.settled (peer : Ipv4Peer) (s : SeenState) : Sound m (q.settled peer s) asked n c := by
  have hs := h.setSeen peer s
  have hi := h.inflight
  have hroom := h.room
  have hinflight : q.inflight - 1 = n := by omega
  refine ⟨h.k, h.limit, h.nodup, hs.seen, hinflight, h.commitInflight, ?_, ⟨h.phase.1, h.phase.2, h.phase.3,
    fun hcc => (nomatch h.not_committing.symm.trans hcc)⟩⟩
  show q.inflight - 1 ≤ m
  omega

theorem Sound.heard (data : IoResponseData) : Sound m (q.heard data).2 asked n c :=
  ((h.settled _ _).takeReply data).addCloser _ _

theorem Sound.missed (peer : Ipv4Peer) : Sound m (q.missed peer).2 asked n c :=
  have hs := h.settled peer .down
  { hs with phase := { hs.phase with } }

end

theorem Sound.committing (h : Sound m q asked n (c + 1)) : q.committing = true ∧ q.finished = false := by
  have hc := h.commitInflight
  constructor
  · cases hcc : q.committing with
    | true => rfl
    | false =>
      rw [h.phase.first hcc] at hc
      cases hc
  · cases hf : q.finished with
    | false => rfl
    | true =>
      rw [(h.phase.closed hf).2.1] at hc
      cases hc

theorem onCommitDone_eq (q : Query) : q.onCommitDone.2 =
    if q.commitInflight - 1 = 0 then finishInternal { q with commitInflight := q.commitInflight - 1 }
    else { q with commitInflight := q.commitInflight - 1 } := by
  unfold onCommitDone
  dsimp only
  split
  · rfl
  · rfl

theorem Sound.onCommitDone (h : Sound m q asked n (c + 1)) : Sound m q.onCommitDone.2 asked n c ∧
    q.onCommitDone.2.committing = true := by
  obtain ⟨hcc, hf⟩ := h.committing
  obtain ⟨htx, hsent⟩ := h.phase.unsent hf
  have hi := (h.phase.second hcc).1
  have hdone : q.commitInflight - 1 = c := by
    rw [h.commitInflight]
    rfl
  rw [onCommitDone_eq, hdone]
  split
  next hlast =>
    rw [finishInternal_eq (by exact hf) (by exact htx)]
    refine ⟨{ h with commitInflight := rfl, phase := ⟨fun hff => (nomatch hff), fun _ => ⟨hcc, hlast, ?_⟩,
      fun hff => (nomatch hcc.symm.trans hff), fun _ => ⟨hi, fun hff => (nomatch hff)⟩⟩ }, hcc⟩
    rw [hsent]
    rfl
  next hmore =>
    exact ⟨{ h with commitInflight := rfl, phase := ⟨h.phase.1, fun hff => (nomatch hf.symm.trans hff),
      fun hff => (nomatch hcc.symm.trans hff), fun _ => ⟨hi, fun _ => Nat.pos_of_ne_zero hmore⟩⟩ }, hcc⟩

/-! ## Progress -/

def Live (q : Query) : Prop := q.committing = true ∨ 0 < q.inflight

theorem finishInternal_committing (q : Query) : q.finishInternal.committing = q.committing := by
  unfold finishInternal
  split
  · rfl
  · dsimp only
    split
    · rfl
    · rfl

theorem flush_live (hc : q.committing = false) : Live q.flush.2 := by
  rcases flush_cases hc with ⟨k, -, heq⟩ | ⟨-, heq⟩
  · rw [heq]
    exact .inl (finishInternal_committing _)
  · rw [heq]
    exact .inl rfl

/-- One round, when the next one makes progress: either the limit stops it with a request in flight, or nothing is
left and the first phase ends. -/
theorem readMoreWith_live {again : Query → List QueryRequest × Query} {t : RoutingTable} (hk : 0 < q.k)
    (hm : 1 ≤ q.concurrency) (hf : q.finished = false) (hc : q.committing = false)
    (hagain : ∀ q', q.fromTable = false → q'.fromTable = true → q'.k = q.k → q'.concurrency = q.concurrency →
      q'.finished = false → q'.committing = false → Live (again q').2) : Live (readMoreWith again t q).2 := by
  obtain ⟨rs, q₁, slowdown, hi, heq⟩ := readMoreWith_cases again t hf hc
  have hq : q₁ = { q with pending := q₁.pending, inflight := q.inflight + (phase1 rs).length } := hi.query
  have hc₁ : q₁.committing = false := by
    rw [hq]
    exact hc
  rw [heq]
  have hend := drained_cases again t { q₁ with slowdown := slowdown }
  generalize drained again t { q₁ with slowdown := slowdown } = r at hend
  cases hend with
  | waiting h =>
    right
    show 0 < q₁.inflight
    rcases h with hp | hn
    · have hlimit : q.effectiveConcurrency ≤ q₁.inflight := hi.stopped.resolve_left hp
      have := effectiveConcurrency_pos hm
      omega
    · exact Nat.pos_of_ne_zero hn
  | flushed => exact flush_live hc₁
  | tableFlushed =>
    refine flush_live ?_
    rw [addFromTable_filled]
    exact hc₁
  | round hp _ hfrom =>
    have hfrom' : q.fromTable = false := by
      rw [← hfrom]
      rw [hq]
    have hroom : ({ q₁ with slowdown := slowdown } : Query).pending.length < q₁.k := by
      rw [hp, hq]
      exact hk
    have hfilled := addFromTable_filled { q₁ with slowdown := slowdown } t
    refine hagain _ hfrom' (addFromTable_fromTable hroom) ?_ ?_ ?_ ?_ <;> rw [hfilled]
    · rw [hq]
    · rw [hq]
    · rw [hq]
      exact hf
    · exact hc₁

theorem readMore_live (h : Sound m q asked n c) (hm : 1 ≤ m) (t : RoutingTable) : Live (readMore t q).2 := by
  cases hc : q.committing with
  | true =>
    left
    rw [readMore, readMoreWith, hc, Bool.or_true]
    exact hc
  | false =>
    have hk : 0 < q.k := by
      rw [h.k]
      decide
    have hm' : 1 ≤ q.concurrency := h.limit.symm ▸ hm
    refine readMoreWith_live hk hm' (h.phase.unfinished hc) hc fun q' _ hasked hk' hconc hf' hc' => ?_
    refine readMoreWith_live (hk' ▸ hk) (hconc ▸ hm') hf' hc' fun _ hnot => ?_
    rw [hasked] at hnot
    cases hnot

/-- Hints in front of what is read change nothing that is counted. -/
theorem Sound.hinted (h : Sound m q asked n c) {hints : List QueryRequest} (hh : Hints hints) (t : RoutingTable) :
    Absorbed m asked n c (hints ++ (Query.readMore t q).1, (Query.readMore t q).2) ∧
      (1 ≤ m → Live (Query.readMore t q).2) := by
  rw [Absorbed, phase1_append, commits_append, hh.phase1, hh.commits]
  exact ⟨h.readMore t, fun hm => readMore_live h hm t⟩

theorem Sound.onResponse (h : Sound m q asked (n + 1) c) (t : RoutingTable) (data : IoResponseData) :
    Absorbed m asked n c (q.onResponse t data) ∧ (1 ≤ m → Live (q.onResponse t data).2) := by
  obtain ⟨slowdown, heq⟩ := onResponse_eq h.not_committing t data
  rw [heq]
  exact ((h.heard data).slow slowdown).hinted (addCloser_hints _ _ _) t

theorem Sound.onTimeout (h : Sound m q asked (n + 1) c) (t : RoutingTable) (toPeer : Ipv4Peer) :
    Absorbed m asked n c (q.onTimeout t toPeer) ∧ (1 ≤ m → Live (q.onTimeout t toPeer).2) := by
  rw [onTimeout_eq h.not_committing]
  exact (h.missed toPeer).hinted (missed_hints q toPeer) t

theorem Live.filled {q' : Query} (h : Live q) (hf : Filled q q') : Live q' := by
  rw [hf]
  exact h

end Query

/-! ## Runs -/

/-- A query with the addresses asked so far and the requests of both phases that are unanswered. -/
structure Session where
  query : Query
  asked : List Ipv4Peer
  awaited : List Ipv4Peer
  commits : List RequestParams

namespace Session

/-- What may happen to a query. -/
inductive Event where
  | addFromTable (t : RoutingTable)
  | addNodes (nodes : List (String × UInt16))
  | pollRequests (t : RoutingTable)
  | onResponse (i : Nat) (t : RoutingTable) (data : IoResponseData)
  | onTimeout (i : Nat) (t : RoutingTable)
  | onCommitDone (i : Nat)

def start (q : Query) : Session := ⟨q, [], [], []⟩

def absorb (s : Session) (r : List QueryRequest × Query) : Session :=
  ⟨r.2, s.asked ++ phase1 r.1, s.awaited ++ phase1 r.1, s.commits ++ Dht.commits r.1⟩

def step (s : Session) : Event → Session
  | .addFromTable t => { s with query := s.query.addFromTable t }
  | .addNodes nodes => { s with query := s.query.addNodes nodes }
  | .pollRequests t => s.absorb (s.query.pollRequests t)
  | .onResponse i t data =>
    if i < s.awaited.length then
      { s with awaited := s.awaited.eraseIdx i }.absorb (s.query.onResponse t data)
    else s
  | .onTimeout i t =>
    match s.awaited[i]? with
    | some toPeer => { s with awaited := s.awaited.eraseIdx i }.absorb (s.query.onTimeout t toPeer)
    | none => s
  | .onCommitDone i =>
    if i < s.commits.length then
      { s with commits := s.commits.eraseIdx i, query := s.query.onCommitDone.2 }
    else s

def Agrees (m : Nat) (s : Session) : Prop := Query.Sound m s.query s.asked s.awaited.length s.commits.length

variable {m : Nat} {s : Session}

theorem agrees_absorb {r : List QueryRequest × Query}
    (h : Query.Absorbed m s.asked s.awaited.length s.commits.length r) : Agrees m (s.absorb r) := by
  unfold Agrees absorb
  rw [length_append, length_append]
  exact h

theorem length_eraseIdx_succ {α : Type} {xs : List α} {i : Nat} (h : i < xs.length) :
    xs.length = (xs.eraseIdx i).length + 1 := by
  rw [length_eraseIdx_of_lt h]
  omega

section
variable (h : Agrees m s)
include h

theorem Agrees.erase_awaited {i : Nat} (hi : i < s.awaited.length) :
    Query.Sound m s.query s.asked ((s.awaited.eraseIdx i).length + 1) s.commits.length := by
  rw [← length_eraseIdx_succ hi]
  exact h

theorem Agrees.erase_commits {i : Nat} (hi : i < s.commits.length) :
    Query.Sound m s.query s.asked s.awaited.length ((s.commits.eraseIdx i).length + 1) := by
  rw [← length_eraseIdx_succ hi]
  exact h

theorem Agrees.step (e : Event) : Agrees m (s.step e) ∧ (1 ≤ m → s.query.Live → (s.step e).query.Live) := by
  cases e with
  | addFromTable t => exact ⟨Query.Sound.addFromTable h t, fun _ hl => hl.filled (Query.addFromTable_filled _ t)⟩
  | addNodes nodes => exact ⟨Query.Sound.addNodes h nodes, fun _ hl => hl.filled (Query.addNodes_filled _ nodes)⟩
  | pollRequests t => exact ⟨agrees_absorb (Query.Sound.readMore h t), fun hm _ => Query.readMore_live h hm t⟩
  | onResponse i t data =>
    unfold Session.step
    dsimp only
    split
    next hi =>
      obtain ⟨habsorbed, hlive⟩ := (h.erase_awaited hi).onResponse t data
      exact ⟨agrees_absorb habsorbed, fun hm _ => hlive hm⟩
    · exact ⟨h, fun _ => id⟩
  | onTimeout i t =>
    unfold Session.step
    dsimp only
    split
    next toPeer hget =>
      obtain ⟨hi, -⟩ := List.getElem?_eq_some_iff.mp hget
      obtain ⟨habsorbed, hlive⟩ := (h.erase_awaited hi).onTimeout t toPeer
      exact ⟨agrees_absorb habsorbed, fun hm _ => hlive hm⟩
    · exact ⟨h, fun _ => id⟩
  | onCommitDone i =>
    unfold Session.step
    dsimp only
    split
    next hi =>
      obtain ⟨hsound, hcommitting⟩ := (h.erase_commits hi).onCommitDone
      exact ⟨hsound, fun _ _ => .inl hcommitting⟩
    · exact ⟨h, fun _ => id⟩

theorem Agrees.outstanding (hl : s.query.Live) :
    s.query.finished = true ∨ s.awaited ≠ [] ∨ s.commits ≠ [] := by
  rcases hl with hc | hi
  · cases hf : s.query.finished with
    | true => exact .inl rfl
    | false =>
      have hpos := (h.phase.second hc).2 hf
      rw [h.commitInflight] at hpos
      exact .inr (.inr (ne_nil_of_length_pos hpos))
  · rw [h.inflight] at hi
    exact .inr (.inl (ne_nil_of_length_pos hi))

theorem Agrees.sent : s.query.sent.length = if s.query.finished then 1 else 0 := by
  split
  next hf =>
    exact (h.phase.closed hf).2.2
  next hf =>
    rw [(h.phase.unsent (Bool.eq_false_iff.mpr hf)).2]
    rfl

end

/-- **A query asks no address twice, counts its unanswered requests, never has more than its limit, always waits for an
answer until it is finished, and sends its result once, when it finishes. This holds after the first poll and every
later call, whatever was added before.** -/
theorem query_progress (id : Nat) (target : NodeId) (internal : Bool) (command : UInt64) (value : Option ByteVec)
    (concurrency : Nat) (commit : Bool) (ownId : NodeId) (hm : 1 ≤ concurrency) (fills : List Event) (t : RoutingTable)
    (es : List Event) :
    let s := run step (start (.new id target internal command value concurrency commit ownId))
      (fills ++ .pollRequests t :: es)
    s.asked.Nodup ∧
    s.query.inflight = s.awaited.length ∧
    s.query.inflight ≤ concurrency ∧
    (s.query.finished = true ∨ s.awaited ≠ [] ∨ s.commits ≠ []) ∧
    s.query.sent.length = if s.query.finished then 1 else 0 := by
  have hstart : Agrees concurrency (start (.new id target internal command value concurrency commit ownId)) :=
    Query.sound_new ..
  have hfills := run_invariant (fun _ e h => (h.step e).1) hstart fills
  rw [run_append]
  have hrun : ∀ s : Session, Agrees concurrency s → s.query.Live →
      Agrees concurrency (run step s es) ∧ (run step s es).query.Live := by
    intro s h hl
    exact run_invariant (I := fun s => Agrees concurrency s ∧ s.query.Live)
      (fun _ e h => ⟨(h.1.step e).1, (h.1.step e).2 hm h.2⟩) ⟨h, hl⟩ es
  obtain ⟨h, hl⟩ := hrun _ (hfills.step (.pollRequests t)).1 (Query.readMore_live hfills hm t)
  exact ⟨(nodup_append.mp h.nodup).1, h.inflight, h.room, h.outstanding hl, h.sent⟩

/-- One node is asked and times out: the query is finished. -/
theorem query_progress_timeout :
    let s := run step (start (.new 0 (.fill 0) true 2 none 10 false (.fill 0)))
      ([.addNodes [("10.0.0.1", 1)]] ++ .pollRequests (.new (.fill 0)) :: [.onTimeout 0 (.new (.fill 0))])
    s.asked.Nodup ∧ (s.query.finished = true ∨ s.awaited ≠ [] ∨ s.commits ≠ []) := by
  have h := query_progress 0 (.fill 0) true 2 none 10 false (.fill 0) (by decide) [.addNodes [("10.0.0.1", 1)]]
    (.new (.fill 0)) [.onTimeout 0 (.new (.fill 0))]
  exact ⟨h.1, h.2.2.2.1⟩

end Session
end Peeroxide.Dht
