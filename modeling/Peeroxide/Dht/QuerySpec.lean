import Peeroxide.Dht.Query

/-!
# What the calls of a query do

Each part of a call is described once, by an equation for the fields it writes or by a rule that carries an invariant
through it. The runs of a query and the node that drives it use these only.
-/

namespace Peeroxide.Dht
open Lib List
variable {rs : List QueryRequest}

def phase1 (rs : List QueryRequest) : List Ipv4Peer :=
  rs.filterMap fun
    | .query params => some params.toPeer
    | _ => none

def commits (rs : List QueryRequest) : List RequestParams :=
  rs.filterMap fun
    | .commit params => some params
    | _ => none

@[simp] theorem phase1_nil : phase1 [] = [] := rfl
@[simp] theorem commits_nil : commits [] = [] := rfl

@[simp] theorem phase1_append (rs rs' : List QueryRequest) : phase1 (rs ++ rs') = phase1 rs ++ phase1 rs' :=
  filterMap_append

@[simp] theorem commits_append (rs rs' : List QueryRequest) : commits (rs ++ rs') = commits rs ++ commits rs' :=
  filterMap_append

variable (ps : List RequestParams) (params : RequestParams)

@[simp] theorem phase1_query (rs : List QueryRequest) :
    phase1 (.query params :: rs) = params.toPeer :: phase1 rs := rfl

@[simp] theorem phase1_map_commit : phase1 (ps.map .commit) = [] := by
  simp [phase1, filterMap_map]

@[simp] theorem commits_map_commit : commits (ps.map .commit) = ps := by
  simp [commits, filterMap_map]

def Hints (rs : List QueryRequest) : Prop := ∀ r ∈ rs, ∃ params, r = .downHint params

theorem Hints.phase1 (h : Hints rs) : phase1 rs = [] := by
  rw [Dht.phase1, filterMap_eq_nil_iff]
  intro r hr
  obtain ⟨params, rfl⟩ := h r hr
  rfl

theorem Hints.commits (h : Hints rs) : commits rs = [] := by
  rw [Dht.commits, filterMap_eq_nil_iff]
  intro r hr
  obtain ⟨params, rfl⟩ := h r hr
  rfl

theorem Hints.append {rs' : List QueryRequest} (h : Hints rs) (h' : Hints rs') : Hints (rs ++ rs') :=
  fun r hr => (mem_append.mp hr).elim (h r) (h' r)

namespace Query
variable {q : Query} {t : RoutingTable}

theorem makeDownHint_hint {referrer down : Ipv4Peer} {r : QueryRequest} (h : makeDownHint referrer down = some r) :
    ∃ params, r = .downHint params := by
  obtain ⟨value, -, rfl⟩ := Option.map_eq_some_iff.mp h
  exact ⟨_, rfl⟩

/-! ## Filling the pending list -/

def Filled (q q' : Query) : Prop :=
  q' = { q with seen := q'.seen, pending := q'.pending, fromTable := q'.fromTable }

theorem Filled.refl (q : Query) : Filled q q := rfl

theorem Filled.trans {q' q'' : Query} (h : Filled q q') (h' : Filled q' q'') : Filled q q'' := by
  rw [Filled, h', h]

section
variable (q : Query) (node : QueryNode) (referrer : Option Ipv4Peer)

theorem addPendingReturning_cases :
    (q.addPendingReturning node referrer).2.2 = q ∨
    (∃ refs, (q.seen node.peer).isSome ∧ (q.addPendingReturning node referrer).2.2 =
      q.setSeen node.peer (.pending refs)) ∨
    (∃ refs, q.seen node.peer = none ∧ (q.addPendingReturning node referrer).2.2 =
      { q.setSeen node.peer (.pending refs) with pending := node :: q.pending }) := by
  unfold addPendingReturning
  cases hs : q.seen node.peer with
  | none =>
    dsimp only
    split
    · exact .inl rfl
    · exact .inr (.inr ⟨_, rfl, rfl⟩)
  | some state =>
    cases state with
    | done | down => exact .inl rfl
    | pending refs =>
      cases referrer with
      | none => exact .inl rfl
      | some r => exact .inr (.inl ⟨_, rfl, rfl⟩)

theorem addPendingReturning_filled :
    Filled q (q.addPendingReturning node referrer).2.2 := by
  rcases addPendingReturning_cases q node referrer with h | ⟨_, -, h⟩ | ⟨_, -, h⟩ <;> rw [h] <;> rfl

theorem addPendingReturning_hints :
    Hints (q.addPendingReturning node referrer).2.1.toList := by
  intro r hr
  rw [Option.mem_toList] at hr
  unfold addPendingReturning at hr
  dsimp only at hr
  split at hr
  · cases hr
  · obtain ⟨ref, -, hhint⟩ := Option.bind_eq_some_iff.mp hr
    exact makeDownHint_hint hhint
  · split at hr <;> cases hr
  · split at hr <;> cases hr

end

section rules
variable {I : Query → Prop} (hadd : ∀ q node referrer, I q → I (q.addPendingReturning node referrer).2.2)
variable {q : Query}
include hadd

theorem addNodes_rule (h : I q) (nodes : List (String × UInt16)) : I (q.addNodes nodes) := by
  unfold addNodes
  induction nodes generalizing q with
  | nil => exact h
  | cons node rest ih =>
    rw [foldl_cons]
    dsimp only
    split
    · exact ih h
    · exact ih (hadd _ _ _ h)

theorem addCloser_rule (h : I q) (referrer : Ipv4Peer) (nodes : List Ipv4Peer) :
    I (q.addCloser referrer nodes).2 := by
  induction nodes generalizing q with
  | nil => exact h
  | cons node rest ih =>
    unfold addCloser
    split
    · exact ih h
    · dsimp only
      split
      · exact hadd _ _ _ h
      · exact ih (hadd _ _ _ h)

theorem addAll_rule (h : I q) (nodes : List Node) :
    I (nodes.foldl (fun q n => q.addPending ⟨n.id, n.host, n.port⟩) q) :=
  nodes.foldlRecOn _ h fun _ h _ _ => hadd _ _ _ h

theorem addFromTable_rule (hfrom : ∀ q, I q → I { q with fromTable := true }) (h : I q)
    (t : RoutingTable) : I (q.addFromTable t) := by
  unfold addFromTable
  split
  · exact h
  · exact addAll_rule hadd (hfrom q h) _

end rules

theorem addNodes_filled (q : Query) (nodes : List (String × UInt16)) : Filled q (q.addNodes nodes) :=
  addNodes_rule (fun q' _ _ h => h.trans (addPendingReturning_filled q' _ _)) (.refl q) nodes

theorem addCloser_filled (q : Query) (referrer : Ipv4Peer) (nodes : List Ipv4Peer) :
    Filled q (q.addCloser referrer nodes).2 :=
  addCloser_rule (fun q' _ _ h => h.trans (addPendingReturning_filled q' _ _)) (.refl q) referrer nodes

theorem addFromTable_filled (q : Query) (t : RoutingTable) : Filled q (q.addFromTable t) :=
  addFromTable_rule (fun q' _ _ h => h.trans (addPendingReturning_filled q' _ _))
    (fun _ h => h.trans rfl) (.refl q) t

theorem addCloser_hints (q : Query) (referrer : Ipv4Peer) (nodes : List Ipv4Peer) :
    Hints (q.addCloser referrer nodes).1 := by
  induction nodes generalizing q with
  | nil => exact fun _ h => absurd h not_mem_nil
  | cons node rest ih =>
    unfold addCloser
    split
    · exact ih q
    · dsimp only
      split
      · exact addPendingReturning_hints _ _ _
      · exact (addPendingReturning_hints _ _ _).append (ih _)

theorem addFromTable_fromTable (hroom : q.pending.length < q.k) : (q.addFromTable t).fromTable = true := by
  unfold addFromTable
  rw [if_neg (by omega)]
  refine addAll_rule (I := fun q => q.fromTable = true) (fun q node referrer h => ?_) rfl _
  rcases addPendingReturning_cases q node referrer with h' | ⟨_, -, h'⟩ | ⟨_, -, h'⟩ <;> rw [h'] <;> exact h

/-! ## Issuing -/

/-- What `issue` does to a query: some of the popped nodes are asked, and either all are popped or the limit is
reached. -/
structure Issued (q : Query) (limit : Nat) (ps : List QueryNode) (r : List QueryRequest × Query) : Prop where
  query : r.2 = { q with pending := r.2.pending, inflight := q.inflight + (phase1 r.1).length }
  commits : Dht.commits r.1 = []
  asked : (phase1 r.1 ++ r.2.pending.map QueryNode.peer).Sublist (ps.map QueryNode.peer)
  below : r.2.inflight ≤ max limit q.inflight
  stopped : r.2.pending = [] ∨ limit ≤ r.2.inflight

theorem issue_issued (q : Query) (limit : Nat) (ps : List QueryNode) : Issued q limit ps (q.issue limit ps) := by
  induction ps generalizing q with
  | nil => exact ⟨rfl, rfl, .refl _, le_max_right _ _, .inl rfl⟩
  | cons next rest ih =>
    unfold issue
    split
    next hroom =>
      split
      · have h := ih { q with inflight := q.inflight + 1 }
        refine ⟨?_, h.commits, ?_, ?_, h.stopped⟩
        · rw [h.query]
          simp only [phase1_query, length_cons]
          congr 1
          omega
        · exact h.asked.cons_cons _
        · have := h.below
          dsimp only at this ⊢
          omega
      · have h := ih q
        exact { h with asked := h.asked.cons _ }
    · exact ⟨rfl, rfl, .refl _, le_max_right _ _, .inr (by dsimp only; omega)⟩

theorem effectiveConcurrency_le (q : Query) : q.effectiveConcurrency ≤ q.concurrency := by
  unfold effectiveConcurrency
  split
  · exact min_le_right _ _
  · exact le_rfl

theorem effectiveConcurrency_pos (h : 1 ≤ q.concurrency) : 1 ≤ q.effectiveConcurrency := by
  unfold effectiveConcurrency
  split
  · exact le_min (by decide) h
  · exact h

/-! ## The end of the first phase -/

theorem flush_cases (hc : q.committing = false) : (∃ n, (n = 0 ∨ n = q.commitInflight) ∧
      q.flush = ([], finishInternal { q with committing := true, commitInflight := n })) ∨
    (q.commitRequests ≠ [] ∧ q.flush = (q.commitRequests.map .commit,
      { q with committing := true, commitInflight := q.commitRequests.length })) := by
  unfold flush
  rw [hc, if_neg (by decide)]
  dsimp only
  split
  · exact .inl ⟨_, .inr rfl, rfl⟩
  · split
    next hnone =>
      exact .inl ⟨0, .inl rfl, by rw [hnone]⟩
    next hsome =>
      exact .inr ⟨fun h => hsome (by rw [commitRequests] at h ⊢; rw [← length_eq_zero_iff] at h; exact h), rfl⟩

/-! ## Reading more -/

/-- What one round ends with, once the requests are issued: requests in flight, the end of the first phase with nothing
pending, or another round with what the table has. -/
inductive RoundEnd (again : Query → List QueryRequest × Query) (t : RoutingTable) (q : Query) :
    List QueryRequest × Query → Prop
  | waiting (h : q.pending ≠ [] ∨ q.inflight ≠ 0) : RoundEnd again t q ([], q)
  | flushed (hp : q.pending = []) (hi : q.inflight = 0) : RoundEnd again t q q.flush
  | tableFlushed (hp : q.pending = []) (hi : q.inflight = 0) (hf : (q.addFromTable t).pending = []) :
      RoundEnd again t q (q.addFromTable t).flush
  | round (hp : q.pending = []) (hi : q.inflight = 0) (hf : q.fromTable = false) :
      RoundEnd again t q (again (q.addFromTable t))

variable (again : Query → List QueryRequest × Query)

theorem drained_cases (t : RoutingTable) (q : Query) : RoundEnd again t q (drained again t q) := by
  unfold drained
  split
  next hp =>
    exact .waiting (.inl (by simpa using hp))
  next hp =>
    have hnil : q.pending = [] := by simpa using hp
    split
    next hi =>
      split
      next htable =>
        rw [Bool.and_eq_true, Bool.not_eq_true'] at htable
        dsimp only
        split
        · exact .round hnil hi htable.1
        next hfilled =>
          exact .tableFlushed hnil hi (by simpa using hfilled)
      · exact .flushed hnil hi
    next hi =>
      exact .waiting (.inr hi)

theorem readMoreWith_cases (t : RoutingTable) (hf : q.finished = false) (hc : q.committing = false) :
    ∃ rs q₁ slowdown, Issued q q.effectiveConcurrency q.pending (rs, q₁) ∧
      readMoreWith again t q = (rs ++ (drained again t { q₁ with slowdown := slowdown }).1,
        (drained again t { q₁ with slowdown := slowdown }).2) := by
  refine ⟨(q.issue q.effectiveConcurrency q.pending).1, (q.issue q.effectiveConcurrency q.pending).2, ?_⟩
  unfold readMoreWith
  rw [hf, hc, if_neg (by decide)]
  dsimp only
  split
  · exact ⟨true, issue_issued .., rfl⟩
  · exact ⟨(q.issue q.effectiveConcurrency q.pending).2.slowdown, issue_issued .., rfl⟩

theorem readMore_rule {R : Query → List QueryRequest → Query → Prop} (hrefl : ∀ q, R q [] q)
    (htrans : ∀ q rs q' rs' q'', R q rs q' → R q' rs' q'' → R q (rs ++ rs') q'')
    (hissue : ∀ q rs q', q.finished = false → q.committing = false →
      Issued q q.effectiveConcurrency q.pending (rs, q') → R q rs q')
    (hslow : ∀ q slowdown, R q [] { q with slowdown := slowdown })
    (htable : ∀ q, R q [] (q.addFromTable t))
    (hflush : ∀ q, q.committing = false → q.inflight = 0 → R q q.flush.1 q.flush.2) (q : Query) :
    R q (readMore t q).1 (readMore t q).2 := by
  have hround : ∀ again : Query → List QueryRequest × Query, (∀ q, R q (again q).1 (again q).2) →
      ∀ q, R q (readMoreWith again t q).1 (readMoreWith again t q).2 := by
    intro again hagain q
    cases hf : q.finished with
    | true =>
      unfold readMoreWith
      rw [hf, Bool.true_or]
      exact hrefl q
    | false =>
    cases hc : q.committing with
    | true =>
      unfold readMoreWith
      rw [hc, Bool.or_true]
      exact hrefl q
    | false =>
      obtain ⟨rs, q₁, slowdown, hissued, heq⟩ := readMoreWith_cases again t hf hc
      rw [heq]
      refine htrans _ _ _ _ _ (hissue q rs q₁ hf hc hissued) ?_
      have hkept : q₁.committing = q.committing := by
        rw [show q₁ = _ from hissued.query]
      have hc₁ : ({ q₁ with slowdown := slowdown } : Query).committing = false := hkept.trans hc
      have hs := hslow q₁ slowdown
      revert hc₁ hs
      generalize ({ q₁ with slowdown := slowdown } : Query) = q₂
      intro hc₂ hs
      have hf₂ := addFromTable_filled q₂ t
      have hend := drained_cases again t q₂
      generalize drained again t q₂ = r at hend
      cases hend with
      | waiting => exact htrans _ _ _ _ _ hs (hrefl q₂)
      | flushed _ hi => exact htrans _ _ _ _ _ hs (hflush q₂ hc₂ hi)
      | tableFlushed _ hi =>
        refine htrans _ _ _ _ _ hs (htrans _ [] _ _ _ (htable q₂) (hflush _ ?_ ?_))
        · rw [hf₂]
          exact hc₂
        · rw [hf₂]
          exact hi
      | round => exact htrans _ _ _ _ _ hs (htrans _ [] _ _ _ (htable q₂) (hagain _))
  exact hround _ (hround _ hrefl) q

theorem readMore_idle (hf : q.finished = false) (hc : q.committing = false) (hp : q.pending = [])
    (hi : q.inflight = 0) (hfrom : q.fromTable = true) (t : RoutingTable) : readMore t q = q.flush := by
  have hissue : q.issue q.effectiveConcurrency q.pending = ([], q) := by
    rw [hp]
    refine Prod.ext rfl ?_
    show ({ q with pending := [] } : Query) = q
    rw [← hp]
  have hslow : ¬(!q.fromTable && q.successes == 0 && q.errors == 0) = true := by
    rw [hfrom]
    exact nofun
  have htable : ¬(!q.fromTable && decide (q.successes < UInt32.ofNat q.k / 4)) = true := by
    rw [hfrom]
    exact nofun
  have hdrained : ∀ again, drained again t q = q.flush := by
    intro again
    unfold drained
    rw [if_neg (by rw [hp]; decide), if_pos hi, if_neg htable]
  unfold readMore
  rw [readMoreWith, if_neg (by rw [hf, hc]; decide)]
  rw [hissue]
  dsimp only
  rw [if_neg hslow, hdrained, nil_append]

/-- As long as there is room for replies, what is pending is asked or stays. -/
theorem issue_waits {limit : Nat} {ps : List QueryNode} (hroom : q.closestReplies.length < q.k)
    (hps : ps ≠ []) : (q.issue limit ps).2.pending ≠ [] ∨ (q.issue limit ps).2.inflight ≠ 0 := by
  cases ps with
  | nil => exact absurd rfl hps
  | cons next rest =>
    have hcloser : q.isCloser next.id = true := if_pos hroom
    rw [issue]
    split
    · have hq := (issue_issued { q with inflight := q.inflight + 1 } limit rest).query
      rw [hq]
      dsimp only
      omega
    · left
      exact cons_ne_nil _ _

theorem readMore_waits (hf : q.finished = false) (hc : q.committing = false)
    (hroom : q.closestReplies.length < q.k) (hp : q.pending ≠ []) (t : RoutingTable) :
    (readMore t q).2.finished = false := by
  have hwait := @issue_waits q q.effectiveConcurrency q.pending hroom hp
  have hq := (issue_issued q q.effectiveConcurrency q.pending).query
  have hkept : (q.issue q.effectiveConcurrency q.pending).2.finished = false := by
    rw [hq]
    exact hf
  have hdrained : ∀ again (q₁ : Query), q₁.pending ≠ [] ∨ q₁.inflight ≠ 0 → drained again t q₁ = ([], q₁) := by
    intro again q₁ h
    unfold drained
    split
    · rfl
    next hnil =>
      rw [Bool.not_eq_true, Bool.not_eq_false', List.isEmpty_iff] at hnil
      rw [if_neg (h.resolve_left (not_not_intro hnil))]
  unfold readMore readMoreWith
  rw [hf, hc, if_neg (by decide)]
  dsimp only
  generalize q.issue q.effectiveConcurrency q.pending = r at hwait hkept
  split
  · rw [hdrained _ { r.2 with slowdown := true } hwait]
    exact hkept
  · rw [hdrained _ r.2 hwait]
    exact hkept

/-! ## The calls -/

theorem pushClosest_eq (q : Query) (reply : QueryReply) :
    q.pushClosest reply = { q with closestReplies := (q.pushClosest reply).closestReplies } := by
  unfold pushClosest
  split
  · rfl
  · rfl

theorem takeReply_eq (q : Query) (data : IoResponseData) : q.takeReply data = { q with
      successes := (q.takeReply data).successes
      errors := (q.takeReply data).errors
      closestReplies := (q.takeReply data).closestReplies } := by
  unfold takeReply
  split
  · dsimp only
    split
    · split
      · rw [pushClosest_eq]
      · rfl
    · rfl
  · rfl

/-- A query that counts one request less, its address noted. -/
def settled (q : Query) (peer : Ipv4Peer) (s : SeenState) : Query := { q.setSeen peer s with inflight := q.inflight - 1 }

/-- What a response before the second phase does first: the reply is taken and the suggested nodes are added. -/
def heard (q : Query) (data : IoResponseData) : List QueryRequest × Query :=
  ((q.settled data.fromPeer .done).takeReply data).addCloser data.fromPeer data.closerNodes

theorem onResponse_eq (hc : q.committing = false) (t : RoutingTable) (data : IoResponseData) :
    ∃ slowdown, q.onResponse t data =
      ((q.heard data).1 ++ (readMore t { (q.heard data).2 with slowdown := slowdown }).1,
        (readMore t { (q.heard data).2 with slowdown := slowdown }).2) := by
  have hc' : (({ q with inflight := q.inflight - 1 } : Query).setSeen data.fromPeer .done).committing = false := hc
  unfold onResponse
  dsimp only
  rw [hc', if_neg (by decide)]
  split
  · exact ⟨false, rfl⟩
  · exact ⟨(q.heard data).2.slowdown, rfl⟩

/-- What a timeout does first: the referrers are told, and the node is noted as down. -/
def missed (q : Query) (toPeer : Ipv4Peer) : List QueryRequest × Query :=
  ((q.referrers toPeer).filterMap (makeDownHint · toPeer), { q.settled toPeer .down with errors := q.errors + 1 })

theorem missed_hints (q : Query) (toPeer : Ipv4Peer) : Hints (q.missed toPeer).1 := by
  intro r hr
  obtain ⟨referrer, -, hhint⟩ := mem_filterMap.mp hr
  exact makeDownHint_hint hhint

theorem onTimeout_eq (hc : q.committing = false) (t : RoutingTable) (toPeer : Ipv4Peer) :
    q.onTimeout t toPeer = ((q.missed toPeer).1 ++ (readMore t (q.missed toPeer).2).1,
      (readMore t (q.missed toPeer).2).2) := by
  have hc' : (!q.committing) = true := by
    rw [hc]
    rfl
  exact if_pos hc'

theorem onTimeout_committing (hc : q.committing = true) (t : RoutingTable) (toPeer : Ipv4Peer) :
    q.onTimeout t toPeer = q.missed toPeer := by
  have hc' : ¬(!q.committing) = true := by
    rw [hc]
    decide
  exact if_neg hc'

end Query
end Peeroxide.Dht
