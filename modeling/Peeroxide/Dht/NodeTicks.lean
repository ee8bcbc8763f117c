import Peeroxide.Dht.NodeSpec
import Peeroxide.Lib.Assoc

/-!
# Ticks in the table of the node

A node of the table was pinged no earlier than it was seen, and never in the future. A ping that may cost a node its
place was sent in a tick when the node had not been pinged before, so the tick it remembers has passed when the answer
comes.

Main result: `live_node_stays`.
-/

namespace Peeroxide.Dht
open Lib Option List
open RoutingTable hiding id
namespace DhtNode
variable {m node : Node} {res : IncomingResponse} {s : StandaloneRequest} {t : RoutingTable} {x : NodeId}

/-! ## The invariant -/

/-- A node that the table with the id `own` may hold at some tick. -/
structure Known (tick : Nat) (own : NodeId) (m : Node) : Prop where
  seen : m.seenTick ≤ m.pingedTick
  pinged : m.pingedTick ≤ tick
  other : m.id ≠ own

theorem Known.mono {tick tick' : Nat} {own : NodeId} (h : Known tick own m) (ht : tick ≤ tick') :
    Known tick' own m := ⟨h.seen, h.pinged.trans ht, h.other⟩

/-- What is remembered for the answer to a ping lies in the past. -/
def Sane (n : DhtNode) : StandaloneRequest → Prop
  | .ping => True
  | .userRequest => True
  | .check _ lastSeen => lastSeen < n.tick
  | .reping newNode old lastSeen =>
    n.bootstrapped = true ∧ Known n.tick n.table.id newNode ∧ old ≠ n.table.id ∧ lastSeen < n.tick

structure Ticks (n : DhtNode) : Prop where
  inv : n.table.Inv
  nodes : ∀ m ∈ n.table.nodes, Known n.tick n.table.id m
  events : ∀ evt ∈ n.table.pendingEvents, Known n.tick n.table.id evt.newNode
  standalone : ∀ tid s, n.standaloneTids.lookup tid = some s → Sane n s

variable {n n' : DhtNode}

theorem Sane.congr (h : Sane n s) (hid : n'.table.id = n.table.id) (htick : n.tick ≤ n'.tick)
    (hboot : n'.bootstrapped = n.bootstrapped) : Sane n' s := by
  cases s with
  | ping => trivial
  | userRequest => trivial
  | check id lastSeen => exact Nat.lt_of_lt_of_le h htick
  | reping newNode old lastSeen =>
    obtain ⟨hb, hk, hold, hlast⟩ := h
    refine ⟨hboot.trans hb, ?_, ?_, Nat.lt_of_lt_of_le hlast htick⟩
    · rw [hid]
      exact hk.mono htick
    · rw [hid]
      exact hold

section
variable (h : Ticks n)
include h

theorem Ticks.congr (htable : n'.table = n.table) (htick : n.tick ≤ n'.tick)
    (hboot : n'.bootstrapped = n.bootstrapped) (hs : n'.standaloneTids = n.standaloneTids) : Ticks n' where
  inv := htable ▸ h.inv
  nodes := by
    rw [htable]
    exact fun m hm => (h.nodes m hm).mono htick
  events := by
    rw [htable]
    exact fun evt hevt => (h.events evt hevt).mono htick
  standalone := by
    rw [hs]
    exact fun tid s hlookup => (h.standalone tid s hlookup).congr (by rw [htable]) htick hboot

theorem Ticks.note (hs : Sane n s) (tid : UInt16) (io : Io) :
    Ticks { n with io, standaloneTids := n.standaloneTids.insert tid s } where
  inv := h.inv
  nodes := h.nodes
  events := h.events
  standalone := by
    intro tid' s' hlookup
    rcases Assoc.lookup_insert_some hlookup with ⟨-, rfl⟩ | hlookup
    · exact hs.congr rfl (Nat.le_refl _) rfl
    · exact (h.standalone tid' s' hlookup).congr rfl (Nat.le_refl _) rfl

theorem Ticks.createStandalone (hs : Sane n s) (params : RequestParams) : Ticks (n.createStandalone params s).2 := by
  rcases createStandalone_cases n params s with ⟨tid, io, -, heq⟩ | ⟨io, -, heq⟩
  · rw [heq]
    exact h.note hs tid io
  · rw [heq]
    exact { h with }

/-- The table is changed in a way that keeps its id and lets in known nodes only. -/
theorem Ticks.table (hinv : t.Inv) (hid : t.id = n.table.id) (hnodes : ∀ m ∈ t.nodes, Known n.tick n.table.id m)
    (hevents : ∀ evt ∈ t.pendingEvents, Known n.tick n.table.id evt.newNode) : Ticks { n with table := t } where
  inv := hinv
  nodes := by
    rw [hid]
    exact hnodes
  events := by
    rw [hid]
    exact hevents
  standalone := fun tid s hlookup => (h.standalone tid s hlookup).congr hid (Nat.le_refl _) rfl

theorem Ticks.modify (id : NodeId) {f : Node → Node} (hf : Marks n.tick f) :
    Ticks { n with table := n.table.modify id f } := by
  obtain ⟨hid, -, hevents⟩ := modify_frame n.table id f
  refine h.table (h.inv.modify id hf.id) hid (fun m hm => ?_) (by rw [hevents]; exact h.events)
  rcases mem_modify h.inv hf.id hm with hold | ⟨k, hk, rfl⟩
  · exact h.nodes m hold
  · obtain ⟨hseen, hpinged, hother⟩ := h.nodes k hk
    refine ⟨?_, Nat.le_of_eq (hf.pinged k), by rw [hf.id]; exact hother⟩
    rw [hf.pinged]
    rcases hf.seen k with hs | hs
    · rw [hs]
      exact hseen.trans hpinged
    · exact Nat.le_of_eq hs

theorem Ticks.add (hnode : Known n.tick n.table.id node) : Ticks { n with table := (n.table.add node).2 } := by
  refine h.table (h.inv.add node) (add_frame h.inv node).1 (fun m hm => ?_) fun evt hevt => ?_
  · rcases mem_add h.inv hm with rfl | hm
    · exact hnode
    · exact h.nodes m hm
  · rcases mem_pendingEvents_add hevt with hevt | rfl
    · exact h.events evt hevt
    · exact hnode

theorem Ticks.remove (id : NodeId) : Ticks { n with table := (n.table.remove id).2 } := by
  obtain ⟨hid, hevents⟩ := remove_frame n.table id
  refine h.table (h.inv.remove id) hid (fun m hm => h.nodes m (mem_remove h.inv hm)) ?_
  rw [hevents]
  exact h.events

/-! ## Small steps and calls -/

theorem Ticks.check {mark : Node → Node} (hmark : Marks n.tick mark) (hm : m.seenTick < n.tick) :
    Ticks (n.check mark m) :=
  (h.modify m.id hmark).createStandalone (s := .check m.id m.seenTick) hm _

theorem Ticks.seen_lt (hm : m ∈ n.table.nodes) (hpinged : m.pingedTick < n.tick) :
    m.seenTick < n.tick := Nat.lt_of_le_of_lt (h.nodes m hm).seen hpinged

theorem Ticks.move (hmove : Move (Known n.tick n.table.id) n n') :
    Ticks n' ∧ n'.tick = n.tick ∧ n'.table.id = n.table.id := by
  cases hmove with
  | marked id f hf => exact ⟨h.modify id hf, rfl, (modify_frame ..).1⟩
  | added node hnode => exact ⟨h.add hnode, rfl, (add_frame h.inv node).1⟩
  | drained =>
    have hinv : n.table.drainEvents.2.Inv := { h.inv with }
    exact ⟨h.table hinv rfl h.nodes fun _ hevt => absurd hevt not_mem_nil, rfl, rfl⟩
  | reping old newNode hold hpinged hboot hnode =>
    have ht := h.modify old.id (marks_pinged n.tick)
    have hid := (modify_frame n.table old.id fun m => { m with pingedTick := n.tick }).1
    rcases sendReping_cases n old newNode with ⟨tid, io, -, heq⟩ | ⟨io, -, heq⟩
    · have hsane : Sane { n with table := n.table.modify old.id fun m => { m with pingedTick := n.tick } }
          (.reping newNode old.id old.seenTick) := by
        refine ⟨hboot, ?_, ?_, h.seen_lt hold hpinged⟩
        · rw [hid]
          exact hnode
        · rw [hid]
          exact (h.nodes old hold).other
      rw [heq]
      exact ⟨(ht.note hsane tid io).congr rfl (Nat.le_refl _) rfl rfl, rfl, hid⟩
    · rw [heq]
      exact ⟨{ ht with }, rfl, hid⟩

theorem Ticks.network (fromPeer : Ipv4Peer) (fromId : Option NodeId) :
    Ticks (n.addNodeFromNetwork fromPeer fromId) ∧ (n.addNodeFromNetwork fromPeer fromId).table.id = n.table.id := by
  have hmoves := addNodeFromNetwork_moves fromPeer fromId
    (fun node hid hseen hpinged => ⟨by omega, by omega, hid⟩) h.events
  have hinv : ∀ n₁ n₂, Move (Known n.tick n.table.id) n₁ n₂ →
      Ticks n₁ ∧ n₁.tick = n.tick ∧ n₁.table.id = n.table.id → Ticks n₂ ∧ n₂.tick = n.tick ∧ n₂.table.id = n.table.id := by
    rintro n₁ n₂ hmove ⟨h₁, htick, hid⟩
    rw [← htick, ← hid] at hmove ⊢
    exact h₁.move hmove
  obtain ⟨ht, -, hid⟩ := moves_invariant
    hinv hmoves ⟨h, rfl, rfl⟩
  exact ⟨ht, hid⟩

theorem Ticks.settled {tid : UInt16} (hlookup : n.standaloneTids.lookup tid = some s)
    (hs : Settled { n with standaloneTids := n.standaloneTids.erase tid } s n') : Ticks n' := by
  have hsane := h.standalone tid s hlookup
  have he : Ticks { n with standaloneTids := n.standaloneTids.erase tid } :=
    ⟨h.inv, h.nodes, h.events, fun tid' s' hl => (h.standalone tid' s' (Assoc.lookup_erase_some hl).2).congr rfl
      (Nat.le_refl _) rfl⟩
  cases hs with
  | ping | userRequest | kept => exact he
  | keptOld => exact { he with }
  | removed id => exact he.remove id
  | replaced newNode old lastSeen =>
    have hr := he.remove old
    have hknown : Known n.tick (n.table.remove old).2.id newNode := by
      rw [(remove_frame ..).1]
      exact hsane.2.1
    exact (hr.add hknown).congr rfl (Nat.le_refl _) rfl rfl

/-- Only before the end of the bootstrap does the table get a new id, and then nothing is pinged for its place. -/
theorem Ticks.removed (hr : Removed n n') : Ticks n' := by
  cases hr with
  | other => exact h
  | again => exact { h with }
  | bootstrapped hboot needsIdUpdate t ht =>
    have hsane : ∀ tid s, n.standaloneTids.lookup tid = some s →
        Sane { n with bootstrapQueryId := none, bootstrapped := true, needsIdUpdate, table := t } s := by
      intro tid s hlookup
      have hs := h.standalone tid s hlookup
      cases s with
      | ping => trivial
      | userRequest => trivial
      | check id lastSeen => exact hs
      | reping newNode old lastSeen =>
        have hb := hs.1
        rw [hboot] at hb
        cases hb
    rcases ht with rfl | ⟨x, rfl⟩
    · exact ⟨h.inv, h.nodes, h.events, hsane⟩
    · by_cases hx : n.table.id = x
      · have hsame : n.table.rebuildWithId x = n.table := if_pos hx
        rw [hsame] at hsane ⊢
        exact ⟨h.inv, h.nodes, h.events, hsane⟩
      · have hb := rebuilt_rebuildWithId h.inv hx
        refine ⟨hb.inv, fun m hm => ?_, fun evt hevt => ?_, hsane⟩
        · obtain ⟨hmem, hne⟩ := hb.kept m hm
          exact ⟨(h.nodes m hmem).seen, (h.nodes m hmem).pinged, by rw [hb.id_eq]; exact hne⟩
        · obtain ⟨hmem, hne⟩ := mem_pendingEvents_rebuildWithId hx hevt
          exact ⟨(h.nodes _ hmem).seen, (h.nodes _ hmem).pinged, by rw [hb.id_eq]; exact hne⟩

theorem Ticks.checks {ms : List Node} (hms : ∀ m ∈ ms, m.seenTick < n.tick) :
    Ticks (ms.foldl (fun n m => n.check (fun m => { m with pingedTick := n.tick }) m) n) := by
  induction ms generalizing n with
  | nil => exact h
  | cons m ms ih =>
    rw [foldl_cons]
    refine ih (h.check (marks_pinged n.tick) (hms m mem_cons_self)) fun k hk => ?_
    rw [check_outer]
    exact hms k (mem_cons_of_mem m hk)

theorem Ticks.viaSocket (target : Ipv4Peer) (accepted : Bool) :
    Ticks (n.handleCommand (.pingViaSocket target accepted)) := by
  unfold handleCommand
  dsimp only
  split
  · exact h.note (s := .ping) trivial _ _
  · exact { h with }

end

theorem ticks_unqueried : Unqueried Ticks where
  queries h _ _ _ _ _ _ := { h with }
  removed h hr := h.removed hr

theorem ticks_rule : Rule (fun _ => True) (fun _ => True) fun _ n => Ticks n where
  counters h _ _ _ _ _ := { h with }
  tick h hle := h.congr rfl hle rfl rfl
  drain h := { h with }
  relay h _ _ := { h with }
  request h hs := h.createStandalone (by rcases hs with rfl | rfl <;> trivial) _
  viaSocket h := h.viaSocket _ _
  insert h _ := ticks_unqueried.insertQuery h
  checks h hms := h.checks fun m hm => h.seen_lt (hms m hm).1 (hms m hm).2
  hint h hget hpinged := h.check (marks_hinted _)
    (h.seen_lt ((get_eq_some h.inv).mp hget).1 hpinged)
  network h _ fromPeer fromId := (h.network fromPeer fromId).1
  timeouts h := { h with }
  response h _ := { h with }
  call h _ _ := ticks_unqueried.queryCalled (ticks_unqueried.queries h ..) _ _
  commit h _ := ticks_unqueried.commitDone (ticks_unqueried.queries h ..) _
  settle h _ hlookup hs := h.settled hlookup hs
  unknown h _ _ := h

variable (config : DhtConfig) (resolved : List String) (tableId : NodeId) (localPort tid : UInt16)
variable (clock : Nat → Nat) (tieBreak : Nat)

theorem ticks_spawn : Ticks (spawn config resolved tableId localPort tid clock tieBreak) := by
  obtain ⟨x, hx⟩ : ∃ x, (spawn config resolved tableId localPort tid clock tieBreak).table = .new x := by
    unfold spawn
    dsimp only
    split
    · exact ⟨_, rebuildWithId_new ..⟩
    · exact ⟨_, rfl⟩
  refine ⟨?_, ?_, ?_, fun tid s hlookup => ?_⟩
  · rw [hx]
    exact inv_withK ..
  · rw [hx, RoutingTable.new, nodes_withK]
    exact fun _ hm => absurd hm not_mem_nil
  · rw [hx]
    exact fun _ hevt => absurd hevt not_mem_nil
  · cases hlookup

theorem ticks_run (es : List Event) : Ticks (reached config resolved tableId localPort tid clock tieBreak es) :=
  run_invariant (I := Ticks) (fun _ e h => ticks_rule.step h e (fun _ _ => trivial) fun _ => trivial)
    (ticks_unqueried.startBootstrap (ticks_spawn ..)) es

/-- **The table of a node is always well formed; neither it nor a candidate for a place names the node itself or is dated
later than now.** -/
theorem table_sound (es : List Event) : let n := reached config resolved tableId localPort tid clock tieBreak es
    n.table.Inv ∧ (∀ m ∈ n.table.nodes, Known n.tick n.table.id m) ∧
      ∀ tid m old seen, n.standaloneTids.lookup tid = some (.reping m old seen) →
        Known n.tick n.table.id m ∧ old ≠ n.table.id ∧ seen < n.tick := by
  intro n
  have h : Ticks n := ticks_run config resolved tableId localPort tid clock tieBreak es
  exact ⟨h.inv, h.nodes, fun tid m old seen hs => (h.standalone tid _ hs).2⟩

/-! ## Answers of live nodes -/

def pinged : StandaloneRequest → Option NodeId
  | .ping => none
  | .userRequest => none
  | .reping _ old _ => some old
  | .check id _ => some id

/-- The node takes a response as the answer to a request outside of queries: the request is looked up by its
transaction id, after the sender was noted and among the queries first. -/
def Answered (n : DhtNode) (res : IncomingResponse) (s : StandaloneRequest) : Prop :=
  (n.addNodeFromNetwork res.fromPeer res.id).tidToQuery.lookup res.tid = none ∧
    (n.addNodeFromNetwork res.fromPeer res.id).standaloneTids.lookup res.tid = some s

def answered (t : RoutingTable) : StandaloneRequest → RoutingTable
  | .ping => t
  | .userRequest => t
  | .reping newNode old lastSeen =>
    if ((t.get old).map fun m => decide (m.seenTick ≤ lastSeen)).getD true then ((t.remove old).2.add newNode).2 else t
  | .check id lastSeen =>
    if ((t.get id).map fun m => decide (m.seenTick ≤ lastSeen)).getD false then (t.remove id).2 else t

theorem handleStandaloneResponse_table (n : DhtNode) (s : StandaloneRequest) :
    (n.handleStandaloneResponse s).table = answered n.table s := by
  cases s with
  | ping => rfl
  | userRequest => rfl
  | reping newNode old lastSeen | check id lastSeen =>
    unfold handleStandaloneResponse answered
    dsimp only
    split <;> rfl

theorem handleResponse_table (h : Answered n res s) :
    (n.handleResponse res).table = answered (n.addNodeFromNetwork res.fromPeer res.id).table s := by
  obtain ⟨hquery, hlookup⟩ := h
  unfold handleResponse
  dsimp only
  split
  · unfold resolve
    rw [hquery, hlookup]
    exact handleStandaloneResponse_table _ s
  · unfold resolve
    rw [hquery, hlookup]
    exact handleStandaloneResponse_table _ s

theorem answered_of_seen (hs : Sane n s) (hp : pinged s = some x)
    (hget : n.table.get x = some m) (hseen : m.seenTick = n.tick) : answered n.table s = n.table := by
  cases s with
  | ping => rfl
  | userRequest => rfl
  | reping newNode old lastSeen =>
    cases hp
    have hlate : ¬m.seenTick ≤ lastSeen := by
      have := hs.2.2.2
      omega
    rw [answered, hget, map_some, decide_eq_false hlate, if_neg nofun]
  | check id lastSeen =>
    cases hp
    have hlate : ¬m.seenTick ≤ lastSeen := by
      have hlast : lastSeen < n.tick := hs
      omega
    rw [answered, hget, map_some, decide_eq_false hlate, if_neg nofun]

theorem repingEvents_sameIds (n : DhtNode) (events : List TableEvent) :
    RoutingTable.SameIds n.table (n.repingEvents events).table := by
  induction events generalizing n with
  | nil => exact .refl _
  | cons evt rest ih =>
    unfold repingEvents
    split
    · exact ih n
    next old hold =>
      split
      · exact .refl _
      · refine RoutingTable.SameIds.trans ?_ (ih _)
        have hsame := RoutingTable.SameIds.modify n.table old.id (marks_pinged n.tick).id
        rcases sendReping_cases n old evt.newNode with ⟨tid, io, -, heq⟩ | ⟨io, -, heq⟩
        · rw [heq]
          exact hsame
        · rw [heq]
          exact hsame

theorem handleBucketFull_sameIds (n : DhtNode) : RoutingTable.SameIds n.table n.handleBucketFull.table := by
  unfold handleBucketFull
  split
  · exact .refl _
  · have hdrained : RoutingTable.SameIds n.table n.table.drainEvents.2 := ⟨rfl, rfl, fun _ => rfl⟩
    exact hdrained.trans (repingEvents_sameIds { n with table := n.table.drainEvents.2 } _)

theorem network_of_some (h : Ticks n) (hget : n.table.get x = some m) (fromPeer : Ipv4Peer) :
    n.addNodeFromNetwork fromPeer (some x) =
      { n with table := n.table.modify x fun m => { m with seenTick := n.tick, pingedTick := n.tick } } := by
  obtain ⟨hmem, hid⟩ := (get_eq_some h.inv).mp hget
  unfold addNodeFromNetwork
  dsimp only
  rw [if_neg (hid ▸ (h.nodes m hmem).other), hget]

theorem network_of_none (hother : x ≠ n.table.id) (hget : n.table.get x = none) (fromPeer : Ipv4Peer) :
    ∃ node : Node, node.id = x ∧ node.seenTick = n.tick ∧
      (((n.table.add node).1 = true ∧ (n.addNodeFromNetwork fromPeer (some x)).table = (n.table.add node).2) ∨
      ((n.table.add node).1 = false ∧
        RoutingTable.SameIds (n.table.add node).2 (n.addNodeFromNetwork fromPeer (some x)).table)) := by
  refine ⟨⟨x, fromPeer.host, fromPeer.port, none, n.tick, n.tick, n.tick, 0⟩, rfl, rfl, ?_⟩
  unfold addNodeFromNetwork
  dsimp only
  rw [if_neg hother, hget]
  dsimp only
  split
  next hadd =>
    exact .inl ⟨hadd, rfl⟩
  next hadd =>
    rw [Bool.not_eq_true] at hadd
    exact .inr ⟨hadd, handleBucketFull_sameIds { n with table := (n.table.add _).2 }⟩

theorem isSome_get_add_of_full (h : t.Inv) (hfull : (t.buckets (t.bucketIndex node.id)).length = t.k) :
    ((t.add node).2.get node.id).isSome = (t.get node.id).isSome := by
  obtain ⟨l, old, r, hs, ⟨hroom, heq⟩ | ⟨-, -, heq⟩⟩ := add_cases h node
  · have hadd : (t.add node).1 = true := by rw [heq]
    rw [get_add_of_true h hadd, if_pos rfl, hs.get_eq h]
    cases old with
    | none => exact absurd (hroom rfl) (by omega)
    | some m => rfl
  · rw [heq]
    rfl

theorem sameIds_of_some (h : Ticks n)
    (hanswer : Answered n res s) (hid : res.id = some x) (hp : pinged s = some x) (hget : n.table.get x = some m) :
    RoutingTable.SameIds n.table (n.handleResponse res).table := by
  have hsane := (h.network res.fromPeer res.id).1.standalone _ s hanswer.2
  rw [handleResponse_table hanswer]
  rw [hid, network_of_some h hget] at hsane ⊢
  have hseen := (modify_spec h.inv (f := fun m => { m with seenTick := n.tick, pingedTick := n.tick }) x
    fun _ => rfl).2 x
  rw [if_pos rfl, hget] at hseen
  have hkept := answered_of_seen hsane hp hseen rfl
  rw [show answered (n.table.modify x _) s = n.table.modify x _ from hkept]
  exact .modify n.table x fun _ => rfl

theorem isSome_get_of_none (h : Ticks n) {newNode : Node} {lastSeen : Nat}
    (hanswer : Answered n res (.reping newNode x lastSeen)) (hid : res.id = some x) (hget : n.table.get x = none)
    (hne : newNode.id ≠ x) (hbucket : n.table.bucketIndex newNode.id = n.table.bucketIndex x) :
    ((n.handleResponse res).table.get newNode.id).isSome = (n.table.get newNode.id).isSome := by
  obtain ⟨hticks, hown⟩ := h.network res.fromPeer res.id
  have hsane := hticks.standalone _ _ hanswer.2
  have hinv := hticks.inv
  have htick : (n.addNodeFromNetwork res.fromPeer res.id).tick = n.tick := by
    rw [addNodeFromNetwork_outer]
  have hother : x ≠ n.table.id := by
    rw [← hown]
    exact hsane.2.2.1
  rw [handleResponse_table hanswer]
  rw [hid] at hsane hinv htick ⊢
  obtain ⟨node, rfl, hseen, ⟨hadd, htable⟩ | ⟨hadd, hsame⟩⟩ := network_of_none hother hget res.fromPeer
  · have hnow := get_add_of_true h.inv hadd node.id
    rw [if_pos rfl, ← htable] at hnow
    rw [answered_of_seen hsane rfl hnow (hseen.trans htick.symm), htable, get_add_of_true h.inv hadd,
      if_neg hne]
  · obtain ⟨-, hfull, htable⟩ := add_of_false h.inv hadd
    have hadded : RoutingTable.SameIds n.table (n.table.add node).2 := by
      rw [htable]
      exact ⟨rfl, rfl, fun _ => rfl⟩
    replace hsame := hadded.trans hsame
    have hnone : (n.addNodeFromNetwork res.fromPeer (some node.id)).table.get node.id = none := by
      rw [← isNone_iff_eq_none, ← not_isSome, hsame.isSome_get h.inv hinv, hget]
      rfl
    rw [answered, hnone, map_none, getD_none, if_pos rfl]
    rw [remove_of_none hinv hnone, isSome_get_add_of_full hinv, hsame.isSome_get h.inv hinv]
    rw [hsame.bucketIndex, hsame.length, hsame.k, hbucket]
    exact hfull

/-- **A live node is not evicted by its own answer.** When a response that carries the validated id of a node is the
answer to the ping that was sent to check this node, or to give its place to a new one, then the node stays in the table
if it was there; and a new node that would take its place is in the table afterwards only if it was before. -/
theorem live_node_stays (config : DhtConfig) (resolved : List String) (tableId : NodeId) (localPort tid : UInt16)
    (clock : Nat → Nat) (tieBreak : Nat) (es : List Event) (data : Bytes) (addr : SocketAddr) (kind : SocketKind)
    (tokenValid : Bool) (res : IncomingResponse) (s : StandaloneRequest) (x : NodeId) :
    let n := reached config resolved tableId localPort tid clock tieBreak es
    let r := n.io.processDatagram data addr kind tokenValid
    let n' := n.receive data addr kind tokenValid
    r.1 = some (.response res) → Answered { n with io := r.2 } res s → res.id = some x → pinged s = some x →
    ((n.table.get x).isSome → (n'.table.get x).isSome) ∧
    ∀ newNode lastSeen, s = .reping newNode x lastSeen → newNode.id ≠ x →
      (n.table.get x).isSome ∨ n.table.bucketIndex newNode.id = n.table.bucketIndex x →
      (n'.table.get newNode.id).isSome = (n.table.get newNode.id).isSome := by
  intro n r n' hr hanswer hid hp
  have h : Ticks n := ticks_run config resolved tableId localPort tid clock tieBreak es
  have h₀ : Ticks { n with io := r.2 } := { h with }
  have h' : Ticks n' := ticks_rule.receive h (fun _ => trivial) data addr kind tokenValid
  have hn' : n' = { n with io := r.2 }.handleResponse res := by
    show n.receive data addr kind tokenValid = _
    unfold receive
    rw [show n.io.processDatagram data addr kind tokenValid = (some (.response res), r.2) from Prod.ext hr rfl]
    rfl
  cases hget : n.table.get x with
  | some m =>
    have hsame : RoutingTable.SameIds n.table n'.table := by
      rw [hn']
      exact sameIds_of_some h₀ hanswer hid hp hget
    refine ⟨fun _ => ?_, fun newNode _ _ _ _ => hsame.isSome_get h.inv h'.inv newNode.id⟩
    rw [hsame.isSome_get h.inv h'.inv, hget]
    rfl
  | none =>
    refine ⟨fun hsome => (nomatch hsome), fun newNode lastSeen hs hne hplace => ?_⟩
    subst hs
    rw [hn']
    exact isSome_get_of_none h₀ hanswer hid hget hne (hplace.resolve_left nofun)

def hostAt (d : UInt8) : String := String.ofList (dotted [10, 0, 0, d])

theorem ipv4Host_hostAt (d : UInt8) : Ipv4Host (hostAt d) := ⟨[10, 0, 0, d], rfl, rfl⟩

/-- A ping from port 1 of an address, with the id of the sender. -/
def hello (d : UInt8) : Event :=
  .datagram (requestBytes ⟨0, ⟨hostAt 0, 1⟩, some (peerId (hostAt d) 1), none, true, CMD_PING, none, none⟩)
    (.v4 10 0 0 d 1) .server true

/-- A node is heard of, checked in the eighth tick, and answers: it stays. -/
theorem live_node_stays_checked : let x := peerId (hostAt 1) 1
    let n := reached ⟨[], 0, "0.0.0.0", none, false, 10, 80⟩ [] (.fill 0) 1 0 (fun _ => 0) 0
      (hello 1 :: List.replicate 8 (.tick 0 0))
    let n' := n.receive (responseBytes ⟨0, ⟨hostAt 0, 1⟩, some x, none, [], 0, none⟩) (.v4 10 0 0 1 1) .server true
    (n.table.get x).isSome ∧ (n'.table.get x).isSome := by
  intro x n n'
  let r := n.io.processDatagram (responseBytes ⟨0, ⟨hostAt 0, 1⟩, some x, none, [], 0, none⟩) (.v4 10 0 0 1 1) .server true
  let res : IncomingResponse := ⟨0, ⟨hostAt 1, 1⟩, ⟨hostAt 0, 1⟩, some x, none, [], 0, none, 0⟩
  let n₁ := ({ n with io := r.2 } : DhtNode).addNodeFromNetwork ⟨hostAt 1, 1⟩ (some x)
  have hfacts : r.1 = some (.response res) ∧ n₁.tidToQuery.lookup 0 = none ∧
      n₁.standaloneTids.lookup 0 = some (.check x 0) ∧ (n.table.get x).isSome = true := by
    decide +kernel
  obtain ⟨hr, hquery, hlookup, hsome⟩ := hfacts
  have h := live_node_stays ⟨[], 0, "0.0.0.0", none, false, 10, 80⟩ [] (.fill 0) 1 0 (fun _ => 0) 0
    (hello 1 :: List.replicate 8 (.tick 0 0)) _ (.v4 10 0 0 1 1) .server true res (.check x 0) x hr
    ⟨hquery, hlookup⟩ rfl rfl
  exact ⟨hsome, h.1 hsome⟩

end DhtNode
end Peeroxide.Dht
