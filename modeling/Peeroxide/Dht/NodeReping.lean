import Peeroxide.Dht.NodeTicks

/-!
# Challenges to old nodes

When a node finds no room, the oldest one near it is pinged and may lose its place. At most `MAX_REPINGING` such pings
should be under way. The limit is tested once, and then every node that has found no room since is handled.

Main results: `repings_bounded`, `repings_exceed_limit`.
-/

namespace Peeroxide.Dht
open Lib List
namespace DhtNode

/-! ## The pings under way -/

def isReping : StandaloneRequest → Bool
  | .reping .. => true
  | _ => false

def outstanding (n : DhtNode) : Nat := n.standaloneTids.entries.countP fun entry => isReping entry.2

/-- The counter covers the pings under way, and is within the limit. -/
structure Counted (n : DhtNode) : Prop where
  covered : n.outstanding ≤ n.repinging
  limit : n.repinging ≤ MAX_REPINGING

/-- There is room for a ping for every node that found no room, and for one more. -/
def FewWaiting (n : DhtNode) : Prop :=
  n.bootstrapped = false ∨ MAX_REPINGING ≤ n.repinging ∨
    n.table.pendingEvents.length + 1 + n.repinging ≤ MAX_REPINGING

instance (n : DhtNode) : Decidable (FewWaiting n) := inferInstanceAs (Decidable (_ ∨ _ ∨ _))

variable {n n' : DhtNode}

theorem Counted.congr (h : Counted n) (hs : n'.standaloneTids = n.standaloneTids) (hr : n'.repinging = n.repinging) :
    Counted n' := by
  obtain ⟨hcovered, hlimit⟩ := h
  refine ⟨?_, ?_⟩
  · rw [outstanding, hs, hr]
    exact hcovered
  · rw [hr]
    exact hlimit

theorem outstanding_insert_le (standaloneTids : AList fun _ : UInt16 => StandaloneRequest) (tid : UInt16)
    (s : StandaloneRequest) : outstanding { n with standaloneTids := standaloneTids.insert tid s } ≤
      outstanding { n with standaloneTids } + if isReping s then 1 else 0 :=
  Assoc.countP_insert_le _

theorem Counted.createStandalone (h : Counted n) {s : StandaloneRequest} (hs : isReping s = false)
    (params : RequestParams) : Counted (n.createStandalone params s).2 := by
  rcases createStandalone_cases n params s with ⟨tid, io, -, heq⟩ | ⟨io, -, heq⟩
  · rw [heq]
    have hle := outstanding_insert_le (n := { n with io }) n.standaloneTids tid s
    rw [hs] at hle
    exact ⟨hle.trans h.covered, h.limit⟩
  · rw [heq]
    exact h.congr rfl rfl

theorem Counted.check (h : Counted n) (mark : Node → Node) (m : Node) : Counted (n.check mark m) :=
  Counted.createStandalone (n := { n with table := n.table.modify m.id mark }) (h.congr rfl rfl) rfl _

theorem repingEvents_le (h : n.outstanding ≤ n.repinging) (events : List TableEvent) :
    (n.repingEvents events).outstanding ≤ (n.repingEvents events).repinging ∧
      (n.repingEvents events).repinging ≤ n.repinging + events.length := by
  induction events generalizing n with
  | nil => exact ⟨h, Nat.le_refl _⟩
  | cons evt rest ih =>
    rw [List.length_cons]
    unfold repingEvents
    split
    · obtain ⟨hcovered, hle⟩ := ih h
      exact ⟨hcovered, by omega⟩
    next old hold =>
      split
      · exact ⟨h, by omega⟩
      · rcases sendReping_cases n old evt.newNode with ⟨tid, io, -, heq⟩ | ⟨io, -, heq⟩ <;>
          set n' := n.sendReping old evt.newNode
        · have hsent : n'.outstanding ≤ n.outstanding + 1 := by
            rw [heq]
            exact outstanding_insert_le n.standaloneTids tid _
          have hcount : n'.repinging = n.repinging + 1 := by
            rw [heq]
          obtain ⟨hcovered, hle⟩ := ih (n := n') (by omega)
          exact ⟨hcovered, by omega⟩
        · have hsame : n'.repinging = n.repinging := by
            rw [heq]
          have hcovered' : n'.outstanding ≤ n'.repinging := by
            rw [heq]
            exact h
          obtain ⟨hcovered, hle⟩ := ih hcovered'
          exact ⟨hcovered, by omega⟩

theorem length_pendingEvents_add (t : RoutingTable) (node : Node) :
    (t.add node).2.pendingEvents.length ≤ t.pendingEvents.length + 1 := by
  unfold RoutingTable.add
  dsimp only
  split
  · exact Nat.le_succ _
  · split
    · exact Nat.le_succ _
    · rw [List.length_append]
      rfl

section
variable (h : Counted n)
include h

theorem Counted.handleBucketFull (hfew : n.bootstrapped = false ∨ MAX_REPINGING ≤ n.repinging ∨
      n.table.pendingEvents.length + n.repinging ≤ MAX_REPINGING) : Counted n.handleBucketFull := by
  unfold DhtNode.handleBucketFull
  split
  · exact h
  next hopen =>
    rw [Bool.or_eq_true, not_or, Bool.not_eq_true', Bool.not_eq_false, decide_eq_true_eq] at hopen
    have hroom : n.table.pendingEvents.length + n.repinging ≤ MAX_REPINGING := by
      rcases hfew with hboot | hfull | hroom
      · rw [hboot] at hopen
        cases hopen.1
      · exact absurd hfull hopen.2
      · exact hroom
    obtain ⟨hcovered, hle⟩ :=
      repingEvents_le (n := { n with table := n.table.drainEvents.2 }) h.covered n.table.pendingEvents
    refine ⟨hcovered, hle.trans ?_⟩
    show n.repinging + n.table.pendingEvents.length ≤ MAX_REPINGING
    omega

theorem Counted.network (hfew : FewWaiting n) (fromPeer : Ipv4Peer) (fromId : Option NodeId) :
    Counted (n.addNodeFromNetwork fromPeer fromId) := by
  unfold addNodeFromNetwork
  split
  · exact h
  next id =>
    split
    · exact h
    · split
      · exact h.congr rfl rfl
      · dsimp only
        split
        · exact h.congr rfl rfl
        · refine Counted.handleBucketFull (h.congr rfl rfl) ?_
          have hlen := length_pendingEvents_add n.table ⟨id, fromPeer.host, fromPeer.port, none, n.tick, n.tick, n.tick, 0⟩
          rcases hfew with hboot | hfull | hroom
          · exact .inl hboot
          · exact .inr (.inl hfull)
          · dsimp only
            omega

theorem Counted.settled {tid : UInt16} {s : StandaloneRequest} (hlookup : n.standaloneTids.lookup tid = some s)
    (hs : Settled { n with standaloneTids := n.standaloneTids.erase tid } s n') : Counted n' := by
  have hcount : n.outstanding = outstanding { n with standaloneTids := n.standaloneTids.erase tid } +
      if isReping s then 1 else 0 := Assoc.countP_erase _ hlookup
  have hle : outstanding { n with standaloneTids := n.standaloneTids.erase tid } ≤ n.outstanding := by
    rw [hcount]
    exact Nat.le_add_right _ _
  obtain ⟨hcovered, hlimit⟩ := h
  cases hs with
  | ping | userRequest | kept | removed => exact ⟨hle.trans hcovered, hlimit⟩
  | keptOld | replaced =>
    change n.outstanding = _ + 1 at hcount
    refine ⟨?_, Nat.le_trans (Nat.sub_le _ _) hlimit⟩
    show outstanding { n with standaloneTids := n.standaloneTids.erase tid } ≤ n.repinging - 1
    omega

theorem Counted.removed (hr : Removed n n') : Counted n' := by
  cases hr with
  | other => exact h
  | again | bootstrapped => exact h.congr rfl rfl

theorem Counted.viaSocket (target : Ipv4Peer) (accepted : Bool) :
    Counted (n.handleCommand (.pingViaSocket target accepted)) := by
  unfold handleCommand
  dsimp only
  split
  next tid io _ =>
    exact ⟨(outstanding_insert_le n.standaloneTids tid .ping).trans h.covered, h.limit⟩
  · exact h.congr rfl rfl

theorem Counted.checks (ms : List Node) :
    Counted (ms.foldl (fun n m => n.check (fun m => { m with pingedTick := n.tick }) m) n) :=
  ms.foldlRecOn _ h fun _ h m _ => h.check _ m

end

theorem counted_unqueried : Unqueried Counted where
  queries h _ _ _ _ _ _ := h.congr rfl rfl
  removed h hr := h.removed hr

theorem counted_rule : Rule FewWaiting (fun _ => True) fun _ n => Counted n where
  counters h _ _ _ _ _ := h.congr rfl rfl
  tick h _ := h.congr rfl rfl
  drain h := h.congr rfl rfl
  relay h _ _ := h.congr rfl rfl
  request h hs := h.createStandalone (by rcases hs with rfl | rfl <;> rfl) _
  viaSocket h := h.viaSocket _ _
  insert h _ := counted_unqueried.insertQuery h
  checks h _ := h.checks _
  hint h _ _ := h.check _ _
  network h hfew fromPeer fromId := h.network hfew fromPeer fromId
  timeouts h := h.congr rfl rfl
  response h _ := h.congr rfl rfl
  call h _ _ := counted_unqueried.queryCalled (counted_unqueried.queries h ..) _ _
  commit h _ := counted_unqueried.commitDone (counted_unqueried.queries h ..) _
  settle h _ hlookup hs := h.settled hlookup hs
  unknown h _ _ := h

/-- **The pings that challenge old nodes stay within the limit in every run in which messages come in only while there
is room for a ping for every node that found no place since the last time, and for the sender.** -/
theorem repings_bounded (config : DhtConfig) (resolved : List String) (tableId : NodeId) (localPort tid : UInt16)
    (clock : Nat → Nat) (tieBreak : Nat) (es : List Event)
    (hes : Along step (fun n e => n.destroyed = false → e.incoming = true → FewWaiting n)
      (spawn config resolved tableId localPort tid clock tieBreak).startBootstrap es) :
    let n := reached config resolved tableId localPort tid clock tieBreak es
    n.outstanding ≤ MAX_REPINGING ∧ n.repinging ≤ MAX_REPINGING := by
  have hstart : Counted (spawn config resolved tableId localPort tid clock tieBreak).startBootstrap :=
    counted_unqueried.startBootstrap ⟨Nat.le_refl _, Nat.zero_le _⟩
  have hrun : Counted (reached config resolved tableId localPort tid clock tieBreak es) := by
    refine run_invariant_along (fun n e h hfew => ?_) hstart hes
    cases hd : n.destroyed with
    | true =>
      rw [show n.step e = n from if_pos hd]
      exact h
    | false => exact counted_rule.step h e (fun he _ => hfew hd he) fun _ => trivial
  exact ⟨hrun.covered.trans hrun.limit, hrun.limit⟩

/-! ## A ping -/

def pingFrom (d : UInt8) : Request := ⟨0, ⟨hostAt 0, 1⟩, some (peerId (hostAt d) 1), none, true, CMD_PING, none, none⟩

theorem processDatagram_pingFrom (io : Io) (d : UInt8) :
    io.processDatagram (requestBytes (pingFrom d)) (.v4 10 0 0 d 1) .server true =
      (some (.incomingRequest ⟨0, ⟨hostAt d, 1⟩, ⟨hostAt 0, 1⟩, some (peerId (hostAt d) 1), none, true, CMD_PING, none,
        none, .server⟩), io) := by
  have hdecode : decodeMessage (requestBytes (pingFrom d)) = .ok (.request (pingFrom d)) :=
    decodeMessage_request (ipv4Host_hostAt 0)
  have hid : Io.validatedId ⟨hostAt d, 1⟩ (some (peerId (hostAt d) 1)) = some (peerId (hostAt d) 1) :=
    Option.filter_some_pos (decide_eq_true rfl)
  have hlong : ¬ (requestBytes (pingFrom d)).length < 2 := by
    simp only [requestBytes, headBytes, length_append, length_cons]
    omega
  unfold Io.processDatagram
  rw [if_neg hlong]
  dsimp only
  rw [hdecode]
  show (some (IoEvent.incomingRequest ⟨0, ⟨hostAt d, 1⟩, ⟨hostAt 0, 1⟩,
    Io.validatedId ⟨hostAt d, 1⟩ (some (peerId (hostAt d) 1)), none, true, CMD_PING, none, none, .server⟩), io) = _
  rw [hid]

/-- The sender of a ping is heard of under an id. -/
def hear (n : DhtNode) (sender : UInt8 × Nat) : DhtNode :=
  n.addNodeFromNetwork ⟨hostAt sender.1, 1⟩ (some ⟨leBytes 32 sender.2, length_leBytes 32 sender.2⟩)

/-- The number is the id that belongs to the address. -/
def Hashed (sender : UInt8 × Nat) : Prop := (peerId (hostAt sender.1) 1).1 = leBytes 32 sender.2

instance (sender : UInt8 × Nat) : Decidable (Hashed sender) := inferInstanceAs (Decidable (_ = _))

theorem step_hello (hlive : n.destroyed = false) {sender : UInt8 × Nat} (h : Hashed sender) :
    n.step (hello sender.1) = n.hear sender := by
  have hid : peerId (hostAt sender.1) 1 = ⟨leBytes 32 sender.2, length_leBytes 32 sender.2⟩ := Subtype.ext h
  unfold step hello
  rw [if_neg (by rw [hlive]; decide)]
  dsimp only
  unfold receive
  rw [← pingFrom, processDatagram_pingFrom, hear, ← hid]
  rfl

theorem run_hello (hlive : n.destroyed = false) (hboot : n.bootstrapped = false) {senders : List (UInt8 × Nat)}
    (h : ∀ x ∈ senders, Hashed x) : run step n (senders.map fun x => hello x.1) = senders.foldl hear n ∧
      Along step (fun n e => n.destroyed = false → e.incoming = true → FewWaiting n) n (senders.map fun x => hello x.1) ∧
      (senders.foldl hear n).bootstrapped = false := by
  induction senders generalizing n with
  | nil => exact ⟨rfl, trivial, hboot⟩
  | cons x senders ih =>
    have hstep := step_hello hlive (h x mem_cons_self)
    have hnext : (n.hear x).destroyed = false ∧ (n.hear x).bootstrapped = false := by
      rw [hear, addNodeFromNetwork_outer]
      exact ⟨hlive, hboot⟩
    obtain ⟨hrun, halong, hlast⟩ := ih hnext.1 hnext.2 fun y hy => h y (mem_cons_of_mem x hy)
    rw [← hstep] at hrun halong
    refine ⟨?_, ⟨fun _ _ => .inl hboot, halong⟩, hlast⟩
    rw [map_cons, run_cons, hrun, hstep, foldl_cons]

/-! ## The flood -/

def flooders : List UInt8 := [3, 7, 8, 9, 10, 12, 13, 14, 15, 16, 18, 22, 24, 25, 26, 27, 28, 32, 34, 36]

/-- The senders that fill the first bucket, with their ids. -/
def stored : List (UInt8 × Nat) := [
    (3, 0x81e262c4f3729f5d570be896fcd381837568c76a4b87cc2b09ef9dc7079508ea),
    (7, 0x4ba2552cf48b80371dd77bc11a68a4e62e23d442759db72470c45548b0a3f1a8),
    (8, 0x2beea35e471285ddb704c58e245d9b1a5f49cbf235d2f415ab5a019bebb9c2c3),
    (9, 0xfa71fa56312a3a94ff0305de29c753956e456e76a6852eda22e6be2b2ddd3b89),
    (10, 0x1d89eba578b815fcca7b45eec852e415e29d3f4f8ece193744fb9c81fc1e4e80),
    (12, 0x60b662d0b07bd1ebf79bffb32fea25a03e35d41149837ed48993e18269346dd9),
    (13, 0x83ff376d301f0a111f5e42904ee1917e83bcde9fe676bd27d17d6620c3e3bab5),
    (14, 0x4b0e95d4dede3d5f03814f88317849122da29710ab135e1640ec53a56291b4e2),
    (15, 0x512be820036a4a8bbfb6cd2efc540d83ff1ffc30d359e6f96038a15b6e318e97),
    (16, 0x64bd696c0d28ed8d67f836461ef803322908d2b8d0d18e0c843813bf72bc31d3),
    (18, 0x99533d0546aa773f258a118893c4834aee00b7297de51fca278a51536be19cdd),
    (22, 0xa92bdec9033cd23c4768669d9ed7127a4c3b9ddf50cd540e561dc3870581e6bc),
    (24, 0x125c206bd724c4ecacf73baf3f0f1cc728f64a5f4a2cfe4228dcc25bce4720cb),
    (25, 0x217d1b528e6db1ae663ce0effc8df1c2c8ec3364d625e972386a522db7be1dbb),
    (26, 0x286d05a02b88181913f4d44bfbd83d3da70ed04f24d4ef27bdde8566b4ba23fe),
    (27, 0x56db49ce8188e1b770cbd9aa7f473db4772488f6c7a6c4e95411f2cd705405c8),
    (28, 0x57fa1110170c854920165531fcb5b088fed715f72dec011449fb1e38628faaf2),
    (32, 0x85cff67c20b31a2c8c5eaf1963bb201a27e670b76d1d9db10a654343ec3b199d),
    (34, 0x63beb595ed144fa46effcb379f8e9f6be45a06a7da2a00ddf141b0bcf4ea3088),
    (36, 0x6668a27e55d0486ebdf4ba62fc0fd26c5f7730e226993bddfdd4600645503fd)]

def rejected : UInt8 × Nat := (39, 0xd1547342a4e400b6447d726c1d4ca15679e5ee922a040b8a60b15f679f9daea8)

theorem hashed_stored : ∀ x ∈ rejected :: stored, Hashed x := by decide +kernel

/-- The node has asked the one peer it was told of, and knows nobody yet. -/
def lone : DhtNode :=
  (spawn ⟨["10.0.0.200:1"], 0, "0.0.0.0", none, false, 10, 80⟩ ["10.0.0.200:1"] (.fill 0) 1 0 (fun _ => 0) 0).startBootstrap

def answerBytes : Bytes := responseBytes ⟨0, ⟨hostAt 0, 1⟩, none, none, [], 0, none⟩

/-- The reply that ends the bootstrap, and a tick. -/
def bootstrapEnd : List Event := [.datagram answerBytes (.v4 10 0 0 200 1) .server true, .tick 0 0]

/-- Pings that fill a bucket, `k` for which there is no room, the end of the bootstrap, and another ping without room. -/
def flood (k : Nat) : List Event :=
  flooders.map hello ++ List.replicate k (hello 39) ++ bootstrapEnd ++ [hello 39]

def flooded (k : Nat) : DhtNode := run step ((stored ++ List.replicate k rejected).foldl hear lone) bootstrapEnd

theorem flood_eq (k : Nat) : flood k = (stored ++ List.replicate k rejected).map (fun x => hello x.1) ++ bootstrapEnd ++
    [hello 39] := by
  rw [map_append, map_replicate]
  rfl

theorem hashed_flood (k : Nat) : ∀ x ∈ stored ++ List.replicate k rejected, Hashed x := by
  intro x hx
  refine hashed_stored x ?_
  rcases mem_append.mp hx with hx | hx
  · exact mem_cons_of_mem _ hx
  · exact eq_of_mem_replicate hx ▸ mem_cons_self

theorem lone_waits : lone.destroyed = false ∧ lone.bootstrapped = false := by decide +kernel

theorem run_flood {k : Nat} (hlive : (flooded k).destroyed = false) :
    run step lone (flood k) = (flooded k).hear rejected := by
  rw [flood_eq, run_append, run_append, (run_hello lone_waits.1 lone_waits.2 (hashed_flood k)).1, ← flooded,
    ← step_hello hlive (hashed_stored rejected mem_cons_self)]
  rfl

theorem flooded_challenges : (flooded 0).destroyed = false ∧ FewWaiting (flooded 0) ∧
    ((flooded 0).hear rejected).outstanding = 1 ∧ (flooded 3).destroyed = false ∧
    ((flooded 3).hear rejected).outstanding = MAX_REPINGING + 1 ∧
    ((flooded 3).hear rejected).repinging = MAX_REPINGING + 1 := by
  decide +kernel

/-- An old node is challenged when a ping finds its bucket full. -/
theorem repings_bounded_flood :
    let n := reached ⟨["10.0.0.200:1"], 0, "0.0.0.0", none, false, 10, 80⟩ ["10.0.0.200:1"] (.fill 0) 1 0 (fun _ => 0) 0
      (flood 0)
    n.outstanding = 1 ∧ n.outstanding ≤ MAX_REPINGING ∧ n.repinging ≤ MAX_REPINGING := by
  obtain ⟨hlive, hfew, hcount, -⟩ := flooded_challenges
  refine ⟨?_, repings_bounded _ _ _ _ _ _ _ _ ?_⟩
  · rw [reached, ← lone, run_flood hlive]
    exact hcount
  · obtain ⟨hrun, halong, hboot⟩ := run_hello lone_waits.1 lone_waits.2 (hashed_flood 0)
    rw [← lone, flood_eq]
    refine (halong.append ?_).append ?_
    · rw [hrun]
      exact ⟨fun _ _ => .inl hboot, fun _ he => (nomatch he), trivial⟩
    · rw [run_append, hrun, ← flooded]
      exact ⟨fun _ _ => hfew, trivial⟩

/-- **Four challenges are under way when three pings have found no room before the bootstrap ends, and one after it.** -/
theorem repings_exceed_limit :
    let n := reached ⟨["10.0.0.200:1"], 0, "0.0.0.0", none, false, 10, 80⟩ ["10.0.0.200:1"] (.fill 0) 1 0 (fun _ => 0) 0
      (flood 3)
    n.outstanding = MAX_REPINGING + 1 ∧ n.repinging = MAX_REPINGING + 1 := by
  obtain ⟨-, -, -, hlive, hcount⟩ := flooded_challenges
  intro n
  rw [show n = (flooded 3).hear rejected from run_flood hlive]
  exact hcount

end DhtNode
end Peeroxide.Dht
