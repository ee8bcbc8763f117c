import Peeroxide.Dht.MuxSpec

/-!
# The order of what is written

Messages of a corked mux wait in a batch, control frames do not.

Main results: `order_iff`, `message_after_close`.
-/

namespace Peeroxide.Dht
open Lib List MuxState

inductive WireItem where
  | opened (protocol : String) (id : Option ByteVec) (handshake : Option Bytes)
  | message (messageType : UInt64) (payload : Bytes)
  | closed
  deriving DecidableEq

def BatchItem.wireItem (item : BatchItem) : Option (UInt64 × WireItem) :=
  (decodeInner item.data).toOption.map fun r => (item.channelId, .message r.1 r.2)

def DecodedFrame.wireItems : DecodedFrame → List (UInt64 × WireItem)
  | .control (.openChannel localId protocol id handshake) => [(localId, .opened protocol id handshake)]
  | .control (.closeChannel localId) => [(localId, .closed)]
  | .control (.rejectChannel _) => []
  | .message channelId messageType payload => [(channelId, .message messageType payload)]
  | .batch items => items.filterMap BatchItem.wireItem

/-- What a frame on the wire says, by wire id. -/
def wireItems (frame : ByteVec) : List (UInt64 × WireItem) :=
  ((decodeFrame frame.1).toOption.map DecodedFrame.wireItems).getD []

def itemsOf (w : UInt64) (xs : List (UInt64 × WireItem)) : List WireItem := (xs.filter (·.1 = w)).map (·.2)

@[simp] theorem itemsOf_append (w : UInt64) (xs ys : List (UInt64 × WireItem)) :
    itemsOf w (xs ++ ys) = itemsOf w xs ++ itemsOf w ys := by
  simp [itemsOf]

@[simp] theorem itemsOf_nil (w : UInt64) : itemsOf w [] = [] := rfl

namespace MuxState
variable {s s' : MuxState}
variable {c : MuxCommand} {data : Bytes} {frame : DecodedFrame} {localId : UInt32}

def writtenItems (s : MuxState) : List (UInt64 × WireItem) := s.written.flatMap wireItems

def batchItems (s : MuxState) : List (UInt64 × WireItem) :=
  (s.batch.map fun e => (⟨e.1, e.2.1⟩ : BatchItem)).filterMap BatchItem.wireItem

def commandItems (s : MuxState) : MuxCommand → List (UInt64 × WireItem)
  | .createChannel protocol id handshake =>
    [(.ofNat (s.nextSlot + 1), .opened protocol (nonEmpty id) ((nonEmpty handshake).map (·.1)))]
  | .sendMessage localId messageType data =>
    if (s.localAt (localId.toNat - 1)).isSome then [(localId.toUInt64, .message messageType.toUInt64 data)] else []
  | .closeChannel localId =>
    if localId.toNat - 1 < s.locals.length ∧ ¬ (s.localAt (localId.toNat - 1)).any (·.closed) then
      [(localId.toUInt64, .closed)]
    else []
  | .cork => []
  | .uncork => []

/-- A command that stops the program asks for nothing. -/
def asks (s : MuxState) (c : MuxCommand) : List (UInt64 × WireItem) :=
  match s.handleCommand c with
  | .panic => []
  | _ => s.commandItems c

theorem asks_ok (h : s.handleCommand c = .ok s') : s.asks c = s.commandItems c := by
  rw [asks, h]

/-- The batch holds messages, and nothing when the mux is not corked. -/
structure BatchSound (s : MuxState) : Prop where
  inner : ∀ e ∈ s.batch, ∃ messageType payload, e.2.1 = innerBytes messageType payload ∧ e.2.1.length ≤ maxGrant
  uncorked : s.corkDepth = 0 → s.batch = []

theorem innerBytes_ne_nil (messageType : UInt64) (payload : Bytes) : innerBytes messageType payload ≠ [] := by
  intro h
  have hpos := (length_uintBytes messageType).1
  rw [(append_eq_nil_iff.mp h).1] at hpos
  exact absurd hpos (by decide)

theorem BatchSound.nonempty (h : s.BatchSound) : ∀ e ∈ s.batch, e.2.1 ≠ [] := by
  intro e he
  obtain ⟨t, p, heq, -⟩ := h.inner e he
  rw [heq]
  exact innerBytes_ne_nil t p

theorem wireItem_inner {channel t : UInt64} {p : Bytes} (h : data = innerBytes t p) (hcap : data.length ≤ maxGrant) :
    BatchItem.wireItem ⟨channel, data⟩ = some (channel, .message t p) := by
  subst h
  rw [BatchItem.wireItem, decodeInner_innerBytes hcap]
  rfl

/-- What waits for a wire id are messages, and there is one when an entry has the id. -/
theorem BatchSound.items (h : s.BatchSound) (w : UInt64) :
    (∀ x ∈ itemsOf w s.batchItems, ∃ t p, x = .message t p) ∧ (itemsOf w s.batchItems = [] ↔ ∀ e ∈ s.batch, e.1 ≠ w) := by
  have hmem : ∀ y, y ∈ s.batchItems ↔ ∃ e ∈ s.batch, BatchItem.wireItem ⟨e.1, e.2.1⟩ = some y := by
    intro y
    simp only [batchItems, mem_filterMap, mem_map, exists_exists_and_eq_and]
  have hitem : ∀ e ∈ s.batch, ∃ t p, BatchItem.wireItem ⟨e.1, e.2.1⟩ = some (e.1, .message t p) := by
    intro e he
    obtain ⟨t, p, heq, hcap⟩ := h.inner e he
    exact ⟨t, p, wireItem_inner heq hcap⟩
  constructor
  · intro x hx
    obtain ⟨y, hy, rfl⟩ := mem_map.mp hx
    obtain ⟨e, he, hye⟩ := (hmem y).mp (mem_filter.mp hy).1
    obtain ⟨t, p, htp⟩ := hitem e he
    rw [htp] at hye
    cases hye
    exact ⟨t, p, rfl⟩
  · rw [itemsOf, map_eq_nil_iff, filter_eq_nil_iff]
    constructor
    · intro hnone e he hw
      obtain ⟨t, p, htp⟩ := hitem e he
      exact hnone _ ((hmem _).mpr ⟨e, he, htp⟩) (by simpa using hw)
    · intro hnone y hy
      obtain ⟨e, he, hye⟩ := (hmem y).mp hy
      obtain ⟨t, p, htp⟩ := hitem e he
      rw [htp] at hye
      cases hye
      simpa using hnone e he

/-! ## What each step writes -/

theorem writtenItems_snoc {f : ByteVec} (hw : s'.written = s.written ++ [f])
    (hf : decodeFrame f.1 = .ok frame) : s'.writtenItems = s.writtenItems ++ frame.wireItems := by
  rw [writtenItems, hw, flatMap_append, flatMap_singleton, wireItems, hf]
  rfl

/-- What a command does to what is written and to what waits. -/
inductive Output (s s' : MuxState) (items : List (UInt64 × WireItem)) : Prop where
  /-- It is written at once, whatever waits. -/
  | direct (hw : s'.writtenItems = s.writtenItems ++ items) (hb : s'.batch = s.batch)
      (hc : s'.corkDepth = 0 → s.corkDepth = 0 ∨ s.batch = []) (hm : s.batch = [] ∨ ∀ x ∈ items, ∀ t p, x.2 ≠ .message t p)
  /-- A message waits. -/
  | wait {t w : UInt64} {p : Bytes} {f : ByteVec} (hitems : items = [(w, .message t p)]) (hw : s'.written = s.written)
      (hb : s'.batch = s.batch ++ [(w, f)]) (hf : f.1 = innerBytes t p) (hcap : f.1.length ≤ maxGrant) (hc : 0 < s'.corkDepth)
  /-- What waits is written. -/
  | flush (hitems : items = []) (hw : s'.writtenItems = s.writtenItems ++ s.batchItems) (hb : s'.batch = [])

theorem output_create {protocol : String} {id handshake : Option ByteVec}
    (h : s.createChannelInternal protocol id handshake = .ok s') :
    Output s s' (s.commandItems (.createChannel protocol id handshake)) := by
  obtain ⟨-, -, -, -, hw, hb, hc⟩ := s.allocated_frame
  obtain ⟨-, -, f, hf, hcap, hcase⟩ := createChannelInternal_ok h
  have hdecode := decodeFrame_open (.ofNat (s.nextSlot + 1)) (hf ▸ hcap)
  rw [← hf] at hdecode
  have hout : s'.written = s.written ++ [f] ∧ s'.batch = s.batch ∧ s'.corkDepth = s.corkDepth := by
    obtain ⟨r, rest, -, -, rfl⟩ | ⟨-, rfl⟩ := hcase
    · exact ⟨by rw [← hw], hb, hc⟩
    · exact ⟨by rw [← hw], hb, hc⟩
  refine .direct (writtenItems_snoc hout.1 hdecode) hout.2.1 (fun h0 => .inl (hout.2.2.symm.trans h0)) (.inr ?_)
  intro x hx
  rw [commandItems, mem_singleton] at hx
  subst hx
  exact fun _ _ => nofun

theorem output_send {messageType : UInt32} (hs : s.BatchSound)
    (h : s.sendMessageInternal localId messageType data = .ok s') :
    Output s s' (s.commandItems (.sendMessage localId messageType data)) := by
  rw [commandItems]
  obtain ⟨hzero, ⟨hnone, rfl⟩ | ⟨hsome, f, hcap, ⟨hcork, hf, rfl⟩ | ⟨hcork, hf, rfl⟩⟩⟩ := sendMessageInternal_ok h
  · rw [hnone]
    exact .direct (by simp) rfl .inl (.inr nofun)
  · rw [if_pos (Option.isSome_iff_ne_none.mpr hsome)]
    exact .wait rfl rfl rfl hf hcap hcork
  · rw [if_pos (Option.isSome_iff_ne_none.mpr hsome)]
    have hne : localId.toUInt64 ≠ 0 := by
      intro h0
      refine hzero (UInt32.toNat.inj ?_)
      rw [← UInt32.toNat_toUInt64, h0]
      rfl
    have hdecode := decodeFrame_message hne (hf ▸ hcap)
    rw [← hf] at hdecode
    exact .direct (writtenItems_snoc rfl hdecode) rfl .inl (.inl (hs.uncorked hcork))

theorem output_close (h : s.closeChannelInternal localId = .ok s') :
    Output s s' (s.commandItems (.closeChannel localId)) := by
  rw [commandItems]
  obtain ⟨-, ⟨hlen, rfl⟩ | ⟨ch, hch, hclosed, rfl⟩ | ⟨hlt, hopen, f, ds, hf, -, rfl⟩⟩ := closeChannelInternal_ok h
  · rw [if_neg fun hc => absurd hc.1 (Nat.not_lt.mpr hlen)]
    exact .direct (by simp) rfl .inl (.inr nofun)
  · rw [if_neg fun hc => hc.2 (by rw [hch]; exact hclosed)]
    exact .direct (by simp) rfl .inl (.inr nofun)
  · have hnot : ¬ (s.localAt (localId.toNat - 1)).any (·.closed) = true := by
      rw [Option.any_eq_true_iff_get]
      rintro ⟨hsome, hc⟩
      exact nomatch hc.symm.trans (hopen _ (Option.get_mem hsome))
    rw [if_pos ⟨hlt, hnot⟩]
    have hdecode := decodeFrame_close localId.toUInt64
    rw [← hf] at hdecode
    refine .direct (writtenItems_snoc rfl hdecode) rfl .inl (.inr ?_)
    intro x hx
    rw [mem_singleton] at hx
    subst hx
    exact fun _ _ => nofun

theorem output_uncork (hs : s.BatchSound) (h : s.uncork = .ok s') : Output s s' [] := by
  obtain ⟨n, rfl, hn⟩ | ⟨f, hne, hf, hcap, rfl⟩ := uncork_ok h
  · refine .direct (by rw [append_nil]; rfl) rfl (fun h0 => ?_) (.inr nofun)
    exact hn h0
  · have hdecode := decodeFrame_batch hs.nonempty hne (hf ▸ hcap)
    rw [← hf] at hdecode
    exact .flush rfl (writtenItems_snoc rfl hdecode) rfl

theorem output_command (hs : s.BatchSound) (h : s.handleCommand c = .ok s') : Output s s' (s.commandItems c) := by
  cases c with
  | createChannel protocol id handshake => exact output_create h
  | sendMessage localId messageType data => exact output_send hs h
  | closeChannel localId => exact output_close h
  | cork =>
    rw [cork_ok h]
    exact .direct (by rw [commandItems, append_nil]; rfl) rfl (fun h0 => absurd h0 (Nat.succ_ne_zero _)) (.inr nofun)
  | uncork => exact output_uncork hs h

theorem output_frame (h : s.handleFrame frame = .ok s' ∨ ∃ e, s.handleFrame frame = .err e s') :
    Output s s' [] := by
  obtain ⟨t, ht, hend⟩ := handleFrame_step h
  have hsame : s'.batch = t.batch ∧ s'.corkDepth = t.corkDepth ∧ s'.written = t.written := by
    obtain ⟨-, rfl⟩ | ⟨i, -, -, rfl⟩ := hend <;> exact ⟨rfl, rfl, rfl⟩
  refine .direct ?_ (hsame.1.trans ht.batch) (fun h0 => .inl ((hsame.2.1.trans ht.corkDepth).symm.trans h0)) (.inr nofun)
  obtain hw | ⟨f, hf, hw⟩ := ht.written
  · rw [append_nil]
    exact congrArg (List.flatMap wireItems) (hsame.2.2.trans hw)
  · have hdecode := decodeFrame_reject 0
    rw [← hf] at hdecode
    exact writtenItems_snoc (hsame.2.2.trans hw) hdecode

end MuxState

/-! ## Runs -/

structure Asker where
  mux : Mux
  asked : List (UInt64 × WireItem)

def Mux.asks : Mux → MuxEvent → List (UInt64 × WireItem)
  | .running s, .command c => s.asks c
  | _, _ => []

namespace Asker

def new : Asker := ⟨.new, []⟩

def step (a : Asker) (e : MuxEvent) : Asker := ⟨a.mux.step e, a.asked ++ a.mux.asks e⟩

/-- What is written for each wire id is the beginning of what was asked for it. -/
def InOrder (a : Asker) : Prop := ∀ s ∈ a.mux.state?, ∀ w, itemsOf w s.writtenItems <+: itemsOf w a.asked

/-- What was asked is written or waits, in this order. -/
def Complete (a : Asker) : Prop :=
  ∀ s ∈ a.mux.state?, s.BatchSound ∧ ∀ w, itemsOf w s.writtenItems ++ itemsOf w s.batchItems = itemsOf w a.asked

/-- An open or a close that is asked for is of a wire id that has no messages in the batch. -/
def NoneWaits (a : Asker) (e : MuxEvent) : Prop :=
  ∀ s, a.mux = .running s → ∀ x ∈ a.mux.asks e, (∀ t p, x.2 ≠ .message t p) → ∀ entry ∈ s.batch, entry.1 ≠ x.1

theorem Complete.inOrder {a : Asker} (h : a.Complete) : a.InOrder := by
  intro s hs w
  rw [← (h s hs).2 w]
  exact prefix_append _ _

end Asker

namespace MuxState
variable {s s' : MuxState} {asked items : List (UInt64 × WireItem)}

section
variable (h : Output s s' items) (hs : s.BatchSound)
  (hall : ∀ w, itemsOf w s.writtenItems ++ itemsOf w s.batchItems = itemsOf w asked)
include h hs hall

/-- The state a command leads to, with what it asked for: nothing is lost when no open and no close overtakes. -/
theorem Output.complete (hwaits : ∀ x ∈ items, (∀ t p, x.2 ≠ .message t p) → ∀ entry ∈ s.batch, entry.1 ≠ x.1) :
    s'.BatchSound ∧ ∀ w, itemsOf w s'.writtenItems ++ itemsOf w s'.batchItems = itemsOf w (asked ++ items) := by
  cases h with
  | direct hw hb hc hm =>
    have hsound : s'.BatchSound := by
      refine ⟨by rw [hb]; exact hs.inner, fun h0 => ?_⟩
      rw [hb]
      exact (hc h0).elim hs.uncorked id
    have hbatch : s'.batchItems = s.batchItems := by rw [batchItems, hb]; rfl
    refine ⟨hsound, fun w => ?_⟩
    -- one of the two has nothing for this wire id
    have hor : itemsOf w items = [] ∨ itemsOf w s.batchItems = [] := by
      rcases hm with hnil | hm
      · exact .inr (by rw [batchItems, hnil]; rfl)
      · by_cases hx : ∃ x ∈ items, x.1 = w
        · obtain ⟨x, hx, rfl⟩ := hx
          exact .inr ((hs.items x.1).2.mpr (hwaits x hx (hm x hx)))
        · refine .inl ?_
          rw [itemsOf, map_eq_nil_iff, filter_eq_nil_iff]
          intro x hmem
          simpa using fun heq => hx ⟨x, hmem, heq⟩
    rw [hw, hbatch, itemsOf_append, itemsOf_append, ← hall w]
    rcases hor with h0 | h0
    · rw [h0, append_nil, append_nil]
    · rw [h0, append_nil, append_nil]
  | @wait t w p f hitems hw hb hf hcap hc =>
    have hitem : BatchItem.wireItem ⟨w, f.1⟩ = some (w, .message t p) := wireItem_inner hf hcap
    have hbatch : s'.batchItems = s.batchItems ++ items := by
      rw [batchItems, hb, map_append, hitems]
      simp [hitem, batchItems]
    refine ⟨⟨fun e he => ?_, fun h0 => absurd hc (by omega)⟩, fun v => ?_⟩
    · rw [hb, mem_append, mem_singleton] at he
      rcases he with he | rfl
      · exact hs.inner e he
      · exact ⟨t, p, hf, hcap⟩
    · have hwritten : s'.writtenItems = s.writtenItems := by rw [writtenItems, hw]; rfl
      rw [hwritten, hbatch, itemsOf_append, itemsOf_append, ← hall v, append_assoc]
  | flush hitems hw hb =>
    refine ⟨⟨by rw [hb]; exact nofun, fun _ => hb⟩, fun w => ?_⟩
    have hbatch : s'.batchItems = [] := by rw [batchItems, hb]; rfl
    rw [hw, hbatch, hitems, itemsOf_append, itemsOf_nil, append_nil, append_nil, hall w]

/-- A command that leaves what is written in order overtakes no message. -/
theorem Output.noneWaits (horder : ∀ w, itemsOf w s'.writtenItems <+: itemsOf w (asked ++ items)) :
    ∀ x ∈ items, (∀ t p, x.2 ≠ .message t p) → ∀ entry ∈ s.batch, entry.1 ≠ x.1 := by
  intro x hx hm
  cases h with
  | direct hw hb hc hmessage =>
    rcases hmessage with hnil | hmessage
    · rw [hnil]
      exact nofun
    rw [← (hs.items x.1).2]
    have hpre := horder x.1
    rw [hw, itemsOf_append, itemsOf_append, ← hall x.1, append_assoc, prefix_append_right_inj] at hpre
    cases hwaiting : itemsOf x.1 s.batchItems with
    | nil => rfl
    | cons y ys =>
      -- what is written first was asked behind a message
      obtain ⟨t, p, rfl⟩ := (hs.items x.1).1 y (by rw [hwaiting]; exact mem_cons_self)
      cases hitems : itemsOf x.1 items with
      | nil =>
        rw [itemsOf, map_eq_nil_iff, filter_eq_nil_iff] at hitems
        exact absurd (hitems x hx) (by simp)
      | cons z zs =>
        rw [hwaiting, hitems, cons_append, cons_prefix_cons] at hpre
        have hz : z ∈ itemsOf x.1 items := by rw [hitems]; exact mem_cons_self
        obtain ⟨u, hu, rfl⟩ := mem_map.mp hz
        exact absurd hpre.1 (hmessage u (mem_filter.mp hu).1 t p)
  | wait hitems =>
    rw [hitems, mem_singleton] at hx
    subst hx
    exact absurd rfl (hm _ _)
  | flush hitems =>
    rw [hitems] at hx
    cases hx

end

end MuxState

namespace Asker
variable {asked : List (UInt64 × WireItem)} {c : MuxCommand} {s : MuxState}

theorem step_command_ok {s' : MuxState} (h : s.handleCommand c = .ok s') :
    step ⟨.running s, asked⟩ (.command c) = ⟨.running s', asked ++ s.commandItems c⟩ := by
  simp only [step, Mux.step_command, h, Mux.asks, asks_ok h]
  rfl

theorem step_command_panic
    (h : s.handleCommand c = .panic) : step ⟨.running s, asked⟩ (.command c) = ⟨.panicked, asked⟩ := by
  simp only [step, Mux.step_command, h, Mux.asks, asks, append_nil]
  rfl

theorem complete_other {a : Asker} {e : MuxEvent} (ha : a.Complete) (he : ∀ c, e ≠ .command c) : (a.step e).Complete := by
  obtain ⟨m, asked⟩ := a
  have hasks : m.asks e = [] := by
    unfold Mux.asks
    split
    · exact absurd rfl (he _)
    · rfl
  have hstep : step ⟨m, asked⟩ e = ⟨m.step e, asked⟩ := by rw [step, hasks, append_nil]
  rw [hstep]
  refine Mux.step_invariant_of
    (fun s s' frame hs h => ?_) (fun s hs => ⟨⟨hs.1.inner, hs.1.uncorked⟩, hs.2⟩) (fun s s' c hc => absurd hc (he c)) m ha
  have hout := (output_frame h).complete hs.1 hs.2 nofun
  rwa [append_nil] at hout

theorem complete_step (a : Asker) (e : MuxEvent) (ha : a.Complete) (hp : a.NoneWaits e) : (a.step e).Complete := by
  by_cases he : ∃ c, e = .command c
  · obtain ⟨c, rfl⟩ := he
    obtain ⟨m, asked⟩ := a
    cases m with
    | running s =>
      obtain ⟨hs, hall⟩ := ha s rfl
      cases hc : s.handleCommand c with
      | ok s' =>
        rw [step_command_ok hc]
        have hwaits : ∀ x ∈ s.commandItems c, (∀ t p, x.2 ≠ .message t p) → ∀ entry ∈ s.batch, entry.1 ≠ x.1 := by
          rw [← asks_ok hc]
          exact hp s rfl
        intro t ht
        cases ht
        exact (output_command hs hc).complete hs hall hwaits
      | err e s' => exact absurd hc handleCommand_ne_err
      | panic =>
        rw [step_command_panic hc]
        exact nofun
    | ended s =>
      have hstep : step ⟨.ended s, asked⟩ (.command c) = ⟨.ended s, asked ++ []⟩ := rfl
      rw [hstep, append_nil]
      exact ha
    | panicked => exact nofun
  · exact complete_other ha fun c hc => he ⟨c, hc⟩

theorem noneWaits_of_inOrder (a : Asker) (e : MuxEvent) (ha : a.Complete) (h : (a.step e).InOrder) : a.NoneWaits e := by
  intro s hrun
  obtain ⟨m, asked⟩ := a
  cases hrun
  cases e with
  | command c =>
    obtain ⟨hs, hall⟩ := ha s rfl
    show ∀ x ∈ s.asks c, _
    cases hc : s.handleCommand c with
    | ok s' =>
      rw [step_command_ok hc] at h
      rw [asks_ok hc]
      exact (output_command hs hc).noneWaits hs hall (h s' rfl)
    | err e s' => exact absurd hc handleCommand_ne_err
    | panic =>
      rw [asks, hc]
      exact nofun
  | frame data | stop => exact nofun

theorem complete_new : new.Complete := by
  intro s hs
  cases hs
  exact ⟨⟨nofun, fun _ => rfl⟩, fun _ => rfl⟩

end Asker

/-- **Order under cork.** In every state of a run from the start, what is written for each wire id is the beginning of
what the commands asked to be written for it, just when every open and every close that is asked for is of a wire id that
has no messages in the batch. -/
theorem order_iff (es : List MuxEvent) :
    Visits Asker.step Asker.InOrder .new es ↔ Along Asker.step Asker.NoneWaits .new es :=
  visits_iff_along_of (fun _ h => h.inOrder) Asker.complete_step Asker.noneWaits_of_inOrder Asker.complete_new es

/-- A corked channel is sent a message and closed, and another one is created before the mux is uncorked. -/
def closedUnderCork : List MuxEvent :=
  [.command (.createChannel "a" none none), .command .cork, .command (.sendMessage 1 0 [7]), .command (.closeChannel 1),
    .command (.createChannel "b" none none), .command .uncork]

/-- The message of the first channel is written behind its close, and behind the open of the second one under its id. -/
theorem message_after_close : ∃ s, (run Asker.step .new closedUnderCork).mux = .running s ∧
      itemsOf 1 s.writtenItems = [.opened "a" none none, .closed, .opened "b" none none, .message 0 [7]] ∧
      itemsOf 1 (run Asker.step .new closedUnderCork).asked =
        [.opened "a" none none, .message 0 [7], .closed, .opened "b" none none] ∧
      ¬ (run Asker.step .new closedUnderCork).InOrder := by
  refine ⟨_, rfl, by decide +kernel, by decide +kernel, fun h => ?_⟩
  have hpre := h _ rfl 1
  revert hpre
  decide +kernel

end Peeroxide.Dht
