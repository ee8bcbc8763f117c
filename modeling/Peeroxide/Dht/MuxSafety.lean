import Peeroxide.Dht.MuxSpec

/-!
# Frames that stop Protomux

A frame comes from the remote. Two things in it are used without a check: the length of an item of a batch, which is
added to a position, and the id of a rejected channel, which is used as an index.

Main results: `frame_safe_iff`, `frames_that_panic`.
-/

namespace Peeroxide.Dht
open Lib List

/-! ## Positions in a frame -/

def cursorAt (data : Bytes) (p : Nat) : Cursor := { Cursor.ofBuffer data with start := p }

/-- The integer at position `p`, and the position behind it. -/
def uintAt (data : Bytes) (p : Nat) : Option (UInt64 × Nat) :=
  match decodeUint (cursorAt data p) with
  | .ok (n, c) => some (n, c.start)
  | .error _ => none

/-- From `p` to `q` the integers `ns` stand one behind the other. -/
def IntsAt (data : Bytes) : List UInt64 → Nat → Nat → Prop
  | [], p, q => p = q
  | n :: ns, p, q => ∃ r, uintAt data p = some (n, r) ∧ IntsAt data ns r q

/-- The frame is a batch, and `p` is the place of one of its length fields or its end. -/
inductive ItemAt (data : Bytes) : Nat → Prop where
  | first {channel : UInt64} {p : Nat} (h : IntsAt data [0, 0, channel] 0 p) : ItemAt data p
  | switch {channel : UInt64} {p q : Nat} (hp : ItemAt data p) (h : IntsAt data [0, channel] p q) : ItemAt data q
  | item {len : UInt64} {p q : Nat} (hp : ItemAt data p) (h : uintAt data p = some (len, q)) (hne : len ≠ 0)
      (hfit : q + len.toNat ≤ data.length) : ItemAt data (q + len.toNat)

/-- The frame is a batch in which an item's length, added to the position behind it, is no `usize`. -/
def LengthOverflows (data : Bytes) : Prop :=
  ∃ p len q, ItemAt data p ∧ uintAt data p = some (len, q) ∧ len ≠ 0 ∧ 2 ^ 64 ≤ q + len.toNat

section
variable {data : Bytes} {p q : Nat}
variable {c c' : Cursor} {channel ctrlType n remoteId : UInt64} {fuel : Nat}

theorem sound_cursorAt (hp : p ≤ data.length) : (cursorAt data p).Sound := ⟨hp, rfl, leastGrant_le⟩

theorem decodeUint_at (hp : p ≤ data.length) :
    (uintAt data p = none ∧ ∃ e, decodeUint (cursorAt data p) = .error (.error e)) ∨
    ∃ n q, uintAt data p = some (n, q) ∧ decodeUint (cursorAt data p) = .ok (n, cursorAt data q) ∧ p < q ∧
      q ≤ data.length := by
  obtain ⟨hpanic, hnext⟩ := safe_uint _ (sound_cursorAt hp)
  unfold uintAt
  cases hr : decodeUint (cursorAt data p) with
  | error e =>
    cases e with
    | panic => exact absurd hr hpanic
    | error e => exact .inl ⟨rfl, e, rfl⟩
  | ok r =>
    obtain ⟨n, c⟩ := r
    obtain ⟨k, hk, rfl⟩ := moves_uint _ _ _ hr
    have hsound := hnext n _ hr
    exact .inr ⟨n, p + k, rfl, rfl, by omega, hsound.start⟩

theorem uintAt_le (hp : p ≤ data.length) (h : uintAt data p = some (n, q)) : p < q ∧ q ≤ data.length := by
  obtain ⟨hnone, -⟩ | ⟨n', q', hsome, -, hle⟩ := decodeUint_at hp
  · rw [hnone] at h
    cases h
  · rw [hsome] at h
    cases h
    exact hle

theorem liftUint_ok (h : decodeUint c = .ok (n, c')) : liftDecoder decodeUint c = .ok (n, c') := by
  simp only [liftDecoder, liftError, h]

theorem liftUint_error {e : EncodingError} (h : decodeUint c = .error (.error e)) :
    liftDecoder decodeUint c = .error (.error (.encoding e)) := by
  simp only [liftDecoder, liftError, h]

/-- Reading an integer first: the code ends in some way other than an encoding error just when the integer is there and
the rest ends in that way. -/
theorem bind_uint_eq {α : Type} {f : UInt64 → FrameDecoder α} {r : Except (Fault ProtomuxError) (α × Cursor)}
    (hr : ∀ e, r ≠ .error (.error (.encoding e))) (hp : p ≤ data.length) :
    (liftDecoder decodeUint >>= f) (cursorAt data p) = r ↔
      ∃ n q, uintAt data p = some (n, q) ∧ f n (cursorAt data q) = r := by
  obtain ⟨hnone, e, he⟩ | ⟨n, q, hsome, hd, -⟩ := decodeUint_at hp
  · rw [bind_error (liftUint_error he)]
    exact ⟨fun h => absurd h.symm (hr e), fun ⟨n, q, h, _⟩ => nomatch hnone.symm.trans h⟩
  · rw [bind_ok (liftUint_ok hd)]
    refine ⟨fun h => ⟨n, q, hsome, h⟩, ?_⟩
    rintro ⟨n', q', h, hf⟩
    rw [hsome] at h
    cases h
    exact hf

theorem bind_uint_panics {α : Type} {f : UInt64 → FrameDecoder α} (hp : p ≤ data.length) :
    (liftDecoder decodeUint >>= f) (cursorAt data p) = .error .panic ↔
      ∃ n q, uintAt data p = some (n, q) ∧ f n (cursorAt data q) = .error .panic := bind_uint_eq nofun hp

theorem hasLeft_at {α : Type} (f : Bool → FrameDecoder α) :
    (hasLeft >>= f) (cursorAt data p) = f (decide (p < data.length)) (cursorAt data p) := rfl

theorem map_panics {α β : Type} {a : FrameDecoder α} {g : α → β} :
    (do let x ← a; pure (g x)) c = .error .panic ↔ a c = .error .panic := by
  cases hr : a c with
  | error e =>
    rw [bind_error hr]
    exact ⟨fun h => by cases h; rfl, fun h => by cases h; rfl⟩
  | ok r =>
    rw [bind_ok hr]
    exact ⟨nofun, nofun⟩

/-! ## The items of a batch -/

theorem itemData_at {len : UInt64} (hq : q + len.toNat ≤ data.length) (hmax : q + len.toNat < 2 ^ 64) :
    ∃ bs, itemData len (cursorAt data q) = .ok (bs, cursorAt data (q + len.toNat)) := by
  have hslice : slice (ε := ProtomuxError) len.toNat (cursorAt data q) = .ok (⟨(data.drop q).take len.toNat, by
      rw [length_take, length_drop]; omega⟩, (cursorAt data q).skip len.toNat) := dif_pos hq
  have hpos : ¬ 2 ^ 64 ≤ (cursorAt data q).start + len.toNat := Nat.not_le.mpr hmax
  have hend : ¬ (cursorAt data q).stop < (cursorAt data q).start + len.toNat := Nat.not_lt.mpr hq
  refine ⟨(data.drop q).take len.toNat, ?_⟩
  unfold itemData
  rw [if_neg hpos, if_neg hend, hslice]
  rfl

/-- One round of the loop: it stops the program at a length that is too large, or behind a switch or an item. -/
theorem decodeItems_panics_iff (hp : p ≤ data.length) :
    decodeItems (fuel + 1) channel (cursorAt data p) = .error .panic ↔
      (∃ next q, IntsAt data [0, next] p q ∧ decodeItems fuel next (cursorAt data q) = .error .panic) ∨
      ∃ len q, uintAt data p = some (len, q) ∧ len ≠ 0 ∧ (2 ^ 64 ≤ q + len.toNat ∨
        q + len.toNat ≤ data.length ∧ q + len.toNat < 2 ^ 64 ∧
          decodeItems fuel channel (cursorAt data (q + len.toNat)) = .error .panic) := by
  rw [decodeItems, hasLeft_at]
  by_cases hleft : p < data.length
  · rw [decide_eq_true hleft, if_pos rfl, bind_uint_panics hp]
    constructor
    · rintro ⟨len, q, hat, hpanic⟩
      split at hpanic
      next hzero =>
        subst hzero
        rw [bind_uint_panics (uintAt_le hp hat).2] at hpanic
        obtain ⟨next, r, hnext, hrest⟩ := hpanic
        exact .inl ⟨next, r, ⟨q, hat, r, hnext, rfl⟩, hrest⟩
      next hne =>
        refine .inr ⟨len, q, hat, hne, ?_⟩
        by_cases hbig : 2 ^ 64 ≤ q + len.toNat
        · exact .inl hbig
        · by_cases hfit : q + len.toNat ≤ data.length
          · obtain ⟨bs, hbs⟩ := itemData_at hfit (Nat.lt_of_not_le hbig)
            rw [bind_ok hbs, map_panics] at hpanic
            exact .inr ⟨hfit, Nat.lt_of_not_le hbig, hpanic⟩
          · have herr : itemData len (cursorAt data q) = .error (.error (.invalidFrame "batch item overflows frame")) := by
              exact (if_neg hbig).trans (if_pos (Nat.lt_of_not_le hfit))
            rw [bind_error herr] at hpanic
            cases hpanic
    · rintro (⟨next, q, ⟨r, hzero, r', hnext, rfl⟩, hrest⟩ | ⟨len, q, hat, hne, hcase⟩)
      · refine ⟨0, r, hzero, ?_⟩
        rw [if_pos rfl, bind_uint_panics (uintAt_le hp hzero).2]
        exact ⟨next, r', hnext, hrest⟩
      · refine ⟨len, q, hat, ?_⟩
        rw [if_neg hne]
        obtain hbig | ⟨hfit, hsmall, hrest⟩ := hcase
        · have hpanic : itemData len (cursorAt data q) = .error .panic := if_pos hbig
          exact bind_error hpanic _
        · obtain ⟨bs, hbs⟩ := itemData_at hfit hsmall
          rw [bind_ok hbs, map_panics]
          exact hrest
  · have hnone : uintAt data p = none := by
      obtain ⟨hnone, -⟩ | ⟨n, q, -, -, hlt, hle⟩ := decodeUint_at hp
      · exact hnone
      · omega
    rw [decide_eq_false hleft]
    refine ⟨nofun, ?_⟩
    rintro (⟨next, q, ⟨r, hzero, -⟩, -⟩ | ⟨len, q, hat, -⟩)
    · exact nomatch hnone.symm.trans hzero
    · exact nomatch hnone.symm.trans hat

theorem overflows_of_panics (hitem : ItemAt data p) (hp : p ≤ data.length)
    (h : decodeItems fuel channel (cursorAt data p) = .error .panic) : LengthOverflows data := by
  induction fuel generalizing channel p with
  | zero => cases h
  | succ fuel ih =>
    obtain ⟨next, q, hints, hrest⟩ | ⟨len, q, hat, hne, hbig | ⟨hfit, -, hrest⟩⟩ := (decodeItems_panics_iff hp).mp h
    · obtain ⟨r, hzero, r', hnext, rfl⟩ := hints
      have hr := (uintAt_le hp hzero).2
      exact ih (hitem.switch ⟨r, hzero, r', hnext, rfl⟩) (uintAt_le hr hnext).2 hrest
    · exact ⟨p, len, q, hitem, hat, hne, hbig⟩
    · exact ih (hitem.item hat hne hfit) hfit hrest

/-! ## Decoding -/

def frameDecoder (data : Bytes) : FrameDecoder DecodedFrame := do
  let channelId ← liftDecoder decodeUint
  decodeFrameTail data.length channelId

theorem decodeFrame_iff (data : Bytes) :
    (decodeFrame data = .error .panic ↔ frameDecoder data (cursorAt data 0) = .error .panic) ∧
      ∀ frame, decodeFrame data = .ok frame ↔ ∃ c, frameDecoder data (cursorAt data 0) = .ok (frame, c) := by
  by_cases hnil : data = []
  · subst hnil
    obtain ⟨e, hnil⟩ : ∃ e, frameDecoder [] (cursorAt [] 0) = .error (.error (.encoding e)) := ⟨_, rfl⟩
    exact ⟨⟨nofun, fun h => nomatch hnil.symm.trans h⟩, fun _ => ⟨nofun, fun ⟨c, h⟩ => nomatch hnil.symm.trans h⟩⟩
  · have heq : decodeFrame data = (frameDecoder data (cursorAt data 0)).map Prod.fst :=
      if_neg (mt List.isEmpty_iff.mp hnil)
    rw [heq]
    cases frameDecoder data (cursorAt data 0) with
    | error e => exact ⟨⟨fun h => by cases h; rfl, fun h => by cases h; rfl⟩, fun _ => ⟨nofun, fun ⟨c, h⟩ => nomatch h⟩⟩
    | ok r =>
      exact ⟨⟨nofun, nofun⟩, fun _ => ⟨fun h => by cases h; exact ⟨r.2, rfl⟩, fun ⟨c, h⟩ => by cases h; rfl⟩⟩

theorem Safe.ne_panic {α : Type} {a : FrameDecoder α} (ha : Safe a) (hp : p ≤ data.length) :
    a (cursorAt data p) ≠ .error .panic := (ha _ (sound_cursorAt hp)).1

theorem safe_liftUint : Safe (liftDecoder decodeUint) := safe_uint.liftError _

theorem safe_openTail : Safe decodeOpenTail :=
  safe_liftUint.bind fun _ => (safe_string.liftError _).bind fun _ => (safe_buffer.liftError _).bind fun _ =>
    Safe.hasLeft.bind fun more => (Safe.sliceToEnd.readIf more).bind fun _ => .pure _

theorem safe_controlTail (h : ctrlType ≠ CTRL_BATCH) : Safe (decodeControlTail fuel ctrlType) := by
  unfold decodeControlTail
  split
  · exact safe_openTail
  split
  · exact safe_liftUint.bind fun _ => .pure _
  split
  · exact safe_liftUint.bind fun _ => .pure _
  exact .raise _

theorem decodeControlTail_panics (hp : p ≤ data.length) :
    decodeControlTail fuel ctrlType (cursorAt data p) = .error .panic ↔
      ctrlType = CTRL_BATCH ∧ ∃ channel q, uintAt data p = some (channel, q) ∧
        decodeItems fuel channel (cursorAt data q) = .error .panic := by
  by_cases h : ctrlType = CTRL_BATCH
  · have hbatch : decodeControlTail fuel CTRL_BATCH = decodeBatchTail fuel := rfl
    rw [h, hbatch, decodeBatchTail, bind_uint_panics hp]
    simp only [true_and, map_panics]
  · exact iff_of_false (Safe.ne_panic (safe_controlTail h) hp) fun hb => h hb.1

theorem decodeFrame_panics_batch (data : Bytes) :
    decodeFrame data = .error .panic ↔ ∃ channel p, IntsAt data [0, 0, channel] 0 p ∧
      decodeItems data.length channel (cursorAt data p) = .error .panic := by
  rw [(decodeFrame_iff data).1, frameDecoder, bind_uint_panics (Nat.zero_le _)]
  constructor
  · rintro ⟨channelId, q, hat, hpanic⟩
    have hq := (uintAt_le (Nat.zero_le _) hat).2
    unfold decodeFrameTail at hpanic
    split at hpanic
    next hzero =>
      subst hzero
      rw [bind_uint_panics hq] at hpanic
      obtain ⟨ctrl, r, hctrl, hpanic⟩ := hpanic
      obtain ⟨rfl, channel, p, hchannel, hitems⟩ := (decodeControlTail_panics (uintAt_le hq hctrl).2).mp hpanic
      exact ⟨channel, p, ⟨q, hat, r, hctrl, p, hchannel, rfl⟩, hitems⟩
    · have hsafe : Safe (do
          let messageType ← liftDecoder decodeUint
          let payload ← sliceToEnd
          pure (DecodedFrame.message channelId messageType payload)) :=
        safe_liftUint.bind fun _ => Safe.sliceToEnd.bind fun _ => .pure _
      exact absurd hpanic (Safe.ne_panic hsafe hq)
  · rintro ⟨channel, p, ⟨q, hat, r, hctrl, p', hchannel, rfl⟩, hitems⟩
    have hq := (uintAt_le (Nat.zero_le _) hat).2
    refine ⟨0, q, hat, ?_⟩
    rw [decodeFrameTail, if_pos rfl, bind_uint_panics hq]
    exact ⟨0, r, hctrl, (decodeControlTail_panics (uintAt_le hq hctrl).2).mpr ⟨rfl, channel, p', hchannel, hitems⟩⟩

theorem ItemAt.reached (h : ItemAt data p) : p ≤ data.length ∧ ∃ fuel channel, data.length - p ≤ fuel ∧
    (decodeItems fuel channel (cursorAt data p) = .error .panic → decodeFrame data = .error .panic) := by
  induction h with
  | first h =>
    obtain ⟨q, hat, r, hctrl, p', hchannel, rfl⟩ := h
    have hq := (uintAt_le (Nat.zero_le _) hat).2
    have hr := (uintAt_le hq hctrl).2
    exact ⟨(uintAt_le hr hchannel).2, data.length, _, Nat.sub_le _ _, fun hpanic =>
      (decodeFrame_panics_batch data).mpr ⟨_, _, ⟨q, hat, r, hctrl, _, hchannel, rfl⟩, hpanic⟩⟩
  | @switch next p q hp h ih =>
    obtain ⟨hple, fuel, channel, hfuel, hreach⟩ := ih
    obtain ⟨r, hzero, r', hnext, rfl⟩ := h
    obtain ⟨hlt, hle⟩ := uintAt_le hple hzero
    obtain ⟨hlt', hle'⟩ := uintAt_le hle hnext
    obtain ⟨fuel, rfl⟩ : ∃ n, fuel = n + 1 := ⟨fuel - 1, by omega⟩
    refine ⟨hle', fuel, next, by omega, fun hpanic => hreach ?_⟩
    exact (decodeItems_panics_iff hple).mpr (.inl ⟨next, r', ⟨r, hzero, r', hnext, rfl⟩, hpanic⟩)
  | @item len p q hp hat hne hfit ih =>
    obtain ⟨hple, fuel, channel, hfuel, hreach⟩ := ih
    have hlt := (uintAt_le hple hat).1
    obtain ⟨fuel, rfl⟩ : ∃ n, fuel = n + 1 := ⟨fuel - 1, by omega⟩
    refine ⟨hfit, fuel, channel, by omega, fun hpanic => hreach ?_⟩
    refine (decodeItems_panics_iff hple).mpr (.inr ⟨len, q, hat, hne, ?_⟩)
    by_cases hbig : 2 ^ 64 ≤ q + len.toNat
    · exact .inl hbig
    · exact .inr ⟨hfit, Nat.lt_of_not_le hbig, hpanic⟩

/-- **Decoding a frame stops the program just when the length of an item of a batch reaches past `2 ^ 64`.** -/
theorem decodeFrame_panics_iff (data : Bytes) : decodeFrame data = .error .panic ↔ LengthOverflows data := by
  constructor
  · intro h
    obtain ⟨channel, p, hints, hpanic⟩ := (decodeFrame_panics_batch data).mp h
    have hitem : ItemAt data p := .first hints
    exact overflows_of_panics hitem hitem.reached.1 hpanic
  · rintro ⟨p, len, q, hitem, hat, hne, hbig⟩
    obtain ⟨hp, fuel, channel, hfuel, hreach⟩ := hitem.reached
    obtain ⟨hlt, hle⟩ := uintAt_le hp hat
    obtain ⟨fuel, rfl⟩ : ∃ n, fuel = n + 1 := ⟨fuel - 1, by omega⟩
    exact hreach ((decodeItems_panics_iff hp).mpr (.inr ⟨len, q, hat, hne, .inl hbig⟩))

theorem bind_ne_reject {α : Type} {a : FrameDecoder α} {f : α → FrameDecoder DecodedFrame}
    (hf : ∀ x c₁, f x c₁ ≠ .ok (.control (.rejectChannel remoteId), c')) :
    (a >>= f) c ≠ .ok (.control (.rejectChannel remoteId), c') := by
  intro h
  cases hr : a c with
  | error e =>
    rw [bind_error hr] at h
    cases h
  | ok r =>
    rw [bind_ok hr] at h
    exact hf r.1 r.2 h

theorem decodeControlTail_reject (hp : p ≤ data.length) :
    decodeControlTail fuel ctrlType (cursorAt data p) = .ok (.control (.rejectChannel remoteId), c) ↔
      ctrlType = CTRL_REJECT ∧ ∃ q, uintAt data p = some (remoteId, q) ∧ c = cursorAt data q := by
  unfold decodeControlTail
  split
  next h =>
    subst h
    refine ⟨fun hr => absurd hr ?_, fun hb => absurd hb.1 (by decide)⟩
    exact bind_ne_reject fun _ _ => bind_ne_reject fun _ _ => bind_ne_reject fun _ _ => bind_ne_reject fun _ _ =>
      bind_ne_reject fun _ _ => nofun
  split
  next h =>
    subst h
    exact ⟨fun hr => absurd hr (bind_ne_reject fun _ _ => nofun), fun hb => absurd hb.1 (by decide)⟩
  split
  next h =>
    subst h
    rw [bind_uint_eq (r := .ok _) (fun _ => nofun) hp]
    simp only [true_and]
    constructor
    · rintro ⟨n, q, hat, hr⟩
      cases hr
      exact ⟨q, hat, rfl⟩
    · rintro ⟨q, hat, rfl⟩
      exact ⟨remoteId, q, hat, rfl⟩
  split
  next h =>
    subst h
    exact ⟨fun hr => absurd hr (bind_ne_reject fun _ _ => bind_ne_reject fun _ _ => nofun), fun hb => absurd hb.1 (by decide)⟩
  next h _ =>
    exact ⟨nofun, fun hb => absurd hb.1 h⟩

theorem decodeFrame_reject_iff (data : Bytes) (remoteId : UInt64) :
    decodeFrame data = .ok (.control (.rejectChannel remoteId)) ↔ ∃ p, IntsAt data [0, CTRL_REJECT, remoteId] 0 p := by
  rw [(decodeFrame_iff data).2]
  constructor
  · rintro ⟨c, hc⟩
    obtain ⟨channelId, q, hat, hr⟩ := (bind_uint_eq (r := .ok _) (fun _ => nofun) (Nat.zero_le _)).mp hc
    have hq := (uintAt_le (Nat.zero_le _) hat).2
    unfold decodeFrameTail at hr
    split at hr
    next hzero =>
      subst hzero
      obtain ⟨ctrl, r, hctrl, hr⟩ := (bind_uint_eq (r := .ok _) (fun _ => nofun) hq).mp hr
      obtain ⟨rfl, p, hid, -⟩ := (decodeControlTail_reject (uintAt_le hq hctrl).2).mp hr
      exact ⟨p, q, hat, r, hctrl, p, hid, rfl⟩
    · exact absurd hr (bind_ne_reject fun _ _ => bind_ne_reject fun _ _ => nofun)
  · rintro ⟨p, q, hat, r, hctrl, p', hid, rfl⟩
    have hq := (uintAt_le (Nat.zero_le _) hat).2
    refine ⟨cursorAt data p', (bind_uint_eq (r := .ok _) (fun _ => nofun) (Nat.zero_le _)).mpr ⟨0, q, hat, ?_⟩⟩
    rw [decodeFrameTail, if_pos rfl, bind_uint_eq (r := .ok _) (fun _ => nofun) hq]
    exact ⟨CTRL_REJECT, r, hctrl, (decodeControlTail_reject (uintAt_le hq hctrl).2).mpr ⟨rfl, p', hid, rfl⟩⟩

end

/-! ## Handling -/

namespace MuxState
variable {s s' : MuxState}
variable {frame : DecodedFrame}

/-- A local channel that waits for the remote has a slot. -/
def Registered (s : MuxState) : Prop := ∀ key, ∀ w ∈ (s.infoOf key).outgoing, 0 < w ∧ w ≤ s.locals.length

theorem Registered.insert {key : String} {i : ChannelInfo} (hs : s.Registered)
    (hinfos : s'.infos = s.infos.insert key i) (hlen : s.locals.length ≤ s'.locals.length)
    (hinfo : ∀ w ∈ i.outgoing, w ∈ (s.infoOf key).outgoing ∨ 0 < w ∧ w ≤ s'.locals.length) : s'.Registered := by
  intro k w hw
  rw [s'.infoOf_insert s.infos key k i hinfos] at hw
  split at hw
  · rcases hinfo w hw with hold | hnew
    · exact ⟨(hs key w hold).1, le_trans (hs key w hold).2 hlen⟩
    · exact hnew
  · exact ⟨(hs k w hw).1, le_trans (hs k w hw).2 hlen⟩

theorem Registered.of_eq (hs : s.Registered) (hinfos : s'.infos = s.infos) (hlen : s'.locals.length = s.locals.length) :
    s'.Registered := by
  intro k w hw
  have hinfo : s'.infoOf k = s.infoOf k := by rw [infoOf, hinfos]; rfl
  rw [hinfo] at hw
  rw [hlen]
  exact hs k w hw

theorem registered_command {c : MuxCommand} (hs : s.Registered) (h : s.handleCommand c = .ok s') : s'.Registered := by
  cases c with
  | createChannel protocol id handshake =>
    have hlen : s.locals.length ≤ s.allocated.locals.length := by
      obtain ⟨ids, i, -, -, ha⟩ | ⟨-, -, ha⟩ := s.allocated_cases <;> rw [ha]
      rw [length_append]
      exact Nat.le_add_right _ _
    have hinfos := s.allocated_frame.2.1
    obtain ⟨-, hslot, f, -, -, ⟨r, rest, -, -, rfl⟩ | ⟨-, rfl⟩⟩ := createChannelInternal_ok h
    · refine hs.insert (i := { s.infoOf (channelKey protocol id) with incoming := rest }) (by rw [← hinfos]; rfl) ?_
        fun w hw => .inl hw
      simp only [pairIncoming, length_set]
      exact hlen
    · have hlocals : (s.allocated.locals.set s.nextSlot (some (s.newChannel protocol id))).length =
          s.allocated.locals.length := length_set
      refine hs.insert (by rw [← hinfos]) (le_trans hlen (le_of_eq hlocals.symm)) fun w hw => ?_
      rw [mem_append, mem_singleton] at hw
      refine hw.imp_right fun hw => ?_
      rw [hw]
      exact ⟨Nat.succ_pos _, le_trans hslot (le_of_eq hlocals.symm)⟩
  | closeChannel localId =>
    obtain ⟨-, ⟨-, rfl⟩ | ⟨ch, -, -, rfl⟩ | ⟨-, -, f, ds, -, -, rfl⟩⟩ := closeChannelInternal_ok h
    · exact hs
    · exact hs
    · exact hs.of_eq rfl length_set
  | sendMessage | cork | uncork =>
    obtain ⟨batch, depth, written, rfl⟩ := handleCommand_writes h nofun nofun
    exact hs.of_eq rfl rfl

theorem registered_frame (hs : s.Registered) (h : s.handleFrame frame = .ok s' ∨ ∃ e, s.handleFrame frame = .err e s') :
    s'.Registered := by
  obtain ⟨t, ht, hend⟩ := handleFrame_step h
  have hsame : s'.infos = t.infos ∧ s'.locals.length = s.locals.length := by
    obtain ⟨-, rfl⟩ | ⟨i, -, -, rfl⟩ := hend
    · exact ⟨rfl, ht.length⟩
    · exact ⟨rfl, length_set.trans ht.length⟩
  obtain hinfos | ⟨key, info, hinfos, hout⟩ := ht.infos
  · exact hs.of_eq (hsame.1.trans hinfos) hsame.2
  · exact hs.insert (hsame.1.trans hinfos) hsame.2.ge fun w hw => .inl (hout w hw)

theorem decodeInner_ne_panic (data : Bytes) : decodeInner data ≠ .error .panic :=
  Safe.parse (safe_uint.bind fun _ => Safe.sliceToEnd.bind fun _ => .pure _) data leastGrant_le

theorem dispatchBatch_ne_panic (items : List BatchItem) : s.dispatchBatch items ≠ .panic := by
  induction items generalizing s with
  | nil => simp [dispatchBatch]
  | cons item items ih =>
    unfold dispatchBatch dispatchBatchItem
    cases hd : decodeInner item.data with
    | ok r => exact ih
    | error e =>
      cases e with
      | panic => exact absurd hd (decodeInner_ne_panic _)
      | error e => simp

theorem handleFrame_panics_iff (hs : s.Registered) :
    s.handleFrame frame = .panic ↔ ∃ remoteId, frame = .control (.rejectChannel remoteId) ∧
      (wrap32 remoteId.toNat = 0 ∨ s.locals.length < wrap32 remoteId.toNat) := by
  cases frame with
  | control ctrl =>
    cases ctrl with
    | openChannel localId protocol id hs' =>
      refine ⟨fun h => ?_, by simp⟩
      have hopen : s.handleRemoteOpen localId protocol id hs' = .panic := h
      unfold handleRemoteOpen at hopen
      simp only at hopen
      split at hopen
      · cases hopen
      split at hopen
      · cases hopen
      split at hopen
      next pos outgoing hout =>
        split at hopen
        next hindex =>
          have hmem : pos ∈ (s.infoOf (channelKey protocol id)).outgoing := by
            have hinfo : (s.infoOf (channelKey protocol id)).outgoing = pos :: outgoing := hout
            rw [hinfo]
            exact mem_cons_self
          have hreg := hs _ _ hmem
          have hidx : pos = 0 ∨ s.locals.length < pos := hindex
          omega
        · split at hopen <;> cases hopen
      · cases hopen
    | closeChannel localId => exact ⟨fun h => (by cases h), by simp⟩
    | rejectChannel remoteId =>
      have hreject : s.handleFrame (.control (.rejectChannel remoteId)) = s.handleRemoteReject remoteId := rfl
      rw [hreject]
      unfold handleRemoteReject
      simp only
      constructor
      · intro h
        split at h
        next hindex =>
          exact ⟨remoteId, rfl, hindex⟩
        · cases h
      · rintro ⟨_, h, hindex⟩
        cases h
        exact if_pos hindex
  | batch items => exact ⟨fun h => absurd h (dispatchBatch_ne_panic items), by simp⟩
  | message channelId messageType payload => exact ⟨fun h => (by cases h), by simp⟩

end MuxState

/-! ## Runs -/

namespace Mux

/-- The lists of waiting channels are sound as long as the program has not stopped. -/
def Registered (m : Mux) : Prop := ∀ s ∈ m.state?, s.Registered

theorem registered_step (m : Mux) (e : MuxEvent) (hm : m.Registered) : (m.step e).Registered :=
  step_invariant (fun _ _ _ hs h => MuxState.registered_frame hs h) (fun _ hs => hs.of_eq rfl (length_map _))
    (fun _ _ _ hs h => MuxState.registered_command hs h) m e hm

theorem registered_new : new.Registered := by
  intro s hs key w hw
  cases hs
  cases hw

end Mux

/-- **Frames that do not stop the program.** In a state that a run reaches, neither decoding nor handling a frame stops
the program just when the frame is no batch with an item whose length reaches past `2 ^ 64`, and no reject of an id that
is `0` or larger than the number of slots, as a `u32`. -/
theorem frame_safe_iff (es : List MuxEvent) (s : MuxState) (h : run Mux.step .new es = .running s) (data : Bytes) :
    (decodeFrame data ≠ .error .panic ∧ s.handleIncomingFrame data ≠ .panic) ↔
      ¬ LengthOverflows data ∧ ∀ remoteId p, IntsAt data [0, CTRL_REJECT, remoteId] 0 p →
        wrap32 remoteId.toNat ≠ 0 ∧ wrap32 remoteId.toNat ≤ s.locals.length := by
  have hs : s.Registered := run_invariant Mux.registered_step Mux.registered_new es s (by rw [h]; rfl)
  rw [Ne, decodeFrame_panics_iff]
  refine and_congr_right fun hover => ?_
  have hreject : ∀ remoteId, (∃ p, IntsAt data [0, CTRL_REJECT, remoteId] 0 p) ↔
      decodeFrame data = .ok (.control (.rejectChannel remoteId)) := fun remoteId => (decodeFrame_reject_iff data remoteId).symm
  have hfit : (∀ remoteId p, IntsAt data [0, CTRL_REJECT, remoteId] 0 p →
      wrap32 remoteId.toNat ≠ 0 ∧ wrap32 remoteId.toNat ≤ s.locals.length) ↔
      ∀ remoteId, decodeFrame data = .ok (.control (.rejectChannel remoteId)) →
        wrap32 remoteId.toNat ≠ 0 ∧ wrap32 remoteId.toNat ≤ s.locals.length :=
    forall_congr' fun remoteId => by rw [← hreject, forall_exists_index]
  rw [hfit]
  unfold MuxState.handleIncomingFrame
  cases hd : decodeFrame data with
  | error e =>
    cases e with
    | panic => exact absurd ((decodeFrame_panics_iff data).mp hd) hover
    | error e => exact iff_of_true nofun nofun
  | ok frame =>
    rw [Ne, MuxState.handleFrame_panics_iff hs]
    constructor
    · intro hno remoteId hr
      cases hr
      by_contra hbad
      exact hno ⟨remoteId, rfl, by omega⟩
    · rintro hall ⟨remoteId, rfl, hbad⟩
      have := hall remoteId rfl
      omega

/-- The other end rejects the one channel there is. -/
theorem frame_safe_reject : ∃ s, run Mux.step .new [.command (.createChannel "a" none none)] = .running s ∧
    s.locals.length = 1 ∧ decodeFrame [0, 2, 1] ≠ .error .panic ∧ s.handleIncomingFrame [0, 2, 1] ≠ .panic := by
  refine ⟨_, rfl, rfl, (frame_safe_iff [.command (.createChannel "a" none none)] _ rfl [0, 2, 1]).mpr ⟨?_, ?_⟩⟩
  · rw [← decodeFrame_panics_iff]
    decide
  · rintro remoteId p ⟨q, hq, r, hr, u, hu, -⟩
    cases hq
    cases hr
    cases hu
    decide

/-- A reject of a channel that never was, a reject of id `0`, and a batch with an item of `2 ^ 64 - 1` bytes. -/
theorem frames_that_panic :
    MuxState.new.handleIncomingFrame [0, 2, 1] = .panic ∧ MuxState.new.handleIncomingFrame [0, 2, 0] = .panic ∧
      decodeFrame [0, 0, 1, 0xff, 0xff, 0xff, 0xff, 0xff, 0xff, 0xff, 0xff, 0xff] = .error .panic := by
  refine ⟨rfl, rfl, rfl⟩

end Peeroxide.Dht
