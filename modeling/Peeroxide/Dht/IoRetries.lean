import Peeroxide.Dht.IoSpec

/-!
# How often a request is sent

A request with retry limit `r` is to be sent at most `r + 1` times. Creation and retries keep to that, but the queue
holds a request that has been sent by a retry in the meantime, and `drain` sends it once more.

Main results: `retry_bound`, `retry_bound_exceeded`.
-/

namespace Peeroxide.Dht
open Lib List
namespace Io
variable {e : InflightEntry} {idx n serial : Nat} {log : List Transmission} {rest : List UInt16}

def sentTimes (log : List Transmission) (serial : Nat) : Nat := log.countP fun x => x.serial = serial

theorem sentTimes_append (log log' : List Transmission) (serial : Nat) :
    sentTimes (log ++ log') serial = sentTimes log serial + sentTimes log' serial := countP_append

theorem sentTimes_one (x : Transmission) (serial : Nat) :
    sentTimes [x] serial = if x.serial = serial then 1 else 0 := by
  unfold sentTimes
  simp

/-- A request that is waited for agrees with what was sent, and was not sent too often. -/
structure Counted (log : List Transmission) (next : Nat) (e : InflightEntry) : Prop where
  fresh : e.serial < next
  sent : e.sent.toNat = sentTimes log e.serial
  limit : e.sent.toNat ≤ e.retries.toNat + 1
  counter : e.retries.toNat + 1 < 2 ^ 32
  own : ∀ x ∈ log, x.serial = e.serial → x.retries = e.retries

/-- Every request is counted, and none was sent too often. -/
structure Retries (io : Io) : Prop where
  serials : (io.inflight.map InflightEntry.serial).Nodup
  counted : ∀ e ∈ io.inflight, Counted io.log io.allocated e
  fresh : ∀ x ∈ io.log, x.serial < io.allocated
  bound : ∀ x ∈ io.log, sentTimes io.log x.serial ≤ x.retries.toNat + 1

variable {io io' : Io}

theorem Counted.mono {m : Nat} (h : Counted log n e) (hnm : n ≤ m) :
    Counted log m e := { h with fresh := Nat.lt_of_lt_of_le h.fresh hnm }

theorem Retries.same (h : Retries io) (hi : io'.inflight = io.inflight) (hl : io'.log = io.log)
    (ha : io.allocated ≤ io'.allocated) : Retries io' := by
  refine ⟨?_, ?_, ?_, ?_⟩
  · rw [hi]
    exact h.serials
  · rw [hi, hl]
    exact fun e he => (h.counted e he).mono ha
  · rw [hl]
    exact fun x hx => Nat.lt_of_lt_of_le (h.fresh x hx) ha
  · rw [hl]
    exact h.bound

theorem Retries.remove (h : Retries io) {i : Nat} (hget : io.inflight[i]? = some e)
    (hi : io'.inflight = swapRemove io.inflight i) (hl : io'.log = io.log) (ha : io'.allocated = io.allocated) :
    Retries io' := by
  have hperm := perm_swapRemove hget
  refine ⟨?_, ?_, ?_, ?_⟩
  · have hnodup := (hperm.map InflightEntry.serial).nodup_iff.mp h.serials
    rw [hi]
    exact (nodup_cons.mp hnodup).2
  · rw [hi, hl, ha]
    exact fun e' he' => h.counted e' (hperm.mem_iff.mpr (mem_cons_of_mem e he'))
  · rw [hl, ha]
    exact h.fresh
  · rw [hl]
    exact h.bound

theorem Counted.other (h : Counted log n e) {x : Transmission}
    (hx : x.serial ≠ e.serial) : Counted (log ++ [x]) n e := by
  refine ⟨h.fresh, ?_, h.limit, h.counter, fun y hy hys => ?_⟩
  · rw [sentTimes_append, sentTimes_one, if_neg hx]
    exact h.sent
  · rcases mem_append.mp hy with hy | hy
    · exact h.own y hy hys
    · rw [mem_singleton.mp hy] at hys
      exact absurd hys hx

theorem resent_sent (hle : e.sent ≤ e.retries) (hcounter : e.retries.toNat + 1 < 2 ^ 32) (now : Nat) :
    (resent e now).sent.toNat = e.sent.toNat + 1 := by
  have hle' : e.sent.toNat ≤ e.retries.toNat := hle
  exact Nat.mod_eq_of_lt (by show e.sent.toNat + 1 < 2 ^ 32; omega)

theorem Counted.again (h : Counted log n e) (hle : e.sent ≤ e.retries) (now : Nat) (full : Bool) :
    Counted (log ++ [⟨e.serial, e.retries, full⟩]) n (resent e now) := by
  have hle' : e.sent.toNat ≤ e.retries.toNat := hle
  have hsent := resent_sent hle h.counter now
  refine ⟨h.fresh, ?_, ?_, h.counter, fun x hx hxs => ?_⟩
  · show (resent e now).sent.toNat = sentTimes _ e.serial
    rw [hsent, sentTimes_append, sentTimes_one, if_pos rfl, h.sent]
  · show (resent e now).sent.toNat ≤ e.retries.toNat + 1
    omega
  · rcases mem_append.mp hx with hx | hx
    · exact h.own x hx hxs
    · rw [mem_singleton.mp hx]
      rfl

theorem mem_sendInflightAt {e' : InflightEntry} (hget : io.inflight[idx]? = some e)
    (hnodup : (io.inflight.map InflightEntry.serial).Nodup) (he' : e' ∈ (io.sendInflightAt idx).inflight) :
    e' = resent e io.now ∨ e' ∈ io.inflight ∧ e.serial ≠ e'.serial := by
  have hlt := (List.getElem?_eq_some_iff.mp hget).1
  obtain ⟨j, hj⟩ := mem_iff_getElem?.mp he'
  rw [sendInflightAt_eq hget, getElem?_set, if_pos hlt] at hj
  split at hj
  · exact .inl (Option.some.inj hj).symm
  next hne =>
    refine .inr ⟨mem_of_getElem? hj, fun heq => hne ((List.getElem?_inj (by simpa using hlt) hnodup).mp ?_)⟩
    rw [getElem?_map, getElem?_map, hget, hj, Option.map_some, Option.map_some, heq]

theorem serials_sendInflightAt (io : Io) (idx : Nat) :
    (io.sendInflightAt idx).inflight.map InflightEntry.serial = io.inflight.map InflightEntry.serial := by
  have hlive := congrArg (map Prod.snd) (io.live_sendInflightAt idx)
  rwa [live, live, map_map, map_map] at hlive

theorem Retries.send (h : Retries io) (hget : io.inflight[idx]? = some e)
    (hle : e.sent ≤ e.retries) : Retries (io.sendInflightAt idx) := by
  have he := h.counted e (mem_of_getElem? hget)
  have hagain := he.again hle io.now io.congestion.isFull
  have hlog : (io.sendInflightAt idx).log = io.log ++ [⟨e.serial, e.retries, io.congestion.isFull⟩] := by
    rw [sendInflightAt_eq hget]
  have hnext : (io.sendInflightAt idx).allocated = io.allocated := by
    rw [sendInflightAt_eq hget]
    rfl
  refine ⟨?_, fun e' he' => ?_, fun x hx => ?_, fun x hx => ?_⟩
  · rw [serials_sendInflightAt]
    exact h.serials
  · rw [hlog, hnext]
    rcases mem_sendInflightAt hget h.serials he' with rfl | ⟨hmem, hne⟩
    · exact hagain
    · exact (h.counted e' hmem).other hne
  · rw [hlog, mem_append] at hx
    rw [hnext]
    rcases hx with hx | hx
    · exact h.fresh x hx
    · rw [mem_singleton.mp hx]
      exact he.fresh
  · rw [hlog] at hx ⊢
    by_cases hxs : x.serial = e.serial
    · have hown : x.retries = e.retries := hagain.own x hx hxs
      have hsent : (resent e io.now).sent.toNat = sentTimes _ e.serial := hagain.sent
      have hlimit : (resent e io.now).sent.toNat ≤ e.retries.toNat + 1 := hagain.limit
      rw [hxs, hown]
      omega
    · rw [sentTimes_append, sentTimes_one, if_neg (Ne.symm hxs)]
      rcases mem_append.mp hx with hx | hx
      · exact h.bound x hx
      · rw [mem_singleton.mp hx] at hxs
        exact absurd rfl hxs

/-! ## New requests -/

theorem sentTimes_none (h : ∀ x ∈ log, x.serial ≠ serial) :
    sentTimes log serial = 0 := by
  unfold sentTimes
  rw [countP_eq_zero]
  exact fun x hx he => h x hx (of_decide_eq_true he)

theorem sentTimes_all (h : ∀ x ∈ log, x.serial = serial) :
    sentTimes log serial = log.length := by
  unfold sentTimes
  rw [countP_eq_length]
  exact fun x hx => decide_eq_true (h x hx)

theorem Retries.push (h : Retries io) (e : InflightEntry) (xs : List Transmission)
    (hi : io'.inflight = io.inflight ++ [e]) (hl : io'.log = io.log ++ xs) (ha : io'.allocated = io.allocated + 1)
    (hserial : e.serial = io.allocated) (hsent : e.sent.toNat = xs.length) (hlimit : xs.length ≤ e.retries.toNat + 1)
    (hcounter : e.retries.toNat + 1 < 2 ^ 32) (hxs : ∀ x ∈ xs, x.serial = io.allocated ∧ x.retries = e.retries) :
    Retries io' := by
  have hold : ∀ x ∈ io.log, x.serial ≠ io.allocated := fun x hx => Nat.ne_of_lt (h.fresh x hx)
  have htimes : sentTimes (io.log ++ xs) io.allocated = xs.length := by
    rw [sentTimes_append, sentTimes_none hold, Nat.zero_add, sentTimes_all fun x hx => (hxs x hx).1]
  have hother : ∀ s, s < io.allocated → sentTimes (io.log ++ xs) s = sentTimes io.log s := by
    intro s hs
    have hnone : ∀ x ∈ xs, x.serial ≠ s := fun x hx => (hxs x hx).1.symm ▸ Nat.ne_of_gt hs
    rw [sentTimes_append, sentTimes_none hnone, Nat.add_zero]
  refine ⟨?_, fun e' he' => ?_, fun x hx => ?_, fun x hx => ?_⟩
  · rw [hi, map_append, nodup_append]
    refine ⟨h.serials, nodup_singleton _, fun s hs s' hs' heq => ?_⟩
    obtain ⟨e', he', rfl⟩ := mem_map.mp hs
    rw [mem_singleton.mp hs', hserial] at heq
    exact Nat.ne_of_lt (h.counted e' he').fresh heq
  · rw [hi, mem_append] at he'
    rw [hl, ha]
    rcases he' with he' | he'
    · have hc := h.counted e' he'
      refine ⟨Nat.lt_succ_of_lt hc.fresh, (hother _ hc.fresh).symm ▸ hc.sent, hc.limit, hc.counter, fun x hx hx' => ?_⟩
      rcases mem_append.mp hx with hx | hx
      · exact hc.own x hx hx'
      · rw [(hxs x hx).1] at hx'
        exact absurd hx'.symm (Nat.ne_of_lt hc.fresh)
    · rw [mem_singleton.mp he']
      refine ⟨hserial ▸ Nat.lt_succ_self _, ?_, hsent ▸ hlimit, hcounter, fun x hx hx' => ?_⟩
      · rw [hserial, htimes, hsent]
      · rcases mem_append.mp hx with hx | hx
        · exact absurd (hx'.trans hserial) (hold x hx)
        · exact (hxs x hx).2
  · rw [hl, mem_append] at hx
    rw [ha]
    rcases hx with hx | hx
    · exact Nat.lt_succ_of_lt (h.fresh x hx)
    · rw [(hxs x hx).1]
      exact Nat.lt_succ_self _
  · rw [hl] at hx ⊢
    rcases mem_append.mp hx with hx | hx
    · rw [hother _ (h.fresh x hx)]
      exact h.bound x hx
    · rw [(hxs x hx).1, htimes, (hxs x hx).2]
      exact hlimit

theorem Retries.track (h : Retries io) {peer : Ipv4Peer} {retries : UInt32}
    (he : NewEntry io peer retries 0 e) (hcounter : retries.toNat + 1 < 2 ^ 32) : Retries (io.tracked peer e) := by
  refine h.push e [] rfl (append_nil _).symm rfl he.serial ?_ (Nat.zero_le _) (he.retries ▸ hcounter)
    fun x hx => absurd hx not_mem_nil
  rw [he.sent]
  rfl

theorem Retries.create (h : Retries io) (t : RoutingTable) {params : RequestParams}
    (hcounter : (params.retries.getD DEFAULT_RETRIES).toNat + 1 < 2 ^ 32) : Retries (io.createRequest t params).2 := by
  have hcreated := createRequest_created io t params
  generalize io.createRequest t params = r at hcreated
  cases hcreated with
  | destroying => exact h
  | refused => exact { h with }
  | failed => exact h.same rfl rfl (Nat.le_succ _)
  | queued e he => exact (h.track he hcounter).same rfl rfl (Nat.le_refl _)
  | sent e he =>
    refine (h.track he hcounter).send (getElem?_tracked io params.toPeer e) ?_
    rw [he.sent]
    exact UInt32.zero_le

/-- A request over another socket is sent once and never again. -/
theorem Retries.sendVia (h : Retries io) (t : RoutingTable) (params : RequestParams) (accepted : Bool) :
    Retries (io.sendRequestViaSocket t params accepted).2 := by
  have hsent := sendRequestViaSocket_sentVia io t params accepted
  generalize io.sendRequestViaSocket t params accepted = r at hsent
  cases hsent with
  | destroying => exact h
  | refused => exact { h with }
  | failed => exact h.same rfl rfl (Nat.le_succ _)
  | sent e he =>
    refine h.push e [⟨io.allocated, 0, io.congestion.isFull⟩] rfl rfl rfl he.serial ?_ ?_ ?_
      fun x hx => ?_
    · rw [he.sent]
      rfl
    · exact Nat.le_add_left 1 _
    · rw [he.retries]
      decide
    · rw [mem_singleton.mp hx, he.retries]
      exact ⟨rfl, rfl⟩

/-! ## The queue -/

/-- For every queued request that is waited for, what was sent and what is queued stay within the limit. -/
def QueueOk (io : Io) (queue : List UInt16) : Prop :=
  ∀ e ∈ io.inflight, e.tid ∈ queue → e.sent.toNat + queue.count e.tid ≤ e.retries.toNat + 1

instance (io : Io) (queue : List UInt16) : Decidable (QueueOk io queue) := List.decidableBAll _ _

theorem QueueOk.tail {tid : UInt16} (hq : QueueOk io (tid :: rest)) : QueueOk io rest := by
  intro e he hmem
  have hcount := hq e he (mem_cons_of_mem tid hmem)
  have : rest.count e.tid ≤ (tid :: rest).count e.tid := (sublist_cons_self tid rest).count_le e.tid
  omega

theorem QueueOk.head (hq : QueueOk io (e.tid :: rest)) (he : e ∈ io.inflight) :
    e.sent.toNat + rest.count e.tid ≤ e.retries.toNat := by
  have hcount := hq e he mem_cons_self
  rw [count_cons_self] at hcount
  omega

theorem QueueOk.send (hq : QueueOk io (e.tid :: rest))
    (h : Retries io) (hget : io.inflight[idx]? = some e) (hle : e.sent ≤ e.retries) :
    QueueOk (io.sendInflightAt idx) rest := by
  have he := mem_of_getElem? hget
  intro e' he' hmem'
  rcases mem_sendInflightAt hget h.serials he' with rfl | ⟨hmem, -⟩
  · have hsent := resent_sent hle (h.counted e he).counter io.now
    have hhead := hq.head he
    show (resent e io.now).sent.toNat + rest.count e.tid ≤ e.retries.toNat + 1
    omega
  · exact hq.tail e' hmem hmem'

theorem Retries.drainPending (h : Retries io) {queue : List UInt16} (hq : QueueOk io queue) :
    Retries (io.drainPending queue) := by
  induction queue generalizing io with
  | nil => exact { h with }
  | cons tid rest ih =>
    unfold Io.drainPending
    split
    · exact { h with }
    · split
      next idx hpos =>
        obtain ⟨e, hget, rfl⟩ := position_eq_some hpos
        have hhead := hq.head (mem_of_getElem? hget)
        have hle : e.sent ≤ e.retries := by
          show e.sent.toNat ≤ e.retries.toNat
          omega
        exact ih (h.send hget hle) (hq.send h hget hle)
      · exact ih h hq.tail

/-! ## Runs -/

/-- No request has a limit that its counter cannot exceed, and `drain` finds no queued request that retries have sent as
often as allowed. -/
def WithinLimit (io : Io) : Op → Prop
  | .createRequest _ params => (params.retries.getD DEFAULT_RETRIES).toNat < 2 ^ 32 - 1
  | .drain => QueueOk io io.pending
  | _ => True

theorem Retries.step (h : Retries io) (op : Op) (hop : WithinLimit io op) : Retries (io.step op) := by
  cases op with
  | createRequest t params => exact h.create t (Nat.add_lt_of_lt_sub hop)
  | sendRequestViaSocket t params accepted => exact h.sendVia t params accepted
  | relay toPeer preserveTid =>
    show Retries (io.relay toPeer preserveTid)
    rcases relay_cases io toPeer preserveTid with heq | heq
    · rw [heq]
      exact h
    · rw [heq]
      exact h.same rfl rfl (Nat.le_succ _)
  | drain =>
    have hrotated : Retries { io with congestion := io.congestion.drain } := { h with }
    exact hrotated.drainPending hop
  | checkTimeouts =>
    refine checkTimeouts_rule (fun _ h => { h with }) (fun io i e h hget hle => ?_)
      (fun io i e h hget => h.remove hget rfl rfl rfl) h
    have hcounted : Retries { io with stats := { io.stats with retries := io.stats.retries + 1 } } :=
      { h with }
    exact hcounted.send hget hle
  | datagram data addr kind tokenValid =>
    have hprocessed := processDatagram_processed io data addr kind tokenValid
    show Retries (io.processDatagram data addr kind tokenValid).2
    generalize io.processDatagram data addr kind tokenValid = r at hprocessed
    cases hprocessed with
    | ignored | request => exact h
    | response res i e hget => exact h.remove hget rfl rfl rfl

/-- **As long as `drain` finds no queued request that retries have sent as often as allowed, no request is sent more
often than its limit and once more.** -/
theorem retry_bound (maxWindow : Nat) (firewalled ephemeral : Bool) (tid : UInt16) (clock : Nat → Nat) (ops : List Op)
    (hops : Along step WithinLimit (bind maxWindow firewalled ephemeral tid clock) ops) :
    let io := run step (bind maxWindow firewalled ephemeral tid clock) ops
    ∀ x ∈ io.log, sentTimes io.log x.serial ≤ x.retries.toNat + 1 := by
  have hstart : Retries (bind maxWindow firewalled ephemeral tid clock) :=
    ⟨nodup_nil, fun _ h => absurd h not_mem_nil, fun _ h => absurd h not_mem_nil, fun _ h => absurd h not_mem_nil⟩
  exact (run_invariant_along (fun _ op h hop => h.step op hop) hstart hops).bound

def pingWith (host : String) (retries : Option UInt32) : Op :=
  .createRequest (.new (.fill 0)) ⟨⟨host, 1⟩, none, true, 0, none, none, none, retries⟩

instance (io : Io) : (op : Op) → Decidable (WithinLimit io op)
  | .createRequest .. => inferInstanceAs (Decidable (_ < _))
  | .drain => inferInstanceAs (Decidable (QueueOk ..))
  | .sendRequestViaSocket .. | .relay .. | .checkTimeouts | .datagram .. => .isTrue trivial

/-- The second request is queued behind the first, and the fourth `drain` sends it. -/
theorem retry_bound_drained :
    let io := run step (bind 1 true true 0 fun n => 1000 * n)
      [pingWith "10.0.0.1" (some 0), pingWith "10.0.0.2" (some 0), .drain, .drain, .drain, .drain]
    io.log.length = 2 ∧ ∀ x ∈ io.log, sentTimes io.log x.serial ≤ x.retries.toNat + 1 :=
  ⟨by decide +kernel, retry_bound 1 true true 0 (fun n => 1000 * n) _ (by decide +kernel)⟩

/-- The second request is queued behind the first, sent when its deadline has passed, and sent again from the queue, so
it is sent twice without any retry allowed. -/
theorem retry_bound_exceeded :
    let io := run step (bind 1 true true 0 fun n => 1000 * n)
      [pingWith "10.0.0.1" none, pingWith "10.0.0.2" (some 0), .checkTimeouts, .drain, .drain, .drain, .drain]
    ∃ x ∈ io.log, x.retries = 0 ∧ sentTimes io.log x.serial = 2 := by
  decide +kernel

end Io
end Peeroxide.Dht
