import Peeroxide.Dht.CompactEncoding
import Mathlib.Data.List.Infix

/-!
# Reading a feed

The hashes of a feed stand newest first, and each message names the hash of the one before it. The reader fetches those it
has not seen, and takes a message that is the one expected behind the last it took; only a seen message ends that.

Main result: `none_hidden_iff`.
-/

namespace Peeroxide.Chat
open Lib Dht List

structure DisplayMessage where
  idPubkey : Bytes32
  screenName : String
  content : String
  timestamp : UInt64
  isSelf : Bool
  late : Bool
  deriving DecidableEq

structure PendingMessage where
  display : DisplayMessage
  msgHash : Bytes32
  prevMsgHash : Bytes32
  feedPubkey : Bytes32
  deriving DecidableEq

structure MessageEnvelope where
  idPubkey : Bytes32
  prevMsgHash : Bytes32
  timestamp : UInt64
  screenName : String
  content : String
  deriving DecidableEq

structure Reader where
  /-- What the fetch of a hash returns. -/
  immutableGet : Bytes32 → Option Bytes
  /-- The envelope, if the data decrypts, parses and verifies. -/
  envelope : Bytes → Option MessageEnvelope
  ownerPubkey : Bytes32
  feedPubkey : Bytes32
  selfIdPubkey : Bytes32
  dedup : List Bytes32

namespace Reader
variable (r : Reader)

def pending (msgHash : Bytes32) (env : MessageEnvelope) : PendingMessage where
  display := ⟨env.idPubkey, env.screenName, env.content, env.timestamp, env.idPubkey = r.selfIdPubkey, false⟩
  msgHash := msgHash
  prevMsgHash := env.prevMsgHash
  feedPubkey := r.feedPubkey

def validate : Option Bytes32 → List Bytes32 → List PendingMessage
  | _, [] => []
  | expectedNextHash, msgHash :: older =>
    if msgHash ∈ r.dedup then validate none older
    else match (r.immutableGet msgHash).bind r.envelope with
      | none => validate expectedNextHash older
      | some env =>
        if env.idPubkey ≠ r.ownerPubkey then validate expectedNextHash older
        else if expectedNextHash.any (· ≠ msgHash) then validate none older
        else if env.prevMsgHash ≠ older.headD (.fill 0) ∧ older.headD (.fill 0) ≠ .fill 0 then
          validate expectedNextHash older
        else r.pending msgHash env :: validate (some env.prevMsgHash) older

/-- With nothing unseen the loop returns nothing, as the check in front of it does. -/
def fetchAndValidateMessages (msgHashes : List Bytes32) : List PendingMessage := r.validate none msgHashes

/-! ## Honest feeds -/

structure Posted where
  msgHash : Bytes32
  env : MessageEnvelope

/-- Every message is the owner's and names the next entry of the list, and a fetch returns it or nothing. -/
structure Honest (posts : List Posted) : Prop where
  distinct : (posts.map (·.msgHash)).Nodup
  owned : ∀ m ∈ posts, m.env.idPubkey = r.ownerPubkey
  linked : posts.IsChain fun newer older => newer.env.prevMsgHash = older.msgHash
  opens : ∀ m ∈ posts, ∀ data ∈ r.immutableGet m.msgHash, r.envelope data = some m.env

def Fetched (m : Posted) : Prop := m.msgHash ∉ r.dedup ∧ (r.immutableGet m.msgHash).isSome

def Missing (m : Posted) : Prop := m.msgHash ∉ r.dedup ∧ r.immutableGet m.msgHash = none

instance (m : Posted) : Decidable (r.Fetched m) := inferInstanceAs (Decidable (_ ∧ _))

instance (m : Posted) : Decidable (r.Missing m) := inferInstanceAs (Decidable (_ ∧ _))

/-- The fetched messages that were not seen, in the order of the list. -/
def fetched (posts : List Posted) : List PendingMessage :=
  (posts.filter (r.Fetched ·)).map fun m => r.pending m.msgHash m.env

def next (posts : List Posted) : Option Posted := (posts.dropWhile (r.Missing ·)).head?

/-- Behind a fetched message some are missing, and the next one is fetched. -/
def HasGap (posts : List Posted) : Prop :=
  ∃ newer m older, newer :: m :: older <:+ posts ∧ r.Fetched newer ∧ r.Missing m ∧ ∃ x ∈ r.next older, r.Fetched x

/-- The next message is fetched, and is not the one expected. -/
def Refused (e : Option Bytes32) (posts : List Posted) : Prop :=
  ∃ x ∈ r.next posts, r.Fetched x ∧ e.any (· ≠ x.msgHash)

variable {r} {posts : List Posted} {m : Posted} {e : Option Bytes32}

theorem next_cons : r.next (m :: posts) = if r.Missing m then r.next posts else some m := by
  simp only [next, dropWhile_cons, decide_eq_true_eq]
  split <;> rfl

theorem refused_cons : r.Refused e (m :: posts) ↔
    r.Fetched m ∧ e.any (· ≠ m.msgHash) ∨ r.Missing m ∧ r.Refused e posts := by
  grind [Refused, next_cons, Fetched, Missing]

theorem Honest.tail (h : r.Honest (m :: posts)) : r.Honest posts where
  distinct := (nodup_cons.mp h.distinct).2
  owned := (forall_mem_cons.mp h.owned).2
  linked := h.linked.of_cons
  opens := (forall_mem_cons.mp h.opens).2

theorem mem_next {x : Posted} (hx : x ∈ r.next posts) : x ∈ posts :=
  (dropWhile_suffix _).subset (mem_of_mem_head? hx)

theorem Honest.hasGap_cons (h : r.Honest (m :: posts)) : r.HasGap (m :: posts) ↔
    r.Fetched m ∧ r.Refused (some m.env.prevMsgHash) posts ∨ r.HasGap posts := by
  have hgap : r.Refused (some m.env.prevMsgHash) posts ↔
      ∃ p older, posts = p :: older ∧ r.Missing p ∧ ∃ x ∈ r.next older, r.Fetched x := by
    cases posts with
    | nil => simp [Refused, next]
    | cons p older =>
      have hprev : m.env.prevMsgHash = p.msgHash := (isChain_cons_cons.mp h.linked).1
      have hother : ∀ x ∈ r.next older, p.msgHash ≠ x.msgHash := fun x hx heq =>
        (nodup_cons.mp h.tail.distinct).1 (mem_map.mpr ⟨x, mem_next hx, heq.symm⟩)
      rw [Refused, next_cons, hprev]
      grind
  rw [HasGap, hgap]
  simp only [suffix_cons_iff, HasGap]
  grind

/-! ## The loop -/

theorem Honest.validate_cons (h : r.Honest (m :: posts)) : r.validate e ((m :: posts).map (·.msgHash)) =
    if r.Fetched m then
      if e.any (· ≠ m.msgHash) then r.validate none (posts.map (·.msgHash))
      else r.pending m.msgHash m.env :: r.validate (some m.env.prevMsgHash) (posts.map (·.msgHash))
    else r.validate (if m.msgHash ∈ r.dedup then none else e) (posts.map (·.msgHash)) := by
  have hprev : ¬ (m.env.prevMsgHash ≠ (posts.map (·.msgHash)).headD (.fill 0) ∧
      (posts.map (·.msgHash)).headD (.fill 0) ≠ .fill 0) := by
    cases posts with
    | nil => simp
    | cons p posts => exact fun hne => hne.1 (isChain_cons_cons.mp h.linked).1
  rw [map_cons, validate]
  by_cases hseen : m.msgHash ∈ r.dedup
  · simp [Fetched, hseen]
  · obtain hget | ⟨data, hget⟩ := Option.eq_none_or_eq_some (r.immutableGet m.msgHash)
    · simp [Fetched, hseen, hget]
    · simp [Fetched, hseen, hget, h.opens m mem_cons_self data hget, h.owned m mem_cons_self, hprev,
        -headD_eq_head?_getD]

theorem Honest.validate_iff (h : r.Honest posts) : r.validate e (posts.map (·.msgHash)) <+ r.fetched posts ∧
    (r.validate e (posts.map (·.msgHash)) = r.fetched posts ↔ ¬ r.Refused e posts ∧ ¬ r.HasGap posts) := by
  induction posts generalizing e with
  | nil => simp [validate, fetched, Refused, HasGap, next]
  | cons m posts ih =>
    have hnone : ¬ r.Refused none posts := by simp [Refused]
    rw [h.validate_cons, h.hasGap_cons, refused_cons]
    simp only [fetched, filter_cons, decide_eq_true_eq] at ih ⊢
    by_cases hm : r.Fetched m
    · have hpresent : ¬ r.Missing m := fun hmiss => by simp [Fetched, hmiss.2] at hm
      rw [if_pos hm, if_pos hm, map_cons]
      by_cases he : e.any (· ≠ m.msgHash)
      · -- the message is dropped, and no later one makes up for it
        have hlost := (ih h.tail (e := none)).1
        rw [if_pos he]
        refine ⟨hlost.cons _, iff_of_false (fun heq => ?_) (by tauto)⟩
        exact (heq ▸ hlost).length_le.not_gt (Nat.lt_succ_self _)
      · rw [if_neg he, cons.injEq, cons_sublist_cons, (ih h.tail).2]
        exact ⟨(ih h.tail).1, by tauto⟩
    · rw [if_neg hm, if_neg hm, (ih h.tail).2]
      refine ⟨(ih h.tail).1, ?_⟩
      by_cases hseen : m.msgHash ∈ r.dedup
      · simp [hm, hseen, hnone, Missing]
      · have hmiss : r.Missing m := ⟨hseen, by simpa [Fetched, hseen] using hm⟩
        simp [hm, hseen, hmiss]

variable (r) in
/-- A list of hashes of an honest feed, with the messages. -/
structure Feed where
  posts : List Posted
  honest : r.Honest posts

/-- **What was fetched of an honest feed is returned, in the order of the list, just when no two messages that were fetched
have only missing ones between them.** -/
theorem none_hidden_iff (feed : r.Feed) : r.fetchAndValidateMessages (feed.posts.map (·.msgHash)) = r.fetched feed.posts ↔
    ¬ r.HasGap feed.posts := by
  have hnone : ¬ r.Refused none feed.posts := by simp [Refused]
  rw [fetchAndValidateMessages, feed.honest.validate_iff.2]
  exact and_iff_right hnone

/-! ## A gap -/

/-- The hashes count down, and the data of a message is its number. -/
def posted (n : UInt8) : Posted := ⟨.fill n, .fill 9, .fill (n - 1), 0, "", ""⟩

def withoutTwo : Reader where
  immutableGet h := if h = .fill 2 then none else some (h.1.take 1)
  envelope data := data.head?.map fun n => (posted n).env
  ownerPubkey := .fill 9
  feedPubkey := .fill 8
  selfIdPubkey := .fill 7
  dedup := []

/-- The oldest of three messages is fetched, and dropped. -/
theorem oldest_hidden : withoutTwo.Honest [posted 3, posted 2, posted 1] ∧
    (withoutTwo.fetchAndValidateMessages [.fill 3, .fill 2, .fill 1]).map (·.msgHash) = [.fill 3] ∧
    (withoutTwo.fetched [posted 3, posted 2, posted 1]).map (·.msgHash) = [.fill 3, .fill 1] := by
  exact ⟨⟨by decide, by decide, by decide, by decide⟩, by decide, by decide⟩

end Reader
end Peeroxide.Chat
