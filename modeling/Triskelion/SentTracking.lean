import Mathlib.Data.Bool.Count
import Triskelion.MessageRouting
import Triskelion.RunRules

/-! The tracker of sent messages (`sent_messages.rs`) through whole runs. What is tracked is
returned once or still pending, and the profile of a message code is what its replies vote
for: a reply of zero, or a receiver that disconnects, for the fast path, any other reply
against it. -/

namespace Triskelion

open RunRules List Table MsgProfile PendingSentMessage

namespace SentMessages

/-- The senders are returned in the order in which they sent. -/
def drainAllForReceiver (m : SentMessages) (receiver : UInt32) : List UInt32 × SentMessages :=
  match m.pending.get? receiver with
  | none => ([], m)
  | some msgs =>
    (msgs.reverse.map senderTid,
      -- a receiver that disconnects votes as a reply of zero does
      msgs.reverse.foldl (fun m msg => m.observeReply msg.msgCode 0)
        { m with pending := m.pending.erase receiver })

inductive Call
  | track (msg : PendingSentMessage)
  | drainOne (receiver : UInt32)
  | observeReply (msgCode : UInt32) (result : UInt64)
  | drainAll (receiver : UInt32)

/-- The lists are for judging a run; an observation is a code and whether the reply was zero. -/
structure Tracker where
  messages : SentMessages
  tracked : List PendingSentMessage
  returned : List PendingSentMessage
  observed : List (UInt32 × Bool)

def Tracker.start : Tracker := ⟨⟨.empty, .empty⟩, [], [], []⟩

def step (t : Tracker) : Call → Tracker
  | .track msg => { t with messages := t.messages.track msg, tracked := t.tracked ++ [msg] }
  | .drainOne receiver =>
    match t.messages.drainOneWithCode receiver with
    | none => t
    | some (_, messages) =>
      { t with messages, returned := t.returned ++ (t.messages.peek receiver).toList }
  | .observeReply msgCode result =>
    { t with
      messages := t.messages.observeReply msgCode result
      observed := t.observed ++ [(msgCode, decide (result = 0))] }
  | .drainAll receiver =>
    let msgs := (t.messages.pendingFor receiver).reverse
    { t with
      messages := (t.messages.drainAllForReceiver receiver).2
      returned := t.returned ++ msgs
      observed := t.observed ++ msgs.map fun msg => (msg.msgCode, true) }

/-- Of every message as many are tracked as were returned or are pending, the pending ones of
a receiver stand newest first, and no receiver has an empty list. -/
structure Booked (t : Tracker) : Prop where
  conserved : ∀ x, t.tracked.count x =
    t.returned.count x + t.messages.pending.total fun msgs => msgs.count x
  newest : ∀ receiver, (t.messages.pendingFor receiver).reverse.Sublist
    (t.tracked.filter fun msg => msg.receiverTid = receiver)
  nonempty : ∀ receiver msgs, t.messages.pending.get? receiver = some msgs → msgs ≠ []

/-! ### What is pending -/

variable {m : SentMessages} {t : Tracker} {receiver : UInt32}

theorem pending_foldl_observe (msgs : List PendingSentMessage) :
    (msgs.foldl (fun m msg => m.observeReply msg.msgCode 0) m).pending = m.pending := by
  induction msgs generalizing m with
  | nil => rfl
  | cons msg later ih => exact ih

theorem get?_drainAll (m : SentMessages) (receiver tid : UInt32) :
    (m.drainAllForReceiver receiver).2.pending.get? tid =
      if tid = receiver then none else m.pending.get? tid := by
  unfold drainAllForReceiver
  cases found : m.pending.get? receiver with
  | none =>
    split_ifs with same
    · rw [same, found]
    · rfl
  | some => rw [pending_foldl_observe, Table.get?_erase]

theorem count_pendingFor (m : SentMessages) (receiver : UInt32) (x : PendingSentMessage) :
    ((m.pending.get? receiver).map fun msgs => msgs.count x).getD 0 =
      (m.pendingFor receiver).count x := by
  unfold pendingFor
  cases m.pending.get? receiver <;> rfl

theorem Booked.track (booked : Booked t) (msg : PendingSentMessage) : Booked (step t (.track msg)) := by
  refine ⟨fun x => ?_, fun receiver => ?_, ?_⟩
  · have sum := t.messages.pending.total_insert (fun msgs => msgs.count x) msg.receiverTid
      (msg :: t.messages.pendingFor msg.receiverTid)
    have before := booked.conserved x
    rw [count_pendingFor] at sum
    simp only [step, SentMessages.track, count_append, count_cons, count_nil] at sum ⊢
    omega
  · have before := booked.newest receiver
    simp only [step, pendingFor, SentMessages.track, get?_insert, filter_append] at before ⊢
    split
    · next here =>
      subst here
      simpa using before.append (Sublist.refl [msg])
    · exact before.trans (sublist_append_left _ _)
  · exact forall_insert booked.nonempty (cons_ne_nil _ _)

/-- The newest messages of a receiver go, and its list with them if none is left. -/
theorem Booked.shrink (booked : Booked t) {u : Tracker} {gone rest : List PendingSentMessage}
    (front : t.messages.pendingFor receiver = gone ++ rest) (tracked : u.tracked = t.tracked)
    (returned : u.returned.Perm (t.returned ++ gone))
    (pending : u.messages.pending = if rest = [] then t.messages.pending.erase receiver
      else t.messages.pending.insert receiver rest) : Booked u := by
  refine ⟨fun x => ?_, fun other => ?_, fun other msgs found => ?_⟩
  · have before := booked.conserved x
    have erased := t.messages.pending.total_erase (fun msgs => msgs.count x) receiver
    have inserted := t.messages.pending.total_insert (fun msgs => msgs.count x) receiver rest
    rw [count_pendingFor, front, count_append] at erased inserted
    rw [tracked, pending, returned.count_eq, count_append]
    split
    · next none_ =>
      rw [none_, count_nil] at erased
      omega
    · omega
  · have before := booked.newest other
    have after : u.messages.pendingFor other =
        if other = receiver then rest else t.messages.pendingFor other := by
      split <;> grind [get?_erase, get?_insert, pendingFor]
    rw [tracked, after]
    split
    · next here =>
      rw [here, front, reverse_append] at before
      rw [here]
      exact (sublist_append_left _ _).trans before
    · exact before
  · rw [pending] at found
    split at found
    · exact booked.nonempty other msgs (of_erase found).2
    · next more => exact forall_insert booked.nonempty more other msgs found

theorem Booked.step (booked : Booked t) (call : Call) : Booked (step t call) := by
  cases call with
  | track msg => exact booked.track msg
  | observeReply => exact ⟨booked.conserved, booked.newest, booked.nonempty⟩
  | drainOne receiver =>
    simp only [SentMessages.step, drainOneWithCode, peek]
    cases front : t.messages.pendingFor receiver with
    | nil => exact booked
    | cons msg rest => exact booked.shrink front rfl (.refl _) rfl
  | drainAll receiver =>
    simp only [SentMessages.step, drainAllForReceiver]
    cases found : t.messages.pending.get? receiver with
    | none => simpa [pendingFor, found] using ⟨booked.conserved, booked.newest, booked.nonempty⟩
    | some msgs =>
      have front : t.messages.pendingFor receiver = msgs ++ [] := by simp [pendingFor, found]
      refine booked.shrink front rfl ?_ (pending_foldl_observe _)
      simpa [pendingFor, found] using (reverse_perm msgs).append_left _

/-- One message is drained from the front, as `peek` shows it, and all of them from the back. -/
theorem messages_booked (calls : List Call) (receiver : UInt32) :
    let t := run step .start calls
    Booked t ∧ (t.messages.drainOneWithCode receiver).map Prod.fst =
        (t.messages.peek receiver).map (fun msg => (msg.senderTid, msg.msgCode)) ∧
      t.messages.peek receiver = (t.messages.pendingFor receiver).head? ∧
      (t.messages.drainAllForReceiver receiver).1 =
        ((t.messages.pendingFor receiver).map senderTid).reverse := by
  have start : Booked .start :=
    ⟨fun _ => rfl, by simp [Tracker.start, pendingFor], by simp [Tracker.start]⟩
  intro t
  refine ⟨good_run (fun _ call booked _ => booked.step call) start
    (allSteps_of_forall (fun _ _ => trivial) _ _), ?_, rfl, ?_⟩
  · unfold drainOneWithCode peek
    cases t.messages.pendingFor receiver <;> rfl
  · unfold drainAllForReceiver pendingFor
    cases t.messages.pending.get? receiver <;> simp

/-- Two messages are returned in the order in which they were sent. -/
theorem oldest_drained_first : ¬ ∀ t ∈ states step .start
      [.track ⟨1, 9, 0, 0, 0, 0, 0⟩, .track ⟨2, 9, 0, 0, 0, 0, 0⟩], ∀ receiver,
    (t.messages.drainAllForReceiver receiver).1 =
      (t.messages.pendingFor receiver).map senderTid := by
  intro newest
  exact absurd (newest _ (run_mem_states _ _) 9) (by decide)

end SentMessages

/-! ### Votes -/

namespace MsgProfile

def observe (p : MsgProfile) (zero : Bool) : MsgProfile :=
  let p := { p with observations := p.observations + 1 }
  if zero then { p with fastVotes := p.fastVotes + 1 }.checkPromote
  else { p with trackedVotes := p.trackedVotes + 1 }.demote

def votes (replies : List Bool) : MsgProfile := replies.foldl observe new

structure Disciplined (replies : List Bool) : Prop where
  bounded : (votes replies).fastVotes.toNat + (votes replies).trackedVotes.toNat ≤
    (votes replies).observations.toNat
  promoted : ∀ before last, replies = before ++ [last] → (votes before).promoted = false →
    (votes replies).promoted → 8 ≤ (votes replies).observations.toNat ∧
      9 * (votes replies).observations.toNat ≤ 10 * (votes replies).fastVotes.toNat
  demoted : ∀ before, replies = before ++ [false] → (votes replies).promoted = false
  again : ∀ before after, replies = before ++ false :: after → (votes before).promoted →
    (votes replies).promoted → 9 * (votes (before ++ [false])).observations.toNat ≤ after.count true

variable {replies : List Bool} {p : MsgProfile} {zero : Bool}

theorem votes_append (before after : List Bool) :
    votes (before ++ after) = after.foldl observe (votes before) := foldl_append

theorem observations_observe : (p.observe zero).observations = p.observations + 1 := by
  unfold observe checkPromote demote
  grind

theorem trackedVotes_observe :
    (p.observe zero).trackedVotes = p.trackedVotes + if zero then 0 else 1 := by
  unfold observe checkPromote demote
  grind

theorem fastVotes_observe : (p.observe zero).fastVotes =
    if zero then p.fastVotes + 1 else if p.promoted then 0 else p.fastVotes := by
  unfold observe checkPromote demote
  grind

theorem promoted_observe_false : (p.observe false).promoted = false := by
  unfold observe demote
  grind

/-- A promotion is made on the counts that it leaves. -/
theorem promoted_observe (plain : p.promoted = false) (now : (p.observe zero).promoted) :
    8 ≤ (p.observe zero).observations.toNat ∧
      9 * (p.observe zero).observations.toNat ≤ 10 * (p.observe zero).fastVotes.toNat := by
  have sure : (p.observe zero).confident := by
    unfold observe checkPromote demote at now ⊢
    grind [confident]
  simpa [confident, minObservations, UInt32.le_iff_toNat_le] using sure

theorem toNat_observations (p : MsgProfile) (after : List Bool)
    (few : p.observations.toNat + after.length < 2 ^ 32) :
    (after.foldl observe p).observations.toNat = p.observations.toNat + after.length := by
  induction after generalizing p with
  | nil => rfl
  | cons zero later ih =>
    rw [length_cons] at few
    have next : (p.observe zero).observations.toNat = p.observations.toNat + 1 := by
      rw [observations_observe, UInt32.toNat_add]
      exact Nat.mod_eq_of_lt (by simp; omega)
    rw [foldl_cons, ih _ (by omega), next, length_cons]
    omega

theorem toNat_fastVotes_le {n : Nat} (zero : Bool) (most : p.fastVotes.toNat ≤ n) :
    (p.observe zero).fastVotes.toNat ≤ n + [zero].count true := by
  rw [fastVotes_observe]
  cases zero <;> cases p.promoted <;> simp <;> omega

theorem tally (few : replies.length < 2 ^ 32) :
    (votes replies).fastVotes.toNat ≤ replies.count true ∧
      (votes replies).trackedVotes.toNat = replies.count false := by
  induction replies using reverseRecOn with
  | nil => decide
  | append_singleton before last ih =>
    rw [length_append, length_singleton] at few
    obtain ⟨fast, tracked⟩ := ih (by omega)
    have short := count_le_length (a := false) (l := before)
    rw [votes_append, count_append, count_append]
    refine ⟨toNat_fastVotes_le last fast, ?_⟩
    rw [foldl_cons, foldl_nil, trackedVotes_observe]
    cases last <;> simp <;> omega

/-- From a profile without fast votes the old observations count against a promotion. -/
theorem slow (p : MsgProfile) (after : List Bool) (plain : p.promoted = false)
    (none_ : p.fastVotes = 0)
    (few : p.observations.toNat + after.length < 2 ^ 32) :
    9 * p.observations.toNat ≤ after.count true ∨ (after.foldl observe p).promoted = false ∧
      (after.foldl observe p).fastVotes.toNat ≤ after.count true := by
  induction after using reverseRecOn with
  | nil => exact .inr ⟨plain, by simp [none_]⟩
  | append_singleton before last ih =>
    rw [length_append, length_singleton] at few
    rw [count_append, foldl_append]
    obtain enough | ⟨still, fast⟩ := ih (by omega)
    · exact .inl (enough.trans (Nat.le_add_right _ _))
    have total := toNat_observations p (before ++ [last]) (by simpa using few)
    have fast := toNat_fastVotes_le last fast
    have short := count_le_length (a := true) (l := before ++ [last])
    rw [foldl_append, length_append] at total
    rw [count_append, length_append] at short
    by_cases now : ((before.foldl observe p).observe last).promoted
    · have := promoted_observe still now
      exact .inl (by simp only [foldl_cons, foldl_nil] at *; omega)
    · exact .inr ⟨by simpa using now, fast⟩

theorem disciplined (few : replies.length < 2 ^ 32) : Disciplined replies := by
  have total := toNat_observations new replies (by simpa [new] using few)
  refine ⟨?_, fun before last here plain now => ?_, fun before here => ?_,
    fun before after here high now => ?_⟩
  · obtain ⟨fast, tracked⟩ := tally few
    have all := count_true_add_count_false replies
    simp only [votes, new] at *
    omega
  · subst here
    rw [votes_append] at now ⊢
    exact promoted_observe plain now
  · rw [here, votes_append]
    exact promoted_observe_false
  · subst here
    rw [length_append, length_cons] at few
    rw [append_cons] at now
    have seen := toNat_observations new (before ++ [false]) (by simp [new]; omega)
    have late := slow (votes (before ++ [false])) after
      (by rw [votes_append]; exact promoted_observe_false)
      (by rw [votes_append, foldl_cons, foldl_nil, fastVotes_observe]; simp [high])
      (by simp [votes, new] at seen ⊢; omega)
    rw [← votes_append, now] at late
    simpa using late

end MsgProfile

namespace SentMessages

variable {m : SentMessages} {t : Tracker} {code : UInt32}

def profileOf (m : SentMessages) (code : UInt32) : MsgProfile :=
  (m.profiles.get? code).getD new

def repliesTo (code : UInt32) (observed : List (UInt32 × Bool)) : List Bool :=
  (observed.filter fun seen => seen.1 = code).map Prod.snd

theorem votes_repliesTo_append (before after : List (UInt32 × Bool)) :
    votes (repliesTo code (before ++ after)) =
      (repliesTo code after).foldl .observe (.votes (repliesTo code before)) := by
  rw [repliesTo, filter_append, map_append, votes_append]
  rfl

theorem profileOf_observeReply (other : UInt32) (result : UInt64) :
    (m.observeReply other result).profileOf code =
      (repliesTo code [(other, decide (result = 0))]).foldl .observe (m.profileOf code) := by
  simp only [profileOf, observeReply, get?_insert, repliesTo, filter_cons]
  grind [observe]

theorem profileOf_foldl_observe (msgs : List PendingSentMessage) :
    (msgs.foldl (fun m msg => m.observeReply msg.msgCode 0) m).profileOf code =
      (repliesTo code (msgs.map fun msg => (msg.msgCode, true))).foldl .observe
        (m.profileOf code) := by
  induction msgs generalizing m with
  | nil => rfl
  | cons msg later ih =>
    rw [foldl_cons, ih, profileOf_observeReply, ← foldl_append]
    simp only [repliesTo, map_cons, filter_cons]
    grind

def Voted (t : Tracker) : Prop :=
  ∀ code, t.messages.profileOf code = .votes (repliesTo code t.observed)

theorem Voted.step (voted : Voted t) (call : Call) : Voted (step t call) := by
  intro code
  have before := voted code
  cases call with
  | track => exact before
  | drainOne receiver =>
    simp only [SentMessages.step, drainOneWithCode]
    cases t.messages.pendingFor receiver <;> exact before
  | observeReply other result =>
    simp only [SentMessages.step]
    rw [profileOf_observeReply, before, votes_repliesTo_append]
  | drainAll receiver =>
    simp only [SentMessages.step, drainAllForReceiver, pendingFor]
    cases t.messages.pending.get? receiver with
    | none => simpa using before
    | some msgs =>
      rw [votes_repliesTo_append, ← before]
      exact profileOf_foldl_observe _

/-- The profile of a code is what its replies vote for, and the votes keep their discipline. -/
theorem profiles_disciplined (calls : List Call) (code : UInt32)
    (few : (repliesTo code (run step .start calls).observed).length < 2 ^ 32) :
    (run step .start calls).messages.profileOf code =
        .votes (repliesTo code (run step .start calls).observed) ∧
      Disciplined (repliesTo code (run step .start calls).observed) := by
  have voted : Voted (run step .start calls) :=
    good_run (fun _ call voted _ => Voted.step voted call) (fun _ => rfl)
      (allSteps_of_forall (fun _ _ => trivial) _ _)
  exact ⟨voted code, disciplined few⟩

/-- Eight replies of 0 promote the code, and another reply demotes it. -/
theorem profiles_disciplined_eight :
    let eight := replicate 8 (Call.observeReply 15 0)
    (run step .start eight).messages.shouldFastPath 15 ∧
      (run step .start (eight ++ [.observeReply 15 1])).messages.shouldFastPath 15 = false ∧
      Disciplined (repliesTo 15 (run step .start (eight ++ [.observeReply 15 1])).observed) :=
  ⟨by decide, by decide, (profiles_disciplined _ 15 (by decide)).2⟩

end SentMessages

end Triskelion
