import Triskelion.ReplyCorrelation

/-! How often a message is returned. A tracked send is in two places, the ring and
the pending stack, and `get_message` reads the stack without taking anything out.
As long as no `get_message` reads the stack, what a receiver has been given and
what is in its ring together are what was queued for it, in order. -/

namespace Triskelion.ExactlyOnceDelivery

open MessageServer MessageJournal RunRules List Traced Journal

/-- A `get_message` does not come to the tracked sends: nothing is tracked for the
thread, or the filter leaves sent messages out. -/
def RingOnly (t : Traced) : MessageRequest → Prop
  | .get fd req => ∀ r, t.server.clientThreadId fd = some r → admits req qsSendmessage →
      t.server.sentMessages.pendingFor r = []
  | _ => True

/-- A `get_message` of thread `r` whose filter admits posted messages, as an
all-input filter does. -/
def polls (r : UInt32) (t : Traced) : MessageRequest → Bool
  | .get fd req => t.server.clientThreadId fd = some r && admits req qsPostmessage
  | _ => false

def pollCount (T : MsgTypes) (r : UInt32) : Traced → List MessageRequest → Nat
  | _, [] => 0
  | t, request :: rest =>
    (if polls r t request then 1 else 0) + pollCount T r (t.step T request) rest

variable {r : UInt32} {request : MessageRequest} {t : Traced} {T : MsgTypes}
  {requests : List MessageRequest}

theorem get_peeked {s : MessageServer} {fd : Int32} {req : GetMessageRequest}
    (event : (s.handleGetMessage T fd req).event = .peeked r) :
    s.clientThreadId fd = some r ∧ admits req qsSendmessage ∧ s.sentMessages.pendingFor r ≠ [] := by
  unfold handleGetMessage at event
  split at event
  · cases event
  next tid thread =>
  split at event
  · next p peeked =>
    cases event
    split at peeked
    · next admitted =>
      refine ⟨thread, admitted, fun none_ => ?_⟩
      simp [SentMessages.peek, none_] at peeked
    · cases peeked
  · repeat' split at event
    all_goals cases event

theorem not_peeked (T : MsgTypes) (ringOnly : RingOnly t request) (r : UInt32) :
    (t.server.handle T request).event ≠ .peeked r := by
  cases request with
  | send =>
    simp only [handle, handleSendMessage]
    repeat' split
    all_goals simp
  | get =>
    intro event
    obtain ⟨thread, admitted, some_⟩ := get_peeked event
    exact some_ (ringOnly r thread admitted)
  | reply =>
    simp only [handle, handleReplyMessage]
    repeat' split
    all_goals simp
  | elsewhere => simp [handle]

theorem polls_taken (mirror : Mirror t) (ringOnly : RingOnly t request)
    (poll : polls r t request) (some_ : t.journal.ring r ≠ []) :
    (t.server.handle T request).event = .taken r := by
  cases request with
  | get _ req =>
    simp only [polls, Bool.and_eq_true, decide_eq_true_eq] at poll
    obtain ⟨thread, admitted⟩ := poll
    have untracked : (if admits req qsSendmessage = true then t.server.sentMessages.peek r
        else none) = none := by
      split
      · next sent => simp [SentMessages.peek, ringOnly r thread sent]
      · rfl
    have contents := mirror.ring r
    have posted : ∃ msg s', t.server.takePosted r req = some (msg, s') := by
      unfold ringContents at contents
      cases found : t.server.queues.get? r with
      | none =>
        rw [found] at contents
        exact absurd (map_eq_nil_iff.mp contents.symm) some_
      | some q =>
        rw [found] at contents
        have front : q.posted.pop ≠ none := by
          rw [ne_eq, MessageRing.pop_eq_none]
          intro none_
          rw [Option.map_some, none_] at contents
          exact some_ (map_eq_nil_iff.mp contents.symm)
        obtain ⟨⟨msg, posted⟩, popped⟩ := Option.ne_none_iff_exists'.mp front
        simp [takePosted, admitted, found, ThreadQueue.get, popped]
    obtain ⟨msg, s', posted⟩ := posted
    simp only [handle, handleGetMessage, thread, untracked, posted]
  | _ => cases poll

/-- What was queued for a receiver is what it has been given, in order, and then
what is in its ring; every envelope has a number of its own. -/
structure Accounted (t : Traced) : Prop where
  mirror : Mirror t
  log : ∀ r, t.journal.log r = t.journal.delivered r ++ t.journal.ring r
  small : ∀ r, ∀ e ∈ t.journal.log r, e.id < t.journal.nextId
  nodup : ∀ r, ((t.journal.log r).map (·.id)).Nodup

/-- One step for one receiver: nothing changes, an envelope with a new number is
queued, or the oldest one in the ring is given out. -/
inductive ReceiverStep (j j' : Journal) (r : UInt32) : Prop
  | same (log : j'.log r = j.log r) (delivered : j'.delivered r = j.delivered r)
      (ring : j'.ring r = j.ring r) (next : j.nextId ≤ j'.nextId)
  | queued (e : Envelope) (fresh : e.id = j.nextId) (next : j'.nextId = j.nextId + 1)
      (log : j'.log r = j.log r ++ [e]) (delivered : j'.delivered r = j.delivered r)
      (ring : j'.ring r = j.ring r ++ [e])
  | given (e : Envelope) (log : j'.log r = j.log r) (next : j'.nextId = j.nextId)
      (delivered : j'.delivered r = j.delivered r ++ [e]) (ring : j.ring r = e :: j'.ring r)

theorem receiverStep_record {j : Journal} {event : MessageEvent} (r : UInt32)
    (noPeek : ∀ x, event ≠ .peeked x) (front : ∀ x, event = .taken x → j.ring x ≠ []) :
    ReceiverStep j (j.record event) r := by
  cases event with
  | nothing | replied => exact .same rfl rfl rfl le_rfl
  | peeked x => exact absurd rfl (noPeek x)
  | queued x sender msg blocking tracked =>
    by_cases here : r = x
    · subst here
      exact .queued ⟨j.nextId, sender, msg, blocking, tracked⟩ rfl rfl
        (by simp [record]) rfl (by simp [record])
    · exact .same (by simp [record, here]) rfl (by simp [record, here])
        (Nat.le_succ _)
  | taken x =>
    obtain ⟨e, rest, here⟩ := exists_cons_of_ne_nil (front x rfl)
    by_cases own : r = x
    · subst own
      refine .given e ?_ ?_ ?_ ?_
      all_goals simp [record, here, obtain]
    · refine .same ?_ ?_ ?_ ?_
      all_goals simp [record, here, obtain, own]

theorem taken_front (T : MsgTypes) (mirror : Mirror t)
    (event : (t.server.handle T request).event = .taken r) : t.journal.ring r ≠ [] := by
  have effect := handle_storeStep T t.server request
  rw [event] at effect
  cases effect with
  | taken _ _ _ found front =>
    have contents := mirror.ring r
    rw [ringContents, found, Option.map_some, get_contents front] at contents
    intro none_
    simp [none_] at contents

theorem receiverStep (T : MsgTypes) (mirror : Mirror t) (ringOnly : RingOnly t request) (r : UInt32) :
    ReceiverStep t.journal (t.step T request).journal r :=
  receiverStep_record r (not_peeked T ringOnly) fun _ event => taken_front T mirror event

theorem accounted_step (T : MsgTypes) (t : Traced) (request : MessageRequest)
    (accounted : Accounted t) (ringOnly : RingOnly t request) : Accounted (t.step T request) := by
  have step := receiverStep T accounted.mirror ringOnly
  refine ⟨mirror_step T t request accounted.mirror, fun r => ?_, fun r e mem => ?_, fun r => ?_⟩
  · cases step r with
    | same log delivered ring => rw [log, delivered, ring, accounted.log r]
    | queued _ _ _ log delivered ring =>
      rw [log, delivered, ring, accounted.log r, append_assoc]
    | given _ log _ delivered ring =>
      rw [log, delivered, accounted.log r, ring, append_assoc, singleton_append]
  · cases step r with
    | same log _ _ next => exact (accounted.small r e (log ▸ mem)).trans_le next
    | queued _ _ _ log =>
      rw [log, mem_append, mem_singleton] at mem
      rcases mem with old | rfl
      · have := accounted.small r e old
        omega
      · omega
    | given _ log next => exact next ▸ accounted.small r e (log ▸ mem)
  · cases step r with
    | same log | given _ log => exact log ▸ accounted.nodup r
    | queued _ _ _ log =>
      rw [log, map_append, map_singleton]
      refine (accounted.nodup r).append (nodup_singleton _) ?_
      intro i mem new
      obtain ⟨f, old, rfl⟩ := mem_map.mp mem
      have := accounted.small r f old
      have := mem_singleton.mp new
      omega

theorem accounted_start (around : MessageSurroundings) (threads : List UInt32)
    (profiles : Table UInt32 MsgProfile) : Accounted ⟨start around threads profiles, .empty⟩ :=
  ⟨mirror_start around threads profiles, fun _ => rfl, by simp [empty], by simp [empty]⟩

/-! ### Whole runs -/

theorem log_run (accounted : Accounted t) (ringOnly : AllSteps (step T) RingOnly t requests)
    (r : UInt32) : t.journal.log r <+: (run (step T) t requests).journal.log r := by
  induction requests generalizing t with
  | nil => exact prefix_rfl
  | cons request rest ih =>
    refine List.IsPrefix.trans ?_ (ih (accounted_step T t request accounted ringOnly.1) ringOnly.2)
    cases receiverStep T accounted.mirror ringOnly.1 r with
    | same log | given _ log => rw [log]
    | queued _ _ _ log => exact log ▸ prefix_append _ _

theorem delivered_step (mirror : Mirror t) (ringOnly : RingOnly t request) (r : UInt32) :
    (t.journal.delivered r).length ≤ ((t.step T request).journal.delivered r).length := by
  cases receiverStep T mirror ringOnly r with
  | same _ delivered | queued _ _ _ _ delivered => rw [delivered]
  | given _ _ _ delivered => simp [delivered]

theorem delivered_poll (mirror : Mirror t) (ringOnly : RingOnly t request)
    (poll : polls r t request) (some_ : t.journal.ring r ≠ []) :
    ((t.step T request).journal.delivered r).length = (t.journal.delivered r).length + 1 := by
  obtain ⟨e, rest, here⟩ := exists_cons_of_ne_nil some_
  simp [step, polls_taken mirror ringOnly poll some_, record, here, obtain]

section
variable (accounted : Accounted t) (ringOnly : AllSteps (step T) RingOnly t requests)
include accounted ringOnly

/-- Every polling call brings the receiver one envelope further, up to the end of
what was queued. -/
theorem delivered_run (r : UInt32) (goal : Nat) (within : goal ≤ (t.journal.log r).length) :
    min goal ((t.journal.delivered r).length + pollCount T r t requests) ≤
      ((run (step T) t requests).journal.delivered r).length := by
  induction requests generalizing t with
  | nil => simp [run, pollCount]
  | cons request rest ih =>
    have accounted' := accounted_step T t request accounted ringOnly.1
    have step := receiverStep T accounted.mirror ringOnly.1 r
    have longer : (t.journal.log r).length ≤ ((t.step T request).journal.log r).length := by
      cases step with
      | same log | given _ log => rw [log]
      | queued _ _ _ log => simp [log]
    have later := ih accounted' ringOnly.2 (within.trans longer)
    have whole := congrArg List.length (accounted.log r)
    rw [length_append] at whole
    rw [run_cons, pollCount]
    have advance : (t.journal.delivered r).length + (if polls r t request = true then 1 else 0) ≤
        ((t.step T request).journal.delivered r).length ∨
        goal ≤ ((t.step T request).journal.delivered r).length := by
      have grows := delivered_step (T := T) accounted.mirror ringOnly.1 r
      by_cases poll : polls r t request
      · by_cases none_ : t.journal.ring r = []
        · rw [none_, length_nil] at whole
          omega
        · left
          rw [if_pos poll, delivered_poll accounted.mirror ringOnly.1 poll none_]
      · rw [if_neg poll]
        omega
    omega

theorem delivered_of_polls (enough : (t.journal.ring r).length ≤ pollCount T r t requests) :
    t.journal.log r <+: (run (step T) t requests).journal.delivered r := by
  have accounted' := good_run (accounted_step T) accounted ringOnly
  have whole := congrArg List.length (accounted.log r)
  rw [length_append] at whole
  have reached := delivered_run accounted ringOnly r (t.journal.log r).length le_rfl
  have queued := log_run accounted ringOnly r
  rw [accounted'.log r] at queued
  exact prefix_of_prefix_length_le queued (prefix_append _ _) (by omega)

end

/-- Along every run whose `get_message` calls leave the tracked sends alone, no
message is returned to its receiver twice, in any state reached; and after any
part of the run, a receiver that then makes as many polling calls as there are
messages in its ring has been returned all that was queued for it. -/
theorem run_exactly_once (T : MsgTypes) (around : MessageSurroundings) (threads : List UInt32)
    (profiles : Table UInt32 MsgProfile) (before after : List MessageRequest)
    (ringOnly : AllSteps (step T) RingOnly ⟨start around threads profiles, .empty⟩
      (before ++ after)) (r : UInt32) :
    (∀ t ∈ states (step T) ⟨start around threads profiles, .empty⟩ (before ++ after),
      ((t.journal.delivered r).map (·.id)).Nodup) ∧
    (((run (step T) ⟨start around threads profiles, .empty⟩ before).journal.ring r).length ≤
        pollCount T r (run (step T) ⟨start around threads profiles, .empty⟩ before) after →
      (run (step T) ⟨start around threads profiles, .empty⟩ before).journal.log r <+:
        (run (step T) ⟨start around threads profiles, .empty⟩ (before ++ after)).journal.delivered
          r) := by
  have opening := accounted_start around threads profiles
  constructor
  · intro t mem
    have accounted := good_of_allSteps (accounted_step T) opening ringOnly t mem
    have whole := accounted.nodup r
    rw [accounted.log r, map_append] at whole
    exact whole.of_append_left
  · intro enough
    obtain ⟨first, second⟩ := AllSteps.append.mp ringOnly
    rw [run_append]
    exact delivered_of_polls (good_run (accounted_step T) opening first) second enough

def postAndSend : List MessageRequest :=
  [.send 4 { id := 10, msgType := 6, win := 0x24, msg := 0x400, wparam := 0, lparam := 0 },
    sendTo 5 10 0x401]

def getPosted : List MessageRequest := List.replicate 2 (.get 3 { flags := 0x80001, now := 0 })

theorem run_exactly_once_posted :
    ((run (step headerTypes) ⟨threeProcesses, .empty⟩ postAndSend).journal.log 10).length = 2 ∧
    (run (step headerTypes) ⟨threeProcesses, .empty⟩ postAndSend).journal.log 10 <+:
      (run (step headerTypes) ⟨threeProcesses, .empty⟩ (postAndSend ++ getPosted)).journal.delivered
        10 := by
  refine ⟨rfl, (run_exactly_once headerTypes _ _ _ postAndSend getPosted ?_ 10).2 (by decide)⟩
  exact ⟨trivial, trivial, nofun, nofun, trivial⟩

def receivedTwice : List MessageRequest := [sendTo 4 10 0x400, getAll 3, .reply 3 0, getAll 3]

theorem receivedTwice_delivers_twice :
    ((run (step headerTypes) ⟨threeProcesses, .empty⟩ receivedTwice).journal.delivered
      10).map (·.id) = [0, 0] ∧
    ¬ ((run (step headerTypes) ⟨threeProcesses, .empty⟩ receivedTwice).journal.delivered
      10 |>.map (·.id)).Nodup := by
  decide

end Triskelion.ExactlyOnceDelivery
