import Triskelion.MessageRouting
import Triskelion.RunRules

/-! A journal of the messages between threads, kept next to the server: every
message put in a ring gets an envelope, and the journal follows where each
envelope is, what its receiver has been given and what it has answered. The
journal reads only the events; that the rings and the tracked sends hold what it
says is the simulation proved here, for every run. -/

namespace Triskelion
open Function SentMessages List Option RunRules

structure Envelope where
  id : Nat
  sender : UInt32
  msg : QueuedMessage
  blocking : Bool
  tracked : Bool
deriving DecidableEq

/-- Per receiver: the envelopes in its ring (oldest first), the tracked ones not
yet drained (newest first), the sent messages it has obtained and not answered
(innermost first), and all envelopes ever queued for it and given to it. -/
structure Journal where
  nextId : Nat
  ring : UInt32 → List Envelope
  pend : UInt32 → List Envelope
  owed : UInt32 → List Envelope
  log : UInt32 → List Envelope
  delivered : UInt32 → List Envelope
  answered : List Nat

namespace Journal

def empty : Journal :=
  ⟨0, fun _ => [], fun _ => [], fun _ => [], fun _ => [], fun _ => [], []⟩

/-- A receiver is given `e`. A sent message not answered before becomes the
innermost one it owes an answer to. -/
def obtain (j : Journal) (r : UInt32) (e : Envelope) : Journal :=
  { j with
    delivered := update j.delivered r (j.delivered r ++ [e])
    owed :=
      if e.blocking && e.id ∉ j.answered then
        update j.owed r (e :: (j.owed r).filter fun o => o.id ≠ e.id)
      else j.owed }

def record (j : Journal) : MessageEvent → Journal
  | .nothing => j
  | .queued r sender msg blocking tracked =>
    let e : Envelope := { id := j.nextId, sender, msg, blocking, tracked }
    { j with
      nextId := j.nextId + 1
      ring := update j.ring r (j.ring r ++ [e])
      pend := if tracked then update j.pend r (e :: j.pend r) else j.pend
      log := update j.log r (j.log r ++ [e]) }
  | .peeked r =>
    match j.pend r with
    | [] => j
    | e :: _ => j.obtain r e
  | .taken r =>
    match j.ring r with
    | [] => j
    | e :: rest => { j with ring := update j.ring r rest }.obtain r e
  | .replied r =>
    { j with
      pend := update j.pend r (j.pend r).tail
      owed := update j.owed r (j.owed r).tail
      answered := ((j.owed r).head?.map (·.id)).toList ++ j.answered }

end Journal

structure Traced where
  server : MessageServer
  journal : Journal

def Traced.step (T : MsgTypes) (t : Traced) (request : MessageRequest) : Traced :=
  let outcome := t.server.handle T request
  ⟨outcome.server, t.journal.record outcome.event⟩

namespace MessageJournal

open MessageServer

def trackedEntry (s : MessageServer) (fd : Int32) (req : SendMessageRequest) : PendingSentMessage :=
  { senderTid := (s.clientThreadId fd).getD 0, receiverTid := s.sendTarget req, msgCode := req.msg
    win := req.win, wparam := req.wparam, lparam := req.lparam, msgType := req.msgType }

/-- What a request does to the rings and the tracked sends, and what it returns
of them, by its event. -/
inductive StoreStep (s s' : MessageServer) (reply : GetMessageReply) :
    MessageRequest → MessageEvent → Prop
  | nothing {request : MessageRequest} (queues : s'.queues = s.queues)
      (pending : ∀ x, s'.sentMessages.pendingFor x = s.sentMessages.pendingFor x) :
      StoreStep s s' reply request .nothing
  | queued {fd : Int32} {req : SendMessageRequest} {same blocking tracked : Bool}
      (q q' : ThreadQueue) (found : s.queues.get? (s.sendTarget req) = some q)
      (room : q.post (wireMessage same req) = (true, q'))
      (queues : s'.queues = s.queues.insert (s.sendTarget req) q')
      (pending : ∀ x, s'.sentMessages.pendingFor x =
        if tracked ∧ x = s.sendTarget req then
          trackedEntry s fd req :: s.sentMessages.pendingFor (s.sendTarget req)
        else s.sentMessages.pendingFor x) :
      StoreStep s s' reply (.send fd req) (.queued (s.sendTarget req)
        ((s.clientThreadId fd).getD 0) (wireMessage same req) blocking tracked)
  | peeked {request : MessageRequest} {r : UInt32} (p : PendingSentMessage)
      (rest : List PendingSentMessage) (top : s.sentMessages.pendingFor r = p :: rest) (same : s' = s)
      (given : reply = sentReply p) : StoreStep s s' reply request (.peeked r)
  | taken {request : MessageRequest} {r : UInt32} (q q' : ThreadQueue) (msg : QueuedMessage)
      (found : s.queues.get? r = some q) (front : q.get = some (msg, q'))
      (queues : s'.queues = s.queues.insert r q')
      (pending : s'.sentMessages = s.sentMessages)
      (given : reply = queuedReply msg) : StoreStep s s' reply request (.taken r)
  | replied {request : MessageRequest} {r : UInt32} (queues : s'.queues = s.queues)
      (pending : ∀ x, s'.sentMessages.pendingFor x =
        if x = r then (s.sentMessages.pendingFor r).tail else s.sentMessages.pendingFor x) :
      StoreStep s s' reply request (.replied r)

variable {m : SentMessages} {p : PendingSentMessage}

theorem pendingFor_track (x : UInt32) : (m.track p).pendingFor x =
      if x = p.receiverTid then p :: m.pendingFor p.receiverTid else m.pendingFor x := by
  simp only [track, pendingFor, Table.get?_insert]
  split <;> rfl

variable {r : UInt32}

theorem drainOneWithCode_cons {rest : List PendingSentMessage} (top : m.pendingFor r = p :: rest) :
    ∃ drained, m.drainOneWithCode r = some ((p.senderTid, p.msgCode), drained) ∧
      ∀ x, drained.pendingFor x = if x = r then rest else m.pendingFor x := by
  simp only [drainOneWithCode, top]
  refine ⟨_, rfl, fun x => ?_⟩
  simp only [pendingFor]
  by_cases last : rest = []
  · rw [if_pos last, Table.get?_erase]
    split
    · exact last.symm
    · rfl
  · rw [if_neg last, Table.get?_insert]
    split <;> rfl

variable {T : MsgTypes} {s : MessageServer} {fd : Int32}

theorem send_storeStep (req : SendMessageRequest) :
    StoreStep s (s.handleSendMessage T fd req).server (s.handleSendMessage T fd req).reply
      (.send fd req) (s.handleSendMessage T fd req).event := by
  have unsent : ∀ reply, StoreStep s s reply (.send fd req) .nothing := fun _ => .nothing rfl fun _ => rfl
  unfold handleSendMessage
  dsimp only
  split
  · exact unsent _
  split
  · exact unsent _
  split
  · exact unsent _
  next queue found =>
  split
  · exact unsent _
  next ok =>
  have room : queue.post (wireMessage (s.sameProcess fd (s.sendTarget req)) req) =
      (true, (queue.post (wireMessage (s.sameProcess fd (s.sendTarget req)) req)).2) := by
    refine Prod.ext ?_ rfl
    simpa using ok
  have plain : ∀ reply blocking, StoreStep s (s.putQueue (s.sendTarget req) _) reply (.send fd req)
      (.queued (s.sendTarget req) ((s.clientThreadId fd).getD 0) _ blocking false) := fun _ _ =>
    .queued queue _ found room rfl (by simp [putQueue])
  have tracked : ∀ reply blocking, StoreStep s
      { s.putQueue (s.sendTarget req) _ with
        sentMessages := s.sentMessages.track (trackedEntry s fd req) } reply (.send fd req)
      (.queued (s.sendTarget req) ((s.clientThreadId fd).getD 0) _ blocking true) := fun _ _ =>
    .queued queue _ found room rfl (by simp [pendingFor_track, trackedEntry])
  split
  · exact plain _ _
  split
  · exact plain _ _
  split
  · exact tracked _ _
  split
  · exact plain _ _
  · exact tracked _ _

theorem get_storeStep (req : GetMessageRequest) :
    StoreStep s (s.handleGetMessage T fd req).server (s.handleGetMessage T fd req).reply
      (.get fd req) (s.handleGetMessage T fd req).event := by
  have quiet : ∀ s' reply, s'.queues = s.queues → s'.sentMessages = s.sentMessages →
      StoreStep s s' reply (.get fd req) .nothing := fun s' _ queues sent => .nothing queues fun _ => by rw [sent]
  unfold handleGetMessage
  split
  · exact quiet s _ rfl rfl
  next tid _ =>
  split
  · next p peeked =>
    have top : s.sentMessages.peek tid = some p := by
      split at peeked
      · exact peeked
      · cases peeked
    obtain ⟨rest, top⟩ := head?_eq_some_iff.mp top
    exact .peeked p rest top rfl rfl
  split
  · next msg s' posted =>
    unfold takePosted at posted
    split at posted
    · obtain ⟨q, found, rest⟩ := bind_eq_some_iff.mp posted
      obtain ⟨⟨m, q'⟩, front, same⟩ := map_eq_some_iff.mp rest
      obtain ⟨rfl, rfl⟩ := Prod.mk.inj same
      exact .taken q q' m found front rfl rfl rfl
    · cases posted
  split
  · next reply s' quit =>
    unfold takeQuit at quit
    split at quit
    · split at quit
      · obtain ⟨-, rfl⟩ := Prod.mk.inj (some.inj quit)
        split <;> exact quiet _ _ rfl rfl
      · cases quit
    · cases quit
  split
  · exact quiet s _ rfl rfl
  split
  · next reply s' timer =>
    unfold takeTimer at timer
    split at timer
    · split at timer
      · cases timer
      · obtain ⟨-, rfl⟩ := Prod.mk.inj (some.inj timer)
        split <;> exact quiet _ _ rfl rfl
    · cases timer
  · exact quiet s _ rfl rfl

theorem reply_storeStep (result : UInt64) :
    StoreStep s (s.handleReplyMessage fd result).server (s.handleReplyMessage fd result).reply
      (.reply fd result) (s.handleReplyMessage fd result).event := by
  unfold handleReplyMessage
  split
  · exact .nothing rfl fun _ => rfl
  next r _ =>
  cases top : s.sentMessages.pendingFor r with
  | nil =>
    have none_ : s.sentMessages.drainOneWithCode r = none := by
      simp only [drainOneWithCode, top]
    rw [none_]
    refine .replied rfl fun x => ?_
    by_cases same : x = r
    · rw [if_pos same, same, top, tail_nil]
    · rw [if_neg same]
  | cons p rest =>
    obtain ⟨drained, popped, pending⟩ := drainOneWithCode_cons top
    rw [popped]
    refine .replied rfl fun x => ?_
    refine (pending x).trans ?_
    rw [top, tail_cons]

theorem handle_storeStep (T : MsgTypes) (s : MessageServer) (request : MessageRequest) :
    StoreStep s (s.handle T request).server (s.handle T request).reply request
      (s.handle T request).event := by
  cases request with
  | send fd req => exact send_storeStep req
  | get fd req => exact get_storeStep req
  | reply fd result => exact reply_storeStep result
  | elsewhere => exact .nothing rfl fun _ => rfl

/-! ### The journal mirrors the server -/

def ringContents (s : MessageServer) (r : UInt32) : List QueuedMessage :=
  ((s.queues.get? r).map (·.posted.contents)).getD []

structure Matches (e : Envelope) (p : PendingSentMessage) : Prop where
  sender : p.senderTid = e.sender
  win : p.win = e.msg.win
  code : p.msgCode = e.msg.msg
  wparam : p.wparam = e.msg.wparam
  lparam : p.lparam = e.msg.lparam

structure Mirror (t : Traced) : Prop where
  ring : ∀ r, ringContents t.server r = (t.journal.ring r).map (·.msg)
  pend : ∀ r, Forall₂ Matches (t.journal.pend r) (t.server.sentMessages.pendingFor r)

theorem ringContents_congr {s' : MessageServer} (queues : s'.queues = s.queues) :
    ringContents s' r = ringContents s r := by
  rw [ringContents, queues, ringContents]

theorem ringContents_insert {s' : MessageServer} {q : ThreadQueue}
    (queues : s'.queues = s.queues.insert r q) (x : UInt32) :
    ringContents s' x = if x = r then q.posted.contents else ringContents s x := by
  rw [ringContents, queues, Table.get?_insert]
  split <;> rfl

variable {msg : QueuedMessage}

theorem post_contents {q q' : ThreadQueue} (room : q.post msg = (true, q')) :
    q'.posted.contents = q.posted.contents ++ [msg] := by
  have pushed := q.posted.push_contents msg
  unfold ThreadQueue.post at room
  dsimp only at room
  split at room
  · next ok =>
    obtain ⟨-, rfl⟩ := Prod.mk.inj room
    rw [pushed, if_pos ok]
  · cases (Prod.mk.inj room).1

theorem get_contents {q q' : ThreadQueue} (front : q.get = some (msg, q')) :
    q.posted.contents = msg :: q'.posted.contents := by
  obtain ⟨⟨m, posted⟩, popped, same⟩ := map_eq_some_iff.mp front
  obtain ⟨rfl, rfl⟩ := Prod.mk.inj same
  exact q.posted.pop_contents popped

theorem Mirror.front {t : Traced} {q q' : ThreadQueue} (mirror : Mirror t)
    (found : t.server.queues.get? r = some q) (front : q.get = some (msg, q')) :
    msg :: q'.posted.contents = (t.journal.ring r).map (·.msg) := by
  rw [← get_contents front, ← mirror.ring r, ringContents, found]
  rfl

theorem forall₂_tail {es : List Envelope} {ps : List PendingSentMessage}
    (h : Forall₂ Matches es ps) : Forall₂ Matches es.tail ps.tail := by
  cases h with
  | nil => exact .nil
  | cons _ rest => exact rest

theorem mirror_step (T : MsgTypes) (t : Traced) (request : MessageRequest) (mirror : Mirror t) :
    Mirror (t.step T request) := by
  have effect := handle_storeStep T t.server request
  unfold Traced.step
  generalize t.server.handle T request = outcome at effect ⊢
  obtain ⟨s', reply, signals, event⟩ := outcome
  cases effect with
  | nothing queues pending =>
    refine ⟨fun r => (ringContents_congr queues).trans (mirror.ring r), fun r => ?_⟩
    rw [pending]
    exact mirror.pend r
  | @queued fd req same blocking tracked q q' found room queues pending =>
    refine ⟨fun x => ?_, fun x => ?_⟩
    · simp only [ringContents_insert queues, Journal.record, update_apply]
      split
      · have before : q.posted.contents =
            (t.journal.ring (t.server.sendTarget req)).map (·.msg) := by
          rw [← mirror.ring, ringContents, found]
          rfl
        rw [post_contents room, before, map_append]
        rfl
      · exact mirror.ring x
    · rw [pending]
      cases tracked with
      | false => simpa [Journal.record] using mirror.pend x
      | true =>
        simp only [Journal.record, update_apply, true_and, if_true]
        split
        · exact .cons ⟨rfl, rfl, rfl, rfl, rfl⟩ (mirror.pend _)
        · exact mirror.pend x
  | @peeked _ r p rest top same given =>
    subst same
    simp only [Journal.record]
    split
    · exact mirror
    · exact ⟨mirror.ring, mirror.pend⟩
  | @taken _ r q q' msg found front queues pending given =>
    have before := mirror.front found front
    simp only [Journal.record]
    split
    · next none_ => simp [none_] at before
    · next e later here =>
      rw [here] at before
      refine ⟨fun x => ?_, fun x => ?_⟩
      · simp only [ringContents_insert queues, Journal.obtain, update_apply]
        split
        · exact (cons.inj before).2
        · exact mirror.ring x
      · rw [pending]
        exact mirror.pend x
  | @replied _ r queues pending =>
    refine ⟨fun x => (ringContents_congr queues).trans (mirror.ring x), fun x => ?_⟩
    simp only [pending, Journal.record, update_apply]
    split
    · exact forall₂_tail (mirror.pend r)
    · exact mirror.pend x

section
variable (around : MessageSurroundings) (threads : List UInt32) (profiles : Table UInt32 MsgProfile)
include around

theorem ringContents_start (r : UInt32) : ringContents (start around threads profiles) r = [] := by
  have queues : ∀ (qs : Table UInt32 ThreadQueue),
      ((qs.get? r).map (·.posted.contents)).getD [] = [] →
      (((threads.foldl (fun qs tid => qs.insert tid ThreadQueue.init) qs).get? r).map
        (·.posted.contents)).getD [] = [] := by
    induction threads with
    | nil => exact fun _ h => h
    | cons tid rest ih =>
      intro qs h
      apply ih
      rw [Table.get?_insert]
      split
      · rfl
      · exact h
  exact queues .empty rfl

theorem mirror_start : Mirror ⟨start around threads profiles, .empty⟩ where
  ring := ringContents_start around threads profiles
  pend _ := .nil

end

/-! ### What a receiver is returned -/

/-- The content of an envelope, up to the type: a tracked send is returned with
the type of the request, the ring holds the one on the wire. -/
def SameContent (e : Envelope) (reply : GetMessageReply) : Prop :=
  reply.win = e.msg.win ∧ reply.msg = e.msg.msg ∧ reply.wparam = e.msg.wparam ∧
    reply.lparam = e.msg.lparam

def held (j : Journal) (r : UInt32) : List Envelope := j.ring r ++ j.pend r

variable {j : Journal} {e : Envelope}

theorem eq_of_obtain {x : UInt32} {f : Envelope}
    (given : (j.obtain x f).delivered r = j.delivered r ++ [e]) : r = x ∧ e = f := by
  simp only [Journal.obtain, update_apply] at given
  split at given
  · next same =>
    subst same
    exact ⟨rfl, (singleton_inj.mp (append_cancel_left given)).symm⟩
  · simp at given

theorem delivered_content {t : Traced} (mirror : Mirror t) (request : MessageRequest)
    (given : (t.step T request).journal.delivered r = t.journal.delivered r ++ [e]) :
    e ∈ held t.journal r ∧ SameContent e (t.server.handle T request).reply := by
  have effect := handle_storeStep T t.server request
  unfold Traced.step at given
  generalize t.server.handle T request = outcome at effect given ⊢
  obtain ⟨s', reply, signals, event⟩ := outcome
  have nothing : t.journal.delivered r ≠ t.journal.delivered r ++ [e] := by simp
  cases effect with
  | nothing | queued | replied => exact absurd given nothing
  | @peeked _ x p rest top same out =>
    have mirrored := mirror.pend x
    rw [top] at mirrored
    obtain ⟨f, later, same, -, here⟩ := forall₂_cons_right_iff.mp mirrored
    simp only [Journal.record, here] at given
    obtain ⟨rfl, rfl⟩ := eq_of_obtain given
    rw [out]
    exact ⟨by simp [held, here], same.win, same.code, same.wparam, same.lparam⟩
  | @taken _ x q q' msg found front queues pending out =>
    have before := mirror.front found front
    obtain ⟨f, later, here, same, -⟩ := map_eq_cons_iff.mp before.symm
    simp only [Journal.record, here] at given
    obtain ⟨rfl, rfl⟩ := eq_of_obtain (j := { t.journal with ring := _ }) given
    rw [out, ← same]
    exact ⟨by simp [held, here], rfl, rfl, rfl, rfl⟩

theorem mem_held_record {event : MessageEvent} (mem : e ∈ held (j.record event) r) : e ∈ held j r ∨
      ∃ sender msg blocking tracked, event = .queued r sender msg blocking tracked ∧
        e = ⟨j.nextId, sender, msg, blocking, tracked⟩ := by
  cases event with
  | nothing => exact .inl mem
  | queued x sender msg blocking tracked =>
    simp only [held, Journal.record, mem_append, update_apply] at mem ⊢
    grind [update_apply]
  | peeked | taken =>
    left
    simp only [held, Journal.record] at mem ⊢
    split at mem
    · exact mem
    · simp only [Journal.obtain, update_apply, mem_append] at mem ⊢
      grind
  | replied =>
    left
    simp only [held, Journal.record, update_apply, mem_append] at mem ⊢
    grind [mem_of_mem_tail]

/-- `req` is a request of the run that put `e` in the journal, for the receiver `r`. -/
def SentBy (T : MsgTypes) (first : Traced) (requests : List MessageRequest) (r : UInt32)
    (e : Envelope) (req : SendMessageRequest) : Prop :=
  ∃ before fd after, requests = before ++ .send fd req :: after ∧
    let t := run (Traced.step T) first before
    t.server.sendTarget req = r ∧
      (t.step T (.send fd req)).journal.log r = t.journal.log r ++ [e]

theorem sentBy_append {first : Traced} {requests more : List MessageRequest}
    {req : SendMessageRequest} (sent : SentBy T first requests r e req) :
    SentBy T first (requests ++ more) r e req := by
  obtain ⟨before, fd, after, rfl, rest⟩ := sent
  exact ⟨before, fd, after ++ more, by simp, rest⟩

theorem mirror_run {first : Traced} (mirror : Mirror first) (requests : List MessageRequest) :
    Mirror (run (Traced.step T) first requests) :=
  good_run (fun t request mirror _ => mirror_step T t request mirror) mirror
    (allSteps_of_forall (fun _ _ => trivial) _ requests)

theorem held_sent {first : Traced} (empty : ∀ r, held first.journal r = [])
    (requests : List MessageRequest)
    (mem : e ∈ held (run (Traced.step T) first requests).journal r) :
    ∃ req same, e.msg = wireMessage same req ∧ SentBy T first requests r e req := by
  induction requests using List.reverseRecOn generalizing r e with
  | nil => simp [run, empty] at mem
  | append_singleton requests request ih =>
    rw [run_append] at mem
    generalize at_t : run (Traced.step T) first requests = t at mem ih
    rcases mem_held_record mem with old | ⟨sender, msg, blocking, tracked, event, rfl⟩
    · obtain ⟨req, same, wire, sent⟩ := ih old
      exact ⟨req, same, wire, sentBy_append sent⟩
    · have effect := handle_storeStep T t.server request
      have log : (t.step T request).journal.log r = t.journal.log r ++
          [⟨t.journal.nextId, sender, msg, blocking, tracked⟩] := by
        simp [Traced.step, event, Journal.record]
      rw [event] at effect
      cases effect with
      | @queued fd req same =>
        exact ⟨req, same, rfl, requests, fd, [], rfl, by rw [at_t], at_t ▸ log⟩

/-- Whoever is given a message is returned what some request of the run sent: the one
that put in the journal the envelope which the journal has next for the receiver. -/
theorem run_returns_sent (around : MessageSurroundings) (threads : List UInt32)
    (profiles : Table UInt32 MsgProfile) (requests : List MessageRequest) (request : MessageRequest)
    (given : let t := run (Traced.step T) ⟨start around threads profiles, .empty⟩ requests
      (t.step T request).journal.delivered r = t.journal.delivered r ++ [e]) :
    ∃ req, SentBy T ⟨start around threads profiles, .empty⟩ requests r e req ∧
      let t := run (Traced.step T) ⟨start around threads profiles, .empty⟩ requests
      let reply := (t.server.handle T request).reply
      reply.win = req.win ∧ reply.msg = req.msg ∧ reply.wparam = req.wparam ∧
        reply.lparam = req.lparam := by
  obtain ⟨mem, win, code, wparam, lparam⟩ :=
    delivered_content (mirror_run (mirror_start around threads profiles) requests) request given
  obtain ⟨req, same, wire, sent⟩ := held_sent (fun _ => rfl) requests mem
  rw [wire] at win code wparam lparam
  exact ⟨req, sent, win, code, wparam, lparam⟩

/-- The message types in the order of the protocol header. -/
def headerTypes : MsgTypes :=
  { ascii := 0, unicode := 1, notify := 2, callback := 3, otherProcess := 5, posted := 6 }

def threeProcesses : MessageServer :=
  start
    { clients := ((Table.empty.insert 3 ⟨1, 10⟩).insert 4 ⟨2, 11⟩).insert 5 ⟨3, 12⟩
      windowStates := .empty, desktopTopWindow := 0x20, desktopMsgWindow := 0x22
      threadQuitState := .empty, winTimersPending := .empty, winTimersExpired := .empty }
    [10, 11, 12] .empty

def sendTo (fd : Int32) (receiver msg : UInt32) : MessageRequest :=
  .send fd { id := receiver, msgType := 5, win := 0x24, msg, wparam := 0, lparam := 0 }

def getAll (fd : Int32) : MessageRequest := .get fd { flags := 1, now := 0 }

def twoSends : List MessageRequest := [sendTo 4 10 0x400, sendTo 5 10 0x401]

theorem second_send_returned :
    let t := run (Traced.step headerTypes) ⟨threeProcesses, .empty⟩ twoSends
    let reply := (t.server.handle headerTypes (getAll 3)).reply
    reply.msg = 0x401 ∧ ∃ e req, SentBy headerTypes ⟨threeProcesses, .empty⟩ twoSends 10 e req ∧
      reply.win = req.win ∧ reply.msg = req.msg ∧ reply.wparam = req.wparam ∧
        reply.lparam = req.lparam :=
  ⟨rfl, _, run_returns_sent _ _ _ twoSends (getAll 3) rfl⟩

end MessageJournal
end Triskelion
