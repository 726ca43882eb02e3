import Triskelion.TwoThreads

/-! The two threads without the limits of their channels: one event, one request or one
reply at a time, in any order. Every run of the daemon is such an exchange, so what
holds in all of these holds in the daemon. -/

namespace Triskelion

open IoThread hiding run
open ControlChannel RunRules BoundedQueue

structure Exchange where
  io : IoThread
  requests : List RequestMsg
  authority : EventLoop
  replies : List ReplyMsg

inductive Turn
  | io (event : PollEvent)
  | take (now : Nat)
  | reply

namespace Exchange

def new (lingerSecs : Nat) : Exchange := ⟨.new, [], .new lingerSecs, []⟩

/-- A thread that finds its channel empty does nothing. -/
def step (H : Handlers) (s : Exchange) : Turn → Exchange
  | .io event =>
    let (io, actions) := s.io.step event.toEvent
    { s with io, requests := s.requests ++ forwarded actions }
  | .take now =>
    match s.requests with
    | [] => s
    | msg :: later =>
      let (authority, outcome) := s.authority.processRequest H now msg
      { s with requests := later, authority, replies := s.replies ++ outcome.reply.toList }
  | .reply =>
    match s.replies with
    | [] => s
    | msg :: later => { s with io := (s.io.executeReply msg).1, replies := later }

theorem run_batch (H : Handlers) (s : Exchange) (events : List PollEvent) :
    run (step H) s (events.map .io) = { s with
        io := (s.io.run (events.map PollEvent.toEvent)).1
        requests := s.requests ++ forwarded (s.io.run (events.map PollEvent.toEvent)).2 } := by
  induction events generalizing s with
  | nil => simp [run, IoThread.run, forwarded]
  | cons event later ih =>
    simp [run_cons, ih, step, IoThread.run, TwoThreads.forwarded_append]

end Exchange

namespace Daemon

def unsent (c : Daemon) : List RequestMsg :=
  match c.phase with
  | .sending left => left
  | _ => []

/-- A message counts as sent once it exists. -/
def exchange (c : Daemon) : Exchange :=
  ⟨c.io, c.requests.items ++ c.unsent, c.authority, c.replies.items ++ c.holding.toList⟩

/-- What a move of one of the threads is in the exchange: the events of its batch, the reply or the
request it takes; none if the thread has to wait, or only moves a message on. -/
def turns (c : Daemon) : Move → List Turn
  | .batch events =>
    match c.phase with
    | .polling => if events.length ≤ maxEvents then events.map .io else []
    | _ => []
  | .drain =>
    match c.phase, c.replies.items with
    | .draining, _ :: _ => [.reply]
    | _, _ => []
  | .take now =>
    match c.holding, c.requests.items with
    | none, _ :: _ => [.take now]
    | _, _ => []
  | .send | .put => []

def allTurns (H : Handlers) (c : Daemon) : List Move → List Turn
  | [] => []
  | move :: later => c.turns move ++ allTurns H (c.step H move) later

variable {H : Handlers} {c : Daemon}

theorem exchange_poll (events : List PollEvent) :
    (c.poll events).exchange = run (Exchange.step H) c.exchange (c.turns (.batch events)) := by
  cases phase : c.phase with
  | polling =>
    by_cases few : events.length ≤ maxEvents
    · simp [poll, turns, phase, few, Exchange.run_batch, exchange, unsent]
    · simp [poll, turns, phase, few, run]
  | sending | draining => simp [poll, turns, phase, run]

theorem exchange_sendOne : c.sendOne.exchange = c.exchange := by
  unfold sendOne
  split
  · next sending => simp [exchange, unsent, sending]
  · next msg left sending =>
    split
    · next requests pushed =>
      simp [exchange, unsent, sending, items_of_push pushed]
    · rfl
  · rfl

theorem exchange_drainOne :
    c.drainOne.exchange = run (Exchange.step H) c.exchange (c.turns .drain) := by
  cases phase : c.phase with
  | draining =>
    cases items : c.replies.items with
    | nil =>
      have empty := c.replies.pop_of_nil items
      simp [drainOne, turns, phase, items, empty, run, exchange, unsent]
    | cons msg later =>
      obtain ⟨replies, popped, left⟩ := c.replies.pop_of_cons items
      simp [drainOne, turns, phase, items, popped, left, run, Exchange.step, exchange, unsent]
  | sending | polling => simp [drainOne, turns, phase, run]

theorem exchange_takeOne (now : Nat) :
    (c.takeOne H now).exchange = run (Exchange.step H) c.exchange (c.turns (.take now)) := by
  cases held : c.holding with
  | some => simp [takeOne, turns, held, run]
  | none =>
    cases items : c.requests.items with
    | nil =>
      have empty := c.requests.pop_of_nil items
      simp [takeOne, turns, held, items, empty, run]
    | cons msg later =>
      obtain ⟨requests, popped, left⟩ := c.requests.pop_of_cons items
      simp [takeOne, turns, held, items, popped, left, run, Exchange.step, exchange, unsent]

theorem exchange_putOne : c.putOne.exchange = c.exchange := by
  unfold putOne
  split
  · next msg holding =>
    split
    · next replies pushed =>
      simp [exchange, unsent, holding, items_of_push pushed]
    · rfl
  · rfl

theorem exchange_step (H : Handlers) (c : Daemon) (move : Move) :
    (c.step H move).exchange = run (Exchange.step H) c.exchange (c.turns move) := by
  cases move with
  | batch events => exact exchange_poll events
  | send => exact exchange_sendOne
  | drain => exact exchange_drainOne
  | take now => exact exchange_takeOne now
  | put => exact exchange_putOne

/-- Whatever the daemon does, and whenever its threads block, is an exchange of the same events,
requests and replies. -/
theorem exchange_run (H : Handlers) (c : Daemon) (moves : List Move) :
    (run (Daemon.step H) c moves).exchange =
      run (Exchange.step H) c.exchange (c.allTurns H moves) := by
  induction moves generalizing c with
  | nil => rfl
  | cons move later ih => rw [run_cons, ih, exchange_step, allTurns, run_append]

end Daemon

/-! ### Descriptors that come with the messages -/

namespace IoThread

def drainedFds : List (List UInt8) → List (List Received) → List RawFd
  | [], _ => []
  | _ :: later, drains =>
    (drains.head?.getD []).flatMap Received.fds ++ drainedFds later drains.tail

def receivedBy (s : IoThread) : PollEvent → List RawFd
  | .accept _ => []
  | .ready fd input =>
    if s.msgFdClients.contains fd then input.received.flatMap Received.fds
    else
      match s.ioClients.get? fd, input.read with
      | some client, .bytes chunk drains =>
        drainedFds (requestFramer.frames (client.recvBuf ++ chunk.bytes)).1 drains
      | _, _ => []

/-! ### What the effects of an answer leave alone -/

theorem executeEffect_queues (s : IoThread) (effect : Effect) :
    (s.executeEffect effect).1.pendingFds = s.pendingFds ∧
      (s.executeEffect effect).1.clientReplyFds = s.clientReplyFds := by
  cases effect with
  | registerClient | watchQueueFd =>
    simp only [executeEffect]
    split <;> exact ⟨rfl, rfl⟩
  | _ => exact ⟨rfl, rfl⟩

section
variable (s : IoThread) (effects : List Effect)

@[simp] theorem executeEffects_pendingFds :
    (s.executeEffects effects).1.pendingFds = s.pendingFds := by
  induction effects generalizing s with
  | nil => rfl
  | cons effect later ih => rw [executeEffects, ih, (executeEffect_queues s effect).1]

@[simp] theorem executeEffects_clientReplyFds :
    (s.executeEffects effects).1.clientReplyFds = s.clientReplyFds := by
  induction effects generalizing s with
  | nil => rfl
  | cons effect later ih => rw [executeEffects, ih, (executeEffect_queues s effect).2]

end

end IoThread
end Triskelion
