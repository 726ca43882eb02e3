import Triskelion.BoundedQueue
import Triskelion.ControlChannel
import Triskelion.RunRules

/-! The two threads as they run: each blocks on a full channel. The I/O thread sends
everything that one batch of events brings before it looks at the replies; the
authority sends each reply before it takes the next request. -/

namespace Triskelion

open IoThread ControlChannel List RequestFraming PollEvent BoundedQueue Option

def channelCapacity : Nat := 256

def maxEvents : Nat := 64

/-- Where the I/O thread is in its loop; `left` are the messages of the batch that it
has still to send. -/
inductive IoPhase
  | polling
  | sending (left : List RequestMsg)
  | draining

/-- `holding` is the reply that the authority is about to send. -/
structure Daemon where
  io : IoThread
  phase : IoPhase
  requests : BoundedQueue RequestMsg channelCapacity
  authority : EventLoop
  holding : Option ReplyMsg
  replies : BoundedQueue ReplyMsg channelCapacity

inductive Move
  | batch (events : List PollEvent)
  | send
  | drain
  | take (now : Nat)
  | put

namespace Daemon

def new (lingerSecs : Nat) : Daemon :=
  ⟨.new, .polling, .empty, .new lingerSecs, none, .empty⟩

def sendOne (c : Daemon) : Daemon :=
  match c.phase with
  | .sending [] => { c with phase := .draining }
  | .sending (msg :: left) =>
    match c.requests.push msg with
    | some requests => { c with requests, phase := .sending left }
    | none => c
  | _ => c

def drainOne (c : Daemon) : Daemon :=
  match c.phase with
  | .draining =>
    match c.replies.pop with
    | some (msg, replies) => { c with replies, io := (c.io.executeReply msg).1 }
    | none => { c with phase := .polling }
  | _ => c

def takeOne (H : Handlers) (c : Daemon) (now : Nat) : Daemon :=
  match c.holding with
  | some _ => c
  | none =>
    match c.requests.pop with
    | some (msg, requests) =>
      let (authority, outcome) := c.authority.processRequest H now msg
      { c with requests, authority, holding := outcome.reply }
    | none => c

def putOne (c : Daemon) : Daemon :=
  match c.holding with
  | some msg =>
    match c.replies.push msg with
    | some replies => { c with replies, holding := none }
    | none => c
  | none => c

def poll (c : Daemon) (events : List PollEvent) : Daemon :=
  match c.phase with
  | .polling =>
    if events.length ≤ maxEvents then
      let (io, actions) := c.io.run (events.map toEvent)
      { c with io, phase := .sending (forwarded actions) }
    else c
  | _ => c

/-- Moves of the two threads in any order; one that is not possible does nothing. -/
def step (H : Handlers) (c : Daemon) : Move → Daemon
  | .batch events => c.poll events
  | .send => c.sendOne
  | .drain => c.drainOne
  | .take now => c.takeOne H now
  | .put => c.putOne

/-- Each thread waits for room in the channel that only the other one empties. -/
def Deadlocked (c : Daemon) : Prop :=
  ∃ msg left reply, c.phase = .sending (msg :: left) ∧ c.holding = some reply ∧
    c.requests.push msg = none ∧ c.replies.push reply = none

def inFlight (c : Daemon) : Nat :=
  c.requests.items.length + c.holding.toList.length + c.replies.items.length

end Daemon

/-! ### The messages of a batch -/

def messagesOf (s : IoThread) : Event → Nat
  | .accept (.accepted _ _ _ _) => 1
  | .accept _ => 0
  | .ready fd input =>
    if s.msgFdClients.contains fd then 0
    else
      match s.ioClients.get? fd, input.read with
      | none, _ => 0
      | some _, .closed => 1
      | some client, .bytes chunk _ =>
        (requestFramer.frames (client.recvBuf ++ chunk.bytes)).1.length
  | .reply _ => 0

def batchMessages (s : IoThread) : List Event → Nat
  | [] => 0
  | event :: later => messagesOf s event + batchMessages (s.step event).1 later

namespace TwoThreads

open Daemon RunRules

theorem forwarded_append (first second : List IoAction) :
    forwarded (first ++ second) = forwarded first ++ forwarded second :=
  filterMap_append

variable {s : IoThread}

theorem forwarded_forwardFrames (s : IoThread) (fd msgFd : RawFd) (frames : List (List UInt8))
    (drains : List (List Received)) :
    (forwarded (s.forwardFrames fd msgFd frames drains).2).map RequestMsg.header =
      frames.map readHeader := by
  induction frames generalizing s drains with
  | nil => rfl
  | cons frame later ih =>
    have rest := ih (s.forwardFrame fd msgFd frame (drains.head?.getD [])).1 drains.tail
    rw [map_cons, ← rest]
    simp [forwardFrames, forwarded, forwardFrame]

theorem forwarded_disconnect (fd : RawFd) : forwarded (s.disconnectIoClient fd).2 = [] := by
  rw [disconnectIoClient]
  cases s.ioClients.get? fd with
  | none => rfl
  | some =>
    dsimp only
    rw [releaseMsgFd]
    split
    · rfl
    · dsimp only
      split <;> rfl

theorem forwarded_effects (effects : List Effect) :
    forwarded (s.executeEffects effects).2 = [] := by
  induction effects generalizing s with
  | nil => rfl
  | cons effect later ih =>
    rw [executeEffects, forwarded_append, ih]
    cases effect with
    | registerClient | watchQueueFd => rw [executeEffect]; split <;> rfl
    | sendFd | rearmQueueFd => rfl
    | watchPipeFd => rw [executeEffect]; split; split <;> rfl; rfl

theorem length_forwarded_step (event : Event) :
    (forwarded (s.step event).2).length = messagesOf s event := by
  cases event with
  | accept outcome => cases outcome <;> rfl
  | reply =>
    rw [IoThread.step, executeReply, forwarded_append, forwarded_effects]
    split <;> rfl
  | ready fd input =>
    rw [IoThread.step, messagesOf]
    split
    · rfl
    · obtain ⟨received, read⟩ := input
      cases found : s.ioClients.get? fd with
      | none =>
        have absent : s.ioClients.contains fd = false := by rw [Table.contains, found]; rfl
        rw [absent]
        rfl
      | some client =>
        have present : s.ioClients.contains fd := by rw [Table.contains, found]; rfl
        rw [present, if_pos rfl]
        cases read with
        | closed =>
          rw [handleClientRead, forwarded_append, forwarded_disconnect]
          rfl
        | bytes chunk drains =>
          rw [handleClientRead_bytes found]
          simpa using congrArg length (forwarded_forwardFrames _ fd client.msgFd
            (requestFramer.frames (client.recvBuf ++ chunk.bytes)).1 drains)

theorem length_forwarded_run (events : List Event) :
    (forwarded (s.run events).2).length = batchMessages s events := by
  induction events generalizing s with
  | nil => rfl
  | cons event later ih =>
    rw [IoThread.run, forwarded_append, length_append, length_forwarded_step, ih, batchMessages]

/-! ### Small batches -/

/-- What the two channels and the authority's hand hold, with one message to spare. -/
def safeLoad : Nat := 2 * channelCapacity + 1

/-- When `epoll_wait` returns, what is between the threads and what the batch adds to
it fits the channels and the hand of the authority. -/
def SmallBatch (c : Daemon) : Move → Prop
  | .batch events => c.phase = .polling →
      c.inFlight + batchMessages c.io (events.map toEvent) ≤ safeLoad
  | _ => True

/-- During a batch nothing is added but what was counted at its start. -/
def Light (c : Daemon) : Prop :=
  ∀ left, c.phase = .sending left → c.inFlight + left.length ≤ safeLoad

variable {c : Daemon} {left msgs : List RequestMsg} {msg : RequestMsg}

theorem not_deadlocked (light : Light c) : ¬ c.Deadlocked := by
  rintro ⟨msg, left, reply, sending, holding, full, full'⟩
  have load := light _ sending
  rw [inFlight, length_of_full full, length_of_full full', holding, length_cons, safeLoad] at load
  simp only [toList_some, length_singleton] at load
  omega

theorem light_of_phase (other : ∀ left, c.phase ≠ .sending left) : Light c :=
  fun left sending => absurd sending (other left)

variable {events : List PollEvent}

theorem light_poll (light : Light c)
    (small : SmallBatch c (.batch events)) : Light (c.poll events) := by
  rw [poll]
  split
  · next polling =>
    split
    · intro left sending
      obtain rfl := IoPhase.sending.inj sending
      rw [length_forwarded_run]
      exact small polling
    · exact light
  · exact light

theorem light_sendOne (light : Light c) : Light c.sendOne := by
  rw [sendOne]
  split
  · exact light_of_phase fun left sending => by cases sending
  · next msg left sending =>
    split
    · next requests pushed =>
      intro left' sending'
      obtain rfl := IoPhase.sending.inj sending'
      have load := light _ sending
      rw [inFlight, length_cons] at load
      rw [inFlight, items_of_push pushed, length_append, length_singleton]
      dsimp only
      omega
    · exact light
  · exact light

theorem light_drainOne (light : Light c) : Light c.drainOne := by
  rw [drainOne]
  split
  · next draining =>
    split
    · refine light_of_phase fun left sending => ?_
      rw [draining] at sending
      cases sending
    · exact light_of_phase fun left sending => by cases sending
  · exact light

variable {H : Handlers}

theorem light_takeOne (light : Light c) (now : Nat) : Light (c.takeOne H now) := by
  rw [takeOne]
  split
  · exact light
  · split
    · next msg requests popped =>
      intro left sending
      have load := light left sending
      rw [inFlight, items_of_pop popped, length_cons] at load
      have hand : (c.authority.processRequest H now msg).2.reply.toList.length ≤ 1 := by
        cases (c.authority.processRequest H now msg).2.reply <;> simp
      rw [inFlight]
      dsimp only
      omega
    · exact light

theorem light_putOne (light : Light c) : Light c.putOne := by
  rw [putOne]
  split
  · next msg holding =>
    split
    · next replies pushed =>
      intro left sending
      have load := light left sending
      rw [inFlight, holding] at load
      rw [inFlight, items_of_push pushed]
      simp only [toList_some, toList_none, length_append, length_singleton, length_nil] at load ⊢
      omega
    · exact light
  · exact light

theorem light_step (H : Handlers) (c : Daemon) (move : Move) (light : Light c)
    (small : SmallBatch c move) : Light (c.step H move) := by
  cases move with
  | batch => exact light_poll light small
  | send => exact light_sendOne light
  | drain => exact light_drainOne light
  | take now => exact light_takeOne light now
  | put => exact light_putOne light

def silent : Handlers := fun _ _ _ _ => ([], [])

/-- For any number of clients, any streams and any interleaving of the threads. -/
theorem deadlock_free_of_small_batches (H : Handlers) (lingerSecs : Nat) (moves : List Move)
    (small : AllSteps (step H) SmallBatch (new lingerSecs) moves) :
    ∀ c ∈ states (step H) (new lingerSecs) moves, ¬ c.Deadlocked := by
  intro c mem
  have start : Light (new lingerSecs) := light_of_phase fun left sending => by cases sending
  exact not_deadlocked (good_of_allSteps (light_step H) start small c mem)

def zeroFrame : List UInt8 := replicate 64 0

/-- Two clients connect, and the first one's request is answered. -/
def twoConnections : List Move :=
  [.batch [.accept (.accepted 6 8 9 7), .accept (.accepted 11 8 9 12)], .send, .take 0, .send,
    .take 0, .send, .drain, .batch [.ready 7 ⟨[], .bytes ⟨zeroFrame, by decide, by decide⟩ []⟩],
    .send, .take 0, .put, .send, .drain, .drain]

theorem deadlock_free_two_connections : AllSteps (step silent) SmallBatch (new 5) twoConnections ∧
      ∀ c ∈ states (step silent) (new 5) twoConnections, ¬ c.Deadlocked := by
  have small : AllSteps (step silent) SmallBatch (new 5) twoConnections :=
    ⟨fun _ => by decide +kernel, trivial, trivial, trivial, trivial, trivial, trivial,
      fun _ => by decide +kernel, trivial, trivial, trivial, trivial, trivial, trivial, trivial⟩
  exact ⟨small, deadlock_free_of_small_batches silent 5 twoConnections small⟩

/-! ### Large batches -/

/-- Both channels are fed from one batch; `n` replies wait for the batch to end. -/
structure Fed (c : Daemon) (left : List RequestMsg) (n : Nat) : Prop where
  sending : c.phase = .sending left
  requests : c.requests.items = []
  idle : c.holding = none
  replies : c.replies.items.length = n

theorem step_send (H : Handlers) (sending : c.phase = .sending (msg :: left))
    (room : c.requests.items.length < channelCapacity) :
    ∃ requests, requests.items = c.requests.items ++ [msg] ∧
      c.step H .send = { c with requests, phase := .sending left } := by
  obtain ⟨requests, pushed, items⟩ := c.requests.push_of_room (a := msg) room
  refine ⟨requests, items, ?_⟩
  rw [Daemon.step, sendOne, sending]
  dsimp only
  rw [pushed]

theorem step_take {later : List RequestMsg} (H : Handlers) (idle : c.holding = none)
    (queued : c.requests.items = msg :: later) (plain : ¬ IsControl msg.header) :
    ∃ requests authority reply, requests.items = later ∧
      c.step H (.take 0) = { c with requests, authority, holding := some reply } := by
  obtain ⟨requests, popped, items⟩ := c.requests.pop_of_cons queued
  have answered := reply_processRequest H c.authority 0 msg
  rw [if_neg plain] at answered
  obtain ⟨reply, given, -⟩ := map_eq_some_iff.mp answered
  refine ⟨requests, (c.authority.processRequest H 0 msg).1, reply, items, ?_⟩
  rw [Daemon.step, takeOne, idle]
  rw [popped]
  dsimp only
  rw [given]

theorem step_put {reply : ReplyMsg} (H : Handlers) (holding : c.holding = some reply)
    (room : c.replies.items.length < channelCapacity) :
    ∃ replies, replies.items = c.replies.items ++ [reply] ∧
      c.step H .put = { c with replies, holding := none } := by
  obtain ⟨replies, pushed, items⟩ := c.replies.push_of_room (a := reply) room
  refine ⟨replies, items, ?_⟩
  rw [Daemon.step, putOne, holding]
  dsimp only
  rw [pushed]

/-- One request all the way through, while the I/O thread is busy sending. -/
def roundTrip : List Move := [.send, .take 0, .put]

variable {n : Nat}

theorem fed_roundTrip (H : Handlers) (fed : Fed c (msg :: left) n)
    (plain : ¬ IsControl msg.header) (room : n < channelCapacity) :
    Fed (run (step H) c roundTrip) left (n + 1) := by
  obtain ⟨sending, requests, idle, replies⟩ := fed
  obtain ⟨q, items, sent⟩ := step_send H sending (by rw [requests]; decide)
  rw [requests] at items
  rw [roundTrip, run_cons, sent]
  obtain ⟨q', authority, reply, items', taken⟩ := step_take
    (c := { c with requests := q, phase := .sending left }) H idle items plain
  rw [run_cons, taken]
  obtain ⟨r, items'', put⟩ := step_put
    (c := { c with requests := q', phase := .sending left, authority, holding := some reply }) H rfl
    (replies.symm ▸ room)
  rw [run_cons, put]
  refine ⟨rfl, items', rfl, ?_⟩
  change r.items.length = n + 1
  rw [items'', length_append, length_singleton, replies]

theorem fed_roundTrips (H : Handlers) (fed : Fed c (msgs ++ left) n)
    (plain : ∀ msg ∈ msgs, ¬ IsControl msg.header) (room : n + msgs.length ≤ channelCapacity) :
    Fed (run (step H) c (replicate msgs.length roundTrip).flatten) left
      (n + msgs.length) := by
  induction msgs generalizing c n with
  | nil => exact fed
  | cons msg msgs ih =>
    rw [length_cons] at room ⊢
    have first := fed_roundTrip H fed (plain msg mem_cons_self) (by omega)
    have rest := ih first (fun m mem => plain m (mem_cons_of_mem _ mem)) (by omega)
    rw [replicate_succ, Nat.add_comm msgs.length, ← Nat.add_assoc]
    exact rest

theorem fed_control (fed : Fed c (msgs ++ left) n) (control : ∀ msg ∈ msgs, IsControl msg.header) :
    Fed (run (Daemon.step H) c (replicate msgs.length [Move.send, .take 0]).flatten) left n ∧
      (run (Daemon.step H) c (replicate msgs.length [Move.send, .take 0]).flatten).io = c.io := by
  induction msgs generalizing c with
  | nil => exact ⟨fed, rfl⟩
  | cons msg msgs ih =>
    obtain ⟨sending, requests, idle, replies⟩ := fed
    obtain ⟨q, items, sent⟩ := step_send H sending (by rw [requests]; decide)
    rw [requests] at items
    obtain ⟨q', popped, items'⟩ := q.pop_of_cons items
    have unanswered := reply_processRequest H c.authority 0 msg
    rw [if_pos (control msg mem_cons_self), map_eq_none_iff] at unanswered
    have taken : Daemon.step H { c with requests := q, phase := .sending (msgs ++ left) } (.take 0) =
        { c with
          requests := q', phase := .sending (msgs ++ left)
          authority := (c.authority.processRequest H 0 msg).1, holding := none } := by
      rw [Daemon.step, takeOne]
      rw [idle, popped]
      dsimp only
      rw [unanswered]
    obtain ⟨after, io⟩ := ih
      (c := { c with
        requests := q', phase := .sending (msgs ++ left)
        authority := (c.authority.processRequest H 0 msg).1, holding := none })
      ⟨rfl, items', rfl, replies⟩ fun m mem => control m (mem_cons_of_mem _ mem)
    rw [length_cons, replicate_succ, flatten_cons, run_append, run_cons, sent, run_cons]
    rw [append_eq] at *
    rw [taken]
    exact ⟨after, io⟩

/-- The I/O thread waits for events and nothing is between the threads. -/
structure Quiet (c : Daemon) : Prop where
  polling : c.phase = .polling
  requests : c.requests.items = []
  idle : c.holding = none
  replies : c.replies.items = []

theorem fed_batch (quiet : Quiet c) (few : events.length ≤ maxEvents) :
    Fed (c.step H (.batch events))
        (forwarded (c.io.run (events.map toEvent)).2) 0 ∧
      (c.step H (.batch events)).io = (c.io.run (events.map toEvent)).1 := by
  have polled : c.step H (.batch events) = { c with
      io := (c.io.run (events.map toEvent)).1
      phase := .sending (forwarded (c.io.run (events.map toEvent)).2) } := by
    rw [Daemon.step, poll, quiet.polling]
    rw [if_pos few]
  rw [polled]
  exact ⟨⟨rfl, quiet.requests, quiet.idle, by rw [quiet.replies]; rfl⟩, rfl⟩

theorem quiet_of_fed (fed : Fed c [] 0) : Quiet (run (Daemon.step H) c [.send, .drain]) ∧
      (run (Daemon.step H) c [.send, .drain]).io = c.io := by
  have sent : c.step H .send = { c with phase := .draining } := by
    rw [Daemon.step, sendOne, fed.sending]
  have none_ := c.replies.pop_of_nil (length_eq_zero_iff.mp fed.replies)
  have drained : Daemon.step H { c with phase := .draining } .drain = { c with phase := .polling } := by
    rw [Daemon.step, drainOne]
    rw [none_]
  rw [run_cons, sent, run_cons, drained]
  exact ⟨⟨rfl, fed.requests, fed.idle, length_eq_zero_iff.mp fed.replies⟩, rfl⟩

/-- The I/O thread fills the request channel behind an authority that cannot move. -/
theorem sends_fill (H : Handlers) (sending : c.phase = .sending (msgs ++ left))
    (room : c.requests.items.length + msgs.length ≤ channelCapacity) :
    ∃ requests, requests.items.length = c.requests.items.length + msgs.length ∧
      run (step H) c (replicate msgs.length .send) =
        { c with requests, phase := .sending left } := by
  induction msgs generalizing c with
  | nil => exact ⟨c.requests, rfl, by rw [← show c.phase = .sending left from sending]; rfl⟩
  | cons msg msgs ih =>
    rw [length_cons] at room ⊢
    obtain ⟨q, items, sent⟩ := step_send H sending (by omega)
    have length : q.items.length = c.requests.items.length + 1 := by
      rw [items, length_append, length_singleton]
    obtain ⟨requests, filled, ran⟩ := ih (c := { c with requests := q, phase := .sending (msgs ++ left) })
      rfl (by dsimp only; omega)
    refine ⟨requests, by dsimp only at filled; omega, ?_⟩
    rw [replicate_succ, run_cons, sent]
    exact ran

def deadlockSchedule : List Move :=
  (replicate channelCapacity roundTrip).flatten ++
    ([.send, .take 0] ++ replicate channelCapacity .send)

theorem deadlocked_of_large_batch (H : Handlers) (fed : Fed c msgs 0)
    (plain : ∀ msg ∈ msgs, ¬ IsControl msg.header) (large : safeLoad < msgs.length) :
    (run (step H) c deadlockSchedule).Deadlocked := by
  rw [safeLoad] at large
  obtain ⟨first, rest, rfl, length⟩ : ∃ first rest, msgs = first ++ rest ∧
      first.length = channelCapacity :=
    ⟨msgs.take channelCapacity, msgs.drop channelCapacity, (take_append_drop _ _).symm,
      length_take_of_le (by omega)⟩
  rw [length_append] at large
  have tripped := fed_roundTrips H fed
    (fun m mem => plain m (mem_append_left _ mem)) (by omega)
  rw [length] at tripped
  rw [deadlockSchedule, run_append]
  generalize run (step H) c (replicate channelCapacity roundTrip).flatten = d at tripped
  obtain ⟨sending, requests, idle, replies⟩ := tripped
  obtain ⟨msg, rest, rfl⟩ := exists_cons_of_length_pos (by omega : 0 < rest.length)
  rw [length_cons] at large
  obtain ⟨q, items, sent⟩ := step_send H sending (by rw [requests]; decide)
  rw [requests] at items
  obtain ⟨q', authority, reply, items', taken⟩ := step_take
    (c := { d with requests := q, phase := .sending rest }) H idle items
    (plain msg (mem_append_right _ mem_cons_self))
  rw [cons_append, run_cons, sent, cons_append, run_cons, taken, nil_append]
  obtain ⟨second, left, rfl, length'⟩ : ∃ second left, rest = second ++ left ∧
      second.length = channelCapacity :=
    ⟨rest.take channelCapacity, rest.drop channelCapacity, (take_append_drop _ _).symm,
      length_take_of_le (by omega)⟩
  rw [length_append] at large
  obtain ⟨final, left, rfl⟩ := exists_cons_of_length_pos (by omega : 0 < left.length)
  have room : q'.items.length + second.length ≤ channelCapacity := by
    simp [items', length']
  obtain ⟨q'', filled, ran⟩ := sends_fill
    (c := { d with
      requests := q', phase := .sending (second ++ final :: left), authority,
      holding := some reply }) H rfl room
  rw [length'] at ran filled
  rw [ran]
  refine ⟨final, left, reply, rfl, rfl, push_of_full _ ?_, push_of_full _ ?_⟩
  · dsimp only at filled ⊢
    omega
  · dsimp only
    omega

/-! Clients that write many small requests without waiting for the answers. -/

theorem frames_zeros (k : Nat) :
    requestFramer.frames (replicate (k * 64) 0) = (replicate k zeroFrame, []) := by
  refine Framer.frames_of_parses ⟨?_, ?_, partial_nil⟩
  · rw [zeroFrame, flatten_replicate_replicate, append_nil]
  · intro frame mem
    rw [eq_of_mem_replicate mem]
    change frameSize zeroFrame = some zeroFrame.length
    decide

def pipelined : ReadChunk :=
  ⟨replicate (64 * 64) 0, Nat.lt_of_lt_of_eq (by decide) length_replicate.symm,
    Nat.le_of_eq (length_replicate.trans (by decide))⟩

def pipelinedRead (fd : RawFd) : PollEvent := .ready fd ⟨[], .bytes pipelined []⟩

theorem step_pipelined {fd msgFd : RawFd} (joined : Joined s fd ⟨msgFd, []⟩) :
    (forwarded (s.step (pipelinedRead fd).toEvent).2).map RequestMsg.header =
        replicate 64 ⟨0, 0, 0⟩ ∧
      ∀ g m, Joined s g ⟨m, []⟩ → Joined (s.step (pipelinedRead fd).toEvent).1 g ⟨m, []⟩ := by
  have header : readHeader zeroFrame = ⟨0, 0, 0⟩ := by decide
  have cut : requestFramer.frames ([] ++ pipelined.bytes) = (replicate 64 zeroFrame, []) := by
    rw [nil_append, pipelined, frames_zeros]
  have read : s.step (pipelinedRead fd).toEvent =
      { s with ioClients := s.ioClients.insert fd ⟨msgFd, []⟩ }.forwardFrames fd msgFd
        (replicate 64 zeroFrame) [] := by
    rw [pipelinedRead, toEvent, step_ready joined, handleClientRead_bytes joined.here, cut]
  refine ⟨?_, fun g m other => ?_⟩
  · rw [read, forwarded_forwardFrames, map_replicate, header]
  · rw [read]
    obtain ⟨clients, sockets⟩ := forwardFrames_tables
      { s with ioClients := s.ioClients.insert fd ⟨msgFd, []⟩ } fd msgFd
      (replicate 64 zeroFrame) []
    refine ⟨?_, sockets ▸ other.own⟩
    rw [clients, Table.get?_insert]
    split
    · next same =>
      subst same
      rw [← other.here, joined.here]
    · exact other.here

theorem forwarded_pipelined (fds : List RawFd)
    (joined : ∀ fd ∈ fds, ∃ msgFd, Joined s fd ⟨msgFd, []⟩) :
    (forwarded (s.run ((fds.map pipelinedRead).map toEvent)).2).map RequestMsg.header =
      replicate (64 * fds.length) ⟨0, 0, 0⟩ := by
  induction fds generalizing s with
  | nil => rfl
  | cons fd fds ih =>
    obtain ⟨msgFd, here⟩ := joined fd mem_cons_self
    obtain ⟨headers, stay⟩ := step_pipelined here
    have later := ih (s := (s.step (pipelinedRead fd).toEvent).1) fun g mem => by
      obtain ⟨m, there⟩ := joined g (mem_cons_of_mem _ mem)
      exact ⟨m, stay g m there⟩
    rw [map_cons, map_cons, IoThread.run, forwarded_append, map_append, headers,
      later, replicate_append_replicate, length_cons, Nat.mul_succ, Nat.add_comm]

def nineClients : List RawFd := [10, 11, 12, 13, 14, 15, 16, 17, 18]

def connections : List PollEvent :=
  nineClients.map fun fd => .accept (.accepted (fd + 20) 50 51 fd)

def connectAll : List Move :=
  .batch connections :: (replicate 9 [Move.send, .take 0]).flatten ++ [.send, .drain]

theorem connectAll_quiet (lingerSecs : Nat) : Quiet (run (step H) (new lingerSecs) connectAll) ∧
      (run (step H) (new lingerSecs) connectAll).io = (new.run (connections.map toEvent)).1 := by
  have start : Quiet (new lingerSecs) := ⟨rfl, rfl, rfl, rfl⟩
  have few : connections.length ≤ maxEvents := by decide
  obtain ⟨fed, io⟩ := fed_batch start few
  have control : ∀ msg ∈ forwarded (new.run (connections.map toEvent)).2,
      IsControl msg.header := by decide +kernel
  obtain ⟨taken, same⟩ := fed_control fed control
  obtain ⟨quiet, kept⟩ := quiet_of_fed taken
  rw [connectAll, cons_append, run_cons, run_append]
  exact ⟨quiet, (kept.trans same).trans io⟩

theorem pipelined_deadlock :
    ¬ ∀ moves, ∀ c ∈ states (step silent) (new 5) moves, ¬ c.Deadlocked := by
  intro free
  refine free (connectAll ++ (.batch (nineClients.map pipelinedRead) :: deadlockSchedule)) _
    (run_mem_states _ _) ?_
  obtain ⟨quiet, io⟩ := connectAll_quiet 5
  rw [run_append, run_cons]
  generalize run (step silent) (new 5) connectAll = c at quiet io
  have joined : ∀ fd ∈ nineClients, ∃ msgFd, Joined c.io fd ⟨msgFd, []⟩ := by
    rw [io]
    intro fd mem
    refine ⟨fd + 20, ?_, ?_⟩
    all_goals
      revert fd
      decide +kernel
  have headers := forwarded_pipelined nineClients joined
  refine deadlocked_of_large_batch silent (fed_batch quiet (by decide)).1 ?_ ?_
  · intro msg mem
    have : msg.header ∈ replicate (64 * nineClients.length) (⟨0, 0, 0⟩ : RequestHeader) :=
      headers ▸ List.mem_map.mpr ⟨msg, mem, rfl⟩
    rw [eq_of_mem_replicate this]
    decide
  · have length := congrArg length headers
    rw [length_map, length_replicate] at length
    exact Nat.lt_of_lt_of_eq (by decide) length.symm

end TwoThreads
end Triskelion
