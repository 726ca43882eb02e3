import Triskelion.Exchange
import Mathlib.Logic.Function.Basic

/-! Connections behind descriptor numbers. Both threads know a connection by a number
only, and the kernel may give a closed number away again while messages of the old
connection are still on their way. The trace counts connections, notes which one each
number was last given to, and marks every message with the connection it comes from. -/

namespace Triskelion.Isolation

open List Table Function RequestFraming Option

open IoThread hiding run step
open EventLoop ControlChannel RunRules

structure Trace where
  /-- the connection that a number was last given to -/
  holder : RawFd → Nat
  /-- the connections that share a message socket -/
  members : RawFd → List Nat
  /-- the connections that the entries of the two client tables stand for -/
  ioOf : RawFd → Nat
  clientOf : RawFd → Nat
  next : Nat
  /-- the request descriptors that are open -/
  openFds : List RawFd

/-- The connection whose request is answered, and the clients as the authority saw
them then. -/
structure ReplyTag where
  connection : Nat
  clientOf : RawFd → Nat

structure Traced where
  io : IoThread
  requests : List (Nat × RequestMsg)
  authority : EventLoop
  replies : List (ReplyTag × ReplyMsg)
  trace : Trace

namespace Trace

def new : Trace := ⟨fun _ => 0, fun _ => [], fun _ => 0, fun _ => 0, 0, []⟩

section
variable (t : Trace)
include t

def give (n : RawFd) (c : Nat) : Trace :=
  { t with holder := update t.holder n c, members := update t.members n [] }

def accept (requestFd msgFd : RawFd) : Trace :=
  let given := (t.give requestFd t.next).give msgFd t.next
  { given with
    members := update given.members msgFd [t.next]
    ioOf := update t.ioOf requestFd t.next
    next := t.next + 1
    openFds := requestFd :: t.openFds }

def receive (fds : List RawFd) : Trace :=
  { fds.foldl (fun t n => t.give n t.next) t with next := t.next + 1 }

def closing (actions : List IoAction) : Trace :=
  { t with openFds := t.openFds.filter fun fd => .close fd ∉ actions }

def polled (s : IoThread) : PollEvent → Trace
  | .accept (.accepted msgFd _ _ requestFd) => t.accept requestFd msgFd
  | .accept _ => t
  | .ready fd input =>
    (t.receive (s.receivedBy (.ready fd input))).closing (s.step (.ready fd input)).2

end

/-- A handler that duplicates a descriptor for a new client, or names the reply pipe of
the client it serves. -/
def edited (c : Nat) (t : Trace) : HandlerEdit → Trace
  | .insertClient fd msgFd _ _ _ =>
    let given := t.give fd t.next
    { given with
      members := update given.members msgFd (t.next :: given.members msgFd)
      clientOf := update t.clientOf fd t.next
      next := t.next + 1
      openFds := fd :: t.openFds }
  | .setReplyFd fd => t.give fd c
  | _ => t

end Trace

def editsOf (H : Handlers) (ev : EventLoop) (msg : RequestMsg) : List HandlerEdit :=
  (H (ev.deposit msg.clientFd msg.inflightFds).1 msg.clientFd msg.header msg.buf).1

section
variable (effects : List Effect) (n : RawFd)

def announces : Bool :=
  effects.any fun
    | .registerClient m _ _ => m = n
    | _ => false

def sendsTo : Bool :=
  effects.any fun
    | .sendFd target _ _ => target = n
    | _ => false

end

namespace Trace

def taken (H : Handlers) (ev : EventLoop) (c : Nat) (msg : RequestMsg) (t : Trace) : Trace :=
  if msg.header.req = -1 then
    if ev.clients.contains msg.clientFd then t
    else { t with clientOf := update t.clientOf msg.clientFd c }
  else if msg.header.req = -2 then t
  else (editsOf H ev msg).foldl (edited c) t

def replied (s : IoThread) (tag : ReplyTag) (msg : ReplyMsg) (t : Trace) : Trace :=
  { t with
    ioOf := fun n =>
      if announces msg.effects n ∧ s.ioClients.contains n = false then tag.clientOf n else t.ioOf n }

end Trace

namespace Traced

def new (lingerSecs : Nat) : Traced := ⟨.new, [], .new lingerSecs, [], .new⟩

def exchange (s : Traced) : Exchange :=
  ⟨s.io, s.requests.map Prod.snd, s.authority, s.replies.map Prod.snd⟩

end Traced

def step (H : Handlers) (s : Traced) : Turn → Traced
  | .io event =>
    let (io, actions) := s.io.step event.toEvent
    let trace := s.trace.polled s.io event
    { s with
      io, trace
      requests := s.requests ++ (forwarded actions).map fun msg => (trace.ioOf msg.clientFd, msg) }
  | .take now =>
    match s.requests with
    | [] => s
    | (c, msg) :: later =>
      let (authority, outcome) := s.authority.processRequest H now msg
      let trace := s.trace.taken H s.authority c msg
      { s with
        requests := later, authority, trace
        replies := s.replies ++ outcome.reply.toList.map fun reply => (⟨c, trace.clientOf⟩, reply) }
  | .reply =>
    match s.replies with
    | [] => s
    | (tag, msg) :: later =>
      { s with
        io := (s.io.executeReply msg).1
        replies := later
        trace := s.trace.replied s.io tag msg }

/-- The trace only watches. -/
theorem exchange_step (H : Handlers) (s : Traced) (turn : Turn) :
    (step H s turn).exchange = s.exchange.step H turn := by
  cases turn with
  | io => simp [step, Traced.exchange, Exchange.step, comp_def]
  | take =>
    obtain ⟨io, requests, authority, replies, trace⟩ := s
    cases requests <;> simp [step, Traced.exchange, Exchange.step, comp_def]
  | reply =>
    obtain ⟨io, requests, authority, replies, trace⟩ := s
    cases replies <;> simp [step, Traced.exchange, Exchange.step]

/-! ### Isolation -/

/-- A message is applied to the client that sent it, or to none. A reply announces
clients, is noted and is written under numbers that still belong to the connection it
answers, or to the clients it announces. -/
def Isolated (s : Traced) : Turn → Prop
  | .io _ => True
  | .take _ => ∀ e ∈ s.requests.head?,
      s.authority.clients.contains e.2.clientFd → s.trace.clientOf e.2.clientFd = e.1
  | .reply => ∀ e ∈ s.replies.head?, (∀ n, announces e.2.effects n → s.io.ioClients.contains n →
        s.trace.ioOf n = e.1.clientOf n) ∧
      (s.io.ioClients.contains e.2.clientFd → s.trace.ioOf e.2.clientFd = e.1.connection) ∧
      (∀ target data, .write target data ∈ (s.io.executeReply e.2).2 →
        s.trace.holder target = e.1.connection) ∧
      ∀ target fd version, .sendFd target fd version ∈ (s.io.executeReply e.2).2 →
        e.1.connection ∈ s.trace.members target

/-! Numbers that are still in use somewhere, whether open or not. -/

def named : Effect → List RawFd
  | .registerClient n _ _ => [n]
  | .sendFd target _ _ => [target]
  | _ => []

def ioMentions (s : IoThread) : List RawFd :=
  s.ioClients.entries.map Prod.fst ++ s.clientReplyFds.entries.flatMap fun e => [e.1, e.2]

def clientMentions (ev : EventLoop) : List RawFd :=
  ev.clients.entries.flatMap fun e => e.1 :: e.2.msgFd :: e.2.replyFd.toList

def requestMentions (requests : List (Nat × RequestMsg)) : List RawFd :=
  requests.flatMap fun e => [e.2.clientFd, e.2.msgFd]

def replyMentions (replies : List (ReplyTag × ReplyMsg)) : List RawFd :=
  replies.flatMap fun e => e.2.clientFd :: e.2.replyFd.toList ++ e.2.effects.flatMap named

def mentions (s : Traced) : List RawFd :=
  ioMentions s.io ++ clientMentions s.authority ++ requestMentions s.requests ++
    replyMentions s.replies

def given : HandlerEdit → Option RawFd
  | .insertClient fd _ _ _ _ => some fd
  | .setReplyFd fd => some fd
  | _ => none

def socket : HandlerEdit → Option RawFd
  | .insertClient _ msgFd _ _ _ => some msgFd
  | _ => none

/-- Every number that comes into use, for a connection that is accepted, a descriptor
that is received, a client that a handler adds or a reply pipe that it names, is one
that no table and no message refers to. -/
def Fresh (H : Handlers) (s : Traced) : Turn → Prop
  | .io (.accept (.accepted msgFd _ _ requestFd)) => requestFd ∉ mentions s ∧ msgFd ∉ mentions s
  | .io (.accept _) => True
  | .io (.ready fd input) => ∀ n ∈ s.io.receivedBy (.ready fd input), n ∉ mentions s
  | .take _ => ∀ e ∈ s.requests.head?, ¬ IsControl e.2.header →
      ((editsOf H s.authority e.2).filterMap given).Nodup ∧
      ∀ n ∈ (editsOf H s.authority e.2).filterMap given,
        n ∉ mentions s ∧ n ∉ (editsOf H s.authority e.2).filterMap socket
  | .reply => True

instance decidableFresh (H : Handlers) (s : Traced) : (turn : Turn) → Decidable (Fresh H s turn)
  | .io (.accept outcome) => by cases outcome <;> unfold Fresh <;> infer_instance
  | .io (.ready _ _) | .take _ | .reply => by unfold Fresh; infer_instance

def added : HandlerEdit → Option RawFd
  | .insertClient fd _ _ _ _ => some fd
  | _ => none

def Legal (H : Handlers) (s : Traced) : Turn → Prop
  | .io (.accept (.accepted _ _ _ requestFd)) => requestFd ∉ s.trace.openFds
  | .io _ => True
  | .take _ => ∀ e ∈ s.requests.head?, ¬ IsControl e.2.header →
      ∀ fd ∈ (editsOf H s.authority e.2).filterMap added, fd ∉ s.trace.openFds
  | .reply => True

instance decidableLegal (H : Handlers) (s : Traced) : (turn : Turn) → Decidable (Legal H s turn)
  | .io (.accept outcome) => by cases outcome <;> unfold Legal <;> infer_instance
  | .io (.ready _ _) | .take _ | .reply => by unfold Legal; infer_instance

/-! ### What the numbers stand for -/

structure IoSettled (t : Trace) (s : IoThread) : Prop where
  clients : ∀ n, s.ioClients.contains n → t.ioOf n = t.holder n
  cached : ∀ n r, s.clientReplyFds.get? n = some r → t.holder r = t.holder n

structure ClientSettled (t : Trace) (n : RawFd) (c : Client) : Prop where
  same : t.clientOf n = t.holder n
  reply : ∀ r, c.replyFd = some r → t.holder r = t.holder n
  socket : 0 ≤ c.msgFd → t.holder n ∈ t.members c.msgFd

def ClientsSettled (t : Trace) (ev : EventLoop) : Prop :=
  ∀ n c, ev.clients.get? n = some c → ClientSettled t n c

structure RequestSettled (t : Trace) (e : Nat × RequestMsg) : Prop where
  client : t.holder e.2.clientFd = e.1
  socket : 0 ≤ e.2.msgFd → e.1 ∈ t.members e.2.msgFd

structure ReplySettled (t : Trace) (e : ReplyTag × ReplyMsg) : Prop where
  client : t.holder e.2.clientFd = e.1.connection
  reply : ∀ r, e.2.replyFd = some r → t.holder r = e.1.connection
  announced : ∀ n, announces e.2.effects n → t.holder n = e.1.clientOf n
  sent : ∀ target, sendsTo e.2.effects target → e.1.connection ∈ t.members target

/-- Everything that refers to a number means the connection it was last given to. -/
structure Settled (s : Traced) : Prop where
  io : IoSettled s.trace s.io
  clients : ClientsSettled s.trace s.authority
  requests : ∀ e ∈ s.requests, RequestSettled s.trace e
  replies : ∀ e ∈ s.replies, ReplySettled s.trace e

/-! Mentions, one by one. -/

variable {x n fd : RawFd} {ev after : EventLoop} {effects : List Effect} {t u : Trace}
  {e : Nat × RequestMsg} {s : Traced} {H : Handlers}

theorem mem_ioMentions {s : IoThread} : x ∈ ioMentions s ↔ s.ioClients.contains x ∨
      ∃ n r, s.clientReplyFds.get? n = some r ∧ (x = n ∨ x = r) := by
  simp [ioMentions, mem_flatMap, Table.mem_entries, exists_and_right, Table.contains_iff]

theorem mem_clientMentions : x ∈ clientMentions ev ↔ ∃ n c, ev.clients.get? n = some c ∧
      (x = n ∨ x = c.msgFd ∨ c.replyFd = some x) := by
  simp [clientMentions, mem_flatMap, mem_entries]

theorem named_of_announces (announced : announces effects n) : n ∈ effects.flatMap named := by
  obtain ⟨effect, mem, here⟩ := any_eq_true.mp announced
  refine mem_flatMap.mpr ⟨effect, mem, ?_⟩
  cases effect <;> simp_all [named]

theorem named_of_sendsTo (sent : sendsTo effects n) : n ∈ effects.flatMap named := by
  obtain ⟨effect, mem, here⟩ := any_eq_true.mp sent
  refine mem_flatMap.mpr ⟨effect, mem, ?_⟩
  cases effect <;> simp_all [named]

/-! ### Giving a number away -/

structure Keeps (t u : Trace) (n : RawFd) : Prop where
  holder : u.holder n = t.holder n
  members : ∀ c ∈ t.members n, c ∈ u.members n

theorem Keeps.refl (t : Trace) (n : RawFd) : Keeps t t n := ⟨rfl, fun _ mem => mem⟩

theorem Keeps.trans {v : Trace} (first : Keeps t u n) (second : Keeps u v n) : Keeps t v n :=
  ⟨second.holder.trans first.holder, fun c mem => second.members c (first.members c mem)⟩

theorem keeps_give {m : RawFd} (other : m ≠ n) (c : Nat) : Keeps t (t.give n c) m where
  holder := update_of_ne other _ _
  members d mem := by simpa [Trace.give, update_of_ne other] using mem

theorem IoSettled.transfer {s : IoThread} (settled : IoSettled t s)
    (keeps : ∀ n ∈ ioMentions s, Keeps t u n)
    (same : ∀ n, s.ioClients.contains n → u.ioOf n = t.ioOf n) : IoSettled u s where
  clients n here := by
    rw [same n here, settled.clients n here, (keeps n (mem_ioMentions.mpr (.inl here))).holder]
  cached n r found := by
    rw [(keeps r (mem_ioMentions.mpr (.inr ⟨n, r, found, .inr rfl⟩))).holder,
      (keeps n (mem_ioMentions.mpr (.inr ⟨n, r, found, .inl rfl⟩))).holder, settled.cached n r found]

theorem ClientsSettled.transfer (settled : ClientsSettled t ev)
    (keeps : ∀ n ∈ clientMentions ev, Keeps t u n)
    (same : ∀ n, ev.clients.contains n → u.clientOf n = t.clientOf n) : ClientsSettled u ev := by
  intro n c found
  obtain ⟨client, reply, socket⟩ := settled n c found
  have here := keeps n (mem_clientMentions.mpr ⟨n, c, found, .inl rfl⟩)
  have there := keeps c.msgFd (mem_clientMentions.mpr ⟨n, c, found, .inr (.inl rfl)⟩)
  refine ⟨?_, fun r named => ?_, fun pos => ?_⟩
  · rw [same n (contains_of_get? found), client, here.holder]
  · rw [(keeps r (mem_clientMentions.mpr ⟨n, c, found, .inr (.inr named)⟩)).holder, here.holder,
      reply r named]
  · rw [here.holder]
    exact there.members _ (socket pos)

theorem RequestSettled.transfer (settled : RequestSettled t e)
    (keeps : ∀ n ∈ [e.2.clientFd, e.2.msgFd], Keeps t u n) : RequestSettled u e where
  client := by rw [(keeps _ (by simp)).holder, settled.client]
  socket pos := (keeps _ (by simp)).members _ (settled.socket pos)

theorem ReplySettled.transfer {e : ReplyTag × ReplyMsg} (settled : ReplySettled t e)
    (keeps : ∀ n ∈ e.2.clientFd :: e.2.replyFd.toList ++ e.2.effects.flatMap named, Keeps t u n) :
    ReplySettled u e where
  client := by rw [(keeps _ (by simp)).holder, settled.client]
  reply r found := by rw [(keeps r (by simp [found])).holder, settled.reply r found]
  announced n here := by
    rw [(keeps n (mem_append_right _ (named_of_announces here))).holder, settled.announced n here]
  sent target here :=
    (keeps target (mem_append_right _ (named_of_sendsTo here))).members _
      (settled.sent target here)

theorem Settled.transfer (settled : Settled s) (keeps : ∀ n ∈ mentions s, Keeps s.trace u n)
    (io : ∀ n, s.io.ioClients.contains n → u.ioOf n = s.trace.ioOf n)
    (clients : ∀ n, s.authority.clients.contains n → u.clientOf n = s.trace.clientOf n) :
    Settled { s with trace := u } where
  io := settled.io.transfer (fun n mem => keeps n (by simp [mentions, mem])) io
  clients := settled.clients.transfer (fun n mem => keeps n (by simp [mentions, mem])) clients
  requests e mem := (settled.requests e mem).transfer fun n here =>
    keeps n (by
      have : n ∈ requestMentions s.requests := mem_flatMap.mpr ⟨e, mem, here⟩
      simp [mentions, this])
  replies e mem := (settled.replies e mem).transfer fun n here =>
    keeps n (by
      have : n ∈ replyMentions s.replies := mem_flatMap.mpr ⟨e, mem, here⟩
      simp [mentions, this])

theorem giveAll_ioOf (fds : List RawFd) (t : Trace) :
    (fds.foldl (fun t n => t.give n t.next) t).ioOf = t.ioOf ∧
      (fds.foldl (fun t n => t.give n t.next) t).clientOf = t.clientOf := by
  induction fds generalizing t with
  | nil => exact ⟨rfl, rfl⟩
  | cons n later ih => exact ih (t.give n t.next)

theorem keeps_giveAll {fds : List RawFd} (other : n ∉ fds) (t : Trace) :
    Keeps t (fds.foldl (fun t n => t.give n t.next) t) n := by
  induction fds generalizing t with
  | nil => exact .refl t n
  | cons m later ih =>
    rw [mem_cons, not_or] at other
    exact (keeps_give other.1 t.next).trans (ih other.2 (t.give m t.next))

theorem keeps_accept {requestFd msgFd : RawFd} (request : n ≠ requestFd) (message : n ≠ msgFd) :
    Keeps t (t.accept requestFd msgFd) n := by
  have both := (keeps_give (t := t) request t.next).trans (keeps_give message t.next)
  refine ⟨both.holder, fun c mem => ?_⟩
  simpa [Trace.accept, update_of_ne message] using both.members c mem

/-! ### The I/O thread -/

theorem clientReplyFds_forwardFrames (s : IoThread) (msgFd : RawFd) (frames : List (List UInt8))
    (drains : List (List Received)) :
    (s.forwardFrames fd msgFd frames drains).1.clientReplyFds = s.clientReplyFds := by
  induction frames generalizing s drains with
  | nil => rfl
  | cons frame later ih => simp [forwardFrames, ih, forwardFrame, takePending]

theorem forwardFrames_client {s : IoThread} {msgFd : RawFd} {frames : List (List UInt8)}
    {drains : List (List Received)} :
    ∀ msg ∈ forwarded (s.forwardFrames fd msgFd frames drains).2, msg.clientFd = fd ∧ msg.msgFd = -1 := by
  induction frames generalizing s drains with
  | nil => simp [forwardFrames, forwarded]
  | cons frame later ih =>
    intro msg mem
    simp only [forwardFrames, forwardFrame, forwarded, filterMap_cons, mem_cons] at mem
    rcases mem with rfl | mem
    · exact ⟨rfl, rfl⟩
    · exact ih msg mem

structure Ready (s : IoThread) (after : IoThread × List IoAction) : Prop where
  clients : ∀ n, after.1.ioClients.contains n → s.ioClients.contains n
  cached : ∀ n r, after.1.clientReplyFds.get? n = some r → s.clientReplyFds.get? n = some r
  sent : ∀ msg ∈ forwarded after.2, s.ioClients.contains msg.clientFd ∧ msg.msgFd = -1

theorem disconnectIoClient_tables {s : IoThread} (here : s.ioClients.contains fd) :
    (s.disconnectIoClient fd).1.ioClients = s.ioClients.erase fd ∧
      (s.disconnectIoClient fd).1.clientReplyFds = s.clientReplyFds.erase fd := by
  obtain ⟨client, found⟩ := (contains_iff _ _).mp here
  simp only [disconnectIoClient, found, releaseMsgFd]
  split
  · exact ⟨rfl, rfl⟩
  · split <;> exact ⟨rfl, rfl⟩

theorem ready_disconnect {s : IoThread} (here : s.ioClients.contains fd) :
    Ready s (s.handleClientRead fd .closed) := by
  obtain ⟨clients, cached⟩ := disconnectIoClient_tables here
  refine ⟨fun n present => ?_, fun n r found => ?_, fun msg mem => ?_⟩
  · simp only [handleClientRead, clients, contains_erase, Bool.and_eq_true] at present
    exact present.2
  · simp only [handleClientRead, cached] at found
    exact (of_erase found).2
  · rw [handleClientRead, TwoThreads.forwarded_append, TwoThreads.forwarded_disconnect] at mem
    obtain rfl : msg = disconnection fd := by simpa [forwarded] using mem
    exact ⟨here, rfl⟩

theorem ready_bytes {s : IoThread} (here : s.ioClients.contains fd) (chunk : ReadChunk)
    (drains : List (List Received)) : Ready s (s.handleClientRead fd (.bytes chunk drains)) := by
  obtain ⟨client, found⟩ := (contains_iff _ _).mp here
  rw [handleClientRead_bytes found]
  refine ⟨fun n present => ?_, fun n r cached => ?_, fun msg mem => ?_⟩
  · rw [(forwardFrames_tables _ _ _ _ _).1] at present
    rcases of_contains_insert present with rfl | old
    · exact here
    · exact old
  · rwa [clientReplyFds_forwardFrames] at cached
  · obtain ⟨rfl, none_⟩ := forwardFrames_client msg mem
    exact ⟨here, none_⟩

theorem ready_step (s : IoThread) (fd : RawFd) (input : FdInput) :
    Ready s (s.step (.ready fd input)) := by
  have idle : Ready s (s, []) := ⟨fun _ present => present, fun _ _ found => found, by simp [forwarded]⟩
  rw [IoThread.step]
  split
  · refine ⟨fun n present => ?_, fun n r found => ?_, by simp [forwarded]⟩
    · rwa [drainMsgFd_ioClients] at present
    · rwa [drainMsgFd_clientReplyFds] at found
  · split
    · next here =>
      obtain ⟨received, read⟩ := input
      cases read with
      | closed => exact ready_disconnect here
      | bytes chunk drains => exact ready_bytes here chunk drains
    · exact idle

theorem contains_executeEffects (s : IoThread) : (s.executeEffects effects).1.ioClients.contains n =
      (s.ioClients.contains n || announces effects n) := by
  induction effects generalizing s with
  | nil => simp [executeEffects, announces]
  | cons effect later ih =>
    simp only [executeEffects, ih, announces, any_cons, ← Bool.or_assoc]
    cases effect with
    | registerClient requestFd =>
      simp only [executeEffect]
      split
      · next present =>
        by_cases same : requestFd = n
        · simp [same ▸ present, same]
        · simp [same]
      · by_cases same : requestFd = n
        · simp [track, Table.contains, get?_insert, same]
        · simp [track, Table.contains, get?_insert, same, Ne.symm same]
    | watchPipeFd | sendFd | rearmQueueFd => simp [executeEffect]
    | watchQueueFd => simp only [executeEffect]; split <;> simp

theorem actions_executeEffects {s : IoThread} {action : IoAction}
    (mem : action ∈ (s.executeEffects effects).2) : (∃ fd, action = .close fd) ∨
      ∃ target fd version, action = .sendFd target fd version ∧ sendsTo effects target := by
  induction effects generalizing s with
  | nil => cases mem
  | cons effect later ih =>
    simp only [executeEffects, mem_append] at mem
    rcases mem with first | rest
    · cases effect with
      | registerClient | watchQueueFd =>
        simp only [executeEffect] at first
        split at first <;> cases first
      | sendFd target fd version =>
        simp only [executeEffect, mem_cons, not_mem_nil, or_false] at first
        rcases first with rfl | rfl
        · exact .inr ⟨target, fd, version, rfl, by simp [sendsTo]⟩
        · exact .inl ⟨fd, rfl⟩
      | watchPipeFd =>
        simp only [executeEffect] at first
        split at first
        · split at first
          · exact .inl ⟨_, mem_singleton.mp first⟩
          · cases first
        · cases first
      | rearmQueueFd => cases first
    · rcases ih rest with close | ⟨target, fd, version, same, sent⟩
      · exact .inl close
      · refine .inr ⟨target, fd, version, same, ?_⟩
        simp only [sendsTo, any_cons, Bool.or_eq_true] at sent ⊢
        exact .inr sent

def target (s : IoThread) (msg : ReplyMsg) : RawFd :=
  (msg.replyFd.or (s.clientReplyFds.get? msg.clientFd)).getD msg.clientFd

theorem actions_executeReply {s : IoThread} {msg : ReplyMsg} {action : IoAction}
    (mem : action ∈ (s.executeReply msg).2) :
    action ∈ (s.executeEffects msg.effects).2 ∨ action = .write (target s msg) msg.reply := by
  simp only [executeReply, mem_append] at mem
  rcases mem with effect | last
  · exact .inl effect
  · split at last
    · cases last
    · rw [mem_singleton.mp last, target]
      cases msg.replyFd with
      | none => simp [executeEffects_clientReplyFds]
      | some => simp [get?_insert]

theorem holder_accept (requestFd msgFd : RawFd) :
    (t.accept requestFd msgFd).holder requestFd = t.next := by
  by_cases same : requestFd = msgFd <;> simp [Trace.accept, Trace.give, same]

theorem settled_accept (settled : Settled s) {msgFd requestFd : RawFd}
    (request : requestFd ∉ mentions s) (message : msgFd ∉ mentions s) (pipeRead pipeWrite : RawFd) :
    Settled (step H s (.io (.accept (.accepted msgFd pipeRead pipeWrite requestFd)))) := by
  have moved : Settled { s with trace := s.trace.accept requestFd msgFd } := by
    refine settled.transfer (fun n mem => ?_) (fun n here => ?_) (fun n here => rfl)
    · exact keeps_accept (fun same => request (same ▸ mem)) fun same => message (same ▸ mem)
    · refine update_of_ne (fun same => request ?_) _ _
      simp [mentions, mem_ioMentions, ← same, here]
  have fresh : (s.trace.accept requestFd msgFd).ioOf requestFd = s.trace.next := by
    simp [Trace.accept]
  refine ⟨⟨fun n here => ?_, moved.io.cached⟩, moved.clients, fun e mem => ?_, moved.replies⟩
  · rcases of_contains_insert here with rfl | old
    · exact fresh.trans (holder_accept _ _).symm
    · exact moved.io.clients n old
  · rcases mem_append.mp mem with old | new
    · exact moved.requests e old
    · obtain rfl : e = (s.trace.next, registration requestFd msgFd) := by
        simpa [forwarded, Trace.polled,
          registration, fresh] using new
      exact ⟨holder_accept _ _, fun _ => by simp [step, Trace.polled, Trace.accept, registration]⟩

theorem settled_ready (settled : Settled s) {input : FdInput}
    (fresh : ∀ n ∈ s.io.receivedBy (.ready fd input), n ∉ mentions s) :
    Settled (step H s (.io (.ready fd input))) := by
  obtain ⟨io, client⟩ := giveAll_ioOf (s.io.receivedBy (.ready fd input)) s.trace
  have moved : Settled { s with trace := s.trace.polled s.io (.ready fd input) } := by
    refine settled.transfer (fun n mem => ?_) (fun n _ => congrFun io n) fun n _ => congrFun client n
    have kept := keeps_giveAll (fun received => fresh n received mem) s.trace
    exact ⟨kept.holder, kept.members⟩
  have ready := ready_step s.io fd input
  refine ⟨⟨fun n here => ?_, fun n r cached => ?_⟩, moved.clients, fun e mem => ?_, moved.replies⟩
  · exact moved.io.clients n (ready.clients n here)
  · exact moved.io.cached n r (ready.cached n r cached)
  · rcases mem_append.mp mem with old | new
    · exact moved.requests e old
    · obtain ⟨msg, sent, rfl⟩ := mem_map.mp new
      obtain ⟨here, none_⟩ := ready.sent msg sent
      refine ⟨(moved.io.clients _ here).symm, fun pos => ?_⟩
      rw [none_] at pos
      exact absurd pos (by decide)

theorem settled_io (settled : Settled s) {event : PollEvent} (fresh : Fresh H s (.io event)) :
    Settled (step H s (.io event)) := by
  cases event with
  | ready => exact settled_ready settled fresh
  | accept outcome =>
    cases outcome with
    | accepted _ pipeRead pipeWrite =>
      exact settled_accept settled fresh.1 fresh.2 pipeRead pipeWrite
    | _ => simpa [step, PollEvent.toEvent, IoThread.step, handleAccept, forwarded]

theorem ioClients_executeReply (s : IoThread) (msg : ReplyMsg) :
    (s.executeReply msg).1.ioClients = (s.executeEffects msg.effects).1.ioClients := by
  unfold executeReply
  cases msg.replyFd <;> rfl

theorem clientReplyFds_executeReply {s : IoThread} {msg : ReplyMsg} {r : RawFd}
    (found : (s.executeReply msg).1.clientReplyFds.get? n = some r) :
    n = msg.clientFd ∧ msg.replyFd = some r ∨ s.clientReplyFds.get? n = some r := by
  simp only [executeReply] at found
  cases named : msg.replyFd with
  | none => simpa [named] using found
  | some =>
    simp only [named, executeEffects_clientReplyFds] at found
    rcases of_insert found with ⟨same, rfl⟩ | ⟨-, old⟩
    · exact .inl ⟨same, rfl⟩
    · exact .inr old

theorem settled_reply (settled : Settled s) : Settled (step H s .reply) := by
  obtain ⟨io, requests, authority, replies, trace⟩ := s
  cases replies with
  | nil => exact settled
  | cons e later =>
    obtain ⟨client, reply, announced, -⟩ := settled.replies _ mem_cons_self
    refine ⟨⟨fun n here => ?_, fun n r found => ?_⟩, fun n c found => ?_, fun e mem => ?_,
      fun e mem => ?_⟩
    · simp only [step, ioClients_executeReply, contains_executeEffects, Bool.or_eq_true] at here
      simp only [step, Trace.replied]
      split
      · next fresh => exact (announced n fresh.1).symm
      · next old =>
        have present : io.ioClients.contains n := by
          by_contra absent
          exact old ⟨here.resolve_left absent, by simpa using absent⟩
        exact settled.io.clients n present
    · rcases clientReplyFds_executeReply found with ⟨rfl, named⟩ | cached
      · exact (reply r named).trans client.symm
      · exact settled.io.cached n r cached
    · exact { settled.clients n c found with }
    · exact { settled.requests e mem with }
    · exact { settled.replies e (mem_cons_of_mem _ mem) with }

/-! ### The authority -/

def names (c : Client) : Option RawFd × RawFd := (c.replyFd, c.msgFd)

def SameNames (ev after : EventLoop) : Prop :=
  ∀ n, (after.clients.get? n).map names = (ev.clients.get? n).map names

section
variable (same : SameNames ev after)
include same

theorem SameNames.found {c : Client} (found : after.clients.get? n = some c) :
    ∃ old, ev.clients.get? n = some old ∧ c.replyFd = old.replyFd ∧ c.msgFd = old.msgFd := by
  have here := same n
  rw [found] at here
  obtain ⟨old, before, equal⟩ := map_eq_some_iff.mp here.symm
  obtain ⟨reply, socket⟩ := Prod.mk.inj equal
  exact ⟨old, before, reply.symm, socket.symm⟩

theorem SameNames.settled (settled : ClientsSettled t ev) : ClientsSettled t after := by
  intro n c found
  obtain ⟨old, before, reply, socket⟩ := same.found found
  obtain ⟨client, named, shared⟩ := settled n old before
  exact ⟨client, fun r here => named r (reply ▸ here), by rw [socket]; exact shared⟩

theorem SameNames.mentioned (mem : x ∈ clientMentions after) : x ∈ clientMentions ev := by
  obtain ⟨n, c, found, here⟩ := mem_clientMentions.mp mem
  obtain ⟨old, before, reply, socket⟩ := same.found found
  rw [reply, socket] at here
  exact mem_clientMentions.mpr ⟨n, old, before, here⟩

end

theorem SameNames.refl (ev : EventLoop) : SameNames ev ev := fun _ => rfl

theorem sameNames_modify {g : Client → Client} (changed : after.clients = ev.clients.modify fd g)
    (same : ∀ c, names (g c) = names c) : SameNames ev after := by
  intro n
  rw [changed, get?_modify]
  split
  · next here => simp [here, comp_def, same]
  · rfl

theorem sameNames_of_touched (touched : Touched ev after) : SameNames ev after := by
  rcases touched.clients with same | ⟨fd, g, changed, names_⟩
  · intro n
    rw [same]
  · exact sameNames_modify changed fun c => Prod.ext (names_ c).1 (names_ c).2

theorem sameNames_edit {edit : HandlerEdit} (none_ : given edit = none) :
    SameNames ev (ev.applyEdit fd edit).ev := by
  cases edit with
  | insertClient | setReplyFd => cases none_
  | takeInflight n => exact sameNames_of_touched (touched_takeInflightFd ev fd n)
  | takeFirstInflight => exact sameNames_of_touched (touched_takeFirstInflightFd ev fd)
  | identify | setWaitFd | setQueueFd | setPendingFd => exact sameNames_modify rfl fun _ => rfl
  | _ => exact .refl ev

def Traced.edit (s : Traced) (e : Nat × RequestMsg) (edit : HandlerEdit) : Traced :=
  { s with
    authority := (s.authority.applyEdit e.2.clientFd edit).ev
    trace := s.trace.edited e.1 edit }

theorem clientMentions_edit {edit : HandlerEdit}
    (mem : x ∈ clientMentions (ev.applyEdit fd edit).ev) :
    x ∈ clientMentions ev ∨ given edit = some x ∨ socket edit = some x := by
  cases edit with
  | insertClient =>
    obtain ⟨m, c, found, here⟩ := mem_clientMentions.mp mem
    rcases of_insert found with ⟨rfl, rfl⟩ | ⟨-, before⟩
    · rcases here with rfl | rfl | reply
      · exact .inr (.inl rfl)
      · exact .inr (.inr rfl)
      · cases reply
    · exact .inl (mem_clientMentions.mpr ⟨m, c, before, here⟩)
  | setReplyFd =>
    obtain ⟨m, c, found, here⟩ := mem_clientMentions.mp mem
    rcases of_modify found with ⟨rfl, old, before, rfl⟩ | ⟨-, before⟩
    · rcases here with rfl | rfl | reply
      · exact .inl (mem_clientMentions.mpr ⟨_, old, before, .inl rfl⟩)
      · exact .inl (mem_clientMentions.mpr ⟨_, old, before, .inr (.inl rfl)⟩)
      · exact .inr (.inl reply)
    · exact .inl (mem_clientMentions.mpr ⟨m, c, before, here⟩)
  | _ => exact .inl ((sameNames_edit rfl).mentioned mem)

theorem mentions_edit {edit : HandlerEdit} (mem : x ∈ mentions (s.edit e edit)) :
    x ∈ mentions s ∨ given edit = some x ∨ socket edit = some x := by
  simp only [mentions, mem_append, Traced.edit] at mem ⊢
  rcases mem with ((io | client) | request) | reply
  · exact .inl (.inl (.inl (.inl io)))
  · exact (clientMentions_edit client).imp_left fun old => .inl (.inl (.inr old))
  · exact .inl (.inl (.inr request))
  · exact .inl (.inr reply)

section
variable (settled : Settled s)
include settled

theorem settled_insertClient (fresh : fd ∉ mentions s)
    (msgFd : RawFd) (pid tid : UInt32) (isMsgPrimary : Bool) :
    Settled (s.edit e (.insertClient fd msgFd pid tid isMsgPrimary)) := by
  have moved : Settled { s with
      trace := s.trace.edited e.1 (.insertClient fd msgFd pid tid isMsgPrimary) } := by
    refine settled.transfer (fun n mem => ?_) (fun n _ => rfl) (fun n here => ?_)
    · have other : n ≠ fd := fun same => fresh (same ▸ mem)
      have kept := keeps_give (t := s.trace) other s.trace.next
      refine ⟨kept.holder, fun c old => ?_⟩
      by_cases shared : n = msgFd
      · subst shared
        simpa [Trace.edited] using .inr (kept.members c old)
      · simpa [Trace.edited, update_of_ne shared] using kept.members c old
    · refine update_of_ne (fun same => fresh ?_) _ _
      obtain ⟨c, found⟩ := (contains_iff _ _).mp here
      have : fd ∈ clientMentions s.authority :=
        mem_clientMentions.mpr ⟨n, c, found, .inl same.symm⟩
      simp [mentions, this]
  refine { moved with clients := fun n c found => ?_ }
  rcases of_insert found with ⟨rfl, rfl⟩ | ⟨-, before⟩
  · refine ⟨?_, fun r reply => ?_, fun _ => ?_⟩
    · simp [Traced.edit, Trace.edited, Trace.give]
    · cases reply
    · simp [Traced.edit, Trace.edited, Trace.give]
  · exact moved.clients n c before

section
variable (asked : e ∈ s.requests)
include asked

theorem settled_setReplyFd {r : RawFd}
    (fresh : r ∉ mentions s) : Settled (s.edit e (.setReplyFd r)) := by
  have keeps : ∀ n ∈ mentions s, Keeps s.trace (s.trace.give r e.1) n := by
    intro n mem
    have other : n ≠ r := fun same => fresh (same ▸ mem)
    exact keeps_give other e.1
  have moved := settled.transfer keeps (fun _ _ => rfl) fun _ _ => rfl
  refine { moved with clients := fun n c found => ?_ }
  rcases of_modify found with ⟨rfl, old, before, rfl⟩ | ⟨-, before⟩
  · obtain ⟨client, -, socket⟩ := moved.clients _ old before
    refine ⟨client, fun reply named => ?_, socket⟩
    obtain rfl := some.inj named
    exact (update_self _ _ _).trans (moved.requests e asked).client.symm
  · exact moved.clients n c before

theorem settled_edit {edit : HandlerEdit}
    (fresh : ∀ n, given edit = some n → n ∉ mentions s) : Settled (s.edit e edit) := by
  cases edit with
  | insertClient fd msgFd pid tid isMsgPrimary =>
    exact settled_insertClient settled (fresh fd rfl) msgFd pid tid isMsgPrimary
  | setReplyFd r => exact settled_setReplyFd settled asked (fresh r rfl)
  | _ => exact { settled with clients := (sameNames_edit rfl).settled settled.clients }

theorem settled_edits {edits : List HandlerEdit} (nodup : (edits.filterMap given).Nodup)
    (fresh : ∀ n ∈ edits.filterMap given, n ∉ mentions s ∧ n ∉ edits.filterMap socket) :
    Settled { s with
      authority := (s.authority.applyEdits e.2.clientFd edits).ev
      trace := edits.foldl (Trace.edited e.1) s.trace } := by
  induction edits generalizing s with
  | nil => exact settled
  | cons edit later ih =>
    have first : Settled (s.edit e edit) := settled_edit settled asked fun n here =>
      (fresh n (by simp [here])).1
    refine ih first asked ?_ fun n mem => ?_
    · cases here : given edit with
      | none => rwa [filterMap_cons_none here] at nodup
      | some =>
        rw [filterMap_cons_some here, nodup_cons] at nodup
        exact nodup.2
    · have mem' : n ∈ (edit :: later).filterMap given := by
        rw [mem_filterMap] at mem ⊢
        obtain ⟨a, old, equal⟩ := mem
        exact ⟨a, mem_cons_of_mem _ old, equal⟩
      obtain ⟨unmentioned, unshared⟩ := fresh n mem'
      rw [mem_filterMap] at unshared
      refine ⟨fun mentioned => ?_, fun shared => unshared ?_⟩
      · rcases mentions_edit mentioned with old | same | shared
        · exact unmentioned old
        · rw [filterMap_cons_some same, nodup_cons] at nodup
          exact nodup.1 mem
        · exact unshared ⟨edit, mem_cons_self, shared⟩
      · obtain ⟨a, old, equal⟩ := mem_filterMap.mp shared
        exact ⟨a, mem_cons_of_mem _ old, equal⟩

end

end

/-! The effects of an answer. -/

theorem announces_append (first second : List Effect) :
    announces (first ++ second) n = (announces first n || announces second n) :=
  any_append

theorem sendsTo_append (first second : List Effect) :
    sendsTo (first ++ second) n = (sendsTo first n || sendsTo second n) :=
  any_append

theorem announce_effects (k : Nat) : (announces (ev.announce k).2 n → ev.clients.contains n) ∧
      sendsTo (ev.announce k).2 n = false := by
  unfold announce
  split
  · constructor
    · intro here
      obtain ⟨effect, mem, same⟩ := any_eq_true.mp here
      obtain ⟨⟨m, c⟩, new, rfl⟩ := mem_map.mp mem
      obtain rfl : m = n := by simpa using same
      exact contains_of_get? ((mem_entries _ _ _).mp (mem_of_mem_filter new))
    · simp [sendsTo]
  · exact ⟨fun here => by simp [announces] at here, rfl⟩

theorem sendPending_effects : announces (ev.sendPending fd).2.1 n = false ∧
      (sendsTo (ev.sendPending fd).2.1 n →
        ∃ c, ev.clients.get? fd = some c ∧ c.msgFd = n ∧ 0 ≤ n) := by
  unfold sendPending
  split
  · exact ⟨rfl, fun here => by simp [sendsTo] at here⟩
  · next c pending version found =>
    split
    · next pos =>
      refine ⟨rfl, fun here => ?_⟩
      obtain ⟨old, before, equal⟩ := bind_eq_some_iff.mp found
      obtain ⟨p, -, same⟩ := map_eq_some_iff.mp equal
      obtain ⟨rfl, rfl⟩ := Prod.mk.inj same
      obtain rfl : old.msgFd = n := by simpa [sendsTo] using here
      exact ⟨old, before, rfl, pos⟩
    · exact ⟨rfl, fun here => by simp [sendsTo] at here⟩

theorem drainWatches_effects :
    announces ev.drainWatches.2 n = false ∧ sendsTo ev.drainWatches.2 n = false := by
  constructor <;> simp [drainWatches, announces, sendsTo]

def collected (handled : EventLoop) (k : Nat) (fd : RawFd) (bytes : List UInt8) : EventLoop × ReplyMsg :=
  let (ev, announced) := handled.announce k
  let (ev, sent, _) := ev.sendPending fd
  let (ev, watched) := ev.drainWatches
  (ev, ⟨fd, bytes, (ev.clients.get? fd).bind Client.replyFd, announced ++ sent ++ watched⟩)

theorem collected_settled {handled : EventLoop} {c : Nat} (asked : t.holder fd = c)
    (settled : ClientsSettled t handled) (k : Nat) (bytes : List UInt8) :
    ClientsSettled t (collected handled k fd bytes).1 ∧
      ReplySettled t (⟨c, t.clientOf⟩, (collected handled k fd bytes).2) := by
  have announced : ClientsSettled t (handled.announce k).1 := by
    intro n c found
    rw [announce_clients] at found
    exact settled n c found
  have final : ClientsSettled t ((handled.announce k).1.sendPending fd).1 :=
    (sameNames_of_touched (touched_sendPending _ _)).settled announced
  refine ⟨final, asked, fun r named => ?_, fun n here => ?_, fun target here => ?_⟩
  · obtain ⟨c, found, pipe⟩ := bind_eq_some_iff.mp named
    exact ((final _ c found).reply r pipe).trans asked
  · simp only [collected, announces_append, sendPending_effects.1,
      drainWatches_effects.1, Bool.or_false] at here
    obtain ⟨c, found⟩ := (contains_iff _ _).mp ((announce_effects _).1 here)
    exact (settled n c found).same.symm
  · simp only [collected, sendsTo_append, (announce_effects _).2, drainWatches_effects.2,
      Bool.or_false, Bool.false_or] at here
    obtain ⟨c, found, rfl, pos⟩ := sendPending_effects.2 here
    have shared := (announced _ c found).socket pos
    rwa [asked] at shared

theorem settled_answer (settled : Settled s) (asked : e ∈ s.requests)
    (fresh : ((editsOf H s.authority e.2).filterMap given).Nodup ∧
      ∀ n ∈ (editsOf H s.authority e.2).filterMap given,
        n ∉ mentions s ∧ n ∉ (editsOf H s.authority e.2).filterMap socket) :
    Settled { s with
      authority := (s.authority.answer H e.2).1
      trace := (editsOf H s.authority e.2).foldl (Trace.edited e.1) s.trace
      replies := s.replies ++ (s.authority.answer H e.2).2.reply.toList.map fun reply =>
        (⟨e.1, ((editsOf H s.authority e.2).foldl (Trace.edited e.1) s.trace).clientOf⟩, reply) } := by
  have same := sameNames_of_touched (touched_deposit s.authority e.2.clientFd e.2.inflightFds)
  have placed : Settled { s with
      authority := (s.authority.deposit e.2.clientFd e.2.inflightFds).1 } :=
    { settled with clients := same.settled settled.clients }
  have handled := settled_edits placed asked fresh.1 fun n mem => by
    obtain ⟨unmentioned, unshared⟩ := fresh.2 n mem
    refine ⟨fun mentioned => unmentioned ?_, unshared⟩
    simp only [mentions, mem_append] at mentioned ⊢
    exact mentioned.imp_left fun rest => rest.imp_left fun io => io.imp_right same.mentioned
  obtain ⟨clients, replySettled⟩ := collected_settled (handled.requests e asked).client
    handled.clients (s.authority.deposit e.2.clientFd e.2.inflightFds).1.clients.entries.length
    (H (s.authority.deposit e.2.clientFd e.2.inflightFds).1 e.2.clientFd e.2.header e.2.buf).2
  refine ⟨handled.io, clients, handled.requests, fun r mem => ?_⟩
  rcases mem_append.mp mem with old | new
  · exact handled.replies r old
  · obtain rfl := mem_singleton.mp new
    exact replySettled

theorem settled_register (settled : Settled s) (asked : e ∈ s.requests) : Settled { s with
      authority := s.authority.register e.2.clientFd e.2.msgFd
      trace := if s.authority.clients.contains e.2.clientFd then s.trace else
        { s.trace with clientOf := update s.trace.clientOf e.2.clientFd e.1 } } := by
  obtain ⟨client, socket⟩ := settled.requests e asked
  unfold register
  split
  · exact settled
  · next absent =>
    have moved : Settled { s with trace := { s.trace with
        clientOf := update s.trace.clientOf e.2.clientFd e.1 } } := by
      refine settled.transfer (fun n _ => ⟨rfl, fun _ mem => mem⟩) (fun _ _ => rfl) fun n here => ?_
      have other : n ≠ e.2.clientFd := fun same => absent (same ▸ here)
      exact update_of_ne other _ _
    refine { moved with clients := fun n c found => ?_ }
    rcases of_insert found with ⟨rfl, rfl⟩ | ⟨-, before⟩
    · refine ⟨?_, fun r reply => ?_, fun pos => ?_⟩
      · simp [client]
      · cases reply
      · rw [client]
        exact socket pos
    · exact moved.clients n c before

theorem finish_clients {now : Nat} {c : Client}
    (found : (ev.finish now fd).1.clients.get? n = some c) : ev.clients.get? n = some c := by
  have removed : (ev.finish now fd).1.clients = ev.clients.erase fd := by
    unfold finish disconnectClient
    dsimp only
    repeat' split
    all_goals rfl
  rw [removed] at found
  exact (of_erase found).2

theorem settled_take (settled : Settled s) {now : Nat} (fresh : Fresh H s (.take now)) :
    Settled (step H s (.take now)) := by
  obtain ⟨io, requests, authority, replies, trace⟩ := s
  cases requests with
  | nil => exact settled
  | cons e later =>
    have asked : e ∈ e :: later := mem_cons_self
    -- the message itself is settled until it has been taken
    have done : ∀ {s : Traced}, s.requests = e :: later → Settled s →
        Settled { s with requests := later } := fun queue all =>
      { all with requests := fun m mem => all.requests m (queue ▸ mem_cons_of_mem _ mem) }
    by_cases one : e.2.header.req = -1
    · have registered := done rfl (settled_register settled asked)
      simpa [step, processRequest, Trace.taken, one, Outcome.reply] using registered
    by_cases two : e.2.header.req = -2
    · have ended : Settled ⟨io, e :: later, (authority.finish now e.2.clientFd).1, replies, trace⟩ :=
        { settled with clients := fun n c found => settled.clients n c (finish_clients found) }
      simpa [step, processRequest, Trace.taken, two, Outcome.reply] using done rfl ended
    · have plain : ¬ IsControl e.2.header := fun control => control.elim one two
      have answered := done rfl (settled_answer settled asked (fresh e rfl plain))
      simpa [step, processRequest, Trace.taken, one, two] using answered

theorem settled_step (H : Handlers) (s : Traced) (turn : Turn) (settled : Settled s)
    (fresh : Fresh H s turn) : Settled (step H s turn) := by
  cases turn with
  | io => exact settled_io settled fresh
  | take => exact settled_take settled fresh
  | reply => exact settled_reply settled

theorem settled_new (lingerSecs : Nat) : Settled (.new lingerSecs) where
  io := ⟨fun _ _ => rfl, fun _ _ found => by cases found⟩
  clients _ _ found := by cases found
  requests _ mem := by cases mem
  replies _ mem := by cases mem

theorem holder_target {s : IoThread} {e : ReplyTag × ReplyMsg} (io : IoSettled t s)
    (settled : ReplySettled t e) : t.holder (target s e.2) = e.1.connection := by
  unfold target
  cases named : e.2.replyFd with
  | some r => exact settled.reply r named
  | none =>
    cases cached : s.clientReplyFds.get? e.2.clientFd with
    | some r => exact (io.cached _ r cached).trans settled.client
    | none => exact settled.client

theorem isolated_of_settled (settled : Settled s) (turn : Turn) : Isolated s turn := by
  cases turn with
  | io => trivial
  | take =>
    intro e head known
    obtain ⟨c, found⟩ := (contains_iff _ _).mp known
    exact (settled.clients _ c found).same.trans
      (settled.requests e (mem_of_mem_head? head)).client
  | reply =>
    intro e head
    have reply := settled.replies e (mem_of_mem_head? head)
    refine ⟨fun n announced here => ?_, fun here => ?_, fun number data written => ?_,
      fun socket fd version sent => ?_⟩
    · exact (settled.io.clients n here).trans (reply.announced n announced)
    · exact (settled.io.clients _ here).trans reply.client
    · rcases actions_executeReply written with effect | last
      · rcases actions_executeEffects effect with ⟨_, close⟩ | ⟨_, _, _, send, -⟩
        · cases close
        · cases send
      · obtain ⟨rfl, -⟩ := IoAction.write.inj last
        exact holder_target settled.io reply
    · rcases actions_executeReply sent with effect | last
      · rcases actions_executeEffects effect with ⟨_, close⟩ | ⟨_, _, _, send, here⟩
        · cases close
        · obtain ⟨rfl, -, -⟩ := IoAction.sendFd.inj send
          exact reply.sent _ here
      · cases last

/-- In every exchange of the two threads, with any handlers. -/
theorem isolated_of_fresh (H : Handlers) (lingerSecs : Nat) (turns : List Turn)
    (fresh : AllSteps (step H) (Fresh H) (.new lingerSecs) turns) :
    AllSteps (step H) Isolated (.new lingerSecs) turns :=
  allSteps_of_invariant (settled_step H) (fun _ turn settled _ => isolated_of_settled settled turn)
    (settled_new lingerSecs) fresh

def spawning (fd : RawFd) : Handlers := fun _ _ header _ =>
  (if header.req = 5 then [.insertClient fd 10 1 2 false] else [], [0])

def newThread : ReadChunk := ⟨5 :: List.replicate 63 0, by decide, by decide⟩

def visits : List Turn :=
  [.io (.accept (.accepted 6 20 21 7)), .take 0, .io (.accept (.accepted 10 20 21 9)), .take 0,
    .io (.ready 9 ⟨[], .bytes newThread []⟩), .io (.ready 7 ⟨[], .closed⟩), .take 0, .take 0, .reply]

theorem isolated_visits : AllSteps (step (spawning 12)) (Fresh (spawning 12)) (.new 5) visits ∧
      AllSteps (step (spawning 12)) Isolated (.new 5) visits := by
  have fresh : AllSteps (step (spawning 12)) (Fresh (spawning 12)) (.new 5) visits := by
    decide +kernel
  exact ⟨fresh, isolated_of_fresh (spawning 12) 5 visits fresh⟩

/-- The pipe of the new thread gets the number 7, which the first client has just
given up. The end of the first client, still on its way, then ends the new one. -/
theorem disconnect_ends_later_client :
    ¬ ∀ turns, AllSteps (step (spawning 7)) (Legal (spawning 7)) (.new 5) turns →
      AllSteps (step (spawning 7)) Isolated (.new 5) turns := by
  intro isolated
  have legal : AllSteps (step (spawning 7)) (Legal (spawning 7)) (.new 5) visits := by
    decide +kernel
  have last := (isolated visits legal).2.2.2.2.2.2.2.1
  have wrong := last _ rfl (by decide +kernel)
  revert wrong
  decide +kernel

end Triskelion.Isolation
