import Triskelion.Exchange

/-! Where the descriptors are that clients send over their message sockets. The I/O
thread queues them, a request takes them to the authority, a client or its process
keeps them until a handler takes one; what is left is closed with the client or the
process. -/

namespace Triskelion.InflightFds

open List Table InflightFd Received
open Option (getD_none getD_some map_none map_some toList_some)

open IoThread hiding run step
open EventLoop ControlChannel RunRules

/-! ### The places -/

section
variable (x : RawFd)

def copies (queue : List InflightFd) : Nat := (queue.map fd).count x

@[simp] theorem copies_nil : copies x [] = 0 := rfl

@[simp] theorem copies_append (q r : List InflightFd) :
    copies x (q ++ r) = copies x q + copies x r := by
  simp [copies]

theorem copies_cons (y : InflightFd) (q : List InflightFd) :
    copies x (y :: q) = [y.fd].count x + copies x q := by
  rw [← singleton_append, copies_append]
  rfl

end

def inPending (s : IoThread) (x : RawFd) : Nat := s.pendingFds.total (copies x)

def inRequests (requests : List RequestMsg) (x : RawFd) : Nat :=
  copies x (requests.flatMap RequestMsg.inflightFds)

section
variable (ev : EventLoop) (x : RawFd)

def inClients : Nat := ev.clients.total fun c => copies x c.inflightFds

def inPools : Nat := ev.processInflightFds.total (copies x)

def atAuthority : Nat := inClients ev x + inPools ev x

end

def held (s : Exchange) (x : RawFd) : Nat :=
  inPending s.io x + inRequests s.requests x + atAuthority s.authority x

def closedInFlight (closed : List ClosedFd) : List RawFd :=
  (closed.filter ClosedFd.inFlight).map ClosedFd.fd

@[simp] theorem closedInFlight_append (first second : List ClosedFd) :
    closedInFlight (first ++ second) = closedInFlight first ++ closedInFlight second := by
  simp [closedInFlight]

@[simp] theorem closedInFlight_owned (fds : List RawFd) :
    closedInFlight (fds.map (⟨·, false⟩)) = [] := by
  simp [closedInFlight]

@[simp] theorem closedInFlight_close (queue : List InflightFd) :
    closedInFlight (queue.map close) = queue.map fd := by
  induction queue with
  | nil => rfl
  | cons x later ih => simpa [closedInFlight, close] using ih

theorem count_dropped (c : Client) (x : RawFd) :
    (closedInFlight c.dropped).count x = copies x c.inflightFds := by
  rw [Client.dropped, closedInFlight_append, closedInFlight_owned, closedInFlight_close]
  rfl

/-! ### The run with its account -/

def Outcome.taken : Outcome → List RawFd
  | .answered _ taken _ _ => taken
  | _ => []

def Outcome.closed : Outcome → List ClosedFd
  | .registered => []
  | .disconnected closed => closed
  | .answered _ _ closed _ => closed

/-- What `recvmsg` returned, what handlers took and what was closed, over the whole
run. -/
structure Flow where
  exchange : Exchange
  received : List RawFd
  consumed : List RawFd
  closed : List RawFd

def receivedIn (s : Exchange) : Turn → List RawFd
  | .io event => s.io.receivedBy event
  | _ => []

section
variable (H : Handlers) (s : Exchange)
include s

def outcome : Turn → Option Outcome
  | .take now => s.requests.head?.map fun msg => (s.authority.processRequest H now msg).2
  | _ => none

def consumedIn (turn : Turn) : List RawFd :=
  ((outcome H s turn).map Outcome.taken).getD []

def closedIn (turn : Turn) : List RawFd :=
  closedInFlight (((outcome H s turn).map Outcome.closed).getD [])

end

def Flow.new (lingerSecs : Nat) : Flow := ⟨.new lingerSecs, [], [], []⟩

def step (H : Handlers) (s : Flow) (turn : Turn) : Flow where
  exchange := s.exchange.step H turn
  received := s.received ++ receivedIn s.exchange turn
  consumed := s.consumed ++ consumedIn H s.exchange turn
  closed := s.closed ++ closedIn H s.exchange turn

/-- Every descriptor is as often in one of the places, consumed or closed as it was
received. -/
def Conserved (s : Flow) : Prop :=
  ∀ x, s.received.count x = held s.exchange x + s.consumed.count x + s.closed.count x

/-! ### What falls by the way -/

section
variable (s : IoThread)

def lastSharer (fd msgFd : RawFd) : Bool :=
  (s.msgFdClients.get? msgFd).any fun clients => (clients.filter (· ≠ fd)).isEmpty

def pendingOn (msgFd : RawFd) : List InflightFd := (s.pendingFds.get? msgFd).getD []

/-- The queue of a message socket that goes with its last client. -/
def abandoned (fd : RawFd) : List InflightFd :=
  match s.ioClients.get? fd with
  | none => []
  | some client => if lastSharer s fd client.msgFd then pendingOn s client.msgFd else []

def lostByIo : PollEvent → List InflightFd
  | .ready fd ⟨_, .closed⟩ => if s.msgFdClients.contains fd then [] else abandoned s fd
  | _ => []

end

def lostByAuthority (ev : EventLoop) (msg : RequestMsg) : List InflightFd :=
  if IsControl msg.header ∨ ev.clients.contains msg.clientFd = false then msg.inflightFds else []

def lost (s : Exchange) : Turn → List InflightFd
  | .io event => lostByIo s.io event
  | .take _ => (s.requests.head?.map (lostByAuthority s.authority)).getD []
  | .reply => []

/-! The I/O thread. -/

theorem copies_inflight (x : RawFd) (received : List Received) :
    copies x (received.flatMap inflight) = (received.flatMap fds).count x := by
  have fds : ∀ r : Received, r.inflight.map fd = r.fds := by
    intro r
    rw [inflight, map_map]
    refine map_id'' (fun fd => ?_) r.fds
    split <;> rfl
  rw [copies, map_flatMap]
  simp only [fds]

theorem copies_pendingOn (s : IoThread) (msgFd x : RawFd) :
    ((s.pendingFds.get? msgFd).map (copies x)).getD 0 = copies x (pendingOn s msgFd) := by
  unfold pendingOn
  cases s.pendingFds.get? msgFd <;> rfl

theorem inPending_pushPending (s : IoThread) (msgFd : RawFd) (y : InflightFd) (x : RawFd) :
    inPending (s.pushPending msgFd y) x = inPending s x + copies x [y] := by
  have sums := total_insert s.pendingFds (copies x) msgFd (pendingOn s msgFd ++ [y])
  rw [copies_append, copies_pendingOn] at sums
  simp only [inPending, pushPending]
  rw [pendingOn] at sums
  omega

theorem inPending_pushAll (queue : List InflightFd) (s : IoThread) (msgFd x : RawFd) :
    inPending (queue.foldl (fun s y => s.pushPending msgFd y) s) x = inPending s x + copies x queue := by
  induction queue generalizing s with
  | nil => rfl
  | cons y later ih =>
    rw [foldl_cons, ih, inPending_pushPending, copies_cons x y later, Nat.add_assoc]
    rfl

section
variable (s : IoThread)

theorem inPending_drainMsgFd (msgFd : RawFd) (received : List Received) (x : RawFd) :
    inPending (s.drainMsgFd msgFd received) x = inPending s x + (received.flatMap fds).count x := by
  rw [drainMsgFd, inPending_pushAll, copies_inflight]

theorem inPending_takePending (msgFd x : RawFd) :
    inPending (s.takePending msgFd).2 x + copies x (s.takePending msgFd).1 = inPending s x := by
  have sums := total_modify s.pendingFds (copies x) msgFd fun _ => []
  simp only [takePending, inPending]
  cases found : s.pendingFds.get? msgFd with
  | none => simpa [found] using sums
  | some => simpa [found] using sums

theorem inPending_forwardFrames (fd msgFd : RawFd) (frames : List (List UInt8))
    (drains : List (List Received)) (x : RawFd) :
    (drainedFds frames drains).count x + inPending s x =
      inPending (s.forwardFrames fd msgFd frames drains).1 x +
        inRequests (forwarded (s.forwardFrames fd msgFd frames drains).2) x := by
  induction frames generalizing s drains with
  | nil => simp [drainedFds, forwardFrames, inRequests, forwarded]
  | cons frame later ih =>
    have rest := ih (s.forwardFrame fd msgFd frame (drains.head?.getD [])).1 drains.tail
    have drained := inPending_drainMsgFd s msgFd (drains.head?.getD []) x
    have taken := inPending_takePending (s.drainMsgFd msgFd (drains.head?.getD [])) msgFd x
    simp only [drainedFds, forwardFrames, forwardFrame, count_append, inRequests, forwarded,
      filterMap_cons, flatMap_cons, copies_append] at rest drained taken ⊢
    omega

theorem inPending_releaseMsgFd (fd msgFd x : RawFd) :
    inPending s x = inPending (s.releaseMsgFd fd msgFd).1 x +
      copies x (if lastSharer s fd msgFd then pendingOn s msgFd else []) := by
  unfold releaseMsgFd lastSharer
  cases s.msgFdClients.get? msgFd with
  | none => rfl
  | some =>
    dsimp only [Option.any_some]
    split
    · have sums := total_erase s.pendingFds (copies x) msgFd
      rw [copies_pendingOn] at sums
      exact sums.symm
    · rfl

theorem inPending_disconnect (fd x : RawFd) :
    inPending s x = inPending (s.disconnectIoClient fd).1 x + copies x (abandoned s fd) := by
  unfold disconnectIoClient abandoned
  cases s.ioClients.get? fd with
  | none => rfl
  | some client =>
    exact inPending_releaseMsgFd { s with ioClients := s.ioClients.erase fd } fd client.msgFd x

theorem inPending_executeReply (msg : ReplyMsg) (x : RawFd) :
    inPending (s.executeReply msg).1 x = inPending s x := by
  unfold executeReply inPending
  cases msg.replyFd <;> simp only [executeEffects_pendingFds]

theorem io_balance (event : PollEvent) (x : RawFd) : (s.receivedBy event).count x + inPending s x =
      inPending (s.step event.toEvent).1 x + inRequests (forwarded (s.step event.toEvent).2) x +
        copies x (lostByIo s event) := by
  cases event with
  | accept outcome =>
    cases outcome <;> simp [receivedBy, IoThread.step, PollEvent.toEvent, handleAccept, lostByIo,
      inRequests, forwarded, registration, track, inPending]
  | ready fd input =>
    obtain ⟨received, read⟩ := input
    simp only [receivedBy, PollEvent.toEvent, IoThread.step]
    by_cases socket : s.msgFdClients.contains fd
    · simp only [socket, if_true, inPending_drainMsgFd]
      cases read <;> simp [lostByIo, socket, inRequests, forwarded, Nat.add_comm]
    · simp only [if_neg socket]
      cases found : s.ioClients.get? fd with
      | none => cases read <;> simp [Table.contains, found, lostByIo, abandoned, inRequests, forwarded]
      | some client =>
        simp only [Table.contains, found, Option.isSome_some, if_true]
        cases read with
        | closed =>
          have gone := inPending_disconnect s fd x
          have sent : forwarded (s.handleClientRead fd .closed).2 = [disconnection fd] := by
            rw [handleClientRead, TwoThreads.forwarded_append, TwoThreads.forwarded_disconnect]
            rfl
          rw [sent]
          simpa [handleClientRead, lostByIo, socket, inRequests, disconnection] using gone
        | bytes chunk drains =>
          rw [handleClientRead_bytes found]
          exact inPending_forwardFrames { s with ioClients := s.ioClients.insert fd { client with
            recvBuf := (requestFramer.frames (client.recvBuf ++ chunk.bytes)).2 } }
            fd client.msgFd (requestFramer.frames (client.recvBuf ++ chunk.bytes)).1 drains x

end

/-! The authority. -/

variable {fd : RawFd}

theorem known_of_inflight {ev : EventLoop} (some_ : ev.clientInflight fd ≠ []) :
    ev.clients.contains fd := by
  unfold clientInflight at some_
  cases found : ev.clients.get? fd with
  | none => simp [found] at some_
  | some => simp [Table.contains, found]

theorem inClients_setClientInflight {ev : EventLoop} (known : ev.clients.contains fd)
    (queue : List InflightFd) (x : RawFd) :
    inClients (ev.setClientInflight fd queue) x + copies x (ev.clientInflight fd) =
      inClients ev x + copies x queue := by
  have sums := total_modify ev.clients (fun c => copies x c.inflightFds) fd
    fun c => { c with inflightFds := queue }
  obtain ⟨c, found⟩ := (contains_iff _ _).mp known
  simpa [found, inClients, setClientInflight, clientInflight] using sums

theorem copies_takeNumber {n : Int} {queue rest : List InflightFd}
    (found : takeNumber n queue = some (fd, rest)) (x : RawFd) :
    copies x queue = copies x rest + [fd].count x := by
  induction queue generalizing rest with
  | nil => cases found
  | cons y later ih =>
    rw [takeNumber] at found
    split at found
    · obtain ⟨rfl, rfl⟩ := Prod.mk.inj (Option.some.inj found)
      rw [copies_cons, Nat.add_comm]
    · obtain ⟨⟨fd', rest'⟩, taken, same⟩ := Option.map_eq_some_iff.mp found
      obtain ⟨rfl, rfl⟩ := Prod.mk.inj same
      rw [copies_cons, copies_cons, ih taken, Nat.add_assoc]

section
variable (ev : EventLoop)

section
variable (fd : RawFd)

theorem takeInflightFd_balance (n : Int) (x : RawFd) : atAuthority ev x =
      atAuthority (ev.takeInflightFd fd n).2 x + (ev.takeInflightFd fd n).1.toList.count x := by
  unfold takeInflightFd
  split
  · next taken queue found =>
    have known : ev.clients.contains fd := by
      refine known_of_inflight fun nil => ?_
      rw [nil] at found
      cases found
    have sums := inClients_setClientInflight known queue x
    have one := copies_takeNumber found x
    simp only [atAuthority, toList_some, inPools, setClientInflight] at sums ⊢
    omega
  · dsimp only
    split
    · simp
    · split
      · next taken pool found =>
        obtain ⟨old, here, number⟩ := Option.bind_eq_some_iff.mp found
        have sums := total_insert ev.processInflightFds (copies x) (ev.clientPid fd) pool
        have one := copies_takeNumber number x
        rw [here, map_some, getD_some] at sums
        simp only [atAuthority, inPools, inClients, toList_some]
        omega
      · simp

theorem takeFirstInflightFd_balance (fd x : RawFd) :
    atAuthority ev x = atAuthority (ev.takeFirstInflightFd fd).2 x +
      (ev.takeFirstInflightFd fd).1.toList.count x := by
  unfold takeFirstInflightFd
  split
  · simp
  · next y rest queue =>
    have known : ev.clients.contains fd := known_of_inflight (by simp [queue])
    have sums := inClients_setClientInflight known rest x
    rw [queue, copies_cons] at sums
    simp only [atAuthority, inPools, setClientInflight, toList_some] at sums ⊢
    omega

theorem insertClient_balance (fd x : RawFd) {c : Client} (none_ : c.inflightFds = []) :
    inClients ev x = inClients { ev with clients := ev.clients.insert fd c } x +
      (closedInFlight (((ev.clients.get? fd).map Client.dropped).getD [])).count x := by
  have sums := total_insert ev.clients (fun c => copies x c.inflightFds) fd c
  cases found : ev.clients.get? fd with
  | none => simpa [found, none_, inClients, closedInFlight] using sums.symm
  | some => simpa [found, none_, inClients, count_dropped] using sums.symm

theorem applyEdit_balance (edit : HandlerEdit) (x : RawFd) :
    atAuthority ev x = atAuthority (ev.applyEdit fd edit).ev x +
      (ev.applyEdit fd edit).taken.toList.count x +
      (closedInFlight (ev.applyEdit fd edit).closed).count x := by
  cases edit with
  | takeInflight n => simpa [applyEdit, closedInFlight] using takeInflightFd_balance ev fd n x
  | takeFirstInflight => simpa [applyEdit, closedInFlight] using takeFirstInflightFd_balance ev fd x
  | insertClient g msgFd pid tid isMsgPrimary =>
    have sums := insertClient_balance ev g x
      (c := { msgFd, processId := pid, threadId := tid, isMsgPrimary }) rfl
    simp only [applyEdit, atAuthority, inPools, Option.toList_none, count_nil] at sums ⊢
    omega
  | _ => simp [applyEdit, atAuthority, inPools, inClients, total_modify_eq, Function.comp_def, closedInFlight]

theorem applyEdits_balance (edits : List HandlerEdit) (x : RawFd) :
    atAuthority ev x = atAuthority (ev.applyEdits fd edits).ev x +
      (ev.applyEdits fd edits).taken.count x +
      (closedInFlight (ev.applyEdits fd edits).closed).count x := by
  induction edits generalizing ev with
  | nil => simp [applyEdits, closedInFlight]
  | cons edit later ih =>
    have first := applyEdit_balance ev fd edit x
    have rest := ih (ev.applyEdit fd edit).ev
    simp only [applyEdits, count_append, closedInFlight_append]
    omega

theorem deposit_balance (inflight : List InflightFd) (x : RawFd) :
    atAuthority ev x + copies x inflight = atAuthority (ev.deposit fd inflight).1 x +
      if ev.clients.contains fd = false then copies x inflight else 0 := by
  by_cases nil : inflight.isEmpty
  · simp [deposit, isEmpty_iff.mp nil]
  rw [deposit, if_neg nil]
  by_cases pid : ev.clientPid fd ≠ 0
  · have known : ev.clients.contains fd := by
      cases found : ev.clients.get? fd with
      | none => simp [clientPid, found] at pid
      | some => simp [Table.contains, found]
    have sums := total_insert ev.processInflightFds (copies x) (ev.clientPid fd)
      ((ev.processInflightFds.get? (ev.clientPid fd)).getD [] ++ inflight)
    have old : ((ev.processInflightFds.get? (ev.clientPid fd)).map (copies x)).getD 0 =
        copies x ((ev.processInflightFds.get? (ev.clientPid fd)).getD []) := by
      cases ev.processInflightFds.get? (ev.clientPid fd) <;> rfl
    rw [copies_append] at sums
    rw [if_pos pid, if_neg (by simp [known])]
    simp only [atAuthority, inPools, inClients]
    omega
  rw [if_neg pid]
  by_cases known : ev.clients.contains fd
  · have sums := inClients_setClientInflight known (ev.clientInflight fd ++ inflight) x
    rw [copies_append] at sums
    rw [if_pos known, if_neg (by simp [known])]
    simp only [atAuthority, inPools, setClientInflight] at sums ⊢
    omega
  · rw [if_neg known, if_pos (by simpa using known)]

end

@[simp] theorem atAuthority_announce (n : Nat) (x : RawFd) :
    atAuthority (ev.announce n).1 x = atAuthority ev x := by
  unfold announce
  split <;> rfl

@[simp] theorem atAuthority_sendPending (x : RawFd) :
    atAuthority (ev.sendPending fd).1 x = atAuthority ev x := by
  unfold sendPending
  split
  · rfl
  · split <;> simp [atAuthority, inPools, inClients, total_modify_eq, Function.comp_def]

@[simp] theorem closedInFlight_sendPending : closedInFlight (ev.sendPending fd).2.2 = [] := by
  unfold sendPending
  split
  · rfl
  · split <;> rfl

end

theorem answer_balance (H : Handlers) (ev : EventLoop) (msg : RequestMsg) (x : RawFd) :
    atAuthority ev x + copies x msg.inflightFds = atAuthority (ev.answer H msg).1 x +
      (Outcome.taken (ev.answer H msg).2).count x +
      (closedInFlight (Outcome.closed (ev.answer H msg).2)).count x +
      if ev.clients.contains msg.clientFd = false then copies x msg.inflightFds else 0 := by
  have placed := deposit_balance ev msg.clientFd msg.inflightFds x
  have handled := applyEdits_balance (ev.deposit msg.clientFd msg.inflightFds).1 msg.clientFd
    (H (ev.deposit msg.clientFd msg.inflightFds).1 msg.clientFd msg.header msg.buf).1 x
  have drained : ∀ e : EventLoop, atAuthority e.drainWatches.1 x = atAuthority e x := fun _ => rfl
  simp only [answer, drained, Outcome.taken, Outcome.closed, atAuthority_sendPending,
    atAuthority_announce, closedInFlight_append, closedInFlight_sendPending, append_nil]
  omega

section
variable (ev : EventLoop)

theorem atAuthority_register (msgFd x : RawFd) :
    atAuthority (ev.register fd msgFd) x = atAuthority ev x := by
  unfold register
  split
  · rfl
  · next absent =>
    have sums := insertClient_balance ev fd x (c := { msgFd }) rfl
    have none_ : ev.clients.get? fd = none := by simpa [Table.contains] using absent
    simp only [none_, map_none, getD_none] at sums
    simpa [atAuthority, inPools, inClients, closedInFlight] using sums.symm

theorem removeClient_balance (fd x : RawFd) :
    atAuthority ev x = atAuthority (ev.removeClient fd).1 x +
      (closedInFlight (ev.removeClient fd).2).count x := by
  have sums := total_erase ev.clients (fun c => copies x c.inflightFds) fd
  simp only [removeClient, atAuthority, inPools, inClients]
  cases found : ev.clients.get? fd with
  | none =>
    simp only [found, map_none, getD_none, closedInFlight, filter_nil,
      map_nil, count_nil] at sums ⊢
    omega
  | some =>
    simp only [found, map_some, getD_some, count_dropped] at sums ⊢
    omega

theorem endProcess_balance (now : Nat) (pid : UInt32) (x : RawFd) :
    atAuthority ev x = atAuthority (ev.endProcess now pid).1 x +
      (closedInFlight (ev.endProcess now pid).2).count x := by
  have sums := total_erase ev.processInflightFds (copies x) pid
  simp only [endProcess, atAuthority, inPools, inClients, closedInFlight_close]
  cases found : ev.processInflightFds.get? pid with
  | none =>
    simp only [found, map_none, getD_none, map_nil, count_nil] at sums ⊢
    omega
  | some =>
    simp only [found, map_some, getD_some, copies] at sums ⊢
    omega

theorem disconnectClient_balance (now : Nat) (fd x : RawFd) :
    atAuthority ev x = atAuthority (ev.disconnectClient now fd).1 x +
      (closedInFlight (ev.disconnectClient now fd).2).count x := by
  have removed := removeClient_balance ev fd x
  unfold disconnectClient
  dsimp only
  split
  · have ended := endProcess_balance (ev.removeClient fd).1 now (ev.clientPid fd) x
    simp only [closedInFlight_append, count_append]
    omega
  · exact removed

theorem finish_balance (now : Nat) (fd x : RawFd) :
    atAuthority ev x = atAuthority (ev.finish now fd).1 x +
      (closedInFlight (ev.finish now fd).2).count x := by
  have gone := disconnectClient_balance ev now fd x
  unfold finish
  dsimp only
  split
  · split <;> exact gone
  · exact gone

end

theorem authority_balance (H : Handlers) (ev : EventLoop) (now : Nat) (msg : RequestMsg)
    (x : RawFd) :
    atAuthority ev x + copies x msg.inflightFds = atAuthority (ev.processRequest H now msg).1 x +
      (Outcome.taken (ev.processRequest H now msg).2).count x +
      (closedInFlight (Outcome.closed (ev.processRequest H now msg).2)).count x +
      copies x (lostByAuthority ev msg) := by
  unfold processRequest lostByAuthority IsControl
  by_cases one : msg.header.req = -1
  · simp [one, atAuthority_register, Outcome.taken, Outcome.closed, closedInFlight]
  by_cases two : msg.header.req = -2
  · have gone := finish_balance ev now msg.clientFd x
    simp only [two, or_true, true_or, if_true, Outcome.taken, Outcome.closed]
    rw [if_neg (by decide)]
    simp only [count_nil]
    omega
  · have answered := answer_balance H ev msg x
    split at answered <;> simp_all

/-! ### Runs -/

theorem balance (H : Handlers) (s : Exchange) (turn : Turn) (x : RawFd) :
    (receivedIn s turn).count x + held s x = held (s.step H turn) x +
      (consumedIn H s turn).count x + (closedIn H s turn).count x + copies x (lost s turn) := by
  cases turn with
  | io event =>
    have sums := io_balance s.io event x
    simp only [receivedIn, held, Exchange.step, consumedIn, closedIn, outcome, lost, inRequests,
      flatMap_append, copies_append] at sums ⊢
    simp only [map_none, getD_none, closedInFlight, filter_nil, map_nil, count_nil]
    omega
  | take now =>
    simp only [receivedIn, held, Exchange.step, consumedIn, closedIn, outcome, lost]
    cases queued : s.requests with
    | nil => simp [closedInFlight, queued]
    | cons msg later =>
      have sums := authority_balance H s.authority now msg x
      simp only [inRequests, flatMap_cons, copies_append, head?_cons, map_some,
        getD_some, count_nil]
      omega
  | reply =>
    simp only [receivedIn, held, Exchange.step, consumedIn, closedIn, outcome, lost]
    cases s.replies with
    | nil => simp [closedInFlight]
    | cons msg later => simp [closedInFlight, inPending_executeReply]

theorem conserved_step {H : Handlers} {s : Flow} (conserved : Conserved s) (turn : Turn) :
    Conserved (step H s turn) ↔ lost s.exchange turn = [] := by
  have sums := balance H s.exchange turn
  constructor
  · intro after
    have none_ : ∀ x, copies x (lost s.exchange turn) = 0 := by
      intro x
      have here := conserved x
      have there := after x
      have both := sums x
      simp only [step, count_append] at there
      omega
    refine eq_nil_iff_forall_not_mem.mpr fun y mem => ?_
    exact count_eq_zero.mp (none_ y.fd) (mem_map.mpr ⟨y, mem, rfl⟩)
  · intro nil x
    have here := conserved x
    have both := sums x
    rw [nil, copies_nil] at both
    simp only [step, count_append]
    omega

/-- No message socket goes while descriptors are queued on it, and descriptors only
come with requests of clients that the authority knows; a request whose code is taken
for a registration or an end of stream brings none. -/
def Careful (s : Flow) : Turn → Prop
  | .io (.ready fd ⟨_, .closed⟩) =>
    s.exchange.io.msgFdClients.contains fd = false →
      ∀ client, s.exchange.io.ioClients.get? fd = some client →
        lastSharer s.exchange.io fd client.msgFd → pendingOn s.exchange.io client.msgFd = []
  | .take _ => ∀ msg ∈ s.exchange.requests.head?, msg.inflightFds ≠ [] →
      ¬ IsControl msg.header ∧ s.exchange.authority.clients.contains msg.clientFd
  | _ => True

theorem careful_iff (s : Flow) (turn : Turn) : Careful s turn ↔ lost s.exchange turn = [] := by
  cases turn with
  | reply => simp [Careful, lost]
  | take =>
    simp only [Careful, lost]
    cases s.exchange.requests with
    | nil => simp
    | cons msg later =>
      simp only [head?_cons, Option.mem_some_iff, forall_eq', map_some, getD_some,
        lostByAuthority]
      by_cases nil : msg.inflightFds = []
      · simp [nil]
      · by_cases control : IsControl msg.header <;> simp [nil, control]
  | io event =>
    cases event with
    | accept => simp [Careful, lost, lostByIo]
    | ready fd input =>
      obtain ⟨received, read⟩ := input
      cases read with
      | bytes => simp [Careful, lost, lostByIo]
      | closed =>
        simp only [Careful, lost, lostByIo, abandoned]
        cases s.exchange.io.msgFdClients.contains fd <;>
          cases s.exchange.io.ioClients.get? fd <;> simp

/-- In any exchange of the two threads, with any handlers. -/
theorem conserved_iff_careful (H : Handlers) (lingerSecs : Nat) (turns : List Turn) :
    (∀ s ∈ states (step H) (.new lingerSecs) turns, Conserved s) ↔
      AllSteps (step H) Careful (.new lingerSecs) turns := by
  refine observed_iff_allSteps Conserved (fun _ _ => True) (fun _ conserved => conserved) ?_ ?_
    (fun _ => rfl) (allSteps_of_forall (fun _ _ => trivial) _ _)
  · intro s turn conserved _ careful
    exact (conserved_step conserved turn).mpr ((careful_iff s turn).mp careful)
  · intro s turn conserved _ careless after
    exact careless ((careful_iff s turn).mpr ((conserved_step conserved turn).mp after))

/-- A client sends descriptor 30 over its message socket and closes its request pipe
before it makes a request. -/
theorem unclaimed_descriptor_leaks : ¬ ∀ s ∈ states (step TwoThreads.silent) (.new 5)
      [.io (.accept (.accepted 6 8 9 7)), .io (.ready 6 ⟨[⟨[0], [30], by decide⟩], .closed⟩),
        .io (.ready 7 ⟨[], .closed⟩)], Conserved s := by
  intro conserved
  have last := conserved _ (run_mem_states _ _) 30
  revert last
  decide +kernel

end Triskelion.InflightFds
