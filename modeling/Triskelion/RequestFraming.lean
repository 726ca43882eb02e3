import Triskelion.IoThread

/-! What the I/O thread forwards for a connection, whatever else it does in between:
the requests of the stream the client wrote, however the kernel cut it into reads. -/

namespace Triskelion.RequestFraming

open IoThread List Table RequestMsg

section
variable (fd : RawFd)

def requestsFor (actions : List IoAction) : List RequestMsg :=
  actions.filterMap fun
    | .forward msg => if msg.clientFd = fd then some msg else none
    | _ => none

def bytesOf : Event → List UInt8
  | .ready g ⟨_, .bytes chunk _⟩ => if g = fd then chunk.bytes else []
  | _ => []

def streamOf (events : List Event) : List UInt8 := events.flatMap (bytesOf fd)

/-- The connection under a number lasts through an event: its pipe is not at its end,
and the kernel, which has the number in use, gives it to nothing else. -/
def Keeps : Event → Prop
  | .accept (.accepted msgFd _ _ requestFd) => requestFd ≠ fd ∧ msgFd ≠ fd
  | .accept _ => True
  | .ready g input => g = fd → input.read ≠ .closed
  | .reply msg => ∀ requestFd msgFd primary,
      Effect.registerClient requestFd msgFd primary ∈ msg.effects → msgFd ≠ fd

end

structure Joined (s : IoThread) (fd : RawFd) (client : IoClient) : Prop where
  here : s.ioClients.get? fd = some client
  own : s.msgFdClients.get? fd = none

theorem requestsFor_append (fd : RawFd) (first second : List IoAction) :
    requestsFor fd (first ++ second) = requestsFor fd first ++ requestsFor fd second :=
  filterMap_append

/-! ### Forwarding -/

section
variable (s : IoThread) (msgFd : RawFd) (received : List Received)

theorem drainMsgFd_eq : s.drainMsgFd msgFd received =
      { s with pendingFds := (s.drainMsgFd msgFd received).pendingFds } := by
  rw [drainMsgFd]
  induction received.flatMap Received.inflight generalizing s with
  | nil => rfl
  | cons x rest ih => exact ih (s.pushPending msgFd x)

@[simp] theorem drainMsgFd_ioClients : (s.drainMsgFd msgFd received).ioClients = s.ioClients := by
  rw [drainMsgFd_eq]

@[simp] theorem drainMsgFd_msgFdClients :
    (s.drainMsgFd msgFd received).msgFdClients = s.msgFdClients := by
  rw [drainMsgFd_eq]

@[simp] theorem drainMsgFd_clientReplyFds :
    (s.drainMsgFd msgFd received).clientReplyFds = s.clientReplyFds := by
  rw [drainMsgFd_eq]

end

section
variable (s : IoThread) (fd msgFd : RawFd) (frames : List (List UInt8))
  (drains : List (List Received))

theorem forwardFrames_tables : (s.forwardFrames fd msgFd frames drains).1.ioClients = s.ioClients ∧
      (s.forwardFrames fd msgFd frames drains).1.msgFdClients = s.msgFdClients := by
  induction frames generalizing s drains with
  | nil => exact ⟨rfl, rfl⟩
  | cons frame later ih =>
    obtain ⟨clients, sockets⟩ :=
      ih (s.forwardFrame fd msgFd frame (drains.head?.getD [])).1 drains.tail
    refine ⟨clients.trans ?_, sockets.trans ?_⟩
    · exact drainMsgFd_ioClients s msgFd _
    · exact drainMsgFd_msgFdClients s msgFd _

theorem requestsFor_forwardFrames : (requestsFor fd (s.forwardFrames fd msgFd frames drains).2).map
      (fun msg => (msg.header, msg.buf)) = frames.map fun frame => (readHeader frame, frame) := by
  induction frames generalizing s drains with
  | nil => rfl
  | cons frame later ih =>
    have rest := ih (s.forwardFrame fd msgFd frame (drains.head?.getD [])).1 drains.tail
    rw [map_cons, ← rest]
    simp [forwardFrames, requestsFor, forwardFrame]

end

variable {fd : RawFd} {client : IoClient} {s : IoThread}

variable {g : RawFd}

theorem requestsFor_other (other : g ≠ fd) (s : IoThread) (msgFd : RawFd)
    (frames : List (List UInt8)) (drains : List (List Received)) :
    requestsFor fd (s.forwardFrames g msgFd frames drains).2 = [] := by
  induction frames generalizing s drains with
  | nil => rfl
  | cons frame later ih =>
    have rest := ih (s.forwardFrame g msgFd frame (drains.head?.getD [])).1 drains.tail
    simpa [forwardFrames, requestsFor, forwardFrame, other] using rest

/-! ### Events that leave the connection alone -/

theorem joined_track {requestFd msgFd : RawFd} (joined : Joined s fd client)
    (request : requestFd ≠ fd) (socket : msgFd ≠ fd) :
    Joined (s.track requestFd msgFd) fd client where
  here := by rw [track, get?_insert, if_neg request.symm, joined.here]
  own := by rw [track, get?_insert, if_neg socket.symm, joined.own]

theorem joined_releaseMsgFd (msgFd : RawFd) (joined : Joined s fd client) :
    Joined (s.releaseMsgFd g msgFd).1 fd client ∧ requestsFor fd (s.releaseMsgFd g msgFd).2 = [] := by
  rw [releaseMsgFd]
  cases shared : s.msgFdClients.get? msgFd with
  | none => exact ⟨joined, rfl⟩
  | some =>
    have socket : fd ≠ msgFd := by
      rintro rfl
      rw [joined.own] at shared
      cases shared
    dsimp only
    split
    · refine ⟨⟨joined.here, ?_⟩, rfl⟩
      rw [get?_erase, if_neg socket, joined.own]
    · refine ⟨⟨joined.here, ?_⟩, rfl⟩
      rw [get?_insert, if_neg socket, joined.own]

section
variable (joined : Joined s fd client)
include joined

theorem joined_disconnect (other : g ≠ fd) : Joined (s.disconnectIoClient g).1 fd client ∧
      requestsFor fd (s.disconnectIoClient g).2 = [] := by
  rw [disconnectIoClient]
  cases found : s.ioClients.get? g with
  | none => exact ⟨⟨joined.here, joined.own⟩, rfl⟩
  | some gone =>
    have kept : Joined { s with ioClients := s.ioClients.erase g } fd client :=
      ⟨by rw [get?_erase, if_neg other.symm, joined.here], joined.own⟩
    obtain ⟨after, quiet⟩ := joined_releaseMsgFd gone.msgFd kept
    refine ⟨⟨after.here, after.own⟩, ?_⟩
    rw [requestsFor_append, quiet]
    rfl

theorem joined_effects {effects : List Effect} (keeps : ∀ requestFd msgFd primary,
      Effect.registerClient requestFd msgFd primary ∈ effects → msgFd ≠ fd) :
    Joined (s.executeEffects effects).1 fd client ∧
      requestsFor fd (s.executeEffects effects).2 = [] := by
  induction effects generalizing s with
  | nil => exact ⟨joined, rfl⟩
  | cons effect later ih =>
    have first : Joined (s.executeEffect effect).1 fd client ∧
        requestsFor fd (s.executeEffect effect).2 = [] := by
      cases effect with
      | registerClient =>
        rw [executeEffect]
        split
        · exact ⟨joined, rfl⟩
        · next new =>
          refine ⟨joined_track joined ?_ (keeps _ _ _ mem_cons_self), rfl⟩
          rintro rfl
          exact new (by rw [Table.contains, joined.here]; rfl)
      | sendFd | rearmQueueFd => exact ⟨joined, rfl⟩
      | watchPipeFd =>
        refine ⟨⟨joined.here, joined.own⟩, ?_⟩
        rw [executeEffect]
        split
        · split <;> rfl
        · rfl
      | watchQueueFd =>
        rw [executeEffect]
        split
        · exact ⟨joined, rfl⟩
        · exact ⟨⟨joined.here, joined.own⟩, rfl⟩
    obtain ⟨after, quiet⟩ := ih first.1 fun r m p mem => keeps r m p (mem_cons_of_mem _ mem)
    refine ⟨after, ?_⟩
    rw [executeEffects, requestsFor_append, first.2, quiet]
    rfl

theorem joined_reply {msg : ReplyMsg} (keeps : Keeps fd (.reply msg)) :
    Joined (s.executeReply msg).1 fd client ∧ requestsFor fd (s.executeReply msg).2 = [] := by
  obtain ⟨after, quiet⟩ := joined_effects joined keeps
  rw [executeReply]
  refine ⟨?_, ?_⟩
  · cases msg.replyFd with
    | none => exact after
    | some => exact ⟨after.here, after.own⟩
  · rw [requestsFor_append, quiet]
    split <;> rfl

end

/-! ### Reads -/

def Advances (s : IoThread) (fd : RawFd) (client : IoClient) (event : Event) : Prop :=
  ∃ cut rest, requestFramer.Parses (client.recvBuf ++ bytesOf fd event) cut rest ∧
    Joined (s.step event).1 fd ⟨client.msgFd, rest⟩ ∧
    (requestsFor fd (s.step event).2).map (fun msg => (msg.header, msg.buf)) =
      cut.map fun frame => (readHeader frame, frame)

theorem advances_idle {event : Event} (unfinished : requestFramer.Partial client.recvBuf)
    (silent : bytesOf fd event = [])
    (stays : Joined (s.step event).1 fd client ∧ requestsFor fd (s.step event).2 = []) :
    Advances s fd client event := by
  refine ⟨[], client.recvBuf, ⟨?_, ?_, unfinished⟩, stays.1, ?_⟩
  · rw [silent, append_nil]
    rfl
  · intro frame mem
    cases mem
  · rw [stays.2]
    rfl

section
variable (joined : Joined s fd client)
include joined

theorem step_ready (input : FdInput) :
    s.step (.ready fd input) = s.handleClientRead fd input.read := by
  have socket : s.msgFdClients.contains fd = false := by rw [Table.contains, joined.own]; rfl
  have pipe : s.ioClients.contains fd := by rw [Table.contains, joined.here]; rfl
  rw [step, socket, pipe]
  rfl

theorem joined_ready_other (other : g ≠ fd) (input : FdInput) :
    Joined (s.step (.ready g input)).1 fd client ∧
      requestsFor fd (s.step (.ready g input)).2 = [] := by
  rw [step]
  split
  · exact ⟨⟨by simpa using joined.here, by simpa using joined.own⟩, rfl⟩
  · split
    · obtain ⟨received, read⟩ := input
      cases read with
      | closed =>
        obtain ⟨after, quiet⟩ := joined_disconnect joined other
        refine ⟨after, ?_⟩
        rw [handleClientRead, requestsFor_append, quiet]
        simp [requestsFor, disconnection, other]
      | bytes chunk drains =>
        cases found : s.ioClients.get? g with
        | none =>
          rw [handleClientRead, found]
          exact ⟨joined, rfl⟩
        | some busy =>
          rw [handleClientRead_bytes found]
          obtain ⟨clients, sockets⟩ := forwardFrames_tables
            { s with ioClients := s.ioClients.insert g { busy with
              recvBuf := (requestFramer.frames (busy.recvBuf ++ chunk.bytes)).2 } }
            g busy.msgFd (requestFramer.frames (busy.recvBuf ++ chunk.bytes)).1 drains
          refine ⟨⟨?_, ?_⟩, requestsFor_other other _ _ _ _⟩
          · rw [clients, get?_insert, if_neg other.symm, joined.here]
          · rw [sockets, joined.own]
    · exact ⟨joined, rfl⟩

theorem step_advances
    (unfinished : requestFramer.Partial client.recvBuf) (event : Event) (keeps : Keeps fd event) :
    Advances s fd client event := by
  cases event with
  | accept outcome =>
    refine advances_idle unfinished rfl ?_
    cases outcome with
    | accepted =>
      refine ⟨joined_track joined keeps.1 keeps.2, ?_⟩
      simp [step, handleAccept, requestsFor, registration, keeps.1]
    | refused | noPipe | noHandshake | noDup => exact ⟨joined, rfl⟩
  | reply => exact advances_idle unfinished rfl (joined_reply joined keeps)
  | ready g input =>
    by_cases other : g = fd
    · subst other
      obtain ⟨received, read⟩ := input
      cases read with
      | closed => exact absurd rfl (keeps rfl)
      | bytes chunk drains =>
        rw [Advances, step_ready joined, bytesOf, if_pos rfl, handleClientRead_bytes joined.here]
        refine ⟨_, _, Framer.frames_parses _, ?_, requestsFor_forwardFrames _ _ _ _ _⟩
        obtain ⟨clients, sockets⟩ := forwardFrames_tables
          { s with ioClients := s.ioClients.insert g { client with
            recvBuf := (requestFramer.frames (client.recvBuf ++ chunk.bytes)).2 } }
          g client.msgFd (requestFramer.frames (client.recvBuf ++ chunk.bytes)).1 drains
        refine ⟨?_, ?_⟩
        · rw [clients, get?_insert, if_pos rfl]
        · rw [sockets, joined.own]
    · refine advances_idle unfinished ?_ (joined_ready_other joined other input)
      obtain ⟨received, read⟩ := input
      cases read with
      | closed => rfl
      | bytes => exact if_neg other

end

/-! ### Runs -/

/-- The part of the stream that has been read is the requests forwarded so far and
the buffer; a read adds to both sides alike. -/
theorem run_parses (events : List Event) (joined : Joined s fd client)
    (unfinished : requestFramer.Partial client.recvBuf) (keeps : ∀ event ∈ events, Keeps fd event) :
    ∃ cut rest, requestFramer.Parses (client.recvBuf ++ streamOf fd events) cut rest ∧
      Joined (s.run events).1 fd ⟨client.msgFd, rest⟩ ∧
      (requestsFor fd (s.run events).2).map (fun msg => (msg.header, msg.buf)) =
        cut.map fun frame => (readHeader frame, frame) := by
  induction events generalizing s client with
  | nil =>
    refine ⟨[], client.recvBuf, ⟨?_, ?_, unfinished⟩, joined, rfl⟩
    · rw [streamOf, flatMap_nil, append_nil]
      rfl
    · intro frame mem
      cases mem
  | cons event later ih =>
    obtain ⟨cut, rest, parsed, after, sent⟩ :=
      step_advances joined unfinished event (keeps event mem_cons_self)
    obtain ⟨cut', rest', parsed', final, sent'⟩ := ih after parsed.unfinished
      fun e mem => keeps e (mem_cons_of_mem _ mem)
    refine ⟨cut ++ cut', rest', ?_, final, ?_⟩
    · rw [streamOf, flatMap_cons, ← append_assoc]
      exact parsed.append parsed'
    · rw [run, requestsFor_append, map_append, sent, sent', map_append]

theorem partial_nil : requestFramer.Partial [] :=
  Framer.partial_of_takeFrame rfl

/-- From a connection whose buffer is empty, and whatever the thread does for other
clients meanwhile: the requests forwarded for it, each with its header, are the frames
of all that was read, cut at once, and the beginning of one more frame stays in the
buffer. -/
theorem requests_are_frames {s : IoThread} {fd msgFd : RawFd} (joined : Joined s fd ⟨msgFd, []⟩)
    (events : List Event) (keeps : ∀ event ∈ events, Keeps fd event) :
    ∃ rest, Joined (s.run events).1 fd ⟨msgFd, rest⟩ ∧ requestFramer.frames (streamOf fd events) =
        ((requestsFor fd (s.run events).2).map buf, rest) ∧
      requestFramer.Parses (streamOf fd events)
        ((requestsFor fd (s.run events).2).map buf) rest ∧
      ∀ msg ∈ requestsFor fd (s.run events).2,
        msg.header = readHeader msg.buf ∧ msg.buf.length = 64 + msg.header.requestSize.toNat := by
  obtain ⟨cut, rest, parsed, final, sent⟩ := run_parses events joined partial_nil keeps
  have bufs : (requestsFor fd (s.run events).2).map buf = cut := by
    have second := congrArg (List.map Prod.snd) sent
    simpa [Function.comp_def] using second
  rw [bufs]
  refine ⟨rest, final, Framer.frames_of_parses parsed, parsed, fun msg mem => ?_⟩
  have here : (msg.header, msg.buf) ∈ cut.map fun frame => (readHeader frame, frame) := by
    rw [← sent]
    exact mem_map.mpr ⟨msg, mem, rfl⟩
  obtain ⟨frame, found, same⟩ := mem_map.mp here
  obtain ⟨header, rfl⟩ := Prod.mk.inj same
  obtain ⟨-, length⟩ := frameSize_some (parsed.whole msg.buf found)
  exact ⟨header.symm, by rw [← header]; exact length⟩

def twoReads : List Event :=
  [.ready 7 ⟨[], .bytes ⟨List.replicate 40 0, by decide, by decide⟩ []⟩,
    .ready 7 ⟨[], .bytes ⟨List.replicate 40 0, by decide, by decide⟩ []⟩]

theorem requests_are_frames_two_reads :
    ∃ rest, Joined ((new.track 7 6).run twoReads).1 7 ⟨6, rest⟩ ∧
      requestFramer.frames (streamOf 7 twoReads) =
        ((requestsFor 7 ((new.track 7 6).run twoReads).2).map buf, rest) ∧
      requestFramer.Parses (streamOf 7 twoReads)
        ((requestsFor 7 ((new.track 7 6).run twoReads).2).map buf) rest ∧
      ∀ msg ∈ requestsFor 7 ((new.track 7 6).run twoReads).2,
        msg.header = readHeader msg.buf ∧ msg.buf.length = 64 + msg.header.requestSize.toNat := by
  refine requests_are_frames ⟨rfl, rfl⟩ twoReads fun event mem => ?_
  rcases mem_cons.mp mem with rfl | mem
  · exact fun _ closed => by cases closed
  · cases mem_singleton.mp mem
    exact fun _ closed => by cases closed

end Triskelion.RequestFraming
