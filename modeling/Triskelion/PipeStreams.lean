import Triskelion.PipeWrites
import Mathlib.Tactic.SplitIfs

/-! The bytes of a pipe as streams: whatever the handlers do, what arrived at a socket
is what was received from it and what is left in its buffer, in that order. -/

namespace Triskelion.PipeIo
open Sockets Option List

/-! ### Wait handles -/

theorem getPipeWaitHandle_eq (s : State) (pid handle : UInt32) (made : Bool) :
    ∃ processes nextObjectId ioWaitHandles events, (getPipeWaitHandle s pid handle made).2 =
      { s with processes, nextObjectId, ioWaitHandles, events } := by
  unfold getPipeWaitHandle
  split
  · exact ⟨_, _, _, _, rfl⟩
  · split
    · exact ⟨_, _, _, _, rfl⟩
    · dsimp only
      split
      · exact ⟨_, _, _, _, rfl⟩
      · split <;> exact ⟨_, _, _, _, rfl⟩

theorem completeIo_eq (s : State) (entry : HandleEntry) (pid handle : UInt32) (made : Bool) :
    ∃ processes nextObjectId ioWaitHandles events,
      (if DescriptorTables.isPipe entry then completeIo s pid handle made else (0, s)).2 =
        { s with processes, nextObjectId, ioWaitHandles, events } := by
  obtain ⟨p, n, i, ev, waited⟩ := getPipeWaitHandle_eq s pid handle made
  split
  · simp only [completeIo, waited]
    split
    · exact ⟨p, n, i, _, rfl⟩
    · exact ⟨p, n, i, ev, rfl⟩
  · exact ⟨_, _, _, _, rfl⟩

/-! ### What a write does -/

variable {req : WriteRequest} {done : WriteReply × State × List Note}

/-- A write that returns did nothing, or failed before the first byte, or brought all of
its data to the other end. -/
theorem handleWrite_cases {rule : SendRule} {fuel : Nat} {s : State} {made : Bool}
    (returned : handleWrite rule fuel s req made = some done) :
    done.2 = (s, []) ∨ done.2 = (s, [.sent none []]) ∨
      ∃ fd entry p peer, entryFd s (clientPid s req.clientFd) req.handle = some (fd, entry) ∧
        s.sockets.target fd = some (p, peer) ∧ ∃ processes nextObjectId ioWaitHandles events,
          let after := { s with
            sockets := s.sockets.deliver p req.data
            processes, nextObjectId, ioWaitHandles, events }
          let passed :=
            if DescriptorTables.isStream entry then checkPendingPipeReads after else (after, [])
          done.2 = (passed.1, .sent (some p) req.data :: passed.2) := by
  unfold handleWrite at returned
  cases found : entryFd s (clientPid s req.clientFd) req.handle with
  | none =>
    simp only [found, some.injEq] at returned
    exact .inl (returned ▸ rfl)
  | some at_ =>
    obtain ⟨fd, entry⟩ := at_
    by_cases empty : req.data = []
    · simp only [found, empty, if_true, some.injEq] at returned
      exact .inl (returned ▸ rfl)
    · simp only [found, empty, if_false] at returned
      cases target : s.sockets.target fd with
      | none =>
        have no_room : s.sockets.room fd = none := by rw [room, target, map_none]
        cases fuel with
        | zero =>
          obtain ⟨b, rest, data⟩ := exists_cons_of_ne_nil empty
          simp [data, writeLoop] at returned
        | succ fuel =>
          simp only [writeLoop_failed no_room empty, target, some.injEq] at returned
          exact .inr (.inl (returned ▸ rfl))
      | some at_ =>
        obtain ⟨p, peer⟩ := at_
        rcases writeLoop_delivers target empty fuel 0 with spins | all
        · obtain ⟨k, still⟩ : ∃ k, writeLoop rule fd fuel s.sockets req.data 0 = (.spinning, k) :=
            ⟨_, Prod.ext spins rfl⟩
          simp [still] at returned
        · have some_bytes := length_pos_of_ne_nil empty
          obtain ⟨t, n, i, ev, waited⟩ := completeIo_eq
            { s with sockets := s.sockets.deliver p req.data } entry (clientPid s req.clientFd)
            req.handle made
          simp only [all, target, map_some, Nat.zero_add, take_length, some_bytes,
            true_and, waited, some.injEq] at returned
          exact .inr (.inr ⟨fd, entry, p, peer, rfl, target, t, n, i, ev, returned ▸ rfl⟩)

/-! ### Streams -/

def sentNote (e : Nat) : Note → List UInt8
  | .sent i d => if i = some e then d else []
  | _ => []

def receivedNote (e : Nat) : Note → List UInt8
  | .finished _ i d => if i = some e then d else []
  | _ => []

def sentTo (e : Nat) (notes : List Note) : List UInt8 := notes.flatMap (sentNote e)

def receivedFrom (e : Nat) (notes : List Note) : List UInt8 := notes.flatMap (receivedNote e)

def Flow (before after : Sockets) (notes : List Note) : Prop :=
  ∀ e, before.incomingAt e ++ sentTo e notes = receivedFrom e notes ++ after.incomingAt e

variable {k l m : Sockets} {notes : List Note}

theorem Flow.refl : Flow k k [] := fun e => by simp [sentTo, receivedFrom]

theorem Flow.trans {first later : List Note} (one : Flow k l first) (two : Flow l m later) :
    Flow k m (first ++ later) := by
  intro e
  have at_one := one e
  have at_two := two e
  simp only [sentTo, receivedFrom, flatMap_append] at *
  rw [← append_assoc, at_one, append_assoc, at_two, append_assoc]

theorem Flow.still (flow : Flow k l notes) {note : Note}
    (nothing : ∀ e, sentNote e note = [] ∧ receivedNote e note = []) : Flow k l (notes ++ [note]) := by
  intro e
  simpa [sentTo, receivedFrom, (nothing e).1, (nothing e).2] using flow e

theorem flow_recv {fd : Int} {max : Nat} {bytes : List UInt8}
    (got : (k.recv fd max).1 = .data bytes) (t : Ticket) :
    Flow k (k.recv fd max).2 [.finished t (k.ofFd.get? fd) bytes] := by
  intro e
  simpa [sentTo, receivedFrom, sentNote, receivedNote] using incomingAt_recv got

theorem flow_finished_nothing (t : Ticket) (i : Option Nat) : Flow k k [.finished t i []] :=
  (Flow.refl).still (by simp [sentNote, receivedNote])

theorem flow_deliver {fd : Int} {p : Nat} {peer : Endpoint} (found : k.target fd = some (p, peer))
    (bytes : List UInt8) : Flow k (k.deliver p bytes) [.sent (some p) bytes] := by
  obtain ⟨i, -, there⟩ := bind_eq_some_iff.mp found
  split at there
  · cases there
  · obtain ⟨peer', at_peer, same⟩ := map_eq_some_iff.mp there
    cases same
    intro e
    simp [sentTo, receivedFrom, sentNote, receivedNote, incomingAt_deliver at_peer]

/-! ### The handlers -/

section
variable (s : State)

theorem flow_finishRead (r : AsyncPipeRead) :
    Flow s.sockets (finishRead s r).1.sockets (finishRead s r).2 := by
  cases got : (s.sockets.recv r.pipeFd r.maxBytes).1 with
  | data => simpa [finishRead, got, signalPipeWait, socketOf] using flow_recv got r.ticket
  | eof =>
    have same : (s.sockets.recv r.pipeFd r.maxBytes).2 = s.sockets :=
      recv_same (by simp [got])
    simpa [finishRead, got, signalPipeWait, same] using flow_finished_nothing r.ticket _
  | _ =>
    have same : (s.sockets.recv r.pipeFd r.maxBytes).2 = s.sockets :=
      recv_same (by simp [got])
    simpa [finishRead, got, same] using Flow.refl

theorem flow_finishReads (reads : List AsyncPipeRead) :
    Flow s.sockets (finishReads s reads).1.sockets (finishReads s reads).2 := by
  induction reads generalizing s with
  | nil => exact Flow.refl
  | cons r rest ih => exact (flow_finishRead s r).trans (ih (finishRead s r).1)

theorem flow_check :
    Flow s.sockets (checkPendingPipeReads s).1.sockets (checkPendingPipeReads s).2 := by
  have pass := flow_finishReads
    { s with pendingPipeReads := s.pendingPipeReads.filter fun r => !s.sockets.poll r.pipeFd }
    (s.pendingPipeReads.filter fun r => s.sockets.poll r.pipeFd).reverse
  exact pass

theorem flow_answered (flow : Flow k l notes) (pid : UInt32) (user : UInt64) (d : List UInt8) :
    Flow k l (notes ++ [.answered pid user d]) :=
  flow.still (by simp [sentNote, receivedNote])

theorem flow_keepRead (t : Ticket) (handle : UInt32) (entry : HandleEntry) (fd : Int)
    (max : Nat) (made : Bool) : Flow s.sockets (keepRead s t handle entry fd max made).2.1.sockets
      (keepRead s t handle entry fd max made).2.2 := by
  obtain ⟨p, n, i, ev, waited⟩ := getPipeWaitHandle_eq s t.pid handle made
  have kept : (keepRead s t handle entry fd max made).2.1.sockets = s.sockets := by
    simp only [keepRead]
    split_ifs <;> simp [waited]
  rw [kept]
  exact (Flow.refl).still (by simp [sentNote, receivedNote])

theorem flow_handleRead (req : ReadRequest) (made : Bool) :
    Flow s.sockets (handleRead s req made).2.1.sockets (handleRead s req made).2.2 := by
  cases found : entryFd s (clientPid s req.clientFd) req.handle with
  | none => simpa [handleRead, found] using Flow.refl
  | some at_ =>
    obtain ⟨fd, entry⟩ := at_
    simp only [handleRead, found]
    generalize maxSize req.maxReply = max
    have outcome : (receive s fd max).1 = (s.sockets.recv fd max).1 := rfl
    have sockets : (receive s fd max).2.sockets = (s.sockets.recv fd max).2 := rfl
    cases got : (s.sockets.recv fd max).1 with
    | data =>
      obtain ⟨p, n, i, ev, waited⟩ := completeIo_eq (receive s fd max).2 entry
        (clientPid s req.clientFd) req.handle made
      simp only [outcome, got, waited, socketOf, sockets, recv_ofFd]
      exact flow_answered (flow_recv got _) _ _ _
    | eof =>
      have same : (s.sockets.recv fd max).2 = s.sockets := recv_same (by simp [got])
      simp only [outcome, got, sockets, same]
      exact flow_answered (flow_finished_nothing _ _) _ _ _
    | wouldBlock =>
      have same : (s.sockets.recv fd max).2 = s.sockets := recv_same (by simp [got])
      simp only [outcome, got]
      rw [← same, ← sockets]
      exact flow_keepRead _ _ _ _ _ _ _
    | failed =>
      have same : (s.sockets.recv fd max).2 = s.sockets := recv_same (by simp [got])
      simp only [outcome, got, sockets, same]
      exact Flow.refl

theorem flow_getAsyncResult (clientFd : Int) (user : UInt64) :
    Flow s.sockets (getAsyncResult s clientFd user).2.1.sockets
      (getAsyncResult s clientFd user).2.2 := by
  unfold getAsyncResult
  dsimp only
  split
  · exact Flow.refl
  · split
    · exact flow_answered (Flow.refl) _ _ _
    · split
      · exact Flow.refl
      · next p found =>
        cases got : (s.sockets.recv p.fd p.maxBytes).1 with
        | data =>
          simp only [socketOf, recv_ofFd]
          exact flow_answered (flow_recv got _) _ _ _
        | _ =>
          have same : (s.sockets.recv p.fd p.maxBytes).2 = s.sockets :=
            recv_same (by simp [got])
          simp only [same]
          exact Flow.refl

end

theorem flow_handleWrite (rule : SendRule) {fuel : Nat} {s : State} {made : Bool}
    (returned : handleWrite rule fuel s req made = some done) :
    Flow s.sockets done.2.1.sockets done.2.2 := by
  rcases handleWrite_cases returned with same | same | ⟨fd, entry, p, peer, -, target, t, n, i, ev, same⟩
  · rw [same]
    exact Flow.refl
  · rw [same]
    exact (Flow.refl).still (by simp [sentNote, receivedNote])
  · rw [same]
    have arrived := flow_deliver target req.data
    split
    · have passed := flow_check { s with
        sockets := s.sockets.deliver p req.data
        processes := t, nextObjectId := n, ioWaitHandles := i, events := ev }
      exact arrived.trans passed
    · exact arrived

theorem flow_act (rule : SendRule) (s : State) (event : Event) :
    Flow s.sockets (act rule s event).1.sockets (act rule s event).2 := by
  cases event with
  | read req made => exact flow_handleRead s req made
  | write req made fuel =>
    cases returned : handleWrite rule fuel s req made with
    | some =>
      simp only [act, returned]
      exact flow_handleWrite rule returned
    | none =>
      simp only [act, returned]
      exact Flow.refl
  | getAsyncResult clientFd user => exact flow_getAsyncResult s clientFd user
  | tick => exact flow_check s
  | hangUp =>
    intro i
    simp [act, sentTo, receivedFrom, incomingAt_hangUp]

end Triskelion.PipeIo
