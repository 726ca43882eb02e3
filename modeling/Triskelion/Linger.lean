import Triskelion.Authority
import Triskelion.RunRules
import Mathlib.Tactic.SplitIfs

/-! The linger deadline of the authority loop. A deadline is set when the last client
or the last user process goes, so that a new client still finds the daemon; nothing
but the end of another client takes it back. -/

namespace Triskelion.Linger

open EventLoop RunRules

inductive AuthorityEvent
  | request (now : Nat) (msg : RequestMsg)
  | tick (now : Nat)

section
variable (H : Handlers) (ev : EventLoop)

def step : AuthorityEvent → EventLoop
  | .request now msg => (ev.processRequest H now msg).1
  | .tick _ => ev

def fires (ev : EventLoop) (now : Nat) : Bool := ev.lingerDeadline.any (· ≤ now)

def TickSafe (ev : EventLoop) : AuthorityEvent → Prop
  | .tick now => fires ev now → ev.clients.entries = []
  | .request _ _ => True

def inserts : HandlerEdit → Bool
  | .insertClient _ _ _ _ _ => true
  | _ => false

/-- A client only arrives while no deadline is pending: neither the I/O thread
registers one then, nor does a handler add one. -/
def InTime : AuthorityEvent → Prop
  | .tick _ => True
  | .request _ msg =>
    if msg.header.req = -1 then ev.clients.contains msg.clientFd = false → ev.lingerDeadline = none
    else if msg.header.req = -2 then True
    else
      (∃ edit ∈ (H (ev.deposit msg.clientFd msg.inflightFds).1 msg.clientFd msg.header msg.buf).1,
        inserts edit) → ev.lingerDeadline = none

end

/-! ### What a request leaves alone -/

variable {fd : RawFd}

theorem entries_modify_nil {t : Table RawFd Client} (nil : t.entries = [])
    (f : Client → Client) : (t.modify fd f).entries = [] := by
  have absent : t.get? fd = none := by simp [Table.get?, nil, KeyedTable.get, KeyedTable.find]
  simp [Table.modify, absent, nil]

variable {ev : EventLoop}

theorem clients_nil_of_touched {after : EventLoop} (touched : Touched ev after)
    (nil : ev.clients.entries = []) : after.clients.entries = [] := by
  rcases touched.clients with same | ⟨fd, g, changed, -⟩
  · rw [same, nil]
  · rw [changed, entries_modify_nil nil]

variable {edit : HandlerEdit}

theorem applyEdit_lingerDeadline :
    (ev.applyEdit fd edit).ev.lingerDeadline = ev.lingerDeadline := by
  cases edit with
  | takeInflight n => exact (touched_takeInflightFd ev fd n).lingerDeadline
  | takeFirstInflight => exact (touched_takeFirstInflightFd ev fd).lingerDeadline
  | _ => rfl

variable {edits : List HandlerEdit}

theorem applyEdits_lingerDeadline :
    (ev.applyEdits fd edits).ev.lingerDeadline = ev.lingerDeadline := by
  induction edits generalizing ev with
  | nil => rfl
  | cons edit later ih => simp [applyEdits, ih, applyEdit_lingerDeadline]

theorem applyEdit_clients (nil : ev.clients.entries = [])
    (no_insert : inserts edit = false) : (ev.applyEdit fd edit).ev.clients.entries = [] := by
  cases edit with
  | insertClient => cases no_insert
  | takeInflight n => exact clients_nil_of_touched (touched_takeInflightFd ev fd n) nil
  | takeFirstInflight => exact clients_nil_of_touched (touched_takeFirstInflightFd ev fd) nil
  | _ => simp [applyEdit, nil, entries_modify_nil]

theorem applyEdits_clients (nil : ev.clients.entries = [])
    (no_insert : ∀ edit ∈ edits, inserts edit = false) :
    (ev.applyEdits fd edits).ev.clients.entries = [] := by
  induction edits generalizing ev with
  | nil => exact nil
  | cons edit later ih =>
    exact ih (applyEdit_clients nil (no_insert edit List.mem_cons_self)) fun e mem =>
      no_insert e (List.mem_cons_of_mem _ mem)

variable {msg : RequestMsg}

theorem answer_lingerDeadline (H : Handlers) :
    (ev.answer H msg).1.lingerDeadline = ev.lingerDeadline := by
  simp only [answer, drainWatches, (touched_sendPending _ _).lingerDeadline,
    announce_lingerDeadline, applyEdits_lingerDeadline, (touched_deposit _ _ _).lingerDeadline]

/-! ### The invariant -/

def Alone (ev : EventLoop) : Prop := ev.lingerDeadline ≠ none → ev.clients.entries = []

/-- Whatever the teardown of the process did to the deadline, it is taken back where
another client remains. -/
theorem alone_finish (now : Nat) : Alone (ev.finish now fd).1 := by
  unfold finish
  dsimp only
  split_ifs with empty start
  · intro _
    simpa using empty
  · intro _
    simpa using empty
  · intro pending
    exact absurd rfl pending

theorem alone_answer {H : Handlers} (alone : Alone ev)
    (in_time : (∃ edit ∈ (H (ev.deposit msg.clientFd msg.inflightFds).1 msg.clientFd msg.header
      msg.buf).1, inserts edit) → ev.lingerDeadline = none) : Alone (ev.answer H msg).1 := by
  intro pending
  rw [answer_lingerDeadline] at pending
  simp only [answer, drainWatches]
  apply clients_nil_of_touched (touched_sendPending _ _)
  rw [announce_clients]
  refine applyEdits_clients (clients_nil_of_touched (touched_deposit _ _ _) (alone pending))
    fun edit mem => ?_
  by_contra adds
  exact pending (in_time ⟨edit, mem, by simpa using adds⟩)

theorem alone_step (H : Handlers) (ev : EventLoop) (event : AuthorityEvent) (alone : Alone ev)
    (in_time : InTime H ev event) : Alone (step H ev event) := by
  cases event with
  | tick => exact alone
  | request now msg =>
    simp only [InTime] at in_time
    simp only [step, processRequest]
    split_ifs with one two
    · rw [if_pos one] at in_time
      unfold register
      split_ifs with known
      · exact alone
      · intro pending
        exact absurd (in_time (by simpa using known)) pending
    · exact alone_finish now
    · rw [if_neg one, if_neg two] at in_time
      exact alone_answer alone in_time

theorem tickSafe_of_alone (alone : Alone ev) (event : AuthorityEvent) : TickSafe ev event := by
  cases event with
  | request => trivial
  | tick =>
    intro fired
    refine alone fun none_ => ?_
    simp [fires, none_] at fired

theorem linger_safe_of_in_time (H : Handlers) (lingerSecs : Nat) (events : List AuthorityEvent)
    (in_time : AllSteps (step H) (InTime H) (.new lingerSecs) events) :
    AllSteps (step H) TickSafe (.new lingerSecs) events :=
  allSteps_of_invariant (alone_step H) (fun _ event alone _ => tickSafe_of_alone alone event)
    (fun _ => rfl) in_time

def counting : Handlers := fun _ _ _ _ => ([.countRequest], [])

def oneVisit : List AuthorityEvent :=
  [.request 0 (IoThread.registration 7 6), .request 1 ⟨7, ⟨1, 0, 0⟩, List.replicate 64 0, [], -1⟩,
    .request 2 (IoThread.disconnection 7)]

theorem linger_safe_one_visit :
    AllSteps (step counting) (InTime counting) (.new 5) (oneVisit ++ [.tick (seconds 6)]) ∧
      AllSteps (step counting) TickSafe (.new 5) (oneVisit ++ [.tick (seconds 6)]) := by
  have in_time : AllSteps (step counting) (InTime counting) (.new 5)
      (oneVisit ++ [.tick (seconds 6)]) :=
    ⟨fun _ => rfl, fun _ => rfl, trivial, trivial, trivial⟩
  exact ⟨in_time, linger_safe_of_in_time counting 5 _ in_time⟩

/-- The second client comes within the five seconds and is still there at their end. -/
theorem late_client_shut_down : ¬ AllSteps (step counting) TickSafe (.new 5)
      (oneVisit ++ [.request (seconds 1) (IoThread.registration 8 9), .tick (seconds 6)]) := by
  intro safe
  have empty := safe.2.2.2.2.1 (by decide +kernel)
  exact absurd empty (by decide +kernel)

end Triskelion.Linger
