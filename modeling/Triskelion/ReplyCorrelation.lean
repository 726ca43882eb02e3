import Triskelion.MessageJournal

/-! Whom a reply wakes. `reply_message` pops the newest send tracked for the
receiver, whatever the receiver is answering; the two are the same message only
as long as no send is tracked between a `get_message` and the reply to it and no
message is answered that was not tracked. -/

namespace Triskelion.ReplyCorrelation

open MessageServer MessageJournal RunRules

/-- The innermost sent message the receiver owes an answer to, if its sender is
blocked on it. -/
def answering (j : Journal) (r : UInt32) : Option Envelope := (j.owed r).head?.filter (·.tracked)

def claimedSignals (j : Journal) (r : UInt32) : List (UInt32 × UInt32) :=
  ((answering j r).map fun e => (e.sender, qsSmresult)).toList

/-- A reply wakes the sender of the message being answered and nobody else. -/
def Correlated (T : MsgTypes) (t : Traced) : MessageRequest → Prop
  | .reply fd result => ∀ r, t.server.clientThreadId fd = some r →
      (t.server.handle T (.reply fd result)).signals = claimedSignals t.journal r
  | _ => True

/-- When a reply arrives, the newest send tracked for the receiver comes from the
thread whose message is being answered; if that message is not tracked, or there
is none, nothing is tracked. -/
def Aligned (t : Traced) : MessageRequest → Prop
  | .reply fd _ => ∀ r, t.server.clientThreadId fd = some r →
      (t.journal.pend r).head?.map (·.sender) = (answering t.journal r).map (·.sender)
  | _ => True

variable {t : Traced}

theorem reply_signals (mirror : Mirror t) {fd : Int32} {r : UInt32}
    (receiver : t.server.clientThreadId fd = some r) (result : UInt64) :
    (t.server.handleReplyMessage fd result).signals =
      (((t.journal.pend r).head?.map (·.sender)).map fun sender => (sender, qsSmresult)).toList := by
  have mirrored := mirror.pend r
  unfold handleReplyMessage
  rw [receiver]
  dsimp only
  cases top : t.server.sentMessages.pendingFor r with
  | nil =>
    rw [top] at mirrored
    have none_ : t.server.sentMessages.drainOneWithCode r = none := by
      simp only [SentMessages.drainOneWithCode, top]
    rw [none_, List.forall₂_nil_right_iff.mp mirrored]
    rfl
  | cons p rest =>
    rw [top] at mirrored
    obtain ⟨drained, popped, -⟩ := drainOneWithCode_cons top
    obtain ⟨e, later, same, -, here⟩ := List.forall₂_cons_right_iff.mp mirrored
    rw [popped, here, same.sender]
    rfl

theorem toList_map_pair_inj {a b : Option UInt32} :
    (a.map fun x => (x, qsSmresult)).toList = (b.map fun x => (x, qsSmresult)).toList ↔ a = b := by
  cases a <;> cases b <;> simp

theorem correlated_iff_aligned (T : MsgTypes) (mirror : Mirror t)
    (request : MessageRequest) : Correlated T t request ↔ Aligned t request := by
  cases request with
  | reply =>
    apply forall_congr'
    intro r
    apply forall_congr'
    intro receiver
    have claimed : claimedSignals t.journal r =
        (((answering t.journal r).map (·.sender)).map fun x => (x, qsSmresult)).toList := by
      simp [claimedSignals, Function.comp_def]
    rw [handle, reply_signals mirror receiver, claimed, toList_map_pair_inj]
  | _ => exact Iff.rfl

def overtaken : List MessageRequest := [sendTo 4 10 0x400, getAll 3, sendTo 5 10 0x401]

def afterOvertaken : Traced := run (Traced.step headerTypes) ⟨threeProcesses, .empty⟩ overtaken

end Triskelion.ReplyCorrelation
