import Triskelion.BoundedQueue
import Triskelion.MessageJournal

/-! The posted messages of a thread behave as a bounded queue: no run of the
operations, however often it goes round the buffer, tells the ring from the
queue. -/

namespace Triskelion.RingRefinement

open RunRules ThreadQueue BoundedQueue Prod

/-- The operations of `MessageRing`, then those of `ThreadQueue` over it. -/
inductive RingOp
  | push (msg : QueuedMessage)
  | pop
  | isEmpty
  | post (msg : QueuedMessage)
  | get

inductive RingAnswer
  | accepted (ok : Bool)
  | message (msg : Option QueuedMessage)
  | empty (yes : Bool)
deriving DecidableEq

def ringAnswer (q : ThreadQueue) : RingOp → ThreadQueue × RingAnswer
  | .push msg => ({ q with posted := (q.posted.push msg).2 }, .accepted (q.posted.push msg).1)
  | .pop => (((q.posted.pop).map fun front => { q with posted := front.2 }).getD q,
      .message (q.posted.pop.map fst))
  | .isEmpty => (q, .empty q.posted.isEmpty)
  | .post msg => ((q.post msg).2, .accepted (q.post msg).1)
  | .get => ((q.get.map snd).getD q, .message (q.get.map fst))

abbrev MessageFifo := BoundedQueue QueuedMessage ringCapacity

def fifoPush (f : MessageFifo) (msg : QueuedMessage) : MessageFifo × RingAnswer :=
  ((f.push msg).getD f, .accepted (f.push msg).isSome)

def fifoPop (f : MessageFifo) : MessageFifo × RingAnswer :=
  ((f.pop.map snd).getD f, .message (f.pop.map fst))

def fifoAnswer (f : MessageFifo) : RingOp → MessageFifo × RingAnswer
  | .push msg | .post msg => fifoPush f msg
  | .pop | .get => fifoPop f
  | .isEmpty => (f, .empty f.isEmpty)

def Represents (q : ThreadQueue) (f : MessageFifo) : Prop := q.posted.contents = f.items

variable {f : MessageFifo} {q : ThreadQueue}

theorem count_of_represents (same : Represents q f) : q.posted.count = f.items.length := by
  rw [← q.posted.contents_length, same]

variable {msg : QueuedMessage}

section
variable (same : Represents q f)
include same

theorem push_represents : (q.posted.push msg).1 = (f.push msg).isSome ∧
      (q.posted.push msg).2.contents = ((f.push msg).getD f).items := by
  by_cases room : q.posted.count < ringCapacity
  · obtain ⟨accepted, after⟩ := q.posted.push_contents_of_room msg room
    obtain ⟨f', pushed, items⟩ := f.push_of_room (a := msg) (count_of_represents same ▸ room)
    rw [accepted, after, pushed, same, Option.getD_some, items]
    exact ⟨rfl, rfl⟩
  · have refused : q.posted.push msg = (false, q.posted) := dif_neg room
    rw [refused, f.push_of_full (count_of_represents same ▸ room)]
    exact ⟨rfl, same⟩

theorem pop_represents : q.posted.pop.map fst = f.pop.map fst ∧
      ((q.posted.pop.map snd).getD q.posted).contents =
        ((f.pop.map snd).getD f).items := by
  cases popped : q.posted.pop with
  | none =>
    have nil := same ▸ q.posted.pop_eq_none.mp popped
    rw [f.pop_of_nil nil]
    exact ⟨rfl, same⟩
  | some front =>
    have cons := same ▸ q.posted.pop_contents popped
    obtain ⟨f', front, items⟩ := f.pop_of_cons cons
    rw [front]
    exact ⟨rfl, items.symm⟩

theorem isEmpty_represents : q.posted.isEmpty = f.isEmpty := by
  rw [MessageRing.isEmpty, isEmpty, Bool.eq_iff_iff, decide_eq_true_iff,
    ← q.posted.count_eq_zero, count_of_represents same, List.length_eq_zero_iff, List.isEmpty_iff]

end

theorem post_push :
    (q.post msg).1 = (q.posted.push msg).1 ∧ (q.post msg).2.posted = (q.posted.push msg).2 := by
  unfold post
  by_cases room : q.posted.count < ringCapacity
  · have accepted := (q.posted.push_contents_of_room msg room).1
    simp [accepted]
  · have refused : q.posted.push msg = (false, q.posted) := dif_neg room
    simp [refused]

theorem get_pop : q.get.map fst = q.posted.pop.map fst ∧
      ((q.get.map snd).getD q).posted = (q.posted.pop.map snd).getD q.posted := by
  unfold ThreadQueue.get
  cases q.posted.pop with
  | none | some => exact ⟨rfl, rfl⟩

theorem answer_represents (q : ThreadQueue) (f : MessageFifo) (op : RingOp)
    (same : Represents q f) : (ringAnswer q op).2 = (fifoAnswer f op).2 ∧
      Represents (ringAnswer q op).1 (fifoAnswer f op).1 := by
  cases op with
  | push msg =>
    obtain ⟨ok, after⟩ := push_represents same
    exact ⟨congrArg RingAnswer.accepted ok, after⟩
  | pop =>
    obtain ⟨front, after⟩ := pop_represents same
    refine ⟨congrArg RingAnswer.message front, ?_⟩
    rw [Represents, ringAnswer, fifoAnswer, fifoPop, ← after]
    cases q.posted.pop <;> rfl
  | isEmpty => exact ⟨congrArg RingAnswer.empty (isEmpty_represents same), same⟩
  | post msg =>
    obtain ⟨ok, after⟩ := push_represents same
    obtain ⟨posted, ring⟩ := post_push
    exact ⟨congrArg RingAnswer.accepted (posted.trans ok), (congrArg _ ring).trans after⟩
  | get =>
    obtain ⟨front, after⟩ := pop_represents same
    obtain ⟨taken, ring⟩ := get_pop
    exact ⟨congrArg RingAnswer.message (taken.trans front), (congrArg _ ring).trans after⟩

theorem represents_init : Represents init empty := rfl

/-- The positions only ever grow, so a long run wraps both of them; the answers
are those of the queue all the same. -/
theorem ring_refines_fifo (ops : List RingOp) :
    outputs ringAnswer init ops = outputs fifoAnswer empty ops :=
  outputs_eq_of_simulation answer_represents represents_init

end Triskelion.RingRefinement
