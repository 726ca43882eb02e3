import Mathlib.Data.List.Nodup
import Mathlib.Data.List.Perm.Basic
import Triskelion.PipeIo
import Mathlib.Tactic.SplitIfs

/-! What reads that wait are for, apart from the tables they are kept in: a read waits
on one socket, is finished once, and then lies ready until it is asked for. The ledger
says who waits where and what lies ready; each thing that may happen to a read is a
lemma that keeps the ledger fair. -/

namespace Triskelion.PipeIo

open List

def Ticket.owner (t : Ticket) : UInt32 × UInt64 := (t.pid, t.user)

/-! ### Reading the notes -/

def finishedNote : Note → Option (Ticket × List UInt8)
  | .finished t _ d => some (t, d)
  | _ => none

def finishedOnNote (e : Option Nat) : Note → Option Ticket
  | .finished t i _ => if i = e then some t else none
  | _ => none

def answeredNote : Note → Option ((UInt32 × UInt64) × List UInt8)
  | .answered pid user d => some ((pid, user), d)
  | _ => none

def finished (notes : List Note) : List (Ticket × List UInt8) := notes.filterMap finishedNote

def finishedOn (e : Option Nat) (notes : List Note) : List Ticket :=
  notes.filterMap (finishedOnNote e)

def answered (notes : List Note) : List ((UInt32 × UInt64) × List UInt8) :=
  notes.filterMap answeredNote

def named (c : Ticket × List UInt8) : (UInt32 × UInt64) × List UInt8 := (c.1.owner, c.2)

theorem mem_finishedOn {e : Option Nat} {notes : List Note} {t : Ticket} :
    t ∈ finishedOn e notes ↔ ∃ d, .finished t e d ∈ notes := by
  simp only [finishedOn, mem_filterMap]
  constructor
  · rintro ⟨note, mem, found⟩
    cases note with
    | finished u i d =>
      simp only [finishedOnNote, Option.ite_none_right_eq_some, Option.some.injEq] at found
      obtain ⟨rfl, rfl⟩ := found
      exact ⟨d, mem⟩
    | _ => cases found
  · rintro ⟨d, mem⟩
    exact ⟨_, mem, by simp [finishedOnNote]⟩

theorem mem_finished {notes : List Note} {c : Ticket × List UInt8} :
    c ∈ finished notes ↔ ∃ e, .finished c.1 e c.2 ∈ notes := by
  simp only [finished, mem_filterMap]
  constructor
  · rintro ⟨note, mem, found⟩
    cases note with
    | finished _ i =>
      obtain rfl := Option.some.inj found
      exact ⟨i, mem⟩
    | _ => cases found
  · rintro ⟨e, mem⟩
    exact ⟨_, mem, rfl⟩

/-! ### The ledger -/

/-- Who waits, on which socket and whether watched; what is finished and not asked for. -/
structure Ledger where
  waits : Ticket → Nat → Bool → Prop
  ready : List (Ticket × List UInt8)
  notes : List Note
  next : Nat

namespace Ledger

def Outstanding (b : Ledger) (t : Ticket) : Prop :=
  (∃ e w, b.waits t e w) ∨ t ∈ b.ready.map Prod.fst

def Apart (t u : Ticket) : Prop := t.client ≠ u.client ∧ t.owner ≠ u.owner

structure Fair (b : Ledger) : Prop where
  sockets : ∀ t u e v w, b.waits t e v → b.waits u e w → t = u
  once_waiting : ∀ t d e v w, b.waits t d v → b.waits t e w → d = e ∧ v = w
  ids : ∀ t u d e v w, b.waits t d v → b.waits u e w → t.id = u.id → t = u
  apart : ∀ t u, b.Outstanding t → b.Outstanding u → t ≠ u → Apart t u
  once_ready : (b.ready.map Prod.fst).Nodup
  below : ∀ t e w, b.waits t e w → t.id < b.next
  finished_below : ∀ c ∈ finished b.notes, c.1.id < b.next
  ready_finished : ∀ c ∈ b.ready, c ∈ finished b.notes
  unfinished : ∀ t e w, b.waits t e w → ∀ c ∈ finished b.notes, c.1.id ≠ t.id
  overtakes : ∀ t e w, b.waits t e w → ∀ u ∈ finishedOn (some e) b.notes, u.id < t.id
  pended : ∀ t e w, .pended t e w ∈ b.notes →
    t ∈ finishedOn e b.notes ∨ ∃ i, e = some i ∧ b.waits t i w
  in_order : ∀ e, (finishedOn e b.notes).Pairwise fun t u => t.id < u.id
  once : ((finished b.notes).map fun c => c.1.id).Nodup
  delivered : ((finished b.notes).map named).Perm (answered b.notes ++ b.ready.map named)

variable {b : Ledger}

def empty (next : Nat) : Ledger := ⟨fun _ _ _ => False, [], [], next⟩

theorem fair_empty (next : Nat) : (empty next).Fair := by
  constructor <;> simp [empty, finished, finishedOn, answered, Outstanding]

section
variable (b : Ledger) (t : Ticket)
include b

def pend (e : Nat) (w : Bool) : Ledger where
  waits u i v := b.waits u i v ∨ u = t ∧ i = e ∧ v = w
  ready := b.ready
  notes := b.notes ++ [.pended t (some e) w]
  next := b.next + 1

def finish (e : Nat) (d : List UInt8) : Ledger where
  waits u i v := b.waits u i v ∧ u ≠ t
  ready := b.ready ++ [(t, d)]
  notes := b.notes ++ [.finished t (some e) d]
  next := b.next

def answer (d : List UInt8) (rest : List (Ticket × List UInt8)) : Ledger where
  waits := b.waits
  ready := rest
  notes := b.notes ++ [.answered t.pid t.user d]
  next := b.next

def immediate (e : Nat) (d : List UInt8) : Ledger where
  waits := b.waits
  ready := b.ready
  notes := b.notes ++ [.finished t (some e) d, .answered t.pid t.user d]
  next := b.next + 1

end

def hear (b : Ledger) (e : Option Nat) (d : List UInt8) : Ledger :=
  { b with notes := b.notes ++ [.sent e d] }

section Notes

variable (notes : List Note) (t : Ticket) (e i : Option Nat) (w : Bool) (d : List UInt8)

@[simp] theorem finished_pended : finished (notes ++ [.pended t e w]) = finished notes := by
  simp [finished, finishedNote]

@[simp] theorem finishedOn_pended : finishedOn i (notes ++ [.pended t e w]) = finishedOn i notes := by
  simp [finishedOn, finishedOnNote]

@[simp] theorem answered_pended : answered (notes ++ [.pended t e w]) = answered notes := by
  simp [answered, answeredNote]

@[simp] theorem finished_sent : finished (notes ++ [.sent e d]) = finished notes := by
  simp [finished, finishedNote]

@[simp] theorem finishedOn_sent : finishedOn i (notes ++ [.sent e d]) = finishedOn i notes := by
  simp [finishedOn, finishedOnNote]

@[simp] theorem answered_sent : answered (notes ++ [.sent e d]) = answered notes := by
  simp [answered, answeredNote]

@[simp] theorem finished_finished :
    finished (notes ++ [.finished t e d]) = finished notes ++ [(t, d)] := by
  simp [finished, finishedNote]

@[simp] theorem finishedOn_finished : finishedOn i (notes ++ [.finished t e d]) =
      if e = i then finishedOn i notes ++ [t] else finishedOn i notes := by
  split <;> simp_all [finishedOn, finishedOnNote]

@[simp] theorem answered_finished : answered (notes ++ [.finished t e d]) = answered notes := by
  simp [answered, answeredNote]

variable (pid : UInt32) (user : UInt64)

@[simp] theorem finished_answered : finished (notes ++ [.answered pid user d]) = finished notes := by
  simp [finished, finishedNote]

@[simp] theorem finishedOn_answered :
    finishedOn i (notes ++ [.answered pid user d]) = finishedOn i notes := by
  simp [finishedOn, finishedOnNote]

@[simp] theorem answered_answered :
    answered (notes ++ [.answered pid user d]) = answered notes ++ [((pid, user), d)] := by
  simp [answered, answeredNote]

end Notes

theorem Fair.skip (fair : b.Fair) : Fair { b with next := b.next + 1 } :=
  { fair with
    below := fun t e w waits => Nat.lt_succ_of_lt (fair.below t e w waits)
    finished_below := fun c mem => Nat.lt_succ_of_lt (fair.finished_below c mem) }

variable {c : Ledger}

section
variable (fair : b.Fair)
include fair

section
variable (waits : ∀ t e w, c.waits t e w ↔ b.waits t e w) (ready : c.ready = b.ready)
include waits ready

/-- The same reads wait and lie ready, and the notes tell the same of those that are done. -/
theorem Fair.of_alike (next : c.next = b.next) (done : finished c.notes = finished b.notes)
    (on : ∀ i, finishedOn i c.notes = finishedOn i b.notes)
    (told : answered c.notes = answered b.notes)
    (pended : ∀ t e w, .pended t e w ∈ c.notes → .pended t e w ∈ b.notes) : c.Fair := by
  obtain ⟨waits', _, _, _⟩ := c
  have equal : waits' = b.waits := by
    funext t e w
    exact propext (waits t e w)
  subst ready next equal
  exact
    { fair with
      finished_below := by rw [done]; exact fair.finished_below
      ready_finished := by rw [done]; exact fair.ready_finished
      unfinished := by rw [done]; exact fair.unfinished
      overtakes := fun t e w waits => by rw [on]; exact fair.overtakes t e w waits
      pended := fun t e w mem => by rw [on]; exact fair.pended t e w (pended t e w mem)
      in_order := fun e => by rw [on]; exact fair.in_order e
      once := by rw [done]; exact fair.once
      delivered := by rw [done, told]; exact fair.delivered }

/-- The tables that hold the reads may be arranged in another way. -/
theorem Fair.of_same (notes : c.notes = b.notes) (next : c.next = b.next) : c.Fair :=
  fair.of_alike waits ready next (by rw [notes]) (fun i => by rw [notes]) (by rw [notes])
    fun t e w mem => notes ▸ mem

end

theorem Fair.hear (e : Option Nat) (d : List UInt8) : (b.hear e d).Fair :=
  fair.of_alike (fun _ _ _ => .rfl) rfl rfl (finished_sent _ _ _) (fun _ => finishedOn_sent _ _ _ _)
    (answered_sent _ _ _) (by simp [Ledger.hear])

theorem Fair.pend {t : Ticket} (fresh : t.id = b.next) {e : Nat}
    (free : ∀ u w, ¬ b.waits u e w) (apart : ∀ u, b.Outstanding u → Apart u t) (w : Bool) :
    (b.pend t e w).Fair := by
  have newer : ∀ u i v, b.waits u i v → u.id ≠ t.id := by
    intro u i v waits
    have := fair.below u i v waits
    omega
  have known : ∀ u, (b.pend t e w).Outstanding u → b.Outstanding u ∨ u = t := by
    rintro u (⟨i, v, old | ⟨rfl, -⟩⟩ | ready)
    · exact .inl (.inl ⟨i, v, old⟩)
    · exact .inr rfl
    · exact .inl (.inr ready)
  constructor
  case sockets =>
    rintro u v i x y (one | ⟨rfl, rfl, -⟩) (two | ⟨rfl, same, -⟩)
    · exact fair.sockets u v i x y one two
    · exact absurd (same ▸ one) (free u x)
    · exact absurd two (free v y)
    · rfl
  case once_waiting =>
    rintro u i j x y (one | ⟨rfl, rfl, rfl⟩) (two | ⟨same, rfl, rfl⟩)
    · exact fair.once_waiting u i j x y one two
    · exact absurd (same ▸ rfl) (newer u i x one)
    · exact absurd rfl (newer u j y two)
    · exact ⟨rfl, rfl⟩
  case ids =>
    rintro u v i j x y (one | ⟨rfl, -⟩) (two | ⟨rfl, -⟩) same
    · exact fair.ids u v i j x y one two same
    · exact absurd same (newer u i x one)
    · exact absurd same.symm (newer v j y two)
    · rfl
  case apart =>
    intro u v one two other
    rcases known u one with old | rfl <;> rcases known v two with old' | rfl
    · exact fair.apart u v old old' other
    · exact apart u old
    · exact ⟨(apart v old').1.symm, (apart v old').2.symm⟩
    · exact absurd rfl other
  case once_ready =>
    exact fair.once_ready
  case below =>
    rintro u i v (old | ⟨rfl, -⟩)
    · exact Nat.lt_succ_of_lt (fair.below u i v old)
    · exact fresh ▸ Nat.lt_succ_self _
  case finished_below =>
    intro c mem
    exact Nat.lt_succ_of_lt (fair.finished_below c (by simpa [Ledger.pend] using mem))
  case ready_finished =>
    simpa [Ledger.pend] using fair.ready_finished
  case unfinished =>
    rintro u i v (old | ⟨rfl, -⟩) c mem
    · exact fair.unfinished u i v old c (by simpa [Ledger.pend] using mem)
    · have := fair.finished_below c (by simpa [Ledger.pend] using mem)
      omega
  case overtakes =>
    rintro u i v (old | ⟨rfl, -⟩) x mem
    · exact fair.overtakes u i v old x (by simpa [Ledger.pend] using mem)
    · obtain ⟨d, mem⟩ := mem_finishedOn.mp (by simpa [Ledger.pend] using mem)
      have := fair.finished_below (x, d) (mem_finished.mpr ⟨_, mem⟩)
      simp only at this
      omega
  case pended =>
    intro u i v mem
    simp only [Ledger.pend, mem_append, mem_singleton, Note.pended.injEq,
      finishedOn_pended] at mem ⊢
    rcases mem with old | ⟨rfl, rfl, rfl⟩
    · exact (fair.pended u i v old).imp_right fun ⟨j, at_j, waits⟩ => ⟨j, at_j, .inl waits⟩
    · exact .inr ⟨e, rfl, .inr ⟨rfl, rfl, rfl⟩⟩
  case in_order =>
    simpa [Ledger.pend] using fair.in_order
  case once =>
    simpa [Ledger.pend] using fair.once
  case delivered =>
    simpa [Ledger.pend] using fair.delivered

theorem Fair.finish {t : Ticket} {e : Nat} {w : Bool} (waits : b.waits t e w)
    (d : List UInt8) : (b.finish t e d).Fair := by
  have not_ready : t ∉ b.ready.map Prod.fst := by
    intro mem
    obtain ⟨c, ready, rfl⟩ := mem_map.mp mem
    exact fair.unfinished _ e w waits c (fair.ready_finished c ready) rfl
  have known : ∀ u, (b.finish t e d).Outstanding u → b.Outstanding u := by
    rintro u (⟨i, v, old, -⟩ | ready)
    · exact .inl ⟨i, v, old⟩
    · rw [Ledger.finish, map_append, mem_append] at ready
      rcases ready with old | new
      · exact .inr old
      · obtain rfl : u = t := by simpa using new
        exact .inl ⟨e, w, waits⟩
  constructor
  case sockets =>
    rintro u v i x y ⟨one, -⟩ ⟨two, -⟩
    exact fair.sockets u v i x y one two
  case once_waiting =>
    rintro u i j x y ⟨one, -⟩ ⟨two, -⟩
    exact fair.once_waiting u i j x y one two
  case ids =>
    rintro u v i j x y ⟨one, -⟩ ⟨two, -⟩
    exact fair.ids u v i j x y one two
  case apart =>
    intro u v one two
    exact fair.apart u v (known u one) (known v two)
  case once_ready =>
    rw [Ledger.finish, map_append, nodup_append_comm]
    exact nodup_cons.mpr ⟨not_ready, fair.once_ready⟩
  case below =>
    rintro u i v ⟨old, -⟩
    exact fair.below u i v old
  case finished_below =>
    simp only [Ledger.finish, finished_finished, mem_append, mem_singleton]
    rintro c (old | rfl)
    · exact fair.finished_below c old
    · exact fair.below t e w waits
  case ready_finished =>
    simp only [Ledger.finish, finished_finished, mem_append, mem_singleton]
    exact fun c => .imp_left (fair.ready_finished c)
  case unfinished =>
    simp only [Ledger.finish, finished_finished, mem_append, mem_singleton]
    rintro u i v ⟨old, other⟩ c (mem | rfl) same
    · exact fair.unfinished u i v old c mem same
    · exact other (fair.ids u t i e v w old waits same.symm)
  case overtakes =>
    simp only [Ledger.finish, finishedOn_finished, Option.some.injEq]
    rintro u i v ⟨old, other⟩ x mem
    split at mem
    · next same =>
      subst same
      exact absurd (fair.sockets u t e v w old waits) other
    · exact fair.overtakes u i v old x mem
  case pended =>
    intro u i v mem
    simp only [Ledger.finish, mem_append, mem_singleton, reduceCtorEq, or_false,
      finishedOn_finished] at mem ⊢
    rcases fair.pended u i v mem with done | ⟨j, rfl, old⟩
    · split
      · exact .inl (mem_append_left _ done)
      · exact .inl done
    · by_cases this : u = t
      · subst this
        rw [(fair.once_waiting u j e v w old waits).1]
        exact .inl (by simp)
      · exact .inr ⟨j, rfl, old, this⟩
  case in_order =>
    intro i
    simp only [Ledger.finish, finishedOn_finished]
    split
    · next same =>
      subst same
      rw [pairwise_append]
      refine ⟨fair.in_order _, pairwise_singleton _ _, fun u mem v last => ?_⟩
      rw [mem_singleton.mp last]
      exact fair.overtakes t e w waits u mem
    · exact fair.in_order i
  case once =>
    rw [Ledger.finish, finished_finished, map_append, nodup_append_comm]
    refine nodup_cons.mpr ⟨fun mem => ?_, fair.once⟩
    obtain ⟨c, old, same⟩ := mem_map.mp mem
    exact fair.unfinished t e w waits c old same
  case delivered =>
    simpa [Ledger.finish] using fair.delivered.append_right [named (t, d)]

theorem Fair.answer {t : Ticket} {d : List UInt8}
    {rest : List (Ticket × List UInt8)} (split : b.ready.Perm ((t, d) :: rest)) :
    (b.answer t d rest).Fair := by
  have left : ∀ c ∈ rest, c ∈ b.ready := fun c mem => split.mem_iff.mpr (mem_cons_of_mem _ mem)
  have known : ∀ u, (b.answer t d rest).Outstanding u → b.Outstanding u := by
    refine fun u => .imp_right fun mem => ?_
    obtain ⟨c, at_c, rfl⟩ := mem_map.mp mem
    exact mem_map_of_mem (left c at_c)
  exact
    { fair with
      apart := fun u v one two => fair.apart u v (known u one) (known v two)
      once_ready := (nodup_cons.mp ((split.map Prod.fst).nodup_iff.mp fair.once_ready)).2
      finished_below := by simpa [Ledger.answer] using fair.finished_below
      ready_finished := fun c mem => by
        simpa [Ledger.answer] using fair.ready_finished c (left c mem)
      unfinished := by simpa [Ledger.answer] using fair.unfinished
      overtakes := by simpa [Ledger.answer] using fair.overtakes
      pended := by simpa [Ledger.answer] using fair.pended
      in_order := by simpa [Ledger.answer] using fair.in_order
      once := by simpa [Ledger.answer] using fair.once
      delivered := by
        simp only [Ledger.answer, finished_answered, answered_answered]
        have moved := (split.map named).append_left (answered b.notes)
        rw [map_cons, ← singleton_append, ← append_assoc] at moved
        exact fair.delivered.trans moved }

theorem Fair.immediate {t : Ticket} (fresh : t.id = b.next) {e : Nat}
    (free : ∀ u w, ¬ b.waits u e w) (apart : ∀ u, b.Outstanding u → Apart u t) (d : List UInt8) :
    (b.immediate t e d).Fair := by
  have notes : (b.immediate t e d).notes =
      b.notes ++ [.finished t (some e) d] ++ [.answered t.pid t.user d] := by simp [Ledger.immediate]
  -- as if the read had waited for a moment
  have finished := (fair.pend fresh free apart true).finish (.inr ⟨rfl, rfl, rfl⟩) d
  have order : (b.ready ++ [(t, d)]).Perm ((t, d) :: b.ready) := perm_append_comm
  refine (finished.answer order).of_alike (fun u i w => ?_) rfl rfl ?_ (fun i => ?_) ?_ (fun u i w mem => ?_)
  · have older : b.waits u i w → u ≠ t := by
      rintro waits rfl
      have := fair.below u i w waits
      omega
    simp only [Ledger.immediate, Ledger.answer, Ledger.finish, Ledger.pend]
    tauto
  · simp only [notes, Ledger.answer, Ledger.finish, Ledger.pend, finished_answered,
      finished_finished, finished_pended]
  · simp only [notes, Ledger.answer, Ledger.finish, Ledger.pend, finishedOn_answered,
      finishedOn_finished, finishedOn_pended]
  · simp only [notes, Ledger.answer, Ledger.finish, Ledger.pend, answered_answered,
      answered_finished, answered_pended]
  · simp_all [Ledger.immediate, Ledger.answer, Ledger.finish, Ledger.pend]

end

end Ledger
end Triskelion.PipeIo
