import Triskelion.IoThread
import Triskelion.RunRules

/-! Watching pipes for data. epoll keeps a pipe under the number it was added with, until the
last copy of it is closed; the map of the watched numbers is not told when one is closed, and a
number that is in the map is not added to epoll again. -/

namespace Triskelion.PipeMonitoring
open RunRules Table

/-- The numbers of the process with the open files they stand for, and the copies that others
hold. `latest` is not in the code: the event of the last watch of an open number. -/
structure Monitor where
  io : IoThread
  files : Table RawFd Nat
  copies : List Nat
  nextFile : Nat
  polled : List (Nat × RawFd)
  latest : Table RawFd RawFd

def Monitor.start : Monitor := ⟨.new, .empty, [], 0, [], .empty⟩

inductive Turn
  | opens (fd : RawFd)
  /-- `dup`, or a descriptor that is received. -/
  | copied (fd : RawFd) (file : Nat)
  | sends (fd : RawFd)
  | drops (file : Nat)
  | closes (fd : RawFd)
  | watch (pipeFd ntsyncFd : RawFd)
  /-- Any other step of the thread; none of them touches `pipe_watchers`. -/
  | elsewhere (io : IoThread)

section
variable (s : Monitor)

def held (file : Nat) : Bool := file ∈ s.copies ∨ s.files.entries.any fun e => e.2 = file

/-- The kernel drops what nobody holds any more. -/
def settle : Monitor := { s with polled := s.polled.filter fun p => held s p.1 }

def step : Turn → Monitor
  | .opens fd =>
    if s.files.contains fd then s
    else { s with files := s.files.insert fd s.nextFile, nextFile := s.nextFile + 1 }
  | .copied fd file =>
    if s.files.contains fd ∨ held s file = false then s
    else { s with files := s.files.insert fd file }
  | .sends fd => { s with copies := (s.files.get? fd).toList ++ s.copies }
  | .drops file => settle { s with copies := s.copies.erase file }
  | .closes fd => settle { s with files := s.files.erase fd, latest := s.latest.erase fd }
  | .watch pipeFd ntsyncFd =>
    let io := (s.io.executeEffect (.watchPipeFd pipeFd ntsyncFd)).1
    match s.files.get? pipeFd with
    | none => { s with io }
    | some file =>
      { s with
        io
        polled :=
          if s.io.pipeWatchers.contains pipeFd then s.polled else (file, pipeFd) :: s.polled
        latest := s.latest.insert pipeFd ntsyncFd }
  | .elsewhere io => { s with io := { io with pipeWatchers := s.io.pipeWatchers } }

/-- The tables that are looked at before `pipe_watchers`. -/
def inOthers (io : IoThread) (fd : RawFd) : Bool :=
  io.msgFdClients.contains fd || io.ioClients.contains fd || io.queueFdWatchers.contains fd

/-- The events that are set when data arrives on a pipe. -/
def signalled (file : Nat) : List RawFd :=
  s.polled.filterMap fun p =>
    if p.1 = file ∧ inOthers s.io p.2 = false then s.io.pipeWatchers.get? p.2 else none

def Monitored : Prop :=
  ∀ fd file event, s.files.get? fd = some file → s.latest.get? fd = some event →
    event ∈ signalled s file ∧ ∀ other ∈ signalled s file, other = event

/-- The number that is watched is in no other table, it is in the map only if its pipe is polled
under it, and the pipe is polled under no other; no other step puts a watched number into one of
the tables. -/
def clear : Turn → Bool
  | .watch pipeFd _ => (s.files.get? pipeFd).all fun file => !inOthers s.io pipeFd &&
      (!s.io.pipeWatchers.contains pipeFd || (file, pipeFd) ∈ s.polled) &&
      s.polled.all fun p => p.1 ≠ file ∨ p.2 = pipeFd
  | .elsewhere io => s.latest.entries.all fun e => !inOthers io e.1
  | _ => true

def Good : Prop :=
  ∀ fd event, s.latest.get? fd = some event → inOthers s.io fd = false ∧
    s.io.pipeWatchers.get? fd = some event ∧ ∃ file, s.files.get? fd = some file ∧
      (file, fd) ∈ s.polled ∧ ∀ n, (file, n) ∈ s.polled → n = fd

end

variable {s : Monitor} {turn : Turn}

theorem Good.monitored (good : Good s) : Monitored s := by
  intro fd file event open_ found
  obtain ⟨apart, watched, file, at_fd, polled, only⟩ := good fd event found
  obtain rfl := Option.some.inj (at_fd.symm.trans open_)
  refine ⟨List.mem_filterMap.mpr ⟨_, polled, by simp [apart, watched]⟩, fun other mem => ?_⟩
  obtain ⟨⟨f, n⟩, added, sets⟩ := List.mem_filterMap.mp mem
  split_ifs at sets with here
  obtain rfl : f = file := here.1
  rw [only n added, watched] at sets
  exact (Option.some.inj sets).symm

theorem held_of_get? {fd : RawFd} {file : Nat} (found : s.files.get? fd = some file) :
    held s file := by
  simp only [held, decide_eq_true_eq, List.any_eq_true]
  exact .inr ⟨_, (s.files.mem_entries fd file).mpr found, rfl⟩

theorem Good.settle (good : Good s) : Good (settle s) := by
  intro fd event found
  obtain ⟨apart, watched, file, open_, polled, only⟩ := good fd event found
  refine ⟨apart, watched, file, open_, ?_, fun n mem => only n (List.mem_of_mem_filter mem)⟩
  exact List.mem_filter.mpr ⟨polled, held_of_get? open_⟩

theorem Good.gains (good : Good s) {fd : RawFd} (unused : ¬ s.files.contains fd) (file next : Nat) :
    Good { s with files := s.files.insert fd file, nextFile := next } := by
  intro n event found
  obtain ⟨apart, watched, f, open_, rest⟩ := good n event found
  refine ⟨apart, watched, f, ?_, rest⟩
  rw [get?_insert, if_neg]
  · exact open_
  · rintro rfl
    exact unused (contains_of_get? open_)

theorem Good.step (good : Good s) (fine : clear s turn) : Good (step s turn) := by
  cases turn with
  | opens fd =>
    rw [PipeMonitoring.step]
    split
    · exact good
    · next unused => exact good.gains unused _ _
  | copied fd file =>
    rw [PipeMonitoring.step]
    split
    · exact good
    · next unused => exact good.gains (fun there => unused (.inl there)) _ _
  | sends => exact good
  | drops file => exact Good.settle (s := { s with copies := s.copies.erase file }) good
  | closes fd =>
    refine Good.settle fun n event found => ?_
    obtain ⟨other, before⟩ := of_erase found
    obtain ⟨apart, watched, file, open_, rest⟩ := good n event before
    exact ⟨apart, watched, file, (get?_erase ..).trans ((if_neg other).trans open_), rest⟩
  | watch pipeFd ntsyncFd =>
    simp only [clear, PipeMonitoring.step, IoThread.executeEffect] at fine ⊢
    split
    · next closed =>
      intro n event found
      obtain ⟨apart, watched, file, open_, rest⟩ := good n event found
      have other : n ≠ pipeFd := by
        rintro rfl
        cases closed.symm.trans open_
      exact ⟨apart, (get?_insert ..).trans ((if_neg other).trans watched), file, open_, rest⟩
    · next file here =>
      simp only [here, Option.all_some, Bool.and_eq_true, Bool.or_eq_true, Bool.not_eq_true',
        decide_eq_true_eq, List.all_eq_true] at fine
      obtain ⟨⟨apart, known⟩, only⟩ := fine
      intro n event found
      rcases of_insert found with ⟨rfl, rfl⟩ | ⟨other, before⟩
      · refine ⟨apart, (get?_insert ..).trans (if_pos rfl), file, here, ?_, fun m mem => ?_⟩ <;>
          grind
      · obtain ⟨apart, watched, f, open_, polled, alone⟩ := good n event before
        have apart_files : f ≠ file := by
          rintro rfl
          exact other ((only _ polled).resolve_left (not_not_intro rfl))
        refine ⟨apart, (get?_insert ..).trans ((if_neg other).trans watched), f, open_, ?_,
          fun m mem => ?_⟩ <;> grind
  | elsewhere io =>
    intro n event found
    obtain ⟨-, rest⟩ := good n event found
    have apart : inOthers io n = false := by
      simpa using (all_entries_iff _).mp fine n event found
    exact ⟨apart, rest⟩

/-- The latest event of an open pipe is the one that is set, as long as no number is reused
that the thread has kept and no pipe is watched under two numbers. -/
theorem pipes_monitored_of_clear (turns : List Turn)
    (fine : AllSteps step (fun s turn => clear s turn) .start turns) :
    ∀ s ∈ states step .start turns, Monitored s := by
  intro s reached
  have start : Good .start := fun fd event found => by cases found
  exact (good_of_allSteps (fun _ _ => Good.step) start fine s reached).monitored

/-- The number 7 is that of two pipes in turn, and the first one lives on under 8. -/
def twoPipes : List Turn :=
  [.opens 7, .sends 7, .copied 8 0, .watch 8 20, .closes 7, .opens 7, .watch 7 21, .drops 0,
    .watch 7 22]

theorem two_pipes_monitored :
    let s := run step .start twoPipes
    Monitored s ∧ [7, 8].map s.latest.get? = [some 22, some 20] :=
  ⟨pipes_monitored_of_clear twoPipes (by decide +kernel) _ (run_mem_states _ _), rfl⟩

/-- The second pipe under number 7 is not added to epoll; and a pipe that was watched as 7 and
is watched as 8 after that was closed sets the event of both. -/
theorem reused_number_unheard :
    ¬ Monitored (run step .start [.opens 7, .watch 7 20, .closes 7, .opens 7, .watch 7 21]) ∧
    ¬ Monitored (run step .start [.opens 7, .copied 8 0, .watch 7 20, .closes 7, .watch 8 21]) := by
  refine ⟨fun monitored => ?_, fun monitored => ?_⟩
  · exact absurd (monitored 7 1 21 rfl rfl).1 (by decide)
  · exact absurd (monitored 8 0 21 rfl rfl).2 (by decide)

end Triskelion.PipeMonitoring
