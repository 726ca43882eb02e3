import Triskelion.Lifecycle

/-! Thread ids of clients. An id is given to one client only, and a client that has
introduced itself keeps the id it was given, unless `new_thread` with request descriptor -1
comes upon it when it looks for a connection of the target process. -/

namespace Triskelion.Lifecycle

open RunRules State

def DistinctThreads (s : State) : Prop :=
  ∀ i j c d, s.clients.get? i = some c → s.clients.get? j = some d → c.threadId ≠ 0 →
    c.threadId = d.threadId → i = j

def GivenKept (s : State) : Prop :=
  ∀ i c tid, s.clients.get? i = some c → c.given = some tid → c.threadId = tid

/-- `new_thread` does not replace the thread id of a client that introduced itself. -/
def sparesGiven (s : State) (e : Event) : Bool :=
  answers s e = false ∨
    (retoldClient s e).all fun fd => (s.clients.get? fd).all fun c => c.given.isNone

/-- The thread ids of clients come from the counter, each for one client. -/
structure Numbered (s : State) : Prop where
  allocated : ∀ i c, s.clients.get? i = some c → c.threadId ≠ 0 → Allocated s c.threadId
  distinct : DistinctThreads s

structure Identified (s : State) : Prop extends Numbered s where
  kept : GivenKept s
  given : ∀ i c, s.clients.get? i = some c → c.given ≠ some 0

variable {s : State}

theorem identified_start (desktopTop desktopMsg : UInt32) (windows : Table UInt32 Window) :
    Identified (start desktopTop desktopMsg windows) := by
  refine ⟨⟨?_, ?_⟩, ?_, ?_⟩ <;> intro i <;> intros <;> simp_all [start]

variable {c : Client} {fd : Int} {t : State} {e : Event}

variable {i : Int}

theorem get?_of_insert (clients : t.clients = s.clients.insert fd c) {d : Client}
    (found : t.clients.get? i = some d) : i = fd ∧ d = c ∨ s.clients.get? i = some d := by
  rw [clients] at found
  exact (Table.of_insert found).imp_right And.right

theorem Numbered.of_insert (numbered : Numbered s) (clients : t.clients = s.clients.insert fd c)
    (mono : ∀ id, Allocated s id → Allocated t id)
    (thread : c.threadId = 0 ∨ (∃ old, s.clients.get? fd = some old ∧ c.threadId = old.threadId) ∨
      Fresh s t c.threadId) : Numbered t := by
  -- another client with the thread id of `c`
  have alone : ∀ i d, s.clients.get? i = some d → c.threadId ≠ 0 → d.threadId = c.threadId →
      i = fd := by
    intro i d found some_id same
    rcases thread with none_ | ⟨old, at_fd, eq⟩ | fresh
    · exact absurd none_ some_id
    · exact numbered.distinct i fd d old found at_fd (same ▸ some_id) (same.trans eq)
    · exact absurd (same ▸ numbered.allocated i d found (same ▸ some_id)) fresh.not_allocated
  constructor
  · intro i d found some_id
    rcases get?_of_insert clients found with ⟨rfl, rfl⟩ | before
    · rcases thread with none_ | ⟨old, at_fd, eq⟩ | fresh
      · exact absurd none_ some_id
      · rw [eq] at some_id ⊢
        exact mono _ (numbered.allocated _ old at_fd some_id)
      · exact fresh.allocated
    · exact mono _ (numbered.allocated i d before some_id)
  · intro i j d d' at_i at_j some_id same
    rcases get?_of_insert clients at_i with ⟨rfl, rfl⟩ | before
    · rcases get?_of_insert clients at_j with ⟨rfl, rfl⟩ | before'
      · rfl
      · exact (alone j d' before' some_id same.symm).symm
    · rcases get?_of_insert clients at_j with ⟨rfl, rfl⟩ | before'
      · exact alone i d before (same ▸ some_id) same
      · exact numbered.distinct i j d d' before before' some_id same

theorem Numbered.of_subset (numbered : Numbered s)
    (clients : ∀ i c, t.clients.get? i = some c → s.clients.get? i = some c)
    (mono : ∀ id, Allocated s id → Allocated t id) : Numbered t where
  allocated i c found some_id := mono _ (numbered.allocated i c (clients i c found) some_id)
  distinct i j c d at_i at_j := numbered.distinct i j c d (clients i c at_i) (clients j d at_j)

theorem get?_of_erase (clients : t.clients = s.clients.erase fd)
    (found : t.clients.get? i = some c) : i ≠ fd ∧ s.clients.get? i = some c :=
  Table.of_erase (clients ▸ found)

theorem Numbered.step (numbered : Numbered s) (left : idsLeft s) (e : Event) :
    Numbered (step s e) := by
  have mono : ∀ id, Allocated s id → Allocated (Lifecycle.step s e) id :=
    fun id before => before.step left e
  cases clientChange_step left e with
  | same clients => exact numbered.of_subset (fun i c found => clients ▸ found) mono
  | joined _ _ _ _ clients => exact numbered.of_insert clients mono (.inl rfl)
  | made _ _ _ _ _ minted clients | retold _ _ _ _ _ _ minted clients =>
    exact numbered.of_insert clients mono (.inr (.inr minted.fresh))
  | introduced _ c _ _ found _ thread clients =>
    refine numbered.of_insert clients mono ?_
    rcases thread with ⟨-, same⟩ | ⟨-, minted⟩
    · exact .inr (.inl ⟨c, found, same⟩)
    · exact .inr (.inr minted.fresh)
  | left _ _ clients =>
    exact numbered.of_subset (fun i c found => (get?_of_erase clients found).2) mono

variable {pid tid : UInt32}

section
variable (identified : Identified s)
include identified

theorem Identified.introduced {id : UInt32} (found : s.clients.get? fd = some c)
    (thread : c.threadId ≠ 0 ∧ tid = c.threadId ∨ c.threadId = 0 ∧ Minted s t pid tid)
    (given : c.given.or (some tid) = some id) : tid = id ∧ id ≠ 0 := by
  cases before : c.given with
  | none =>
    rw [before] at given
    cases given
    rcases thread with ⟨some_id, same⟩ | ⟨-, minted⟩
    · exact ⟨rfl, same ▸ some_id⟩
    · exact ⟨rfl, minted.fresh.allocated.ne_zero⟩
  | some =>
    rw [before] at given
    cases given
    have kept := identified.kept fd c id found before
    have some_id : id ≠ 0 := by
      rintro rfl
      exact identified.given fd c found before
    rcases thread with ⟨-, same⟩ | ⟨none_, -⟩
    · exact ⟨same.trans kept, some_id⟩
    · exact absurd (kept.symm.trans none_) some_id

theorem Identified.of_insert (numbered : Numbered t) (clients : t.clients = s.clients.insert fd c)
    (kept : ∀ tid, c.given = some tid → c.threadId = tid ∧ tid ≠ 0) : Identified t := by
  refine ⟨numbered, fun i d tid found given => ?_, fun i d found given => ?_⟩
  · rcases get?_of_insert clients found with ⟨rfl, rfl⟩ | before
    · exact (kept tid given).1
    · exact identified.kept i d tid before given
  · rcases get?_of_insert clients found with ⟨rfl, rfl⟩ | before
    · exact (kept 0 given).2 rfl
    · exact identified.given i d before given

theorem Identified.of_subset (numbered : Numbered t)
    (clients : ∀ i c, t.clients.get? i = some c → s.clients.get? i = some c) : Identified t :=
  ⟨numbered, fun i c tid found => identified.kept i c tid (clients i c found),
    fun i c found => identified.given i c (clients i c found)⟩

theorem Identified.step (left : idsLeft s)
    (spares : sparesGiven s e) : Identified (step s e) := by
  have numbered := identified.toNumbered.step left e
  cases answered : answers s e with
  | false =>
    rw [Lifecycle.step, answered]
    exact identified
  | true =>
    simp only [sparesGiven, answered, Bool.true_eq_false, false_or, decide_eq_true_eq] at spares
    cases clientChange_step left e with
    | same clients => exact identified.of_subset numbered fun i c found => clients ▸ found
    | joined _ _ _ _ clients | made _ _ tid _ _ _ clients =>
      exact identified.of_insert numbered clients fun tid given => by cases given
    | retold _ _ tid told found _ _ clients =>
      refine identified.of_insert numbered clients fun tid given => ?_
      simp only [told, Option.all_some, found, Option.isNone_iff_eq_none] at spares
      cases given.symm.trans spares
    | introduced _ _ _ _ found _ thread clients =>
      exact identified.of_insert numbered clients fun id given =>
        identified.introduced found thread given
    | left _ _ clients =>
      exact identified.of_subset numbered fun i c found => (get?_of_erase clients found).2

end

theorem get?_connectThread {pick : Int} {pipe : Option Int}
    (told : findClient s pid pick = some fd) (found : s.clients.get? fd = some c) :
    (connectThread s pid tid (.ofProcess pick pipe)).clients.get? fd =
      some { c with threadId := tid } := by
  simp [connectThread, told, Table.get?_modify, found]

theorem get?_retold (answered : answers s e) (told : retoldClient s e = some fd)
    (found : s.clients.get? fd = some c) :
    (step s e).clients.get? fd = some { c with threadId := ptid s.nextPtid } := by
  rw [step, if_pos answered]
  cases e with
  | newThread caller req =>
    rcases req with ⟨process, any, pipe, efd⟩
    cases pipe with
    | ofProcess pick pipe =>
      have same := onlyHandles_allocWaitableHandle
        (createThread s (targetPid s caller ⟨process, any, .ofProcess pick pipe, efd⟩)).2
        (clientPid s caller) efd (ptid s.nextPtid).toUInt64
      have clients := same.clients.trans (clients_createThread _ _)
      exact get?_connectThread ((findClient_congr clients _).trans told) (clients ▸ found)
    | _ => cases told
  | _ => cases told

theorem Identified.breaks (identified : Identified s) (left : idsLeft s)
    (wrong : ¬ sparesGiven s e) : ¬ GivenKept (Lifecycle.step s e) := by
  intro kept
  simp only [sparesGiven, decide_eq_true_eq, not_or, Bool.not_eq_false] at wrong
  obtain ⟨answered, wrong⟩ := wrong
  cases told : retoldClient s e with
  | none => simp [told] at wrong
  | some fd =>
    cases found : s.clients.get? fd with
    | none => simp [told, found] at wrong
    | some c =>
      cases given : c.given with
      | none => simp [told, found, given] at wrong
      | some tid =>
        have new := kept fd _ tid (get?_retold answered told found) given
        have old := identified.kept fd c tid found given
        have some_id : c.threadId ≠ 0 := by
          rintro none_
          exact identified.given fd c found (given.trans (congrArg some (old.symm.trans none_)))
        exact (identified.allocated fd c found some_id).ne_next left (old.trans new.symm)

/-- Over any run that leaves the counter some ids: connected clients have different thread
ids and keep the one they were given exactly as long as no `new_thread` for a process comes
upon one of its clients that has introduced itself. -/
theorem threads_identified_iff (desktopTop desktopMsg : UInt32) (windows : Table UInt32 Window)
    (events : List Event) (left : AllSteps step (fun s _ => idsLeft s)
      (start desktopTop desktopMsg windows) events) :
    (∀ t ∈ states step (start desktopTop desktopMsg windows) events,
        DistinctThreads t ∧ GivenKept t) ↔
      AllSteps step (fun s e => sparesGiven s e)
        (start desktopTop desktopMsg windows) events :=
  observed_iff_allSteps Identified (fun s _ => idsLeft s)
    (fun _ identified => ⟨identified.distinct, identified.kept⟩)
    (fun _ _ identified left spares => identified.step left spares)
    (fun _ _ identified left wrong seen => identified.breaks left wrong seen.2)
    (identified_start desktopTop desktopMsg windows) left

def bareStart : State := start 0x10020 0x10022 .empty

/-- A process with two threads, of which the first one leaves. -/
theorem two_threads_identified :
    DistinctThreads (run step bareStart [.accept 5, .initFirstThread 5 true,
        .newThread 5 ⟨0, 0, .inflight (some 6), some 9⟩, .initThread 6 0, .disconnect 5]) ∧
      GivenKept (run step bareStart [.accept 5, .initFirstThread 5 true,
        .newThread 5 ⟨0, 0, .inflight (some 6), some 9⟩, .initThread 6 0, .disconnect 5]) :=
  (threads_identified_iff 0x10020 0x10022 .empty [.accept 5, .initFirstThread 5 true,
      .newThread 5 ⟨0, 0, .inflight (some 6), some 9⟩, .initThread 6 0, .disconnect 5]
    (by decide +kernel)).mpr (by decide +kernel) _ (run_mem_states _ _)

/-- A parent makes a process, which introduces itself as thread 44, and then a second
thread in it. The connection of the first one is given the id of the second. -/
theorem second_thread_renames_first :
    ¬ GivenKept (run step bareStart [.accept 5, .initFirstThread 5 true,
      .newProcess 5 ⟨[], some 6, some 9, some 10⟩, .initFirstThread 6 true,
      .newThread 5 ⟨4, 0, .ofProcess 6 none, some 11⟩]) := by
  intro kept
  have renamed := kept 6 ⟨40, 48, 1, some 44⟩ 44 (by decide +kernel) rfl
  exact absurd renamed (by decide)

end Triskelion.Lifecycle
