import Mathlib.Algebra.Group.Int.Defs
import Mathlib.Algebra.Group.Nat.Defs
import Triskelion.RunRules
import Triskelion.SelectViews

/-! Suspension of threads (`thread.rs`, `sync.rs`). A thread that is to stop parks itself in
a select without an operation; the one that resumes it writes to its wait descriptor. The
thread is woken by the first resume, whatever its count is then. -/

namespace Triskelion.Suspension

open RunRules Select Table Option

/-- The base has the clients with their cookies and the count of each thread. `parked` is not
in the code: the clients whose thread was left in a suspension select and not woken since. -/
structure SuspendState where
  base : State
  threadHandleTids : Table UInt32 UInt32
  parked : List Int

/-- Sixteen bytes on a wait descriptor. -/
structure Wake where
  clientFd : Int
  waitFd : Int
  cookie : UInt64
deriving DecidableEq

structure Outcome where
  count : Option Int
  wake : Option Wake
deriving DecidableEq

section
variable (s : State) (tid : UInt32)

def countOf : Int := (s.suspendCounts.get? tid).getD 0

/-! ### The handlers -/

def resumeTarget (s : State) (clientFd : Int) (handle : UInt32) : Option UInt32 :=
  (handleEntry s (clientPid s clientFd) handle).map fun entry => entry.objectId.toUInt32

def suspendTarget (s : SuspendState) (clientFd : Int) (handle : UInt32) : Option UInt32 :=
  (resumeTarget s.base clientFd handle).or (s.threadHandleTids.get? handle)

def cookieClient : Option (Int × Select.Client) :=
  s.clients.entries.find? fun e => e.2.threadId = tid ∧ e.2.suspendCookie ≠ 0

def wakeFor : Option Wake :=
  (cookieClient s tid).bind fun e =>
    let waitFd := e.2.waitFd.getD (-1)
    if waitFd < 0 then none else some ⟨e.1, waitFd, e.2.suspendCookie⟩

end

section
variable (s : SuspendState) (clientFd : Int) (handle : UInt32)

def handleResumeThread : Outcome × SuspendState :=
  match resumeTarget s.base clientFd handle with
  | none => (⟨some 0, none⟩, s)
  | some tid =>
    -- woken by the cookie alone: the count that is left is not looked at
    let wake := wakeFor s.base tid
    (⟨some (countOf s.base tid), wake⟩, { s with
      base := (resumeThread s.base clientFd handle).1
      parked := s.parked.filter fun fd => wake.map Wake.clientFd ≠ some fd })

/-- The count is an `i32`. -/
def handleSuspendThread : Outcome × SuspendState :=
  match suspendTarget s clientFd handle with
  | none => (⟨some 0, none⟩, s)
  | some tid =>
    (⟨some (countOf s.base tid), none⟩, { s with base := { s.base with
      suspendCounts := s.base.suspendCounts.modify tid fun n => Int.bmod (n + 1) (2 ^ 32) } })

end

def parks (s : State) (clientFd : Int) (req : SelectRequest) : Bool :=
  (popApc s clientFd).isNone && suspends s clientFd req && s.clients.contains clientFd

section
variable (s : SuspendState)

def handleSelect (clientFd : Int) (req : SelectRequest) (k : SelectKernel) :
    Outcome × SuspendState :=
  (⟨none, none⟩, { s with
    base := (Select.handleSelect s.base clientFd req k).2.1
    parked := if parks s.base clientFd req then clientFd :: s.parked else s.parked })

def createThread (tid : UInt32) (suspended : Bool) : SuspendState :=
  { s with base := { s.base with
    suspendCounts := s.base.suspendCounts.insert tid (if suspended then 1 else 0) } }

def connectClient (clientFd : Int) (pid tid : UInt32) (waitFd : Option Int) : SuspendState :=
  { s with base := Select.connectClient s.base clientFd pid tid waitFd }

end

inductive SuspendEvent
  | createThread (tid : UInt32) (suspended : Bool)
  | connectClient (clientFd : Int) (pid tid : UInt32) (waitFd : Option Int)
  | suspendThread (clientFd : Int) (handle : UInt32)
  | resumeThread (clientFd : Int) (handle : UInt32)
  | select (clientFd : Int) (req : SelectRequest) (kernel : SelectKernel)

section
variable (s : SuspendState)

def act : SuspendEvent → Outcome × SuspendState
  | .createThread tid suspended => (⟨none, none⟩, createThread s tid suspended)
  | .connectClient clientFd pid tid waitFd =>
    (⟨none, none⟩, connectClient s clientFd pid tid waitFd)
  | .suspendThread clientFd handle => handleSuspendThread s clientFd handle
  | .resumeThread clientFd handle => handleResumeThread s clientFd handle
  | .select clientFd req kernel => handleSelect s clientFd req kernel

def step (event : SuspendEvent) : SuspendState := (act s event).2

/-- The handles and the objects may be any. -/
def start (processes : Table UInt32 Process) (ntsyncObjects : Table (UInt32 × UInt32) UInt32)
    (threadHandleTids : Table UInt32 UInt32) : SuspendState :=
  ⟨.start processes ntsyncObjects, threadHandleTids, []⟩

/-! ### The count and the wake-ups -/

def targetOf : SuspendEvent → Option UInt32
  | .suspendThread clientFd handle => suspendTarget s clientFd handle
  | .resumeThread clientFd handle => resumeTarget s.base clientFd handle
  | _ => none

structure Counted (s : SuspendState) (event : SuspendEvent) : Prop where
  woken : ∀ fd ∈ s.parked, ∀ c, s.base.clients.get? fd = some c →
    ((act s event).1.wake.map Wake.clientFd = some fd ↔
      countOf s.base c.threadId = 1 ∧ countOf (step s event).base c.threadId = 0)
  meant : ∀ wake, (act s event).1.wake = some wake → wake.clientFd ∈ s.parked ∧
    (s.base.clients.get? wake.clientFd).map Select.Client.suspendCookie = some wake.cookie
  reported : ∀ tid, targetOf s event = some tid → (act s event).1.count = some (countOf s.base tid)
  natural : ∀ tid, 0 ≤ countOf (step s event).base tid

/-- Thread ids are new and have one client, counts stay in range, a suspension has a cookie
and a descriptor for its end, and a parked thread is resumed at count one. -/
def careful : SuspendEvent → Bool
  | .createThread tid _ => tid ≠ 0 && !s.base.suspendCounts.contains tid
  | .connectClient _ _ tid _ => tid = 0 || s.base.clients.entries.all fun e => e.2.threadId ≠ tid
  | .suspendThread clientFd handle =>
    (suspendTarget s clientFd handle).all fun tid => countOf s.base tid < 2 ^ 31 - 1
  | .resumeThread clientFd handle =>
    (resumeTarget s.base clientFd handle).all fun tid =>
      (cookieClient s.base tid).isNone || countOf s.base tid = 1
  | .select clientFd req _ =>
    !parks s.base clientFd req ||
      req.cookie ≠ 0 && (s.base.clients.get? clientFd).all fun c => 0 ≤ c.waitFd.getD (-1)

end

structure Tidy (s : SuspendState) : Prop where
  counts : ∀ tid n, s.base.suspendCounts.get? tid = some n → tid ≠ 0 ∧ 0 ≤ n ∧ n < 2 ^ 31
  single : ∀ fd fd' c c', s.base.clients.get? fd = some c → s.base.clients.get? fd' = some c' →
    c.threadId ≠ 0 → c.threadId = c'.threadId → fd = fd'
  parked : ∀ fd ∈ s.parked, ∃ c, s.base.clients.get? fd = some c ∧ c.suspendCookie ≠ 0 ∧
    0 ≤ c.waitFd.getD (-1) ∧ 0 < countOf s.base c.threadId
  awake : ∀ fd c, s.base.clients.get? fd = some c → fd ∉ s.parked → c.suspendCookie = 0

/-! ### What the handlers change -/

section Changes
variable {s : State} {clientFd : Int} {handle tid : UInt32}

def threadView (s : State) : Table Int Select.Client × Table UInt32 Int :=
  (s.clients, s.suspendCounts)

variable {req : SelectRequest}

theorem threadView_handleSelect
    (k : SelectKernel) : threadView (Select.handleSelect s clientFd req k).2.1 =
      (if parks s clientFd req then
        s.clients.modify clientFd fun c => { c with suspendCookie := req.cookie }
      else s.clients, s.suspendCounts) := by
  obtain ⟨_, _, _, _, _, -, out⟩ := handleSelect_cases s clientFd req k
  split at out
  · next stops =>
    rw [out.2]
    by_cases there : s.clients.contains clientFd
    · rw [if_pos (by simp [parks, stops, there])]
      rfl
    · have absent : s.clients.get? clientFd = none := by simpa [Table.contains] using there
      rw [if_neg (by simp [parks, there])]
      simp only [threadView, Table.modify, absent]
  · next goesOn =>
    rw [if_neg (by simp only [parks, Bool.and_eq_true]; exact fun h => goesOn h.1)]
    rcases out with ⟨-, same⟩ | ⟨-, set, deferred⟩
    · rw [same]
      rfl
    · rw [deferred]
      obtain ⟨_, _, _, ⟨-, timer⟩ | ⟨_, _, -, -, -, worker⟩⟩ := defer_cases _ clientFd req set k
      · rw [timer]
        rfl
      · rw [worker]
        rfl

theorem stopped_of_parks (stops : parks s clientFd req) :
    ∃ c, s.clients.get? clientFd = some c ∧ 0 < countOf s c.threadId := by
  simp only [parks, Bool.and_eq_true, contains_iff] at stops
  obtain ⟨⟨-, suspended⟩, c, found⟩ := stops
  have own : (clientThreadId s clientFd).getD 0 = c.threadId := by
    by_cases zero : c.threadId = 0 <;> simp [clientThreadId, found, Option.filter, zero]
  simp only [suspends, own, decide_eq_true_eq] at suspended
  exact ⟨c, found, suspended.2.2⟩

theorem threadView_resumeThread (target : resumeTarget s clientFd handle = some tid) :
    threadView (resumeThread s clientFd handle).1 = ((wakeFor s tid).elim s.clients fun wake =>
        s.clients.modify wake.clientFd fun c => { c with suspendCookie := 0 },
        s.suspendCounts.modify tid fun n => if 0 < n then n - 1 else n) := by
  obtain ⟨entry, found, rfl⟩ := map_eq_some_iff.mp target
  unfold resumeThread
  rw [found]
  dsimp only
  cases parked : cookieClient s entry.objectId.toUInt32 with
  | none =>
    have first := parked
    unfold cookieClient at first
    rw [first]
    simp [wakeFor, parked, threadView]
  | some e =>
    have first := parked
    unfold cookieClient at first
    rw [first]
    by_cases deaf : e.2.waitFd.getD (-1) < 0 <;> simp [wakeFor, parked, deaf, threadView]

def recookied (clients : Table Int Select.Client) (fd : Int) (cookie : UInt64) :
    Table Int Select.Client :=
  clients.modify fd fun c => { c with suspendCookie := cookie }

variable {clients : Table Int Select.Client} {cookie : UInt64}

theorem get?_recookied {fd j : Int}
    {c : Select.Client} (found : (recookied clients fd cookie).get? j = some c) :
    ∃ before, clients.get? j = some before ∧ c.threadId = before.threadId ∧
      c.waitFd = before.waitFd ∧
      c.suspendCookie = if j = fd then cookie else before.suspendCookie := by
  rcases of_modify found with ⟨rfl, before, at_fd, rfl⟩ | ⟨other, before⟩
  · exact ⟨before, at_fd, rfl, rfl, (if_pos rfl).symm⟩
  · exact ⟨c, before, rfl, rfl, (if_neg other).symm⟩

theorem get?_recookied_of {j : Int} {before : Select.Client}
    (found : clients.get? j = some before) (fd : Int) :
    ∃ c, (recookied clients fd cookie).get? j = some c ∧ c.threadId = before.threadId ∧
      c.waitFd = before.waitFd ∧
      c.suspendCookie = if j = fd then cookie else before.suspendCookie := by
  rw [recookied, get?_modify]
  split_ifs with here
  · subst here
    rw [found]
    exact ⟨_, rfl, rfl, rfl, rfl⟩
  · exact ⟨before, found, rfl, rfl, rfl⟩

end Changes

/-! ### Steps -/

section Steps
variable {s : SuspendState} {clientFd : Int} {handle tid : UInt32}

theorem Tidy.natural (tidy : Tidy s) (tid : UInt32) : 0 ≤ countOf s.base tid := by
  unfold countOf
  cases found : s.base.suspendCounts.get? tid with
  | none => exact Int.le_refl 0
  | some n => exact (tidy.counts tid n found).2.1

theorem Tidy.nonzero (tidy : Tidy s) (positive : 0 < countOf s.base tid) : tid ≠ 0 := by
  unfold countOf at positive
  cases found : s.base.suspendCounts.get? tid with
  | none => simp [found] at positive
  | some n => exact (tidy.counts tid n found).1

def Keeps (s t : SuspendState) : Prop :=
  ∀ fd ∈ s.parked, ∀ c, s.base.clients.get? fd = some c →
    0 < countOf s.base c.threadId → 0 < countOf t.base c.threadId

variable {event : SuspendEvent}

theorem Tidy.silent (tidy : Tidy s) (after : Tidy (step s event))
    (silent : (act s event).1.wake = none) (keeps : Keeps s (step s event))
    (reported : ∀ tid, targetOf s event = some tid →
      (act s event).1.count = some (countOf s.base tid)) : Counted s event where
  woken fd parked c found := by
    obtain ⟨c', found', -, -, positive⟩ := tidy.parked fd parked
    cases found.symm.trans found'
    have kept := keeps fd parked c found positive
    rw [silent]
    constructor
    · intro woken
      cases woken
    · omega
  meant wake sent := by
    rw [silent] at sent
    cases sent
  reported := reported
  natural := after.natural

theorem Tidy.of_clients {t : SuspendState} (tidy : Tidy s)
    (counts : ∀ tid n, t.base.suspendCounts.get? tid = some n → tid ≠ 0 ∧ 0 ≤ n ∧ n < 2 ^ 31)
    (keeps : Keeps s t) (clients : t.base.clients = s.base.clients) (parked : t.parked = s.parked) :
    Tidy t := by
  refine ⟨counts, ?_, ?_, ?_⟩
  · rw [clients]
    exact tidy.single
  · rw [clients, parked]
    intro fd mem
    obtain ⟨c, found, cookie, descriptor, positive⟩ := tidy.parked fd mem
    exact ⟨c, found, cookie, descriptor, keeps fd mem c found positive⟩
  · rw [clients, parked]
    exact tidy.awake

theorem Tidy.idle (tidy : Tidy s)
    (same : act s event = (⟨some 0, none⟩, s)) (target : targetOf s event = none) :
    Tidy (step s event) ∧ Counted s event := by
  have stays : step s event = s := by rw [step, same]
  have after : Tidy (step s event) := by
    rw [stays]
    exact tidy
  refine ⟨after, tidy.silent after ?_ ?_ fun tid found => ?_⟩
  · rw [same]
  · rw [stays]
    exact fun _ _ _ _ positive => positive
  · cases target.symm.trans found

theorem Tidy.createThread {suspended : Bool} (tidy : Tidy s)
    (new : careful s (.createThread tid suspended)) :
    Tidy (createThread s tid suspended) ∧ Counted s (.createThread tid suspended) := by
  obtain ⟨nonzero, fresh⟩ : tid ≠ 0 ∧ s.base.suspendCounts.get? tid = none := by
    simpa [careful, contains] using new
  have keeps : Keeps s (Suspension.createThread s tid suspended) := by
    intro fd _ c _ positive
    have apart : c.threadId ≠ tid := by
      intro same
      simp [countOf, same, fresh] at positive
    simpa [countOf, Suspension.createThread, get?_insert, apart] using positive
  have after : Tidy (Suspension.createThread s tid suspended) := by
    refine tidy.of_clients (forall_insert tidy.counts ?_) keeps rfl rfl
    cases suspended <;> exact ⟨nonzero, by decide⟩
  exact ⟨after, tidy.silent after rfl keeps (by simp [targetOf])⟩

theorem bmod_succ {n : Int} (natural : 0 ≤ n) (fits : n < 2 ^ 31 - 1) :
    Int.bmod (n + 1) (2 ^ 32) = n + 1 := by
  rw [Int.bmod_eq_of_le] <;> omega

theorem Tidy.suspendThread (tidy : Tidy s)
    (fits : careful s (.suspendThread clientFd handle)) :
    Tidy (step s (.suspendThread clientFd handle)) ∧ Counted s (.suspendThread clientFd handle) := by
  cases target : suspendTarget s clientFd handle with
  | none =>
    refine tidy.idle ?_ target
    rw [act, handleSuspendThread, target]
  | some tid =>
    have room : countOf s.base tid < 2 ^ 31 - 1 := by simpa [careful, target] using fits
    have done : act s (.suspendThread clientFd handle) = (⟨some (countOf s.base tid), none⟩,
        { s with base := { s.base with
          suspendCounts := s.base.suspendCounts.modify tid fun n => Int.bmod (n + 1) (2 ^ 32) } }) := by
      rw [act, handleSuspendThread, target]
    have keeps : Keeps s (step s (.suspendThread clientFd handle)) := by
      intro fd _ c _ positive
      rw [step, done, countOf, get?_modify]
      split_ifs with same
      · subst same
        cases found : s.base.suspendCounts.get? c.threadId with
        | none => simp [countOf, found] at positive
        | some =>
          simp only [countOf, found, getD_some] at positive room
          rw [map_some, getD_some, bmod_succ (by omega) room]
          omega
      · exact positive
    have after : Tidy (step s (.suspendThread clientFd handle)) := by
      rw [step, done] at keeps ⊢
      refine tidy.of_clients (fun t n found => ?_) keeps rfl rfl
      rcases of_modify found with ⟨rfl, m, before, rfl⟩ | ⟨-, before⟩
      · obtain ⟨nonzero, natural, -⟩ := tidy.counts t m before
        simp only [countOf, before, getD_some] at room
        rw [bmod_succ natural room]
        exact ⟨nonzero, by omega, by omega⟩
      · exact tidy.counts t n before
    refine ⟨after, tidy.silent after ?_ keeps fun t found => ?_⟩
    · rw [done]
    · rw [done]
      cases target.symm.trans found
      rfl

theorem Tidy.connectClient {pid : UInt32} {waitFd : Option Int} (tidy : Tidy s)
    (new : careful s (.connectClient clientFd pid tid waitFd)) :
    Tidy (connectClient s clientFd pid tid waitFd) ∧
      Counted s (.connectClient clientFd pid tid waitFd) := by
  have after : Tidy (Suspension.connectClient s clientFd pid tid waitFd) := by
    unfold Suspension.connectClient Select.connectClient
    by_cases known : s.base.clients.contains clientFd
    · rw [if_pos known]
      exact tidy
    · rw [if_neg known]
      have absent : s.base.clients.get? clientFd = none := by simpa [contains] using known
      have alone : tid ≠ 0 → ∀ fd c, s.base.clients.get? fd = some c → c.threadId ≠ tid := by
        intro nonzero fd c found
        simp only [careful, nonzero, decide_false, Bool.false_or, List.all_eq_true] at new
        simpa using new (fd, c) ((mem_entries _ _ _).mpr found)
      refine ⟨tidy.counts, fun fd fd' c c' at_fd at_fd' nonzero same => ?_, fun fd mem => ?_,
        fun fd c at_fd unparked => ?_⟩
      · rcases of_insert at_fd with ⟨rfl, rfl⟩ | ⟨-, old⟩ <;>
          rcases of_insert at_fd' with ⟨rfl, rfl⟩ | ⟨-, old'⟩
        · rfl
        · exact absurd same.symm (alone nonzero fd' c' old')
        · exact absurd same (alone (fun zero => nonzero (same.trans zero)) fd c old)
        · exact tidy.single fd fd' c c' old old' nonzero same
      · obtain ⟨c, found, rest⟩ := tidy.parked fd mem
        have apart : fd ≠ clientFd := by
          rintro rfl
          cases found.symm.trans absent
        refine ⟨c, ?_, rest⟩
        rw [get?_insert, if_neg apart]
        exact found
      · rcases of_insert at_fd with ⟨-, rfl⟩ | ⟨-, old⟩
        · rfl
        · exact tidy.awake fd c old unparked
  refine ⟨after, tidy.silent after rfl (fun fd _ c _ positive => ?_) (by simp [targetOf])⟩
  have counts : (step s (.connectClient clientFd pid tid waitFd)).base.suspendCounts =
      s.base.suspendCounts := by
    change (Select.connectClient s.base clientFd pid tid waitFd).suspendCounts = _
    unfold Select.connectClient
    split <;> rfl
  rw [countOf, counts]
  exact positive

theorem Tidy.recookied {t : SuspendState} (tidy : Tidy s) {cookie : UInt64}
    (clients : t.base.clients = recookied s.base.clients clientFd cookie)
    (counts : ∀ tid n, t.base.suspendCounts.get? tid = some n → tid ≠ 0 ∧ 0 ≤ n ∧ n < 2 ^ 31)
    (parked : ∀ fd ∈ t.parked, ∃ c, s.base.clients.get? fd = some c ∧
      (if fd = clientFd then cookie else c.suspendCookie) ≠ 0 ∧
      0 ≤ c.waitFd.getD (-1) ∧ 0 < countOf t.base c.threadId)
    (awake : ∀ fd c, s.base.clients.get? fd = some c → fd ∉ t.parked →
      (if fd = clientFd then cookie else c.suspendCookie) = 0) : Tidy t := by
  refine ⟨counts, fun fd fd' c c' at_fd at_fd' nonzero same => ?_, fun fd mem => ?_,
    fun fd c at_fd unparked => ?_⟩
  · rw [clients] at at_fd at_fd'
    obtain ⟨before, found, tid, -⟩ := get?_recookied at_fd
    obtain ⟨before', found', tid', -⟩ := get?_recookied at_fd'
    rw [tid] at nonzero same
    exact tidy.single fd fd' before before' found found' nonzero (same.trans tid')
  · obtain ⟨before, found, nonzero, descriptor, positive⟩ := parked fd mem
    obtain ⟨c, at_fd, tid, wait, now⟩ := get?_recookied_of found clientFd
    rw [clients]
    exact ⟨c, at_fd, now ▸ nonzero, wait ▸ descriptor, tid ▸ positive⟩
  · rw [clients] at at_fd
    obtain ⟨before, found, -, -, now⟩ := get?_recookied at_fd
    rw [now]
    exact awake fd before found unparked

theorem Tidy.select {req : SelectRequest} {k : SelectKernel} (tidy : Tidy s)
    (fits : careful s (.select clientFd req k)) :
    Tidy (handleSelect s clientFd req k).2 ∧ Counted s (.select clientFd req k) := by
  obtain ⟨clients, counts⟩ := Prod.mk.inj (threadView_handleSelect k)
  have same : ∀ t, countOf (handleSelect s clientFd req k).2.base t = countOf s.base t := by
    intro t
    change ((Select.handleSelect s.base clientFd req k).2.1.suspendCounts.get? t).getD 0 = _
    rw [counts]
    rfl
  have range : ∀ tid n, (handleSelect s clientFd req k).2.base.suspendCounts.get? tid = some n →
      tid ≠ 0 ∧ 0 ≤ n ∧ n < 2 ^ 31 := by
    change ∀ tid n, (Select.handleSelect s.base clientFd req k).2.1.suspendCounts.get? tid = some n → _
    rw [counts]
    exact tidy.counts
  have keeps : Keeps s (handleSelect s clientFd req k).2 := by
    intro fd _ c _ positive
    rw [same]
    exact positive
  have after : Tidy (handleSelect s clientFd req k).2 := by
    by_cases stops : parks s.base clientFd req
    · obtain ⟨cookie, descriptor⟩ : req.cookie ≠ 0 ∧
          ∀ c, s.base.clients.get? clientFd = some c → 0 ≤ c.waitFd.getD (-1) := by
        simpa [careful, stops, all_eq_true] using fits
      have parked : (handleSelect s clientFd req k).2.parked = clientFd :: s.parked := if_pos stops
      refine tidy.recookied (clients.trans (if_pos stops)) range (fun fd mem => ?_)
        fun fd c found unparked => ?_
      · rw [parked] at mem
        by_cases here : fd = clientFd
        · subst here
          obtain ⟨c, found, stopped⟩ := stopped_of_parks stops
          refine ⟨c, found, ?_, descriptor c found, (same _).symm ▸ stopped⟩
          rw [if_pos rfl]
          exact cookie
        · obtain ⟨c, found, nonzero, wait, positive⟩ :=
            tidy.parked fd ((List.mem_cons.mp mem).resolve_left here)
          refine ⟨c, found, ?_, wait, (same _).symm ▸ positive⟩
          rw [if_neg here]
          exact nonzero
      · rw [parked, List.mem_cons, not_or] at unparked
        rw [if_neg unparked.1]
        exact tidy.awake fd c found unparked.2
    · exact tidy.of_clients range keeps (clients.trans (if_neg stops)) (if_neg stops)
  exact ⟨after, tidy.silent after rfl keeps (by simp [targetOf])⟩

theorem Tidy.cookieClient_some (tidy : Tidy s) {fd : Int} {c : Select.Client}
    (first : cookieClient s.base tid = some (fd, c)) :
    fd ∈ s.parked ∧ s.base.clients.get? fd = some c ∧ c.threadId = tid ∧
      wakeFor s.base tid = some ⟨fd, c.waitFd.getD (-1), c.suspendCookie⟩ := by
  have found := (mem_entries _ _ _).mp (List.mem_of_find?_eq_some first)
  obtain ⟨same, cookie⟩ : c.threadId = tid ∧ c.suspendCookie ≠ 0 := by
    simpa using List.find?_some first
  have parked : fd ∈ s.parked := by
    by_contra unparked
    exact cookie (tidy.awake fd c found unparked)
  obtain ⟨c', found', -, descriptor, -⟩ := tidy.parked fd parked
  cases found.symm.trans found'
  refine ⟨parked, found, same, ?_⟩
  simp [wakeFor, first, Int.not_lt.mpr descriptor]

theorem Tidy.cookieClient_none (tidy : Tidy s) (none : cookieClient s.base tid = none) :
    ∀ fd ∈ s.parked, ∀ c, s.base.clients.get? fd = some c → c.threadId ≠ tid := by
  intro fd parked c found same
  obtain ⟨c', found', cookie, -⟩ := tidy.parked fd parked
  cases found.symm.trans found'
  have absent := List.find?_eq_none.mp none (fd, c) ((mem_entries _ _ _).mpr found)
  simp [same, cookie] at absent

/-- What a resume that finds its thread leaves: the count is one less, and the client that is
woken is parked no more. -/
structure Resumed (s t : SuspendState) (tid : UInt32) : Prop where
  clients : t.base.clients = (wakeFor s.base tid).elim s.base.clients fun wake =>
    recookied s.base.clients wake.clientFd 0
  counts : t.base.suspendCounts =
    s.base.suspendCounts.modify tid fun n => if 0 < n then n - 1 else n
  parked : t.parked = s.parked.filter fun fd => (wakeFor s.base tid).map Wake.clientFd ≠ some fd

theorem act_resumeThread (target : resumeTarget s.base clientFd handle = some tid) :
    (act s (.resumeThread clientFd handle)).1 = ⟨some (countOf s.base tid), wakeFor s.base tid⟩ ∧
      Resumed s (step s (.resumeThread clientFd handle)) tid := by
  obtain ⟨clients, counts⟩ := Prod.mk.inj (threadView_resumeThread target)
  rw [step, act, handleResumeThread, target]
  exact ⟨rfl, clients, counts, rfl⟩

section Resumed
variable {t : SuspendState}

section
variable (resumed : Resumed s t tid)
include resumed

theorem Resumed.countOf_ne {other : UInt32} (apart : other ≠ tid) :
    countOf t.base other = countOf s.base other := by
  rw [countOf, resumed.counts, get?_modify, if_neg apart]
  rfl

theorem Resumed.countOf_zero (one : countOf s.base tid = 1) : countOf t.base tid = 0 := by
  rw [countOf] at one ⊢
  rw [resumed.counts, get?_modify]
  cases before : s.base.suspendCounts.get? tid with
  | none => simp [before] at one
  | some =>
    rw [before, getD_some] at one
    simp [one]

theorem Resumed.range (tidy : Tidy s) :
    ∀ i n, t.base.suspendCounts.get? i = some n → i ≠ 0 ∧ 0 ≤ n ∧ n < 2 ^ 31 := by
  intro i n found
  rw [resumed.counts] at found
  rcases of_modify found with ⟨rfl, m, before, rfl⟩ | ⟨-, before⟩
  · obtain ⟨nonzero, natural, fits⟩ := tidy.counts i m before
    refine ⟨nonzero, ?_, ?_⟩ <;> split_ifs <;> omega
  · exact tidy.counts i n before

section
variable (tidy : Tidy s) (first : cookieClient s.base tid = none)
include tidy first

theorem Resumed.keeps : Keeps s t := by
  intro fd parked c found positive
  rw [resumed.countOf_ne (tidy.cookieClient_none first fd parked c found)]
  exact positive

theorem Resumed.tidy_of_none : Tidy t := by
  have deaf : wakeFor s.base tid = none := by simp [wakeFor, first]
  have clients := resumed.clients
  have parked := resumed.parked
  rw [deaf] at clients parked
  exact tidy.of_clients (resumed.range tidy) (resumed.keeps tidy first) clients
    (parked.trans (by simp))

end

end

variable {fd : Int} {c : Select.Client}

variable {c' : Select.Client}

theorem Tidy.apart_of_cookie (tidy : Tidy s) (first : cookieClient s.base tid = some (fd, c))
    (some_tid : tid ≠ 0) {fd' : Int} (differs : fd' ≠ fd)
    (found' : s.base.clients.get? fd' = some c') : c'.threadId ≠ tid := by
  obtain ⟨-, found, same, -⟩ := tidy.cookieClient_some first
  intro same'
  exact differs (tidy.single fd' fd c' c found' found (same' ▸ some_tid) (same'.trans same.symm))

section
variable (resumed : Resumed s t tid) (tidy : Tidy s)
  (first : cookieClient s.base tid = some (fd, c))
include resumed tidy first

theorem Resumed.tidy_of_some (some_tid : tid ≠ 0) : Tidy t := by
  obtain ⟨-, -, -, wake⟩ := tidy.cookieClient_some first
  have clients := resumed.clients
  have parked := resumed.parked
  rw [wake] at clients parked
  refine tidy.recookied clients (resumed.range tidy) (fun fd' mem => ?_)
    fun fd' c' found' unparked => ?_
  · obtain ⟨still, differs⟩ : fd' ∈ s.parked ∧ fd ≠ fd' := by simpa [parked] using mem
    obtain ⟨c', found', cookie, descriptor, positive⟩ := tidy.parked fd' still
    refine ⟨c', found', ?_, descriptor, ?_⟩
    · rw [if_neg (Ne.symm differs)]
      exact cookie
    · rw [resumed.countOf_ne (tidy.apart_of_cookie first some_tid (Ne.symm differs) found')]
      exact positive
  · split_ifs with here
    · rfl
    · refine tidy.awake fd' c' found' fun still => unparked ?_
      simpa [parked, still] using Ne.symm here

theorem Resumed.woken_iff (one : countOf s.base tid = 1) {fd' : Int}
    (found' : s.base.clients.get? fd' = some c') :
    (wakeFor s.base tid).map Wake.clientFd = some fd' ↔
      countOf s.base c'.threadId = 1 ∧ countOf t.base c'.threadId = 0 := by
  obtain ⟨-, found, same, wake⟩ := tidy.cookieClient_some first
  rw [wake, map_some, Option.some.injEq]
  by_cases here : fd' = fd
  · subst here
    cases found.symm.trans found'
    simp [same, one, resumed.countOf_zero one]
  · have some_tid := tidy.nonzero (one ▸ Int.one_pos : 0 < countOf s.base tid)
    rw [resumed.countOf_ne (tidy.apart_of_cookie first some_tid here found')]
    constructor
    · intro woken
      exact absurd woken.symm here
    · omega

end

end Resumed

theorem Tidy.resumeThread (tidy : Tidy s)
    (once : careful s (.resumeThread clientFd handle)) :
    Tidy (step s (.resumeThread clientFd handle)) ∧ Counted s (.resumeThread clientFd handle) := by
  cases target : resumeTarget s.base clientFd handle with
  | none =>
    refine tidy.idle ?_ target
    rw [act, handleResumeThread, target]
  | some tid =>
    obtain ⟨answer, resumed⟩ := act_resumeThread target
    have reported : ∀ t, targetOf s (.resumeThread clientFd handle) = some t →
        (act s (.resumeThread clientFd handle)).1.count = some (countOf s.base t) := by
      intro t found
      rw [answer]
      cases target.symm.trans found
      rfl
    cases first : cookieClient s.base tid with
    | none =>
      -- the thread has not parked yet, and will find the count when it does
      have after := resumed.tidy_of_none tidy first
      refine ⟨after, tidy.silent after ?_ (resumed.keeps tidy first) reported⟩
      rw [answer]
      simp [wakeFor, first]
    | some e =>
      obtain ⟨parked, found, -, wake⟩ := tidy.cookieClient_some first
      have one : countOf s.base tid = 1 := by simpa [careful, target, first] using once
      have some_tid := tidy.nonzero (one ▸ Int.one_pos : 0 < countOf s.base tid)
      have after := resumed.tidy_of_some tidy first some_tid
      refine ⟨after, ⟨fun fd' _ c' found' => ?_, fun sent told => ?_, reported, after.natural⟩⟩
      · rw [answer]
        exact resumed.woken_iff tidy first one found'
      · rw [answer, wake] at told
        cases told
        exact ⟨parked, by rw [found]; rfl⟩

end Steps

theorem tidy_step (s : SuspendState) (event : SuspendEvent) (tidy : Tidy s)
    (fits : careful s event) : Tidy (step s event) ∧ Counted s event := by
  cases event with
  | createThread => exact tidy.createThread fits
  | connectClient => exact tidy.connectClient fits
  | suspendThread => exact tidy.suspendThread fits
  | resumeThread => exact tidy.resumeThread fits
  | select => exact tidy.select fits

/-- As long as no parked thread is suspended once more, its wake-up is the resume that takes
its count from one to zero. -/
theorem counted_of_careful (processes : Table UInt32 Process)
    (ntsyncObjects : Table (UInt32 × UInt32) UInt32) (threadHandleTids : Table UInt32 UInt32)
    (events : List SuspendEvent) (all : AllSteps step (fun s event => careful s event)
      (start processes ntsyncObjects threadHandleTids) events) :
    AllSteps step Counted (start processes ntsyncObjects threadHandleTids) events :=
  allSteps_of_invariant (fun s event tidy fits => (tidy_step s event tidy fits).1)
    (fun s event tidy fits => (tidy_step s event tidy fits).2)
    ⟨nofun, nofun, nofun, nofun⟩ all

def oneProcess : Table UInt32 Process :=
  empty.insert 8 ⟨(HandleTable.new.allocate 40).2, [], false⟩

def contextSelect (cookie : UInt64) : SelectRequest := ⟨0, 0, 0, cookie, List.replicate 41 0⟩

def idleKernel : SelectKernel := ⟨fun _ => true, .timedOut, true, true, 0, 0, 0, 0⟩

/-- Thread 40 is suspended and parks, and one resume wakes it. -/
theorem counted_one_suspension : AllSteps step Counted (start oneProcess .empty .empty)
      [.createThread 36 false, .createThread 40 true, .connectClient 5 8 36 (some 6),
        .connectClient 7 8 40 (some 9), .select 7 (contextSelect 1) idleKernel, .resumeThread 5 4,
        .suspendThread 5 4, .select 7 (contextSelect 2) idleKernel, .resumeThread 5 4] :=
  counted_of_careful oneProcess .empty .empty _ (by decide +kernel)

/-- A thread that is suspended twice and parked is woken by the first resume. -/
theorem woken_while_suspended : ¬ AllSteps step Counted (start oneProcess .empty .empty)
      [.createThread 36 false, .createThread 40 true, .connectClient 5 8 36 (some 6),
        .connectClient 7 8 40 (some 9), .select 7 (contextSelect 1) idleKernel, .suspendThread 5 4,
        .resumeThread 5 4] := by
  rintro ⟨-, -, -, -, -, -, counted, -⟩
  obtain ⟨one, -⟩ := (counted.woken 7 (by decide +kernel) ⟨8, 40, some 9, 1, 1⟩
    (by decide +kernel)).mp (by decide +kernel)
  revert one
  decide +kernel

end Triskelion.Suspension
