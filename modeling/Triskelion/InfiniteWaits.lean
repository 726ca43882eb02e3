import Triskelion.RunRules
import Triskelion.SelectViews

/-! Selects without an end. One that goes to a worker thread ends when the kernel says so;
one that is left to the timer is given a day, and one whose worker fails is told that its
time is up. -/

namespace Triskelion.Select

open RunRules List Table Note

def endless : Int64 := Int64.maxValue

def Note.fine : Note → Bool
  | .replied timeout error => !(timeout = endless ∧ error = statusTimeout)
  | .woke status asked => !(status = statusTimeout ∧ asked = some endless)
  | _ => true

def maxWaitCount : UInt32 := 64

def IoctlResult.inRange : IoctlResult → Bool
  | .ok index => index ≤ maxWaitCount
  | _ => true

/-- The kernel names one of the objects, and ends a blocking wait by a timeout only where
there is a deadline. -/
def lawful (s : State) : Event → Bool
  | .select _ _ k => k.poll.inRange
  | .finishWorker i result =>
    result.inRange && (s.workers[i]?).all fun w => result ≠ .timedOut || w.timeoutNs ≠ maxNs
  | _ => true

def unclaimed (s : State) (clientFd : Int) (cookie : UInt64) : Bool :=
  s.pendingWaits.all (fun w => ¬ (w.clientFd = clientFd ∧ w.cookie = cookie)) &&
    (s.clients.get? clientFd).all fun c =>
      s.workers.all fun w => ¬ (w.connection = c.connection ∧ w.cookie = cookie) ||
        w.timeoutNs = maxNs

/-- There are handles to wait for, and each has an object or can be given one. -/
def waitable (s : State) (clientFd : Int) (req : SelectRequest) (k : SelectKernel) : Bool :=
  s.ntsync && 8 ≤ req.size && 44 ≤ req.vararg.length &&
    (le32 req.vararg 40 = 1 || le32 req.vararg 40 = 2) &&
    (List.range ((req.size.toNat - 4) / 4)).all fun i => (handleAt req.vararg i).any fun h =>
      s.ntsyncObjects.contains (clientPid s clientFd, h) || k.created i

/-- An endless select finds an APC or objects of which one is signaled; or it has a cookie
of its own, and its thread is suspended or a worker can wait for its objects. No worker
fails that waits for one. -/
def patient (s : State) : Event → Bool
  | .select clientFd req k =>
    let waits := waitable s clientFd req k
    req.timeout ≠ endless || (s.pendingKernelApcs.get? clientFd).any (· ≠ []) ||
      waits && (k.poll matches .ok _) ||
      unclaimed s clientFd req.cookie && (suspends s clientFd req ||
        waits && k.copied && (s.clients.get? clientFd).any fun c => c.waitFd.isSome)
  | .finishWorker i result =>
    (s.workers[i]?).all fun w =>
      result ≠ .failed || s.asked.get? (w.connection, w.cookie) ≠ some endless
  | _ => true

variable {s : State} {clientFd : Int}

/-! ### The invariant -/

/-- `asked` knows the connections so far; an endless select is neither left to the timer
nor with a worker that has a deadline. -/
structure WaitView.Endless (v : WaitView) : Prop where
  known : ∀ fd c, v.clients.get? fd = some c → c.connection < v.nextConnection
  apart : ∀ d e a b, v.clients.get? d = some a → v.clients.get? e = some b →
    a.connection = b.connection → d = e
  asked_known : ∀ n cookie t, v.asked.get? (n, cookie) = some t → n < v.nextConnection
  timers : ∀ w ∈ v.pendingWaits, ∀ c, v.clients.get? w.clientFd = some c →
    v.asked.get? (c.connection, w.cookie) ≠ some endless
  workers : ∀ w ∈ v.workers, v.asked.get? (w.connection, w.cookie) = some endless →
    w.timeoutNs = maxNs
  busy : ∀ w ∈ v.workers, w.objects ≠ 0

variable {v : WaitView}

variable {after : WaitView} {c : Client} {k : SelectKernel} {req : SelectRequest}
  {result : IoctlResult}

namespace WaitView.Endless

variable {waits : List PendingWait}

theorem mem_pushWait {w x : PendingWait} : x ∈ pushWait w waits ↔ x = w ∨ x ∈ waits := by
  induction waits with
  | nil => simp [pushWait]
  | cons y rest ih =>
    rw [pushWait]
    split
    · simp
    · simp [ih, or_left_comm]

theorem pushWait_ne (w : PendingWait) : pushWait w waits ≠ waits := by
  induction waits with
  | nil => simp [pushWait]
  | cons y rest ih =>
    rw [pushWait]
    split
    · simp
    · simpa using ih

variable (ok : v.Endless)
include ok

section
variable (clientFd : Int)

theorem connect (new : c.connection = v.nextConnection) : Endless { v with
      clients := v.clients.insert clientFd c, nextConnection := v.nextConnection + 1 } where
  __ := ok
  known fd b found := by
    rcases of_insert found with ⟨-, rfl⟩ | ⟨-, before⟩
    · exact new ▸ Nat.lt_succ_self _
    · exact Nat.lt_succ_of_lt (ok.known fd b before)
  apart d e a b at_d at_e same := by
    rcases of_insert at_d with ⟨rfl, rfl⟩ | ⟨-, old_d⟩ <;>
      rcases of_insert at_e with ⟨rfl, rfl⟩ | ⟨-, old_e⟩
    · rfl
    · have := ok.known e b old_e
      omega
    · have := ok.known d a old_d
      omega
    · exact ok.apart d e a b old_d old_e same
  asked_known n cookie t found := Nat.lt_succ_of_lt (ok.asked_known n cookie t found)
  timers w mem b found := by
    rcases of_insert found with ⟨-, rfl⟩ | ⟨-, before⟩
    · intro asked
      have := ok.asked_known _ _ _ asked
      omega
    · exact ok.timers w mem b before

theorem disconnect : Endless { v with clients := v.clients.erase clientFd } where
  __ := ok
  known fd c found := ok.known fd c (of_erase found).2
  apart d e a b at_d at_e := ok.apart d e a b (of_erase at_d).2 (of_erase at_e).2
  timers w mem c found := ok.timers w mem c (of_erase found).2

theorem modify {f : Client → Client} (same : ∀ c, (f c).connection = c.connection) :
    Endless { v with clients := v.clients.modify clientFd f } := by
  have was : ∀ fd c, (v.clients.modify clientFd f).get? fd = some c →
      ∃ b, v.clients.get? fd = some b ∧ c.connection = b.connection := by
    intro fd c found
    rcases of_modify found with ⟨rfl, b, at_b, rfl⟩ | ⟨-, before⟩
    · exact ⟨b, at_b, same b⟩
    · exact ⟨c, before, rfl⟩
  refine ⟨?_, ?_, ok.asked_known, ?_, ok.workers, ok.busy⟩
  · intro fd c found
    obtain ⟨b, at_b, equal⟩ := was fd c found
    exact equal ▸ ok.known fd b at_b
  · intro d e a b at_d at_e equal
    obtain ⟨a', at_a', same_a⟩ := was d a at_d
    obtain ⟨b', at_b', same_b⟩ := was e b at_e
    exact ok.apart d e a' b' at_a' at_b' (by rw [← same_a, ← same_b, equal])
  · intro w mem c found
    obtain ⟨b, at_b, equal⟩ := was _ c found
    exact equal ▸ ok.timers w mem b at_b

end

theorem ask_known {clientFd : Int} (client : v.clients.get? clientFd = some c)
    {cookie : UInt64} {t : Int64} (n : Nat) (k : UInt64) (u : Int64)
    (found : (v.asked.insert (c.connection, cookie) t).get? (n, k) = some u) :
    n < v.nextConnection := by
  rcases of_insert found with ⟨same, -⟩ | ⟨-, before⟩
  · exact (Prod.mk.inj same).1 ▸ ok.known clientFd c client
  · exact ok.asked_known n k u before

theorem askFinite {clientFd : Int} (client : v.clients.get? clientFd = some c)
    (cookie : UInt64) {t : Int64} (finite : t ≠ endless) :
    Endless { v with asked := v.asked.insert (c.connection, cookie) t } where
  __ := ok
  asked_known := ok.ask_known client
  timers w mem b found := by
    simp only [get?_insert]
    split
    · simpa using finite
    · exact ok.timers w mem b found
  workers w mem := by
    simp only [get?_insert]
    split
    · simpa using fun equal => absurd equal finite
    · exact ok.workers w mem

theorem askEndless {clientFd : Int} (client : v.clients.get? clientFd = some c)
    (cookie : UInt64) (timers : ∀ w ∈ v.pendingWaits, ¬ (w.clientFd = clientFd ∧ w.cookie = cookie))
    (workers : ∀ w ∈ v.workers, w.connection = c.connection → w.cookie = cookie →
      w.timeoutNs = maxNs) :
    Endless { v with asked := v.asked.insert (c.connection, cookie) endless } where
  __ := ok
  asked_known := ok.ask_known client
  timers w mem b found := by
    simp only [get?_insert]
    split
    · next same =>
      obtain ⟨connection, cookie⟩ := Prod.mk.inj same
      exact absurd ⟨ok.apart _ _ b c found client connection, cookie⟩ (timers w mem)
    · exact ok.timers w mem b found
  workers w mem := by
    simp only [get?_insert]
    split
    · next same => exact fun _ => workers w mem (Prod.mk.inj same).1 (Prod.mk.inj same).2
    · exact ok.workers w mem

theorem left {clientFd : Int} (left : v.Left clientFd req k after)
    (fit : ∀ c, v.clients.get? clientFd = some c →
      v.asked.get? (c.connection, req.cookie) = some endless →
      computeNtsyncTimeout req.timeout k.mono k.real = maxNs ∧ after.pendingWaits = v.pendingWaits) :
    after.Endless := by
  cases left with
  | suspended => exact ok.modify clientFd fun _ => rfl
  | timer =>
    refine { ok with timers := fun w mem c found asked => ?_ }
    rcases mem_pushWait.mp mem with rfl | old
    · exact pushWait_ne _ (fit c found asked).2
    · exact ok.timers w old c found asked
  | @worker c w client connection cookie timeout busy =>
    refine { ok with workers := fun x mem asked => ?_, busy := fun x mem => ?_ }
    · rcases mem_append.mp mem with old | new
      · exact ok.workers x old asked
      · obtain rfl := mem_singleton.mp new
        rw [connection, cookie] at asked
        exact timeout.trans (fit c client asked).1
    · rcases mem_append.mp mem with old | new
      · exact ok.busy x old
      · exact mem_singleton.mp new ▸ busy

end WaitView.Endless

theorem WaitView.Left.ask (left : v.Left clientFd req k after) (asked : Table (Nat × UInt64) Int64) :
    WaitView.Left { v with asked } clientFd req k { after with asked } := by
  cases left with
  | suspended => exact .suspended
  | timer deadline => exact .timer deadline
  | worker client connection cookie timeout busy => exact .worker client connection cookie timeout busy

/-! ### One request -/

theorem ok_of_signaled {n : Nat} {alert : Bool} {index : UInt32}
    (signaled : doWaitInner n alert result = .signaled index) : result = .ok index := by
  unfold doWaitInner at signaled
  split at signaled
  · cases signaled
  · cases result with
    | ok =>
      simp only at signaled
      split at signaled
      · cases signaled
      · rw [WaitResult.signaled.inj signaled]
    | _ => cases signaled

theorem signaled_fine {n : Nat} {alert : Bool} {index : UInt32} (lawful : result.inRange)
    (signaled : doWaitInner n alert result = .signaled index) : index ≠ statusTimeout := by
  rintro rfl
  rw [ok_of_signaled signaled] at lawful
  revert lawful
  decide

theorem immediate_fine {poll : IoctlResult} (lawful : poll.inRange) {set : WaitSet}
    {status : UInt32} (ended : immediate endless set poll = some status) : status ≠ statusTimeout := by
  have late : ¬ endless = 0 := by decide
  simp only [immediate, late, if_false] at ended
  split at ended
  · cases ended
  · split at ended
    · next signaled =>
      obtain rfl := Option.some.inj ended
      exact signaled_fine lawful signaled
    · cases ended

theorem pending_fine : pending.error ≠ statusTimeout := by decide

theorem reply_fine (lawful : k.poll.inRange) (forever : req.timeout = endless) :
    (handleSelect s clientFd req k).1.error ≠ statusTimeout := by
  unfold handleSelect
  split
  · simp only [deliverApc]
    split <;> decide
  · split
    · exact pending_fine
    · unfold waitFor
      dsimp only
      split
      · next status ended => exact immediate_fine lawful (forever ▸ ended)
      · exact pending_fine

theorem handleSelect_notes : ∀ note ∈ (handleSelect s clientFd req k).2.2, note.fine := by
  intro note mem
  unfold handleSelect at mem
  split at mem
  · simp only [deliverApc, mem_singleton] at mem
    rw [mem]
    rfl
  · have said : note ∈ (acknowledge s clientFd req.prevApc).2 := by
      split at mem <;> exact mem
    unfold acknowledge at said
    split at said
    · cases said
    · obtain ⟨e, -, rfl⟩ := mem_map.mp said
      rfl

theorem select_notes (lawful : k.poll.inRange) :
    ∀ note ∈ (select s clientFd req k).2, note.fine := by
  simp only [select, mem_append, mem_singleton]
  rintro note ((acked | said) | rfl)
  · obtain ⟨d, -, rfl⟩ := mem_map.mp acked
    rfl
  · exact handleSelect_notes note said
  · by_cases forever : req.timeout = endless
    · simp [fine, reply_fine lawful forever]
    · simp [fine, forever]

theorem endless_ask (ok : (view s).Endless) (client : s.clients.get? clientFd = some c)
    (left : (view s).Left clientFd req k after) (care : req.timeout = endless →
      unclaimed s clientFd req.cookie ∧ after.pendingWaits = s.pendingWaits) :
    WaitView.Endless { after with
      asked := s.asked.insert (c.connection, req.cookie) req.timeout } := by
  have same : ∀ b, s.clients.get? clientFd = some b → b = c := fun b found =>
    Option.some.inj (found.symm.trans client)
  by_cases forever : req.timeout = endless
  · obtain ⟨free, off_timer⟩ := care forever
    simp only [unclaimed, client, Option.all_some, Bool.and_eq_true, all_eq_true,
      decide_eq_true_eq, Bool.or_eq_true] at free
    have asks := ok.askEndless client req.cookie free.1 fun w mem connection cookie =>
      (free.2 w mem).resolve_left (not_not_intro ⟨connection, cookie⟩)
    rw [forever]
    refine asks.left (left.ask _) fun b found _ => ⟨?_, off_timer⟩
    rw [forever]
    rfl
  · refine (ok.askFinite client req.cookie forever).left (left.ask _) fun b found asked => ?_
    obtain rfl := same b found
    simp only [get?_insert, if_true] at asked
    exact absurd (Option.some.inj asked) forever

section
variable {pid : UInt32} {vararg : List UInt8} {created : Nat → Bool}

theorem collectObjects_all {indices : List Nat} (found : List UInt32) (all : ∀ i ∈ indices,
      ∃ h, handleAt vararg i = some h ∧ (s.ntsyncObjects.contains (pid, h) ∨ created i)) :
    (collectObjects pid vararg created indices s found).2.2 ∧
      (collectObjects pid vararg created indices s found).2.1.length =
        found.length + indices.length := by
  induction indices generalizing s found with
  | nil => exact ⟨rfl, rfl⟩
  | cons i rest ih =>
    obtain ⟨h, at_i, ready⟩ := all i mem_cons_self
    have later := fun j mem => all j (mem_cons_of_mem i mem)
    simp only [collectObjects, at_i]
    split_ifs with there
    · have := ih (found ++ [h]) later
      grind
    · have := ih (s := { s with ntsyncObjects := s.ntsyncObjects.insert (pid, h) 2 })
        (found ++ [h]) fun j mem => by grind [Table.contains_insert]
      grind
    · simp_all

end

theorem objects_of_waitable (fit : waitable s clientFd req k) :
    (waitObjects s clientFd req k).2.objects ≠ [] := by
  simp only [waitable, Bool.and_eq_true, decide_eq_true_eq, Bool.or_eq_true, all_eq_true,
    Option.any_eq_true] at fit
  obtain ⟨⟨⟨⟨ntsync, size⟩, long⟩, opcode⟩, all⟩ := fit
  have size_four : (4 : UInt32) ≤ req.size := by grind
  obtain ⟨ended, count⟩ := collectObjects_all (s := s) [] all
  simp only [waitObjects, ntsync, size_four, long, opcode, and_self, if_true, ended]
  rw [← length_pos_iff, count, length_range]
  rw [UInt32.le_iff_toNat_le] at size
  have : (8 : UInt32).toNat = 8 := rfl
  omega

theorem defer_busy {set : WaitSet} (objects : set.objects ≠ [])
    (client : s.clients.get? clientFd = some c) (there : c.waitFd.isSome ∧ k.copied) :
    (defer s clientFd req set k).pendingWaits = s.pendingWaits := by
  obtain ⟨_, _, _, ⟨idle, -⟩ | ⟨_, _, -, -, -, worker⟩⟩ := defer_cases s clientFd req set k
  · exact absurd (idle c client there) objects
  · rw [worker]

theorem off_timer (care : patient s (.select clientFd req k)) (forever : req.timeout = endless)
    (left_it : (handleSelect s clientFd req k).1 = pending) : unclaimed s clientFd req.cookie ∧
      (handleSelect s clientFd req k).2.1.pendingWaits = s.pendingWaits := by
  obtain ⟨deferred, processes, acked⟩ := acknowledge_eq s clientFd req.prevApc
  simp only [patient, forever, Bool.or_eq_true, Bool.and_eq_true, ne_eq, not_true_eq_false,
    decide_false, Bool.false_eq_true, false_or] at care
  unfold handleSelect at left_it ⊢
  cases queued : popApc s clientFd with
  | some => simp [queued, deliverApc, pending] at left_it
  | none =>
    have no_apc : ¬ (s.pendingKernelApcs.get? clientFd).any (· ≠ []) := by
      intro some_apc
      obtain ⟨apcs, found, nonempty⟩ := (Option.any_eq_true _ _).mp some_apc
      simp_all [popApc]
    simp only [queued, acked] at left_it ⊢
    split at left_it
    · next stops =>
      have never : ¬ waitable s clientFd req k := by
        simp only [suspends, waitable] at stops ⊢
        grind
      simp_all
    · next goes_on =>
      have waits : waitable { s with deferredEventSignals := deferred, processes } clientFd req k := by
        change waitable s clientFd req k
        grind
      have objects := objects_of_waitable waits
      obtain ⟨_, -, found⟩ := waitObjects_eq { s with deferredEventSignals := deferred, processes }
        clientFd req k
      rw [if_neg goes_on]
      simp only [waitFor, found] at left_it ⊢
      split at left_it
      · simp [pending] at left_it
      · next ended =>
        have silent : ¬ (k.poll matches .ok _) := by
          intro polled
          cases result : k.poll <;> simp_all [immediate, doWaitInner]
        obtain ⟨free, copied, there⟩ : unclaimed s clientFd req.cookie ∧ k.copied ∧
            (s.clients.get? clientFd).any fun c => c.waitFd.isSome := by grind
        obtain ⟨c, client, there⟩ := (Option.any_eq_true _ _).mp there
        exact ⟨free, defer_busy objects client ⟨there, copied⟩⟩

theorem endless_select (ok : (view s).Endless) (care : patient s (.select clientFd req k)) :
    (view (select s clientFd req k).1).Endless := by
  change WaitView.Endless { view (handleSelect s clientFd req k).2.1 with
    asked := askedAfter s clientFd req (handleSelect s clientFd req k).1 }
  rcases view_handleSelect s clientFd req k with ⟨answered, same⟩ | ⟨left_it, left⟩
  · have asked : askedAfter s clientFd req (handleSelect s clientFd req k).1 = s.asked := by
      unfold askedAfter
      split <;> simp [answered]
    rw [same, asked]
    exact ok
  · cases client : s.clients.get? clientFd with
    | none =>
      simp only [askedAfter, client]
      exact ok.left (left.ask _) fun c found => by simp [view, client] at found
    | some =>
      rw [askedAfter, client, left_it]
      refine endless_ask ok client left fun forever => ?_
      exact off_timer care forever left_it

variable {waits : List PendingWait}

theorem checkWaits_subset (now : Nat) : (checkWaits s now waits).1 ⊆ waits := by
  induction waits with
  | nil => simp [checkWaits]
  | cons w rest ih =>
    rw [checkWaits]
    split
    · exact fun x mem => mem_cons_of_mem _ (ih mem)
    · split
      · exact fun x mem => mem_cons_of_mem _ (ih mem)
      · exact fun x mem => mem

theorem checkWaits_fine (now : Nat) (free : ∀ w ∈ waits, ∀ c, s.clients.get? w.clientFd = some c →
      s.asked.get? (c.connection, w.cookie) ≠ some endless) :
    ∀ note ∈ (checkWaits s now waits).2, note.fine := by
  induction waits with
  | nil => simp [checkWaits]
  | cons w rest ih =>
    have later := ih fun x mem => free x (mem_cons_of_mem _ mem)
    rw [checkWaits]
    split
    · exact later
    · split
      · simp only [mem_append]
        rintro note (sent | mem)
        · unfold sendWakeUp at sent
          split at sent
          · next c found =>
            split at sent
            · rw [mem_singleton.mp sent]
              simpa [wakeUp, fine] using free w mem_cons_self c found
            · cases sent
          · cases sent
        · exact later note mem
      · simp

theorem worker_fine {w : Worker} (lawful : result.inRange) (busy : w.objects ≠ 0)
    (in_time : result ≠ .timedOut) (working : result ≠ .failed) :
    workerStatus (doWaitInner w.objects true result) ≠ statusTimeout := by
  cases result with
  | ok index =>
    cases ended : doWaitInner w.objects true (.ok index) with
    | signaled => exact signaled_fine lawful ended
    | alerted => decide
    | timeout | error =>
      simp only [doWaitInner, busy, if_false] at ended
      split at ended <;> cases ended
  | timedOut => exact absurd rfl in_time
  | canceled =>
    simp only [doWaitInner, busy, if_false]
    decide
  | failed => exact absurd rfl working

theorem finishWorker_fine (ok : (view s).Endless) {i : Nat}
    (law : lawful s (.finishWorker i result))
    (care : patient s (.finishWorker i result)) : (view (finishWorker s i result).1).Endless ∧
      ∀ note ∈ (finishWorker s i result).2, note.fine := by
  unfold finishWorker
  cases at_i : s.workers[i]? with
  | none => exact ⟨ok, by simp⟩
  | some w =>
    have mem := mem_of_getElem? at_i
    have sub : s.workers.eraseIdx i ⊆ (view s).workers := eraseIdx_subset ..
    refine ⟨{ ok with
      workers := fun w mem => ok.workers w (sub mem)
      busy := fun w mem => ok.busy w (sub mem) }, ?_⟩
    simp only [mem_singleton, forall_eq, wakeUp, fine, Bool.not_eq_true',
      decide_eq_false_iff_not, not_and]
    intro timed_out asked
    have max := ok.workers w mem asked
    simp only [lawful, at_i, Option.all_some, Bool.and_eq_true, Bool.or_eq_true,
      decide_eq_true_eq] at law
    simp only [patient, at_i, Option.all_some, Bool.or_eq_true, decide_eq_true_eq] at care
    exact worker_fine law.1 (ok.busy w mem) (law.2.resolve_right (not_not_intro max))
      (care.resolve_right (not_not_intro asked)) timed_out

theorem resumeThread_fine (ok : (view s).Endless) (handle : UInt32) :
    (view (resumeThread s clientFd handle).1).Endless ∧
      ∀ note ∈ (resumeThread s clientFd handle).2, note.fine := by
  unfold resumeThread
  split
  · exact ⟨ok, by simp⟩
  · dsimp only
    split
    · exact ⟨ok, by simp⟩
    · split
      · exact ⟨ok, by simp⟩
      · refine ⟨ok.modify _ fun _ => rfl, ?_⟩
        simp [wakeUp, fine, statusKernelApc, statusTimeout]

theorem tryConnectNamedPipe_fine (name : Str) (access options : UInt32) (copy : Option Int) :
    ∀ note ∈ (tryConnectNamedPipe s clientFd name access options copy).2.2, note.fine := by
  rcases tryConnectNamedPipe_cases s clientFd name access options copy with
    same | ⟨instances, info, fd, -, -, done⟩
  · simp [same]
  · simp only [done, tellListener]
    split
    · simp [queueApc, fine]
    · simp

structure FineSoFar (o : Observed) : Prop where
  endless : (view o.state).Endless
  fine : ∀ note ∈ o.notes, note.fine

section
variable (lower : Str → Str)

theorem act_fine (ok : (view s).Endless) {event : Event}
    (law : lawful s event) (care : patient s event) :
    (view (act lower s event).1).Endless ∧ ∀ note ∈ (act lower s event).2, note.fine := by
  cases event with
  | connectClient fd =>
    refine ⟨?_, by simp [act]⟩
    simp only [act, connectClient]
    split
    · exact ok
    · exact ok.connect fd rfl
  | disconnectClient fd =>
    refine ⟨?_, by simp [act]⟩
    simp only [act, view_disconnectClient]
    exact ok.disconnect fd
  | createNamedPipe | pipeListen | pipeDisconnect | pipeWait =>
    refine ⟨?_, by simp [act]⟩
    simpa only [act, view_createNamedPipe, view_pipeListen, view_pipeDisconnect, view_pipeWait]
      using ok
  | connectPipe fd name access options copy =>
    refine ⟨?_, tryConnectNamedPipe_fine name access options copy⟩
    simpa only [act, view_tryConnectNamedPipe] using ok
  | select fd => exact ⟨endless_select ok care, select_notes law⟩
  | resumeThread fd handle => exact resumeThread_fine ok handle
  | finishWorker => exact finishWorker_fine ok law care
  | tick now =>
    exact ⟨{ ok with timers := fun w mem => ok.timers w (checkWaits_subset now mem) },
      checkWaits_fine now ok.timers⟩

structure Fresh (s : State) : Prop where
  clients : s.clients = .empty
  pendingWaits : s.pendingWaits = []
  workers : s.workers = []
  asked : s.asked = .empty

theorem Fresh.endless (fresh : Fresh s) : (view s).Endless := by
  constructor <;> simp [view, fresh.clients, fresh.pendingWaits, fresh.workers, fresh.asked]

theorem fineSoFar_step (o : Observed) (event : Event) (so_far : FineSoFar o)
    (fit : lawful o.state event ∧ patient o.state event) : FineSoFar (step lower o event) := by
  obtain ⟨endless, fine⟩ := act_fine lower so_far.endless fit.1 fit.2
  refine ⟨endless, fun note mem => ?_⟩
  rcases mem_append.mp mem with old | new
  · exact so_far.fine note old
  · exact fine note new

theorem endless_never_timed_out (start : State) (fresh : Fresh start) (events : List Event)
    (law : AllSteps (step lower) (fun o event => lawful o.state event) ⟨start, []⟩ events)
    (care : AllSteps (step lower) (fun o event => patient o.state event) ⟨start, []⟩ events) :
    ∀ note ∈ (run (step lower) ⟨start, []⟩ events).notes, note.fine := by
  have begun : FineSoFar ⟨start, []⟩ := ⟨fresh.endless, by simp⟩
  exact (good_run (fineSoFar_step lower) begun (law.and care)).fine

end

def oneObject : State :=
  .start (Table.empty.insert 32 ⟨HandleTable.new, [], true⟩) (Table.empty.insert (32, 4) 2)

def calm : SelectKernel := ⟨fun _ => true, .timedOut, true, true, 0, 0, 0, 0⟩

def waitForFour : SelectRequest :=
  ⟨0, endless, 8, 0x7F00, List.replicate 40 0 ++ [1, 0, 0, 0, 4, 0, 0, 0]⟩

theorem endless_wait_signaled :
    (run (step id) ⟨oneObject, []⟩ [.connectClient 7 32 36 (some 9), .select 7 waitForFour calm,
      .tick (86400 * 1000000000), .finishWorker 0 (.ok 0)]).notes.all fine :=
  all_eq_true.mpr
    (endless_never_timed_out id oneObject ⟨rfl, rfl, rfl, rfl⟩ _ (by decide +kernel) (by decide +kernel))

/-- A sleep without objects and without an end is over after a day. -/
theorem endless_sleep_timed_out : ¬ ∀ note ∈ (run (step id) ⟨oneObject, []⟩
        [.connectClient 7 32 36 (some 9), .select 7 ⟨0, endless, 0, 0x7F00, []⟩ calm,
          .tick (86400 * 1000000000)]).notes, note.fine := by
  decide +kernel

end Triskelion.Select
