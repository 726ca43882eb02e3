import Triskelion.RunRules
import Triskelion.SelectViews
import Triskelion.CompletionPorts

/-! The books of the completion messages: what was posted has been returned, is queued, is
cached for a thread, or was lost. A message is lost where it is in the cache and another
one is put in its place, or where its thread disconnects. -/

namespace Triskelion.CompletionPorts

open RunRules List Table Select Option Delivered

section
variable (s : State)

def queued : List Posted := s.completionQueues.entries.flatMap Prod.snd

def cached : List Posted :=
  s.threadCompletionCache.entries.map fun e => e.2.message

/-- No message is lost or there twice, and what is cached is for a thread that lives. -/
structure Conserved (s : State) : Prop where
  messages : s.posted.Perm (s.returned.map message ++ queued s ++ cached s)
  live : ∀ e ∈ s.threadCompletionCache.entries, s.base.clients.contains e.1

/-! ### What is lost -/

def cachedFor (cache : Table Int Delivered) (clientFd : Int) : List Posted :=
  ((cache.get? clientFd).map message).toList

def displaced (p : Posted) : List Posted :=
  (waitersOf s p.handle).getLast?.elim [] fun w => cachedFor s.threadCompletionCache w.clientFd

def spilled : List CompletionWaiter → List Posted → Table Int Delivered → List Posted
  | w :: more, p :: queue, cache =>
    cachedFor cache w.clientFd ++ spilled more queue (cache.insert w.clientFd ⟨p, w.port⟩)
  | _, _, _ => []

def exitLost (pid : UInt32) : List Posted :=
  (s.processJob.get? pid).elim [] fun oid =>
    match exitNews s oid pid with
    | [] => []
    | p :: more => spilled (waitersOf s p.handle).reverse (queueOf s p.handle ++ p :: more)
        s.threadCompletionCache

def lost : Event → List Posted
  | .addCompletion clientFd handle msg => displaced s ⟨msg, handle, portOf s clientFd handle⟩
  | .assignJob clientFd job process =>
    match assignment s clientFd job process with
    | .error _ => []
    | .ok (oid, pid) => (joinNews s oid pid).elim [] (displaced s)
  | .select (.connectPipe clientFd name access options copy) =>
    let base := (tryConnectNamedPipe s.base clientFd name access options copy).2.1
    (pipeNews s base name copy).elim [] (displaced s)
  | .select (.disconnectClient clientFd) =>
    cachedFor s.threadCompletionCache clientFd ++
      if wasLast s clientFd then
        exitLost (dropClient s clientFd) (clientPid s.base clientFd)
      else []
  | _ => []

def losesNothing (event : Event) : Bool :=
  !event.client.all s.base.clients.contains || (lost s event).isEmpty

/-! ### Counting -/

def held (p : Posted) : Nat :=
  (s.returned.map message).count p + s.completionQueues.total (fun queue => queue.count p) +
    s.threadCompletionCache.total (fun d => [d.message].count p)

end

variable {p : Posted}

section
variable (s : State)

theorem count_queued :
    (queued s).count p = s.completionQueues.total fun queue => queue.count p := by
  rw [queued, Table.total]
  induction s.completionQueues.entries with
  | nil => rfl
  | cons e rest ih => rw [flatMap_cons, count_append, ih, KeyedTable.total]

theorem count_cached :
    (cached s).count p = s.threadCompletionCache.total fun d => [d.message].count p := by
  rw [cached, Table.total]
  induction s.threadCompletionCache.entries with
  | nil => rfl
  | cons e rest ih =>
    rw [map_cons, ← singleton_append, count_append, ih, KeyedTable.total]

theorem messages_iff : s.posted.Perm (s.returned.map message ++ queued s ++ cached s) ↔
      ∀ p, s.posted.count p = held s p := by
  simp only [perm_iff_count, count_append, count_queued, count_cached, held]

theorem count_cachedFor (cache : Table Int Delivered) (clientFd : Int) :
    (cachedFor cache clientFd).count p =
      ((cache.get? clientFd).map fun d => [d.message].count p).getD 0 := by
  rw [cachedFor]
  cases cache.get? clientFd <;> rfl

/-- A step keeps the books where what it posts and does not lose is held. -/
def Balanced (s t : State) (gone : List Posted) : Prop :=
  ∀ p, held t p + gone.count p + s.posted.count p = held s p + t.posted.count p

theorem Balanced.refl : Balanced s s [] := fun p => by simp

theorem Balanced.trans {s t u : State} {one two : List Posted} (first : Balanced s t one)
    (second : Balanced t u two) : Balanced s u (one ++ two) := by
  intro p
  have := first p
  have := second p
  rw [count_append]
  omega

theorem Balanced.of_same {s t : State} (queues : t.completionQueues = s.completionQueues)
    (cache : t.threadCompletionCache = s.threadCompletionCache) (posted : t.posted = s.posted)
    (returned : t.returned = s.returned) : Balanced s t [] := by
  intro p
  simp only [held, queues, cache, posted, returned, count_nil]
  omega

theorem balanced_enqueue : Balanced s (enqueue s p) [] := by
  intro q
  have sum := s.completionQueues.total_insert (fun queue => queue.count q) p.handle
    (queueOf s p.handle ++ [p])
  rw [getD_count, ← queueOf] at sum
  simp only [count_append] at sum
  simp only [held, enqueue, count_append, count_nil]
  omega

theorem balanced_cache (w : CompletionWaiter) (waiters : Table UInt32 (List CompletionWaiter)) :
    Balanced s
      { s with
        threadCompletionCache := s.threadCompletionCache.insert w.clientFd ⟨p, w.port⟩
        completionWaiters := waiters
        posted := s.posted ++ [p] }
      (cachedFor s.threadCompletionCache w.clientFd) := by
  intro q
  have sum := s.threadCompletionCache.total_insert (fun d => [d.message].count q) w.clientFd
    ⟨p, w.port⟩
  simp only [held, count_cachedFor, count_append] at sum ⊢
  omega

theorem balanced_post (p : Posted) : Balanced s (post s p) (displaced s p) := by
  unfold post displaced
  dsimp only
  cases (waitersOf s p.handle).getLast? with
  | none => exact balanced_enqueue s
  | some w => exact balanced_cache s w _

end

section
variable (s : State) (clientFd : Int)

theorem balanced_removeCompletion (handle : UInt32) (made : Bool) :
    Balanced s (removeCompletion s clientFd handle made).2 [] := by
  unfold removeCompletion
  split
  · exact .of_same rfl rfl rfl rfl
  · next p rest queue =>
    intro q
    have erased := s.completionQueues.total_erase (fun queue => queue.count q) handle
    have replaced := s.completionQueues.total_insert (fun queue => queue.count q) handle rest
    rw [getD_count, ← queueOf, queue, ← singleton_append, count_append] at erased replaced
    simp only [held, map_append, map_cons, map_nil, count_append, count_nil]
    split
    · next empty =>
      simp only [empty, count_nil] at erased
      omega
    · omega

theorem balanced_getThreadCompletion : Balanced s (getThreadCompletion s clientFd).2 [] := by
  unfold getThreadCompletion
  split
  · exact .refl s
  · next d found =>
    intro q
    have sum := s.threadCompletionCache.total_erase (fun d => [d.message].count q) clientFd
    simp only [found, map_some, getD_some] at sum
    simp only [held, map_append, map_cons, map_nil, count_append, count_nil]
    omega

theorem balanced_assignJob (job process : UInt32) :
    Balanced s (assignJob s clientFd job process).2 (lost s (.assignJob clientFd job process)) := by
  unfold assignJob lost
  split
  · next failed => simpa [failed] using Balanced.refl s
  · next oid pid found =>
    simp only [found]
    have joined : Balanced s (joinJob s oid pid) [] := .of_same rfl rfl rfl rfl
    cases joinNews s oid pid with
    | none => exact joined
    | some p => exact joined.trans (balanced_post (joinJob s oid pid) p)

theorem balanced_connectPipe (name : Str) (access options : UInt32)
    (copy : Option Int) : Balanced s (connectPipe s clientFd name access options copy)
      (lost s (.select (.connectPipe clientFd name access options copy))) := by
  simp only [connectPipe, lost]
  generalize (tryConnectNamedPipe s.base clientFd name access options copy).2.1 = base
  have based : Balanced s { s with base } [] := .of_same rfl rfl rfl rfl
  cases pipeNews s base name copy with
  | none => exact based
  | some p => exact based.trans (balanced_post { s with base } p)

/-! ### The end of a process -/

theorem handOut_books (waiters : List CompletionWaiter) (queue : List Posted)
    (cache : Table Int Delivered) (p : Posted) : (handOut waiters queue cache).1.count p +
        (handOut waiters queue cache).2.total (fun d => [d.message].count p) +
        (spilled waiters queue cache).count p =
      queue.count p + cache.total fun d => [d.message].count p := by
  induction waiters generalizing queue cache with
  | nil => simp [handOut, spilled]
  | cons w more ih =>
    cases queue with
    | nil =>
      have := ih [] cache
      simpa [handOut, spilled] using this
    | cons m queue =>
      have sum := cache.total_insert (fun d => [d.message].count p) w.clientFd ⟨m, w.port⟩
      have := ih queue (cache.insert w.clientFd ⟨m, w.port⟩)
      rw [handOut, spilled, count_append, count_cachedFor, ← singleton_append, count_append]
      dsimp only at sum
      omega

theorem balanced_wakeAll (handle : UInt32) : Balanced s (wakeAll s handle)
    (spilled (waitersOf s handle).reverse (queueOf s handle) s.threadCompletionCache) := by
  unfold wakeAll waitersOf
  cases s.completionWaiters.get? handle with
  | none => simpa [spilled] using Balanced.refl s
  | some waiters =>
    intro p
    have books := handOut_books waiters.reverse (queueOf s handle) s.threadCompletionCache p
    have sum := s.completionQueues.total_insert (fun queue => queue.count p) handle
      (handOut waiters.reverse (queueOf s handle) s.threadCompletionCache).1
    rw [getD_count, ← queueOf] at sum
    simp only [held, getD_some] at sum ⊢
    omega

theorem balanced_enqueueAll (news : List Posted) : Balanced s (news.foldl enqueue s) [] := by
  induction news generalizing s with
  | nil => exact .refl s
  | cons p more ih => exact (balanced_enqueue s).trans (ih (enqueue s p))

theorem foldl_enqueue_eq (news : List Posted) : ∃ queues, news.foldl enqueue s =
    { s with completionQueues := queues, posted := s.posted ++ news } := by
  induction news generalizing s with
  | nil => exact ⟨s.completionQueues, by simp⟩
  | cons p more ih => simpa [enqueue] using ih (enqueue s p)

theorem queueOf_foldl_enqueue {news : List Posted} {handle : UInt32}
    (same : ∀ p ∈ news, p.handle = handle) :
    queueOf (news.foldl enqueue s) handle = queueOf s handle ++ news := by
  induction news generalizing s with
  | nil => simp
  | cons p more ih =>
    have here := same p mem_cons_self
    have one : queueOf (enqueue s p) handle = queueOf s handle ++ [p] := by
      simp [queueOf, enqueue, get?_insert, here]
    rw [foldl_cons, ih (enqueue s p) fun q mem => same q (mem_cons_of_mem p mem), one,
      append_assoc, singleton_append]

theorem exitNews_port (oid : UInt64) (pid : UInt32) :
    ∃ handle port, ∀ p ∈ exitNews s oid pid, p.handle = handle ∧ p.port = port := by
  unfold exitNews
  split
  · exact ⟨0, none, by simp⟩
  · next j found =>
    cases bound : j.completionPortHandle with
    | none => exact ⟨0, none, by simp [Job.news, bound]⟩
    | some handle =>
      refine ⟨handle, j.port, fun p mem => ?_⟩
      simp only [Job.news, bound, map_some, toList_some, mem_append, mem_singleton] at mem
      split at mem <;> rcases mem with rfl | mem <;> simp_all

theorem balanced_exitJob (pid : UInt32) : Balanced s (exitJob s pid) (exitLost s pid) := by
  unfold exitJob exitLost
  cases s.processJob.get? pid with
  | none => exact .refl s
  | some oid =>
    obtain ⟨handle, port, one⟩ := exitNews_port s oid pid
    simp only [elim_some]
    have left : Balanced s (leaveJob s oid pid) [] := .of_same rfl rfl rfl rfl
    cases news : exitNews s oid pid with
    | nil => exact left
    | cons p more =>
      rw [news] at one
      have here := (one p mem_cons_self).1
      have told := balanced_enqueueAll (leaveJob s oid pid) (p :: more)
      have woken := balanced_wakeAll ((p :: more).foldl enqueue (leaveJob s oid pid)) p.handle
      have queue := queueOf_foldl_enqueue (leaveJob s oid pid) fun q mem => (one q mem).1
      obtain ⟨queues, same⟩ := foldl_enqueue_eq (leaveJob s oid pid) (p :: more)
      rw [here, queue, same] at woken
      simp only [here, same] at told ⊢
      exact (left.trans told).trans woken

theorem balanced_dropClient :
    Balanced s (dropClient s clientFd) (cachedFor s.threadCompletionCache clientFd) := by
  intro p
  have sum := s.threadCompletionCache.total_erase (fun d => [d.message].count p) clientFd
  simp only [held, dropClient, count_cachedFor]
  omega

theorem balanced_disconnectClient :
    Balanced s (disconnectClient s clientFd) (lost s (.select (.disconnectClient clientFd))) := by
  have dropped := balanced_dropClient s clientFd
  simp only [disconnectClient, lost]
  split
  · have unbound : Balanced (dropClient s clientFd)
        { dropClient s clientFd with
          completionBindings := (dropClient s clientFd).completionBindings.retain fun key _ =>
            key.1 ≠ clientPid s.base clientFd } [] := .of_same rfl rfl rfl rfl
    exact dropped.trans (unbound.trans (balanced_exitJob _ (clientPid s.base clientFd)))
  · simpa using dropped

end

/-! ### One request -/

variable {lower : Str → Str} {s : State}

theorem balanced_act (event : Event) : Balanced s (act lower s event) (lost s event) := by
  cases event with
  | createCompletion | setCompletionInfo | handles => exact .of_same rfl rfl rfl rfl
  | createJob | setJobCompletionPort | closeHandle =>
    simp only [act, createJob, setJobCompletionPort, closeHandle]
    split <;> exact .of_same rfl rfl rfl rfl
  | assignJob clientFd job process => exact balanced_assignJob s clientFd job process
  | addCompletion => exact balanced_post s _
  | removeCompletion clientFd handle made => exact balanced_removeCompletion s clientFd handle made
  | getThreadCompletion clientFd => exact balanced_getThreadCompletion s clientFd
  | select event =>
    cases event with
    | connectPipe clientFd name access options copy =>
      exact balanced_connectPipe s clientFd name access options copy
    | disconnectClient clientFd => exact balanced_disconnectClient s clientFd
    | _ => exact .of_same rfl rfl rfl rfl

theorem balanced_step (lower : Str → Str) (s : State) (event : Event) : Balanced s (step lower s event)
    (if event.client.all s.base.clients.contains then lost s event else []) := by
  unfold step
  split
  · exact balanced_act event
  · exact .refl s

/-! ### Threads that live -/

/-- What is in the tables for a thread is for one that is connected. -/
structure Live (s : State) : Prop where
  cache : ∀ fd, s.threadCompletionCache.contains fd → s.base.clients.contains fd
  waiters : ∀ handle, ∀ w ∈ waitersOf s handle, s.base.clients.contains w.clientFd

theorem Live.of_base {t : State} (live : Live s)
    (cache : t.threadCompletionCache = s.threadCompletionCache)
    (waiters : t.completionWaiters = s.completionWaiters)
    (clients : ∀ fd, s.base.clients.contains fd → t.base.clients.contains fd) : Live t where
  cache fd there := clients fd (live.cache fd (by rwa [cache] at there))
  waiters handle w mem := clients _ (live.waiters handle w (by rwa [waitersOf, waiters] at mem))

section
variable (live : Live s)
include live

theorem Live.post (p : Posted) : Live (post s p) := by
  unfold CompletionPorts.post
  dsimp only
  cases last : (waitersOf s p.handle).getLast? with
  | none => exact live.of_base rfl rfl fun _ => id
  | some w =>
    have waits := mem_of_getLast? last
    refine ⟨fun fd there => ?_, fun handle x mem => ?_⟩
    · rcases of_contains_insert there with rfl | there
      · exact live.waiters _ w waits
      · exact live.cache fd there
    · refine live.waiters handle x ?_
      rw [waitersOf, getD_replace] at mem
      split at mem
      · next here => exact here ▸ dropLast_subset _ mem
      · exact mem

theorem Live.awaitCompletion {clientFd : Int}
    (connected : s.base.clients.contains clientFd) (handle : UInt32) (made : Bool) :
    Live (awaitCompletion s clientFd handle made) where
  cache := live.cache
  waiters other w mem := by
    simp only [waitersOf, CompletionPorts.awaitCompletion, get?_insert] at mem
    split at mem
    · rcases mem_append.mp mem with before | new
      · exact live.waiters handle w before
      · rw [mem_singleton.mp new]
        exact connected
    · exact live.waiters other w mem

theorem Live.removeCompletion {clientFd : Int}
    (connected : s.base.clients.contains clientFd) (handle : UInt32) (made : Bool) :
    Live (removeCompletion s clientFd handle made).2 := by
  unfold CompletionPorts.removeCompletion
  split
  · exact live.awaitCompletion connected handle made
  · exact live.of_base rfl rfl fun _ => id

theorem Live.getThreadCompletion (clientFd : Int) : Live (getThreadCompletion s clientFd).2 := by
  unfold CompletionPorts.getThreadCompletion
  split
  · exact live
  · refine ⟨fun fd there => live.cache fd ?_, live.waiters⟩
    simp only [contains_erase, Bool.and_eq_true] at there
    exact there.2

end

theorem contains_handOut (waiters : List CompletionWaiter) (queue : List Posted)
    (cache : Table Int Delivered) {fd : Int}
    (there : (handOut waiters queue cache).2.contains fd) :
    cache.contains fd ∨ ∃ w ∈ waiters, w.clientFd = fd := by
  induction waiters generalizing queue cache with
  | nil => exact .inl there
  | cons w more ih =>
    cases queue with
    | nil => exact (ih [] cache there).imp_right fun ⟨x, mem, same⟩ => ⟨x, mem_cons_of_mem w mem, same⟩
    | cons p queue =>
      rcases ih queue _ there with before | ⟨x, mem, same⟩
      · rcases of_contains_insert before with rfl | before
        · exact .inr ⟨w, mem_cons_self, rfl⟩
        · exact .inl before
      · exact .inr ⟨x, mem_cons_of_mem w mem, same⟩

theorem Live.wakeAll (live : Live s) (handle : UInt32) : Live (wakeAll s handle) := by
  unfold CompletionPorts.wakeAll
  cases found : s.completionWaiters.get? handle with
  | none => exact live
  | some =>
    refine ⟨fun fd there => ?_, fun other w mem => live.waiters other w ?_⟩
    · rcases contains_handOut _ _ _ there with before | ⟨w, mem, rfl⟩
      · exact live.cache fd before
      · exact live.waiters handle w (by simpa [waitersOf, found] using mem)
    · simp only [waitersOf, get?_erase] at mem
      split at mem
      · simp at mem
      · exact mem

theorem Live.exitJob (live : Live s) (pid : UInt32) : Live (exitJob s pid) := by
  unfold CompletionPorts.exitJob
  cases s.processJob.get? pid with
  | none => exact live
  | some oid =>
    have left : Live (leaveJob s oid pid) := live.of_base rfl rfl fun _ => id
    cases news : exitNews s oid pid with
    | nil => simpa [news] using left
    | cons p more =>
      obtain ⟨queues, same⟩ := foldl_enqueue_eq (leaveJob s oid pid) (p :: more)
      simp only [news, same]
      apply Live.wakeAll
      exact left.of_base rfl rfl fun _ => id

theorem Live.dropClient (live : Live s) (clientFd : Int) : Live (dropClient s clientFd) := by
  have clients : (Select.disconnectClient s.base clientFd).clients =
      s.base.clients.erase clientFd :=
    congrArg Select.WaitView.clients (Select.view_disconnectClient)
  refine ⟨fun fd there => ?_, fun handle w mem => ?_⟩
  · simp only [CompletionPorts.dropClient, contains_erase, Bool.and_eq_true, clients] at there ⊢
    exact ⟨there.1, live.cache fd there.2⟩
  · simp only [waitersOf, CompletionPorts.dropClient, get?_mapValues] at mem
    have kept : w ∈ (waitersOf s handle).filter fun w => w.clientFd ≠ clientFd := by
      cases found : s.completionWaiters.get? handle with
      | none => simp [found] at mem
      | some => simpa [waitersOf, found] using mem
    rw [mem_filter] at kept
    simp only [CompletionPorts.dropClient, contains_erase, Bool.and_eq_true, clients]
    exact ⟨kept.2, live.waiters handle w kept.1⟩

theorem clients_allocWaitable (s : Select.State) (clientFd : Int) (eventfd : Option Int) :
    (allocWaitableHandleForClient s clientFd eventfd).2.clients = s.clients := by
  unfold allocWaitableHandleForClient
  split
  · rfl
  · dsimp only
    split
    · rfl
    · exact Select.clients_of_view (Select.view_allocHandle _ _ _ _ _)

theorem clients_withEvent (s : Select.State) (pid handle : UInt32) (made : Bool) :
    (withEvent s pid handle made).clients = s.clients := by
  unfold withEvent
  split <;> rfl

theorem Live.act (live : Live s) {event : Event}
    (connected : event.client.all s.base.clients.contains) : Live (act lower s event) := by
  cases event with
  | createCompletion =>
    refine live.of_base rfl rfl fun fd there => ?_
    simp only [CompletionPorts.act, createCompletion]
    split <;> simpa [clients_withEvent, clients_allocWaitable] using there
  | createJob =>
    simp only [CompletionPorts.act, createJob]
    split <;> refine live.of_base rfl rfl fun fd there => ?_
    · simpa [clients_allocWaitable] using there
    · simpa [clients_withEvent, clients_allocWaitable] using there
  | setJobCompletionPort =>
    simp only [CompletionPorts.act, setJobCompletionPort]
    split <;> exact live.of_base rfl rfl fun _ => id
  | assignJob =>
    simp only [CompletionPorts.act, assignJob]
    split
    · exact live
    · next oid pid found =>
      have joined : Live (joinJob s oid pid) := live.of_base rfl rfl fun _ => id
      cases joinNews s oid pid with
      | none => exact joined
      | some p => exact joined.post p
  | setCompletionInfo | handles => exact live.of_base rfl rfl fun _ => id
  | addCompletion => exact live.post _
  | removeCompletion _ handle made =>
    exact live.removeCompletion (by simpa [Event.client] using connected) handle made
  | getThreadCompletion clientFd => exact live.getThreadCompletion clientFd
  | closeHandle =>
    simp only [CompletionPorts.act, closeHandle]
    split <;> exact live.of_base rfl rfl fun _ => id
  | select event =>
    cases event with
    | connectPipe clientFd name access options copy =>
      simp only [CompletionPorts.act, connectPipe]
      have stays : ∀ fd, Select.Event.connectPipe clientFd name access options copy ≠
        .disconnectClient fd := by simp
      have based : Live { s with
          base := (Select.tryConnectNamedPipe s.base clientFd name access options copy).2.1 } :=
        live.of_base rfl rfl fun fd there => Select.contains_act lower stays there
      cases pipeNews s (Select.tryConnectNamedPipe s.base clientFd name access options copy).2.1 name
        copy with
      | none => exact based
      | some p => exact based.post p
    | disconnectClient clientFd =>
      have dropped := live.dropClient clientFd
      simp only [CompletionPorts.act, disconnectClient]
      split
      · refine Live.exitJob ?_ _
        exact dropped.of_base rfl rfl fun _ => id
      · exact dropped
    | _ =>
      exact live.of_base rfl rfl fun fd there => Select.contains_act lower (by simp) there

theorem live_step (lower : Str → Str) (live : Live s) (event : Event) :
    Live (step lower s event) := by
  unfold step
  split
  · next connected => exact live.act connected
  · exact live

theorem Live.entries (live : Live s) :
    ∀ e ∈ s.threadCompletionCache.entries, s.base.clients.contains e.1 := fun e mem =>
  live.cache e.1 ((contains_iff _ _).mpr ⟨e.2, (mem_entries _ _ _).mp mem⟩)

/-! ### Runs -/

theorem messages_step (books : ∀ p, s.posted.count p = held s p) (event : Event) :
    (∀ p, (step lower s event).posted.count p = held (step lower s event) p) ↔
      losesNothing s event := by
  have balanced := balanced_step lower s event
  have nothing : losesNothing s event ↔
      (if event.client.all s.base.clients.contains then lost s event else []) = [] := by
    unfold losesNothing
    split <;> simp [*]
  rw [nothing]
  generalize (if event.client.all s.base.clients.contains then lost s event else []) = gone at balanced
  constructor
  · intro after
    refine eq_nil_iff_forall_not_mem.mpr fun p mem => ?_
    have := balanced p
    have := books p
    have := after p
    have := count_pos_iff.mpr mem
    omega
  · rintro rfl p
    have kept := balanced p
    rw [count_nil, books p] at kept
    omega

theorem messages_conserved_iff (lower : Str → Str) (base : Select.State) (events : List Event) :
    (∀ s ∈ states (step lower) (.start base) events, Conserved s) ↔
      AllSteps (step lower) (fun s event => losesNothing s event) (.start base) events := by
  refine observed_iff_allSteps (fun s => (∀ p, s.posted.count p = held s p) ∧ Live s)
    (fun _ _ => True) (fun s good => ⟨(messages_iff s).mpr good.1, good.2.entries⟩)
    (fun s event good _ safe => ⟨(messages_step good.1 event).mpr safe, live_step lower good.2 event⟩)
    (fun s event good _ unsafe_ after =>
      unsafe_ ((messages_step good.1 event).mp ((messages_iff _).mp after.messages)))
    ⟨fun p => ?_, ?_⟩ (allSteps_of_forall (fun _ _ => trivial) _ _)
  · rfl
  · constructor <;> simp [State.start, Table.contains, waitersOf]

def onePort : List Event :=
  [.select (.connectClient 7 32 40 (some 9)), .createCompletion 7 (some 20) true]

def oneProcess : Select.State :=
  .start (Table.empty.insert 32 ⟨HandleTable.new, [], true⟩) .empty

/-- The thread asks a second time while it waits, and two messages come. -/
theorem second_message_displaces_first : ¬ ∀ s ∈ states (step id) (.start oneProcess) (onePort ++
      [.removeCompletion 7 4 true, .removeCompletion 7 4 true,
        .addCompletion 7 4 ⟨1, 2, 3, 0⟩, .addCompletion 7 4 ⟨4, 5, 6, 0⟩]), Conserved s := by
  intro conserved
  have same := (conserved _ (run_mem_states _ _)).messages.length_eq
  exact absurd same (by decide +kernel)

end Triskelion.CompletionPorts
