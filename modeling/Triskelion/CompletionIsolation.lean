import Triskelion.CompletionBooks

/-! Completion ports of different processes. Every process numbers its handles from 4 on,
and the queues and waiters are kept by these numbers alone: a message comes to the thread
it is meant for as long as nobody else uses the number of its port. -/

namespace Triskelion.CompletionPorts

open RunRules List Table

def Posted.suits (p : Posted) (port : Option UInt64) : Bool := p.port.isNone || p.port = port

section
variable (s : State)

def Isolated : Prop :=
  ∀ d ∈ s.returned, d.message.port ≠ none → d.message.port = d.port

def waitersSuit (handle : UInt32) (messages : List Posted) : Bool :=
  messages.all fun p => (waitersOf s handle).all fun w => p.suits w.port

def newsSuits (news : Option Posted) : Bool :=
  news.all fun p => waitersSuit s p.handle [p]

def separate : Event → Bool
  | .addCompletion clientFd handle msg =>
    newsSuits s (some ⟨msg, handle, portOf s clientFd handle⟩)
  | .removeCompletion clientFd handle _ =>
    (queueOf s handle).all fun p => p.suits (portOf s clientFd handle)
  | .assignJob clientFd job process =>
    match assignment s clientFd job process with
    | .error _ => true
    | .ok (oid, pid) => newsSuits s (joinNews s oid pid)
  | .select (.connectPipe clientFd name access options copy) =>
    let base := (Select.tryConnectNamedPipe s.base clientFd name access options copy).2.1
    newsSuits s (pipeNews s base name copy)
  | .select (.disconnectClient clientFd) =>
    let pid := Select.clientPid s.base clientFd
    !wasLast s clientFd || (s.processJob.get? pid).all fun oid =>
      (exitNews s oid pid).all fun p =>
        waitersSuit s p.handle (queueOf s p.handle ++ exitNews s oid pid)
  | _ => true

end

/-! ### The invariant -/

structure Sealed (s : State) : Prop where
  cache : ∀ fd d, s.threadCompletionCache.get? fd = some d → d.message.suits d.port
  returned : ∀ d ∈ s.returned, d.message.suits d.port

variable {lower : Str → Str} {s : State}

theorem Sealed.isolated (ok : Sealed s) : Isolated s := by
  intro d mem some_port
  have suits := ok.returned d mem
  simpa [Posted.suits, some_port] using suits

theorem Sealed.of_same {t : State} (ok : Sealed s)
    (cache : t.threadCompletionCache = s.threadCompletionCache)
    (returned : t.returned = s.returned) : Sealed t :=
  ⟨by rw [cache]; exact ok.cache, by rw [returned]; exact ok.returned⟩

theorem Sealed.post (ok : Sealed s) {p : Posted} (suit : waitersSuit s p.handle [p]) :
    Sealed (post s p) := by
  unfold CompletionPorts.post
  dsimp only
  cases last : (waitersOf s p.handle).getLast? with
  | none => exact ok.of_same rfl rfl
  | some w =>
    simp only [waitersSuit, all_cons, all_nil, Bool.and_true, all_eq_true] at suit
    exact ⟨forall_insert ok.cache (suit w (mem_of_getLast? last)), ok.returned⟩

variable {clientFd : Int} {handle : UInt32}

theorem Sealed.removeCompletion (ok : Sealed s)
    (suit : ∀ p ∈ queueOf s handle, p.suits (portOf s clientFd handle)) (made : Bool) :
    Sealed (removeCompletion s clientFd handle made).2 := by
  unfold CompletionPorts.removeCompletion
  split
  · exact ok.of_same rfl rfl
  · next p rest queue =>
    refine ⟨ok.cache, fun d mem => ?_⟩
    rcases mem_append.mp mem with before | new
    · exact ok.returned d before
    · rw [mem_singleton.mp new]
      exact suit p (by simp [queue])

theorem Sealed.getThreadCompletion (ok : Sealed s) : Sealed (getThreadCompletion s clientFd).2 := by
  unfold CompletionPorts.getThreadCompletion
  split
  · exact ok
  · next d found =>
    refine ⟨fun fd e there => ok.cache fd e (of_erase there).2, fun e mem => ?_⟩
    rcases mem_append.mp mem with before | new
    · exact ok.returned e before
    · rw [mem_singleton.mp new]
      exact ok.cache clientFd d found

theorem get_handOut (waiters : List CompletionWaiter) (queue : List Posted)
    (cache : Table Int Delivered) {fd : Int} {d : Delivered}
    (found : (handOut waiters queue cache).2.get? fd = some d) :
    cache.get? fd = some d ∨ ∃ w ∈ waiters, ∃ p ∈ queue, d = ⟨p, w.port⟩ := by
  induction waiters generalizing queue cache with
  | nil => exact .inl found
  | cons w more ih =>
    cases queue with
    | nil =>
      rcases ih [] cache found with before | ⟨x, -, p, mem, -⟩
      · exact .inl before
      · simp at mem
    | cons m queue =>
      rcases ih queue _ found with before | ⟨x, waits, p, mem, same⟩
      · rcases of_insert before with ⟨-, same⟩ | ⟨-, old⟩
        · exact .inr ⟨w, mem_cons_self, m, mem_cons_self, same⟩
        · exact .inl old
      · exact .inr ⟨x, mem_cons_of_mem w waits, p, mem_cons_of_mem m mem, same⟩

theorem Sealed.wakeAll (ok : Sealed s)
    (suit : ∀ p ∈ queueOf s handle, ∀ w ∈ waitersOf s handle, p.suits w.port) :
    Sealed (wakeAll s handle) := by
  unfold CompletionPorts.wakeAll
  cases waits : s.completionWaiters.get? handle with
  | none => exact ok
  | some =>
    refine ⟨fun fd d found => ?_, ok.returned⟩
    rcases get_handOut _ _ _ found with before | ⟨w, mem, p, there, rfl⟩
    · exact ok.cache fd d before
    · exact suit p there w (by simpa [waitersOf, waits] using mem)

theorem Sealed.exitJob (ok : Sealed s) {pid : UInt32}
    (suit : ∀ oid, s.processJob.get? pid = some oid → ∀ p ∈ exitNews s oid pid,
      waitersSuit s p.handle (queueOf s p.handle ++ exitNews s oid pid)) :
    Sealed (exitJob s pid) := by
  unfold CompletionPorts.exitJob
  cases member : s.processJob.get? pid with
  | none => exact ok
  | some oid =>
    have left : Sealed (leaveJob s oid pid) := ok.of_same rfl rfl
    cases news : exitNews s oid pid with
    | nil => simpa [news] using left
    | cons p more =>
      obtain ⟨handle, port, one⟩ := exitNews_port s oid pid
      rw [news] at one
      have here := (one p mem_cons_self).1
      have queue := queueOf_foldl_enqueue (leaveJob s oid pid) fun q mem => (one q mem).1
      obtain ⟨queues, same⟩ := foldl_enqueue_eq (leaveJob s oid pid) (p :: more)
      have suits := suit oid member p (by simp [news])
      simp only [waitersSuit, all_eq_true, news, here] at suits
      simp only [news, here, same] at queue ⊢
      apply Sealed.wakeAll
      · exact left.of_same rfl rfl
      · rw [queue]
        exact suits

theorem Sealed.dropClient (ok : Sealed s) (clientFd : Int) : Sealed (dropClient s clientFd) :=
  ⟨fun fd d found => ok.cache fd d (of_erase found).2, ok.returned⟩

theorem waitersOf_dropClient : waitersOf (dropClient s clientFd) handle =
      (waitersOf s handle).filter fun w => w.clientFd ≠ clientFd := by
  simp only [waitersOf, dropClient, get?_mapValues]
  cases s.completionWaiters.get? handle <;> rfl

theorem Sealed.disconnectClient (ok : Sealed s)
    (apart : separate s (.select (.disconnectClient clientFd))) :
    Sealed (disconnectClient s clientFd) := by
  have dropped := ok.dropClient clientFd
  simp only [CompletionPorts.disconnectClient]
  split
  · next last =>
    simp only [separate, last, Bool.not_true, Bool.false_or, Option.all_eq_true,
      all_eq_true] at apart
    refine Sealed.exitJob ?_ fun oid member p mem => ?_
    · exact dropped.of_same rfl rfl
    have suits := apart oid member p mem
    simp only [waitersSuit, all_eq_true] at suits ⊢
    intro q there w waits
    have before : w ∈ waitersOf (CompletionPorts.dropClient s clientFd) p.handle := waits
    rw [waitersOf_dropClient] at before
    exact suits q there w (mem_of_mem_filter before)
  · exact dropped

theorem Sealed.act (ok : Sealed s) {event : Event} (apart : separate s event) :
    Sealed (act lower s event) := by
  cases event with
  | createCompletion | setCompletionInfo | handles => exact ok.of_same rfl rfl
  | createJob | setJobCompletionPort | closeHandle =>
    simp only [CompletionPorts.act, createJob, setJobCompletionPort, closeHandle]
    split <;> exact ok.of_same rfl rfl
  | assignJob =>
    simp only [separate] at apart
    simp only [CompletionPorts.act, assignJob]
    split
    · exact ok
    · next oid pid found =>
      rw [found] at apart
      have joined : Sealed (joinJob s oid pid) := ok.of_same rfl rfl
      cases news : joinNews s oid pid with
      | none => exact joined
      | some =>
        simp only [newsSuits, news, Option.all_some] at apart
        exact joined.post apart
  | addCompletion => exact ok.post (by simpa [separate, newsSuits] using apart)
  | removeCompletion _ _ made =>
    exact ok.removeCompletion (by simpa [separate] using apart) made
  | getThreadCompletion clientFd => exact ok.getThreadCompletion
  | select event =>
    cases event with
    | connectPipe clientFd name access options copy =>
      simp only [separate] at apart
      simp only [CompletionPorts.act, connectPipe]
      generalize (Select.tryConnectNamedPipe s.base clientFd name access options copy).2.1 = base
        at apart ⊢
      have based : Sealed { s with base } := ok.of_same rfl rfl
      cases news : pipeNews s base name copy with
      | none => exact based
      | some =>
        simp only [newsSuits, news, Option.all_some] at apart
        exact based.post apart
    | disconnectClient => exact ok.disconnectClient apart
    | _ => exact ok.of_same rfl rfl

/-! ### Runs -/

theorem sealed_step (lower : Str → Str) (s : State) (event : Event) (ok : Sealed s)
    (apart : separate s event) : Sealed (step lower s event) := by
  unfold step
  split
  · exact ok.act apart
  · exact ok

theorem isolated_of_separate (lower : Str → Str) (base : Select.State) (events : List Event)
    (apart : AllSteps (step lower) (fun s event => separate s event) (.start base) events) :
    Isolated (run (step lower) (.start base) events) := by
  have start : Sealed (.start base) :=
    by constructor <;> simp [State.start]
  exact (good_run (sealed_step lower) start apart).isolated

def twoProcesses : Select.State :=
  .start ((empty.insert 32 ⟨HandleTable.new, [], true⟩).insert 36 ⟨HandleTable.new, [], true⟩) .empty

def twoPorts : List Event :=
  [.select (.connectClient 7 32 40 (some 9)), .select (.connectClient 8 36 44 (some 10)),
    .createCompletion 7 (some 20) true, .createCompletion 8 (some 21) true]

/-- The other process uses its second port, under handle 8. -/
theorem isolated_two_processes : Isolated (run (step id) (.start twoProcesses) (twoPorts ++
      [.createCompletion 8 (some 22) true, .removeCompletion 7 4 true, .removeCompletion 8 8 true,
        .addCompletion 8 8 ⟨1, 2, 3, 0⟩, .addCompletion 7 4 ⟨4, 5, 6, 0⟩, .getThreadCompletion 7,
        .getThreadCompletion 8, .addCompletion 7 4 ⟨7, 8, 9, 0⟩, .removeCompletion 7 4 true])) :=
  isolated_of_separate id twoProcesses _ (by decide +kernel)

/-- Both processes have a port under handle 4: the message of one goes to the other's thread. -/
theorem message_to_other_process : ¬ Isolated (run (step id) (.start twoProcesses) (twoPorts ++
      [.removeCompletion 8 4 true, .addCompletion 7 4 ⟨1, 2, 3, 0⟩, .getThreadCompletion 8])) := by
  intro isolated
  have same := isolated ⟨⟨⟨1, 2, 3, 0⟩, 4, some 0x1000⟩, some 0x1001⟩ (by decide +kernel) (by simp)
  simp at same

end Triskelion.CompletionPorts
