import Mathlib.Data.List.MinMax
import Triskelion.Select

/-! `check_pending_waits` and the timer of the event loop (`sync.rs`), over a heap of which only
its contract is known. An expired wait leaves the heap whether or not its client can be told. -/

namespace Triskelion.TimedWaits
open Select List

/-- A `BinaryHeap` of reversed waits: `peek` shows what `pop` takes, a wait with the least
deadline. -/
structure MinHeap where
  pop : List PendingWait → Option (PendingWait × List PendingWait)
  empty : ∀ {waits}, pop waits = none → waits = []
  least : ∀ {waits top rest}, pop waits = some (top, rest) →
    waits.Perm (top :: rest) ∧ ∀ w ∈ waits, top.deadline ≤ w.deadline

structure WakeUp where
  waitFd : Int
  cookie : UInt64
  signaled : UInt32
deriving DecidableEq

/-- Zero is the timer that is off. -/
structure Itimerspec where
  sec : Nat
  nsec : Nat
deriving DecidableEq

section
variable (heap : MinHeap) (clients : Table Int Select.Client) (now : Nat)

def sendWakeUp (w : PendingWait) (signaled : UInt32) : Option WakeUp :=
  (clients.get? w.clientFd).bind fun c => c.waitFd.map (⟨·, w.cookie, signaled⟩)

/-- The loop pops a wait in every round but its last. -/
def expire : Nat → List PendingWait → List PendingWait × List WakeUp
  | 0, waits => (waits, [])
  | rounds + 1, waits =>
    match heap.pop waits with
    | none => (waits, [])
    | some (top, rest) =>
      if clients.contains top.clientFd = false then expire rounds rest
      else if top.deadline ≤ now then
        let later := expire rounds rest
        (later.1, (sendWakeUp clients top statusTimeout).toList ++ later.2)
      else (waits, [])

def armTimer (waits : List PendingWait) : Itimerspec :=
  match heap.pop waits with
  | some (nearest, _) =>
    let dur := if now < nearest.deadline then nearest.deadline - now else 1
    ⟨dur / 1000000000, dur % 1000000000⟩
  | none => ⟨0, 0⟩

structure Checked where
  waits : List PendingWait
  sent : List WakeUp
  timer : Itimerspec

def checkPendingWaits (timer : Itimerspec) (waits : List PendingWait) : Checked :=
  if waits = [] then ⟨waits, [], timer⟩
  else
    let done := expire heap clients now waits.length waits
    ⟨done.1, done.2, armTimer heap now done.1⟩

/-! ### What expiry is for -/

def due (w : PendingWait) : Bool := clients.contains w.clientFd && w.deadline ≤ now
def unexpired (w : PendingWait) : Bool := clients.contains w.clientFd && now < w.deadline

/-- When a timer goes off that was set now. -/
def Itimerspec.fires (t : Itimerspec) : Option Nat :=
  if t = ⟨0, 0⟩ then none else some (now + t.sec * 1000000000 + t.nsec)

structure Exact (waits : List PendingWait) (done : Checked) : Prop where
  told : ∃ expired : List PendingWait, expired.Perm (waits.filter (due clients now)) ∧
    expired.Pairwise (·.deadline ≤ ·.deadline) ∧
    done.sent.map some = expired.map (sendWakeUp clients · statusTimeout)
  kept : (waits.filter (unexpired clients now)).Perm
    (done.waits.filter (clients.contains ·.clientFd))
  off : done.waits = [] → done.timer.fires now = none
  armed : done.waits ≠ [] →
    ∃ t, done.timer.fires now = some t ∧ ∀ w ∈ done.waits, t ≤ w.deadline

end

/-! ### The loop -/

section
variable (heap : MinHeap) (clients : Table Int Select.Client)

theorem expire_spec (now rounds : Nat) (waits : List PendingWait)
    (enough : waits.length ≤ rounds) :
    (∃ expired : List PendingWait, expired.Perm (waits.filter (due clients now)) ∧
      expired.Pairwise (·.deadline ≤ ·.deadline) ∧
      (expire heap clients now rounds waits).2 =
        expired.filterMap (sendWakeUp clients · statusTimeout)) ∧
    (waits.filter (unexpired clients now)).Perm
      ((expire heap clients now rounds waits).1.filter (clients.contains ·.clientFd)) ∧
    ∀ w ∈ (expire heap clients now rounds waits).1, now < w.deadline := by
  induction rounds generalizing waits with
  | zero =>
    obtain rfl : waits = [] := by simpa using enough
    exact ⟨⟨[], by simp [expire]⟩, by simp [expire]⟩
  | succ rounds ih =>
    unfold expire
    split
    next stopped =>
      obtain rfl := heap.empty stopped
      exact ⟨⟨[], by simp⟩, by simp⟩
    next top rest popped =>
      obtain ⟨perm, least⟩ := heap.least popped
      have shorter : rest.length ≤ rounds := by
        have := perm.length_eq
        simp only [length_cons] at this
        omega
      obtain ⟨⟨expired, of_rest, sorted, sent⟩, kept, later⟩ := ih rest shorter
      have dues := perm.filter (due clients now)
      have others := perm.filter (unexpired clients now)
      split_ifs with gone past
      · rw [filter_cons_of_neg (by simp [due, gone])] at dues
        rw [filter_cons_of_neg (by simp [unexpired, gone])] at others
        exact ⟨⟨expired, of_rest.trans dues.symm, sorted, sent⟩, others.trans kept, later⟩
      · rw [filter_cons_of_pos (by simp_all [due])] at dues
        rw [filter_cons_of_neg (by simp [unexpired, past])] at others
        refine ⟨⟨top :: expired, (of_rest.cons top).trans dues.symm, ?_, ?_⟩,
          others.trans kept, later⟩
        · exact pairwise_cons.mpr ⟨fun w mem => least w <| perm.mem_iff.mpr <|
            mem_cons_of_mem _ (mem_of_mem_filter (of_rest.mem_iff.mp mem)), sorted⟩
        · cases told : sendWakeUp clients top statusTimeout <;> simp [told, sent]
      · -- no wait is before the first one that is left
        have ahead : ∀ w ∈ waits, now < w.deadline := fun w mem =>
          (not_le.mp past).trans_le (least w mem)
        have same : waits.filter (unexpired clients now) =
            waits.filter (clients.contains ·.clientFd) :=
          filter_congr fun w mem => by simp [unexpired, ahead w mem]
        refine ⟨⟨[], ?_, .nil, rfl⟩, same ▸ .refl _, ahead⟩
        rw [filter_eq_nil_iff.mpr fun w mem => by simp [due, ahead w mem]]

theorem armTimer_spec {now : Nat} {waits : List PendingWait}
    (ahead : ∀ w ∈ waits, now < w.deadline) :
    (waits = [] → (armTimer heap now waits).fires now = none) ∧
    (waits ≠ [] → ∃ t, (armTimer heap now waits).fires now = some t ∧
      ∀ w ∈ waits, t ≤ w.deadline) := by
  unfold armTimer
  split
  next nearest rest popped =>
    obtain ⟨perm, least⟩ := heap.least popped
    have first := perm.mem_iff.mpr mem_cons_self
    have soon := ahead _ first
    refine ⟨fun none => by simp [none] at first, fun _ => ⟨nearest.deadline, ?_, least⟩⟩
    simp only [soon, if_true, Itimerspec.fires, Itimerspec.mk.injEq]
    rw [if_neg (by omega)]
    exact congrArg some (by omega)
  next stopped =>
    exact ⟨fun _ => rfl, fun some => absurd (heap.empty stopped) some⟩

end

/-- Each wait ends as it should just when every connected client whose wait has expired has a
descriptor to be woken by. -/
theorem waits_expire_iff (heap : MinHeap) (clients : Table Int Select.Client) (now : Nat)
    (timer : Itimerspec) (waits : List PendingWait) (some_wait : waits ≠ []) :
    Exact clients now waits (checkPendingWaits heap clients now timer waits) ↔
      ∀ w ∈ waits, w.deadline ≤ now → ∀ c, clients.get? w.clientFd = some c →
        c.waitFd.isSome := by
  obtain ⟨⟨expired, perm, sorted, sent⟩, kept, ahead⟩ :=
    expire_spec heap clients now _ waits le_rfl
  simp only [checkPendingWaits, some_wait, if_false]
  have of_due : ∀ {w}, w ∈ waits.filter (due clients now) ↔
      w ∈ waits ∧ (∃ c, clients.get? w.clientFd = some c) ∧ w.deadline ≤ now := by
    simp [due, Table.contains_iff]
  have woken : ∀ {w}, w ∈ waits.filter (due clients now) →
      ((sendWakeUp clients w statusTimeout).isSome ↔
        ∀ c, clients.get? w.clientFd = some c → c.waitFd.isSome) := by
    intro w mem
    obtain ⟨-, ⟨c, found⟩, -⟩ := of_due.mp mem
    simp [sendWakeUp, found]
  constructor
  · rintro ⟨⟨told, each, -, all⟩, -⟩ w mem past c found
    have was_due := of_due.mpr ⟨mem, ⟨c, found⟩, past⟩
    have told := all ▸ mem_map_of_mem (each.mem_iff.mpr was_due)
    obtain ⟨sent, -, same⟩ := mem_map.mp told
    exact (woken was_due).mp (same ▸ rfl) c found
  · intro reachable
    obtain ⟨off, armed⟩ := armTimer_spec heap ahead
    refine ⟨⟨expired, perm, sorted, ?_⟩, kept, off, armed⟩
    rw [sent, map_filterMap, ← filterMap_eq_map]
    refine filterMap_congr fun w mem => ?_
    have was_due := perm.mem_iff.mp mem
    obtain ⟨mem, -, past⟩ := of_due.mp was_due
    obtain ⟨wake, told⟩ := Option.isSome_iff_exists.mp ((woken was_due).mpr (reachable w mem past))
    simp [told]

/-- A heap that looks for its first wait each time. -/
def scanHeap : MinHeap where
  pop waits := (waits.argmin PendingWait.deadline).map fun w => (w, waits.erase w)
  empty stopped := argmin_eq_none.mp (Option.map_eq_none_iff.mp stopped)
  least popped := by
    obtain ⟨w, first, same⟩ := Option.map_eq_some_iff.mp popped
    cases same
    exact ⟨perm_cons_erase (argmin_mem first), fun w mem => le_of_mem_argmin mem first⟩

def sleeper (waitFd : Option Int) : Table Int Select.Client :=
  Table.empty.insert 7 ⟨1, 1, waitFd, 0, 0⟩

theorem wait_lost :
    ¬ Exact (sleeper none) 5 [⟨3, 7, 9⟩]
      (checkPendingWaits scanHeap (sleeper none) 5 ⟨0, 0⟩ [⟨3, 7, 9⟩]) := by
  rintro ⟨⟨expired, perm, -, told⟩, -⟩
  have sent := congrArg length told
  rw [length_map, length_map, perm.length_eq] at sent
  revert sent
  decide

theorem wait_told :
    Exact (sleeper (some 8)) 5 [⟨9, 7, 1⟩, ⟨3, 7, 9⟩]
      (checkPendingWaits scanHeap (sleeper (some 8)) 5 ⟨0, 0⟩ [⟨9, 7, 1⟩, ⟨3, 7, 9⟩]) :=
  (waits_expire_iff _ _ _ _ _ (by decide)).mpr (by decide)

end Triskelion.TimedWaits
