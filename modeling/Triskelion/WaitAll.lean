import Mathlib.Logic.Function.Basic
import Triskelion.RunRules

/-! `triskelion_wait` of the kernel module with `wait_all`, among the operations of other threads.
The objects are looked at one by one, and if all were ready they are taken one by one. A pass that
stops in the middle gives nothing back; it does not stop if no semaphore or auto-reset event is
listed twice and what was found ready is left so. -/

namespace Triskelion.WaitAll

open RunRules Function List

inductive Object
  | semaphore (count : Int32) (max : UInt32)
  | mutex (owner count : UInt32)
  | event (manual signaled : Bool)
  /-- A handle of another type, which has no wait queue. -/
  | unwaitable
deriving DecidableEq

namespace Object

def tryAcquire (tid : UInt32) : Object → Option Object
  | semaphore count max => if count ≤ 0 then none else some (semaphore (count - 1) max)
  | mutex owner count =>
    if owner = 0 then some (mutex tid 1)
    else if owner = tid then some (mutex owner (count + 1)) else none
  | event manual signaled => if signaled then some (event manual manual) else none
  | unwaitable => none

def ready (tid : UInt32) : Object → Bool
  | semaphore count _ => 0 < count
  | mutex owner _ => owner = 0 ∨ owner = tid
  | event _ signaled => signaled
  | unwaitable => false

/-- A manual-reset event stays as it is when it is taken. -/
def consumed : Object → Bool
  | event manual _ => !manual
  | _ => true

/-- What was taken once can be taken by the same thread again. -/
def lasting : Object → Bool
  | mutex _ _ => true
  | event manual _ => manual
  | _ => false

/-- What a wait of the thread takes from an object: units, its signal, or a level of ownership. -/
def stock (tid : UInt32) : Object → Int
  | semaphore count _ => count.toInt
  | mutex owner count => if owner = tid then -count.toNat else 0
  | event _ signaled => if signaled then 1 else 0
  | unwaitable => 0

def Alike (o o' : Object) : Prop := o'.consumed = o.consumed ∧ o'.lasting = o.lasting

variable {tid : UInt32} {o o' : Object}

theorem isSome_tryAcquire : (o.tryAcquire tid).isSome = o.ready tid := by
  cases o with
  | semaphore count => by_cases low : count ≤ 0 <;> simp [tryAcquire, ready, low, ← Int32.not_le]
  | mutex owner => grind [tryAcquire, ready]
  | event manual signaled => cases signaled <;> rfl
  | unwaitable => rfl

section
variable (taken : o.tryAcquire tid = some o')
include taken

theorem alike_tryAcquire : Alike o o' := by
  cases o <;> grind [tryAcquire, Alike, consumed, lasting]

theorem ready_tryAcquire (lasts : o.lasting) : o'.ready tid := by
  cases o <;> grind [tryAcquire, lasting, ready]

theorem stock_tryAcquire (thread : tid ≠ 0) (room : o ≠ mutex tid 0xFFFFFFFF) :
    o.stock tid - o'.stock tid = if o.consumed then 1 else 0 := by
  cases o with
  | semaphore count =>
    have less := Int32.toInt_sub count 1
    have top := count.toInt_lt
    simp only [tryAcquire, Int32.le_iff_toInt_le, Int32.toInt_zero] at taken
    split at taken
    · cases taken
    · next positive =>
      cases taken
      rw [show Int32.toInt 1 = 1 from rfl, Int.bmod_eq_of_le_mul_two (by omega) (by omega)] at less
      simp only [stock, consumed, less, if_true]
      omega
  | mutex owner count =>
    have more : count ≠ 0xFFFFFFFF → (count + 1).toNat = count.toNat + 1 := by
      intro room
      have below : count.toNat ≠ 4294967295 := fun same => room (UInt32.toNat_inj.mp same)
      have := count.toNat_lt
      rw [UInt32.toNat_add, UInt32.toNat_one]
      omega
    simp only [tryAcquire] at taken
    grind [stock, consumed]
  | event manual signaled => cases manual <;> cases signaled <;> grind [tryAcquire, stock, consumed]
  | unwaitable => cases taken

end

end Object

/-- What other threads do to an object: `triskelion_sem_release`, `triskelion_mutex_release`,
`triskelion_event_set` and `triskelion_event_reset`, of which a pulse is made, and a wait. -/
inductive Operation
  | releaseSemaphore (count : UInt32)
  | releaseMutex (tid : UInt32)
  | set
  | reset
  | acquire (tid : UInt32)

def Operation.apply : Operation → Object → Object
  | .releaseSemaphore n, .semaphore count max =>
    if max < count.toUInt32 + n then .semaphore count max
    else .semaphore (count.toUInt32 + n).toInt32 max
  | .releaseMutex tid, .mutex owner count =>
    if owner ≠ tid then .mutex owner count
    else if count - 1 = 0 then .mutex 0 0 else .mutex owner (count - 1)
  | .set, .event manual _ => .event manual true
  | .reset, .event manual _ => .event manual false
  | .acquire tid, o => (o.tryAcquire tid).getD o
  | _, o => o

theorem alike_apply (op : Operation) (o : Object) : o.Alike (op.apply o) := by
  cases op <;> cases o <;>
    grind [Operation.apply, Object.tryAcquire, Object.Alike, Object.consumed, Object.lasting]

inductive Timeout
  | poll
  | relative
  | infinite
deriving DecidableEq

/-- Which handle is looked at or taken next, or what the call returned. -/
inductive Place
  | check (i : Nat)
  | acquire (i : Nat)
  | pause
  | returned (ret : Int)
deriving DecidableEq

structure Call where
  tid : UInt32
  timeout : Timeout
  objs : List Nat
  objects : Nat → Object
  place : Place
  /-- Not in the code: what the steps of the call have taken from each object so far. -/
  taken : Nat → Int

def etimedout : Int := 110

def eintr : Int := 4

def einval : Int := 22

/-- The call up to its loop: the handles are resolved, and each object must have a wait queue. -/
def begin (tid : UInt32) (timeout : Timeout) (handles : List UInt32)
    (resolve : UInt32 → Option Nat) (objects : Nat → Object) : Call :=
  let objs := handles.filterMap resolve
  let bad := handles = [] ∨ 64 < handles.length ∨ objs.length ≠ handles.length ∨
    objs.any (objects · = .unwaitable)
  ⟨tid, timeout, objs, objects, if bad then .returned (-einval) else .check 0, fun _ => 0⟩

inductive Event
  | other (obj : Nat) (op : Operation)
  /-- The next step of the call, with what it finds when it is about to sleep. -/
  | own (signalPending expired : Bool)

namespace Call

variable (c : Call)

def object (i : Nat) : Option (Nat × Object) := (c.objs[i]?).map fun o => (o, c.objects o)

def move (signalPending expired : Bool) : Call :=
  match c.place with
  | .check i =>
    match c.object i with
    | none => { c with place := .acquire 0 }
    | some (_, o) => { c with place := if o.ready c.tid then .check (i + 1) else .pause }
  | .acquire i =>
    match c.object i with
    | none => { c with place := .returned 0 }
    | some (n, o) =>
      match o.tryAcquire c.tid with
      | none => { c with place := .pause }
      | some o' =>
        { c with objects := update c.objects n o', place := .acquire (i + 1) }
  | .pause =>
    if c.timeout = .poll then { c with place := .returned (-etimedout) }
    else if signalPending then { c with place := .returned (-eintr) }
    else if c.timeout = .relative ∧ expired then { c with place := .returned (-etimedout) }
    else { c with place := .check 0 }
  | .returned _ => c

def own (signalPending expired : Bool) : Call :=
  let after := c.move signalPending expired
  { after with
    taken := fun n =>
      c.taken n + ((c.objects n).stock c.tid - (after.objects n).stock c.tid) }

def step (c : Call) : Event → Call
  | .other obj op => { c with objects := update c.objects obj (op.apply (c.objects obj)) }
  | .own signalPending expired => c.own signalPending expired

/-- One unit for each time the object is in the list. -/
def units (objects : Nat → Object) (objs : List Nat) (n : Nat) : Int :=
  if (objects n).consumed then objs.count n else 0

def AllOrNothing : Prop :=
  ∀ ret, c.place = .returned ret → ∀ n, c.taken n = if ret = 0 then units c.objects c.objs n else 0

/-- What has been found ready and is not taken yet. -/
def awaited : List Nat :=
  match c.place with
  | .check i => c.objs.take i
  | .acquire i => c.objs.drop i
  | _ => []

/-- Another thread leaves ready what was found so, and no mutex of the caller is at its limit. -/
def undisturbed : Event → Bool
  | .other n op => n ∉ c.awaited ∨ (op.apply (c.objects n)).ready c.tid
  | .own _ _ => c.objs.all fun n => c.objects n ≠ .mutex c.tid 0xFFFFFFFF

def due (n : Nat) : Int :=
  match c.place with
  | .acquire i => units c.objects (c.objs.take i) n
  | .returned ret => if ret = 0 then units c.objects c.objs n else 0
  | _ => 0

structure Settled : Prop where
  thread : c.tid ≠ 0
  taken : ∀ n, c.taken n = c.due n
  ready : ∀ n ∈ c.awaited, (c.objects n).ready c.tid
  once : ∀ n ∈ c.objs, (c.objects n).lasting ∨ c.objs.count n ≤ 1

variable {c : Call}

theorem units_update {n : Nat} {o : Object} (alike : (c.objects n).Alike o) (objs : List Nat) :
    units (update c.objects n o) objs = units c.objects objs := by
  funext m
  by_cases here : m = n
  · simp [units, here, alike.1]
  · simp [units, update_of_ne here]

theorem lasting_update {n : Nat} {o : Object} (alike : (c.objects n).Alike o) (m : Nat) :
    (update c.objects n o m).lasting = (c.objects m).lasting := by
  by_cases here : m = n
  · rw [here, update_self, alike.2]
  · rw [update_of_ne here]

namespace Settled

theorem other (settled : c.Settled) {n : Nat} {op : Operation} (fine : c.undisturbed (.other n op)) :
    (c.step (.other n op)).Settled where
  thread := settled.thread
  taken m := by
    rw [Call.step, due]
    simp only [units_update (alike_apply op _)]
    exact settled.taken m
  ready m mem := by
    by_cases here : m = n
    · subst here
      simp only [Call.step, update_self]
      exact (of_decide_eq_true fine).resolve_left (not_not_intro mem)
    · simp only [Call.step, update_of_ne here]
      exact settled.ready m mem
  once m mem := by
    simp only [Call.step, lasting_update (alike_apply op _)]
    exact settled.once m mem

theorem own (settled : c.Settled) (signalPending expired : Bool)
    (fine : c.undisturbed (.own signalPending expired)) : (c.own signalPending expired).Settled := by
  obtain ⟨thread, taken, ready, once⟩ := settled
  unfold due at taken
  unfold awaited at ready
  cases at_place : c.place with
  | check i =>
    simp only [Call.own, Call.move, at_place]
    cases at_obj : c.objs[i]? with
    | none =>
      have all := take_of_length_le (getElem?_eq_none_iff.mp at_obj)
      refine ⟨?_, ?_, ?_, ?_⟩ <;> simp_all [object, due, awaited, units]
    | some n =>
      have next : c.objs.take (i + 1) = c.objs.take i ++ [n] := by
        rw [take_add_one, at_obj, Option.toList_some]
      cases fit : (c.objects n).ready c.tid with
      | false => refine ⟨?_, ?_, ?_, ?_⟩ <;> simp_all [object, due, awaited]
      | true => refine ⟨?_, ?_, ?_, ?_⟩ <;> simp_all [object, due, awaited, or_imp]
  | acquire i =>
    simp only [at_place] at taken ready
    simp only [Call.own, Call.move, at_place]
    cases at_obj : c.objs[i]? with
    | none =>
      have all := take_of_length_le (getElem?_eq_none_iff.mp at_obj)
      refine ⟨?_, ?_, ?_, ?_⟩ <;> simp_all [object, due, awaited, units]
    | some n =>
      have rest : c.objs.drop i = n :: c.objs.drop (i + 1) := by
        obtain ⟨inside, rfl⟩ := List.getElem?_eq_some_iff.mp at_obj
        exact drop_eq_getElem_cons inside
      have next : c.objs.take (i + 1) = c.objs.take i ++ [n] := by
        rw [take_add_one, at_obj, Option.toList_some]
      rw [rest] at ready
      obtain ⟨o', got⟩ : ∃ o', (c.objects n).tryAcquire c.tid = some o' := by
        rw [← Option.isSome_iff_exists, Object.isSome_tryAcquire]
        exact ready n mem_cons_self
      have listed : n ∈ c.objs := mem_of_getElem? at_obj
      have alike := Object.alike_tryAcquire got
      have room := of_decide_eq_true (all_eq_true.mp fine n listed)
      simp only [object, at_obj, Option.map_some, got]
      refine ⟨thread, fun m => ?_, fun m later => ?_, fun m mem => ?_⟩
      · simp only [due, next, units_update alike, taken]
        by_cases here : m = n
        · rw [here, update_self, Object.stock_tryAcquire got thread room]
          simp only [units, count_append, count_singleton_self]
          split <;> simp
        · simp [units, update_of_ne here, Ne.symm here]
      · by_cases here : m = n
        · subst here
          have count := congrArg (List.count m) (take_append_drop i c.objs)
          have again : 0 < (c.objs.drop (i + 1)).count m := count_pos_iff.mpr later
          rw [rest, count_append, count_cons_self] at count
          simp only [update_self]
          refine Object.ready_tryAcquire got ((once m listed).resolve_right ?_)
          omega
        · simp only [update_of_ne here]
          exact ready m (mem_cons_of_mem n later)
      · rw [lasting_update alike]
        exact once m mem
  | pause =>
    simp only [Call.own, Call.move, at_place]
    refine ⟨?_, ?_, ?_, ?_⟩ <;> grind [due, awaited, etimedout, eintr]
  | returned ret =>
    simp only [Call.own, Call.move, at_place]
    refine ⟨?_, ?_, ?_, ?_⟩ <;> simp_all [due, awaited, units]

theorem step (settled : c.Settled) (event : Event) (fine : c.undisturbed event) :
    (c.step event).Settled := by
  cases event with
  | other => exact settled.other fine
  | own signalPending expired => exact settled.own signalPending expired fine

end Settled

end Call

open Call

/-- A wait for all takes each of them once or nothing, if none that is used up by the first taking
is listed twice and other threads leave ready what the call has found so. -/
theorem all_or_nothing_of_undisturbed (tid : UInt32) (timeout : Timeout) (handles : List UInt32)
    (resolve : UInt32 → Option Nat) (objects : Nat → Object) (events : List Event)
    (thread : tid ≠ 0) (once : ∀ n ∈ handles.filterMap resolve,
      (objects n).lasting ∨ (handles.filterMap resolve).count n ≤ 1)
    (fine : AllSteps step (fun c event => c.undisturbed event)
      (begin tid timeout handles resolve objects) events) :
    ∀ c ∈ states step (begin tid timeout handles resolve objects) events, c.AllOrNothing := by
  have start : (begin tid timeout handles resolve objects).Settled := by
    refine ⟨thread, fun n => ?_, fun n mem => ?_, once⟩
    · simp only [begin, due]
      split_ifs <;> rfl
    · simp only [begin, awaited] at mem
      split_ifs at mem <;> simp at mem
  intro c reached ret returned n
  have settled := good_of_allSteps (fun _ event good => good.step event) start fine c reached
  rw [settled.taken, due, returned]

def twoAndMutex (n : Nat) : Object :=
  if n = 12 then .mutex 0 0 else .semaphore (if n = 4 then 1 else 0) 5

/-- Another thread gives back a unit in time; the mutex is listed twice. -/
theorem all_taken :
    let c := run step (begin 7 .infinite [4, 8, 12, 12] (fun h => some h.toNat) twoAndMutex)
      (replicate 3 (.own false false) ++ .other 8 (.releaseSemaphore 1) ::
        replicate 10 (.own false false))
    c.AllOrNothing ∧ c.place = .returned 0 ∧ [4, 8, 12].map c.taken = [1, 1, 2] := by
  refine ⟨?_, by decide, by decide⟩
  exact all_or_nothing_of_undisturbed 7 .infinite [4, 8, 12, 12] _ twoAndMutex _ (by decide)
    (by decide) (by decide) _ (run_mem_states _ _)

/-- One semaphore is listed twice and has one unit. -/
theorem repeated_handle_consumes :
    ¬ (run step (begin 7 .poll [4, 4] (fun h => some h.toNat) fun _ => .semaphore 1 5)
      (replicate 6 (.own false false))).AllOrNothing := by
  intro all
  exact absurd (all (-etimedout) (by decide) 4) (by decide)

end Triskelion.WaitAll
