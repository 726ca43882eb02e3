import Mathlib.Data.List.Nodup
import Mathlib.Logic.Function.Basic
import Triskelion.RunRules

/-! The relay of the kernel module, `triskelion_relay.c`: the loop by which the daemon's write
finds the entry it answers, and the entries of all submitters under every interleaving of their
calls with the daemon's. What a lock protects is one step. -/

namespace Triskelion.Relay

open RunRules List Function

/-! ### Finding the entry of a reply -/

/-- A pointer to an entry. The head of a list, taken for an entry, is one like any other. -/
inductive Ptr
  | null
  | head
  | entry (index : Nat)
deriving DecidableEq

/-- `list_next_entry`. There is nothing to read at a null pointer. -/
def listNext (length : Nat) : Ptr → Option Ptr
  | .null => none
  | .head => some (if length = 0 then .head else .entry 0)
  | .entry i => some (if i + 1 < length then .entry (i + 1) else .head)

/-- `list_for_each_entry_safe(pos, n, ...)`, in at most `fuel` turns. The body says whether it
breaks off, and what it leaves in `n`. -/
def forEachEntrySafe (length : Nat) (body : Nat → Bool × Ptr) : Nat → Ptr → Ptr → Option Ptr
  | 0, _, _ => none
  | fuel + 1, pos, n =>
    match pos with
    | .null => none
    | .head => some n
    | .entry i =>
      if (body i).1 then some (body i).2
      else (listNext length (body i).2).bind (forEachEntrySafe length body fuel (body i).2)

section Find

variable {ι : Type*} [DecidableEq ι]

/-- The search of `triskelion_relay_daemon_write`: `tmp` runs over the list, and `entry` is both
the result and the successor that the macro keeps. -/
def findEntry (ids : List ι) (id : ι) : Option Ptr := do
  let tmp ← listNext ids.length .head
  let entry ← listNext ids.length tmp
  forEachEntrySafe ids.length
    (fun i => if ids[i]? = some id then (true, .entry i) else (false, .null))
    (ids.length + 1) tmp entry

@[simp] theorem findEntry_nil (id : ι) : findEntry [] id = some .head := rfl

@[simp] theorem findEntry_cons (x id : ι) (ids : List ι) :
    findEntry (x :: ids) id = if x = id then some (.entry 0) else none := by
  by_cases here : x = id <;> simp [findEntry, forEachEntrySafe, here, listNext]

theorem mem_of_findEntry {ids : List ι} {id : ι} {i : Nat}
    (found : findEntry ids id = some (.entry i)) : id ∈ ids := by
  cases ids with
  | nil => simp at found
  | cons x rest => grind [findEntry_cons]

theorem nil_of_findEntry {ids : List ι} {id : ι} (found : findEntry ids id = some .head) :
    ids = [] := by
  cases ids with
  | nil => rfl
  | cons x rest => grind [findEntry_cons]

end Find

structure Entry where
  requestId : UInt64
  /-- No buffer is made for a reply of no bytes. -/
  replyMax : UInt32
  reply : List UInt8
  replyFiles : List Nat
  status : Int
  completed : Bool
deriving DecidableEq

/-- What the daemon writes behind a complete header: the bytes, whether they can be copied, and
what became of the descriptors, if it sends any. -/
structure Reply where
  requestId : UInt64
  bytes : List UInt8
  readable : Bool
  files : Option (Except Int (List Nat))

def headerSize : Nat := 48

def efault : Int := 14

def esrch : Int := 3

def complete (e : Entry) (status ret : Int) : Entry × Int :=
  ({ e with status, completed := true }, ret)

def deliver (e : Entry) (w : Reply) : Entry × Int :=
  let copies := w.bytes ≠ [] ∧ e.replyMax ≠ 0
  if copies ∧ ¬ w.readable then complete e (-efault) (-efault)
  else
    let e := if copies then { e with reply := w.bytes.take e.replyMax.toNat } else e
    match w.files with
    | none => complete e 0 (headerSize + w.bytes.length)
    | some (.ok files) =>
      complete { e with replyFiles := files } 0 (headerSize + w.bytes.length)
    | some (.error err) => complete e err err

inductive WriteResult
  | oops
  /-- The reply goes to whatever lies behind the head of the list. -/
  | stray
  | returned (ret : Int) (inFlight : List Entry) (answered : Option Entry)
deriving DecidableEq

section
variable (inFlight : List Entry) (w : Reply)

def daemonWrite : WriteResult :=
  match findEntry (inFlight.map (·.requestId)) w.requestId with
  | none => .oops
  | some .head => .stray
  | some .null => .returned (-esrch) inFlight none
  | some (.entry i) =>
    match inFlight[i]? with
    | none => .oops
    | some e => .returned (deliver e w).2 (inFlight.eraseIdx i) (some (deliver e w).1)

def replyMatched : WriteResult :=
  match inFlight.find? (·.requestId = w.requestId) with
  | none => .returned (-esrch) inFlight none
  | some e => .returned (deliver e w).2 (inFlight.filter (·.requestId ≠ w.requestId))
      (some (deliver e w).1)

/-- A write reaches the entry it names exactly if that is the first of those in flight. -/
theorem reply_matched_iff (distinct : (inFlight.map (·.requestId)).Nodup) :
    daemonWrite inFlight w = replyMatched inFlight w ↔
      (inFlight.head?.map (·.requestId)) = some w.requestId := by
  cases inFlight with
  | nil => simp [daemonWrite, replyMatched]
  | cons e rest =>
    by_cases here : e.requestId = w.requestId
    · have others : rest.filter (·.requestId ≠ w.requestId) = rest := by
        refine filter_eq_self.mpr fun f mem => decide_eq_true fun alike => ?_
        exact (nodup_cons.mp distinct).1
          (mem_map.mpr ⟨f, mem, alike.trans here.symm⟩)
      simp only [ne_eq, decide_not] at others
      simp [daemonWrite, replyMatched, here, others]
    · simp only [daemonWrite, replyMatched, map_cons, findEntry_cons, if_neg here]
      cases (e :: rest).find? (·.requestId = w.requestId) <;> simp [here]

end

theorem first_entry_answered : 
    daemonWrite [⟨7, 4, [], [], 0, false⟩, ⟨8, 0, [], [], 0, false⟩] ⟨7, [1, 2], true, none⟩ =
      replyMatched [⟨7, 4, [], [], 0, false⟩, ⟨8, 0, [], [], 0, false⟩] ⟨7, [1, 2], true, none⟩ :=
  (reply_matched_iff _ _ (by decide)).mpr rfl

/-- The second of two entries is answered. -/
theorem second_entry_faults :
    daemonWrite [⟨7, 4, [], [], 0, false⟩, ⟨8, 4, [], [], 0, false⟩] ⟨8, [1, 2], true, none⟩ = .oops ∧
      replyMatched [⟨7, 4, [], [], 0, false⟩, ⟨8, 4, [], [], 0, false⟩] ⟨8, [1, 2], true, none⟩ =
        .returned 50 [⟨7, 4, [], [], 0, false⟩] (some ⟨8, 4, [1, 2], [], 0, true⟩) := by
  decide +kernel

/-! ### The entries of all submitters -/

/-- Where the call of a submitter stands: it has seen a daemon, it has queued its entry, it has
freed it. -/
inductive Phase
  | unborn
  | checked
  | waiting
  | freed
deriving DecidableEq

/-- An entry, with how often it was unlinked and freed. -/
structure Request where
  phase : Phase := .unborn
  completed : Bool := false
  unlinks : Nat := 0
  frees : Nat := 0
deriving DecidableEq

structure State where
  daemon : Option Nat := none
  requests : Nat → Request := fun _ => {}
  next : Nat := 0
  pending : List Nat := []
  inFlight : List Nat := []
  /-- The clients that sleep in a read. -/
  readers : List Nat := []
  /-- The calls of the daemon that have left the lock and still work on an entry. -/
  reads : List (Nat × Nat) := []
  writes : List (Nat × Nat) := []
  /-- Released daemons that have yet to abort all requests. -/
  leaving : List Nat := []
  /-- The reads that ended well. -/
  handed : List (Nat × Nat) := []
  usedFreed : Bool := false
  /-- A null pointer was followed with the lock held. -/
  down : Bool := false
  /-- The head of the list was taken for an entry and written to. -/
  stray : Bool := false

namespace State

variable (s : State)

def modify (r : Nat) (f : Request → Request) : State :=
  { s with requests := update s.requests r (f (s.requests r)) }

def touch (r : Nat) : State :=
  { s with usedFreed := s.usedFreed || (s.requests r).phase == .freed }

/-- `list_del`. -/
def unlink (r : Nat) : State :=
  { s.modify r fun q => { q with unlinks := q.unlinks + 1 } with
    pending := s.pending.erase r, inFlight := s.inFlight.erase r }

def free (r : Nat) : State :=
  s.modify r fun q => { q with phase := .freed, frees := q.frees + 1 }

def abortAll : State :=
  { s with
    pending := [], inFlight := []
    requests := fun r =>
      if r ∈ s.pending ++ s.inFlight then
        { s.requests r with completed := true, unlinks := (s.requests r).unlinks + 1 }
      else s.requests r }

end State

inductive Event
  | check
  | enqueue (r : Nat)
  | wake (r : Nat)
  | interrupt (r : Nat)
  | enterRead (c : Nat)
  | dequeue (c : Nat)
  | access (c r : Nat)
  | endRead (c r : Nat) (success : Bool)
  | find (c r : Nat)
  | complete (c r : Nat)
  | endWrite (c r : Nat)
  | register (c : Nat)
  | release (c : Nat)
  | abort (c : Nat)

section
variable (s : State)

/-- One step of one process. Where it is not the process's turn, nothing happens. -/
def act : Event → State
  -- `triskelion_relay_submit`: up to the queue, the wait, the signal
  | .check =>
    if s.daemon.isSome then
      { s.modify s.next fun q => { q with phase := .checked } with next := s.next + 1 }
    else s
  | .enqueue r =>
    if (s.requests r).phase = .checked then
      { s.modify r fun q => { q with phase := .waiting } with pending := s.pending ++ [r] }
    else s
  | .wake r =>
    if (s.requests r).phase = .waiting ∧ (s.requests r).completed then s.free r else s
  | .interrupt r =>
    if (s.requests r).phase = .waiting then
      if (s.requests r).completed then s.free r else (s.unlink r).free r
    else s
  -- `triskelion_relay_daemon_read`
  | .enterRead c => if s.daemon = some c then { s with readers := c :: s.readers } else s
  | .dequeue c =>
    if c ∈ s.readers then
      match s.pending with
      | [] => { s with readers := s.readers.erase c }
      | r :: rest =>
        { s with
          readers := s.readers.erase c, pending := rest, inFlight := s.inFlight ++ [r]
          reads := (c, r) :: s.reads }
    else s
  | .access c r => if (c, r) ∈ s.reads ++ s.writes then s.touch r else s
  | .endRead c r success =>
    if (c, r) ∈ s.reads then
      { s.touch r with
        reads := s.reads.erase (c, r)
        handed := if success then (c, r) :: s.handed else s.handed }
    else s
  -- `triskelion_relay_daemon_write`
  | .find c r =>
    match findEntry s.inFlight r with
    | none => { s with down := true }
    | some (.entry _) => { s.unlink r with writes := (c, r) :: s.writes }
    | some .head => { s with stray := true }
    | some .null => s
  | .complete c r =>
    if (c, r) ∈ s.writes then (s.touch r).modify r fun q => { q with completed := true } else s
  | .endWrite c r =>
    if (c, r) ∈ s.writes ∧ (s.requests r).completed then { s.touch r with writes := s.writes.erase (c, r) } else s
  -- `do_register_daemon`, and the two sections of `triskelion_release`
  | .register c =>
    { (if s.daemon = none ∨ s.daemon = some c then s else s.abortAll) with daemon := some c }
  | .release c =>
    if s.daemon = some c ∧ c ∉ s.readers ∧ c ∉ (s.reads ++ s.writes).map Prod.fst then
      { s with daemon := none, leaving := c :: s.leaving }
    else s
  | .abort c =>
    if c ∈ s.leaving then { s.abortAll with leaving := s.leaving.erase c } else s

/-- After a fault nothing moves any more. -/
def step (event : Event) : State := if s.down || s.stray then s else act s event

/-! ### Entries are unlinked and freed once -/

def linked : List Nat := s.pending ++ s.inFlight

def held : List Nat := (s.reads ++ s.writes).map Prod.snd

def Request.Once (q : Request) : Prop :=
  q.unlinks ≤ 1 ∧ q.frees ≤ 1 ∧ (q.phase = .freed → q.unlinks = 1 ∧ q.frees = 1)

def EntriesSafe : Prop := s.usedFreed = false ∧ s.stray = false ∧ ∀ r, (s.requests r).Once

/-- A submitter goes on when no call of the daemon works on its entry, a signal finds the entry
pending if it is not completed, and a write finds some entry in flight. -/
def undisturbed : Event → Bool
  | .wake r => r ∉ held s
  | .interrupt r => r ∉ held s ∧ ((s.requests r).completed ∨ r ∈ s.pending)
  | .find _ _ => s.inFlight ≠ []
  | _ => true

end

/-- What an entry looks like while its submitter waits, and before and after. -/
def Fits (q : Request) (linked reading writing : Prop) : Prop :=
  match q.phase with
  | .waiting => q.frees = 0 ∧ (linked → q.unlinks = 0 ∧ q.completed = false ∧ ¬ writing) ∧
      (¬ linked → q.unlinks = 1)
  | .freed => q.unlinks = 1 ∧ q.frees = 1 ∧ ¬ linked ∧ ¬ reading ∧ ¬ writing
  | _ => q.unlinks = 0 ∧ q.frees = 0 ∧ q.completed = false ∧ ¬ linked ∧ ¬ reading ∧ ¬ writing

structure Sound (s : State) : Prop where
  unused : s.usedFreed = false
  steady : s.stray = false
  nodup : (linked s).Nodup
  fresh : ∀ r, s.next ≤ r → (s.requests r).phase = .unborn
  fits : ∀ r, Fits (s.requests r) (r ∈ linked s) (r ∈ s.reads.map Prod.snd)
    (r ∈ s.writes.map Prod.snd)

theorem Fits.once {q : Request} {linked reading writing : Prop}
    (fits : Fits q linked reading writing) : q.Once := by
  unfold Fits at fits
  unfold Request.Once
  by_cases in_list : linked <;> cases at_phase : q.phase <;> simp_all

variable {event : Event}

theorem Sound.act {s : State} (sound : Sound s)
    (quiet : undisturbed s event) : Sound (act s event) := by
  obtain ⟨unused, steady, nodup, fresh, fits⟩ := sound
  cases event <;>
    simp only [Relay.act, State.modify, State.touch, State.unlink, State.free, State.abortAll]
  case find c r =>
    split
    case h_2 found =>
      have mem := mem_of_findEntry found
      constructor <;> simp only [linked, Fits] at * <;> grind [update_apply]
    case h_3 astray => simp [undisturbed, nil_of_findEntry astray] at quiet
    all_goals constructor <;> assumption
  -- in each other step the entry it names is the only one that changes
  all_goals
    repeat' split
    all_goals
      constructor <;> simp only [linked, held, undisturbed, Fits] at * <;>
        grind [update_apply]

theorem Sound.step {s : State} (sound : Sound s)
    (quiet : undisturbed s event) : Sound (step s event) := by
  unfold Relay.step
  split
  · exact sound
  · exact sound.act quiet

theorem entries_safe_of_undisturbed (events : List Event)
    (quiet : AllSteps step (fun s event => undisturbed s event) {} events) :
    ∀ s ∈ states step {} events, EntriesSafe s := by
  have start : Sound {} := ⟨rfl, rfl, nodup_nil, fun _ _ => rfl, fun _ => by simp [Fits, linked]⟩
  intro s reached
  have sound := good_of_allSteps (fun _ _ => Sound.step) start quiet s reached
  exact ⟨sound.unused, sound.steady, fun r => (sound.fits r).once⟩

def ordinary : List Event :=
  [.register 1, .check, .enqueue 0, .check, .enqueue 1, .enterRead 1, .dequeue 1, .access 1 0,
    .endRead 1 0 true, .find 1 0, .access 1 0, .complete 1 0, .endWrite 1 0, .wake 0, .interrupt 1]

theorem ordinary_entries_safe : EntriesSafe (run step {} ordinary) :=
  entries_safe_of_undisturbed ordinary (by decide) _ (run_mem_states _ _)

/-- A signal arrives while the daemon reads the request. -/
theorem interrupted_read_uses_freed :
    ¬ EntriesSafe (run step {} [.register 1, .check, .enqueue 0, .enterRead 1, .dequeue 1,
      .interrupt 0, .access 1 0]) :=
  fun safe => absurd safe.1 (by decide)

/-! ### No request is stranded -/

/-- An unfinished request is pending while a daemon is registered, or that daemon has read it,
unless a call is still under way that hands it over, answers it or aborts it. -/
def Attended (s : State) (r : Nat) : Prop :=
  (s.requests r).phase = .waiting → (s.requests r).completed = false →
    r ∈ s.pending ∧ (s.daemon.isSome ∨ s.leaving ≠ []) ∨
    r ∈ s.inFlight ∧ (s.daemon.any (fun c => (c, r) ∈ s.handed ++ s.reads) ∨ s.leaving ≠ []) ∨
    r ∈ s.writes.map Prod.snd

def NoneStranded (s : State) : Prop := (s.down || s.stray) = false ∧ ∀ r, Attended s r

/-- A request is queued while a daemon is there, a read is that of the registered daemon and ends
well, and a write names the first request in flight. -/
def served (s : State) : Event → Bool
  | .enqueue _ => s.daemon.isSome ∨ s.leaving ≠ []
  | .dequeue c => s.daemon = some c
  | .endRead _ _ success => success
  | .find _ r => s.inFlight.head? = some r
  | _ => true

theorem Attended.act {s : State} {q : Nat} (attended : Attended s q)
    (fine : served s event) : Attended (act s event) q := by
  cases event <;>
    simp only [Relay.act, State.modify, State.touch, State.unlink, State.free, State.abortAll]
  case endWrite c r =>
    split
    case isFalse => exact attended
    case isTrue ended =>
      intro waiting unfinished
      refine (attended waiting unfinished).imp_right (Or.imp_right fun under_way => ?_)
      obtain ⟨call, mem, rfl⟩ := mem_map.mp under_way
      -- the write that ends has completed its request, so this is another one
      have other : call ≠ (c, r) := fun same => by simp_all
      exact mem_map_of_mem ((mem_erase_of_ne other).mpr mem)
  all_goals
    repeat' split
    all_goals
      simp only [Attended, served] at *
      grind [update_apply]

theorem up_act {s : State} (up : (s.down || s.stray) = false)
    (fine : served s event) : ((act s event).down || (act s event).stray) = false := by
  cases event <;>
    simp only [Relay.act, State.modify, State.touch, State.unlink, State.free, State.abortAll]
  case find c r =>
    cases at_list : s.inFlight <;> simp_all [served]
  all_goals
    repeat' split
    all_goals exact up

theorem none_stranded_of_served (events : List Event)
    (fine : AllSteps step (fun s event => served s event) {} events) :
    ∀ s ∈ states step {} events, NoneStranded s := by
  have keep : ∀ s event, NoneStranded s → served s event → NoneStranded (step s event) := by
    intro s event fair fine
    rw [Relay.step, if_neg (by simp [fair.1])]
    exact ⟨up_act fair.1 fine, fun r => (fair.2 r).act fine⟩
  exact good_of_allSteps keep ⟨rfl, fun _ waiting => by cases waiting⟩ fine

theorem ordinary_none_stranded : NoneStranded (run step {} ordinary) :=
  none_stranded_of_served ordinary (by decide) _ (run_mem_states _ _)

/-- The buffer of the daemon is too small for the request. -/
theorem failed_read_strands :
    ¬ NoneStranded (run step {} [.register 1, .check, .enqueue 0, .enterRead 1, .dequeue 1,
      .endRead 1 0 false]) :=
  fun fair => absurd (fair.2 0) (by unfold Attended; decide)

end Triskelion.Relay
