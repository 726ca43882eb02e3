import Triskelion.PipeSlots
import Triskelion.Wiring

/-! Which sockets the two ends of a named pipe are. A pipe's instance keeps the client's end
of a pair of sockets whose server end is in the entry of the server handle; a client that
connects gets a copy of the end that is kept. The ends are told apart by a record beside the
tables, and so are the connections that were made and not ended. -/

namespace Triskelion.PipePairing

open DescriptorTables PipeSlots RunRules List Option NamedPipeInfo HandleTable Function

inductive PipeRequest
  | newProcess (pid : UInt32)
  | createNamedPipe (pid : UInt32) (name : String) (fds : Option (Int × Int))
  | connect (pid : UInt32) (name : String) (access options : UInt32) (fd : Option Int)
  | pipeListen (pid handle : UInt32) (overlapped : Bool) (evt : Option Int)
      (fds : Option (Int × Int))
  | pipeDisconnect (pid handle : UInt32) (fds : Option (Int × Int))
  | closeHandle (pid handle : UInt32)

def PipeRequest.request : PipeRequest → Request
  | .newProcess pid => .newProcess pid
  | .createNamedPipe pid name fds => .createNamedPipe pid name fds
  | .connect pid name access options fd => .connect pid name access options fd
  | .pipeListen pid handle overlapped evt fds => .pipeListen pid handle overlapped evt fds
  | .pipeDisconnect pid handle fds => .pipeDisconnect pid handle fds
  | .closeHandle pid handle => .closeHandle pid handle

def PipeRequest.sockets : PipeRequest → Option (Int × Int)
  | .createNamedPipe _ _ fds | .pipeListen _ _ _ _ fds | .pipeDisconnect _ _ fds => fds
  | .newProcess _ | .connect _ _ _ _ _ | .closeHandle _ _ => none

/-- The tables, with which end of which pair a descriptor is, and the connections. -/
structure Pairing where
  tables : DescriptorTables
  ends : Int → Option SocketEnd
  pairs : Nat
  links : List (Slot × Slot)

def Pairing.new : Pairing := ⟨.new, fun _ => none, 0, []⟩

/-- What a new descriptor is. A copy is the same end as what it is a copy of. -/
def newEnd (s : Pairing) : PipeRequest → Int → Option SocketEnd
  | .connect _ name _ _ fd, x =>
    if fd = some x then (s.tables.findListening name).bind fun info => s.ends info.clientDataFd
    else none
  | req, x => req.sockets.bind fun fds =>
    if x = fds.1 then some ⟨s.pairs, true⟩ else if x = fds.2 then some ⟨s.pairs, false⟩ else none

def tagged (s : Pairing) (req : PipeRequest) (x : Int) : Option SocketEnd :=
  (newEnd s req x).or (s.ends x)

section
variable (s : DescriptorTables)

def newLink : PipeRequest → Option (Slot × Slot)
  | .connect pid name _ _ (some _) =>
    (s.findListening name).bind fun info =>
      if (slotFd s (server info)).isSome ∧ s.processes.contains pid = true then
        some (server info, nextSlot s pid)
      else none
  | _ => none

def ended (req : PipeRequest) (link : Slot × Slot) : Bool :=
  match req with
  | .pipeDisconnect pid handle _ => (s.findInstance pid handle).isSome && link.1 = slotOf pid handle
  | .closeHandle pid handle => link.1 = slotOf pid handle || link.2 = slotOf pid handle
  | _ => false

def remaining (s : Pairing) (req : PipeRequest) : List (Slot × Slot) :=
  s.links.filter fun link => !ended s.tables req link

def step (s : Pairing) (req : PipeRequest) : Pairing :=
  let after := s.tables.step req.request
  { tables := after
    ends := fun x => if opened after x then tagged s req x else none
    pairs := s.pairs + 1
    links := remaining s req ++ (newLink s.tables req).toList }

def wired (live : Int → Bool) (tag : Int → Option SocketEnd)
    (links : List (Slot × Slot)) : Wiring Slot Place :=
  ⟨slotFd s, places s, live, tag, links⟩

def view (s : Pairing) : Wiring Slot Place := wired s.tables (opened s.tables) s.ends s.links

/-! ### Requests that break a connection -/

def pends (pid handle : UInt32) (overlapped : Bool) (evt : Option Int) : Bool :=
  (s.findInstance pid handle).isSome && (overlapped || (s.allocEventHandle pid false evt).1 ≠ 0)

/-- A listen that finds a client is not left to wait for one. -/
def reports (s : Pairing) : PipeRequest → Bool
  | .pipeListen pid handle overlapped evt _ =>
    !pends s.tables pid handle overlapped evt || s.links.all fun link => link.1 ≠ slotOf pid handle
  | _ => true

/-- The pipe side table names the descriptor of the handle, or none that is open. -/
def current (pid handle : UInt32) : Bool :=
  (s.sideTables.pipeHandles.get? (pid, handle)).all fun fd =>
    slotFd s (slotOf pid handle) = some fd || !opened s fd

/-- A process that needs a handle has some left, and no stale number is closed. -/
def orderly : PipeRequest → Bool
  | .createNamedPipe pid _ _ | .connect pid _ _ _ _ | .pipeListen pid _ _ _ _ => room s pid
  | .closeHandle pid handle => current s pid handle
  | .newProcess _ | .pipeDisconnect _ _ _ => true

end

def careful (s : Pairing) (req : PipeRequest) : Bool := orderly s.tables req && reports s req

def legal (s : Pairing) (req : PipeRequest) : Prop := Legal s.tables req.request

instance decidableLegal (s : Pairing) (req : PipeRequest) : Decidable (legal s req) :=
  inferInstanceAs (Decidable (Legal s.tables req.request))

structure Kept (s : Pairing) : Prop where
  sound : (view s).Sound
  tidy : Tidy s.tables

/-! ### Steps -/

variable {after : DescriptorTables} {fds : Option (Int × Int)} {name : String} {x : Int}

section Steps
variable {s : DescriptorTables} {live : Int → Bool} {tag : Int → Option SocketEnd}
  {links : List (Slot × Slot)} {pid handle : UInt32}

def NewPair (w : Wiring Slot Place) (fds : Option (Int × Int)) : Prop :=
  ∀ a b, fds = some (a, b) → w.Spare a ∧ w.Spare b ∧ a ≠ b ∧ w.Joined a b

theorem wired_same {s' : DescriptorTables} (slots : slotFd s' = slotFd s)
    (kept : places s' = places s) : wired s' live tag links = wired s live tag links := by
  rw [wired, wired, slots, kept]

section
variable (tidy : Tidy s) (sound : (wired s live tag links).Sound)
include tidy sound

theorem sound_allocEntry
    (fits : ∀ t, s.processes.get? pid = some t → t.slab.slots.length < slotLimit)
    (entry : HandleEntry) (has : entry.fd = some x) (new : 0 ≤ x → (wired s live tag links).Spare x) :
    (wired (s.allocEntry pid entry).2 live tag links).Sound ∧
      ∀ y, (wired (s.allocEntry pid entry).2 live tag links).Recorded y →
        y = x ∨ (wired s live tag links).Recorded y := by
  cases found : s.processes.get? pid with
  | none =>
    rw [allocEntry_unknown found]
    exact ⟨sound, fun y recorded => .inr recorded⟩
  | some t =>
    have slots := slotFd_allocEntry found (tidy.tables pid t found).level (fits t found) entry
    have kept := places_of_namedPipes (allocEntry_namedPipes s pid entry)
    obtain ⟨vacant, outside⟩ := tidy.next_vacant found (fits t found)
    rw [wired, slots, kept, has]
    refine ⟨sound.store vacant (fun i slot y at_i => ?_) new, fun y recorded => ?_⟩
    · rintro rfl
      exact outside (tidy.served i _ y at_i)
    · exact Wiring.recorded_store recorded

/-- The server end goes into a slot. The client's end goes to an instance, or, where the pipe
has no name, into the next slot. -/
theorem sound_createNamedPipe (space : room s pid) {a b : Int}
    (a_spare : (wired s live tag links).Spare a) (b_spare : (wired s live tag links).Spare b)
    (apart : a ≠ b) (joined : (wired s live tag links).Joined a b) :
    (wired (s.createNamedPipe pid name (some (a, b))) live tag links).Sound ∧
      Tidy (s.createNamedPipe pid name (some (a, b))) ∧
      opened (s.createNamedPipe pid name (some (a, b))) =
        opened ((s.openFd pid a).openFd pid b) := by
  let base : DescriptorTables := { (s.openFd pid a).openFd pid b with
    nextObjectId := s.nextObjectId + 1 }
  let entry : HandleEntry := ⟨s.nextObjectId, some a, fdTypeDevice, 0x001F01FF, 0x20⟩
  let made := base.allocEntry pid entry
  have ready : Tidy base := tidy.of_tables rfl rfl rfl rfl
  have wide : room base pid := space
  have fits : ∀ t, base.processes.get? pid = some t → t.slab.slots.length < slotLimit :=
    fun _ => room_lt space
  have alloc : Tidy made.2 := ready.allocEntry (some_ne_none a) fits
  obtain ⟨stored, held⟩ := sound_allocEntry ready sound fits entry rfl fun _ => a_spare
  have spare : (wired made.2 live tag links).Spare b := by
    refine ⟨b_spare.1, b_spare.2.1, fun recorded => ?_⟩
    rcases held b recorded with same | before
    · exact apart same.symm
    · exact b_spare.2.2 before
  have handle : made.1 = s.nextHandle pid := allocEntry_fst
  have kernel := allocEntry_kernel base pid entry
  unfold createNamedPipe
  split_ifs with named
  · let info : NamedPipeInfo := ⟨pid, made.1, b, .listening⟩
    have at_next : server info = nextSlot base pid := congrArg (slotOf pid) handle
    refine ⟨?_, ?_, ?_⟩
    · change (wired ((made.2.trackPipe pid made.1 a).addInstance name info) live tag links).Sound
      rw [wired, places_addInstance]
      refine stored.keep spare ?_ ?_ <;> rw [at_next]
      · exact fun j y there => ready.next_unserved fits there
      · intro y holds
        cases ready.next_stored fits holds
        exact ⟨a_spare.1, joined⟩
    · have tracked : Tidy (made.2.trackPipe pid made.1 a) := alloc.of_tables rfl rfl rfl rfl
      refine tracked.addInstance name info ?_
      rw [at_next]
      exact (ready.next_inside fits entry).of_processes rfl
    · exact congrArg (fun k : Kernel => fun x => k.descriptors.contains x) kernel
  · let tracked : DescriptorTables := { made.2.trackPipe pid made.1 a with
      nextObjectId := made.2.nextObjectId + 1 }
    let far : HandleEntry := ⟨made.2.nextObjectId, some b, fdTypeDevice, 0x0012019F, 0⟩
    have again : Tidy tracked := alloc.of_tables rfl rfl rfl rfl
    have fits' : ∀ t, tracked.processes.get? pid = some t → t.slab.slots.length < slotLimit :=
      fun t found => fits_allocEntry wide found
    refine ⟨(sound_allocEntry again stored fits' far rfl fun _ => spare).1,
      again.allocEntry (some_ne_none b) fits', ?_⟩
    have same := (allocEntry_kernel tracked pid far).trans kernel
    exact congrArg (fun k : Kernel => fun x => k.descriptors.contains x) same

theorem sound_tryConnect
    (space : room s pid) (access options : UInt32) {copy : Int} {info : NamedPipeInfo}
    (listening : s.findListening name = some info) (spare : (wired s live tag links).Spare copy) :
    (wired (s.tryConnectNamedPipe pid name access options (some copy)) live tag links).Sound ∧
      Tidy (s.tryConnectNamedPipe pid name access options (some copy)) ∧
      opened (s.tryConnectNamedPipe pid name access options (some copy)) =
        opened (s.openFd pid copy) ∧
      (s.processes.contains pid →
        slotFd (s.tryConnectNamedPipe pid name access options (some copy)) =
          update (slotFd s) (nextSlot s pid) (some copy)) := by
  let base : DescriptorTables := { (s.useFd info.clientDataFd).openFd pid copy with
    namedPipes := s.namedPipes.modify name
      (updateFirst isListening fun i => { i with state := .connected })
    nextObjectId := s.nextObjectId + 1 }
  let entry : HandleEntry :=
    ⟨s.nextObjectId, some copy, fdTypeDevice, mapFileAccess access, options ||| 0x20⟩
  let made := base.allocEntry pid entry
  have kept : places base = places s :=
    (places_of_namedPipes rfl).trans (places_updateState isListening .connected)
  have same : wired base live tag links = wired s live tag links := wired_same rfl kept
  have ready : Tidy base := by
    have moved := tidy.updateFirst name isListening
      (f := fun i => { i with state := .connected }) fun _ => rfl
    exact moved.of_tables rfl rfl rfl rfl
  have fits : ∀ t, base.processes.get? pid = some t → t.slab.slots.length < slotLimit :=
    fun _ => room_lt space
  have stored := (sound_allocEntry ready (same ▸ sound) fits entry rfl fun _ => same ▸ spare).1
  have alloc : Tidy made.2 := ready.allocEntry (some_ne_none copy) fits
  have kernel : opened made.2 = opened (s.openFd pid copy) := by
    funext x
    rw [opened_openFd, ← opened_useFd s info.clientDataFd, ← opened_openFd]
    exact congrArg (fun k : Kernel => k.descriptors.contains x) (allocEntry_kernel base pid entry)
  unfold tryConnectNamedPipe
  rw [listening]
  split_ifs with known
  · refine ⟨stored, alloc.of_tables rfl rfl rfl rfl, kernel, fun _ => ?_⟩
    obtain ⟨t, found⟩ := (Table.contains_iff _ _).mp known
    exact slotFd_allocEntry (s := base) found (ready.tables pid t found).level (fits t found) entry
  · exact ⟨stored, alloc, kernel, fun yes => absurd yes known⟩

end

theorem sound_relisten (sound : (wired s live tag links).Sound)
    (relistened : Relistened s after (slotOf pid handle) fds)
    (new : NewPair (wired s live tag links) fds)
    (unlinked : ∀ link ∈ links, link.1 ≠ slotOf pid handle)
    (still : ∀ x, (wired s live tag links).Recorded x → opened s x) :
    (wired after live tag links).Sound ∧
      ∀ x, (wired after live tag links).Recorded x → opened after x := by
  cases relistened with
  | same slots kept kernel =>
    rw [wired_same slots kept, kernel]
    exact ⟨sound, still⟩
  | renewed i old a b pair here slots kept remains =>
    obtain ⟨a_spare, b_spare, apart, joined⟩ := new a b pair
    -- the new ends are neither what the slot held nor what the instance kept
    have fresh : ∀ x, (wired s live tag links).Spare x →
        slotFd s (slotOf pid handle) ≠ some x ∧ x ≠ old := by
      intro x spare
      refine ⟨fun at_slot => spare.2.2 ⟨spare.1, .inl ⟨_, at_slot⟩⟩, ?_⟩
      rintro rfl
      exact spare.2.2 ⟨spare.1, .inr ⟨i, _, here⟩⟩
    rw [wired, slots, kept]
    refine ⟨sound.renew here a_spare b_spare apart joined unlinked, fun x recorded => ?_⟩
    rcases sound.recorded_renew here recorded with rfl | rfl | ⟨before, elsewhere, other⟩
    · exact remains x (.inr (.inl rfl)) (fresh x a_spare).1 (fresh x a_spare).2
    · exact remains x (.inr (.inr rfl)) (fresh x b_spare).1 (fresh x b_spare).2
    · exact remains x (.inl (still x before)) elsewhere other

end Steps

/-! ### Requests -/

section Requests
variable {s : Pairing} {req : PipeRequest} {pid handle : UInt32}

def reach (s : Pairing) (req : PipeRequest) (x : Int) : Bool :=
  opened s.tables x || req.request.returned.contains x

/-- The wiring before a request, with the descriptors that the request opens. -/
abbrev awaiting (s : Pairing) (req : PipeRequest) : Wiring Slot Place :=
  wired s.tables (reach s req) (tagged s req) s.links

theorem newEnd_none (other : x ∉ req.request.returned) : newEnd s req x = none := by
  have unpaired : ∀ fds : Option (Int × Int), x ∉ pairList fds →
      (fds.bind fun fds => if x = fds.1 then some (SocketEnd.mk s.pairs true)
        else if x = fds.2 then some ⟨s.pairs, false⟩ else none) = none := by
    intro fds off
    cases fds with
    | none => rfl
    | some =>
      simp only [pairList, mem_cons, not_mem_nil, or_false, not_or] at off
      simp [off.1, off.2]
  cases req with
  | newProcess | closeHandle => rfl
  | createNamedPipe _ _ fds | pipeDisconnect _ _ fds => exact unpaired fds other
  | pipeListen _ _ _ _ fds => exact unpaired fds fun mem => other (mem_append_right _ mem)
  | connect _ _ _ _ fd =>
    have differs : fd ≠ some x := by
      rintro rfl
      exact other mem_cons_self
    rw [newEnd, if_neg differs]

theorem unopened_of_legal (legal : legal s req) (mem : x ∈ req.request.returned) :
    0 ≤ x ∧ opened s.tables x = false := by
  obtain ⟨nonneg, absent⟩ := legal.2.1 x mem
  refine ⟨nonneg, ?_⟩
  rw [opened, Table.contains, absent]
  rfl

theorem tagged_opened (legal : legal s req) (live : opened s.tables x) :
    tagged s req x = s.ends x := by
  have other : x ∉ req.request.returned := fun mem => by
    rw [(unopened_of_legal legal mem).2] at live
    cases live
  rw [tagged, newEnd_none other, none_or]

section
variable (sound : (view s).Sound) (legal : legal s req)
include sound legal

theorem sound_awaiting : (awaiting s req).Sound := by
  refine sound.retag fun x recorded => ?_
  have live : opened s.tables x := sound.live_of_recorded recorded
  exact ⟨by rw [reach, live, Bool.true_or], tagged_opened legal live⟩

theorem sound_remaining : (wired s.tables (reach s req) (tagged s req) (remaining s req)).Sound :=
  (sound_awaiting sound legal).unlink (filter_subset_self _)

theorem spare_returned (mem : x ∈ req.request.returned) : (awaiting s req).Spare x := by
  obtain ⟨nonneg, closed⟩ := unopened_of_legal legal mem
  refine ⟨nonneg, by simp [wired, reach, mem], fun recorded => ?_⟩
  have live : opened s.tables x := sound.live_of_recorded recorded
  rw [closed] at live
  cases live

end

theorem joined_sockets (legal : legal s req) {a b : Int}
    (pair : req.sockets = some (a, b)) : (awaiting s req).Joined a b ∧ a ≠ b := by
  have apart : a ≠ b := by
    have nodup := legal.1
    cases req with
    | createNamedPipe | pipeDisconnect =>
      cases pair
      simpa [PipeRequest.request, Request.returned, pairList] using nodup
    | pipeListen =>
      cases pair
      have right := (nodup_append.mp nodup).2.1
      simpa [pairList] using right
    | _ => cases pair
  have ends : ∀ x, newEnd s req x = req.sockets.bind fun fds =>
      if x = fds.1 then some ⟨s.pairs, true⟩ else if x = fds.2 then some ⟨s.pairs, false⟩
      else none := by
    intro x
    cases req with
    | connect => cases pair
    | _ => rfl
  refine ⟨⟨s.pairs, ?_, ?_⟩, apart⟩
  · simp [awaiting, wired, tagged, ends, pair]
  · simp [awaiting, wired, tagged, ends, pair, apart.symm]

theorem newPair_sockets (sound : (view s).Sound) (legal : legal s req)
    (listed : pairList req.sockets ⊆ req.request.returned) : NewPair (awaiting s req) req.sockets := by
  intro a b pair
  rw [pair] at listed
  obtain ⟨joined, apart⟩ := joined_sockets legal pair
  exact ⟨spare_returned sound legal (listed mem_cons_self),
    spare_returned sound legal (listed (mem_cons_of_mem a mem_cons_self)), apart, joined⟩

section
variable
  (sound : (wired (s.tables.step req.request) (reach s req) (tagged s req) (step s req).links).Sound)
include sound

theorem sound_step (still : ∀ x, (wired (s.tables.step req.request) (reach s req) (tagged s req)
      (step s req).links).Recorded x → opened (s.tables.step req.request) x) :
    (view (step s req)).Sound := by
  refine sound.retag fun x recorded => ?_
  have live := still x recorded
  exact ⟨live, if_pos live⟩

theorem sound_step_open
    (grows : ∀ x, reach s req x → opened (s.tables.step req.request) x) :
    (view (step s req)).Sound :=
  sound_step sound fun x recorded => grows x (sound.live_of_recorded recorded)

end

theorem step_unmoved (sound : (view s).Sound) (legal : legal s req)
    (moved : s.tables.step req.request = after) (slots : slotFd after = slotFd s.tables)
    (kept : places after = places s.tables) (tidy : Tidy after)
    (links : (step s req).links = s.links)
    (still : ∀ x, opened s.tables x → opened after x) : Kept (step s req) := by
  subst moved
  have same : wired (s.tables.step req.request) (reach s req) (tagged s req) s.links =
      awaiting s req := wired_same slots kept
  refine ⟨sound_step ?_ fun x recorded => ?_, tidy⟩
  · rw [links, same]
    exact sound_awaiting sound legal
  · rw [links, same] at recorded
    exact still x (sound.live_of_recorded recorded)

theorem step_relisten {t : DescriptorTables} {renew : NamedPipeInfo → Bool}
    (moved : s.tables.step req.request = t.relisten pid handle renew req.sockets) (tidy : Tidy t)
    (sound : (wired t (reach s req) (tagged s req) (step s req).links).Sound)
    (new : NewPair (wired t (reach s req) (tagged s req) (step s req).links) req.sockets)
    (unlinked : ∀ link ∈ (step s req).links, link.1 ≠ slotOf pid handle)
    (still : ∀ x, (wired t (reach s req) (tagged s req) (step s req).links).Recorded x →
      opened t x) : Kept (step s req) := by
  obtain ⟨after, live⟩ := sound_relisten sound (relistened tidy renew req.sockets) new unlinked still
  rw [← moved] at after live
  refine ⟨sound_step after live, ?_⟩
  change Tidy (s.tables.step req.request)
  rw [moved]
  exact tidy.relisten renew req.sockets

section
variable (sound : (view s).Sound) (tidy : Tidy s.tables)
include sound tidy

theorem newProcess_step (legal : legal s (.newProcess pid)) : Kept (step s (.newProcess pid)) := by
  have unknown : s.tables.processes.get? pid = none := by
    have absent := legal.2.2
    simpa [PipeRequest.request, Request.created, Table.contains] using absent
  have added : Tidy (s.tables.step (.newProcess pid)) := by
    refine tidy.insert sane_new fun t found => ?_
    rw [unknown] at found
    cases found
  have links : (step s (.newProcess pid)).links = s.links := by simp [step, remaining, ended, newLink]
  exact step_unmoved sound legal rfl (slotFd_newProcess unknown) rfl added links fun x live => live

theorem createNamedPipe_step (legal : legal s (.createNamedPipe pid name fds))
    (space : room s.tables pid) : Kept (step s (.createNamedPipe pid name fds)) := by
  have links : (step s (.createNamedPipe pid name fds)).links = s.links := by
    simp [step, remaining, ended, newLink]
  cases fds with
  | none => exact step_unmoved sound legal rfl rfl rfl tidy links fun x live => live
  | some pair =>
    obtain ⟨a, b⟩ := pair
    obtain ⟨a_spare, b_spare, apart, joined⟩ := newPair_sockets sound legal (List.Subset.refl _) a b rfl
    obtain ⟨made, kept, kernel⟩ := sound_createNamedPipe tidy (sound_awaiting sound legal) space
      a_spare b_spare apart joined
    refine ⟨sound_step_open ?_ fun x live => ?_, kept⟩
    · rw [links]
      exact made
    · change opened (s.tables.createNamedPipe pid name (some (a, b))) x
      rw [kernel, opened_openFd, opened_openFd]
      simp only [reach, PipeRequest.request, Request.returned, pairList, Bool.or_eq_true,
        contains_eq_mem, decide_eq_true_eq, mem_cons, not_mem_nil, or_false] at live ⊢
      tauto

/-- The server end of the instance and the copy are the two ends of one pair. -/
theorem paired_connect {access options : UInt32} {copy : Int}
    (legal : legal s (.connect pid name access options (some copy)))
    (space : room s.tables pid) {info : NamedPipeInfo}
    (listening : s.tables.findListening name = some info)
    (held : (slotFd s.tables (server info)).isSome) (known : s.tables.processes.contains pid)
    (slots : slotFd after = update (slotFd s.tables) (nextSlot s.tables pid) (some copy))
    (live : Int → Bool) (links : List (Slot × Slot)) :
    (wired after live (tagged s (.connect pid name access options (some copy))) links).Paired
      (server info, nextSlot s.tables pid) := by
  have place := findListening_place listening
  obtain ⟨t, found⟩ := (Table.contains_iff _ _).mp known
  obtain ⟨y, at_server⟩ := isSome_iff_exists.mp held
  obtain ⟨y_nonneg, pair, near, far⟩ := sound.served _ _ _ y place at_server
  have copied := unopened_of_legal legal (mem_cons_self : copy ∈ [copy])
  have fits := room_lt space found
  have other : server info ≠ nextSlot s.tables pid := by
    intro same
    exact (tidy.next_vacant found fits).2 (same ▸ tidy.served _ _ _ place)
  refine ⟨y, copy, ?_, ?_, y_nonneg, copied.1, pair, ?_, ?_⟩
  · simp only [wired, slots, update_of_ne other, at_server]
  · simp [wired, slots]
  · exact (tagged_opened legal (sound.opened _ y at_server y_nonneg)).trans near
  · simp only [wired, tagged, newEnd, if_true, listening, bind_some]
    rw [show s.ends info.clientDataFd = some ⟨pair, false⟩ from far]
    rfl

theorem connect_step {access options : UInt32} {fd : Option Int}
    (legal : legal s (.connect pid name access options fd)) (space : room s.tables pid) :
    Kept (step s (.connect pid name access options fd)) := by
  have links : (step s (.connect pid name access options fd)).links = s.links ++
      (newLink s.tables (.connect pid name access options fd)).toList := by
    simp [step, remaining, ended]
  cases listening : s.tables.findListening name with
  | none =>
    have same : s.tables.step (PipeRequest.connect pid name access options fd).request = s.tables := by
      simp [PipeRequest.request, DescriptorTables.step, tryConnectNamedPipe, listening]
    have unlinked : (step s (.connect pid name access options fd)).links = s.links := by
      rw [links]
      cases fd <;> simp [newLink, listening]
    exact step_unmoved sound legal same rfl rfl tidy unlinked fun x live => live
  | some info =>
    cases fd with
    | none =>
      have same : s.tables.step (PipeRequest.connect pid name access options none).request =
          s.tables.useFd info.clientDataFd := by
        simp [PipeRequest.request, DescriptorTables.step, tryConnectNamedPipe, listening]
      have unlinked : (step s (.connect pid name access options none)).links = s.links := by
        simp [links, newLink]
      refine step_unmoved sound legal same rfl rfl (tidy.of_tables rfl rfl rfl rfl) unlinked
        fun x live => ?_
      rw [opened_useFd]
      exact live
    | some copy =>
      obtain ⟨made, kept, kernel, slots⟩ := sound_tryConnect tidy (sound_awaiting sound legal)
        space access options listening
        (spare_returned sound legal (mem_cons_self : copy ∈ [copy]))
      refine ⟨sound_step_open ?_ fun x live => ?_, kept⟩
      · rw [links, newLink, listening, bind_some]
        split_ifs with whole
        · exact made.link (paired_connect sound tidy legal space listening whole.1 whole.2
            (slots whole.2) _ _)
        · rw [toList_none, append_nil]
          exact made
      · change opened (s.tables.tryConnectNamedPipe pid name access options (some copy)) x
        rw [kernel, opened_openFd]
        simp only [reach, PipeRequest.request, Request.returned, Bool.or_eq_true,
          contains_eq_mem, decide_eq_true_eq, mem_toList, Option.some.injEq] at live ⊢
        tauto

theorem pipeDisconnect_step (legal : legal s (.pipeDisconnect pid handle fds)) :
    Kept (step s (.pipeDisconnect pid handle fds)) := by
  have links : (step s (.pipeDisconnect pid handle fds)).links =
      remaining s (.pipeDisconnect pid handle fds) := by
    simp [step, newLink]
  cases found : s.tables.findInstance pid handle with
  | none =>
    have same : s.tables.step (PipeRequest.pipeDisconnect pid handle fds).request = s.tables := by
      simp [PipeRequest.request, DescriptorTables.step, DescriptorTables.pipeDisconnect,
        DescriptorTables.relisten, found]
    have unlinked : (step s (.pipeDisconnect pid handle fds)).links = s.links := by
      simp [links, remaining, ended, found]
    exact step_unmoved sound legal same rfl rfl tidy unlinked fun x live => live
  | some =>
    have moved : s.tables.step (PipeRequest.pipeDisconnect pid handle fds).request =
        s.tables.relisten pid handle (fun _ => true) fds := rfl
    refine step_relisten moved tidy ?_ (newPair_sockets sound legal (List.Subset.refl _))
      (fun link mem => ?_) fun x recorded => sound.live_of_recorded recorded
    · rw [links]
      exact sound_remaining sound legal
    · rw [links] at mem
      simpa [ended, found] using (mem_filter.mp mem).2

theorem closeHandle_step (legal : legal s (.closeHandle pid handle))
    (own : current s.tables pid handle) : Kept (step s (.closeHandle pid handle)) := by
  have before := sound_remaining sound legal
  have links : (step s (.closeHandle pid handle)).links = remaining s (.closeHandle pid handle) := by
    simp [step, newLink]
  have unlinked : ∀ link ∈ remaining s (.closeHandle pid handle),
      link.1 ≠ slotOf pid handle ∧ link.2 ≠ slotOf pid handle := by
    intro link mem
    simpa [ended] using (mem_filter.mp mem).2
  have emptied : wired (s.tables.closeHandle pid handle) (reach s (.closeHandle pid handle))
      (tagged s (.closeHandle pid handle)) (remaining s (.closeHandle pid handle)) =
      { awaiting s (.closeHandle pid handle) with
        fd := update (slotFd s.tables) (slotOf pid handle) none
        links := remaining s (.closeHandle pid handle) } := by
    rw [wired, slotFd_closeHandle, places_closeHandle]
    rfl
  refine ⟨sound_step ?_ fun x recorded => ?_, tidy.closeHandle⟩
  · rw [links]
    change (wired (s.tables.closeHandle pid handle) _ _ _).Sound
    rw [emptied]
    exact before.drop unlinked
  · rw [links] at recorded
    change (wired (s.tables.closeHandle pid handle) _ _ _).Recorded x at recorded
    rw [emptied] at recorded
    obtain ⟨held, elsewhere⟩ := before.recorded_drop recorded
    have live : opened s.tables x := sound.live_of_recorded held
    -- a stale number in the side table is not open, so it is not this one
    have apart : slotFd s.tables (slotOf pid handle) ≠ some x := elsewhere
    refine opened_closeHandle live apart fun listed => apart ?_
    simpa [current, listed, live] using own

variable {overlapped : Bool} {evt : Option Int}

theorem pipeListen_unmoved (legal : legal s (.pipeListen pid handle overlapped evt fds))
    (space : room s.tables pid) (idle : pends s.tables pid handle overlapped evt = false) :
    Kept (step s (.pipeListen pid handle overlapped evt fds)) := by
  have links : (step s (.pipeListen pid handle overlapped evt fds)).links = s.links := by
    simp [step, remaining, ended, newLink]
  cases found : s.tables.findInstance pid handle with
  | none =>
    have same : s.tables.step (PipeRequest.pipeListen pid handle overlapped evt fds).request =
        s.tables := by
      simp [PipeRequest.request, DescriptorTables.step, DescriptorTables.pipeListen, found]
    exact step_unmoved sound legal same rfl rfl tidy links fun x live => live
  | some =>
    simp only [pends, found, isSome_some, Bool.true_and, Bool.or_eq_false_iff,
      decide_eq_false_iff_not, not_not] at idle
    obtain ⟨rfl, zero⟩ := idle
    have same : s.tables.step (PipeRequest.pipeListen pid handle false evt fds).request =
        (s.tables.allocEventHandle pid false evt).2 := by
      simp [PipeRequest.request, DescriptorTables.step, DescriptorTables.pipeListen, found, zero]
    cases evt with
    | none => exact step_unmoved sound legal same rfl rfl tidy links fun x live => live
    | some evt =>
      cases known : s.tables.processes.get? pid with
      | some t =>
        have fits := room_lt space known
        exact absurd zero (allocEventHandle_known tidy known fits evt).1
      | none =>
        rw [allocEventHandle_unknown known] at same
        refine step_unmoved sound legal same rfl rfl (tidy.of_tables rfl rfl rfl rfl) links
          fun x live => ?_
        have other : x ≠ evt := by
          rintro rfl
          have closed := (unopened_of_legal legal
            (mem_append_left _ (mem_cons_self : x ∈ [x]))).2
          rw [live] at closed
          cases closed
        have both : opened (s.tables.openFd pid evt) x := by
          rw [opened_openFd, live, Bool.or_true]
        exact opened_closeFd both other

theorem sound_allocEvent (legal : legal s req) {t : HandleTable}
    (known : s.tables.processes.get? pid = some t)
    (fits : t.slab.slots.length < slotLimit) (evt : Int) :
    (wired (s.tables.allocEventHandle pid false (some evt)).2 (reach s req) (tagged s req)
      s.links).Sound ∧
      ∀ x, (wired (s.tables.allocEventHandle pid false (some evt)).2 (reach s req) (tagged s req)
        s.links).Recorded x → (view s).Recorded x := by
  obtain ⟨-, slots, -, -⟩ := allocEventHandle_known tidy known fits evt
  have kept : places (s.tables.allocEventHandle pid false (some evt)).2 = places s.tables :=
    places_of_namedPipes (allocEventHandle_namedPipes false)
  obtain ⟨vacant, outside⟩ := tidy.next_vacant known fits
  rw [wired, slots, kept]
  refine ⟨(sound_awaiting sound legal).store vacant (fun i slot y at_i => ?_) nofun,
    fun x recorded => ?_⟩
  · rintro rfl
    exact outside (tidy.served i _ y at_i)
  · rcases Wiring.recorded_store (w := awaiting s req) recorded with rfl | before
    · exact absurd recorded.1 (by decide)
    · exact before

theorem pipeListen_step
    (legal : legal s (.pipeListen pid handle overlapped evt fds)) (space : room s.tables pid)
    (answered : reports s (.pipeListen pid handle overlapped evt fds)) :
    Kept (step s (.pipeListen pid handle overlapped evt fds)) := by
  cases pending : pends s.tables pid handle overlapped evt with
  | false => exact pipeListen_unmoved sound tidy legal space pending
  | true =>
    have links : (step s (.pipeListen pid handle overlapped evt fds)).links = s.links := by
      simp [step, remaining, ended, newLink]
    have unlinked : ∀ link ∈ s.links, link.1 ≠ slotOf pid handle := by
      simpa [reports, pending] using answered
    have sockets := newPair_sockets sound legal (subset_append_right _ _)
    simp only [pends, Bool.and_eq_true, Bool.or_eq_true, decide_eq_true_eq] at pending
    obtain ⟨found, waits⟩ := pending
    have present : ¬ (s.tables.findInstance pid handle).isNone := by
      rw [← not_isSome, found]
      decide
    cases overlapped with
    | true =>
      have moved : s.tables.step (PipeRequest.pipeListen pid handle true evt fds).request =
          s.tables.relisten pid handle isConnected fds := by
        simp only [PipeRequest.request, DescriptorTables.step, DescriptorTables.pipeListen,
          if_neg present, if_true]
      refine step_relisten moved tidy ?_ sockets (links ▸ unlinked)
        fun x recorded => sound.live_of_recorded recorded
      rw [links]
      exact sound_awaiting sound legal
    | false =>
      have nonzero : (s.tables.allocEventHandle pid false evt).1 ≠ 0 := by simpa using waits
      cases evt with
      | none => exact absurd rfl nonzero
      | some evt =>
        have contained : ∃ t, s.tables.processes.get? pid = some t := by
          by_contra none
          rw [← ne_none_iff_exists', not_not] at none
          rw [allocEventHandle_unknown none] at nonzero
          exact nonzero rfl
        obtain ⟨t, known⟩ := contained
        have fits := room_lt space known
        obtain ⟨-, -, kernel, allocated⟩ := allocEventHandle_known tidy known fits evt
        obtain ⟨stored, held⟩ := sound_allocEvent sound tidy legal known fits evt
        have moved : s.tables.step (PipeRequest.pipeListen pid handle false (some evt) fds).request =
            (s.tables.allocEventHandle pid false (some evt)).2.relisten pid handle
              isConnected fds := by
          simp only [PipeRequest.request, DescriptorTables.step, DescriptorTables.pipeListen,
            if_neg present, Bool.false_eq_true, if_false, if_pos nonzero]
        refine step_relisten moved allocated ?_ (fun a b pair => ?_) (links ▸ unlinked)
          fun x recorded => ?_
        · rw [links]
          exact stored
        · obtain ⟨a_spare, b_spare, rest⟩ := sockets a b pair
          exact ⟨⟨a_spare.1, a_spare.2.1, fun recorded => a_spare.2.2 (held a recorded)⟩,
            ⟨b_spare.1, b_spare.2.1, fun recorded => b_spare.2.2 (held b recorded)⟩, rest⟩
        · have live : opened s.tables x := sound.live_of_recorded (held x recorded)
          rw [kernel, opened_openFd, live, Bool.or_true]

theorem step_kept (legal : legal s req) (care : careful s req) : Kept (step s req) := by
  simp only [careful, Bool.and_eq_true] at care
  obtain ⟨order, answered⟩ := care
  cases req with
  | newProcess => exact newProcess_step sound tidy legal
  | createNamedPipe => exact createNamedPipe_step sound tidy legal order
  | connect => exact connect_step sound tidy legal order
  | pipeListen =>
    exact pipeListen_step sound tidy legal order answered
  | pipeDisconnect => exact pipeDisconnect_step sound tidy legal
  | closeHandle => exact closeHandle_step sound tidy legal order

end

end Requests

/-- Where no listen is left pending on an instance that has a client, and no stale number is
closed, the two handles of a connection hold the two ends of one pair of sockets until the
connection is ended. -/
theorem paired_of_careful (reqs : List PipeRequest) (promised : AllSteps step legal .new reqs)
    (care : AllSteps step (fun s req => careful s req) .new reqs) :
    ∀ s ∈ states step .new reqs, ∀ link ∈ s.links, (view s).Paired link := by
  have keep : ∀ s req, Kept s → legal s req ∧ careful s req → Kept (step s req) :=
    fun s req good safe => step_kept good.sound good.tidy safe.1 safe.2
  have kept := good_of_allSteps keep ⟨by constructor <;> nofun, tidy_new⟩ (promised.and care)
  intro s reached link mem
  exact (kept s reached).sound.linked link mem

def twoClients : List PipeRequest :=
  [.newProcess 8, .newProcess 12, .createNamedPipe 8 "p" (some (10, 11)),
    .pipeListen 8 4 true none (some (12, 13)), .connect 12 "p" 0x80000000 0 (some 12),
    .pipeDisconnect 8 4 (some (13, 14)), .connect 12 "p" 0x80000000 0 (some 10),
    .closeHandle 12 8]

theorem paired_two_clients : AllSteps step legal .new twoClients ∧
      AllSteps step (fun s req => careful s req) .new twoClients ∧
      ∀ s ∈ states step .new twoClients, ∀ link ∈ s.links, (view s).Paired link := by
  have promised : AllSteps step legal .new twoClients := by decide +kernel
  have care : AllSteps step (fun s req => careful s req) .new twoClients := by
    decide +kernel
  exact ⟨promised, care, paired_of_careful twoClients promised care⟩

def lateListen : List PipeRequest :=
  [.newProcess 8, .newProcess 12, .createNamedPipe 8 "p" (some (10, 11)),
    .connect 12 "p" 0x80000000 0 (some 12), .pipeListen 8 4 true none (some (13, 14))]

/-- The listen is left pending, and the server gets an end of another pair. -/
theorem late_listen_severs : AllSteps step legal .new lateListen ∧
      ¬ AllSteps step (fun s req => reports s req) .new lateListen ∧
      ¬ ∀ s ∈ states step .new lateListen, ∀ link ∈ s.links, (view s).Paired link := by
  refine ⟨by decide +kernel, by decide +kernel, fun paired => ?_⟩
  have at_end := paired (run step .new lateListen) (run_mem_states _ _)
  have link : ((8, 1), (12, 1)) ∈ (run step .new lateListen).links := by decide +kernel
  have near : (view (run step .new lateListen)).fd (8, 1) = some 13 := by decide +kernel
  have far : (view (run step .new lateListen)).fd (12, 1) = some 12 := by decide +kernel
  have near_end : (view (run step .new lateListen)).tag 13 = some ⟨4, true⟩ := by decide +kernel
  have far_end : (view (run step .new lateListen)).tag 12 = some ⟨2, false⟩ := by decide +kernel
  exact Wiring.not_paired ((8, 1), (12, 1)) near far near_end far_end (by decide) (at_end _ link)

end Triskelion.PipePairing
