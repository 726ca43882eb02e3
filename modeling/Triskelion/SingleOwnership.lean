import Triskelion.OwnedPipes

/-! Single ownership of descriptors across the tables of the event loop. Some requests
close what another table still holds, or drop what no other table holds. Over all runs
without these, each descriptor is closed once, by the end of the teardown of its
process, and never used afterwards. -/

namespace Triskelion.DescriptorTables

open RunRules

section
variable (s : DescriptorTables)

def Recorded (p : UInt32) (x : Int) : Prop :=
  0 < held s.processes p x + owners s p x ∨ s.Needed p x

/-- A request closes and uses only what is open. No number that it opens is still
recorded from an earlier life, as what is recorded is closed or used some time. And a
teardown leaves nothing open for its process. -/
def Sound (req : Request) : Prop :=
  (s.step req).kernel.misused = [] ∧ (∀ x ∈ req.returned, ∀ p, ¬ s.Recorded p x) ∧
    ∀ pid, req = .teardown pid → ∀ x, 0 ≤ x → (s.step req).kernel.descriptors.get? x ≠ some pid

def Separate : Request → Prop
  | .newProcess _ | .allocWaitable _ _ | .getHandleFd _ _ | .checkPendingPipeReads _
  | .getAsyncResult _ _ _ | .cancelAsync _ _ | .syncObject _ _ _ | .cloneObject _ _
  | .dropClone _ => True
  | .createEvent pid _ _ | .pipeWait pid _ _ | .write pid _ _ _ _ _ => s.NextVacant pid
  | .createFile pid _ _ _ _ _ => s.processes.contains pid → s.nextHandle pid ≠ 0
  | .getMsgQueueHandle pid _ =>
    s.NextVacant pid ∧ (s.processes.contains pid → s.nextHandle pid ≠ 0)
  | .dupHandle req _ _ => s.processes.contains req.dstPid ∧ s.NextVacant req.dstPid
  | .inheritHandle _ child handle _ =>
    s.processes.contains child ∧ s.entryAt child handle = none
  | .createNamedPipe pid name _ =>
    s.NextUnpiped pid ∧ (name = "" → s.processes.contains pid)
  | .connect pid name _ _ _ =>
    ((s.findListening name).isSome → s.processes.contains pid) ∧ s.NextUnpiped pid
  | .pipeListen pid handle _ _ fds =>
    s.NextVacant pid ∧ ∀ found ∈ s.findInstance pid handle, found.2.isConnected → fds = none
  | .pipeDisconnect pid handle fds => ∀ found ∈ s.findInstance pid handle, fds = none
  | .read pid handle _ outcome _ =>
    s.NextVacant pid ∧ (outcome = .wouldBlock → s.Unshared pid handle)
  | .transceive pid handle _ outcome _ =>
    s.NextVacant pid ∧ (outcome = .wouldBlock ∨ outcome = .failed → s.Unshared pid handle)
  | .closeHandle pid handle => s.Closable pid handle
  | .teardown pid => s.Departing pid

end

theorem new_owned (pid : UInt32) : Owned .new pid [] := by
  refine ⟨fun p x _ => ?_, nofun, nofun, nofun, nofun, nofun, nofun, rfl⟩
  simp only [List.count_nil, ite_self, Nat.add_zero]
  exact .inl ⟨rfl, rfl, rfl⟩

def Settled (s : DescriptorTables) : Prop := ∀ pid, Owned s pid []

theorem Owned.settled {s : DescriptorTables} {pid : UInt32} (own : Owned s pid []) : Settled s :=
  own.anyone

theorem settled_step (s : DescriptorTables) (req : Request) (settled : Settled s)
    (legal : Legal s req) (separate : Separate s req) : Settled (s.step req) := by
  have ready : Ready s req.returned := ⟨legal.1, legal.2.1⟩
  cases req with
  | newProcess pid =>
    have unknown : s.processes.get? pid = none := by
      simpa [Request.created, Table.contains] using legal.2.2
    exact ((settled pid).newProcess unknown).settled
  | allocWaitable pid efd =>
    have ready : Ready s (efd.toList ++ []) := by
      rw [List.append_nil]
      exact ready
    exact ((settled pid).allocWaitableHandle ready).1.settled
  | createEvent pid => exact ((settled pid).createEvent ready separate).settled
  | createFile pid _ objType access options =>
    exact ((settled pid).createFileHandle ready objType access options separate).settled
  | getMsgQueueHandle pid =>
    exact ((settled pid).allocEventHandle ready separate.1 fun _ => separate.2).settled
  | getHandleFd pid handle => exact ((settled pid).getHandleFd pid handle).settled
  | dupHandle req =>
    exact ((settled req.dstPid).dupHandle ready separate.1 separate.2).settled
  | inheritHandle _ child =>
    exact ((settled child).inheritHandle ready separate.1 separate.2).settled
  | createNamedPipe pid =>
    exact ((settled pid).createNamedPipe ready separate.1 separate.2).settled
  | connect pid =>
    exact ((settled pid).tryConnectNamedPipe ready separate.1 separate.2).settled
  | pipeListen pid =>
    exact ((settled pid).pipeListen ready.left separate.1 separate.2).settled
  | pipeDisconnect pid =>
    exact ((settled pid).relisten fun found here _ => separate found here).settled
  | pipeWait pid => exact ((settled pid).pipeWait ready separate).settled
  | read pid _ user =>
    exact ((settled pid).read user ready separate.1 separate.2).settled
  | transceive pid =>
    exact ((settled pid).transceive ready separate.1 separate.2).settled
  | write pid _ _ _ _ readable =>
    exact ((settled pid).write readable ready separate).settled
  | checkPendingPipeReads readable =>
    exact ((settled 0).checkPendingPipeReads readable).settled
  | getAsyncResult pid user got => exact ((settled pid).getAsyncResult pid user got).settled
  | cancelAsync pid handle => exact ((settled pid).cancelAsync pid handle).settled
  | syncObject pid => exact ((settled pid).syncObject ready).settled
  | cloneObject pid handle => exact ((settled pid).cloneObject pid handle).settled
  | dropClone i =>
    obtain ⟨p, own⟩ := (settled 0).dropClone i
    exact own.settled
  | closeHandle pid => exact ((settled pid).closeHandle separate).settled
  | teardown pid => exact ((settled pid).teardown separate).settled

variable {x : Int}

theorem unrecorded_of_settled {s : DescriptorTables} (settled : Settled s)
    (nonneg : 0 ≤ x) (unopened : s.kernel.descriptors.get? x = none) (p : UInt32) :
    ¬ s.Recorded p x := by
  have own := settled p
  obtain ⟨unheld, unowned⟩ := own.unrecorded nonneg unopened p
  rintro (recorded | ⟨user, found⟩ | ⟨r, mem, rfl, rfl⟩)
  · omega
  · have := own.reads p user x found nonneg
    omega
  · have := own.waits r mem nonneg
    omega

theorem closed_of_teardown {s : DescriptorTables} {pid : UInt32}
    (settled : Settled (s.teardown pid)) (away : ∀ e ∈ s.clones, e.1 ≠ pid) (x : Int)
    (nonneg : 0 ≤ x) : (s.teardown pid).kernel.descriptors.get? x ≠ some pid := by
  intro opened
  have one := (settled pid).single pid x nonneg
  rw [openFor_eq_one.mpr opened] at one
  have unheld : held (s.teardown pid).processes pid x = 0 := by
    have := held_without s pid pid x
    rwa [if_pos rfl] at this
  have unowned : owners (s.teardown pid) pid x = 0 := by
    have := owners_without away pid x
    rwa [if_pos rfl] at this
  rw [unheld, unowned] at one
  simp [Single] at one

theorem sound_of_settled {s : DescriptorTables} {req : Request} (settled : Settled s)
    (legal : Legal s req) (separate : Separate s req) : Sound s req := by
  have next := settled_step s req settled legal separate
  refine ⟨(next 0).clean, fun x mem => ?_, ?_⟩
  · obtain ⟨nonneg, unopened⟩ := legal.2.1 x mem
    exact unrecorded_of_settled settled nonneg unopened
  · rintro pid rfl
    exact closed_of_teardown next separate.2

section
variable (s : DescriptorTables) (pid handle : UInt32)

instance decidableNextVacant : Decidable (s.NextVacant pid) := by
  unfold NextVacant
  infer_instance

instance decidableNextUnpiped : Decidable (s.NextUnpiped pid) := by
  unfold NextUnpiped
  infer_instance

instance decidableUnshared : Decidable (s.Unshared pid handle) := by
  unfold Unshared
  infer_instance

instance decidableClosable : Decidable (s.Closable pid handle) := by
  unfold Closable
  infer_instance

instance decidableDeparting : Decidable (s.Departing pid) := by
  unfold Departing
  infer_instance

instance decidableSeparate (req : Request) : Decidable (s.Separate req) := by
  cases req <;> unfold Separate <;> infer_instance

end

def sessions : List Request :=
  [.newProcess 32, .createNamedPipe 32 "rpc" (some (3, 4)), .newProcess 36,
    .connect 36 "rpc" 0x80000000 0 (some 5), .getMsgQueueHandle 32 (some 6),
    .createFile 32 7 fdTypeSocket 0 0 (some 8), .read 32 12 1 .wouldBlock (some 9),
    .cancelAsync 32 12, .checkPendingPipeReads [7], .closeHandle 32 12,
    .createEvent 32 (some 7) (some 10), .syncObject 32 20 none, .closeHandle 32 20,
    .teardown 32, .teardown 36]

end Triskelion.DescriptorTables
