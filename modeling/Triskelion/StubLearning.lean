import Triskelion.RunRules
import Mathlib.Logic.Function.Basic

/-! What the daemon learns of opcodes without a handler. A request counts as stubbed before it
is decided whether it is answered with zeroes or passed through. -/

namespace Triskelion.StubLearning
open RunRules Function List

def opcodeCount : Nat := 306

def stable : UInt8 := 1

def unstable : UInt8 := 2

def notImplemented : UInt32 := 0xC0000002

structure OpcodeMetadata where
  name : String
  hasVarargReply : Bool

def isEsyncFsync (name : String) : Bool :=
  name ∈ ["create_esync", "open_esync", "get_esync_fd", "esync_msgwait", "get_esync_apc_fd",
    "create_fsync", "open_fsync", "get_fsync_idx", "fsync_msgwait", "get_fsync_apc_idx",
    "fsync_free_shm_idx"]

def hasHandleReply (name : String) : Bool :=
  name ∈ ["debug_process", "create_debug_obj", "create_device_manager", "open_process",
    "open_thread", "open_file_object", "create_keyed_event", "open_keyed_event",
    "allocate_reserve_object"]

structure IntelManager where
  /-- the stabilities that earlier runs have left -/
  prior : Nat → UInt8
  hints : Nat → UInt32
  runStubs : Nat → UInt32
  postStubRequests : Nat → UInt32

namespace IntelManager

section
variable (m : IntelManager) (opcode : Nat)
include m

def recordCall : IntelManager :=
  if opcode < opcodeCount then
    { m with postStubRequests := fun i =>
        if m.runStubs i > 0 ∧ m.postStubRequests i < 11 then m.postStubRequests i + 1
        else m.postStubRequests i }
  else m

def recordStub : IntelManager :=
  if opcode < opcodeCount then
    { m with
      runStubs := update m.runStubs opcode (m.runStubs opcode + 1)
      postStubRequests := update m.postStubRequests opcode 0 }
  else m

def shouldAutoStub (hasVarargReply : Bool) : Bool :=
  if hasVarargReply then false
  else if opcodeCount ≤ opcode then false
  else if m.hints opcode = 1 then false
  else if m.hints opcode = 3 ∨ m.hints opcode = 4 then true
  else m.prior opcode ≠ unstable

/-- The stability that `flush` writes. -/
def flushed : UInt8 :=
  if m.runStubs opcode > 0 then
    if m.postStubRequests opcode ≥ 10 then stable
    else if m.postStubRequests opcode ≤ 3 then
      if m.prior opcode = stable then stable else unstable
    else m.prior opcode
  else m.prior opcode

end

end IntelManager

open IntelManager

inductive Answer
  | genericFallback
  | handled (error : UInt32)

structure Request where
  /-- the opcode that the number in the header stands for, if it is known -/
  code : Option Nat
  answer : Answer

section
variable (opcodes : Nat → OpcodeMetadata)

/-- Whether the reply is replaced by zeroes, and what is recorded. -/
def dispatch (m : IntelManager) (req : Request) : Bool × IntelManager :=
  match req.code with
  | none => (false, m)
  | some idx =>
    let m := m.recordCall idx
    let (error, m) : UInt32 × IntelManager := match req.answer with
      | .genericFallback => (notImplemented, m.recordStub idx)
      | .handled error => (error, m)
    if error = notImplemented ∧ !isEsyncFsync (opcodes idx).name then
      let m := m.recordStub idx
      (!hasHandleReply (opcodes idx).name && m.shouldAutoStub idx (opcodes idx).hasVarargReply, m)
    else (false, m)

structure Session where
  intel : IntelManager
  /-- the requests since the last one that was answered with zeroes -/
  since : Nat → Option Nat

def Session.start (prior : Nat → UInt8) (hints : Nat → UInt32) : Session :=
  ⟨⟨prior, hints, fun _ => 0, fun _ => 0⟩, fun _ => none⟩

def step (s : Session) (req : Request) : Session :=
  let (zeroed, intel) := dispatch opcodes s.intel req
  { intel, since := fun i => if zeroed ∧ req.code = some i then some 0 else (s.since i).map (· + 1) }

def Learned (i : Nat) (s : Session) : Prop :=
  (s.since i = none → s.intel.flushed i = s.intel.prior i) ∧
    (s.intel.flushed i = stable → s.intel.prior i ≠ stable → ∃ n, s.since i = some n ∧ 10 ≤ n)

/-- A request for the opcode is handled, or it is one that is answered with zeroes. -/
def Answered (i : Nat) (s : Session) (req : Request) : Prop :=
  req.code = some i → (match req.answer with
      | .genericFallback => false
      | .handled error => error ≠ notImplemented ∨ isEsyncFsync (opcodes i).name) ∨
    !isEsyncFsync (opcodes i).name ∧ !hasHandleReply (opcodes i).name ∧
      s.intel.shouldAutoStub i (opcodes i).hasVarargReply

end

variable {opcodes : Nat → OpcodeMetadata} {m : IntelManager} {i idx : Nat} {s : Session}

/-- The requests that are counted after a stub are among those that follow an answer of zeroes. -/
def Noted (i : Nat) (m : IntelManager) (since : Option Nat) : Prop :=
  m.runStubs i ≠ 0 → ∃ n, since = some n ∧ (m.postStubRequests i).toNat ≤ n

section
variable {since : Option Nat}

theorem noted_recordCall (noted : Noted i m since) (idx : Nat) :
    Noted i (m.recordCall idx) (since.map (· + 1)) := by
  have next : (m.postStubRequests i + 1).toNat ≤ (m.postStubRequests i).toNat + 1 := by
    rw [UInt32.toNat_add]
    exact Nat.mod_le _ _
  unfold Noted recordCall at *
  grind

theorem noted_recordStub (noted : Noted i m since) (other : i ≠ idx) :
    Noted i (m.recordStub idx) since := by
  unfold Noted recordStub at *
  split
  · simpa [update_of_ne other] using noted
  · exact noted

theorem noted_recordStub_self (inside : i < opcodeCount) : Noted i (m.recordStub i) (some 0) := by
  simp [Noted, recordStub, inside]

end

theorem shouldAutoStub_recordCall (vararg : Bool) :
    (m.recordCall idx).shouldAutoStub i vararg = m.shouldAutoStub i vararg := by
  unfold recordCall
  split <;> rfl

theorem shouldAutoStub_recordStub (vararg : Bool) :
    (m.recordStub idx).shouldAutoStub i vararg = m.shouldAutoStub i vararg := by
  unfold recordStub
  split <;> rfl

theorem noted_step {req : Request} (noted : Noted i s.intel (s.since i))
    (answered : Answered opcodes i s req) :
    Noted i (step opcodes s req).intel ((step opcodes s req).since i) := by
  obtain ⟨code, answer⟩ := req
  rcases code with _ | idx
  · simpa [step, dispatch, recordCall] using
      noted_recordCall noted opcodeCount
  have called := noted_recordCall noted idx
  by_cases same : idx = i
  · subst same
    have inside (stubs : s.intel.shouldAutoStub idx (opcodes idx).hasVarargReply) :
        idx < opcodeCount := by
      unfold shouldAutoStub at stubs
      grind
    cases answer <;> grind [step, dispatch, Answered, shouldAutoStub_recordCall,
      shouldAutoStub_recordStub, noted_recordStub_self]
  · have once := noted_recordStub called (Ne.symm same)
    have twice := noted_recordStub once (Ne.symm same)
    cases answer <;> grind [step, dispatch]

theorem learned_of_noted (noted : Noted i s.intel (s.since i)) : Learned i s := by
  have enough : 10 ≤ s.intel.postStubRequests i ↔ 10 ≤ (s.intel.postStubRequests i).toNat :=
    UInt32.le_iff_toNat_le
  unfold Learned flushed Noted stable unstable at *
  grind

/-- Where only requests that are answered with zeroes count as stubbed, a run learns from them. -/
theorem learned_of_answered (prior : Nat → UInt8) (hints : Nat → UInt32) (i : Nat)
    (reqs : List Request)
    (answered : AllSteps (step opcodes) (Answered opcodes i) (.start prior hints) reqs) :
    ∀ s ∈ states (step opcodes) (.start prior hints) reqs, Learned i s := by
  have keep (s : Session) (req : Request) (noted : Noted i s.intel (s.since i))
      (answered : Answered opcodes i s req) := noted_step noted answered
  intro s reached
  exact learned_of_noted (good_of_allSteps keep (fun stubbed => absurd rfl stubbed) answered s reached)

def tenCalls : List Request := ⟨some 5, .genericFallback⟩ :: replicate 10 ⟨some 6, .handled 0⟩

theorem learned_of_ten_calls :
    let s := run (step fun _ => ⟨"", false⟩) (.start (fun _ => 0) fun _ => 0) tenCalls
    s.intel.flushed 5 = stable ∧ Learned 5 s := by
  refine ⟨by decide, learned_of_answered _ _ 5 tenCalls ?_ _ (run_mem_states _ _)⟩
  simp [tenCalls, AllSteps, Answered]
  decide

/-- The opcode was unstable, is passed through once, and counts as stable. -/
theorem unstable_learned_stable :
    ¬ Learned 5 (run (step fun _ => ⟨"", false⟩) (.start (fun _ => 2) fun _ => 0) tenCalls) :=
  fun learned => absurd (learned.1 rfl) (by decide)

end Triskelion.StubLearning
