import Triskelion.ByteMemory
import Triskelion.RingRefinement
import Triskelion.SharedQueues

/-! One queue seen from two languages: the bytes of the shared mapping under the helpers of
`triskelion_shm.h` and under `ThreadQueue` of `queue.rs`. The rings are laid out alike, and so
are the messages. The queues are not: the header still has a second ring in every queue, and it
places the queue of a slot 24896 bytes after the one before, where the daemon takes 12480.

An address is counted from the start of the mapping. An access behind its last page is a
fault. -/

namespace Triskelion.SharedRing

open ByteMemory RunRules RingRefinement
open SharedQueues (slotOffset threadQueueSize maxThreads)

/-! ### The layout -/

/-- `struct triskelion_message` and `QueuedMessage`: the sender and the padding of the one are
the two words of padding of the other. -/
def writeMessage (m : Memory) (a : Nat) (msg : QueuedMessage) : Memory :=
  let m := store32 m a msg.win
  let m := store32 m (a + 4) msg.msg
  let m := store64 m (a + 8) msg.wparam
  let m := store64 m (a + 16) msg.lparam
  let m := store32 m (a + 24) msg.msgType.toUInt32
  let m := store32 m (a + 28) msg.x.toUInt32
  let m := store32 m (a + 32) msg.y.toUInt32
  let m := store32 m (a + 36) msg.time
  let m := store32 m (a + 40) msg.pad.1
  store32 m (a + 44) msg.pad.2

def readMessage (m : Memory) (a : Nat) : QueuedMessage where
  win := load32 m a
  msg := load32 m (a + 4)
  wparam := load64 m (a + 8)
  lparam := load64 m (a + 16)
  msgType := (load32 m (a + 24)).toInt32
  x := (load32 m (a + 28)).toInt32
  y := (load32 m (a + 32)).toInt32
  time := load32 m (a + 36)
  pad := (load32 m (a + 40), load32 m (a + 44))

def messageSize : Nat := 48

def readPosAt (ring : Nat) : Nat := ring + 64

def messageAt (ring : Nat) (i : Fin ringCapacity) : Nat := ring + 128 + messageSize * i.val

def ringSize : Nat := 128 + messageSize * ringCapacity

def mappedEnd : Nat := (SharedQueues.totalSize + 4095) / 4096 * 4096

def ringPush (m : Memory) (ring : Nat) (msg : QueuedMessage) : Option (Bool × Memory) :=
  if readPosAt ring + 8 ≤ mappedEnd then
    let wp := load64 m ring
    let rp := load64 m (readPosAt ring)
    if (wp - rp).toNat < ringCapacity then
      let cell := messageAt ring (ringSlot wp)
      if cell + messageSize ≤ mappedEnd then
        some (true, store64 (writeMessage m cell msg) ring (wp + 1))
      else none
    else some (false, m)
  else none

def ringPop (m : Memory) (ring : Nat) : Option (Option QueuedMessage × Memory) :=
  if readPosAt ring + 8 ≤ mappedEnd then
    let rp := load64 m (readPosAt ring)
    let wp := load64 m ring
    if rp = wp then some (none, m)
    else
      let cell := messageAt ring (ringSlot rp)
      if cell + messageSize ≤ mappedEnd then
        some (some (readMessage m cell), store64 m (readPosAt ring) (rp + 1))
      else none
  else none

/-! ### The two sides -/

def triskelionQueueSize : UInt32 := 24896

/-- The posted ring is the first thing in the queue. The product has 32 bits. -/
def triskelionGetQueue (slot : UInt32) : Nat :=
  SharedQueues.headerSize + (slot * triskelionQueueSize).toNat

def wakeBitsAt (queue : Nat) : Nat := queue + ringSize

section
variable (m : Memory) (queue : Nat)
include m

def post (msg : QueuedMessage) : Option (Bool × Memory) :=
  (ringPush m queue msg).map fun pushed =>
    if pushed.1 then
      (true, store32 pushed.2 (wakeBitsAt queue)
        (load32 pushed.2 (wakeBitsAt queue) ||| qsPostmessage))
    else pushed

def get : Option (Option QueuedMessage × Memory) :=
  (ringPop m queue).map fun popped =>
    if popped.1.isSome ∧ load64 popped.2 (readPosAt queue) = load64 popped.2 queue then
      (popped.1, store32 popped.2 (wakeBitsAt queue)
        (load32 popped.2 (wakeBitsAt queue) &&& ~~~qsPostmessage))
    else popped

def initAt (tid : UInt32) : Memory :=
  store32 (store m queue (List.replicate threadQueueSize 0)) (queue + ringSize + 8) tid

end

inductive SlotOp
  | clientPush (msg : QueuedMessage)
  | clientPop
  | push (msg : QueuedMessage)
  | pop
  | post (msg : QueuedMessage)
  | get

/-- A fault leaves the memory as it is and has no answer. -/
def settle {α : Type} (m : Memory) (wrap : α → RingAnswer) (result : Option (α × Memory)) :
    Memory × Option RingAnswer :=
  ((result.map Prod.snd).getD m, result.map fun r => wrap r.1)

def answer (slot : UInt32) (m : Memory) : SlotOp → Memory × Option RingAnswer
  | .clientPush msg => settle m .accepted (ringPush m (triskelionGetQueue slot) msg)
  | .clientPop => settle m .message (ringPop m (triskelionGetQueue slot))
  | .push msg => settle m .accepted (ringPush m (slotOffset slot) msg)
  | .pop => settle m .message (ringPop m (slotOffset slot))
  | .post msg => settle m .accepted (post m (slotOffset slot) msg)
  | .get => settle m .message (get m (slotOffset slot))

def SlotOp.asked : SlotOp → RingOp
  | .clientPush msg | .push msg => .push msg
  | .clientPop | .pop => .pop
  | .post msg => .post msg
  | .get => .get

def queueAnswer (f : MessageFifo) (op : SlotOp) : MessageFifo × Option RingAnswer :=
  ((fifoAnswer f op.asked).1, some (fifoAnswer f op.asked).2)

/-- Whatever the two sides do to a slot, they are answered as by one queue, and no other slot
changes. -/
def OneQueue (slot : UInt32) (m : Memory) : Prop :=
  ∀ ops : List SlotOp, outputs (answer slot) m ops = outputs queueAnswer BoundedQueue.empty ops ∧
    ∀ m' ∈ states (fun m op => (answer slot m op).1) m ops,
      ∀ i, i < slotOffset slot ∨ slotOffset slot + threadQueueSize ≤ i → m' i = m i

/-! ### Messages in memory -/

variable {m m' : Memory} {a : Nat} {msg : QueuedMessage}

theorem readMessage_writeMessage : readMessage (writeMessage m a msg) a = msg := by
  simp (disch := omega) only [readMessage, writeMessage, load32_store32, load64_store64,
    load32_store32_apart, load64_store32_apart, load32_store64_apart, load64_store64_apart,
    Int32.toInt32_toUInt32, Prod.mk.eta]

theorem readMessage_congr (same : ∀ i < messageSize, m' (a + i) = m (a + i)) :
    readMessage m' a = readMessage m a := by
  have word : ∀ k, k + 4 ≤ messageSize → load32 m' (a + k) = load32 m (a + k) := fun k le =>
    load32_congr fun i lt => by
      rw [Nat.add_assoc]
      exact same (k + i) (by omega)
  have long : ∀ k, k + 8 ≤ messageSize → load64 m' (a + k) = load64 m (a + k) := fun k le =>
    load64_congr fun i lt => by
      rw [Nat.add_assoc]
      exact same (k + i) (by omega)
  have first : load32 m' a = load32 m a := word 0 (by decide)
  simp (disch := decide) only [readMessage, first, word, long]

variable {i : Nat} {slot : UInt32}

theorem writeMessage_apart (apart : i < a ∨ a + messageSize ≤ i) :
    writeMessage m a msg i = m i := by
  simp only [messageSize] at apart
  simp (disch := omega) only [writeMessage, store32_apart, store64_apart]

/-! ### The ring in memory -/

theorem messageAt_bounds (ring : Nat) (i : Fin ringCapacity) :
    ring + 128 ≤ messageAt ring i ∧ messageAt ring i + messageSize ≤ ring + ringSize := by
  have lt := i.isLt
  simp only [messageAt, messageSize, ringSize, ringCapacity] at lt ⊢
  omega

theorem ringPush_frame {ok : Bool} (pushed : ringPush m a msg = some (ok, m'))
    (apart : i < a ∨ a + ringSize ≤ i) : m' i = m i := by
  rw [ringPush] at pushed
  dsimp only at pushed
  split at pushed
  · split at pushed
    · split at pushed
      · cases pushed
        have bounds := messageAt_bounds a (ringSlot (load64 m a))
        simp only [ringSize, messageSize, ringCapacity] at apart bounds
        rw [store64_apart (by omega), writeMessage_apart (by simp only [messageSize]; omega)]
      · cases pushed
    · cases pushed
      rfl
  · cases pushed

variable {out : Option QueuedMessage}

theorem ringPop_frame (popped : ringPop m a = some (out, m'))
    (apart : i < a ∨ a + ringSize ≤ i) : m' i = m i := by
  rw [ringPop] at popped
  dsimp only at popped
  split at popped
  · split at popped
    · cases popped
      rfl
    · split at popped
      · cases popped
        simp only [ringSize, messageSize, ringCapacity] at apart
        exact store64_apart (by simp only [readPosAt]; omega)
      · cases popped
  · cases popped

structure RingAt (m : Memory) (a : Nat) (r : MessageRing) : Prop where
  write : load64 m a = r.writePos
  read : load64 m (readPosAt a) = r.readPos
  buf : ∀ i, readMessage m (messageAt a i) = r.buf i

variable {r : MessageRing}

theorem RingAt.congr (ring : RingAt m a r) (same : ∀ i < ringSize, m' (a + i) = m (a + i)) :
    RingAt m' a r where
  write := by
    rw [load64_congr fun i lt => same i (by simp only [ringSize]; omega)]
    exact ring.write
  read := by
    rw [load64_congr fun i lt => ?_]
    · exact ring.read
    · rw [readPosAt, Nat.add_assoc]
      exact same (64 + i) (by simp only [ringSize]; omega)
  buf i := by
    rw [readMessage_congr fun k lt => ?_]
    · exact ring.buf i
    · have bounds := messageAt_bounds a i
      obtain ⟨d, eq⟩ := Nat.exists_eq_add_of_le bounds.1
      rw [eq, Nat.add_assoc, Nat.add_assoc]
      exact same _ (by omega)

section
variable (ring : RingAt m a r) (inside : a + ringSize ≤ mappedEnd)
include ring inside

theorem RingAt.push :
    ∃ m', ringPush m a msg = some ((r.push msg).1, m') ∧ RingAt m' a (r.push msg).2 := by
  have near : readPosAt a + 8 ≤ mappedEnd := by
    simp only [readPosAt, ringSize] at inside ⊢
    omega
  rw [ringPush, if_pos near, MessageRing.push]
  simp only [ring.write, ring.read]
  split
  next room =>
    have bounds := messageAt_bounds a (ringSlot r.writePos)
    rw [if_pos (by omega)]
    refine ⟨_, rfl, load64_store64 _ _ _, ?_, fun i => ?_⟩
    · have kept : load64 (writeMessage m (messageAt a (ringSlot r.writePos)) msg) (readPosAt a) =
          load64 m (readPosAt a) :=
        load64_congr fun i lt => writeMessage_apart (by simp only [readPosAt]; omega)
      rw [load64_store64_apart (by simp only [readPosAt]; omega), kept]
      exact ring.read
    · have later : readMessage (store64 (writeMessage m (messageAt a (ringSlot r.writePos)) msg) a
          (r.writePos + 1)) (messageAt a i) =
            readMessage (writeMessage m (messageAt a (ringSlot r.writePos)) msg) (messageAt a i) :=
        readMessage_congr fun k lt => store64_apart (by have := messageAt_bounds a i; omega)
      rw [later]
      by_cases here : i = ringSlot r.writePos
      · rw [here, readMessage_writeMessage]
        exact (Function.update_self (ringSlot r.writePos) msg r.buf).symm
      · rw [readMessage_congr fun k lt => writeMessage_apart ?_]
        · exact (ring.buf i).trans (Function.update_of_ne here msg r.buf).symm
        · simp only [messageAt, messageSize] at *
          omega
  next => exact ⟨m, rfl, ring⟩

theorem RingAt.pop : ∃ m', ringPop m a = some (r.pop.map Prod.fst, m') ∧
      RingAt m' a ((r.pop.map Prod.snd).getD r) := by
  have near : readPosAt a + 8 ≤ mappedEnd := by
    simp only [readPosAt, ringSize] at inside ⊢
    omega
  rw [ringPop, if_pos near, MessageRing.pop]
  simp only [ring.write, ring.read]
  split
  next => exact ⟨m, rfl, ring⟩
  next =>
    have bounds := messageAt_bounds a (ringSlot r.readPos)
    rw [if_pos (by omega), ring.buf]
    refine ⟨_, rfl, ?_, load64_store64 _ _ _, fun i => ?_⟩
    · rw [load64_store64_apart (by simp only [readPosAt]; omega)]
      exact ring.write
    · rw [readMessage_congr fun k lt => store64_apart ?_]
      · exact ring.buf i
      · have := messageAt_bounds a i
        simp only [readPosAt]
        omega

end

/-! ### The daemon's side of a slot -/

theorem slotOffset_inside (known : slot < maxThreads) :
    slotOffset slot + threadQueueSize ≤ mappedEnd := by
  have below := UInt32.lt_iff_toNat_lt.mp known
  have whole : SharedQueues.totalSize ≤ mappedEnd := by decide
  refine Nat.le_trans ?_ whole
  calc slotOffset slot + threadQueueSize
      = SharedQueues.headerSize + (slot.toNat + 1) * threadQueueSize := by rw [slotOffset]; ring
    _ ≤ SharedQueues.totalSize := Nat.add_le_add_left (Nat.mul_le_mul_right _ below) _

def Frame (slot : UInt32) (m m' : Memory) : Prop :=
  ∀ i, i < slotOffset slot ∨ slotOffset slot + threadQueueSize ≤ i → m' i = m i

section
variable (ring : RingAt m a r) (inside : a + ringSize ≤ mappedEnd)
include ring inside

theorem post_spec :
    ∃ m', post m a msg = some ((r.push msg).1, m') ∧ RingAt m' a (r.push msg).2 := by
  obtain ⟨m', pushed, after⟩ := ring.push inside
  rw [post, pushed, Option.map_some]
  split
  next accepted =>
    refine ⟨_, by rw [accepted], after.congr fun i lt => store32_apart ?_⟩
    simp only [wakeBitsAt]
    omega
  next => exact ⟨m', rfl, after⟩

theorem get_spec :
    ∃ m', get m a = some (r.pop.map Prod.fst, m') ∧ RingAt m' a ((r.pop.map Prod.snd).getD r) := by
  obtain ⟨m', popped, after⟩ := ring.pop inside
  rw [get, popped, Option.map_some]
  split
  next =>
    refine ⟨_, rfl, after.congr fun i lt => store32_apart ?_⟩
    simp only [wakeBitsAt]
    omega
  next => exact ⟨m', rfl, after⟩

end

theorem post_frame {ok : Bool} (posted : post m a msg = some (ok, m'))
    (apart : i < a ∨ a + threadQueueSize ≤ i) : m' i = m i := by
  have size : ringSize + 4 ≤ threadQueueSize := by decide
  obtain ⟨⟨yes, between⟩, pushed, eq⟩ := Option.map_eq_some_iff.mp posted
  have first : between i = m i := ringPush_frame pushed (by omega)
  split at eq
  · cases eq
    rw [store32_apart (by simp only [wakeBitsAt]; omega)]
    exact first
  · cases eq
    exact first

theorem get_frame (got : get m a = some (out, m'))
    (apart : i < a ∨ a + threadQueueSize ≤ i) : m' i = m i := by
  have size : ringSize + 4 ≤ threadQueueSize := by decide
  obtain ⟨⟨found, between⟩, popped, eq⟩ := Option.map_eq_some_iff.mp got
  have first : between i = m i := ringPop_frame popped (by omega)
  split at eq
  · cases eq
    rw [store32_apart (by simp only [wakeBitsAt]; omega)]
    exact first
  · cases eq
    exact first

/-! ### The slot where both sides meet -/

theorem triskelionGetQueue_zero : triskelionGetQueue 0 = slotOffset 0 := rfl

theorem answer_simulates (q : ThreadQueue) (ring : RingAt m (slotOffset 0) q.posted) (op : SlotOp) :
    (answer 0 m op).2 = some (ringAnswer q op.asked).2 ∧
      RingAt (answer 0 m op).1 (slotOffset 0) (ringAnswer q op.asked).1.posted := by
  have inside : slotOffset 0 + ringSize ≤ mappedEnd := by
    have := slotOffset_inside (show (0 : UInt32) < maxThreads by decide)
    have size : ringSize ≤ threadQueueSize := by decide
    omega
  have popped : (ringAnswer q .pop).1.posted = (q.posted.pop.map Prod.snd).getD q.posted := by
    rw [ringAnswer]
    cases q.posted.pop <;> rfl
  cases op with
  | clientPush msg =>
    obtain ⟨m', pushed, after⟩ := ring.push inside
    rw [answer, triskelionGetQueue_zero, pushed]
    exact ⟨rfl, after⟩
  | clientPop =>
    obtain ⟨m', out, after⟩ := ring.pop inside
    rw [answer, triskelionGetQueue_zero, out]
    exact ⟨rfl, popped ▸ after⟩
  | push msg =>
    obtain ⟨m', pushed, after⟩ := ring.push inside
    rw [answer, pushed]
    exact ⟨rfl, after⟩
  | pop =>
    obtain ⟨m', out, after⟩ := ring.pop inside
    rw [answer, out]
    exact ⟨rfl, popped ▸ after⟩
  | post msg =>
    obtain ⟨m', posted, after⟩ := post_spec ring inside
    obtain ⟨same, kept⟩ := post_push
    rw [answer, posted]
    exact ⟨congrArg (fun ok => some (RingAnswer.accepted ok)) same.symm, kept.symm ▸ after⟩
  | get =>
    obtain ⟨m', got, after⟩ := get_spec ring inside
    obtain ⟨same, kept⟩ := get_pop
    rw [answer, got]
    exact ⟨congrArg (fun out => some (RingAnswer.message out)) same.symm, kept.symm ▸ after⟩

theorem settle_frame {α : Type} {wrap : α → RingAnswer} {result : Option (α × Memory)}
    (kept : ∀ out m', result = some (out, m') → m' i = m i) : (settle m wrap result).1 i = m i := by
  cases result with
  | none => rfl
  | some done => exact kept done.1 done.2 rfl

theorem answer_frame (op : SlotOp) : Frame 0 m (answer 0 m op).1 := by
  intro i apart
  have size : ringSize ≤ threadQueueSize := by decide
  have ring : i < slotOffset 0 ∨ slotOffset 0 + ringSize ≤ i := by omega
  cases op with
  | clientPush | push => exact settle_frame fun _ _ pushed => ringPush_frame pushed ring
  | clientPop | pop => exact settle_frame fun _ _ popped => ringPop_frame popped ring
  | post => exact settle_frame fun _ _ posted => post_frame posted apart
  | get => exact settle_frame fun _ _ got => get_frame got apart

theorem initAt_zero (queue : Nat) (tid : UInt32) (lt : i < ringSize) :
    initAt m queue tid (queue + i) = 0 := by
  have size : i < (List.replicate threadQueueSize (0 : UInt8)).length := by
    have : ringSize ≤ threadQueueSize := by decide
    rw [List.length_replicate]
    omega
  rw [initAt, store32_apart (by omega), store_at size, List.getD_eq_getElem?_getD,
    List.getElem?_replicate]
  split <;> rfl

theorem ringAt_initAt (m : Memory) (queue : Nat) (tid : UInt32) :
    RingAt (initAt m queue tid) queue ThreadQueue.init.posted := by
  have zero : RingAt (fun _ => 0) queue ThreadQueue.init.posted := by
    refine ⟨load64_zero, load64_zero, fun i => ?_⟩
    rfl
  exact zero.congr fun i lt => initAt_zero queue tid lt

theorem oneQueue_zero (tid : UInt32) : OneQueue 0 (initAt m (slotOffset 0) tid) := by
  intro ops
  constructor
  · refine outputs_eq_of_simulation
      (fun m f op (related : ∃ q : ThreadQueue, RingAt m (slotOffset 0) q.posted ∧
        Represents q f) => ?_) ⟨ThreadQueue.init, ringAt_initAt m _ tid, represents_init⟩
    obtain ⟨q, ring, same⟩ := related
    obtain ⟨answered, after⟩ := answer_simulates q ring op
    obtain ⟨alike, represents⟩ := answer_represents q f op.asked same
    exact ⟨answered.trans (congrArg some alike), _, after, represents⟩
  · refine good_of_allSteps (fun before op (kept : Frame 0 (initAt m (slotOffset 0) tid) before) _ =>
      fun i apart => ?_) (fun _ _ => rfl) (allSteps_of_forall (fun _ _ => trivial) _ ops)
    rw [answer_frame op i apart, kept i apart]

/-! ### Every other slot -/

/-- The client looks for the queue of a slot behind the one of the daemon. -/
theorem slotOffset_lt_getQueue (known : slot < maxThreads) (other : slot ≠ 0) :
    readPosAt (slotOffset slot) + 8 ≤ triskelionGetQueue slot := by
  have below := UInt32.lt_iff_toNat_lt.mp known
  have some_ : slot.toNat ≠ 0 := fun zero => other (UInt32.toNat_inj.mp zero)
  have count : maxThreads.toNat = 8192 := rfl
  have product : (slot * triskelionQueueSize).toNat = slot.toNat * 24896 := by
    rw [UInt32.toNat_mul]
    exact Nat.mod_eq_of_lt (by simp only [triskelionQueueSize, UInt32.reduceToNat]; omega)
  rw [readPosAt, slotOffset, triskelionGetQueue, threadQueueSize]
  omega

def plainMessage : QueuedMessage := ⟨0x24, 0x400, 1, 2, 0, 0, 0, 0, (0, 0)⟩

theorem not_oneQueue (known : slot < maxThreads) (other : slot ≠ 0) (m : Memory) (tid : UInt32) :
    ¬ OneQueue slot (initAt m (slotOffset slot) tid) := by
  intro one
  have both := (one [.clientPush plainMessage, .pop]).1
  have behind := slotOffset_lt_getQueue known other
  have ring := ringAt_initAt m (slotOffset slot) tid
  have inside := slotOffset_inside known
  have size : readPosAt (slotOffset slot) + 8 ≤ slotOffset slot + threadQueueSize := by
    simp only [readPosAt, threadQueueSize]
    omega
  generalize initAt m (slotOffset slot) tid = before at both ring
  have kept : ∀ i < readPosAt (slotOffset slot) + 8,
      (answer slot before (.clientPush plainMessage)).1 i = before i := fun i lt =>
    settle_frame fun _ _ pushed => ringPush_frame pushed (.inl (by omega))
  have empty : load64 (answer slot before (.clientPush plainMessage)).1 (readPosAt (slotOffset slot)) =
      load64 (answer slot before (.clientPush plainMessage)).1 (slotOffset slot) := by
    rw [load64_congr fun i lt => kept _ (by omega), ring.read,
      load64_congr fun i lt => kept _ (by simp only [readPosAt]; omega), ring.write]
    rfl
  have unseen : ∀ after, load64 after (readPosAt (slotOffset slot)) =
      load64 after (slotOffset slot) → (answer slot after .pop).2 = some (.message none) := by
    intro after same
    rw [answer, ringPop, if_pos (by omega), if_pos same]
    rfl
  rw [outputs, outputs, unseen _ empty] at both
  have second : some (some (RingAnswer.message none)) =
      (outputs queueAnswer BoundedQueue.empty [.clientPush plainMessage, .pop])[1]? :=
    congrArg (·[1]?) both
  exact absurd second (by decide)

/-- The slot whose queue is in the same place for both sides is the first one. -/
theorem one_queue_iff {slot : UInt32} (known : slot < maxThreads) (m : Memory) (tid : UInt32) :
    OneQueue slot (initAt m (slotOffset slot) tid) ↔ slot = 0 := by
  constructor
  · intro one
    by_contra other
    exact not_oneQueue known other m tid one
  · rintro rfl
    exact oneQueue_zero tid

theorem one_queue_first_slot : OneQueue 0 (initAt (fun _ => 0) (slotOffset 0) 0x24) :=
  (one_queue_iff (by decide) _ _).mpr rfl

theorem second_slot_is_two_queues : ¬ OneQueue 1 (initAt (fun _ => 0) (slotOffset 1) 0x24) :=
  not_oneQueue (by decide) (by decide) _ _

end Triskelion.SharedRing
