import Triskelion.PipeIo
import Mathlib.Tactic.SplitIfs

/-! When a write comes to its end. The loop of `handle_write` runs in the thread that
answers the reads of the other side, so while it turns nobody makes room: it ends exactly
if what is to be written fits beforehand. -/

namespace Triskelion.PipeIo

open List Sockets

variable {data : List UInt8} {fd : Int} {k : Sockets}

variable {rule : SendRule}

/-- Every turn writes something, so there are at most as many as bytes. -/
theorem writeLoop_done {free : Nat} (here : k.room fd = some free)
    (fits : data.length ≤ free) {fuel : Nat} (enough : data.length ≤ fuel) (total : Nat) :
    ∃ t, writeLoop rule fd fuel k data total = (.done (total + data.length), t) := by
  induction fuel generalizing k data free total with
  | zero =>
    obtain rfl : data = [] := by simpa using enough
    exact ⟨k, rfl⟩
  | succ fuel ih =>
    cases data with
    | nil => exact ⟨k, rfl⟩
    | cons b rest =>
      have some_room : free ≠ 0 := by
        rw [length_cons] at fits
        omega
      have turn := room_write rule here (cons_ne_nil b rest)
      rw [if_neg some_room] at turn
      obtain ⟨n, t, wrote, pos, le_free, le_length, room⟩ := turn
      obtain ⟨m, rfl⟩ := Nat.exists_eq_succ_of_ne_zero (by omega : n ≠ 0)
      have left : ((b :: rest).drop (m + 1)).length = (b :: rest).length - (m + 1) :=
        length_drop
      have fits' : ((b :: rest).drop (m + 1)).length ≤ free - (m + 1) := by omega
      obtain ⟨u, done⟩ := ih room fits' (by omega) (total + (m + 1))
      refine ⟨u, ?_⟩
      rw [writeLoop, wrote]
      simp only [Nat.succ_eq_add_one]
      rw [done]
      congr 2
      omega

theorem writeLoop_spinning {free : Nat} (here : k.room fd = some free)
    (too_long : free < data.length) (fuel : Nat) (total : Nat) :
    (writeLoop rule fd fuel k data total).1 = .spinning := by
  induction fuel generalizing k data free total with
  | zero =>
    cases data with
    | nil => simp at too_long
    | cons b rest => rfl
  | succ fuel ih =>
    cases data with
    | nil => simp at too_long
    | cons b rest =>
      have turn := room_write rule here (cons_ne_nil b rest)
      rw [writeLoop]
      split_ifs at turn with full
      · rw [turn]
        exact ih here too_long total
      · obtain ⟨n, t, wrote, pos, le_free, le_length, room⟩ := turn
        obtain ⟨m, rfl⟩ := Nat.exists_eq_succ_of_ne_zero (by omega : n ≠ 0)
        rw [wrote]
        refine ih room ?_ _
        have left : ((b :: rest).drop (m + 1)).length = (b :: rest).length - (m + 1) :=
          length_drop
        simp only [Nat.succ_eq_add_one]
        omega

theorem writeLoop_failed (none_ : k.room fd = none) (some_data : data ≠ [])
    (fuel total : Nat) : writeLoop rule fd (fuel + 1) k data total = (.failed total, k) := by
  cases data with
  | nil => exact absurd rfl some_data
  | cons b rest => rw [writeLoop, write, Option.map_eq_none_iff.mp none_]

theorem writeLoop_delivers {p : Nat} {peer : Endpoint}
    (found : k.target fd = some (p, peer)) (some_data : data ≠ []) (fuel total : Nat) :
    (writeLoop rule fd fuel k data total).1 = .spinning ∨
      writeLoop rule fd fuel k data total = (.done (total + data.length), k.deliver p data) := by
  induction fuel generalizing k data peer total with
  | zero =>
    cases data with
    | nil => exact absurd rfl some_data
    | cons b rest => exact .inl rfl
  | succ fuel ih =>
    cases data with
    | nil => exact absurd rfl some_data
    | cons b rest =>
      rw [writeLoop]
      rcases write_some rule found some_data with full | ⟨n, pos, le_length, wrote⟩
      · rw [full]
        exact ih found some_data total
      · obtain ⟨m, rfl⟩ := Nat.exists_eq_succ_of_ne_zero (by omega : n ≠ 0)
        rw [wrote]
        by_cases last : (b :: rest).drop (m + 1) = []
        · have all := Nat.le_antisymm (drop_eq_nil_iff.mp last) le_length
          simp [last, writeLoop, all, take_of_length_le (Nat.le_of_eq all)]
        · have later := ih (target_deliver found ((b :: rest).take (m + 1))) last
            (total + (m + 1))
          rw [deliver_deliver, take_append_drop, length_drop, Nat.add_assoc,
            Nat.add_sub_cancel' le_length] at later
          exact later

theorem writeLoop_ends_iff (some_data : data ≠ []) (total : Nat) :
    (∃ fuel, (writeLoop rule fd fuel k data total).1 ≠ .spinning) ↔
      ∀ free, k.room fd = some free → data.length ≤ free := by
  constructor
  · rintro ⟨fuel, ends⟩ free here
    by_contra too_long
    exact ends (writeLoop_spinning here (by omega) fuel total)
  · intro fits
    cases room : k.room fd with
    | none => exact ⟨1, by rw [writeLoop_failed room some_data]; simp⟩
    | some free =>
      obtain ⟨t, done⟩ := writeLoop_done room (fits free room) (Nat.le_refl _) total
      exact ⟨data.length, by rw [done]; simp⟩

/-- There is nothing to write, or nothing to write to, or nobody to write for, or room
for all of it. -/
def Fits (s : State) (req : WriteRequest) : Prop :=
  req.data = [] ∨ ∀ fd entry, entryFd s (clientPid s req.clientFd) req.handle = some (fd, entry) →
      ∀ free, s.sockets.room fd = some free → req.data.length ≤ free

theorem handleWrite_isSome (fuel : Nat) {s : State} {req : WriteRequest}
    (made : Bool) {entry : HandleEntry}
    (found : entryFd s (clientPid s req.clientFd) req.handle = some (fd, entry))
    (some_data : req.data ≠ []) : (handleWrite rule fuel s req made).isSome ↔
      (writeLoop rule fd fuel s.sockets req.data 0).1 ≠ .spinning := by
  simp only [handleWrite, found, some_data, if_false]
  split <;> simp_all

/-- `handle_write` returns, after however many turns, exactly if the write fits. -/
theorem write_returns_iff (rule : SendRule) (s : State) (req : WriteRequest) (made : Bool) :
    (∃ fuel, (handleWrite rule fuel s req made).isSome) ↔ Fits s req := by
  by_cases some_data : req.data = []
  · simp only [Fits, some_data, true_or, iff_true]
    cases found : entryFd s (clientPid s req.clientFd) req.handle <;>
      simp [handleWrite, found, some_data]
  · cases found : entryFd s (clientPid s req.clientFd) req.handle with
    | none => simp [Fits, handleWrite, found]
    | some at_ =>
      obtain ⟨fd, entry⟩ := at_
      simp only [handleWrite_isSome _ made found some_data,
        writeLoop_ends_iff some_data, Fits, some_data, found, false_or,
        Option.some.injEq, Prod.mk.injEq, and_imp]
      exact ⟨fun fits _ _ same _ => same ▸ fits, fun fits => fits fd entry rfl rfl⟩

def narrowPipe : State where
  clients := Table.empty.insert 7 32
  processes := Table.empty.insert 32
    ((HandleTable.new.allocateFull ⟨0x1000, some 10, fdTypeDevice, 0, 0⟩).2.allocateFull
      ⟨0x1001, some 11, fdTypeDevice, 0, 0⟩).2
  nextObjectId := 0x1002
  ioWaitHandles := .empty
  events := .empty
  pendingReads := .empty
  pendingPipeReads := []
  completedPipeReads := []
  completedIoctls := .empty
  sockets := ⟨(Table.empty.insert 10 0).insert 11 1,
    (Table.empty.insert 0 ⟨[], 1, 1, false⟩).insert 1 ⟨[], 1, 0, false⟩⟩
  nextRead := 0
  stalled := false

/-- Two bytes into a buffer of one: the loop is never left. -/
theorem long_write_never_returns : ¬ ∀ (s : State) (req : WriteRequest) (made : Bool),
      ∃ fuel, (handleWrite .greedy fuel s req made).isSome := by
  intro always
  obtain ⟨fuel, returns⟩ := always narrowPipe ⟨7, 4, [1, 2]⟩ true
  have found : entryFd narrowPipe (clientPid narrowPipe 7) 4 =
      some (10, ⟨0x1000, some 10, fdTypeDevice, 0, 0⟩) := by decide +kernel
  have room : narrowPipe.sockets.room 10 = some 1 := by decide +kernel
  refine (handleWrite_isSome fuel true found (by simp)).mp returns ?_
  exact writeLoop_spinning room (by simp) fuel 0

end Triskelion.PipeIo
