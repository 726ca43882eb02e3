import Triskelion.KeyedTable
import Mathlib.Tactic.SplitIfs

/-! Stream sockets as the kernel offers them to a process that never blocks: every end
has a buffer of bytes that arrived and were not read, and a write goes to the buffer of
the other end. Several descriptors may name one end. -/

namespace Triskelion

open Table Option

/-- `hungUp`: no descriptor of the other end is left. -/
structure Endpoint where
  incoming : List UInt8
  capacity : Nat
  peer : Nat
  hungUp : Bool
deriving DecidableEq

structure Sockets where
  ofFd : Table Int Nat
  ends : Table Nat Endpoint

/-- How much of a write the kernel takes, given the room and the length: less than all
of it if it likes, but something wherever there is room. -/
structure SendRule where
  accepts : Nat → Nat → Nat
  positive : ∀ room n, 0 < room → 0 < n → 0 < accepts room n
  le_room : ∀ room n, accepts room n ≤ room
  le_length : ∀ room n, accepts room n ≤ n

def SendRule.greedy : SendRule where
  accepts := min
  positive room n := by omega
  le_room room n := by omega
  le_length room n := by omega

inductive Recv
  | data (bytes : List UInt8)
  | eof
  | wouldBlock
  | failed
deriving DecidableEq

inductive Sent
  | wrote (n : Nat)
  | wouldBlock
  | failed
deriving DecidableEq

namespace Sockets

section
variable (k : Sockets) (fd : Int)
include k

def endOf : Option (Nat × Endpoint) :=
  (k.ofFd.get? fd).bind fun e => (k.ends.get? e).map fun ep => (e, ep)

def recv (max : Nat) : Recv × Sockets :=
  match k.endOf fd with
  | none => (.failed, k)
  | some (e, ep) =>
    if ep.incoming ≠ [] then
      (.data (ep.incoming.take max),
        { k with ends := k.ends.insert e { ep with incoming := ep.incoming.drop max } })
    else if ep.hungUp then (.eof, k)
    else (.wouldBlock, k)

def poll : Bool :=
  (k.endOf fd).any fun e => e.2.incoming ≠ [] ∨ e.2.hungUp

def target : Option (Nat × Endpoint) :=
  (k.endOf fd).bind fun e =>
    if e.2.hungUp then none else (k.ends.get? e.2.peer).map fun p => (e.2.peer, p)

def room : Option Nat :=
  (k.target fd).map fun p => p.2.capacity - p.2.incoming.length

end

def deliver (k : Sockets) (e : Nat) (bytes : List UInt8) : Sockets :=
  { k with ends := k.ends.modify e fun ep => { ep with incoming := ep.incoming ++ bytes } }

def write (rule : SendRule) (k : Sockets) (fd : Int) (data : List UInt8) : Sent × Sockets :=
  match k.target fd with
  | none => (.failed, k)
  | some (p, peer) =>
    if peer.capacity - peer.incoming.length = 0 then (.wouldBlock, k)
    else
      let n := rule.accepts (peer.capacity - peer.incoming.length) data.length
      (.wrote n, k.deliver p (data.take n))

def hangUp (k : Sockets) (e : Nat) : Sockets :=
  { k with ends := k.ends.modify e fun ep => { ep with hungUp := true } }

variable {e : Nat}

theorem endOf_modify (k : Sockets) (f : Endpoint → Endpoint) (fd : Int) :
    endOf { k with ends := k.ends.modify e f } fd = (k.endOf fd).map fun i =>
      if i.1 = e then (i.1, f i.2) else i := by
  simp only [endOf, get?_modify]
  cases k.ofFd.get? fd with
  | none => rfl
  | some i =>
    by_cases same : i = e
    · subst same
      cases found : k.ends.get? i <;> simp [found]
    · cases found : k.ends.get? i <;> simp [found, same]

/-! ### What a write changes -/

variable {bytes : List UInt8}

theorem endOf_deliver (k : Sockets) (fd : Int) :
    (k.deliver e bytes).endOf fd = (k.endOf fd).map fun i =>
      if i.1 = e then (i.1, { i.2 with incoming := i.2.incoming ++ bytes }) else i :=
  endOf_modify k _ fd

theorem deliver_deliver (k : Sockets) (e : Nat) (first later : List UInt8) :
    (k.deliver e first).deliver e later = k.deliver e (first ++ later) := by
  simp [deliver, modify_modify, Function.comp_def]

theorem endOf_deliver_isSome (k : Sockets) (fd : Int) :
    ((k.deliver e bytes).endOf fd).isSome = (k.endOf fd).isSome := by
  rw [endOf_deliver, isSome_map]

variable {fd : Int} {k : Sockets} {peer ep : Endpoint} {max : Nat}

variable {p : Nat}

theorem target_deliver (found : k.target fd = some (p, peer)) (bytes : List UInt8) :
    (k.deliver p bytes).target fd = some (p, { peer with incoming := peer.incoming ++ bytes }) := by
  simp only [target] at found ⊢
  rw [endOf_deliver]
  cases here : k.endOf fd with
  | none => simp [here] at found
  | some i =>
    simp only [here, bind_some] at found
    split at found
    · cases found
    · next open_ =>
      obtain ⟨other, at_peer, same⟩ := map_eq_some_iff.mp found
      cases same
      have arrived : (k.deliver i.2.peer bytes).ends.get? i.2.peer =
          some { peer with incoming := peer.incoming ++ bytes } := by
        simp [deliver, get?_modify, at_peer]
      -- A write leaves the links between the ends alone, also where an end is its own peer.
      by_cases loop : i.1 = i.2.peer
      · simp [if_pos loop, open_, arrived]
      · simp [if_neg loop, open_, arrived]

variable {data : List UInt8}

/-- What is left of the room after a write, and that the write goes on where there is
room at all. -/
theorem room_write (rule : SendRule) {free : Nat} (here : k.room fd = some free)
    (some_data : data ≠ []) :
    if free = 0 then k.write rule fd data = (.wouldBlock, k)
    else ∃ n t, k.write rule fd data = (.wrote n, t) ∧ 0 < n ∧ n ≤ free ∧ n ≤ data.length ∧
      t.room fd = some (free - n) := by
  obtain ⟨⟨p, peer⟩, found, rfl⟩ := map_eq_some_iff.mp here
  have length_pos := List.length_pos_of_ne_nil some_data
  simp only [write, found]
  split
  · rfl
  · next free =>
    have le_length := rule.le_length (peer.capacity - peer.incoming.length) data.length
    refine ⟨_, _, rfl, rule.positive _ _ (Nat.pos_of_ne_zero free) length_pos,
      rule.le_room _ _, le_length, ?_⟩
    simp only [room, target_deliver found, map_some, List.length_append, List.length_take,
      Nat.min_eq_left le_length, Nat.sub_sub]

theorem write_some (rule : SendRule) (found : k.target fd = some (p, peer))
    (some_data : data ≠ []) : k.write rule fd data = (.wouldBlock, k) ∨
      ∃ n, 0 < n ∧ n ≤ data.length ∧
        k.write rule fd data = (.wrote n, k.deliver p (data.take n)) := by
  simp only [write, found]
  split
  · exact .inl rfl
  · next free => exact .inr ⟨_, rule.positive _ _ (Nat.pos_of_ne_zero free)
      (List.length_pos_of_ne_nil some_data), rule.le_length _ _, rfl⟩

/-! ### What a read changes -/

theorem recv_data (got : (k.recv fd max).1 = .data bytes) :
    ∃ e ep, k.endOf fd = some (e, ep) ∧ bytes = ep.incoming.take max ∧ (k.recv fd max).2 =
      { k with ends := k.ends.insert e { ep with incoming := ep.incoming.drop max } } := by
  unfold recv at got ⊢
  split at got
  · cases got
  · next e ep here =>
    simp only [here]
    split_ifs at got with some_bytes hung
    · rw [if_pos some_bytes]
      exact ⟨e, ep, rfl, (Recv.data.inj got).symm, rfl⟩

theorem recv_empty (here : k.endOf fd = some (e, ep)) (empty : ep.incoming = [])
    (max : Nat) (bytes : List UInt8) : (k.recv fd max).1 ≠ .data bytes := by
  simp only [recv, here, empty, ne_eq, not_true, if_false]
  split <;> simp

theorem recv_same (nothing : ∀ bytes, (k.recv fd max).1 ≠ .data bytes) : (k.recv fd max).2 = k := by
  unfold recv at nothing ⊢
  cases here : k.endOf fd with
  | none => rfl
  | some =>
    simp only [here] at nothing ⊢
    split_ifs at nothing ⊢ with some_bytes hung
    · exact absurd rfl (nothing _)
    · rfl
    · rfl

theorem recv_wouldBlock (got : (k.recv fd max).1 = .wouldBlock) :
    ∃ e ep, k.endOf fd = some (e, ep) ∧ ep.incoming = [] := by
  unfold recv at got
  split at got
  · cases got
  · next e ep here =>
    split_ifs at got with some_bytes hung
    exact ⟨e, ep, here, not_not.mp some_bytes⟩

theorem recv_of_poll (ready : k.poll fd) (max : Nat) :
    (∃ bytes, (k.recv fd max).1 = .data bytes) ∨ (k.recv fd max).1 = .eof := by
  unfold poll at ready
  unfold recv
  cases here : k.endOf fd with
  | none => simp [here] at ready
  | some =>
    simp only [here, any_some, decide_eq_true_eq] at ready ⊢
    split_ifs with some_bytes hung
    · exact .inl ⟨_, rfl⟩
    · exact .inr rfl
    · exact absurd (ready.resolve_left some_bytes) hung

@[simp] theorem recv_ofFd : (k.recv fd max).2.ofFd = k.ofFd := by
  unfold recv
  split
  · rfl
  · split_ifs <;> rfl

theorem endOf_recv_ne {other : Int} (apart : k.ofFd.get? other ≠ k.ofFd.get? fd) :
    (k.recv fd max).2.endOf other = k.endOf other := by
  unfold recv
  cases here : k.endOf fd with
  | none => rfl
  | some i =>
    obtain ⟨j, at_fd, found⟩ := bind_eq_some_iff.mp here
    obtain ⟨ep, -, rfl⟩ := map_eq_some_iff.mp found
    simp only
    split_ifs
    · simp only [endOf, get?_insert]
      cases at_other : k.ofFd.get? other with
      | none => rfl
      | some i =>
        have ne : i ≠ j := by
          rintro rfl
          exact apart (at_other.trans at_fd.symm)
        simp [ne]
    · rfl
    · rfl

theorem endOf_recv_isSome (other : Int) :
    ((k.recv fd max).2.endOf other).isSome = (k.endOf other).isSome := by
  unfold recv
  cases here : k.endOf fd with
  | none => rfl
  | some i =>
    obtain ⟨j, -, found⟩ := bind_eq_some_iff.mp here
    obtain ⟨ep, at_j, rfl⟩ := map_eq_some_iff.mp found
    simp only
    split_ifs
    · simp only [endOf, get?_insert]
      cases k.ofFd.get? other with
      | none => rfl
      | some i =>
        by_cases same : i = j
        · simp [same, at_j]
        · simp [same]
    · rfl
    · rfl

/-! ### What the end of the other side changes -/

theorem endOf_hangUp_isSome : ((k.hangUp e).endOf fd).isSome = (k.endOf fd).isSome := by
  rw [hangUp, endOf_modify, isSome_map]

theorem incoming_hangUp {i : Nat} (here : (k.hangUp e).endOf fd = some (i, ep)) :
    ∃ before, k.endOf fd = some (i, before) ∧ before.incoming = ep.incoming := by
  rw [hangUp, endOf_modify] at here
  obtain ⟨⟨j, before⟩, found, same⟩ := map_eq_some_iff.mp here
  split at same
  · cases same
    exact ⟨before, found, rfl⟩
  · cases same
    exact ⟨ep, found, rfl⟩

/-! ### Streams -/

def incomingAt (k : Sockets) (e : Nat) : List UInt8 := ((k.ends.get? e).map Endpoint.incoming).getD []

theorem incomingAt_recv (got : (k.recv fd max).1 = .data bytes) :
    k.incomingAt e = (if k.ofFd.get? fd = some e then bytes else []) ++
      (k.recv fd max).2.incomingAt e := by
  obtain ⟨i, ep, here, rfl, after⟩ := recv_data got
  obtain ⟨j, at_fd, found⟩ := bind_eq_some_iff.mp here
  obtain ⟨ep', at_j, same⟩ := map_eq_some_iff.mp found
  cases same
  rw [after, at_fd]
  by_cases this : i = e
  · subst this
    simp [incomingAt, get?_insert, at_j]
  · have other : e ≠ i := fun same => this same.symm
    simp [incomingAt, get?_insert, this, other]

theorem incomingAt_deliver (there : k.ends.get? p = some peer) :
    (k.deliver p bytes).incomingAt e = k.incomingAt e ++ if p = e then bytes else [] := by
  simp only [incomingAt, deliver, get?_modify]
  by_cases same : e = p
  · subst same
    simp [there]
  · have other : p ≠ e := fun equal => same equal.symm
    simp [same, other]

theorem incomingAt_hangUp : (k.hangUp p).incomingAt e = k.incomingAt e := by
  simp only [incomingAt, hangUp, get?_modify]
  split
  · next same =>
    subst same
    cases k.ends.get? e <;> rfl
  · rfl

end Sockets
end Triskelion
