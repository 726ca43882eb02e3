import Mathlib.Data.List.Basic

/-! A first-in first-out queue that holds at most `capacity` items. -/

namespace Triskelion

@[ext]
structure BoundedQueue (α : Type*) (capacity : Nat) where
  items : List α
  bounded : items.length ≤ capacity

namespace BoundedQueue

variable {α : Type*} {capacity : Nat}

def empty : BoundedQueue α capacity := ⟨[], Nat.zero_le _⟩

def push (q : BoundedQueue α capacity) (a : α) : Option (BoundedQueue α capacity) :=
  if room : q.items.length < capacity then some ⟨q.items ++ [a], by rw [List.length_append]; exact room⟩ else none

def pop : BoundedQueue α capacity → Option (α × BoundedQueue α capacity)
  | ⟨[], _⟩ => none
  | ⟨a :: rest, bounded⟩ => some (a, ⟨rest, Nat.le_of_succ_le bounded⟩)

def isEmpty (q : BoundedQueue α capacity) : Bool := q.items.isEmpty

variable (q : BoundedQueue α capacity)

variable {a : α}

theorem push_of_room (room : q.items.length < capacity) :
    ∃ q', q.push a = some q' ∧ q'.items = q.items ++ [a] :=
  ⟨_, dif_pos room, rfl⟩

theorem push_of_full (full : ¬ q.items.length < capacity) : q.push a = none :=
  dif_neg full

variable {q' : BoundedQueue α capacity}

variable {q} in
theorem items_of_push (pushed : q.push a = some q') : q'.items = q.items ++ [a] := by
  rw [push] at pushed
  split at pushed
  · rw [← Option.some.inj pushed]
  · cases pushed

variable {q} in
theorem length_of_full (full : q.push a = none) : q.items.length = capacity := by
  rw [push] at full
  split at full
  · cases full
  · have := q.bounded
    omega

variable {q} in
theorem items_of_pop (popped : q.pop = some (a, q')) : q.items = a :: q'.items := by
  obtain ⟨items, bounded⟩ := q
  cases items with
  | nil => cases popped
  | cons b rest =>
    obtain ⟨rfl, rfl⟩ := Prod.mk.inj (Option.some.inj popped)
    rfl

theorem pop_of_nil (nil : q.items = []) : q.pop = none := by
  obtain ⟨items, bounded⟩ := q
  subst nil
  rfl

theorem pop_of_cons {rest : List α} (cons : q.items = a :: rest) :
    ∃ q', q.pop = some (a, q') ∧ q'.items = rest := by
  obtain ⟨items, bounded⟩ := q
  subst cons
  exact ⟨_, rfl, rfl⟩

end BoundedQueue
end Triskelion
