import Triskelion.WaitAll

/-! The handle table of the kernel module (`triskelion_objects.c`). A handle is at most the
capacity, so no 32-bit sum wraps. -/

namespace Triskelion.KernelHandles
open List RunRules Function

variable {α : Type}

/-- A payload is a pointer with its type. The free list is the used part of its array, the last
place first. -/
structure HandleTable (α : Type) where
  entries : List (Option α)
  freeList : List Nat

namespace HandleTable

def init (capacity : Nat) : HandleTable α := ⟨replicate capacity none, range capacity⟩

variable (t : HandleTable α)

def alloc (data : α) : Nat × HandleTable α :=
  match t.freeList with
  | [] => (0, t)
  | idx :: rest => (idx + 1, ⟨t.entries.set idx (some data), rest⟩)

def get (handle : Nat) : Option α :=
  if handle = 0 ∨ t.entries.length < handle then none else t.entries[handle - 1]?.join

def enoent : Int := 2

/-- The answer, with the payload that is freed. -/
def close (handle : Nat) : (Int × Option α) × HandleTable α :=
  if handle = 0 ∨ t.entries.length < handle then ((-WaitAll.einval, none), t)
  else
    match t.entries[handle - 1]?.join with
    | none => ((-enoent, none), t)
    | some data => ((0, some data), ⟨t.entries.set (handle - 1) none, (handle - 1) :: t.freeList⟩)

/-- The free list holds the vacant entries, each once. -/
structure Tidy : Prop where
  once : t.freeList.Nodup
  vacant : ∀ i, i ∈ t.freeList ↔ t.entries[i]? = some none
  whole : t.entries.countP Option.isSome + t.freeList.length = t.entries.length

variable {t}

theorem get_set {i : Nat} (inside : i < t.entries.length) (x : Option α) (freeList : List Nat) :
    get ⟨t.entries.set i x, freeList⟩ = update t.get (i + 1) x := by
  funext handle
  simp only [get, length_set, getElem?_set, update_apply]
  grind

theorem Tidy.alloc (tidy : t.Tidy) (data : α) :
    t.alloc data = (0, t) ∧ t.entries.countP Option.isSome = t.entries.length ∨
    ∃ i t', t.alloc data = (i + 1, t') ∧ i < t.entries.length ∧ t.get (i + 1) = none ∧ t'.Tidy ∧
      t'.entries.length = t.entries.length ∧ t'.get = update t.get (i + 1) (some data) := by
  obtain ⟨once, vacant, whole⟩ := tidy
  unfold HandleTable.alloc
  split
  · next full => exact .inl ⟨rfl, by simpa [full] using whole⟩
  · next i rest free =>
    rw [free] at once vacant whole
    obtain ⟨inside, here⟩ := List.getElem?_eq_some_iff.mp ((vacant i).mp mem_cons_self)
    refine .inr ⟨i, _, rfl, inside, ?_, ⟨?_, fun j => ?_, ?_⟩, length_set .., get_set inside ..⟩
    · grind [get]
    · exact (nodup_cons.mp once).2
    · have := vacant j
      grind
    · simp [countP_set inside, here] at whole ⊢
      omega

theorem Tidy.close (tidy : t.Tidy) (handle : Nat) :
    (∃ errno < 0, t.close handle = ((errno, none), t) ∧ t.get handle = none) ∨
    ∃ data t', t.close handle = ((0, some data), t') ∧ t.get handle = some data ∧ t'.Tidy ∧
      t'.entries.length = t.entries.length ∧ t'.get = update t.get handle none := by
  obtain ⟨once, vacant, whole⟩ := tidy
  unfold HandleTable.close
  split
  · next bad => exact .inl ⟨_, by decide, rfl, if_pos bad⟩
  next good =>
  obtain ⟨i, rfl⟩ : ∃ i, handle = i + 1 := ⟨handle - 1, by omega⟩
  have inside : i < t.entries.length := by omega
  simp only [get, good, if_false, Nat.add_sub_cancel]
  split
  · next empty => exact .inl ⟨_, by decide, rfl, empty⟩
  · next data held =>
    have here : t.entries[i] = some data := by simpa [inside] using held
    refine .inr ⟨data, _, rfl, held, ⟨?_, fun j => ?_, ?_⟩, length_set .., get_set inside ..⟩
    · grind
    · have := vacant j
      grind
    · have live : 0 < t.entries.countP Option.isSome :=
        countP_pos_iff.mpr ⟨_, here ▸ getElem_mem inside, rfl⟩
      simp [countP_set inside, here]
      omega

end HandleTable
open Triskelion.KernelHandles.HandleTable

/-- `latest` is not in the code: what a handle was last given for, until it is closed. -/
structure Books (α : Type) where
  table : HandleTable α
  latest : Nat → Option α

inductive Op (α : Type)
  | alloc (data : α)
  | close (handle : Nat)

def step (s : Books α) : Op α → Books α
  | .alloc data =>
    let made := s.table.alloc data
    ⟨made.2, if made.1 = 0 then s.latest else update s.latest made.1 (some data)⟩
  | .close handle => ⟨(s.table.close handle).2, update s.latest handle none⟩

def Sound (capacity : Nat) (s : Books α) : Prop :=
  s.table.Tidy ∧ s.table.entries.length = capacity ∧ s.table.get = s.latest

def Exact (capacity : Nat) (s : Books α) : Op α → Prop
  | .alloc data =>
    let handle := (s.table.alloc data).1
    if handle = 0 then s.table.entries.countP Option.isSome = capacity
    else handle ≤ capacity ∧ s.latest handle = none
  | .close handle => (s.table.close handle).1.2 = s.latest handle ∧
      ((s.table.close handle).1.1 = 0 ↔ (s.latest handle).isSome)

theorem handles_kept (capacity : Nat) (ops : List (Op α)) :
    let start : Books α := ⟨.init capacity, fun _ => none⟩
    (∀ s ∈ states step start ops, Sound capacity s) ∧ AllSteps step (Exact capacity) start ops := by
  intro start
  have all : AllSteps step (fun _ _ => True) start ops :=
    allSteps_of_forall (fun _ _ => trivial) start ops
  refine (good_and_seen_iff (fun s op sound => ?_) ⟨⟨?_, ?_, ?_⟩, ?_, ?_⟩).mpr all
  · obtain ⟨tidy, size, get⟩ := sound
    rw [true_iff]
    cases op with
    | alloc data =>
      obtain ⟨none, full⟩ | ⟨i, t, made, inside, fresh, kept, same, gets⟩ := tidy.alloc data
      · simp [Exact, Sound, step, none, full, size, get, tidy]
      · simp [Exact, Sound, step, made, ← get, fresh, kept, same, size, gets]
        omega
    | close handle =>
      obtain ⟨errno, neg, refused, none⟩ | ⟨data, t, made, held, kept, same, gets⟩ :=
        tidy.close handle
      · simp [Exact, Sound, step, refused, ← get, none, tidy, size]
        omega
      · simp [Exact, Sound, step, made, ← get, held, kept, same, size, gets]
  · exact nodup_range
  · simp [start, init, getElem?_replicate]
  · simp [start, init, countP_replicate]
  · simp [start, init]
  · funext handle
    simp only [start, init, HandleTable.get, getElem?_replicate]
    split_ifs <;> rfl

end Triskelion.KernelHandles
