import Mathlib.Data.Finset.Card
import Mathlib.Data.Fintype.Card
import Mathlib.Data.List.Basic

/-! Chains of a partial successor map: which maps have only finite chains, and
what relinking one element, cutting links and splicing an element out do to
that. No order or rank is carried; a chain is finite when it runs dry. -/

namespace Triskelion.LinkChain
open Option

variable {α : Type*}

def climb (next : α → Option α) : Nat → α → Option α
  | 0, a => some a
  | k + 1, a => (next a).bind (climb next k)

section
variable (next : α → Option α)
include next

def Ends (a : α) : Prop := ∃ k, climb next k a = none

def Grounded : Prop := ∀ a, Ends next a

def Reaches (a b : α) : Prop := ∃ k, climb next k a = some b

end

variable {next next' : α → Option α}

variable {a : α} {k : Nat}

theorem climb_succ_none (h : next a = none) : climb next (k + 1) a = none := by
  simp [climb, h]

theorem climb_succ_some {b : α} (h : next a = some b) : climb next (k + 1) a = climb next k b := by
  simp [climb, h]

theorem climb_add (i j : Nat) : climb next (i + j) a = (climb next i a).bind (climb next j) := by
  induction i generalizing a with
  | zero => simp [climb]
  | succ i ih =>
    rw [Nat.add_right_comm]
    cases h : next a with
    | none => simp [climb, h]
    | some => rw [climb_succ_some h, climb_succ_some h, ih]

theorem climb_none_mono {m : Nat} (h : climb next k a = none) (le : k ≤ m) :
    climb next m a = none := by
  obtain ⟨d, rfl⟩ := Nat.exists_eq_add_of_le le
  rw [climb_add, h, bind_none]

theorem Ends.of_next_none (h : next a = none) : Ends next a := ⟨1, climb_succ_none h⟩

theorem Ends.of_next_some {b : α} (h : next a = some b) (ends : Ends next b) : Ends next a := by
  obtain ⟨k, hk⟩ := ends
  exact ⟨k + 1, by rw [climb_succ_some h, hk]⟩

theorem not_ends_of_cycle (h : climb next (k + 1) a = some a) : ¬ Ends next a := by
  have turns : ∀ n, climb next (n * (k + 1)) a = some a := by
    intro n
    induction n with
    | zero => simp [climb]
    | succ n ih => rw [Nat.succ_mul, climb_add, ih, bind_some, h]
  rintro ⟨m, hm⟩
  have le := Nat.le_mul_of_pos_right m (Nat.succ_pos k)
  simpa [climb_none_mono hm le] using turns m

theorem climb_agree {p : α} (along : ∀ j < k, ∀ y, climb next j p = some y → next' y = next y) :
    climb next' k p = climb next k p := by
  induction k generalizing p with
  | zero => rfl
  | succ k ih =>
    have here := along 0 (Nat.succ_pos k) p rfl
    cases h : next p with
    | none => rw [climb_succ_none h, climb_succ_none (here.trans h)]
    | some =>
      rw [climb_succ_some h, climb_succ_some (here.trans h)]
      refine ih fun j hj y hy => along (j + 1) (by omega) y ?_
      rwa [climb_succ_some h]

theorem Ends.of_agree {p : α} (ends : Ends next p)
    (along : ∀ y, Reaches next p y → next' y = next y) : Ends next' p := by
  obtain ⟨k, hk⟩ := ends
  exact ⟨k, by rw [climb_agree fun j _ y hy => along y ⟨j, hy⟩, hk]⟩

theorem grounded_of_changed (ground : Grounded next)
    (changed : ∀ x, next' x = next x ∨ next' x = none ∨ ∃ p, next' x = some p ∧ Ends next' p) :
    Grounded next' := by
  intro x
  obtain ⟨k, hk⟩ := ground x
  induction k generalizing x with
  | zero => simp [climb] at hk
  | succ k ih =>
    rcases changed x with same | gone | ⟨p, moved, ends⟩
    · cases h : next x with
      | none => exact .of_next_none (same.trans h)
      | some b => exact .of_next_some (same.trans h) (ih b (by rwa [climb_succ_some h] at hk))
    · exact .of_next_none gone
    · exact .of_next_some moved ends

theorem grounded_of_links_cut (ground : Grounded next)
    (cut : ∀ a, next' a = next a ∨ next' a = none) : Grounded next' :=
  grounded_of_changed ground fun a => (cut a).imp_right .inl

/-- Relinking `a` under `p` keeps all chains finite exactly when `a` was not
already on the chain of `p`. -/
theorem grounded_relink_iff {p : α} (ground : Grounded next)
    (off : ∀ x, x ≠ a → next' x = next x) (at_a : next' a = some p) :
    Grounded next' ↔ ¬ Reaches next p a := by
  classical
  constructor
  · rintro ground' reach
    have first := Nat.find_spec reach
    have agree := climb_agree fun j hj y hy => off y fun h => Nat.find_min reach hj (h ▸ hy)
    refine not_ends_of_cycle (k := Nat.find reach) ?_ (ground' a)
    rw [climb_succ_some at_a, agree, first]
  · intro apart
    have above := (ground p).of_agree fun y hy => off y fun h => apart (h ▸ hy)
    refine grounded_of_changed ground fun x => ?_
    by_cases hx : x = a
    · exact .inr (.inr ⟨p, hx ▸ at_a, above⟩)
    · exact .inl (off x hx)

/-- Splicing `a` out: what was linked to `a` is linked to its successor. -/
theorem grounded_splice (ground : Grounded next) (gone : next' a = none)
    (onto : ∀ x, x ≠ a → next x = some a → next' x = next a)
    (off : ∀ x, x ≠ a → next x ≠ some a → next' x = next x) : Grounded next' := by
  intro x
  obtain ⟨k, hk⟩ := ground x
  induction k using Nat.strong_induction_on generalizing x with
  | _ k ih =>
    by_cases hx : x = a
    · exact .of_next_none (hx ▸ gone)
    · by_cases link : next x = some a
      · cases h : next a with
        | none => exact .of_next_none ((onto x hx link).trans h)
        | some b =>
          refine .of_next_some ((onto x hx link).trans h) ?_
          match k, hk with
          | 0, hk => simp [climb] at hk
          | 1, hk => simp [climb, link] at hk
          | k + 2, hk =>
            rw [climb_succ_some link, climb_succ_some h] at hk
            exact ih k (by omega) b hk
      · cases h : next x with
        | none => exact .of_next_none ((off x hx link).trans h)
        | some b =>
          refine .of_next_some ((off x hx link).trans h) ?_
          match k, hk with
          | 0, hk => simp [climb] at hk
          | k + 1, hk =>
            rw [climb_succ_some h] at hk
            exact ih k (by omega) b hk

theorem climb_prefix {b : α} {j : Nat} (h : climb next k a = some b) (le : j ≤ k) :
    ∃ c, climb next j a = some c ∧ climb next (k - j) c = some b := by
  have split : climb next (j + (k - j)) a = some b := by rwa [Nat.add_sub_cancel' le]
  rw [climb_add] at split
  cases hj : climb next j a with
  | none => simp [hj] at split
  | some c => exact ⟨c, rfl, by simpa [hj] using split⟩

/-- Finite chains are no longer than the list of the elements that have a
successor. -/
theorem climb_length_none (ground : Grounded next) {support : List α}
    (cover : ∀ x, next x ≠ none → x ∈ support) (a : α) :
    climb next (support.length + 1) a = none := by
  classical
  by_contra long
  obtain ⟨b, hb⟩ := ne_none_iff_exists'.mp long
  have visit : ∀ i : Fin (support.length + 1), ∃ c, climb next i.val a = some c ∧ c ∈ support := by
    intro i
    obtain ⟨c, hc, rest⟩ := climb_prefix hb (Nat.le_of_lt i.isLt)
    refine ⟨c, hc, cover c fun stop => ?_⟩
    have : support.length + 1 - i.val = (support.length - i.val) + 1 := by omega
    rw [this, climb_succ_none stop] at rest
    simp at rest
  choose at_ hat using visit
  obtain ⟨i, _, j, _, ne, same⟩ := Finset.exists_ne_map_eq_of_card_lt_of_maps_to
    (s := (Finset.univ : Finset (Fin (support.length + 1)))) (t := support.toFinset) (f := at_)
    (by
      have := support.toFinset_card_le
      simp only [Finset.card_univ, Fintype.card_fin]
      omega)
    (fun i _ => by simpa using (hat i).2)
  rcases Nat.lt_or_gt_of_ne (Fin.val_ne_of_ne ne) with lt | gt
  · obtain ⟨c, hc, rest⟩ := climb_prefix (hat j).1 (Nat.le_of_lt lt)
    have hci := some.inj (hc.symm.trans (hat i).1)
    have turn : j.val - i.val = (j.val - i.val - 1) + 1 := by omega
    rw [turn, hci, ← same] at rest
    exact not_ends_of_cycle rest (ground _)
  · obtain ⟨c, hc, rest⟩ := climb_prefix (hat i).1 (Nat.le_of_lt gt)
    have hcj := some.inj (hc.symm.trans (hat j).1)
    have turn : i.val - j.val = (i.val - j.val - 1) + 1 := by omega
    rw [turn, hcj, same] at rest
    exact not_ends_of_cycle rest (ground _)

end Triskelion.LinkChain
