import Mathlib.Data.List.Nodup
import Mathlib.Data.List.Perm.Subperm

/-! Records replayed into a store. Each record goes to a place that may depend on what
was replayed before it, and what it carries replaces what stood there. -/

namespace Triskelion

open List

/-- A store with what is needed to follow one entry at each place: `key` is the place that
a reader's name stands for. -/
structure Replay (σ ι π loc ν : Type) [DecidableEq loc] where
  step : σ → ι → σ
  place : σ → ι → loc
  carried : ι → Option ν
  key : π → loc
  look : π → σ → Option ν
  look_step : ∀ s e p, look p (step s e) =
    if place s e = key p then (carried e).or (look p s) else look p s

namespace Replay

variable {σ ι π loc ν : Type} [DecidableEq loc] (R : Replay σ ι π loc ν)

def run (s : σ) (es : List ι) : σ := es.foldl R.step s

def trace : σ → List ι → List (ι × loc)
  | _, [] => []
  | s, e :: es => (e, R.place s e) :: trace (R.step s e) es

variable {s : σ}

theorem trace_append (s : σ) (front rest : List ι) :
    R.trace s (front ++ rest) = R.trace s front ++ R.trace (R.run s front) rest := by
  induction front generalizing s with
  | nil => rfl
  | cons e front ih => rw [cons_append, trace, ih]; rfl

theorem map_trace (s : σ) (es : List ι) : (R.trace s es).map Prod.fst = es := by
  induction es generalizing s with
  | nil => rfl
  | cons e es ih => rw [trace, map_cons, ih]

theorem mem_of_mem_trace {es : List ι} {w : ι × loc} (mem : w ∈ R.trace s es) : w.1 ∈ es := by
  have inside : w.1 ∈ (R.trace s es).map Prod.fst := mem_map.mpr ⟨w, mem, rfl⟩
  rwa [map_trace] at inside

theorem look_run (p : π) (s : σ) (es : List ι) (v : ν) (found : R.look p (R.run s es) = some v) :
    (∃ w ∈ R.trace s es, w.2 = R.key p ∧ R.carried w.1 = some v) ∨ R.look p s = some v := by
  induction es generalizing s with
  | nil => exact .inr found
  | cons e es ih =>
    rcases ih (R.step s e) found with ⟨w, mem, here, carried⟩ | before
    · exact .inl ⟨w, mem_cons_of_mem _ mem, here, carried⟩
    · rw [R.look_step] at before
      split at before
      · next here =>
        rcases Option.or_eq_some_iff.mp before with carried | ⟨-, old⟩
        · exact .inl ⟨(e, R.place s e), mem_cons_self, here, carried⟩
        · exact .inr old
      · exact .inr before

theorem look_run_of_untouched {p : π} {es : List ι}
    (untouched : ∀ w ∈ R.trace s es, w.2 = R.key p → R.carried w.1 = none) :
    R.look p (R.run s es) = R.look p s := by
  induction es generalizing s with
  | nil => rfl
  | cons e es ih =>
    have first := untouched (e, R.place s e) mem_cons_self
    have step : R.look p (R.step s e) = R.look p s := by
      rw [R.look_step]
      split
      · next here => rw [first here, Option.none_or]
      · rfl
    exact (ih fun w mem => untouched w (mem_cons_of_mem _ mem)).trans step

theorem look_run_isSome {p : π} (before : (R.look p s).isSome) (es : List ι) :
    (R.look p (R.run s es)).isSome := by
  induction es generalizing s with
  | nil => exact before
  | cons e es ih =>
    apply ih
    rw [R.look_step]
    split
    · rw [Option.isSome_or, before, Bool.or_true]
    · exact before

theorem run_append (s : σ) (front rest : List ι) :
    R.run s (front ++ rest) = R.run (R.run s front) rest := foldl_append

theorem trace_split (s : σ) (front : List ι) (e : ι) (rest : List ι) :
    R.trace s (front ++ e :: rest) = R.trace s front ++
      (e, R.place (R.run s front) e) :: R.trace (R.run s (front ++ [e])) rest := by
  rw [trace_append, run_append]
  rfl

/-- What a record writes is read if no later record goes over it. -/
theorem look_run_of_last {p : π} {front rest : List ι} {e : ι} {v : ν}
    (here : R.place (R.run s front) e = R.key p) (carried : R.carried e = some v)
    (untouched : ∀ w ∈ R.trace (R.run s (front ++ [e])) rest, w.2 = R.key p → R.carried w.1 = none) :
    R.look p (R.run s (front ++ e :: rest)) = some v := by
  have written : R.look p (R.run s (front ++ [e])) = some v := by
    rw [run_append]
    show R.look p (R.step _ e) = some v
    rw [R.look_step, if_pos here, carried, Option.some_or]
  rw [append_cons, run_append, R.look_run_of_untouched untouched, written]

end Replay

/-- If the homes of the records are all among the places the records go to, the places are
the homes in another order. -/
theorem places_perm_homes {ι loc : Type} (home : ι → loc) {tr : List (ι × loc)}
    (nodup : (tr.map fun w => home w.1).Nodup) (cover : ∀ w ∈ tr, ∃ w' ∈ tr, w'.2 = home w.1) :
    (tr.map Prod.snd).Perm (tr.map fun w => home w.1) := by
  have subset : (tr.map fun w => home w.1) ⊆ tr.map Prod.snd := by
    intro l mem
    obtain ⟨w, inside, rfl⟩ := mem_map.mp mem
    obtain ⟨w', inside', equal⟩ := cover w inside
    exact mem_map.mpr ⟨w', inside', equal⟩
  exact ((nodup.subperm subset).perm_of_length_le (by simp)).symm

end Triskelion
