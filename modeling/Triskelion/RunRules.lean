import Mathlib.Data.List.Basic

/-! Runs of a deterministic machine over a list of inputs, and the rules by which
a property of one step becomes a property of every state a run reaches. -/

namespace Triskelion.RunRules
open List

variable {σ ι : Type*}

def run (step : σ → ι → σ) (s : σ) (inputs : List ι) : σ := inputs.foldl step s

/-- The states a run passes through, the first and the last one included. -/
def states (step : σ → ι → σ) : σ → List ι → List σ
  | s, [] => [s]
  | s, i :: rest => s :: states step (step s i) rest

/-- Every input of the run meets `safe` in the state it arrives in. -/
def AllSteps (step : σ → ι → σ) (safe : σ → ι → Prop) : σ → List ι → Prop
  | _, [] => True
  | s, i :: rest => safe s i ∧ AllSteps step safe (step s i) rest

variable {step : σ → ι → σ} {safe : σ → ι → Prop} {good : σ → Prop}

instance decidableAllSteps [∀ s i, Decidable (safe s i)] :
    (s : σ) → (inputs : List ι) → Decidable (AllSteps step safe s inputs)
  | _, [] => .isTrue trivial
  | s, i :: rest =>
    have := decidableAllSteps (step s i) rest
    inferInstanceAs (Decidable (safe s i ∧ AllSteps step safe (step s i) rest))

variable {s : σ}

theorem run_cons (i : ι) (rest : List ι) : run step s (i :: rest) = run step (step s i) rest := rfl

theorem run_append (s : σ) (before after : List ι) :
    run step s (before ++ after) = run step (run step s before) after :=
  foldl_append

theorem run_mem_states (s : σ) (inputs : List ι) : run step s inputs ∈ states step s inputs := by
  induction inputs generalizing s with
  | nil => simp [run, states]
  | cons i rest ih => exact mem_cons_of_mem _ (ih (step s i))

theorem AllSteps.append {before after : List ι} : AllSteps step safe s (before ++ after) ↔
      AllSteps step safe s before ∧ AllSteps step safe (run step s before) after := by
  induction before generalizing s with
  | nil => simp [AllSteps, run]
  | cons i rest ih => simp only [cons_append, AllSteps, ih, run_cons, and_assoc]

variable {inputs : List ι}

section
variable (keep : ∀ s i, good s → safe s i → good (step s i)) (start : good s)
  (safes : AllSteps step safe s inputs)
include keep start safes

/-- A property kept by every safe step holds in every state of a safe run. -/
theorem good_of_allSteps : ∀ t ∈ states step s inputs, good t := by
  induction inputs generalizing s with
  | nil => simpa [states] using start
  | cons i rest ih =>
    intro t mem
    rcases mem_cons.mp mem with rfl | tail
    · exact start
    · exact ih (keep s i start safes.1) safes.2 t tail

theorem good_run : good (run step s inputs) :=
  good_of_allSteps keep start safes _ (run_mem_states s inputs)

end

theorem allSteps_of_forall (all : ∀ s i, safe s i) (s : σ) (inputs : List ι) :
    AllSteps step safe s inputs := by
  induction inputs generalizing s with
  | nil => trivial
  | cons i rest ih => exact ⟨all s i, ih (step s i)⟩

variable {seen : σ → ι → Prop}

/-- What an invariant implies of a safe step holds along a safe run. -/
theorem allSteps_of_invariant (keep : ∀ s i, good s → safe s i → good (step s i))
    (sound : ∀ s i, good s → safe s i → seen s i) (start : good s)
    (safes : AllSteps step safe s inputs) : AllSteps step seen s inputs := by
  induction inputs generalizing s with
  | nil => trivial
  | cons i rest ih => exact ⟨sound s i start safes.1, ih (keep s i start safes.1) safes.2⟩

theorem AllSteps.and {also : σ → ι → Prop} (safes : AllSteps step safe s inputs)
    (others : AllSteps step also s inputs) :
    AllSteps step (fun s i => safe s i ∧ also s i) s inputs := by
  induction inputs generalizing s with
  | nil => trivial
  | cons i rest ih => exact ⟨⟨safes.1, others.1⟩, ih safes.2 others.2⟩

/-- Two conditions that agree in every state of an invariant agree along a run. -/
theorem allSteps_iff {ok : σ → ι → Prop} (keep : ∀ s i, good s → good (step s i))
    (agree : ∀ s i, good s → (ok s i ↔ safe s i)) (start : good s) (inputs : List ι) :
    AllSteps step ok s inputs ↔ AllSteps step safe s inputs := by
  induction inputs generalizing s with
  | nil => exact Iff.rfl
  | cons i rest ih => exact and_congr (agree s i start) (ih (keep s i start))

/-- A property is observed in every state of a run exactly when all steps are
safe, where an invariant that implies it survives the safe steps and every other
step from the invariant breaks the property. The run may be known to `fit`. -/
theorem observed_iff_allSteps {seen : σ → Prop} (good : σ → Prop) (fit : σ → ι → Prop)
    (sound : ∀ s, good s → seen s) (keep : ∀ s i, good s → fit s i → safe s i → good (step s i))
    (breaks : ∀ s i, good s → fit s i → ¬ safe s i → ¬ seen (step s i)) (start : good s)
    (fits : AllSteps step fit s inputs) :
    (∀ t ∈ states step s inputs, seen t) ↔ AllSteps step safe s inputs := by
  induction inputs generalizing s with
  | nil => simp [states, AllSteps, sound s start]
  | cons i rest ih =>
    have first : step s i ∈ states step (step s i) rest := by cases rest <;> simp [states]
    constructor
    · intro all
      have here : safe s i := by
        by_contra wrong
        exact breaks s i start fits.1 wrong (all _ (mem_cons_of_mem _ first))
      exact ⟨here, (ih (keep s i start fits.1 here) fits.2).mp fun t mem =>
        all t (mem_cons_of_mem _ mem)⟩
    · rintro ⟨here, later⟩ t mem
      rcases mem_cons.mp mem with rfl | tail
      · exact sound _ start
      · exact (ih (keep s i start fits.1 here) fits.2).mpr later t tail

/-- A property holds in every state of a run and its steps are as they should be exactly when all
steps are safe, where this is so of each step from a state with the property. -/
theorem good_and_seen_iff
    (agree : ∀ s i, good s → (safe s i ↔ seen s i ∧ good (step s i))) (start : good s)
    : (∀ t ∈ states step s inputs, good t) ∧ AllSteps step seen s inputs ↔
      AllSteps step safe s inputs := by
  constructor
  · rintro ⟨all, exact⟩
    induction inputs generalizing s with
    | nil => trivial
    | cons i rest ih =>
      have first : step s i ∈ states step (step s i) rest := by cases rest <;> simp [states]
      have next := all _ (mem_cons_of_mem _ first)
      exact ⟨(agree s i start).mpr ⟨exact.1, next⟩,
        ih next (fun t mem => all t (mem_cons_of_mem _ mem)) exact.2⟩
  · intro safes
    exact ⟨good_of_allSteps (fun s i good safe => ((agree s i good).mp safe).2) start safes,
      allSteps_of_invariant (fun s i good safe => ((agree s i good).mp safe).2)
        (fun s i good safe => ((agree s i good).mp safe).1) start safes⟩

/-! Machines that answer every input. -/

section Outputs

variable {τ ο : Type*}

def outputs (answer : σ → ι → σ × ο) : σ → List ι → List ο
  | _, [] => []
  | s, i :: rest => (answer s i).2 :: outputs answer (answer s i).1 rest

/-- Machines whose related states answer alike and stay related cannot be told
apart by any run. -/
theorem outputs_eq_of_simulation {answer : σ → ι → σ × ο} {spec : τ → ι → τ × ο} {R : σ → τ → Prop}
    (simulates : ∀ s t i, R s t → (answer s i).2 = (spec t i).2 ∧ R (answer s i).1 (spec t i).1)
    {s : σ} {t : τ} (start : R s t) : outputs answer s inputs = outputs spec t inputs := by
  induction inputs generalizing s t with
  | nil => rfl
  | cons i rest ih =>
    obtain ⟨same, related⟩ := simulates s t i start
    rw [outputs, outputs, same, ih related]

end Outputs

end Triskelion.RunRules
