import Mathlib.Data.List.Basic

/-! Cutting a stream into frames whose length stands at their beginning. Frames are
taken off the front of a buffer while they are complete; a stream that arrives in
pieces is cut into the same frames as one that arrives at once. -/

namespace Triskelion

open List Option

/-- `size` reads the length of the first frame, as soon as enough of it is there, and
reads it within that frame. A buffer that does not hold the whole frame can be completed to one. -/
structure Framer (β : Type*) where
  size : List β → Option Nat
  stable : ∀ {buf n}, size buf = some n → ∀ more, size (buf ++ more) = some n
  pos : ∀ {buf n}, size buf = some n → 0 < n
  inside : ∀ {frame rest}, size (frame ++ rest) = some frame.length → size frame = some frame.length
  completes : ∀ buf, (∀ n, size buf = some n → buf.length < n) →
    ∃ more, more ≠ [] ∧ size (buf ++ more) = some (buf ++ more).length

namespace Framer

variable {β : Type*} (F : Framer β)

def takeFrame (buf : List β) : Option (List β × List β) :=
  (F.size buf).bind fun n => if n ≤ buf.length then some (buf.take n, buf.drop n) else none

def framesWithin : Nat → List β → List (List β) × List β
  | 0, buf => ([], buf)
  | fuel + 1, buf =>
    match F.takeFrame buf with
    | none => ([], buf)
    | some (frame, rest) =>
      (frame :: (framesWithin fuel rest).1, (framesWithin fuel rest).2)

/-- Every turn takes something off, so there are no more turns than items. -/
def frames (buf : List β) : List (List β) × List β := F.framesWithin buf.length buf

def Whole (frame : List β) : Prop := F.size frame = some frame.length

def Partial (rest : List β) : Prop := ∃ more, more ≠ [] ∧ F.Whole (rest ++ more)

structure Parses (stream : List β) (cut : List (List β)) (rest : List β) : Prop where
  joined : cut.flatten ++ rest = stream
  whole : ∀ frame ∈ cut, F.Whole frame
  unfinished : F.Partial rest

variable {F} {buf frame rest : List β} {cut : List (List β)}

theorem takeFrame_some (taken : F.takeFrame buf = some (frame, rest)) :
    buf = frame ++ rest ∧ F.size buf = some frame.length := by
  obtain ⟨n, size, cut⟩ := bind_eq_some_iff.mp taken
  split at cut
  · next fits =>
    obtain ⟨rfl, rfl⟩ := Prod.mk.inj (some.inj cut)
    refine ⟨(take_append_drop n buf).symm, ?_⟩
    rw [size, length_take_of_le fits]
  · cases cut

theorem takeFrame_append (whole : F.Whole frame) :
    F.takeFrame (frame ++ rest) = some (frame, rest) := by
  rw [takeFrame, F.stable whole rest, bind_some, if_pos (by simp), take_left, drop_left]

theorem takeFrame_unfinished (unfinished : F.Partial rest) : F.takeFrame rest = none := by
  obtain ⟨more, ne, whole⟩ := unfinished
  rw [takeFrame]
  cases size : F.size rest with
  | none => rfl
  | some n =>
    have total := some.inj ((F.stable size more).symm.trans whole)
    have longer := length_pos_iff.mpr ne
    rw [length_append] at total
    rw [bind_some, if_neg (by omega)]

theorem length_lt_of_takeFrame (taken : F.takeFrame buf = some (frame, rest)) :
    rest.length < buf.length := by
  obtain ⟨rfl, size⟩ := takeFrame_some taken
  have := F.pos size
  rw [length_append]
  omega

theorem partial_of_takeFrame (none_ : F.takeFrame buf = none) : F.Partial buf := by
  refine F.completes buf fun n size => ?_
  rw [takeFrame, size, bind_some] at none_
  split at none_
  · cases none_
  · next longer => exact Nat.lt_of_not_le longer

theorem framesWithin_eq {fuel other : Nat} (enough : buf.length ≤ fuel)
    (enough' : buf.length ≤ other) : F.framesWithin fuel buf = F.framesWithin other buf := by
  induction fuel generalizing other buf with
  | zero =>
    have nil := length_eq_zero_iff.mp (Nat.le_zero.mp enough)
    have none_ : F.takeFrame buf = none := by
      cases taken : F.takeFrame buf with
      | none => rfl
      | some =>
        have := length_lt_of_takeFrame taken
        rw [nil] at this
        cases this
    cases other with
    | zero => rfl
    | succ other => rw [framesWithin, framesWithin, none_]
  | succ fuel ih =>
    cases taken : F.takeFrame buf with
    | none => cases other <;> simp only [framesWithin, taken]
    | some pair =>
      obtain ⟨frame, rest⟩ := pair
      have shorter := length_lt_of_takeFrame taken
      obtain ⟨other, rfl⟩ := Nat.exists_eq_succ_of_ne_zero (by omega : other ≠ 0)
      have inner : F.framesWithin fuel rest = F.framesWithin other rest :=
        ih (by omega) (by omega)
      simp only [framesWithin, taken, inner]

theorem frames_none (none_ : F.takeFrame buf = none) : F.frames buf = ([], buf) := by
  rw [frames]
  cases buf.length <;> simp only [framesWithin, none_]

theorem frames_some (taken : F.takeFrame buf = some (frame, rest)) :
    F.frames buf = (frame :: (F.frames rest).1, (F.frames rest).2) := by
  have shorter := length_lt_of_takeFrame taken
  have turns : F.frames buf = F.framesWithin (buf.length - 1 + 1) buf := framesWithin_eq
    (Nat.le_refl _) (by omega)
  have inner : F.framesWithin (buf.length - 1) rest = F.frames rest := framesWithin_eq
    (by omega) (Nat.le_refl _)
  rw [turns, framesWithin, taken, ← inner]

/-! ### Parsing -/

theorem Parses.cons {stream : List β} (whole : F.Whole frame) (later : F.Parses stream cut rest) :
    F.Parses (frame ++ stream) (frame :: cut) rest where
  joined := by rw [flatten_cons, append_assoc, later.joined]
  whole g mem := by
    rcases mem_cons.mp mem with rfl | tail
    · exact whole
    · exact later.whole g tail
  unfinished := later.unfinished

theorem frames_of_parses {stream : List β} (parsed : F.Parses stream cut rest) :
    F.frames stream = (cut, rest) := by
  induction cut generalizing stream with
  | nil =>
    have same := parsed.joined
    subst same
    exact frames_none (takeFrame_unfinished parsed.unfinished)
  | cons frame cut ih =>
    have whole := parsed.whole frame mem_cons_self
    have joined := parsed.joined
    rw [flatten_cons, append_assoc] at joined
    have later : F.Parses (cut.flatten ++ rest) cut rest :=
      ⟨rfl, fun g mem => parsed.whole g (mem_cons_of_mem _ mem), parsed.unfinished⟩
    rw [← joined, frames_some (takeFrame_append whole), ih later]

theorem frames_parses (stream : List β) : F.Parses stream (F.frames stream).1 (F.frames stream).2 := by
  induction length : stream.length using Nat.strongRecOn generalizing stream with
  | ind n ih =>
    cases taken : F.takeFrame stream with
    | none =>
      rw [frames_none taken]
      refine ⟨rfl, fun frame mem => ?_, partial_of_takeFrame taken⟩
      cases mem
    | some pair =>
      obtain ⟨frame, rest⟩ := pair
      have shorter := length_lt_of_takeFrame taken
      obtain ⟨rfl, size⟩ := takeFrame_some taken
      rw [frames_some taken]
      exact (ih rest.length (length ▸ shorter) rest rfl).cons (F.inside size)

theorem Parses.append {first second rest' : List β} {cut' : List (List β)}
    (parsed : F.Parses first cut rest) (next : F.Parses (rest ++ second) cut' rest') :
    F.Parses (first ++ second) (cut ++ cut') rest' where
  joined := by
    rw [flatten_append, append_assoc, next.joined, ← append_assoc, parsed.joined]
  whole frame mem := by
    rcases mem_append.mp mem with early | late
    · exact parsed.whole frame early
    · exact next.whole frame late
  unfinished := next.unfinished

end Framer
end Triskelion
