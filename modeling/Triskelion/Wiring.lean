import Mathlib.Logic.Function.Basic
import Mathlib.Tactic.SplitIfs
import Mathlib.Tactic.Spread

/-! Connected sockets: slots that hold descriptors, places that keep the far end of a pair
for whoever comes, and links between two slots that hold the two ends of one pair. What
matters of a descriptor is whether it is open and which end of which pair it is; what
becomes of descriptors that nothing holds does not matter to the links. -/

namespace Triskelion

open Function Option

structure SocketEnd where
  pair : Nat
  server : Bool
deriving DecidableEq

structure Wiring (κ ι : Type*) where
  fd : κ → Option Int
  kept : ι → Option (κ × Int)
  live : Int → Bool
  tag : Int → Option SocketEnd
  links : List (κ × κ)

namespace Wiring

variable {κ ι : Type*} {w : Wiring κ ι}

def Joined (w : Wiring κ ι) (a b : Int) : Prop :=
  ∃ pair, w.tag a = some ⟨pair, true⟩ ∧ w.tag b = some ⟨pair, false⟩

def Paired (w : Wiring κ ι) (link : κ × κ) : Prop :=
  ∃ a b, w.fd link.1 = some a ∧ w.fd link.2 = some b ∧ 0 ≤ a ∧ 0 ≤ b ∧ w.Joined a b

theorem not_paired (link : κ × κ) {a b : Int} {near far : SocketEnd} (at_a : w.fd link.1 = some a)
    (at_b : w.fd link.2 = some b) (near_end : w.tag a = some near) (far_end : w.tag b = some far)
    (apart : near.pair ≠ far.pair) : ¬ w.Paired link := by
  rintro ⟨c, d, at_c, at_d, -, -, pair, tag_c, tag_d⟩
  cases at_a.symm.trans at_c
  cases at_b.symm.trans at_d
  cases near_end.symm.trans tag_c
  cases far_end.symm.trans tag_d
  exact apart rfl

/-- What is held is open and held once; a place keeps the far end of what its server slot
holds, if that holds anything. -/
structure Sound (w : Wiring κ ι) : Prop where
  opened : ∀ s x, w.fd s = some x → 0 ≤ x → w.live x
  single : ∀ s t x, 0 ≤ x → w.fd s = some x → w.fd t = some x → s = t
  kept_opened : ∀ i s x, w.kept i = some (s, x) → 0 ≤ x ∧ w.live x
  kept_apart : ∀ i s x t, w.kept i = some (s, x) → w.fd t ≠ some x
  kept_single : ∀ i j s t x, w.kept i = some (s, x) → w.kept j = some (t, x) → i = j
  one_place : ∀ i j s x y, w.kept i = some (s, x) → w.kept j = some (s, y) → w.fd s ≠ none → i = j
  served : ∀ i s x y, w.kept i = some (s, x) → w.fd s = some y → 0 ≤ y ∧ w.Joined y x
  linked : ∀ link ∈ w.links, w.Paired link

def Recorded (w : Wiring κ ι) (x : Int) : Prop :=
  0 ≤ x ∧ ((∃ s, w.fd s = some x) ∨ ∃ i s, w.kept i = some (s, x))

def Spare (w : Wiring κ ι) (x : Int) : Prop := 0 ≤ x ∧ w.live x ∧ ¬ w.Recorded x

variable {x : Int}

theorem Sound.live_of_recorded (sound : w.Sound) (recorded : w.Recorded x) : w.live x := by
  obtain ⟨nonneg, ⟨s, at_s⟩ | ⟨i, s, at_i⟩⟩ := recorded
  · exact sound.opened s x at_s nonneg
  · exact (sound.kept_opened i s x at_i).2

theorem Joined.retag {live : Int → Bool} {tag : Int → Option SocketEnd} {a b : Int}
    (joined : w.Joined a b) (at_a : tag a = w.tag a) (at_b : tag b = w.tag b) :
    Joined { w with live, tag } a b := by
  obtain ⟨pair, tag_a, tag_b⟩ := joined
  exact ⟨pair, at_a.trans tag_a, at_b.trans tag_b⟩

section
variable (sound : w.Sound)
include sound

theorem Sound.retag {live : Int → Bool} {tag : Int → Option SocketEnd}
    (same : ∀ x, w.Recorded x → live x ∧ tag x = w.tag x) : Sound { w with live, tag } where
  __ := sound
  opened s x at_s nonneg := (same x ⟨nonneg, .inl ⟨s, at_s⟩⟩).1
  kept_opened i s x at_i := by
    have nonneg := (sound.kept_opened i s x at_i).1
    exact ⟨nonneg, (same x ⟨nonneg, .inr ⟨i, s, at_i⟩⟩).1⟩
  served i s x y at_i at_s := by
    obtain ⟨nonneg, joined⟩ := sound.served i s x y at_i at_s
    have kept := (sound.kept_opened i s x at_i).1
    exact ⟨nonneg, joined.retag (same y ⟨nonneg, .inl ⟨s, at_s⟩⟩).2
      (same x ⟨kept, .inr ⟨i, s, at_i⟩⟩).2⟩
  linked link mem := by
    obtain ⟨a, b, at_a, at_b, a_nonneg, b_nonneg, joined⟩ := sound.linked link mem
    exact ⟨a, b, at_a, at_b, a_nonneg, b_nonneg, joined.retag
      (same a ⟨a_nonneg, .inl ⟨_, at_a⟩⟩).2 (same b ⟨b_nonneg, .inl ⟨_, at_b⟩⟩).2⟩

theorem Sound.link {link : κ × κ} (paired : w.Paired link) :
    Sound { w with links := w.links ++ [link] } :=
  { sound with
    linked := fun other mem => by
      rcases List.mem_append.mp mem with before | new
      · exact sound.linked other before
      · rw [List.mem_singleton.mp new]
        exact paired }

theorem Sound.unlink {links : List (κ × κ)} (fewer : links ⊆ w.links) : Sound { w with links } :=
  { sound with linked := fun link mem => sound.linked link (fewer mem) }

/-- A slot gets a descriptor that is held nowhere, or loses what it holds, and a place for the slot
keeps another such descriptor. -/
theorem Sound.revise {fd : κ → Option Int} {kept : ι → Option (κ × Int)} (s : κ)
    (i : Option ι) (a b : Int)
    (slot : ∀ t y, fd t = some y → w.fd t = some y ∨ t = s ∧ y = a ∧ (0 ≤ a → w.Spare a))
    (place : ∀ j t y, kept j = some (t, y) →
      w.kept j = some (t, y) ∨ some j = i ∧ t = s ∧ y = b ∧ w.Spare b ∧ a ≠ b)
    (elsewhere : ∀ t, t ≠ s → fd t = w.fd t)
    (here : ∀ j y, kept j = some (s, y) → fd s ≠ none →
      (∀ k z, kept k = some (s, z) → j = k) ∧ ∀ z, fd s = some z → 0 ≤ z ∧ w.Joined z y)
    (links : ∀ link ∈ w.links, fd link.1 = w.fd link.1 ∧ fd link.2 = w.fd link.2) :
    Sound { w with fd, kept } where
  opened t y at_t nonneg := by
    rcases slot t y at_t with old | ⟨-, rfl, spare⟩
    · exact sound.opened t y old nonneg
    · exact (spare nonneg).2.1
  single t u y nonneg at_t at_u := by
    rcases slot t y at_t with old | ⟨rfl, rfl, spare⟩ <;>
      rcases slot u y at_u with old' | ⟨rfl, same, spare'⟩
    · exact sound.single t u y nonneg old old'
    · exact absurd ⟨nonneg, .inl ⟨t, old⟩⟩ (same ▸ (spare' (same ▸ nonneg)).2.2)
    · exact absurd ⟨nonneg, .inl ⟨u, old'⟩⟩ (spare nonneg).2.2
    · rfl
  kept_opened j t y at_j := by
    rcases place j t y at_j with old | ⟨-, -, rfl, spare, -⟩
    · exact sound.kept_opened j t y old
    · exact ⟨spare.1, spare.2.1⟩
  kept_apart j t y u at_j at_u := by
    rcases place j t y at_j with old | ⟨-, -, rfl, spare, apart⟩ <;>
      rcases slot u y at_u with old' | ⟨-, same, spare'⟩
    · exact sound.kept_apart j t y u old old'
    · have nonneg := (sound.kept_opened j t y old).1
      exact (spare' (same ▸ nonneg)).2.2 ⟨same ▸ nonneg, .inr ⟨j, t, same ▸ old⟩⟩
    · exact spare.2.2 ⟨spare.1, .inl ⟨u, old'⟩⟩
    · exact apart same.symm
  kept_single j k t u y at_j at_k := by
    rcases place j t y at_j with old | ⟨at_i, -, rfl, spare, -⟩ <;>
      rcases place k u y at_k with old' | ⟨at_i', -, same, spare', -⟩
    · exact sound.kept_single j k t u y old old'
    · exact absurd ⟨spare'.1, .inr ⟨j, t, same ▸ old⟩⟩ spare'.2.2
    · exact absurd ⟨spare.1, .inr ⟨k, u, old'⟩⟩ spare.2.2
    · exact some.inj (at_i.trans at_i'.symm)
  one_place j k t y z at_j at_k there := by
    by_cases same : t = s
    · subst same
      exact (here j y at_j there).1 k z at_k
    · have old := (place j t y at_j).resolve_right fun new => same new.2.1
      have old' := (place k t z at_k).resolve_right fun new => same new.2.1
      exact sound.one_place j k t y z old old' (elsewhere t same ▸ there)
  served j t y z at_j at_t := by
    by_cases same : t = s
    · subst same
      exact (here j y at_j (ne_none_iff_exists'.mpr ⟨z, at_t⟩)).2 z at_t
    · have old := (place j t y at_j).resolve_right fun new => same new.2.1
      exact sound.served j t y z old (elsewhere t same ▸ at_t)
  linked link mem := by
    obtain ⟨c, d, at_c, at_d, rest⟩ := sound.linked link mem
    exact ⟨c, d, (links link mem).1.trans at_c, (links link mem).2.trans at_d, rest⟩

end

section Slots
variable [DecidableEq κ]

/-- An empty slot that no place is for gets a descriptor of its own. -/
theorem Sound.store (sound : w.Sound) {s : κ} (vacant : w.fd s = none)
    (unserved : ∀ i t y, w.kept i = some (t, y) → t ≠ s) (new : 0 ≤ x → w.Spare x) :
    Sound { w with fd := update w.fd s (some x) } := by
  have old : ∀ t y, w.fd t = some y → update w.fd s (some x) t = w.fd t := by
    intro t y at_t
    exact update_of_ne (by rintro rfl; simp [vacant] at at_t) _ _
  refine sound.revise s none x 0 (fun t y at_t => ?_) (fun _ _ _ => .inl)
    (fun t other => update_of_ne other _ _) (fun i y at_i => absurd rfl (unserved i s y at_i))
    fun link mem => ?_
  · by_cases here : t = s
    · subst here
      exact .inr ⟨rfl, by simpa using at_t.symm, new⟩
    · exact .inl (by simpa [here] using at_t)
  · obtain ⟨a, b, at_a, at_b, -⟩ := sound.linked link mem
    exact ⟨old _ a at_a, old _ b at_b⟩

theorem recorded_store {s : κ} {y : Int}
    (recorded : Recorded { w with fd := update w.fd s (some x) } y) : y = x ∨ w.Recorded y := by
  obtain ⟨nonneg, ⟨t, at_t⟩ | kept⟩ := recorded
  · by_cases here : t = s
    · subst here
      simp only [update_self, some.injEq] at at_t
      exact .inl at_t.symm
    · exact .inr ⟨nonneg, .inl ⟨t, by simpa [here] using at_t⟩⟩
  · exact .inr ⟨nonneg, .inr kept⟩

theorem Sound.drop (sound : w.Sound) {s : κ} (unlinked : ∀ link ∈ w.links, link.1 ≠ s ∧ link.2 ≠ s) :
    Sound { w with fd := update w.fd s none } := by
  refine sound.revise s none 0 0 (fun t y at_t => .inl ?_) (fun _ _ _ => .inl)
    (fun t other => update_of_ne other _ _) (fun i y _ held => absurd (update_self _ _ _) held)
    fun link mem => ⟨update_of_ne (unlinked link mem).1 _ _, update_of_ne (unlinked link mem).2 _ _⟩
  by_cases here : t = s
  · simp [here] at at_t
  · simpa [here] using at_t

theorem Sound.recorded_drop (sound : w.Sound) {s : κ} {y : Int}
    (recorded : Recorded { w with fd := update w.fd s none } y) :
    w.Recorded y ∧ w.fd s ≠ some y := by
  obtain ⟨nonneg, ⟨t, at_t⟩ | ⟨i, t, at_i⟩⟩ := recorded
  · by_cases here : t = s
    · simp [here] at at_t
    · have before : w.fd t = some y := by simpa [here] using at_t
      exact ⟨⟨nonneg, .inl ⟨t, before⟩⟩, fun at_s => here (sound.single t s y nonneg before at_s)⟩
  · exact ⟨⟨nonneg, .inr ⟨i, t, at_i⟩⟩, sound.kept_apart i t y s at_i⟩

end Slots

section Places
variable [DecidableEq ι]

theorem update_kept (kept : ι → Option (κ × Int)) (i : ι) (s : κ) (x : Int) (j : ι) (t : κ) (y : Int)
    (at_j : update kept i (some (s, x)) j = some (t, y)) :
    j = i ∧ t = s ∧ y = x ∨ j ≠ i ∧ kept j = some (t, y) := by
  by_cases here : j = i
  · subst here
    simp only [update_self, some.injEq, Prod.mk.injEq] at at_j
    exact .inl ⟨rfl, at_j.1.symm, at_j.2.symm⟩
  · exact .inr ⟨here, by simpa [here] using at_j⟩

/-- A new place keeps the far end of what its server slot holds, which has no other place. -/
theorem Sound.keep (sound : w.Sound) {i : ι} {s : κ} (spare : w.Spare x)
    (unserved : ∀ j y, w.kept j = some (s, y) → w.fd s = none)
    (served : ∀ y, w.fd s = some y → 0 ≤ y ∧ w.Joined y x) :
    Sound { w with kept := update w.kept i (some (s, x)) } := by
  have place := update_kept w.kept i s x
  have new : ∀ j y, update w.kept i (some (s, x)) j = some (s, y) → w.fd s ≠ none →
      j = i ∧ y = x := by
    intro j y at_j held
    rcases place j s y at_j with ⟨rfl, -, rfl⟩ | ⟨-, before⟩
    · exact ⟨rfl, rfl⟩
    · exact absurd (unserved j y before) held
  refine sound.revise s (some i) (-1) x (fun _ _ => .inl) (fun j t y at_j => ?_) (fun _ _ => rfl)
    (fun j y at_j held => ?_) fun _ _ => ⟨rfl, rfl⟩
  · rcases place j t y at_j with ⟨rfl, rfl, rfl⟩ | ⟨-, before⟩
    · exact .inr ⟨rfl, rfl, rfl, spare, fun same => absurd (same ▸ spare.1) (by decide)⟩
    · exact .inl before
  · obtain ⟨rfl, rfl⟩ := new j y at_j held
    exact ⟨fun k z at_k => (new k z at_k held).1.symm, served⟩

/-- A place gets a new pair: its server slot the near end, if it holds anything, and the
place the far end. -/
theorem Sound.renew [DecidableEq κ] (sound : w.Sound) {i : ι} {s : κ} {a b : Int}
    (here : w.kept i = some (s, x)) (a_spare : w.Spare a) (b_spare : w.Spare b) (apart : a ≠ b)
    (joined : w.Joined a b) (unlinked : ∀ link ∈ w.links, link.1 ≠ s) : Sound { w with
      fd := fun t => if t = s then (w.fd s).map fun _ => a else w.fd t
      kept := update w.kept i (some (s, b)) } := by
  have place := update_kept w.kept i s b
  -- a server end is not the far end of a link
  have far : ∀ link ∈ w.links, link.2 ≠ s := by
    rintro link mem rfl
    obtain ⟨c, d, -, at_d, -, -, pair, -, far_end⟩ := sound.linked link mem
    obtain ⟨-, pair', near_end, -⟩ := sound.served i _ x d here at_d
    simp [far_end] at near_end
  have new : ∀ j y, update w.kept i (some (s, b)) j = some (s, y) → w.fd s ≠ none →
      j = i ∧ y = b := by
    intro j y at_j held
    rcases place j s y at_j with ⟨rfl, -, rfl⟩ | ⟨other, before⟩
    · exact ⟨rfl, rfl⟩
    · exact absurd (sound.one_place j i s y x before here held) other
  refine sound.revise s (some i) a b (fun t y at_t => ?_) (fun j t y at_j => ?_)
    (fun t other => if_neg other) (fun j y at_j held => ?_)
    fun link mem => ⟨if_neg (unlinked link mem), if_neg (far link mem)⟩
  · split_ifs at at_t with same
    · obtain ⟨z, -, rfl⟩ := map_eq_some_iff.mp at_t
      exact .inr ⟨same, rfl, fun _ => a_spare⟩
    · exact .inl at_t
  · rcases place j t y at_j with ⟨rfl, rfl, rfl⟩ | ⟨-, before⟩
    · exact .inr ⟨rfl, rfl, rfl, b_spare, apart⟩
    · exact .inl before
  · simp only [if_true, ne_eq, map_eq_none_iff] at held
    obtain ⟨rfl, rfl⟩ := new j y at_j held
    refine ⟨fun k z at_k => (new k z at_k held).1.symm, fun z at_s => ?_⟩
    obtain ⟨-, -, rfl⟩ := map_eq_some_iff.mp ((if_pos rfl).symm.trans at_s)
    exact ⟨a_spare.1, joined⟩

theorem Sound.recorded_renew [DecidableEq κ] (sound : w.Sound) {i : ι} {s : κ} {a b y : Int}
    (here : w.kept i = some (s, x))
    (recorded : Recorded { w with
      fd := fun t => if t = s then (w.fd s).map fun _ => a else w.fd t
      kept := update w.kept i (some (s, b)) } y) :
    y = a ∨ y = b ∨ w.Recorded y ∧ w.fd s ≠ some y ∧ y ≠ x := by
  obtain ⟨nonneg, ⟨t, at_t⟩ | ⟨j, t, at_j⟩⟩ := recorded
  · dsimp only at at_t
    split_ifs at at_t with same
    · obtain ⟨z, -, rfl⟩ := map_eq_some_iff.mp at_t
      exact .inl rfl
    · refine .inr (.inr ⟨⟨nonneg, .inl ⟨t, at_t⟩⟩, fun at_s => ?_, ?_⟩)
      · exact same (sound.single t s y nonneg at_t at_s)
      · rintro rfl
        exact sound.kept_apart i s y t here at_t
  · rcases update_kept w.kept i s b j t y at_j with ⟨-, -, rfl⟩ | ⟨other, before⟩
    · exact .inr (.inl rfl)
    · refine .inr (.inr ⟨⟨nonneg, .inr ⟨j, t, before⟩⟩, sound.kept_apart j t y s before, ?_⟩)
      rintro rfl
      exact other (sound.kept_single j i t s y before here)

end Places
end Wiring
end Triskelion
