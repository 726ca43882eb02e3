import Triskelion.Replay
import Triskelion.TidyTree

/-! The link values of a saved registry while it is loaded again. A section is loaded
where its header leads at that moment, so a link that is loaded early moves the
sections after it. -/

namespace Triskelion.LinkReplay
open RegistryKey RegistryWalk RegistryText RegistryLines RegistrySections List RegistryRuntime
  LinkPaths TidyTree

theorem targetOf_current : targetOf currentControlSetLink = some controlSetPath := by decide +kernel

def ShortLink (v : RegistryValue) : Prop := ∀ t, targetOf v = some t → t.length ≤ 1

theorem not_shortLink_current : ¬ ShortLink currentControlSetLink := fun short =>
  absurd (short _ targetOf_current) (by decide)

variable [CaseMap]

theorem stored_walkMutCreate {f : RegistryKey → RegistryKey}
    (keeps : ∀ n, (f n).children = n.children) (p path : List Str) (name : Str)
    (root : RegistryKey) : stored p name (walkMutCreate path f root) =
      if path.map lower = p.map lower then (f ((node path root).getD new)).value name
      else stored p name root := by
  split
  · next same => rw [stored, ← node_congr same, node_walkMutCreate_self, Option.bind_some]
  · next other => exact stored_walkMutCreate_other keeps (Ne.symm other) name root

theorem value_setValue (name m : Str) (v : RegistryValue) (n : RegistryKey) :
    (n.setValue name v).value m = if lower m = lower name then some v else n.value m := by
  split
  · next same => exact value_setValue_same same v n
  · next other => exact value_setValue_other other v n

theorem value_storeAll (values : List (Str × RegistryValue)) (name : Str) (n : RegistryKey) :
    (storeAll values n).value name = ((storeAll values new).value name).or (n.value name) := by
  induction values generalizing n with
  | nil => simp [storeAll]
  | cons e rest ih =>
    show (storeAll rest (n.setValue e.1 e.2)).value name =
      ((storeAll rest (new.setValue e.1 e.2)).value name).or (n.value name)
    rw [ih (n.setValue e.1 e.2), ih (new.setValue e.1 e.2), value_setValue, value_setValue]
    split <;> simp

theorem linkAt_eq (p : List Str) (root : RegistryKey) :
    linkAt p root = (stored p linkName root).bind targetOf := by
  rw [linkAt, stored]
  cases node p root with
  | none => rfl
  | some n => exact linkTarget_eq

def loadAt (root : RegistryKey) (e : FileSection) : RegistryKey :=
  walkMutCreate (followSymlink root e.1) (storeAll (loadedValues (listedValues e.2))) root

def linkReplay : Replay RegistryKey FileSection (List Str) (List Str) RegistryValue where
  step := loadAt
  place root e := (followSymlink root e.1).map lower
  carried e := (restoredValues e.2).value linkName
  key p := p.map lower
  look p root := stored p linkName root
  look_step root e p := by
    rw [loadAt, stored_walkMutCreate (children_storeAll _), value_storeAll]
    split
    · next same =>
      rw [restoredValues, stored, ← node_congr same]
      cases node (followSymlink root e.1) root <;> rfl
    · rfl

/-- A registry that was saved as `es` and loaded again into one whose only link is that of
`CurrentControlSet`, and was then found to be the same as before. -/
structure Reloaded (before fresh : RegistryKey) (es : List FileSection) : Prop where
  nodup : (es.map fun e => e.1.map lower).Nodup
  deep : ∀ e ∈ es, 3 ≤ e.1.length
  control : ∃ t c, [t, c].Sublist es ∧ t.1.map lower = controlSetPath.map lower ∧
    c.1.map lower = currentPath.map lower
  current : stored currentPath linkName fresh = some currentControlSetLink
  only : ∀ p v, stored p linkName fresh = some v →
    p.map lower = currentPath.map lower ∧ v = currentControlSetLink
  written : ∀ e ∈ es, ∀ v, linkReplay.carried e = some v →
    e.1.map lower = currentPath.map lower ∧ v = currentControlSetLink ∨ ShortLink v
  links : ∀ p t, linkAt p before = some t → t.length ≤ 1 ∨ p.map lower = currentPath.map lower
  -- what a second save shows
  text : ∀ e ∈ es, linkReplay.carried e =
    (stored e.1 linkName (linkReplay.run fresh es)).map loadedValue
  kept : ∀ p t, linkAt p before = some t → linkAt p (linkReplay.run fresh es) = some t
  added : ∀ p t, linkAt p (linkReplay.run fresh es) = some t → (linkAt p before).isSome

/-- The sections that carry another link value than the one of `CurrentControlSet`. -/
def moves (e : FileSection) : Bool :=
  match linkReplay.carried e with
  | some v => v ≠ currentControlSetLink
  | none => false

theorem moves_iff (e : FileSection) :
    moves e ↔ ∃ v, linkReplay.carried e = some v ∧ v ≠ currentControlSetLink := by
  rw [moves]
  split <;> simp_all

namespace Reloaded

variable {before fresh : RegistryKey} {es : List FileSection}

variable {e c : FileSection} {w : FileSection × List Str} {front rest : List FileSection}

variable (h : Reloaded before fresh es)
include h

theorem home_inj {f : FileSection} (he : e ∈ es) (hf : f ∈ es)
    (same : e.1.map lower = f.1.map lower) : e = f :=
  inj_on_of_nodup_map h.nodup he hf same

theorem moves_of_carried (mem : e ∈ es)
    (other : e.1.map lower ≠ currentPath.map lower) {v : RegistryValue}
    (carried : linkReplay.carried e = some v) : moves e ∧ ShortLink v := by
  have short : ShortLink v := by
    rcases h.written e mem v carried with ⟨here, -⟩ | short
    · exact absurd here other
    · exact short
  refine ⟨(moves_iff e).mpr ⟨v, carried, ?_⟩, short⟩
  rintro rfl
  exact not_shortLink_current short

/-- Every such section is loaded over by one of them. -/
theorem cover (mem : e ∈ es) (moving : moves e) :
    ∃ w ∈ linkReplay.trace fresh es, moves w.1 ∧ w.2 = e.1.map lower := by
  obtain ⟨x, carried, other⟩ := (moves_iff e).mp moving
  have shown := h.text e mem
  rw [carried] at shown
  obtain ⟨v, found, equal⟩ := Option.map_eq_some_iff.mp shown.symm
  have differs : v ≠ currentControlSetLink := by
    rintro rfl
    exact other equal.symm
  rcases linkReplay.look_run e.1 fresh es v found with ⟨w, inside, here, writes⟩ | old
  · exact ⟨w, inside, (moves_iff w.1).mpr ⟨v, writes, differs⟩, here⟩
  · exact absurd (h.only e.1 v old).2 differs

theorem homes_nodup :
    (((linkReplay.trace fresh es).filter fun w => moves w.1).map fun w => w.1.1.map lower).Nodup := by
  have nodup := h.nodup
  rw [← linkReplay.map_trace fresh es, map_map] at nodup
  exact nodup.sublist (filter_sublist.map _)

theorem perm : (((linkReplay.trace fresh es).filter fun w => moves w.1).map Prod.snd).Perm
      (((linkReplay.trace fresh es).filter fun w => moves w.1).map fun w => w.1.1.map lower) := by
  apply places_perm_homes (fun e : FileSection => e.1.map lower) h.homes_nodup
  intro w mem
  obtain ⟨inside, moving⟩ := mem_filter.mp mem
  obtain ⟨w', inside', moving', here⟩ := h.cover (linkReplay.mem_of_mem_trace inside) moving
  exact ⟨w', mem_filter.mpr ⟨inside', moving'⟩, here⟩

theorem place_mem (mem : w ∈ linkReplay.trace fresh es)
    (moving : moves w.1) : ∃ e ∈ es, moves e ∧ w.2 = e.1.map lower := by
  have inside := h.perm.mem_iff.mp
    (mem_map.mpr ⟨w, mem_filter.mpr ⟨mem, moving⟩, rfl⟩)
  obtain ⟨w', mem', equal⟩ := mem_map.mp inside
  obtain ⟨inside', moving'⟩ := mem_filter.mp mem'
  exact ⟨w'.1, linkReplay.mem_of_mem_trace inside', moving', equal.symm⟩

theorem place_once {front : List (FileSection × List Str)}
    {rest : List (FileSection × List Str)} (split : linkReplay.trace fresh es = front ++ w :: rest)
    (moving : moves w.1) :
    (∀ a ∈ front, moves a.1 → a.2 ≠ w.2) ∧ ∀ b ∈ rest, moves b.1 → w.2 ≠ b.2 := by
  have places := h.perm.nodup_iff.mpr h.homes_nodup
  have kept : (w :: rest).filter (fun w => moves w.1) = w :: rest.filter fun w => moves w.1 :=
    filter_cons_of_pos moving
  rw [split, filter_append, kept, map_append, map_cons, nodup_middle,
    nodup_cons, mem_append, not_or] at places
  obtain ⟨⟨first, second⟩, -⟩ := places
  constructor
  · intro a mem moving_a same
    exact first (mem_map.mpr ⟨a, mem_filter.mpr ⟨mem, moving_a⟩, same⟩)
  · intro b mem moving_b same
    exact second (mem_map.mpr ⟨b, mem_filter.mpr ⟨mem, moving_b⟩, same.symm⟩)

/-- Before the section of `CurrentControlSet` is loaded, links are deep and short. -/
theorem landscape (split : es = front ++ rest)
    (early : ∀ e ∈ front, e.1.map lower ≠ currentPath.map lower) :
    Landscape (linkReplay.run fresh front) := by
  -- every link is the first one, or was written by a moving section
  have origin : ∀ p target, Leads p target (linkReplay.run fresh front) →
      p.map lower = currentPath.map lower ∧ target = controlSetPath ∨
      target.length = 1 ∧ ∃ e ∈ es, p.map lower = e.1.map lower := by
    rintro p target ⟨-, some_, linked⟩
    rw [linkAt_eq] at linked
    obtain ⟨v, found, aims⟩ := Option.bind_eq_some_iff.mp linked
    rcases linkReplay.look_run p fresh front v found with ⟨w, inside, here, writes⟩ | old
    · right
      have member := linkReplay.mem_of_mem_trace inside
      obtain ⟨moving, short⟩ := h.moves_of_carried (split ▸ mem_append_left _ member)
        (early w.1 member) writes
      have traced : w ∈ linkReplay.trace fresh es := by
        rw [split, linkReplay.trace_append]
        exact mem_append_left _ inside
      obtain ⟨e, mem, -, home⟩ := h.place_mem traced moving
      refine ⟨?_, e, mem, here.symm.trans home⟩
      have most := short target aims
      have least := length_pos_of_ne_nil some_
      omega
    · left
      obtain ⟨here, rfl⟩ := h.only p v old
      exact ⟨here, (Option.some.inj aims).symm⟩
  constructor
  · intro p target leads
    rcases origin p target leads with ⟨here, -⟩ | ⟨-, e, mem, home⟩
    · rw [length_current here]
      omega
    · have length := congrArg List.length home
      rw [length_map, length_map] at length
      rw [length]
      exact h.deep e mem
  · intro p target leads
    rcases origin p target leads with current | ⟨one, -⟩
    · exact .inr current
    · exact .inl one

theorem length_place (mem : w ∈ linkReplay.trace fresh es)
    (moving : moves w.1) : 3 ≤ w.2.length := by
  obtain ⟨e, inside, -, home⟩ := h.place_mem mem moving
  rw [home, length_map]
  exact h.deep e inside

variable {t : FileSection}

theorem place_control
    (split : es = front ++ t :: rest) (home : t.1.map lower = controlSetPath.map lower)
    (early : ∀ e ∈ front, e.1.map lower ≠ currentPath.map lower) (moving : moves t) :
    linkReplay.place (linkReplay.run fresh front) t = t.1.map lower := by
  have traced : (t, linkReplay.place (linkReplay.run fresh front) t) ∈
      linkReplay.trace fresh es := by
    rw [split, linkReplay.trace_split]
    exact mem_append_right _ mem_cons_self
  have deep := h.length_place traced moving
  have four : t.1.length = 4 := by
    have length := congrArg List.length home
    rwa [length_map] at length
  have other := home ▸ control_ne_current
  rcases followRounds_four (h.landscape split early) four other with short | same
  · have length : (linkReplay.place (linkReplay.run fresh front) t).length ≤ 2 := by
      show ((followSymlink _ t.1).map lower).length ≤ 2
      rwa [length_map]
    have deep' : 3 ≤ (linkReplay.place (linkReplay.run fresh front) t).length := deep
    omega
  · exact congrArg (List.map lower) same

theorem fresh_current (home : c.1.map lower = currentPath.map lower) :
    stored c.1 linkName fresh = some currentControlSetLink := by
  rw [stored, node_congr home]
  exact h.current

theorem leads_current (split : es = front ++ rest) (home : c.1.map lower = currentPath.map lower)
    (early : ∀ e ∈ front, e.1.map lower ≠ currentPath.map lower)
    (untouched : ∀ w ∈ linkReplay.trace fresh front, moves w.1 →
      w.2 ≠ currentPath.map lower) : Leads c.1 controlSetPath (linkReplay.run fresh front) := by
  have same : stored c.1 linkName (linkReplay.run fresh front) = some currentControlSetLink := by
    rw [← h.fresh_current home]
    apply linkReplay.look_run_of_untouched
    intro w mem here
    have member := linkReplay.mem_of_mem_trace mem
    cases carried : linkReplay.carried w.1 with
    | none => rfl
    | some =>
      have moving := (h.moves_of_carried (split ▸ mem_append_left _ member)
        (early w.1 member) carried).1
      exact absurd (here.trans home) (untouched w mem moving)
  refine ⟨?_, by decide, ?_⟩
  · intro none_
    rw [none_] at home
    cases home
  · rw [linkAt_eq, same]
    exact targetOf_current

theorem carried_current (mem : c ∈ es)
    (home : c.1.map lower = currentPath.map lower) : (linkReplay.carried c).isSome := by
  have old : (linkReplay.look c.1 fresh).isSome := by
    show (stored c.1 linkName fresh).isSome
    rw [h.fresh_current home]
    rfl
  rw [h.text c mem, Option.isSome_map]
  exact linkReplay.look_run_isSome old es

/-- A moving section of `CurrentControlSet` has no place left: where it would go, another
one belongs or has been. -/
theorem not_moves_current {A M : List FileSection}
    (split : es = (A ++ t :: M) ++ c :: rest) (home_t : t.1.map lower = controlSetPath.map lower)
    (home_c : c.1.map lower = currentPath.map lower)
    (early : ∀ e ∈ A ++ t :: M, e.1.map lower ≠ currentPath.map lower) : moves c = false := by
  rw [Bool.eq_false_iff]
  intro moving
  have traceSplit := linkReplay.trace_split fresh (A ++ t :: M) c rest
  rw [← split] at traceSplit
  have traced := traceSplit ▸ mem_append_right _ mem_cons_self
  have once := (h.place_once traceSplit moving).1
  rcases follow_current (h.landscape split early) home_c with short | ⟨same, stays⟩ | ⟨same, -⟩
  · have deep : 3 ≤ ((followSymlink (linkReplay.run fresh (A ++ t :: M)) c.1).map lower).length :=
      h.length_place traced moving
    rw [length_map] at deep
    omega
  · apply stays controlSetPath
    apply h.leads_current split home_c early
    intro w mem moving_w here
    apply once w mem moving_w
    show w.2 = (followSymlink _ c.1).map lower
    rw [here, same, home_c]
  · -- the place of `ControlSet001`, which is where its own section has been loaded
    obtain ⟨e, mem, moving_e, home_e⟩ := h.place_mem traced moving
    have there : (followSymlink (linkReplay.run fresh (A ++ t :: M)) c.1).map lower =
        t.1.map lower := by rw [same, home_t]
    have member : t ∈ es := by
      rw [split]
      simp
    obtain rfl : e = t := h.home_inj mem member (home_e.symm.trans there)
    have split_t : es = A ++ e :: (M ++ c :: rest) := by
      rw [split]
      simp
    have place := h.place_control split_t home_t
      (fun f inside => early f (mem_append_left _ inside)) moving_e
    have traced_t : (e, linkReplay.place (linkReplay.run fresh A) e) ∈
        linkReplay.trace fresh (A ++ e :: M) := by
      rw [linkReplay.trace_split]
      exact mem_append_right _ mem_cons_self
    exact once _ traced_t moving_e (place.trans there.symm)

section
variable (split : es = front ++ c :: rest) (late : ∀ e ∈ rest, e.1.map lower ≠ currentPath.map lower) (carried : linkReplay.carried c = some currentControlSetLink)
include split late carried

theorem stored_of_current {p : List Str}
    (here : (followSymlink (linkReplay.run fresh front) c.1).map lower = p.map lower)
    (free : ∀ w ∈ linkReplay.trace (linkReplay.run fresh (front ++ [c])) rest,
      moves w.1 → w.2 ≠ p.map lower) :
    stored p linkName (linkReplay.run fresh es) = some currentControlSetLink := by
  rw [split]
  apply linkReplay.look_run_of_last here carried
  intro w mem place
  have member := linkReplay.mem_of_mem_trace mem
  cases writes : linkReplay.carried w.1 with
  | none => rfl
  | some =>
    have inside : w.1 ∈ es := by
      rw [split]
      exact mem_append_right _ (mem_cons_of_mem _ member)
    exact absurd place (free w mem (h.moves_of_carried inside (late w.1 member) writes).1)

theorem not_near_root : ¬ (followSymlink (linkReplay.run fresh front) c.1).length ≤ 2 := by
  intro short
  have traceSplit := linkReplay.trace_split fresh front c rest
  rw [← split] at traceSplit
  have stays := h.stored_of_current split late carried rfl fun w mem moving place => by
    have deep := h.length_place (traceSplit ▸ mem_append_right _
      (mem_cons_of_mem _ mem)) moving
    rw [place, length_map] at deep
    omega
  have linked : linkAt (followSymlink (linkReplay.run fresh front) c.1)
      (linkReplay.run fresh es) = some controlSetPath := by
    rw [linkAt_eq, stays]
    exact targetOf_current
  obtain ⟨target, old⟩ := Option.isSome_iff_exists.mp (h.added _ _ linked)
  obtain rfl := Option.some.inj ((h.kept _ _ old).symm.trans linked)
  rcases h.links _ _ old with few | here
  · exact absurd few (by decide)
  · rw [length_current here] at short
    omega

end

theorem not_at_control {A M : List FileSection}
    (split : es = (A ++ t :: M) ++ c :: rest) (home_t : t.1.map lower = controlSetPath.map lower)
    (early : ∀ e ∈ A ++ t :: M, e.1.map lower ≠ currentPath.map lower)
    (late : ∀ e ∈ rest, e.1.map lower ≠ currentPath.map lower)
    (carried : linkReplay.carried c = some currentControlSetLink) :
    (followSymlink (linkReplay.run fresh (A ++ t :: M)) c.1).map lower ≠ t.1.map lower := by
  intro there
  have mem_t : t ∈ es := by
    rw [split]
    simp
  have traceSplit := linkReplay.trace_split fresh (A ++ t :: M) c rest
  rw [← split] at traceSplit
  have stays := h.stored_of_current split late carried there fun w mem moving place => by
    obtain ⟨e, inside, moving_e, home_e⟩ := h.place_mem
      (traceSplit ▸ mem_append_right _ (mem_cons_of_mem _ mem)) moving
    obtain rfl := h.home_inj inside mem_t (home_e.symm.trans place)
    have split_t : es = A ++ e :: (M ++ c :: rest) := by
      rw [split]
      simp
    have traceSplit_t := linkReplay.trace_split fresh A e (M ++ c :: rest)
    rw [← split_t] at traceSplit_t
    have own := h.place_control split_t home_t
      (fun f inside => early f (mem_append_left _ inside)) moving_e
    refine (h.place_once traceSplit_t moving_e).2 w ?_ moving (own.trans place.symm)
    have regroup : A ++ [e] ++ (M ++ [c]) = (A ++ e :: M) ++ [c] := by simp
    rw [linkReplay.trace_split]
    rw [← regroup, linkReplay.run_append] at mem
    exact mem_append_right _ (mem_cons_of_mem _ mem)
  have shown := h.text t mem_t
  rw [stays] at shown
  rcases h.written t mem_t _ shown with ⟨here, -⟩ | short
  · exact control_ne_current (home_t.symm.trans here)
  · exact not_shortLink_current short

/-- No registry is the same after it is loaded again. -/
theorem impossible : False := by
  obtain ⟨t, c, pair, home_t, home_c⟩ := h.control
  obtain ⟨first, second, whole, mem_t, tail⟩ := cons_sublist_iff.mp pair
  obtain ⟨A, M, rfl⟩ := append_of_mem mem_t
  obtain ⟨N, rest, rfl⟩ := append_of_mem (singleton_sublist.mp tail)
  have split : es = (A ++ t :: (M ++ N)) ++ c :: rest := by rw [whole]; simp
  have nodup := split ▸ h.nodup.of_map
  have mem_c : c ∈ es := by rw [split]; simp
  rw [nodup_middle, nodup_cons, mem_append, not_or] at nodup
  have early : ∀ e ∈ A ++ t :: (M ++ N), e.1.map lower ≠ currentPath.map lower := by
    intro e mem same
    have equal := h.home_inj (split ▸ mem_append_left _ mem) mem_c (same.trans home_c.symm)
    exact nodup.1.1 (equal ▸ mem)
  have late : ∀ e ∈ rest, e.1.map lower ≠ currentPath.map lower := by
    intro e mem same
    have equal := h.home_inj (split ▸ mem_append_right _ (mem_cons_of_mem _ mem)) mem_c
      (same.trans home_c.symm)
    exact nodup.1.2 (equal ▸ mem)
  have still := h.not_moves_current split home_t home_c early
  obtain ⟨v, carried⟩ := Option.isSome_iff_exists.mp (h.carried_current mem_c home_c)
  obtain rfl : v = currentControlSetLink := by
    by_contra other
    rw [(moves_iff c).mpr ⟨v, carried, other⟩] at still
    cases still
  rcases follow_current (h.landscape split early) home_c with short | ⟨same, stays⟩ | ⟨same, -⟩
  · exact h.not_near_root split late carried short
  · apply stays controlSetPath
    apply h.leads_current split home_c early
    intro w mem moving here
    have traceSplit := linkReplay.trace_split fresh (A ++ t :: (M ++ N)) c rest
    rw [← split] at traceSplit
    obtain ⟨e, inside, moving_e, home_e⟩ :=
      h.place_mem (traceSplit ▸ mem_append_left _ mem) moving
    obtain rfl := h.home_inj inside mem_c (home_e.symm.trans (here.trans home_c.symm))
    rw [moving_e] at still
    cases still
  · exact h.not_at_control split home_t early late carried (by rw [same, home_t])

end Reloaded

end Triskelion.LinkReplay
