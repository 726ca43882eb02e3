import Triskelion.RegistryRuntime

/-! Where `follow_symlink` leads among links that lie deep in the tree and, but for
`CurrentControlSet`, name a key at its root. -/

namespace Triskelion.LinkPaths
open RegistryKey RegistryWalk List Option

variable [CaseMap]

def linkAt (p : List Str) (root : RegistryKey) : Option (List Str) := (node p root).bind linkTarget

/-- `follow_symlink` takes a link only if its target is not empty. -/
def Leads (p target : List Str) (root : RegistryKey) : Prop :=
  p ≠ [] ∧ target ≠ [] ∧ linkAt p root = some target

variable {k root : RegistryKey} {path : List Str}

variable {p : List Str}

theorem linkAt_cons {seg : Str} {n : RegistryKey} (inside : k.child seg = some n) :
    linkAt (seg :: p) k = linkAt p n := by
  rw [linkAt, linkAt, node_cons, inside, bind_some]

variable {q target resolved : List Str}

theorem substituteLink_cons {seg : Str} {n : RegistryKey} (inside : k.child seg = some n) :
    substituteLink k (seg :: q) =
      if (linkTarget n).getD [] = [] then substituteLink n q
      else some ((linkTarget n).getD [] ++ q) := by
  rw [substituteLink]
  simp only [inside]
  rcases linkTarget n with - | - | ⟨t, ts⟩ <;> rfl

theorem substituteLink_append (p q : List Str) (k : RegistryKey) : substituteLink k (p ++ q) =
    ((substituteLink k p).map (· ++ q)).or ((node p k).bind (substituteLink · q)) := by
  induction p generalizing k with
  | nil => rfl
  | cons seg p ih =>
    cases inside : k.child seg with
    | none => simp [substituteLink, node_cons, inside]
    | some n =>
      rw [cons_append, substituteLink_cons inside, substituteLink_cons inside, node_cons, inside]
      split
      · exact ih n
      · simp

/-- The shortest prefix that leads somewhere is the one that is replaced. -/
theorem substituteLink_eq_some : substituteLink k path = some resolved ↔
    ∃ p seg q target, path = p ++ seg :: q ∧ substituteLink k p = none ∧
      Leads (p ++ [seg]) target k ∧ resolved = target ++ q := by
  constructor
  · intro found
    induction path generalizing k with
    | nil => cases found
    | cons seg rest ih =>
      cases inside : k.child seg with
      | none => simp [substituteLink, inside] at found
      | some n =>
        rw [substituteLink_cons inside] at found
        split at found
        · next plain =>
          obtain ⟨p, s, q, target, rfl, kept, ⟨-, more, linked⟩, rfl⟩ := ih found
          refine ⟨seg :: p, s, q, target, rfl, ?_, ⟨by simp, more, ?_⟩, rfl⟩
          · rw [substituteLink_cons inside, if_pos plain, kept]
          · rwa [cons_append, linkAt_cons inside]
        · next more =>
          refine ⟨[], seg, rest, _, rfl, rfl, ⟨by simp, more, ?_⟩, (some.inj found).symm⟩
          rw [nil_append, linkAt_cons inside]
          cases linked : linkTarget n with
          | none => simp [linked] at more
          | some => exact linked
  · rintro ⟨p, seg, q, target, rfl, kept, ⟨-, more, linked⟩, rfl⟩
    rw [linkAt, node_append] at linked
    obtain ⟨c, found, here⟩ := bind_eq_some_iff.mp linked
    obtain ⟨n, before, found⟩ := bind_eq_some_iff.mp found
    obtain ⟨c, inside, ⟨⟩⟩ := bind_eq_some_iff.mp found
    simp [substituteLink_append, kept, before, substituteLink_cons inside, here, more]

theorem leads_of_substituteLink (found : substituteLink k path = some resolved) :
    ∃ p q target, path = p ++ q ∧ Leads p target k ∧ resolved = target ++ q := by
  obtain ⟨p, seg, q, target, rfl, -, leads, rfl⟩ := substituteLink_eq_some.mp found
  exact ⟨p ++ [seg], q, target, by simp, leads, rfl⟩

theorem not_leads_of_substituteLink (q : List Str)
    (kept : substituteLink k (p ++ q) = none) (target : List Str) : ¬ Leads p target k := by
  intro leads
  obtain ⟨p, seg, rfl⟩ := (eq_nil_or_concat p).resolve_left leads.1
  rw [concat_eq_append] at leads kept
  rw [append_assoc] at kept
  cases before : substituteLink k p with
  | none =>
    have found := substituteLink_eq_some.mpr ⟨p, seg, q, target, rfl, before, leads, rfl⟩
    cases kept.symm.trans found
  | some =>
    rw [substituteLink_append, before] at kept
    cases kept

def Settled (root : RegistryKey) (path : List Str) : Prop :=
  ∀ p q target, path = p ++ q → ¬ Leads p target root

def Rewrites (root : RegistryKey) (path next : List Str) : Prop :=
  ∃ p seg q target, path = p ++ seg :: q ∧ Settled root p ∧ Leads (p ++ [seg]) target root ∧
    next = target ++ q

inductive Reaches (root : RegistryKey) : Nat → List Str → List Str → Prop
  | refl (path : List Str) : Reaches root 0 path path
  | step {n : Nat} {path next final : List Str} (first : Rewrites root path next)
      (later : Reaches root n next final) : Reaches root (n + 1) path final

theorem settled_iff : Settled root path ↔ substituteLink root path = none := by
  constructor
  · intro settled
    by_contra some_
    obtain ⟨resolved, found⟩ := ne_none_iff_exists'.mp some_
    obtain ⟨p, q, target, split, leads, -⟩ := leads_of_substituteLink found
    exact settled p q target split leads
  · rintro kept p q target rfl
    exact not_leads_of_substituteLink q kept target

theorem rewrites_iff : Rewrites root path resolved ↔ substituteLink root path = some resolved := by
  simp only [Rewrites, settled_iff, substituteLink_eq_some]

theorem reaches_followRounds (rounds : Nat) (path : List Str) :
    ∃ n ≤ rounds, Reaches root n path (followRounds root rounds path) := by
  induction rounds generalizing path with
  | zero => exact ⟨0, le_rfl, .refl path⟩
  | succ rounds ih =>
    rw [followRounds]
    split
    · exact ⟨0, Nat.zero_le _, .refl path⟩
    · next next found =>
      obtain ⟨n, few, later⟩ := ih next
      exact ⟨n + 1, by omega, .step (rewrites_iff.mpr found) later⟩

theorem followRounds_of_reaches {n rounds : Nat} {final : List Str}
    (reaches : Reaches root n path final) (settled : Settled root final) (few : n < rounds) :
    followRounds root rounds path = final := by
  induction reaches generalizing rounds with
  | refl path =>
    obtain ⟨rounds, rfl⟩ := Nat.exists_eq_succ_of_ne_zero (Nat.ne_of_gt few)
    rw [followRounds, settled_iff.mp settled]
  | step first later ih =>
    obtain ⟨rounds, rfl⟩ := Nat.exists_eq_succ_of_ne_zero (Nat.ne_of_gt (Nat.zero_lt_of_lt few))
    rw [followRounds, rewrites_iff.mp first]
    exact ih settled (by omega)

/-- At most eight links are followed, and if seven are enough, to the end. -/
theorem links_followed (root : RegistryKey) (path : List Str) :
    (∃ n ≤ 8, Reaches root n path (followSymlink root path)) ∧
      ∀ n ≤ 7, ∀ final, Reaches root n path final → Settled root final →
        followSymlink root path = final ∧ followSymlink root final = final := by
  refine ⟨reaches_followRounds 8 path, fun n few final reaches settled => ⟨?_, ?_⟩⟩
  · exact followRounds_of_reaches reaches settled (by omega)
  · exact followRounds_of_reaches (.refl final) settled (by omega)

def controlSetPath : List Str :=
  ["Registry".toList, "Machine".toList, "System".toList, "ControlSet001".toList]

def currentPath : List Str :=
  ["Registry".toList, "Machine".toList, "System".toList, "CurrentControlSet".toList]

omit [CaseMap] in
theorem current_followed :
    let := asciiCase
    let root := RegistryRuntime.applyEdit .new
      (currentPath, .addMissing RegistryRuntime.linkValueName RegistryRuntime.currentControlSetLink)
    followSymlink root (currentPath ++ ["Enum".toList]) = controlSetPath ++ ["Enum".toList] ∧
      followSymlink root (controlSetPath ++ ["Enum".toList]) = controlSetPath ++ ["Enum".toList] :=
  let := asciiCase
  (links_followed _ _).2 1 (by decide) _ (.step (rewrites_iff.mpr (by decide +kernel)) (.refl _))
    (settled_iff.mpr (by decide +kernel))

theorem length_current (current : path.map lower = currentPath.map lower) : path.length = 4 := by
  have length := congrArg List.length current
  rwa [length_map] at length

/-- Every link lies at least three keys deep, and only the one at `CurrentControlSet` may
name more than one key. -/
structure Landscape (root : RegistryKey) : Prop where
  deep : ∀ p target, Leads p target root → 3 ≤ p.length
  single : ∀ p target, Leads p target root → target.length = 1 ∨
    p.map lower = currentPath.map lower ∧ target = controlSetPath

variable {rounds : Nat}

section
variable (land : Landscape root)
include land

theorem followRounds_short (short : path.length ≤ 2) : followRounds root rounds path = path := by
  cases rounds with
  | zero => rfl
  | succ rounds =>
    rw [followRounds]
    split
    · rfl
    · next resolved found =>
      obtain ⟨p, q, target, rfl, leads, -⟩ := leads_of_substituteLink found
      have deep := land.deep p target leads
      rw [length_append] at short
      omega

theorem followRounds_single
    (four : (p ++ q).length = 4) (leads : Leads p target root) (one : target.length = 1)
    : (followRounds root rounds (target ++ q)).length ≤ 2 := by
  have deep := land.deep p target leads
  have short : (target ++ q).length ≤ 2 := by
    rw [length_append] at four ⊢
    omega
  rwa [followRounds_short land short]

theorem followRounds_four (four : path.length = 4)
    (other : path.map lower ≠ currentPath.map lower) :
    (followRounds root rounds path).length ≤ 2 ∨ followRounds root rounds path = path := by
  cases rounds with
  | zero => exact .inr rfl
  | succ rounds =>
    rw [followRounds]
    split
    · exact .inr rfl
    · next resolved found =>
      obtain ⟨p, q, target, rfl, leads, rfl⟩ := leads_of_substituteLink found
      left
      apply followRounds_single land four leads
      rcases land.single p target leads with one | ⟨current, -⟩
      · exact one
      · exfalso
        have whole : q = [] := by
          rw [length_append, length_current current] at four
          rw [← length_eq_zero_iff]
          omega
        rw [whole, append_nil] at other
        exact other current

end

theorem control_ne_current : controlSetPath.map lower ≠ currentPath.map lower := by
  intro equal
  simp only [controlSetPath, currentPath, map_cons, map_nil, List.cons.injEq] at equal
  rw [lower_eq (by decide), lower_eq (by decide)] at equal
  exact absurd equal.2.2.2.1 (by decide)

theorem follow_current (land : Landscape root) (current : path.map lower = currentPath.map lower) :
    (followSymlink root path).length ≤ 2 ∨
      (followSymlink root path = path ∧ ∀ target, ¬ Leads path target root) ∨
      (followSymlink root path = controlSetPath ∧ linkAt path root = some controlSetPath) := by
  rw [followSymlink, followRounds]
  split
  · next kept =>
    right; left
    rw [← append_nil path] at kept
    exact ⟨rfl, not_leads_of_substituteLink [] kept⟩
  · next resolved found =>
    obtain ⟨p, q, target, rfl, leads, rfl⟩ := leads_of_substituteLink found
    rcases land.single p target leads with one | ⟨here, rfl⟩
    · exact .inl (followRounds_single land (length_current current) leads one)
    · have whole : q = [] := by
        have four := length_current current
        rw [length_append, length_current here] at four
        rw [← length_eq_zero_iff]
        omega
      subst whole
      rw [append_nil, append_nil]
      rcases followRounds_four land rfl control_ne_current with short | equal
      · exact .inl short
      · exact .inr (.inr ⟨equal, leads.2.2⟩)

end Triskelion.LinkPaths
