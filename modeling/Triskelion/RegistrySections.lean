import Triskelion.RegistryLines

/-! The sections of a hive's file: which keys `write_key` writes, and the tree that
`load_reg_file` builds from them when no link is met. -/

namespace Triskelion.RegistrySections
open KeyedTable RegistryKey RegistryWalk RegistryText RegistryLines TextScan Utf16Text List

variable {k : RegistryKey}

def At : List Str → RegistryKey → RegistryKey → Prop
  | [], k, n => n = k
  | seg :: rest, k, n => ∃ c, (seg, c) ∈ k.children ∧ At rest c n

theorem at_append (p q : List Str) (n : RegistryKey) :
    At (p ++ q) k n ↔ ∃ m, At p k m ∧ At q m n := by
  induction p generalizing k with
  | nil => simp [At]
  | cons seg rest ih =>
    simp only [cons_append, At, ih]
    constructor
    · rintro ⟨c, mem, m, first, second⟩
      exact ⟨m, ⟨c, mem, first⟩, second⟩
    · rintro ⟨m, ⟨c, mem, first⟩, second⟩
      exact ⟨c, mem, m, first, second⟩

theorem forall_prefix_cons {P : List Str → Prop} (seg : Str) (rest : List Str) :
    (∀ q, q <+: seg :: rest → P q) ↔ P [] ∧ ∀ q, q <+: rest → P (seg :: q) := by
  constructor
  · intro all
    exact ⟨all [] nil_prefix, fun q front => all _ (cons_prefix_cons.mpr ⟨rfl, front⟩)⟩
  · rintro ⟨first, later⟩ q front
    cases q with
    | nil => exact first
    | cons t q =>
      obtain ⟨rfl, inner⟩ := cons_prefix_cons.mp front
      exact later q inner

def Everywhere (P : RegistryKey → Prop) (k : RegistryKey) : Prop := ∀ p n, At p k n → P n

theorem Everywhere.child {P : RegistryKey → Prop} (all : Everywhere P k) {e : Str × RegistryKey}
    (mem : e ∈ k.children) : Everywhere P e.2 :=
  fun p n found => all (e.1 :: p) n ⟨e.2, mem, found⟩

theorem pathText_concat (path : List Str) (name : Str) :
    pathText (path ++ [name]) = childPath (pathText path) name := by
  rw [pathText, pathText, foldl_append, foldl_cons, foldl_nil]

theorem unlines_append (front rest : List Str) : unlines (front ++ rest) = unlines front ++ unlines rest :=
  flatMap_append

theorem unlines_flatMap {α : Type} (part : α → List Str) (l : List α) :
    unlines (l.flatMap part) = l.flatMap fun a => unlines (part a) := by
  induction l with
  | nil => rfl
  | cons a rest ih => rw [flatMap_cons, flatMap_cons, unlines_append, ih]

def absolute (path : List Str) (e : FileSection) : FileSection := (path ++ e.1, e.2)

section Writing
variable [CaseMap]

def Kept (path : List Str) : Prop := ∀ p, p <+: path → skipsKey (pathText p) = false

mutual

def keySections : RegistryKey → List Str → List FileSection
  | ⟨children, values, valueNames⟩, path =>
    if skipsKey (pathText path) then []
    else ([], ⟨children, values, valueNames⟩) :: inOrder (childSections children path)

def childSections : List (Str × RegistryKey) → List Str → List (Str × List FileSection)
  | [], _ => []
  | (name, c) :: rest, path =>
    (name, (keySections c (path ++ [name])).map fun e => (name :: e.1, e.2)) ::
      childSections rest path

end

def sectionsOf (path : List Str) (e : Str × RegistryKey) : List FileSection :=
  (keySections e.2 (path ++ [e.1])).map fun s => (e.1 :: s.1, s.2)

variable {children : List (Str × RegistryKey)}

section
variable (path : List Str)

theorem childSections_eq :
    childSections children path = children.map fun e => (e.1, sectionsOf path e) := by
  induction children with
  | nil => rfl
  | cons e rest ih => rw [childSections, ih]; rfl

theorem inOrder_map {α β : Type} (part : Str × α → List β) (l : List (Str × α)) :
    inOrder (l.map fun e => (e.1, part e)) =
      (l.insertionSort fun a b => strLe (lower a.1) (lower b.1)).flatMap part := by
  rw [inOrder, ← map_insertionSort (fun a b => strLe (lower a.1) (lower b.1)) _
    (fun e => (e.1, part e)) l (fun _ _ _ _ => Iff.rfl), flatMap_map]

theorem keySections_eq : keySections k path = if skipsKey (pathText path) then []
      else ([], k) :: k.sortedChildren.flatMap (sectionsOf path) := by
  obtain ⟨children, values, valueNames⟩ := k
  rw [keySections, childSections_eq, inOrder_map]
  rfl

theorem writeChildren_eq (path : Str) : writeChildren children path =
      children.map fun e => (e.1, writeKey e.2 (childPath path e.1)) := by
  induction children with
  | nil => rfl
  | cons e rest ih => rw [writeChildren, ih, map_cons]

theorem writeKey_eq (path : Str) : writeKey k path = if skipsKey path then []
      else unlines (keyLines path k) ++
        k.sortedChildren.flatMap fun e => writeKey e.2 (childPath path e.1) := by
  obtain ⟨children, values, valueNames⟩ := k
  rw [writeKey, writeChildren_eq, inOrder_map]
  rfl

theorem writeKey_sections : writeKey k (pathText path) =
      unlines ((keySections k path).flatMap fun e => sectionLines (absolute path e)) := by
  induction k using RegistryKey.induction generalizing path with
  | step k ih =>
    rw [writeKey_eq, keySections_eq]
    split
    · rfl
    · rw [flatMap_cons, unlines_append, flatMap_assoc, unlines_flatMap]
      have own : sectionLines (absolute path ([], k)) = keyLines (pathText path) k := by
        rw [absolute, append_nil, sectionLines]
      rw [own]
      congr 1
      apply flatMap_congr
      intro e mem
      have below := (perm_insertionSort _ _).mem_iff.mp mem
      rw [← pathText_concat, ih e below, sectionsOf, flatMap_map]
      simp [absolute]

end

section
variable (hive : RegistryKey)

def hiveSections : List FileSection :=
  hive.sortedChildren.flatMap (sectionsOf [])

theorem skipsKey_nil : skipsKey [] = false := by
  rw [skipsKey, lower_eq rfl]
  rfl

theorem keySections_hive : keySections hive [] = ([], hive) :: hiveSections hive := by
  rw [keySections_eq, pathText, foldl_nil, skipsKey_nil]
  rfl

theorem hiveText_sections (rootPrefix : Str) {hive : RegistryKey} (some_ : hive.children ≠ []) :
    hiveText rootPrefix hive =
      some (unlines (fileHeader rootPrefix ++ (hiveSections hive).flatMap sectionLines)) := by
  rw [hiveText, if_neg some_, unlines_append, hiveSections, writeChildren_eq, inOrder_map,
    flatMap_assoc, unlines_flatMap]
  congr 2
  apply flatMap_congr
  intro e _
  have top : childPath [] e.1 = pathText [e.1] := rfl
  rw [top, writeKey_sections, sectionsOf, flatMap_map]
  rfl

theorem keySections_isEmpty (path : List Str) :
    (keySections k path).isEmpty = skipsKey (pathText path) := by
  rw [keySections_eq]
  split
  · next skipped => rw [skipped]; rfl
  · next kept => rw [Bool.not_eq_true] at kept; rw [kept]; rfl

theorem mem_keySections (k : RegistryKey) (path p : List Str) (n : RegistryKey) :
    (p, n) ∈ keySections k path ↔
      At p k n ∧ ∀ q, q <+: p → skipsKey (pathText (path ++ q)) = false := by
  induction p generalizing k path with
  | nil =>
    rw [keySections_eq]
    cases skipped : skipsKey (pathText path) with
    | true => simp [At, skipped]
    | false => simp [At, skipped, sectionsOf]
  | cons seg rest ih =>
    have inside : (seg :: rest, n) ∈ k.sortedChildren.flatMap (sectionsOf path) ↔
        ∃ c, (seg, c) ∈ k.children ∧ (rest, n) ∈ keySections c (path ++ [seg]) := by
      simp only [mem_flatMap, sectionsOf, mem_map, sortedChildren, mem_insertionSort]
      constructor
      · rintro ⟨⟨t, c⟩, child, ⟨q, m⟩, mem, equal⟩
        obtain ⟨paths, rfl⟩ := Prod.mk.inj equal
        obtain ⟨rfl, rfl⟩ := List.cons.inj paths
        exact ⟨c, child, mem⟩
      · rintro ⟨c, child, mem⟩
        exact ⟨(seg, c), child, (rest, n), mem, rfl⟩
    rw [keySections_eq]
    cases skipped : skipsKey (pathText path) with
    | true =>
      simp only [if_true, not_mem_nil, false_iff, not_and, not_forall]
      exact fun _ => ⟨[], nil_prefix, by simp [skipped]⟩
    | false =>
      rw [if_neg Bool.false_ne_true, mem_cons, inside]
      simp only [Prod.mk.injEq, reduceCtorEq, false_and, false_or, ih, At, forall_prefix_cons,
        append_nil, skipped, true_and, append_assoc, singleton_append]
      constructor
      · rintro ⟨c, child, found, open_⟩
        exact ⟨⟨c, child, found⟩, open_⟩
      · rintro ⟨⟨c, child, found⟩, open_⟩
        exact ⟨c, child, found, open_⟩

theorem mem_hiveSections (p : List Str) (n : RegistryKey) :
    (p, n) ∈ hiveSections hive ↔ p ≠ [] ∧ At p hive n ∧ Kept p := by
  have all := mem_keySections hive [] p n
  rw [keySections_hive, mem_cons] at all
  constructor
  · intro mem
    have nonempty : p ≠ [] := by
      rintro rfl
      simp [hiveSections, sectionsOf] at mem
    exact ⟨nonempty, all.mp (.inr mem)⟩
  · rintro ⟨nonempty, found⟩
    rcases all.mpr found with root | below
    · exact absurd (Prod.mk.inj root).1 nonempty
    · exact below

end

end Writing

section Building
variable [CaseMap]

def plainSection (k : RegistryKey) (e : FileSection) : RegistryKey :=
  walkMutCreate e.1 (storeAll (loadedValues (listedValues e.2))) k

def build (k : RegistryKey) (es : List FileSection) : RegistryKey := es.foldl plainSection k

theorem build_under (path : List Str) (k : RegistryKey) {es : List FileSection}
    (nonempty : es ≠ []) :
    build k (es.map (absolute path)) = walkMutCreate path (fun n => build n es) k := by
  induction es generalizing k with
  | nil => exact absurd rfl nonempty
  | cons e rest ih =>
    have first : plainSection k (absolute path e) =
        walkMutCreate path (fun n => plainSection n e) k := walkMutCreate_append _ _ _ _
    rw [build, map_cons, foldl_cons, first]
    cases rest with
    | nil => rfl
    | cons e' rest =>
      show build _ ((e' :: rest).map (absolute path)) = _
      rw [ih _ (cons_ne_nil _ _), walkMutCreate_comp]
      rfl

variable {n : RegistryKey}

theorem build_children (secs : Str × RegistryKey → List FileSection)
    {cs : List (Str × RegistryKey)} (nodup : (keys lower cs).Nodup)
    (fresh : ∀ e ∈ cs, lower e.1 ∉ keys lower n.children) :
    build n (cs.flatMap fun e => (secs e).map (absolute [e.1])) =
      { n with children := n.children ++
          (cs.filter fun e => !(secs e).isEmpty).map fun e => (e.1, build new (secs e)) } := by
  induction cs generalizing n with
  | nil =>
    cases n
    simp [build]
  | cons e rest ih =>
    rw [KeyedTable.keys_cons, nodup_cons] at nodup
    rw [flatMap_cons, build, foldl_append]
    by_cases none_ : secs e = []
    · rw [none_, filter_cons_of_neg (by simp [none_])]
      exact ih nodup.2 fun e' mem => fresh e' (mem_cons_of_mem _ mem)
    · show build (build n ((secs e).map (absolute [e.1]))) _ = _
      have grafted : build n ((secs e).map (absolute [e.1])) =
          { n with children := n.children ++ [(e.1, build new (secs e))] } := by
        rw [build_under [e.1] n none_, walkMutCreate, upsert_fresh (fresh e mem_cons_self)]
        rfl
      rw [grafted, ih nodup.2]
      · rw [filter_cons_of_pos (by simp [none_])]
        simp
      · intro e' mem
        rw [KeyedTable.keys, map_append, mem_append, not_or]
        refine ⟨fresh e' (mem_cons_of_mem _ mem), ?_⟩
        rw [map_singleton, mem_singleton]
        exact fun same => nodup.1 (same ▸ mem_map_of_mem mem)

theorem children_storeAll (values : List (Str × RegistryValue)) (n : RegistryKey) :
    (storeAll values n).children = n.children := by
  induction values generalizing n with
  | nil => rfl
  | cons e rest ih => exact ih (n.setValue e.1 e.2)

def restored (k : RegistryKey) (path : List Str) : RegistryKey := build new (keySections k path)

def restoredValues (k : RegistryKey) : RegistryKey := storeAll (loadedValues (listedValues k)) new

theorem build_below (nodup : (keys lower k.children).Nodup)
    (bare : n.children = []) (path : List Str) :
    build n (k.sortedChildren.flatMap (sectionsOf path)) = { n with children :=
      (k.sortedChildren.filter fun e => !skipsKey (pathText (path ++ [e.1]))).map fun e =>
        (e.1, restored e.2 (path ++ [e.1])) } := by
  have sorted : (keys lower k.sortedChildren).Nodup :=
    ((perm_insertionSort _ _).map _).nodup_iff.mpr nodup
  show build n (k.sortedChildren.flatMap fun e =>
    (keySections e.2 (path ++ [e.1])).map (absolute [e.1])) = _
  rw [build_children _ sorted (by rw [bare]; simp [KeyedTable.keys]), bare]
  simp only [keySections_isEmpty]
  rfl

variable {path : List Str}

theorem restored_eq (nodup : (keys lower k.children).Nodup)
    (kept : skipsKey (pathText path) = false) :
    restored k path = { restoredValues k with children :=
      (k.sortedChildren.filter fun e => !skipsKey (pathText (path ++ [e.1]))).map fun e =>
        (e.1, restored e.2 (path ++ [e.1])) } := by
  rw [← build_below nodup (children_storeAll _ _), restored, keySections_eq, kept]
  rfl

def Distinct (k : RegistryKey) : Prop :=
  (keys lower k.children).Nodup ∧ (keys lower k.values).Nodup

instance (k : RegistryKey) : Decidable (Distinct k) :=
  inferInstanceAs (Decidable ((keys lower k.children).Nodup ∧ (keys lower k.values).Nodup))

theorem mem_children_restored (nodup : (keys lower k.children).Nodup)
    (kept : skipsKey (pathText path) = false) (seg : Str) (c : RegistryKey) :
    (seg, c) ∈ (restored k path).children ↔ ∃ d, (seg, d) ∈ k.children ∧
      skipsKey (pathText (path ++ [seg])) = false ∧ c = restored d (path ++ [seg]) := by
  rw [restored_eq nodup kept]
  simp only [mem_map, mem_filter, sortedChildren, mem_insertionSort]
  constructor
  · rintro ⟨e, ⟨mem, open_⟩, equal⟩
    obtain ⟨rfl, rfl⟩ := Prod.mk.inj equal
    exact ⟨e.2, mem, by simpa using open_, rfl⟩
  · rintro ⟨d, mem, open_, rfl⟩
    exact ⟨(seg, d), ⟨mem, by simpa using open_⟩, rfl⟩

theorem at_restored (distinct : Everywhere Distinct k) (kept : skipsKey (pathText path) = false)
    (p : List Str) (m : RegistryKey) : At p (restored k path) m ↔ ∃ n, At p k n ∧
      (∀ q, q <+: p → skipsKey (pathText (path ++ q)) = false) ∧ m = restored n (path ++ p) := by
  induction p generalizing k path with
  | nil =>
    simp only [At, prefix_nil, append_nil]
    constructor
    · rintro rfl
      exact ⟨k, rfl, by rintro q rfl; rwa [append_nil], rfl⟩
    · rintro ⟨n, rfl, -, rfl⟩
      rfl
  | cons seg rest ih =>
    have shift : ∀ q, path ++ seg :: q = (path ++ [seg]) ++ q := fun q => by simp
    simp only [At, mem_children_restored (distinct [] k rfl).1 kept, forall_prefix_cons,
      append_nil, kept, true_and]
    constructor
    · rintro ⟨c, ⟨d, mem, open_, rfl⟩, below⟩
      obtain ⟨n, found, inner, rfl⟩ := (ih (distinct.child mem) open_).mp below
      exact ⟨n, ⟨d, mem, found⟩, fun q front => shift q ▸ inner q front, by rw [shift rest]⟩
    · rintro ⟨n, ⟨d, mem, found⟩, open_, rfl⟩
      have here := open_ [] nil_prefix
      exact ⟨_, ⟨d, mem, here, rfl⟩, (ih (distinct.child mem) here).mpr
        ⟨n, found, fun q front => shift q ▸ open_ q front, by rw [shift rest]⟩⟩

end Building
end Triskelion.RegistrySections
