import Triskelion.RuntimeKeys
import Triskelion.WriteStamp

/-! Enumerating the subkeys of an open key, and opening each of them by the name that was
returned. Every segment of a path comes from `parse_key_path`, so a name is never empty and
holds no backslash, and is parsed back as the one segment it was. -/

namespace Triskelion.SubkeyEnumeration
open RunRules RegistryKey RegistryWalk KeyedTable Utf16Text LinkPaths RegistryRoundTrip WriteStamp List
open Registry (enumKey openKey queryKey readKey resolveParent)

def Plain (s : Str) : Prop := s ≠ [] ∧ '\\' ∉ s

section
variable {s : Str} {name : List UInt8}

theorem plain_of_parseKeyPath (mem : s ∈ parseKeyPath name) : Plain s := by
  obtain ⟨inside, nonempty⟩ := mem_filter.mp mem
  exact ⟨by simpa using nonempty, (RuntimeKeys.mem_splitOn inside).1⟩

theorem parseKeyPath_encodeUtf16 (plain : Plain s) : parseKeyPath (leBytes (encodeUtf16 s)) = [s] := by
  rw [parseKeyPath, ofLeBytes_leBytes, fromUtf16Lossy_encodeUtf16, splitPath,
    splitOn_eq_singleton plain.2]
  exact filter_cons_of_pos (by simp [plain.1])

end

section
variable [CaseMap]

structure Orderly (n : RegistryKey) : Prop where
  unique : (keys lower n.children).Nodup
  plain : ∀ e ∈ n.children, Plain e.1

structure Sound (r : Registry) : Prop where
  orderly : AllNodes Orderly r.root
  plain : ∀ hkey path, r.openKeys.get? hkey = some path → ∀ s ∈ path, Plain s

/-- The indices run through the subkeys of the key that is read, each once and in order, and
each can be opened by its name. -/
def Enumerates (r : Registry) (hkey : UInt32) : Prop :=
  ∃ (found : Option RegistryKey) (listed : List (Str × RegistryKey)),
    r.readKey hkey = .ok found ∧ listed.Perm ((found.map children).getD []) ∧
    listed.Pairwise (fun a b => strLe (lower a.1) (lower b.1) ∧ lower a.1 ≠ lower b.1) ∧
    (∀ i, r.enumKey hkey i = .ok (listed[i]?.map fun e =>
      (leBytes (encodeUtf16 e.1), e.2.children.length, e.2.values.length))) ∧
    (r.queryKey hkey).map (·.map fun q => q.1) = .ok (found.map fun _ => listed.length) ∧
    ∀ e ∈ listed, ∃ h after, r.openKey hkey (leBytes (encodeUtf16 e.1)) = .ok (some h, after) ∧
      (after.queryKey h).map (·.map fun q => (q.1, q.2.1)) =
        .ok (some (e.2.children.length, e.2.values.length))

variable {r : Registry} {n root : RegistryKey} {path : List Str} {f : RegistryKey → RegistryKey}
  {hkey : UInt32}

theorem Orderly.new : Orderly new := ⟨nodup_nil, by simp [RegistryKey.new]⟩

theorem plain_linkTarget {target : List Str} (linked : linkTarget n = some target) :
    ∀ s ∈ target, Plain s := by
  unfold linkTarget at linked
  split at linked
  · split at linked
    · cases linked
      exact fun s => plain_of_parseKeyPath
    · cases linked
  · cases linked

theorem plain_followSymlink (plain : ∀ s ∈ path, Plain s) :
    ∀ s ∈ followSymlink root path, Plain s := by
  obtain ⟨rounds, -, reaches⟩ : ∃ n ≤ 8, Reaches root n path (followSymlink root path) :=
    reaches_followRounds 8 path
  generalize followSymlink root path = final at reaches ⊢
  induction reaches with
  | refl => exact plain
  | step first later ih =>
    obtain ⟨p, seg, q, target, rfl, -, ⟨-, -, linked⟩, rfl⟩ := first
    obtain ⟨n, -, linked⟩ := Option.bind_eq_some_iff.mp linked
    apply ih
    grind [plain_linkTarget linked]

section
variable (sound : Sound r)
include sound

theorem Sound.plain_requestPath (parent : UInt32) (name : List UInt8) :
    ∀ s ∈ r.requestPath parent name, Plain s := by
  apply plain_followSymlink
  intro s mem
  rcases mem_append.mp mem with inside | inside
  · rw [resolveParent] at inside
    split at inside
    · cases inside
    · cases found : r.openKeys.get? parent with
      | none => simp [found] at inside
      | some path => exact sound.plain parent path found s (by simpa [found] using inside)
  · exact plain_of_parseKeyPath inside

theorem Sound.edit (plain : ∀ s ∈ path, Plain s)
    (within : ∀ n seg c, (f n).child seg = some c → n.child seg = some c)
    (edit : ∀ n, Orderly n → Orderly (f n)) : AllNodes Orderly (walkMutCreate path f r.root) := by
  refine sound.orderly.walkMutCreate .new (fun n seg mem g orderly => ⟨?_, fun e inside => ?_⟩)
    within (edit _ (sound.orderly.at .new path))
  · exact nodup_upsert orderly.unique seg _
  · rcases mem_upsert inside with old | ⟨-, d, old, -⟩ | rfl
    · exact orderly.plain e old
    · exact orderly.plain (e.1, d) old
    · exact plain seg mem

theorem Sound.openAt (plain : ∀ s ∈ path, Plain s) : Sound (r.openAt path) :=
  ⟨sound.orderly, Table.forall_insert sound.plain plain⟩

theorem Sound.step (op : Operation) : Sound (step r op) := by
  simp only [WriteStamp.step, perform]
  cases op with
  | createKey parent name =>
    have plain := sound.plain_requestPath parent name
    simp only [Registry.createKey]
    cases r.walk (r.requestPath parent name) with
    | error => exact ⟨sound.orderly, sound.plain⟩
    | ok existed =>
      refine Sound.openAt ⟨sound.edit plain ?_ fun _ => id, sound.plain⟩ plain
      exact fun _ _ _ => id
  | openKey parent name =>
    simp only [openKey]
    rcases r.walk (r.requestPath parent name) with - | - | -
    · exact sound
    · exact sound
    · exact sound.openAt (sound.plain_requestPath parent name)
  | setValue hkey =>
    simp only [Registry.setValue]
    cases found : r.openKeys.get? hkey with
    | none => exact ⟨sound.orderly, sound.plain⟩
    | some path =>
      refine ⟨sound.edit (sound.plain hkey path found) (fun _ _ _ => id) fun n orderly => ?_,
        sound.plain⟩
      exact ⟨orderly.unique, orderly.plain⟩
  | deleteValue hkey =>
    simp only [Registry.deleteValue]
    cases found : r.openKeys.get? hkey with
    | none => exact sound
    | some path =>
      dsimp only
      split
      · exact sound
      split
      · refine ⟨sound.edit (sound.plain hkey path found) (fun _ _ _ => id) fun n orderly => ?_,
          sound.plain⟩
        exact ⟨orderly.unique, orderly.plain⟩
      · exact sound
  | deleteKey hkey =>
    simp only
    split
    · next done deleted =>
      rcases Registry.deleteKey_cases deleted with rfl | ⟨path, -, below, found, -, -, -, rfl⟩
      · exact sound
      · refine ⟨sound.edit (fun s mem => sound.plain hkey path found s (dropLast_subset _ mem))
          (fun n seg c inside => ?_) fun n orderly => ⟨?_, ?_⟩, sound.plain⟩
        · rw [child_removeChild] at inside
          split_ifs at inside
          exact inside
        · exact nodup_erase orderly.unique
        · exact fun e mem => orderly.plain e (mem_of_mem_filter mem)
    · exact sound
  | walked => exact ⟨sound.orderly, sound.plain⟩

end

theorem not_splitsChar (exists_ : (node path root).isSome) : ¬ SplitsChar root path := by
  rintro ⟨before, seg, after, n, rfl, found, missing, -⟩
  simp [node_append, node_cons, found, missing] at exists_

theorem walk_unlinked (unlinked : AllNodes Unlinked r.root) (clean : ¬ SplitsChar r.root path) :
    r.walk path = .ok (node path r.root) := by
  obtain ⟨walked, -⟩ := (descend_eq path r.root).resolve_right fun h => clean h.2
  rw [Registry.walk, walk, walkFrom, walked]
  cases found : node path r.root with
  | none => rfl
  | some n =>
    have bare : redirect r.root path n = none := by
      rw [redirect, unlinked path n found]
    simp [bare]

theorem Orderly.increasing (orderly : Orderly n) : n.sortedChildren.Pairwise fun a b =>
    strLe (lower a.1) (lower b.1) ∧ lower a.1 ≠ lower b.1 := by
  let le (a b : Str × RegistryKey) : Prop := strLe (lower a.1) (lower b.1)
  have total : Std.Total le := ⟨fun a b => strLe_total _ _⟩
  have trans : IsTrans _ le := ⟨fun a b c => strLe_trans⟩
  have sorted : n.sortedChildren.Pairwise le := pairwise_insertionSort _ _
  have perm : n.sortedChildren.Perm n.children := perm_insertionSort _ _
  have distinct := (perm.map _).nodup_iff.mpr orderly.unique
  exact sorted.and (pairwise_map.mp distinct)

theorem walk_splitsChar (split : SplitsChar r.root path) : r.walk path = .error .charBoundary := by
  obtain ⟨panicked, -⟩ := (descend_eq path r.root).resolve_left fun h => h.2 split
  rw [Registry.walk, walk, walkFrom, panicked]

def SameCounts (a b : RegistryKey) : Prop :=
  a.children.length = b.children.length ∧ a.values.length = b.values.length

theorem opens_iff (unlinked : AllNodes Unlinked r.root) {e : Str × RegistryKey} (plain : Plain e.1) :
    (∃ h after, r.openKey hkey (leBytes (encodeUtf16 e.1)) = .ok (some h, after) ∧
      (after.queryKey h).map (·.map fun q => (q.1, q.2.1)) =
        .ok (some (e.2.children.length, e.2.values.length))) ↔
    ∃ c, node (r.resolveParent hkey ++ [e.1]) r.root = some c ∧ SameCounts c e.2 := by
  have request : r.requestPath hkey (leBytes (encodeUtf16 e.1)) = r.resolveParent hkey ++ [e.1] := by
    rw [Registry.requestPath, followSymlink_unlinked unlinked, parseKeyPath_encodeUtf16 plain]
  rw [openKey, request]
  generalize r.resolveParent hkey ++ [e.1] = full
  by_cases split : SplitsChar r.root full
  · have missing : node full r.root = none := by
      by_contra found
      exact not_splitsChar (Option.isSome_iff_ne_none.mpr found) split
    simp [walk_splitsChar split, missing, Except.map]
  have walked := walk_unlinked unlinked split
  cases found : node full r.root with
  | none => simp [walked, found, Except.map]
  | some c =>
    have opened : (r.openAt full).readKey r.nextHkey = .ok (some c) := by
      rw [readKey, Registry.openAt, Table.get?_insert, if_pos rfl]
      exact walked.trans (by rw [found])
    simp [walked, found, Except.map, queryKey, opened, SameCounts]

/-- The subkeys of a key are found from the root as well, with the counts they have here. -/
def FromRoot (root : RegistryKey) (path : List Str) : Prop :=
  ∀ n, node path root = some n → ∀ e ∈ n.children, ∃ c, root.child e.1 = some c ∧ SameCounts c e.2

theorem enumerates_iff (sound : Sound r) (unlinked : AllNodes Unlinked r.root)
    (found : r.openKeys.get? hkey = some path) :
    Enumerates r hkey ↔ ¬ SplitsChar r.root path ∧ (hkey = 0 → FromRoot r.root path) := by
  have read : r.readKey hkey = r.walk path := by rw [readKey, found]
  by_cases split : SplitsChar r.root path
  · refine iff_of_false ?_ fun h => h.1 split
    rintro ⟨key, -, walked, -⟩
    rw [read, walk_splitsChar split] at walked
    cases walked
  rw [walk_unlinked unlinked split] at read
  simp only [split, not_false_eq_true, true_and]
  cases here : node path r.root with
  | none =>
    refine iff_of_true ⟨none, [], ?_⟩ fun _ n there => by simp [here] at there
    simp [enumKey, queryKey, read, here, Except.map]
  | some n =>
    rw [here] at read
    have orderly := sound.orderly path n here
    have perm : n.sortedChildren.Perm n.children := perm_insertionSort _ _
    constructor
    · rintro ⟨key, listed, key_read, all, -, -, -, opens⟩ zero k there e mem
      obtain rfl : n = k := Option.some.inj (here.symm.trans there)
      obtain rfl : some n = key := Except.ok.inj (read.symm.trans key_read)
      have listed_e := opens e (all.mem_iff.mpr mem)
      obtain ⟨c, at_c, same⟩ := (opens_iff unlinked (orderly.plain e mem)).mp listed_e
      rw [resolveParent, if_pos zero] at at_c
      exact ⟨c, by simpa [node] using at_c, same⟩
    intro from_root
    refine ⟨some n, n.sortedChildren, read, perm, ?_, fun i => ?_, ?_, fun e mem => ?_⟩
    · exact orderly.increasing
    · simp [enumKey, read, Except.map]
    · simp [queryKey, read, Except.map, perm.length_eq]
    have inside := perm.mem_iff.mp mem
    rw [opens_iff unlinked (orderly.plain e inside), resolveParent]
    split_ifs with zero
    · obtain ⟨c, child, same⟩ := from_root zero n here e inside
      exact ⟨c, by simp [node_cons, child], same⟩
    · have child : n.child e.1 = some e.2 := by
        rw [child, KeyedTable.get, find_of_mem orderly.unique inside]
        rfl
      exact ⟨e.2, by simp [found, node_append, here, node_cons, child], rfl, rfl⟩

/-- Without links the subkeys are enumerated through every handle along whose path no byte slice
panics, and through the handle 0, which names from the root are opened by, if they lead to the
like there. -/
theorem subkeys_enumerated_iff (sid : Str) (ops : List Operation) :
    ∀ r ∈ states step (.empty sid) ops, AllNodes Unlinked r.root →
      ∀ hkey path, r.openKeys.get? hkey = some path →
        (Enumerates r hkey ↔ ¬ SplitsChar r.root path ∧ (hkey = 0 → FromRoot r.root path)) := by
  intro r reached unlinked hkey path found
  have start : Sound (.empty sid) :=
    ⟨fun path n found => node_new path n found ▸ .new, fun _ _ found => by cases found⟩
  have keep (r : Registry) (op : Operation) (sound : Sound r) (_ : True) : Sound (step r op) :=
    sound.step op
  have sound := good_of_allSteps keep start (allSteps_of_forall (fun _ _ => trivial) _ _) r reached
  exact enumerates_iff sound unlinked found

theorem unlinked_create (unlinked : AllNodes Unlinked root) :
    AllNodes Unlinked (walkMutCreate path id root) :=
  unlinked.walkMutCreate (rfl : Unlinked new) (fun _ _ _ _ here => here) (fun _ _ _ => id)
    (unlinked.at (rfl : Unlinked new) path)

end

/-- A key and its subkeys "b" and "a". -/
theorem subkeys_enumerated_two :
    let ops := [.createKey 0 [0x4B, 0], .createKey 1 [0x62, 0], .createKey 1 [0x61, 0]]
    let r := run (@step asciiCase) (.empty []) ops
    @Enumerates asciiCase r 1 ∧
      [0, 1, 2].map (fun i => @enumKey asciiCase r 1 i) =
        [.ok (some ([0x61, 0], 0, 0)), .ok (some ([0x62, 0], 0, 0)), .ok none] := by
  intro ops r
  let _ := asciiCase
  have unlinked : AllNodes Unlinked r.root :=
    unlinked_create (unlinked_create (unlinked_create
      fun path n found => node_new path n found ▸ rfl))
  have agree := subkeys_enumerated_iff [] ops r (run_mem_states _ _) unlinked 1 [['K']] rfl
  exact ⟨agree.mpr ⟨not_splitsChar rfl, fun zero => by cases zero⟩, rfl⟩

/-- The handle of a deleted key, whose name is no longer found among the others. -/
theorem deleted_key_panics : ¬ @Enumerates asciiCase
    (run (@step asciiCase) (.empty [])
      [.createKey 0 [0xE9, 0, 0xE9, 0], .createKey 0 [0x61, 0], .deleteKey 1]) 1 := by
  rintro ⟨found, -, read, -⟩
  cases read

end Triskelion.SubkeyEnumeration
