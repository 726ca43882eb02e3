import Mathlib.Data.List.Nodup
import Mathlib.Data.List.Perm.Basic

/-! Finite maps as association lists. Keys are compared through a projection
`key`, so that a map may ignore part of what it stores (the spelling of a name)
and still return it. An entry that is overwritten keeps the key it was first
stored under and its place in the list; a new entry goes last. -/

namespace Triskelion.KeyedTable

open List Option

variable {κ γ ν : Type*} [DecidableEq γ]

def find (key : κ → γ) (g : γ) : List (κ × ν) → Option (κ × ν)
  | [] => none
  | e :: rest => if key e.1 = g then some e else find key g rest

def get (key : κ → γ) (g : γ) (l : List (κ × ν)) : Option ν :=
  (find key g l).map Prod.snd

/-- One pass of `entry(k)`: the stored value, if any, decides the new one. -/
def upsert (key : κ → γ) (k : κ) (f : Option ν → ν) : List (κ × ν) → List (κ × ν)
  | [] => [(k, f none)]
  | e :: rest =>
    if key e.1 = key k then (e.1, f (some e.2)) :: rest else e :: upsert key k f rest

def insert (key : κ → γ) (k : κ) (v : ν) (l : List (κ × ν)) : List (κ × ν) :=
  upsert key k (fun _ => v) l

def erase (key : κ → γ) (g : γ) (l : List (κ × ν)) : List (κ × ν) :=
  l.filter fun e => key e.1 ≠ g

def keys (key : κ → γ) (l : List (κ × ν)) : List γ := l.map fun e => key e.1

variable {key : κ → γ}

omit [DecidableEq γ] in
theorem keys_cons (a : κ × ν) (l : List (κ × ν)) : keys key (a :: l) = key a.1 :: keys key l := rfl

variable {l : List (κ × ν)}

variable {g : γ} {e : κ × ν}

theorem find_key (h : find key g l = some e) : key e.1 = g := by
  induction l with
  | nil => simp [find] at h
  | cons a rest ih =>
    rw [find] at h
    split at h
    · cases h; assumption
    · exact ih h

theorem find_mem (h : find key g l = some e) : e ∈ l := by
  induction l with
  | nil => simp [find] at h
  | cons a rest ih =>
    rw [find] at h
    split at h
    · cases h; exact mem_cons_self
    · exact mem_cons_of_mem _ (ih h)

theorem find_eq_none : find key g l = none ↔ g ∉ keys key l := by
  induction l with
  | nil => simp [find, keys]
  | cons a rest ih =>
    rw [find, keys_cons, mem_cons, not_or]
    split
    · next h => simp [h]
    · next h => rw [ih, and_iff_right (Ne.symm h)]

theorem find_of_mem (nodup : (keys key l).Nodup) (h : e ∈ l) : find key (key e.1) l = some e := by
  induction l with
  | nil => simp at h
  | cons a rest ih =>
    rw [keys_cons, nodup_cons] at nodup
    rcases mem_cons.mp h with rfl | tail
    · simp [find]
    · have apart : key a.1 ≠ key e.1 := fun equal =>
        nodup.1 (equal ▸ mem_map.mpr ⟨e, tail, rfl⟩)
      rw [find, if_neg apart, ih nodup.2 tail]

theorem find_upsert_self (k : κ) (f : Option ν → ν) : find key (key k) (upsert key k f l) =
      some (((find key (key k) l).map Prod.fst).getD k, f ((find key (key k) l).map Prod.snd)) := by
  induction l with
  | nil => simp [upsert, find]
  | cons a rest ih =>
    rw [upsert, find]
    split
    · next h => simp [find, h]
    · next h => rw [find, if_neg h, ih]

theorem find_upsert_ne {k : κ} (h : g ≠ key k) (f : Option ν → ν) :
    find key g (upsert key k f l) = find key g l := by
  induction l with
  | nil => simp [upsert, find, Ne.symm h]
  | cons a rest ih =>
    rw [upsert]
    split
    · next same => rw [find, find, if_neg (by rw [same]; exact Ne.symm h),
        if_neg (by rw [same]; exact Ne.symm h)]
    · rw [find, find, ih]

theorem find_erase_self : find key g (erase key g l) = none := by
  rw [find_eq_none, keys, erase]
  simp

theorem find_erase_ne {h : γ} (ne : g ≠ h) : find key g (erase key h l) = find key g l := by
  induction l with
  | nil => rfl
  | cons a rest ih =>
    rw [erase, filter_cons] at *
    split
    · rw [find, find, ih]
    · next drop =>
      simp only [ne_eq, decide_not, Bool.not_eq_true', decide_eq_false_iff_not, not_not] at drop
      rw [find, if_neg (by rw [drop]; exact Ne.symm ne), ih]

theorem keys_upsert (k : κ) (f : Option ν → ν) : keys key (upsert key k f l) =
      if key k ∈ keys key l then keys key l else keys key l ++ [key k] := by
  induction l with
  | nil => simp [upsert, keys]
  | cons a rest ih =>
    rw [upsert]
    split
    · next h => simp [keys, h]
    · next h =>
      rw [keys_cons, keys_cons, ih]
      simp only [mem_cons, Ne.symm h, false_or]
      split <;> rfl

theorem mem_upsert {k : κ} {f : Option ν → ν} (mem : e ∈ upsert key k f l) :
    e ∈ l ∨ key e.1 = key k ∧ (∃ v, (e.1, v) ∈ l ∧ e.2 = f (some v)) ∨ e = (k, f none) := by
  induction l with
  | nil => exact .inr (.inr (mem_singleton.mp mem))
  | cons a rest ih =>
    rw [upsert] at mem
    split at mem
    · next same =>
      rcases mem_cons.mp mem with rfl | later
      · exact .inr (.inl ⟨same, a.2, mem_cons_self, rfl⟩)
      · exact .inl (mem_cons_of_mem _ later)
    · rcases mem_cons.mp mem with rfl | later
      · exact .inl mem_cons_self
      · rcases ih later with old | ⟨same, v, old, equal⟩ | fresh
        · exact .inl (mem_cons_of_mem _ old)
        · exact .inr (.inl ⟨same, v, mem_cons_of_mem _ old, equal⟩)
        · exact .inr (.inr fresh)

theorem nodup_upsert (nodup : (keys key l).Nodup) (k : κ) (f : Option ν → ν) :
    (keys key (upsert key k f l)).Nodup := by
  rw [keys_upsert]
  split
  · exact nodup
  · next h =>
    rw [nodup_append]
    refine ⟨nodup, nodup_singleton _, ?_⟩
    intro x hx y hy
    rw [mem_singleton.mp hy]
    exact fun equal => h (equal ▸ hx)

theorem nodup_erase (nodup : (keys key l).Nodup) : (keys key (erase key g l)).Nodup :=
  nodup.sublist (filter_sublist.map _)

theorem upsert_upsert {j k : κ} (same : key j = key k) (f g : Option ν → ν) :
    upsert key j g (upsert key k f l) = upsert key k (fun o => g (some (f o))) l := by
  induction l with
  | nil => simp [upsert, same]
  | cons a rest ih =>
    rw [upsert]
    split
    · next h => simp [upsert, h, same]
    · next h => rw [upsert, if_neg (by rw [same]; exact h), ih, upsert, if_neg h]

theorem upsert_fresh {k : κ} (fresh : key k ∉ keys key l) (f : Option ν → ν) :
    upsert key k f l = l ++ [(k, f none)] := by
  induction l with
  | nil => rfl
  | cons a rest ih =>
    rw [keys_cons, mem_cons, not_or] at fresh
    rw [upsert, if_neg (Ne.symm fresh.1), ih fresh.2, cons_append]

theorem get_upsert_self (k : κ) (f : Option ν → ν) :
    get key (key k) (upsert key k f l) = some (f (get key (key k) l)) := by
  rw [get, find_upsert_self]
  rfl

theorem get_upsert_ne {k : κ} (h : g ≠ key k) (f : Option ν → ν) :
    get key g (upsert key k f l) = get key g l := by
  rw [get, find_upsert_ne h, get]

theorem get_isSome : (get key g l).isSome ↔ g ∈ keys key l := by
  rw [get, ← not_iff_not, ← find_eq_none]
  simp

def weigh (key : κ → γ) (f : γ → ν → Nat) : List (κ × ν) → Nat
  | [] => 0
  | e :: rest => f (key e.1) e.2 + weigh key f rest

theorem weigh_upsert (f : γ → ν → Nat) (k : κ) (g : Option ν → ν) :
    weigh key f (upsert key k g l) + ((get key (key k) l).map (f (key k))).getD 0 =
      weigh key f l + f (key k) (g (get key (key k) l)) := by
  induction l with
  | nil => simp [upsert, weigh, get, find]
  | cons a rest ih =>
    by_cases same : key a.1 = key k
    · simp only [upsert, same, if_true, weigh, get, find, map_some, getD_some]
      omega
    · simp only [upsert, same, if_false, weigh, get, find] at ih ⊢
      omega

theorem weigh_erase (f : γ → ν → Nat) (g : γ) (nodup : (keys key l).Nodup) :
    weigh key f (erase key g l) + ((get key g l).map (f g)).getD 0 = weigh key f l := by
  induction l with
  | nil => rfl
  | cons a rest ih =>
    rw [keys_cons, nodup_cons] at nodup
    by_cases same : key a.1 = g
    · have absent : get key g rest = none := by
        rw [get, find_eq_none.mpr (same ▸ nodup.1), map_none]
      have others := ih nodup.2
      simp only [absent, map_none, getD_none, erase] at others
      simp only [erase, same, get, find, weigh, filter_cons, ne_eq, not_true, decide_false,
        if_true, map_some, getD_some] at others ⊢
      simp only [Bool.false_eq_true, if_false]
      omega
    · have others := ih nodup.2
      simp only [erase, same, get, find, weigh, filter_cons, ne_eq, not_false_eq_true,
        decide_true, if_true, if_false] at others ⊢
      omega

omit [DecidableEq γ] in
theorem weigh_filter {f : γ → ν → Nat} {p : κ × ν → Bool}
    (light : ∀ e ∈ l, p e = false → f (key e.1) e.2 = 0) :
    weigh key f (l.filter p) = weigh key f l := by
  induction l with
  | nil => rfl
  | cons a rest ih =>
    cases keep : p a <;> simp_all [weigh]

omit [DecidableEq γ] in
theorem weigh_congr {f g : γ → ν → Nat} (same : ∀ e ∈ l, f (key e.1) e.2 = g (key e.1) e.2) :
    weigh key f l = weigh key g l := by
  induction l with
  | nil => rfl
  | cons a rest ih =>
    rw [weigh, weigh, same a mem_cons_self, ih fun e mem => same e (mem_cons_of_mem _ mem)]

def total (f : ν → Nat) : List (κ × ν) → Nat
  | [] => 0
  | e :: rest => f e.2 + total f rest

omit [DecidableEq γ] in
theorem total_eq_weigh (key : κ → γ) (f : ν → Nat) (l : List (κ × ν)) :
    total f l = weigh key (fun _ => f) l := by
  induction l with
  | nil => rfl
  | cons a rest ih => rw [total, weigh, ih]

end KeyedTable

structure Table (κ ν : Type*) [DecidableEq κ] where
  entries : List (κ × ν)
  nodup : (KeyedTable.keys id entries).Nodup

namespace Table

variable {κ ν : Type*} [DecidableEq κ]

def empty : Table κ ν := ⟨[], List.nodup_nil⟩

section
variable (t : Table κ ν)

def get? (k : κ) : Option ν := KeyedTable.get id k t.entries

def contains (k : κ) : Bool := (t.get? k).isSome

def insert (k : κ) (v : ν) : Table κ ν :=
  ⟨KeyedTable.insert id k v t.entries, KeyedTable.nodup_upsert t.nodup k _⟩

def erase (k : κ) : Table κ ν :=
  ⟨KeyedTable.erase id k t.entries, KeyedTable.nodup_erase t.nodup⟩

def mapValues (f : ν → ν) : Table κ ν :=
  ⟨t.entries.map fun e => (e.1, f e.2), by
    simpa [KeyedTable.keys, List.map_map, Function.comp_def] using t.nodup⟩

def modify (k : κ) (f : ν → ν) : Table κ ν :=
  match t.get? k with
  | some v => t.insert k (f v)
  | none => t

def retain (p : κ → ν → Bool) : Table κ ν :=
  ⟨t.entries.filter fun e => p e.1 e.2, t.nodup.sublist (List.filter_sublist.map _)⟩

@[simp] theorem get?_empty (k : κ) : (empty : Table κ ν).get? k = none := rfl

theorem get?_insert (k j : κ) (v : ν) :
    (t.insert k v).get? j = if j = k then some v else t.get? j := by
  split
  · next h => subst h; exact KeyedTable.get_upsert_self j _
  · next h => exact KeyedTable.get_upsert_ne h _

theorem insert_insert (k : κ) (v w : ν) : (t.insert k v).insert k w = t.insert k w := by
  simp only [insert, KeyedTable.insert, KeyedTable.upsert_upsert rfl]

theorem get?_erase (k j : κ) : (t.erase k).get? j = if j = k then none else t.get? j := by
  split
  · next h =>
    subst h
    simp [get?, erase, KeyedTable.get, KeyedTable.find_erase_self]
  · next h => simp only [get?, erase, KeyedTable.get, KeyedTable.find_erase_ne h]

theorem get?_mapValues (f : ν → ν) (k : κ) : (t.mapValues f).get? k = (t.get? k).map f := by
  obtain ⟨l, nodup⟩ := t
  simp only [get?, mapValues, KeyedTable.get]
  clear nodup
  induction l with
  | nil => rfl
  | cons e rest ih =>
    simp only [List.map_cons, KeyedTable.find, id_eq]
    split
    · rfl
    · exact ih

theorem get?_modify (k j : κ) (f : ν → ν) :
    (t.modify k f).get? j = if j = k then (t.get? k).map f else t.get? j := by
  rw [modify]
  cases h : t.get? k with
  | none => split <;> simp_all
  | some => rw [get?_insert]; rfl

end

theorem modify_of_get? {t : Table κ ν} {k : κ} {v : ν} (found : t.get? k = some v)
    (f : ν → ν) : t.modify k f = t.insert k (f v) := by
  simp [modify, found]

theorem map_get?_modify {β : Type*} {g : ν → β} {f : ν → ν} (same : ∀ v, g (f v) = g v)
    (t : Table κ ν) (k j : κ) : ((t.modify k f).get? j).map g = (t.get? j).map g := by
  rw [get?_modify]
  split
  · next eq =>
    subst eq
    rw [Option.map_map]
    congr 1
    funext v
    exact same v
  · rfl

section
variable (t : Table κ ν)

theorem modify_modify (k : κ) (f g : ν → ν) : (t.modify k f).modify k g = t.modify k (g ∘ f) := by
  cases found : t.get? k with
  | none => simp [modify, found]
  | some => simp [modify, found, get?_insert, insert_insert]

theorem mem_entries (k : κ) (v : ν) : (k, v) ∈ t.entries ↔ t.get? k = some v := by
  constructor
  · intro mem
    have found := KeyedTable.find_of_mem t.nodup mem
    simp only [id_eq] at found
    simp [get?, KeyedTable.get, found]
  · intro h
    obtain ⟨e, found, rfl⟩ := Option.map_eq_some_iff.mp h
    have := KeyedTable.find_key found
    subst this
    exact KeyedTable.find_mem found

theorem all_entries_iff {q : κ × ν → Bool} :
    t.entries.all q ↔ ∀ k v, t.get? k = some v → q (k, v) := by
  simp [mem_entries]

theorem entries_insert {k : κ} (fresh : t.get? k = none) (v : ν) :
    (t.insert k v).entries = t.entries ++ [(k, v)] :=
  KeyedTable.upsert_fresh (KeyedTable.find_eq_none.mp (Option.map_eq_none_iff.mp fresh)) _

theorem entries_erase {k : κ} {v : ν} (found : t.get? k = some v) :
    t.entries.Perm ((k, v) :: (t.erase k).entries) := by
  refine (List.perm_ext_iff_of_nodup t.nodup.of_map (List.nodup_cons.mpr ⟨?_, ?_⟩)).mpr ?_
  · simp [mem_entries, get?_erase]
  · exact (t.erase k).nodup.of_map
  · rintro ⟨j, w⟩
    rw [List.mem_cons, mem_entries, mem_entries, get?_erase]
    by_cases same : j = k
    · subst same
      simp [found, eq_comm]
    · simp [same]

theorem get?_retain (p : κ → ν → Bool) (k : κ) : (t.retain p).get? k = (t.get? k).filter (p k) := by
  apply Option.ext
  intro v
  rw [← mem_entries, Option.filter_eq_some_iff, ← mem_entries]
  simp [retain]

theorem contains_iff (k : κ) : t.contains k ↔ ∃ v, t.get? k = some v := by
  rw [contains, Option.isSome_iff_exists]

end

theorem contains_of_get? {t : Table κ ν} {k : κ} {v : ν} (found : t.get? k = some v) :
    t.contains k :=
  (t.contains_iff k).mpr ⟨v, found⟩

/-! What is found after an update was put there by it, or was there before. -/

section Found

variable {t : Table κ ν} {k j : κ} {v w : ν}

theorem of_insert (found : (t.insert k v).get? j = some w) :
    j = k ∧ w = v ∨ j ≠ k ∧ t.get? j = some w := by
  rw [get?_insert] at found
  split at found
  · next same => exact .inl ⟨same, (Option.some.inj found).symm⟩
  · next other => exact .inr ⟨other, found⟩

theorem forall_insert {P : κ → ν → Prop} (all : ∀ j w, t.get? j = some w → P j w) (new : P k v) :
    ∀ j w, (t.insert k v).get? j = some w → P j w := by
  intro j w found
  rcases of_insert found with ⟨rfl, rfl⟩ | ⟨-, before⟩
  · exact new
  · exact all j w before

theorem of_erase (found : (t.erase k).get? j = some w) : j ≠ k ∧ t.get? j = some w := by
  rw [get?_erase] at found
  split at found
  · cases found
  · next other => exact ⟨other, found⟩

theorem of_modify {f : ν → ν} (found : (t.modify k f).get? j = some w) :
    j = k ∧ (∃ v, t.get? k = some v ∧ f v = w) ∨ j ≠ k ∧ t.get? j = some w := by
  rw [get?_modify] at found
  split at found
  · next same => exact .inl ⟨same, Option.map_eq_some_iff.mp found⟩
  · next other => exact .inr ⟨other, found⟩

theorem of_retain {p : κ → ν → Bool} (found : (t.retain p).get? k = some v) :
    t.get? k = some v ∧ p k v := by
  rwa [get?_retain, Option.filter_eq_some_iff] at found

end Found

/-! Sums over the entries: what an update takes away and what it adds. -/

def weigh (t : Table κ ν) (f : κ → ν → Nat) : Nat := KeyedTable.weigh id f t.entries

section
variable (t : Table κ ν) (f : κ → ν → Nat)
include f

theorem weigh_insert (k : κ) (v : ν) :
    (t.insert k v).weigh f + ((t.get? k).map (f k)).getD 0 = t.weigh f + f k v :=
  KeyedTable.weigh_upsert f k (fun _ => v)

theorem weigh_erase (k : κ) : (t.erase k).weigh f + ((t.get? k).map (f k)).getD 0 = t.weigh f :=
  KeyedTable.weigh_erase f k t.nodup

theorem le_weigh {k : κ} {v : ν} (found : t.get? k = some v) : f k v ≤ t.weigh f := by
  have sum := t.weigh_erase f k
  rw [found, Option.map_some, Option.getD_some] at sum
  omega

end

variable {f : κ → ν → Nat}

section
variable (t : Table κ ν)

theorem weigh_eq_zero (zero : ∀ k v, f k v = 0) : t.weigh f = 0 := by
  unfold weigh
  induction t.entries with
  | nil => rfl
  | cons e rest ih => rw [KeyedTable.weigh, ih, zero]

theorem weigh_modify (f : κ → ν → Nat) (k : κ) (g : ν → ν) :
    (t.modify k g).weigh f + ((t.get? k).map (f k)).getD 0 =
      t.weigh f + ((t.get? k).map (f k ∘ g)).getD 0 := by
  unfold modify
  cases found : t.get? k with
  | none => rfl
  | some v => simpa [found] using weigh_insert t f k (g v)

theorem weigh_mapValues (g : ν → ν) : (t.mapValues g).weigh f = t.weigh fun k v => f k (g v) := by
  obtain ⟨l, nodup⟩ := t
  simp only [weigh, mapValues]
  clear nodup
  induction l with
  | nil => rfl
  | cons e rest ih => rw [List.map_cons, KeyedTable.weigh, KeyedTable.weigh, ih]

theorem weigh_congr {g : κ → ν → Nat}
    (same : ∀ k v, t.get? k = some v → f k v = g k v) : t.weigh f = t.weigh g :=
  KeyedTable.weigh_congr fun e mem => same e.1 e.2 ((t.mem_entries e.1 e.2).mp mem)

theorem weigh_mono {g : κ → ν → Nat} (le : ∀ k v, f k v ≤ g k v) : t.weigh f ≤ t.weigh g := by
  unfold weigh
  induction t.entries with
  | nil => exact Nat.le_refl 0
  | cons e rest ih => exact Nat.add_le_add (le e.1 e.2) ih

theorem weigh_retain {p : κ → ν → Bool} (light : ∀ k v, p k v = false → f k v = 0) :
    (t.retain p).weigh f = t.weigh f :=
  KeyedTable.weigh_filter fun e _ => light e.1 e.2

theorem weigh_ite (p : κ → ν → Prop) [∀ k v, Decidable (p k v)] :
    t.weigh (fun k v => if p k v then 1 else 0) = t.entries.countP fun e => p e.1 e.2 := by
  unfold weigh
  induction t.entries with
  | nil => rfl
  | cons e rest ih =>
    rw [KeyedTable.weigh, ih, List.countP_cons, Nat.add_comm]
    simp [id_eq]

def total (f : ν → Nat) : Nat := KeyedTable.total f t.entries

theorem total_eq_weigh (f : ν → Nat) : t.total f = t.weigh fun _ => f :=
  KeyedTable.total_eq_weigh id f t.entries

theorem total_insert (f : ν → Nat) (k : κ) (v : ν) :
    (t.insert k v).total f + ((t.get? k).map f).getD 0 = t.total f + f v := by
  simpa only [total_eq_weigh] using t.weigh_insert (fun _ => f) k v

theorem total_erase (f : ν → Nat) (k : κ) :
    (t.erase k).total f + ((t.get? k).map f).getD 0 = t.total f := by
  simpa only [total_eq_weigh] using t.weigh_erase (fun _ => f) k

theorem total_modify (f : ν → Nat) (k : κ) (g : ν → ν) :
    (t.modify k g).total f + ((t.get? k).map f).getD 0 =
      t.total f + ((t.get? k).map (f ∘ g)).getD 0 := by
  simpa only [total_eq_weigh] using t.weigh_modify (fun _ => f) k g

theorem total_modify_eq {f : ν → Nat} (k : κ) {g : ν → ν} (same : f ∘ g = f) :
    (t.modify k g).total f = t.total f := by
  have both := t.weigh_modify (fun _ => f) k g
  rw [same] at both
  rw [total_eq_weigh, total_eq_weigh]
  omega

theorem contains_insert (k j : κ) (v : ν) :
    (t.insert k v).contains j = (j = k || t.contains j) := by
  simp only [contains, get?_insert]
  split <;> simp [*]

end

theorem of_contains_insert {t : Table κ ν} {k j : κ} {v : ν} (there : (t.insert k v).contains j) :
    j = k ∨ t.contains j := by
  simpa [contains_insert] using there

theorem contains_erase (t : Table κ ν) (k j : κ) :
    (t.erase k).contains j = (j ≠ k && t.contains j) := by
  simp only [contains, get?_erase]
  split <;> simp [*]

theorem contains_modify (t : Table κ ν) (k j : κ) (f : ν → ν) :
    (t.modify k f).contains j = t.contains j := by
  simp only [contains, get?_modify]
  split <;> simp [*]

end Table

/-! Lists as the values of a table: where there is none, nothing is counted. -/

theorem getD_countP {α : Type*} (found : Option (List α)) (q : α → Bool) :
    (found.map fun l => l.countP q).getD 0 = (found.getD []).countP q := by
  cases found <;> rfl

theorem getD_replace {κ α : Type*} [DecidableEq κ] (t : Table κ (List α)) (k j : κ) (l : List α)
    [Decidable (l = [])] : ((if l = [] then t.erase k else t.insert k l).get? j).getD [] =
      if j = k then l else (t.get? j).getD [] := by
  by_cases empty : l = [] <;> by_cases here : j = k <;>
    simp [empty, here, Table.get?_erase, Table.get?_insert]

theorem getD_prune {κ α : Type*} [DecidableEq κ] [DecidableEq α] (t : Table κ (List α))
    {f : List α → List α} (empty : f [] = []) (k : κ) :
    (((t.mapValues f).retain fun _ l => l ≠ []).get? k).getD [] = f ((t.get? k).getD []) := by
  rw [Table.get?_retain, Table.get?_mapValues]
  cases t.get? k with
  | none => exact empty.symm
  | some l => by_cases none_ : f l = [] <;> simp [Option.filter, none_]

theorem getD_count {α : Type*} [BEq α] (found : Option (List α)) (a : α) :
    (found.map fun l => l.count a).getD 0 = (found.getD []).count a := by
  cases found <;> rfl

end Triskelion
