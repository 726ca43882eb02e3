import Triskelion.KeyedTable
import Triskelion.Utf16Text

/-! The in-memory registry tree of `registry.rs`: keys with named children and
values, both looked up without regard to case. A `RegName` is kept as its original
spelling; its lower-case form is a function of the spelling. -/

namespace Triskelion
open KeyedTable Utf16Text List Option

/-- `str::to_lowercase`, of which its values on ASCII text are used, and that no other
character becomes a backslash or an at sign. -/
class CaseMap where
  lower : Str → Str
  lower_ascii : ∀ s : Str, (∀ c ∈ s, c.toNat < 128) → lower s = s.map Char.toLower
  lower_backslash : ∀ s : Str, (lower s).getLast? = some '\\' ↔ s.getLast? = some '\\'
  lower_at : ∀ s : Str, lower s = ['@'] → s = ['@']

export CaseMap (lower)

def isAscii (s : Str) : Bool := s.all fun c => c.toNat < 128

theorem lower_eq [CaseMap] {s : Str} (ascii : isAscii s) : lower s = s.map Char.toLower :=
  CaseMap.lower_ascii s (by simpa [isAscii] using ascii)

def strLe : Str → Str → Bool
  | [], _ => true
  | _ :: _, [] => false
  | a :: s, b :: t => a.toNat < b.toNat || (a == b && strLe s t)

theorem strLe_cons (a b : Char) (s t : Str) :
    strLe (a :: s) (b :: t) ↔ a.toNat < b.toNat ∨ a = b ∧ strLe s t := by
  simp [strLe]

theorem strLe_total (s t : Str) : strLe s t ∨ strLe t s := by
  induction s generalizing t with
  | nil => exact .inl rfl
  | cons a s ih =>
    cases t with
    | nil => exact .inr rfl
    | cons b t =>
      rw [strLe_cons, strLe_cons]
      rcases lt_trichotomy a.toNat b.toNat with less | same | more
      · exact .inl (.inl less)
      · rw [Char.toNat_inj] at same
        rcases ih t with first | second
        · exact .inl (.inr ⟨same, first⟩)
        · exact .inr (.inr ⟨same.symm, second⟩)
      · exact .inr (.inl more)

theorem strLe_trans {s t u : Str} (first : strLe s t) (second : strLe t u) : strLe s u := by
  induction s generalizing t u with
  | nil => rfl
  | cons a s ih =>
    cases t with
    | nil => cases first
    | cons b t =>
      cases u with
      | nil => cases second
      | cons c u =>
        rw [strLe_cons] at first second ⊢
        rcases first with less | ⟨rfl, first⟩
        · rcases second with less' | ⟨rfl, -⟩
          · exact .inl (less.trans less')
          · exact .inl less
        · rcases second with less' | ⟨rfl, second⟩
          · exact .inl less'
          · exact .inr ⟨rfl, ih first second⟩

namespace RegName

/-- `RegName::from_utf16le`: the terminating NULs are not part of the name. -/
def fromUtf16le (bytes : List UInt8) : Str := trimmedText bytes

end RegName

structure RegistryValue where
  dataType : UInt32
  data : List UInt8
deriving DecidableEq

structure RegistryKey where
  children : List (Str × RegistryKey)
  values : List (Str × RegistryValue)
  valueNames : List Str

namespace RegistryKey

def new : RegistryKey := ⟨[], [], []⟩

variable {P : RegistryKey → Prop}

theorem induction
    (step : ∀ k : RegistryKey, (∀ e ∈ k.children, P e.2) → P k) (k : RegistryKey) : P k :=
  step k fun e mem =>
    have smaller : sizeOf e.2 < sizeOf k := by
      have inside := sizeOf_lt_of_mem mem
      cases k
      cases e
      simp at inside ⊢
      omega
    induction step e.2
termination_by sizeOf k

variable [CaseMap]

def child (k : RegistryKey) (seg : Str) : Option RegistryKey := get lower (lower seg) k.children

def value (k : RegistryKey) (name : Str) : Option RegistryValue := get lower (lower name) k.values

/-- The node that a path names when no link is followed. -/
def node : List Str → RegistryKey → Option RegistryKey
  | [], k => some k
  | seg :: rest, k => (k.child seg).bind (node rest)

/-- `walk_mut_create`, and what the caller then does to the node it is given. -/
def walkMutCreate : List Str → (RegistryKey → RegistryKey) → RegistryKey → RegistryKey
  | [], f, k => f k
  | seg :: rest, f, k =>
    { k with children := upsert lower seg (fun o => walkMutCreate rest f (o.getD new)) k.children }

def stored (path : List Str) (name : Str) (k : RegistryKey) : Option RegistryValue :=
  (node path k).bind fun n => n.value name

def AllNodes (P : RegistryKey → Prop) (k : RegistryKey) : Prop :=
  ∀ path n, node path k = some n → P n

@[simp] theorem child_new (seg : Str) : new.child seg = none := rfl

@[simp] theorem value_new (name : Str) : new.value name = none := rfl

@[simp] theorem node_nil (k : RegistryKey) : node [] k = some k := rfl

theorem node_cons (seg : Str) (rest : List Str) (k : RegistryKey) :
    node (seg :: rest) k = (k.child seg).bind (node rest) := rfl

theorem node_append (p q : List Str) (k : RegistryKey) :
    node (p ++ q) k = (node p k).bind (node q) := by
  induction p generalizing k with
  | nil => rfl
  | cons seg rest ih =>
    rw [cons_append, node_cons, node_cons]
    cases k.child seg with
    | none => rfl
    | some c => exact ih c

theorem node_new (path : List Str) (n : RegistryKey) (h : node path new = some n) : n = new := by
  cases path with
  | nil => exact (some.inj h).symm
  | cons seg rest => simp [node_cons] at h

theorem walkMutCreate_append (p q : List Str) (f : RegistryKey → RegistryKey) (k : RegistryKey) :
    walkMutCreate (p ++ q) f k = walkMutCreate p (walkMutCreate q f) k := by
  induction p generalizing k with
  | nil => rfl
  | cons seg rest ih => simp only [cons_append, walkMutCreate, ih]

theorem child_walkMutCreate_same {seg t : Str} (same : lower t = lower seg) (rest : List Str)
    (f : RegistryKey → RegistryKey) (k : RegistryKey) : (walkMutCreate (seg :: rest) f k).child t =
      some (walkMutCreate rest f ((k.child seg).getD new)) := by
  rw [child, same]
  exact get_upsert_self seg _

theorem child_walkMutCreate_other {seg t : Str} (other : lower t ≠ lower seg) (rest : List Str)
    (f : RegistryKey → RegistryKey) (k : RegistryKey) :
    (walkMutCreate (seg :: rest) f k).child t = k.child t :=
  get_upsert_ne other _

theorem child_congr {s t : Str} (same : lower s = lower t) (k : RegistryKey) :
    k.child s = k.child t := by
  rw [child, child, same]

theorem node_congr {p q : List Str} (same : p.map lower = q.map lower) (k : RegistryKey) :
    node p k = node q k := by
  induction p generalizing q k with
  | nil => rw [map_eq_nil_iff.mp same.symm]
  | cons seg rest ih =>
    obtain ⟨t, tail, rfl, head, tails⟩ := map_eq_cons_iff.mp same.symm
    rw [node_cons, child_congr head.symm]
    exact congrArg _ (funext fun n => ih tails.symm n)

theorem node_walkMutCreate_self (path : List Str) (f : RegistryKey → RegistryKey)
    (k : RegistryKey) : node path (walkMutCreate path f k) = some (f ((node path k).getD new)) := by
  induction path generalizing k with
  | nil => rfl
  | cons seg rest ih =>
    rw [node_cons, child_walkMutCreate_same rfl, bind_some, ih, node_cons]
    cases k.child seg with
    | some => rfl
    | none =>
      cases rest with
      | nil | cons t tail => rfl

variable {f : RegistryKey → RegistryKey}

theorem stored_walkMutCreate_other (keeps : ∀ n, (f n).children = n.children) {path q : List Str}
    (other : q.map lower ≠ path.map lower) (name : Str) (k : RegistryKey) :
    stored q name (walkMutCreate path f k) = stored q name k := by
  induction path generalizing q k with
  | nil =>
    cases q with
    | nil => exact absurd rfl other
    | cons t tail =>
      rw [stored, stored, node_cons, node_cons, walkMutCreate, child, child, keeps]
  | cons seg rest ih =>
    cases q with
    | nil => rfl
    | cons t tail =>
      by_cases head : lower t = lower seg
      · have tails : tail.map lower ≠ rest.map lower := by
          intro equal
          exact other (by rw [map_cons, map_cons, head, equal])
        have inner := ih tails ((k.child seg).getD new)
        rw [stored, stored, node_cons, node_cons, child_walkMutCreate_same head, child_congr head]
        cases found : k.child seg with
        | some => simpa [found, stored] using inner
        | none =>
          rw [found, stored, stored] at inner
          cases tail <;> simpa [node_cons] using inner
      · rw [stored, stored, node_cons, node_cons, child_walkMutCreate_other head]

theorem AllNodes.at (fresh : P new) {k : RegistryKey} (all : AllNodes P k) (path : List Str) :
    P ((node path k).getD new) := by
  cases found : node path k with
  | none => exact fresh
  | some n => exact all path n found

/-- What one update asks of an invariant of all keys: that it holds at the key that is
edited, where no subkey may be new. -/
theorem AllNodes.walkMutCreate {path : List Str} (fresh : P new)
    (graft : ∀ n, ∀ seg ∈ path, ∀ g, P n → P { n with children := upsert lower seg g n.children })
    (within : ∀ n seg c, (f n).child seg = some c → n.child seg = some c) {k : RegistryKey}
    (all : AllNodes P k) (fits : P (f ((node path k).getD new))) :
    AllNodes P (walkMutCreate path f k) := by
  induction path generalizing k with
  | nil =>
    intro q n found
    cases q with
    | nil => exact some.inj found ▸ fits
    | cons t tail =>
      obtain ⟨c, child, below⟩ := bind_eq_some_iff.mp found
      apply all (t :: tail) n
      rw [node_cons, within k t c child]
      exact below
  | cons seg rest ih =>
    intro q n found
    cases q with
    | nil => exact some.inj found ▸ graft k seg mem_cons_self _ (all [] k rfl)
    | cons t tail =>
      by_cases head : lower t = lower seg
      · rw [node_cons, child_walkMutCreate_same head, bind_some] at found
        have below : AllNodes P ((k.child seg).getD new) := by
          cases inside : k.child seg with
          | some =>
            intro r m at_r
            exact all (seg :: r) m (by rw [node_cons, inside]; exact at_r)
          | none =>
            intro r m at_r
            exact node_new r m at_r ▸ fresh
        refine ih (fun n s mem => graft n s (mem_cons_of_mem _ mem)) below ?_ tail n found
        rw [node_cons] at fits
        cases inside : k.child seg with
        | some => simpa [inside] using fits
        | none => cases rest <;> simpa [inside, node_cons] using fits
      · rw [node_cons, child_walkMutCreate_other head] at found
        exact all (t :: tail) n found

theorem child_of_children_eq (keeps : ∀ n, (f n).children = n.children) (n : RegistryKey)
    (seg : Str) (c : RegistryKey) (found : (f n).child seg = some c) : n.child seg = some c := by
  rwa [child, keeps] at found

end RegistryKey

end Triskelion
