import Triskelion.WindowTree
import Mathlib.Data.List.Iterate

/-! The neighbours of a window (`get_window_tree` of `event_loop/window.rs`). They are read
off the order in which the table is walked, which stays while the table does. -/

namespace Triskelion.WindowServer

open List WindowTree

structure WindowTreeReply where
  parent : UInt32
  owner : UInt32
  nextSibling : UInt32
  prevSibling : UInt32
  firstSibling : UInt32
  lastSibling : UInt32
  firstChild : UInt32
  lastChild : UInt32
deriving DecidableEq

def childrenOf (s : WindowServer) (parent : UInt32) : List UInt32 :=
  (s.windowStates.entries.filter fun e => e.2.parent = parent ∧ e.1 ≠ parent).map Prod.fst

def handleGetWindowTree (s : WindowServer) (handle : UInt32) : WindowTreeReply :=
  let links := ((s.windowStates.get? handle).map fun ws => (ws.parent, ws.owner)).getD (0, 0)
  let siblings := if links.1 ≠ 0 then s.childrenOf links.1 else []
  let position := siblings.findIdx? (· == handle)
  let children := s.childrenOf handle
  { parent := links.1
    owner := links.2
    nextSibling := (position.bind fun i => siblings[i + 1]?).getD 0
    prevSibling := (position.bind fun i => if 0 < i then siblings[i - 1]? else none).getD 0
    firstSibling := siblings.head?.getD 0
    lastSibling := siblings.getLast?.getD 0
    firstChild := children.head?.getD 0
    lastChild := children.getLast?.getD 0 }

variable {s : WindowServer} {parent handle : UInt32}

theorem nodup_childrenOf (s : WindowServer) (parent : UInt32) : (s.childrenOf parent).Nodup :=
  s.windowStates.nodup.sublist (filter_sublist.map _)

theorem handleGetWindowTree_child (nonzero : parent ≠ 0) {i : Nat}
    (at_i : (s.childrenOf parent)[i]? = some handle) :
    let reply := s.handleGetWindowTree handle
    reply.nextSibling = (s.childrenOf parent)[i + 1]?.getD 0 ∧
      reply.prevSibling = (if 0 < i then (s.childrenOf parent)[i - 1]? else none).getD 0 ∧
      reply.firstSibling = (s.childrenOf parent).head?.getD 0 ∧
      reply.lastSibling = (s.childrenOf parent).getLast?.getD 0 := by
  obtain ⟨bound, here⟩ := List.getElem?_eq_some_iff.mp at_i
  have listed := here ▸ getElem_mem bound
  obtain ⟨ws, found, below, -⟩ : ∃ ws, s.windowStates.get? handle = some ws ∧
      ws.parent = parent ∧ handle ≠ parent := by
    simpa [childrenOf, Table.mem_entries] using listed
  have position : (s.childrenOf parent).findIdx? (· == handle) = some i := by
    refine findIdx?_eq_some_iff_getElem.mpr ⟨bound, by simp [here], fun j less => ?_⟩
    rw [← here, beq_iff_eq, (nodup_childrenOf s parent).getElem_inj_iff]
    exact Nat.ne_of_lt less
  simp [handleGetWindowTree, found, below, nonzero, position]

/-- A list in which each element leads to the next is what following it visits. -/
theorem iterate_of_steps {α : Type*} {f : α → α} {a : α} {l : List α} (first : l.head? = some a)
    (steps : ∀ i x y, l[i]? = some x → l[i + 1]? = some y → f x = y) :
    iterate f a l.length = l := by
  induction l generalizing a with
  | nil => cases first
  | cons b rest ih =>
    cases first
    cases rest with
    | nil => rfl
    | cons c more =>
      have next := steps 0 b c rfl rfl
      rw [length_cons, iterate, next]
      exact congrArg (b :: ·) (ih rfl fun i x y at_i at_next => steps (i + 1) x y at_i at_next)

/-- Following `next_sibling` from the first sibling that any child reports visits the
children of the parent, each once, and ends at the last sibling; `prev_sibling` leads back; and
the parent reports the same ends. -/
theorem siblings_enumerated (s : WindowServer) {parent child : UInt32} (nonzero : parent ≠ 0)
    (isChild : child ∈ s.childrenOf parent) :
    let tree := s.handleGetWindowTree
    let next := fun h => (tree h).nextSibling
    let prev := fun h => (tree h).prevSibling
    let first := (tree child).firstSibling
    let last := (tree child).lastSibling
    (∃ n, iterate next first n = s.childrenOf parent) ∧ (s.childrenOf parent).Nodup ∧
      (s.childrenOf parent).getLast? = some last ∧ next last = 0 ∧ prev first = 0 ∧
      (∀ h ∈ s.childrenOf parent, h ≠ last → next h ∈ s.childrenOf parent ∧ prev (next h) = h) ∧
      (∀ h ∈ s.childrenOf parent, h ≠ first → prev h ∈ s.childrenOf parent ∧ next (prev h) = h) ∧
      (tree parent).firstChild = first ∧ (tree parent).lastChild = last := by
  intro tree next prev first last
  have forth {i : Nat} {x y : UInt32} (at_i : (s.childrenOf parent)[i]? = some x)
      (at_next : (s.childrenOf parent)[i + 1]? = some y) : next x = y := by
    simpa [at_next] using (handleGetWindowTree_child nonzero at_i).1
  have back {i : Nat} {x y : UInt32} (at_i : (s.childrenOf parent)[i]? = some x)
      (at_next : (s.childrenOf parent)[i + 1]? = some y) : prev y = x := by
    simpa [at_i] using (handleGetWindowTree_child nonzero at_next).2.1
  obtain ⟨at_child, here⟩ := mem_iff_getElem?.mp isChild
  obtain ⟨-, -, firsts, lasts⟩ := handleGetWindowTree_child nonzero here
  have inhabited := ne_nil_of_mem isChild
  have first_eq : (s.childrenOf parent).head? = some first := by
    rw [show first = _ from firsts, head?_eq_some_head inhabited]
    rfl
  have last_eq : (s.childrenOf parent).getLast? = some last := by
    rw [show last = _ from lasts, getLast?_eq_some_getLast inhabited]
    rfl
  have at_first := head?_eq_getElem?.symm.trans first_eq
  have at_last := getLast?_eq_getElem?.symm.trans last_eq
  refine ⟨⟨_, iterate_of_steps first_eq fun i x y => forth⟩, nodup_childrenOf s parent, last_eq,
    ?_, ?_, fun h mem other => ?_, fun h mem other => ?_, firsts.symm, lasts.symm⟩
  · rw [show next last = _ from (handleGetWindowTree_child nonzero at_last).1,
      getElem?_eq_none (by omega)]
    rfl
  · simpa using (handleGetWindowTree_child nonzero at_first).2.1
  · obtain ⟨i, bound, rfl⟩ := mem_iff_getElem.mp mem
    have more : i + 1 < (s.childrenOf parent).length := by
      by_contra least
      have equal : (s.childrenOf parent).length - 1 = i := by omega
      rw [equal, getElem?_eq_getElem bound] at at_last
      exact other (Option.some.inj at_last)
    rw [forth (getElem?_eq_getElem bound) (getElem?_eq_getElem more)]
    exact ⟨getElem_mem more, back (getElem?_eq_getElem bound) (getElem?_eq_getElem more)⟩
  · obtain ⟨i, bound, rfl⟩ := mem_iff_getElem.mp mem
    cases i with
    | zero => exact absurd (Option.some.inj ((getElem?_eq_getElem bound).symm.trans at_first)) other
    | succ i =>
      have less := Nat.lt_of_succ_lt bound
      rw [back (getElem?_eq_getElem less) (getElem?_eq_getElem bound)]
      exact ⟨getElem_mem less, forth (getElem?_eq_getElem less) (getElem?_eq_getElem bound)⟩

/-- Two windows below window 0x24. -/
theorem two_siblings_enumerated :
    let s := RunRules.run step freshServer
      [plainWindow 0, plainWindow 0x24, plainWindow 0x24]
    0x26 ∈ s.childrenOf 0x24 ∧
      (s.handleGetWindowTree 0x24).lastChild = (s.handleGetWindowTree 0x26).lastSibling := by
  intro s
  have isChild : 0x26 ∈ s.childrenOf 0x24 := by decide
  have nonzero : (0x24 : UInt32) ≠ 0 := by decide
  obtain ⟨-, -, -, -, -, -, -, -, lasts⟩ := siblings_enumerated s nonzero isChild
  exact ⟨isChild, lasts⟩

end Triskelion.WindowServer
