import Triskelion.LinkChain
import Triskelion.RunRules
import Triskelion.WindowTable

/-! Parent links of the window table. Nothing in `set_parent` or `create_window`
keeps a window from becoming its own ancestor; the theorems say which requests
close a cycle, and that without such a request every walk over the links ends. -/

namespace Triskelion.WindowTree

open LinkChain RunRules WindowServer List Table Option

/-- One step of a parent chain, ended by 0 or by a handle without window state. -/
def parentLink (s : WindowServer) (h : UInt32) : Option UInt32 :=
  (s.windowStates.get? h).bind fun ws => if ws.parent = 0 then none else some ws.parent

def Acyclic (s : WindowServer) : Prop := Grounded (parentLink s)

def Returns {α : Type} (f : Nat → Option α) : Prop := ∃ result bound, ∀ n ≥ bound, f n = some result

def WalksReturn (s : WindowServer) : Prop :=
  (∀ win, Returns fun fuel => s.getTopClippingWindow fuel win) ∧
  (∀ parent out, Returns fun fuel => s.collectWindowChildren fuel parent out) ∧
  ∀ parent x y chain, Returns fun fuel => s.childFromPoint fuel parent x y chain

variable {h parent : UInt32} {s : WindowServer} {entry : UInt32 × WindowState}

theorem parentLink_eq_some {p : UInt32} :
    parentLink s h = some p ↔ ∃ ws, s.windowStates.get? h = some ws ∧ ws.parent = p ∧ p ≠ 0 := by
  simp only [parentLink, bind_eq_some_iff, ite_none_left_eq_some, Option.some.injEq]
  constructor
  · rintro ⟨ws, found, nonzero, rfl⟩
    exact ⟨ws, found, rfl, nonzero⟩
  · rintro ⟨ws, found, rfl, nonzero⟩
    exact ⟨ws, found, nonzero, rfl⟩

variable {t : WindowServer}

theorem parentLink_congr (same : t.windowStates = s.windowStates) :
    parentLink t = parentLink s := by
  funext h
  rw [parentLink, parentLink, same]

/-! ### Allocation leaves the windows alone -/

def nextHandle (s : WindowServer) : UInt32 := handleOfIndex s.takeIndex.1

section
variable (s : WindowServer) (objType : UInt16) (tid pid : UInt32)

@[simp] theorem allocUserHandle_fst : (s.allocUserHandle objType tid pid).1 = nextHandle s := rfl

@[simp] theorem allocUserHandle_windowStates :
    (s.allocUserHandle objType tid pid).2.windowStates = s.windowStates := by
  unfold allocUserHandle takeIndex
  dsimp only
  split <;> rfl

@[simp] theorem ensureClassLocator_windowStates (atom : UInt32) :
    (s.ensureClassLocator atom).windowStates = s.windowStates := by
  rw [ensureClassLocator]
  split <;> rfl

@[simp] theorem allocUserHandle_desktopTopWindow :
    (s.allocUserHandle objType tid pid).2.desktopTopWindow = s.desktopTopWindow := by
  unfold allocUserHandle takeIndex
  dsimp only
  split <;> rfl

@[simp] theorem ensureClassLocator_desktopTopWindow (atom : UInt32) :
    (s.ensureClassLocator atom).desktopTopWindow = s.desktopTopWindow := by
  rw [ensureClassLocator]
  split <;> rfl

end

/-! ### What each request does to the links -/

theorem createWindow_windowStates (desktop : s.desktopTopWindow ≠ 0) (fd : Int32)
    (req : CreateWindowRequest) :
    (s.handleCreateWindow fd req).server.windowStates = s.windowStates.insert (nextHandle s)
      (s.newWindow req ((s.clientThreadId fd).getD 0)) := by
  simp [handleCreateWindow, desktop]

theorem parentLink_insert {ws : WindowState}
    (after : t.windowStates = s.windowStates.insert h ws) (x : UInt32) : parentLink t x =
      if x = h then (if ws.parent = 0 then none else some ws.parent) else parentLink s x := by
  rw [parentLink, after, get?_insert]
  split <;> rfl

/-- Linking `h` to `p` closes a cycle exactly when `h` is `p` or an ancestor of it. -/
theorem acyclic_insert_iff (ws : WindowState) (acyclic : Acyclic s)
    (after : t.windowStates = s.windowStates.insert h ws) :
    Acyclic t ↔ (ws.parent ≠ 0 → ¬ Reaches (parentLink s) ws.parent h) := by
  have link := parentLink_insert after
  have off : ∀ x, x ≠ h → parentLink t x = parentLink s x := fun x ne => by rw [link, if_neg ne]
  by_cases root : ws.parent = 0
  · have cut : ∀ x, parentLink t x = parentLink s x ∨ parentLink t x = none := by
      intro x
      rw [link]
      split
      · exact .inr rfl
      · exact .inl rfl
    exact iff_of_true (grounded_of_links_cut acyclic cut) fun nonzero => absurd root nonzero
  · have at_h : parentLink t h = some ws.parent := by rw [link, if_pos rfl, if_neg root]
    rw [Acyclic, grounded_relink_iff acyclic off at_h, imp_iff_right root]

theorem acyclic_of_links_cut (acyclic : Acyclic s)
    (cut : ∀ h, t.windowStates.get? h = s.windowStates.get? h ∨ t.windowStates.get? h = none) :
    Acyclic t := by
  refine grounded_of_links_cut acyclic fun h => ?_
  rcases cut h with same | gone
  · exact .inl (by rw [parentLink, same, parentLink])
  · exact .inr (by rw [parentLink, gone, bind_none])

def AcceptsParent (s : WindowServer) (parent : UInt32) : Prop :=
  parent = 0 ∨ parent = s.desktopTopWindow ∨ parent = s.desktopMsgWindow ∨
    s.windowStates.contains parent

variable {handle : UInt32}

theorem acyclic_setParent_iff (acyclic : Acyclic s) :
    Acyclic (s.handleSetParent handle parent).server ↔
      (AcceptsParent s parent → s.windowStates.contains handle → parent ≠ 0 →
        ¬ Reaches (parentLink s) parent handle) := by
  rw [handleSetParent]
  split
  · next refused =>
    refine iff_of_true acyclic fun accepts => ?_
    rcases accepts with zero | top | msg | known
    · exact absurd zero refused.1
    · exact absurd top refused.2.1
    · exact absurd msg refused.2.2.1
    · rw [refused.2.2.2] at known
      cases known
  · next granted =>
    have accepts : AcceptsParent s parent := by
      by_contra no
      simp only [AcceptsParent, not_or, Bool.not_eq_true] at no
      exact granted no
    rw [imp_iff_right accepts]
    cases found : s.windowStates.get? handle with
    | none =>
      have same : s.windowStates.modify handle (fun ws => { ws with parent }) = s.windowStates := by
        rw [Table.modify, found]
      rw [same]
      refine iff_of_true acyclic fun known => ?_
      rw [Table.contains, found] at known
      cases known
    | some ws =>
      have known : s.windowStates.contains handle := by rw [Table.contains, found]; rfl
      rw [imp_iff_right known]
      have moved : s.windowStates.modify handle (fun ws => { ws with parent }) =
          s.windowStates.insert handle { ws with parent } := by
        rw [Table.modify, found]
      exact acyclic_insert_iff { ws with parent } acyclic moved

def parentOf (s : WindowServer) (handle : UInt32) : UInt32 :=
  ((s.windowStates.get? handle).map (·.parent)).getD 0

theorem parentLink_destroyWindow {x : UInt32} (ne : x ≠ handle) :
    parentLink (s.handleDestroyWindow handle).server x = (s.windowStates.get? x).bind fun ws =>
        let parent := if ws.parent = handle then parentOf s handle else ws.parent
        if parent = 0 then none else some parent := by
  simp only [parentLink, handleDestroyWindow, get?_erase, if_neg ne, get?_mapValues,
    bind_map, Function.comp_def, parentOf]
  congr 1
  funext ws
  by_cases child : ws.parent = handle <;> simp [child]

theorem parentLink_destroyWindow_self :
    parentLink (s.handleDestroyWindow handle).server handle = none := by
  simp [parentLink, handleDestroyWindow, get?_erase]

theorem parentLink_destroyWindow_other {x : UInt32} (ne : x ≠ handle)
    (apart : ∀ ws, s.windowStates.get? x = some ws → ws.parent = handle → parentOf s handle = handle) :
    parentLink (s.handleDestroyWindow handle).server x = parentLink s x := by
  rw [parentLink_destroyWindow ne, parentLink]
  cases found : s.windowStates.get? x with
  | none => rfl
  | some ws =>
    by_cases child : ws.parent = handle
    · simp [child, apart ws found child]
    · simp [child]

/-- The children of a destroyed window go to its parent: the window is spliced
out of every chain. -/
theorem acyclic_destroyWindow (acyclic : Acyclic s) (noZero : s.windowStates.get? 0 = none)
    : Acyclic (s.handleDestroyWindow handle).server := by
  refine grounded_splice acyclic parentLink_destroyWindow_self ?_ ?_
  · intro x ne linked
    obtain ⟨ws, found, child, -⟩ := parentLink_eq_some.mp linked
    rw [parentLink_destroyWindow ne, found, bind_some, if_pos child, parentLink, parentOf]
    cases s.windowStates.get? handle <;> simp
  · intro x ne apart
    refine parentLink_destroyWindow_other ne fun ws found child => ?_
    have zero : handle = 0 := by
      by_contra nonzero
      exact apart (parentLink_eq_some.mpr ⟨ws, found, child, nonzero⟩)
    rw [zero, parentOf, noZero]
    rfl

theorem acyclic_freeUserHandle (acyclic : Acyclic s) :
    Acyclic (s.handleFreeUserHandle handle).server := by
  rw [handleFreeUserHandle]
  split
  · exact acyclic
  split
  · exact acyclic
  refine acyclic_of_links_cut acyclic fun h => ?_
  simp only [get?_erase]
  split
  · exact .inr rfl
  · exact .inl rfl

theorem acyclic_disconnectClient (acyclic : Acyclic s) (fd : Int32) :
    Acyclic (s.disconnectClient fd) := by
  simp only [disconnectClient]
  split
  · split
    · refine acyclic_of_links_cut acyclic fun h => ?_
      simp only [buryProcess, get?_retain]
      cases s.windowStates.get? h with
      | none => exact .inl rfl
      | some =>
        rw [filter_some]
        split
        · exact .inl rfl
        · exact .inr rfl
    · exact acyclic
  · exact acyclic

/-! ### The walks over the links -/

theorem Returns.of_mono {α : Type} {f : Nat → Option α} {n : Nat}
    (mono : ∀ n result, f n = some result → f (n + 1) = some result) (ends : f n ≠ none) :
    Returns f := by
  obtain ⟨result, h⟩ := ne_none_iff_exists'.mp ends
  refine ⟨result, n, fun m le => ?_⟩
  induction m, le using Nat.le_induction with
  | base => exact h
  | succ m _ ih => exact mono m result ih

def windowCount (s : WindowServer) : Nat := s.windowStates.entries.length

theorem climb_windowCount (acyclic : Acyclic s) :
    climb (parentLink s) (windowCount s + 1) h = none := by
  have cover : ∀ x, parentLink s x ≠ none → x ∈ s.windowStates.entries.map Prod.fst := by
    intro x linked
    obtain ⟨p, hp⟩ := ne_none_iff_exists'.mp linked
    obtain ⟨ws, found, -⟩ := parentLink_eq_some.mp hp
    exact mem_map.mpr ⟨(x, ws), (mem_entries _ _ _).mpr found, rfl⟩
  have bound := climb_length_none acyclic cover h
  rwa [length_map] at bound

theorem getTopClippingWindow_mono (fuel : Nat) (win result : UInt32)
    (h : s.getTopClippingWindow fuel win = some result) :
    s.getTopClippingWindow (fuel + 1) win = some result := by
  induction fuel generalizing win with
  | zero => simp [getTopClippingWindow] at h
  | succ fuel ih =>
    rw [getTopClippingWindow] at h ⊢
    cases found : s.windowStates.get? win with
    | none => simpa [found] using h
    | some =>
      simp only [found] at h ⊢
      split at h
      · next surface => rwa [if_pos surface]
      split at h
      · next bare top => rwa [if_neg bare, if_pos top]
      · next bare under => rw [if_neg bare, if_neg under, ih _ h]

theorem getTopClippingWindow_ends {fuel : Nat} {win : UInt32}
    (h : climb (parentLink s) fuel win = none) : s.getTopClippingWindow fuel win ≠ none := by
  induction fuel generalizing win with
  | zero => simp [climb] at h
  | succ fuel ih =>
    rw [getTopClippingWindow]
    cases found : s.windowStates.get? win with
    | none => simp
    | some ws =>
      dsimp only
      split
      · simp
      split
      · simp
      · next stay =>
        have nonzero : ws.parent ≠ 0 := fun zero => stay (.inl zero)
        refine ih ?_
        rwa [climb_succ_some (parentLink_eq_some.mpr ⟨ws, found, rfl, nonzero⟩)] at h

theorem foldlM_some_of_imp {α β : Type} {f g : β → α → Option β}
    (imp : ∀ b a c, f b a = some c → g b a = some c) (l : List α) (b c : β)
    (h : l.foldlM f b = some c) : l.foldlM g b = some c := by
  induction l generalizing b with
  | nil => exact h
  | cons a rest ih =>
    obtain ⟨d, first, rest_⟩ := bind_eq_some_iff.mp h
    exact bind_eq_some_iff.mpr ⟨d, imp b a d first, ih d rest_⟩

theorem foldlM_ne_none {α β : Type} {f : β → α → Option β} (l : List α)
    (total : ∀ a ∈ l, ∀ b, f b a ≠ none) (b : β) : l.foldlM f b ≠ none := by
  induction l generalizing b with
  | nil => simp
  | cons a rest ih =>
    obtain ⟨d, first⟩ := ne_none_iff_exists'.mp (total a mem_cons_self b)
    rw [foldlM_cons, first]
    exact ih (fun x mem => total x (mem_cons_of_mem _ mem)) d

theorem collectWindowChildren_mono (s : WindowServer) (fuel : Nat) (parent : UInt32)
    (out result : List UInt32) (h : s.collectWindowChildren fuel parent out = some result) :
    s.collectWindowChildren (fuel + 1) parent out = some result := by
  induction fuel generalizing parent out result with
  | zero => simp [collectWindowChildren] at h
  | succ fuel ih =>
    refine foldlM_some_of_imp (fun out entry next one => ?_) _ _ _ h
    split at one
    · next child => rw [if_pos child, ih _ _ _ one]
    · next other => rw [if_neg other, one]

theorem climb_child {k : Nat} (deep : climb (parentLink s) k parent ≠ none)
    (mem : entry ∈ s.windowStates.entries) (child : entry.2.parent = parent) (nonzero : parent ≠ 0) :
    climb (parentLink s) (k + 1) entry.1 ≠ none := by
  have found := (mem_entries _ _ _).mp mem
  rwa [climb_succ_some (parentLink_eq_some.mpr ⟨entry.2, found, child, nonzero⟩)]

theorem entry_nonzero (noZero : s.windowStates.get? 0 = none) (mem : entry ∈ s.windowStates.entries) :
    entry.1 ≠ 0 := by
  intro zero
  have found := (mem_entries _ _ _).mp mem
  rw [zero, noZero] at found
  cases found

theorem childFromPoint_mono (s : WindowServer) (fuel : Nat) (parent : UInt32) (x y : Int32)
    (chain result : List UInt32) (h : s.childFromPoint fuel parent x y chain = some result) :
    s.childFromPoint (fuel + 1) parent x y chain = some result := by
  induction fuel generalizing parent x y chain with
  | zero => simp [childFromPoint] at h
  | succ fuel ih =>
    rw [childFromPoint] at h ⊢
    cases found : s.childAt parent x y with
    | none => simpa [found] using h
    | some =>
      simp only [found] at h ⊢
      exact ih _ _ _ _ h

theorem childAt_spec {x y : Int32} (h : s.childAt parent x y = some entry) :
    entry ∈ s.windowStates.entries ∧ entry.2.parent = parent := by
  refine ⟨mem_of_find?_eq_some h, ?_⟩
  have hit := find?_some h
  simp only [decide_eq_true_eq] at hit
  exact hit.1

section
variable (acyclic : Acyclic s) (noZero : s.windowStates.get? 0 = none)
include acyclic noZero

/-- The invariant of the two descents: a call that stands `k` links below the
end of its chain has fuel for the rest of the longest chain. -/
theorem collectWindowChildren_ends {fuel k : Nat} (enough : windowCount s + 1 ≤ fuel + k) (nonzero : parent ≠ 0)
    (deep : climb (parentLink s) k parent ≠ none) (out : List UInt32) :
    s.collectWindowChildren fuel parent out ≠ none := by
  induction fuel generalizing k parent out with
  | zero => exact absurd (climb_none_mono (climb_windowCount acyclic) (by omega)) deep
  | succ fuel ih =>
    refine foldlM_ne_none _ (fun entry mem out => ?_) out
    split
    · next child =>
      exact ih (k := k + 1) (by omega) (entry_nonzero noZero mem)
        (climb_child deep mem child.1 nonzero) _
    · simp

theorem collectWindowChildren_returns (parent : UInt32) (out : List UInt32) :
    s.collectWindowChildren (windowCount s + 2) parent out ≠ none := by
  refine foldlM_ne_none _ (fun entry mem out => ?_) out
  split
  · exact collectWindowChildren_ends acyclic noZero (k := 0) (by omega)
      (entry_nonzero noZero mem) (by simp [climb]) _
  · simp

theorem childFromPoint_ends {fuel k : Nat} (enough : windowCount s + 1 ≤ fuel + k) (nonzero : parent ≠ 0)
    (deep : climb (parentLink s) k parent ≠ none) (x y : Int32) (chain : List UInt32) :
    s.childFromPoint fuel parent x y chain ≠ none := by
  induction fuel generalizing k parent x y chain with
  | zero => exact absurd (climb_none_mono (climb_windowCount acyclic) (by omega)) deep
  | succ fuel ih =>
    rw [childFromPoint]
    cases found : s.childAt parent x y with
    | none => simp
    | some =>
      obtain ⟨mem, child⟩ := childAt_spec found
      exact ih (k := k + 1) (by omega) (entry_nonzero noZero mem)
        (climb_child deep mem child nonzero) _ _ _

theorem childFromPoint_returns (parent : UInt32) (x y : Int32) (chain : List UInt32) :
    s.childFromPoint (windowCount s + 2) parent x y chain ≠ none := by
  rw [childFromPoint]
  cases found : s.childAt parent x y with
  | none => simp
  | some =>
    exact childFromPoint_ends acyclic noZero (k := 0) (by omega)
      (entry_nonzero noZero (childAt_spec found).1) (by simp [climb]) _ _ _

theorem walksReturn_of_acyclic : WalksReturn s :=
  ⟨fun win => .of_mono (fun n r => getTopClippingWindow_mono n win r)
      (getTopClippingWindow_ends (climb_windowCount acyclic)),
    fun parent out => .of_mono (fun n r => collectWindowChildren_mono s n parent out r)
      (collectWindowChildren_returns acyclic noZero parent out),
    fun parent x y chain => .of_mono (fun n r => childFromPoint_mono s n parent x y chain r)
      (childFromPoint_returns acyclic noZero parent x y chain)⟩

end

/-! ### Runs -/

/-- What holds along a run without cycles: handle 0 names no window and the
desktop of the start is there. -/
structure Sound (s : WindowServer) : Prop where
  acyclic : Acyclic s
  noZero : s.windowStates.get? 0 = none
  desktop : s.desktopTopWindow ≠ 0

/-- The requests that do not close a cycle: a window is linked only to a parent
whose chain does not contain it. -/
def LinkSafe (s : WindowServer) : WindowRequest → Prop
  | .createWindow _ req =>
    s.replyParent req ≠ 0 → ¬ Reaches (parentLink s) (s.replyParent req) (nextHandle s)
  | .setParent handle parent =>
    AcceptsParent s parent → s.windowStates.contains handle → parent ≠ 0 →
      ¬ Reaches (parentLink s) parent handle
  | _ => True

/-- Handle 0 is handed out only when the index counter has come to `2 ^ 31 - 16`. -/
def HandleFits (s : WindowServer) : WindowRequest → Prop
  | .createWindow _ _ => nextHandle s ≠ 0
  | _ => True

variable {request : WindowRequest}

theorem acyclic_step_iff (sound : Sound s) : Acyclic (s.step request) ↔ LinkSafe s request := by
  cases request with
  | createWindow fd req =>
    exact acyclic_insert_iff _ sound.acyclic (createWindow_windowStates sound.desktop fd req)
  | setParent handle parent => exact acyclic_setParent_iff sound.acyclic
  | destroyWindow handle =>
    exact iff_of_true (acyclic_destroyWindow sound.acyclic sound.noZero) trivial
  | allocUserHandle fd =>
    have same := parentLink_congr (allocUserHandle_windowStates s 1 ((s.clientThreadId fd).getD 0)
      (s.clientPid fd))
    exact iff_of_true (show Grounded _ from same ▸ sound.acyclic) trivial
  | freeUserHandle handle => exact iff_of_true (acyclic_freeUserHandle sound.acyclic) trivial
  | disconnect fd => exact iff_of_true (acyclic_disconnectClient sound.acyclic fd) trivial
  | elsewhere => exact iff_of_true sound.acyclic trivial

theorem get?_none_of_step (absent : s.windowStates.get? h = none) (desktop : s.desktopTopWindow ≠ 0)
    (fresh : ∀ fd req, request = .createWindow fd req → nextHandle s ≠ h) :
    (s.step request).windowStates.get? h = none := by
  cases request with
  | createWindow fd req =>
    rw [step, handle, createWindow_windowStates desktop, get?_insert,
      if_neg (Ne.symm (fresh fd req rfl)), absent]
  | setParent =>
    simp only [step, handle, handleSetParent]
    split
    · exact absent
    · rw [get?_modify]
      split
      · next same => rw [← same, absent, map_none]
      · exact absent
  | destroyWindow =>
    simp [step, handle, handleDestroyWindow, get?_erase, get?_mapValues, absent]
  | allocUserHandle =>
    exact (congrArg (Table.get? · h) (allocUserHandle_windowStates s _ _ _)).trans absent
  | freeUserHandle =>
    simp only [step, handle, handleFreeUserHandle]
    split
    · exact absent
    split
    · exact absent
    · rw [get?_erase, absent, ite_self]
  | disconnect =>
    simp only [step, handle, disconnectClient]
    split
    · split
      · simp [buryProcess, get?_retain, absent]
      · exact absent
    · exact absent
  | elsewhere => exact absent

theorem desktopTopWindow_step (desktop : s.desktopTopWindow ≠ 0) (request : WindowRequest) :
    (s.step request).desktopTopWindow = s.desktopTopWindow := by
  cases request with
  | createWindow => simp [step, handle, handleCreateWindow, desktop]
  | setParent =>
    simp only [step, handle, handleSetParent]
    split <;> rfl
  | destroyWindow | elsewhere => rfl
  | allocUserHandle => exact allocUserHandle_desktopTopWindow s _ _ _
  | freeUserHandle =>
    simp only [step, handle, handleFreeUserHandle]
    split
    · rfl
    split <;> rfl
  | disconnect =>
    simp only [step, handle, disconnectClient]
    split
    · split <;> rfl
    · rfl

theorem sound_step (sound : Sound s) (fits : HandleFits s request)
    (safe : LinkSafe s request) : Sound (s.step request) where
  acyclic := (acyclic_step_iff sound).mpr safe
  noZero := by
    refine get?_none_of_step sound.noZero sound.desktop ?_
    rintro fd req rfl
    exact fits
  desktop := by
    rw [desktopTopWindow_step sound.desktop request]
    exact sound.desktop

section
variable (around : Surroundings) (desktopRect : Rect) (sharedBase : Nat)
include around desktopRect

theorem sound_startup : Sound (startup around desktopRect sharedBase) := by
  have windows : (startup around desktopRect sharedBase).windowStates =
      (Table.empty.insert 0x20 (rootWindow 0x96000000 0 desktopRect)).insert 0x22
        (rootWindow 0 0 Rect.zero) := rfl
  refine ⟨fun h => .of_next_none ?_, ?_, ?_⟩
  · rw [parentLink, windows, get?_insert, get?_insert]
    split
    · rfl
    split <;> rfl
  · rfl
  · exact (by decide : (0x20 : UInt32) ≠ 0)

/-- Along a run that never comes to handle 0, every chain of parents is finite
and every walk over the links returns, in every state reached, exactly when each
`create_window` and `set_parent` links a window outside its own ancestors. -/
theorem run_acyclic_iff (requests : List WindowRequest)
    (fits : AllSteps step HandleFits (startup around desktopRect sharedBase) requests) :
    (∀ s ∈ states step (startup around desktopRect sharedBase) requests,
      Acyclic s ∧ WalksReturn s) ↔
      AllSteps step LinkSafe (startup around desktopRect sharedBase) requests := by
  refine observed_iff_allSteps Sound HandleFits ?_ ?_ ?_
    (sound_startup around desktopRect sharedBase) fits
  · exact fun s sound => ⟨sound.acyclic, walksReturn_of_acyclic sound.acyclic sound.noZero⟩
  · exact fun s request sound fit safe => sound_step sound fit safe
  · exact fun s request sound _ wrong seen => wrong ((acyclic_step_iff sound).mp seen.1)

end

/-- One client and one class, with the atom 1. -/
def oneClient : Surroundings :=
  { clients := Table.empty.insert 3 ⟨32, 40⟩, processes := .empty, threads := .empty
    atomNames := .empty, classLocators := .empty, classClientPtrs := Table.empty.insert 1 0x7000
    classWinExtra := .empty, monitorRect := Rect.zero, sessionFd := -1 }

def plainWindow (parent : UInt32) : WindowRequest :=
  .createWindow 3
    { owner := 0, parent, atom := 1, style := 0, exStyle := 0, dpiContext := 0, inst := 0, name := [] }

def freshServer : WindowServer := startup oneClient Rect.zero 0

theorem run_acyclic_two_windows :
    AllSteps step HandleFits freshServer [plainWindow 0, plainWindow 0x24] ∧
    ((∀ s ∈ states step freshServer [plainWindow 0, plainWindow 0x24], Acyclic s ∧ WalksReturn s) ↔
      AllSteps step LinkSafe freshServer [plainWindow 0, plainWindow 0x24]) := by
  have fits : AllSteps step HandleFits freshServer [plainWindow 0, plainWindow 0x24] :=
    ⟨(by decide : nextHandle freshServer ≠ 0),
      (by decide : nextHandle (freshServer.step (plainWindow 0)) ≠ 0), trivial⟩
  exact ⟨fits, run_acyclic_iff oneClient Rect.zero 0 _ fits⟩

def crossParents : List WindowRequest :=
  [plainWindow 0, plainWindow 0, .setParent 0x24 0x26, .setParent 0x26 0x24]

theorem crossParents_cycle : ¬ Acyclic (run step freshServer crossParents) ∧
      ∀ fuel, (run step freshServer crossParents).getTopClippingWindow fuel 0x24 = none := by
  constructor
  · intro acyclic
    have turn : climb (parentLink (run step freshServer crossParents)) 2 0x24 = some 0x24 := by
      decide
    exact not_ends_of_cycle turn (acyclic 0x24)
  · have both : ∀ fuel, (run step freshServer crossParents).getTopClippingWindow fuel 0x24 = none ∧
        (run step freshServer crossParents).getTopClippingWindow fuel 0x26 = none := by
      intro fuel
      induction fuel with
      | zero => exact ⟨rfl, rfl⟩
      | succ fuel ih => exact ⟨ih.2, ih.1⟩
    exact fun fuel => (both fuel).1

end Triskelion.WindowTree
