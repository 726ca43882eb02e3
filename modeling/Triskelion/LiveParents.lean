import Triskelion.WindowTree

/-! Windows whose parent is gone. `create_window` takes any parent it is given,
`free_user_handle` and the end of a process take windows away without looking at their
children, and a handle that was given back names the next window.

Every window gets a number when it enters the table, and every link the number that the
parent had when the link was set; neither is in the code. -/

namespace Triskelion.LiveParents

open RunRules WindowServer WindowTree Table

/-- The server, the number of the next window, the number of every window, and the number of
the window that a link was set to. -/
structure WindowRun where
  server : WindowServer
  births : Nat
  life : UInt32 → Nat
  tie : UInt32 → Option Nat

section
variable (s : WindowServer)

def born : WindowRequest → List UInt32
  | .createWindow fd req => (s.handleCreateWindow fd req).allocated
  | _ => []

def links : WindowRequest → UInt32 → Prop
  | .createWindow fd req, h => h ∈ (s.handleCreateWindow fd req).allocated
  | .setParent handle parent, h => h = handle ∧ AcceptsParent s parent
  | .destroyWindow handle, h => parentOf s h = handle
  | _, _ => False

instance decidableLinks (s : WindowServer) :
    (request : WindowRequest) → (h : UInt32) → Decidable (links s request h)
  | .createWindow fd req, h =>
    inferInstanceAs (Decidable (h ∈ (s.handleCreateWindow fd req).allocated))
  | .setParent handle parent, h =>
    inferInstanceAs (Decidable (h = handle ∧ (parent = 0 ∨ parent = s.desktopTopWindow ∨
      parent = s.desktopMsgWindow ∨ s.windowStates.contains parent)))
  | .destroyWindow handle, h => inferInstanceAs (Decidable (parentOf s h = handle))
  | .allocUserHandle _, _ | .freeUserHandle _, _ | .disconnect _, _ | .elsewhere _, _ =>
    .isFalse id

def lifeIn (life : UInt32 → Nat) (h : UInt32) : Option Nat :=
  if s.windowStates.contains h then some (life h) else none

end

namespace WindowRun

def step (r : WindowRun) (request : WindowRequest) : WindowRun :=
  let after := r.server.step request
  let life h := if h ∈ born r.server request then r.births else r.life h
  { server := after
    births := r.births + 1
    life
    tie := fun h =>
      if links r.server request h then lifeIn after life (parentOf after h) else r.tie h }

def start (server : WindowServer) : WindowRun := ⟨server, 1, fun _ => 0, fun _ => none⟩

/-- Every parent but 0 is in the table, and it is the window that the link was set to. -/
def Live (r : WindowRun) : Prop :=
  ∀ h p, parentLink r.server h = some p →
    r.server.windowStates.contains p ∧ r.tie h = some (r.life p)

theorem live_iff_entries (r : WindowRun) :
    r.Live ↔ ∀ e ∈ r.server.windowStates.entries, e.2.parent = 0 ∨
      r.server.windowStates.contains e.2.parent ∧ r.tie e.1 = some (r.life e.2.parent) := by
  constructor
  · intro live e mem
    refine or_iff_not_imp_left.mpr fun nonzero => live e.1 e.2.parent ?_
    exact parentLink_eq_some.mpr
      ⟨e.2, (mem_entries _ e.1 e.2).mp mem, rfl, nonzero⟩
  · intro all h p linked
    obtain ⟨ws, found, rfl, nonzero⟩ := parentLink_eq_some.mp linked
    exact (all (h, ws) ((mem_entries _ h ws).mpr found)).resolve_left nonzero

instance decidableLive (r : WindowRun) : Decidable r.Live :=
  decidable_of_iff _ r.live_iff_entries.symm

end WindowRun

/-! ### The requests that keep parents alive -/

section
variable (s : WindowServer)

def childless (handle : UInt32) : Bool :=
  s.windowStates.entries.all fun e => e.1 = handle ∨ e.2.parent ≠ handle

def doomed (fd : Int32) : List UInt32 :=
  let client := (s.clients.get? fd).getD ⟨0, 0⟩
  let others := { s with clients := s.clients.erase fd }
  let left := (s.processes.get? client.processId).map
    (others.remainingThreads client.processId client.threadId)
  if (client.processId ≠ 0 ∧ client.threadId ≠ 0) ∧ left.getD [] = [] then
    (s.threads.entries.filter fun t => t.2 = client.processId).map (·.1)
  else []

/-- A new window gets a parent that is there and a handle that no window has as its parent, and
no window goes before its children, unless it leaves them to a parent of its own. -/
def sustains : WindowRequest → Bool
  | .createWindow _ req =>
    (s.replyParent req = 0 ∨ s.replyParent req = nextHandle s ∨
      s.windowStates.contains (s.replyParent req)) ∧
    (nextHandle s = 0 ∨ childless s (nextHandle s))
  | .setParent handle parent =>
    ¬ s.windowStates.contains handle ∨ parent = 0 ∨ s.windowStates.contains parent ∨
      parent ≠ s.desktopTopWindow ∧ parent ≠ s.desktopMsgWindow
  | .destroyWindow handle => handle = 0 ∨ parentOf s handle ≠ handle ∨ childless s handle
  | .freeUserHandle handle =>
    handle < firstUserHandle ∨ s.nextUserHandleIndex ≤ indexOfHandle handle ∨ childless s handle
  | .disconnect fd => s.windowStates.entries.all fun e =>
      e.2.tid ∈ doomed s fd ∨ e.2.parent = 0 ∨
        (s.windowStates.get? e.2.parent).all fun parent => parent.tid ∉ doomed s fd
  | _ => true

end

variable {handle : UInt32}

theorem childless_iff (s : WindowServer) (nonzero : handle ≠ 0) :
    childless s handle ↔ ∀ h, parentLink s h = some handle → h = handle := by
  rw [childless, all_entries_iff]
  simp only [decide_eq_true_eq, parentLink_eq_some]
  constructor
  · rintro all h ⟨ws, found, parent, -⟩
    exact (all h ws found).resolve_right (absurd parent)
  · intro only h ws found
    exact or_iff_not_imp_right.mpr fun parent => only h ⟨ws, found, not_not.mp parent, nonzero⟩

variable {s : WindowServer} {request : WindowRequest}

variable {t : WindowServer}

theorem parentLink_of_get? {h : UInt32}
    (same : t.windowStates.get? h = s.windowStates.get? h) : parentLink t h = parentLink s h := by
  rw [parentLink, same, parentLink]

theorem parentOf_of_parentLink {h p : UInt32} (linked : parentLink s h = some p) :
    parentOf s h = p := by
  obtain ⟨ws, found, rfl, -⟩ := parentLink_eq_some.mp linked
  rw [parentOf, found]
  rfl

theorem handleSetParent_of_refused {parent : UInt32} (refused : ¬ AcceptsParent s parent) :
    (s.handleSetParent handle parent).server = s := by
  simp only [AcceptsParent, not_or, Bool.not_eq_true] at refused
  rw [handleSetParent, if_pos refused]

theorem windowStates_setParent {parent : UInt32} (accepts : AcceptsParent s parent) :
    (s.handleSetParent handle parent).server.windowStates =
      s.windowStates.modify handle fun ws => { ws with parent } := by
  rw [handleSetParent, if_neg]
  rintro ⟨nonzero, top, msg, unknown⟩
  rcases accepts with zero | isTop | isMsg | known
  · exact nonzero zero
  · exact top isTop
  · exact msg isMsg
  · exact absurd known (by simp [unknown])

theorem get?_disconnectClient (s : WindowServer) (fd : Int32) (h : UInt32) :
    (s.disconnectClient fd).windowStates.get? h =
      (s.windowStates.get? h).filter fun ws => ws.tid ∉ doomed s fd := by
  have all : ∀ found : Option WindowState,
      (found.filter fun ws => ws.tid ∉ ([] : List UInt32)) = found := by
    intro found
    cases found <;> simp [Option.filter_some]
  rw [disconnectClient, doomed]
  dsimp only
  split
  next named =>
    rw [get?_modify, if_pos rfl]
    split
    next ends =>
      rw [if_pos ⟨named, ends⟩]
      exact get?_retain _ _ h
    next lives => rw [if_neg fun both => lives both.2, all]
  next unnamed => rw [if_neg fun both => unnamed both.1, all]

/-! ### One step -/

structure Good (r : WindowRun) : Prop where
  live : r.Live
  desktop : r.server.desktopTopWindow ≠ 0
  fresh : ∀ h, r.life h < r.births

variable {req : CreateWindowRequest}

theorem allocated_createWindow (desktop : s.desktopTopWindow ≠ 0) (fd : Int32)
    : (s.handleCreateWindow fd req).allocated = [nextHandle s] := by
  simp [handleCreateWindow, desktop]

theorem parentLink_of_cut {h p : UInt32}
    (cut : t.windowStates.get? h = s.windowStates.get? h ∨ t.windowStates.get? h = none)
    (linked : parentLink t h = some p) : parentLink s h = some p := by
  rcases cut with same | gone
  · rw [← parentLink_of_get? same, linked]
  · rw [parentLink, gone] at linked
    exact absurd linked (by simp)

theorem get?_freeUserHandle (s : WindowServer) (handle h : UInt32) :
    (s.handleFreeUserHandle handle).server.windowStates.get? h =
      if handle < firstUserHandle ∨ s.nextUserHandleIndex ≤ indexOfHandle handle then
        s.windowStates.get? h
      else if h = handle then none else s.windowStates.get? h := by
  rw [handleFreeUserHandle]
  split
  next low => rw [if_pos (.inl low)]
  next high =>
    split
    next beyond => rw [if_pos (.inr beyond)]
    next within => rw [if_neg (not_or.mpr ⟨high, within⟩), get?_erase]

theorem parentLink_of_not_links (desktop : s.desktopTopWindow ≠ 0) {h p : UInt32}
    (other : ¬ links s request h) (linked : parentLink (s.step request) h = some p) :
    parentLink s h = some p := by
  cases request with
  | createWindow fd req =>
    rw [links, allocated_createWindow desktop, List.mem_singleton] at other
    rwa [WindowServer.step, handle, parentLink_insert (createWindow_windowStates desktop fd req),
      if_neg other] at linked
  | setParent _ parent =>
    by_cases accepts : AcceptsParent s parent
    · refine parentLink_of_cut (.inl ?_) linked
      rw [WindowServer.step, WindowServer.handle, windowStates_setParent accepts,
        get?_modify, if_neg fun same => other ⟨same, accepts⟩]
    · rwa [WindowServer.step, WindowServer.handle, handleSetParent_of_refused accepts] at linked
  | destroyWindow handle =>
    rw [WindowServer.step, WindowServer.handle] at linked
    by_cases here : h = handle
    · rw [here, parentLink_destroyWindow_self] at linked
      exact absurd linked (by simp)
    · rwa [parentLink_destroyWindow_other here] at linked
      intro ws found child
      have linkedHere : parentOf s h = handle := by
        rw [parentOf, found]
        exact child
      exact absurd linkedHere other
  | allocUserHandle =>
    exact parentLink_of_cut
      (.inl (congrArg (Table.get? · h) (allocUserHandle_windowStates s _ _ _))) linked
  | freeUserHandle =>
    refine parentLink_of_cut ?_ linked
    rw [WindowServer.step, WindowServer.handle, get?_freeUserHandle]
    split
    · exact .inl rfl
    · split
      · exact .inr rfl
      · exact .inl rfl
  | disconnect =>
    refine parentLink_of_cut ?_ linked
    rw [WindowServer.step, WindowServer.handle, get?_disconnectClient]
    cases s.windowStates.get? h with
    | none => exact .inl rfl
    | some =>
      rw [Option.filter_some]
      split
      · exact .inl rfl
      · exact .inr rfl
  | elsewhere => exact linked

variable {r : WindowRun}

section
variable (good : Good r)
include good

/-- After a request the parents live if they are all there, and no link leads to a window that
took the handle after it was set. -/
theorem Good.live_step (kept : ∀ h p, parentLink (r.server.step request) h = some p →
      (r.server.step request).windowStates.contains p ∧
        (links r.server request h ∨ p ∉ born r.server request)) : (r.step request).Live := by
  intro h p linked
  obtain ⟨there, old⟩ := kept h p linked
  refine ⟨there, ?_⟩
  by_cases set_ : links r.server request h
  · have parent : parentOf (r.server.step request) h = p := parentOf_of_parentLink linked
    rw [WindowRun.step]
    dsimp only
    rw [if_pos set_, parent]
    exact if_pos there
  · have before := good.live h p (parentLink_of_not_links good.desktop set_ linked)
    rw [WindowRun.step]
    dsimp only
    rw [if_neg set_, before.2, if_neg (old.resolve_left set_)]

theorem Good.live_step_of_there (none_ : born r.server request = [])
    (there : ∀ h p, parentLink (r.server.step request) h = some p →
      (r.server.step request).windowStates.contains p) : (r.step request).Live :=
  good.live_step fun h p linked => ⟨there h p linked, .inr (by simp [none_])⟩

theorem Good.live_createWindow (fd : Int32)
    (kept : sustains r.server (.createWindow fd req)) : (r.step (.createWindow fd req)).Live := by
  have after := createWindow_windowStates good.desktop fd req
  have there : ∀ p, (r.server.step (.createWindow fd req)).windowStates.contains p ↔
      p = nextHandle r.server ∨ r.server.windowStates.contains p := by
    intro p
    rw [step, handle, after, contains_insert, Bool.or_eq_true, decide_eq_true_eq]
  rw [sustains, decide_eq_true_eq] at kept
  obtain ⟨known, alone⟩ := kept
  refine good.live_step fun h p linked => ?_
  replace linked := (parentLink_insert after h).symm.trans linked
  simp only [there, links, born, allocated_createWindow good.desktop, List.mem_singleton]
  split at linked
  next here =>
    split at linked
    · exact absurd linked (by simp)
    next nonzero =>
      cases linked
      exact ⟨known.resolve_left nonzero, .inl here⟩
  next other =>
    refine ⟨.inr (good.live h p linked).1, .inr fun taken => other ?_⟩
    obtain ⟨_, _, _, nonzero⟩ := parentLink_eq_some.mp linked
    subst taken
    exact (childless_iff _ nonzero).mp (alone.resolve_left nonzero) h linked

theorem Good.live_setParent (parent : UInt32)
    (kept : sustains r.server (.setParent handle parent)) :
    (r.step (.setParent handle parent)).Live := by
  rw [sustains, decide_eq_true_eq] at kept
  refine good.live_step_of_there rfl fun h p linked => ?_
  rw [WindowServer.step, WindowServer.handle] at linked ⊢
  by_cases accepts : AcceptsParent r.server parent
  · obtain ⟨ws, found, rfl, nonzero⟩ := parentLink_eq_some.mp linked
    rw [windowStates_setParent accepts, get?_modify] at found
    rw [windowStates_setParent accepts, contains_modify]
    split at found
    next here =>
      obtain ⟨before, known, rfl⟩ := Option.map_eq_some_iff.mp found
      have there := (contains_iff _ handle).mpr ⟨before, known⟩
      rcases kept with unknown | zero | yes | ⟨notTop, notMsg⟩
      · exact absurd there unknown
      · exact absurd zero nonzero
      · exact yes
      · exact ((accepts.resolve_left nonzero).resolve_left notTop).resolve_left notMsg
    next => exact (good.live h ws.parent (parentLink_eq_some.mpr ⟨ws, found, rfl, nonzero⟩)).1
  · rw [handleSetParent_of_refused accepts] at linked ⊢
    exact (good.live h p linked).1

end

theorem contains_destroyWindow (p : UInt32) :
    (s.handleDestroyWindow handle).server.windowStates.contains p ↔
      p ≠ handle ∧ s.windowStates.contains p := by
  simp only [handleDestroyWindow, contains_erase, Bool.and_eq_true, decide_eq_true_eq]
  simp [Table.contains, get?_mapValues]

section
variable (good : Good r)
include good

theorem Good.live_destroyWindow (kept : sustains r.server (.destroyWindow handle)) :
    (r.step (.destroyWindow handle)).Live := by
  rw [sustains, decide_eq_true_eq] at kept
  refine good.live_step_of_there rfl fun h p linked => ?_
  rw [WindowServer.step, WindowServer.handle] at linked ⊢
  rw [contains_destroyWindow]
  have other : h ≠ handle := by
    rintro rfl
    rw [parentLink_destroyWindow_self] at linked
    exact absurd linked (by simp)
  rw [parentLink_destroyWindow other, Option.bind_eq_some_iff] at linked
  obtain ⟨ws, found, eq⟩ := linked
  simp only [Option.ite_none_left_eq_some, Option.some.injEq] at eq
  obtain ⟨nonzero, rfl⟩ := eq
  split at nonzero
  next child =>
    rw [if_pos child]
    -- the window leaves its children to its own parent
    have above : parentLink r.server handle = some (parentOf r.server handle) := by
      cases known : r.server.windowStates.get? handle with
      | none => exact absurd (by rw [parentOf, known]; rfl) nonzero
      | some gone =>
        have parent : parentOf r.server handle = gone.parent := by
          rw [parentOf, known]
          rfl
        exact parentLink_eq_some.mpr ⟨gone, known, parent.symm, nonzero⟩
    refine ⟨fun self => ?_, (good.live _ _ above).1⟩
    rw [self] at nonzero
    have alone := (kept.resolve_left nonzero).resolve_left (absurd self)
    exact other ((childless_iff _ nonzero).mp alone h
      (parentLink_eq_some.mpr ⟨ws, found, child, nonzero⟩))
  next stranger =>
    rw [if_neg stranger]
    exact ⟨stranger, (good.live h _ (parentLink_eq_some.mpr ⟨ws, found, rfl, nonzero⟩)).1⟩

theorem Good.live_freeUserHandle (handle : UInt32)
    (kept : sustains r.server (.freeUserHandle handle)) :
    (r.step (.freeUserHandle handle)).Live := by
  rw [sustains, decide_eq_true_eq, ← or_assoc] at kept
  refine good.live_step_of_there rfl fun h p linked => ?_
  rw [WindowServer.step, WindowServer.handle] at linked ⊢
  have after := get?_freeUserHandle r.server handle
  by_cases refused : handle < firstUserHandle ∨ r.server.nextUserHandleIndex ≤ indexOfHandle handle
  · simp only [if_pos refused] at after
    rw [parentLink_of_get? (after h)] at linked
    rw [Table.contains, after p]
    exact (good.live h p linked).1
  · simp only [if_neg refused] at after
    have before : parentLink r.server h = some p := by
      refine parentLink_of_cut ?_ linked
      rw [after h]
      split
      · exact .inr rfl
      · exact .inl rfl
    obtain ⟨_, _, _, nonzero⟩ := parentLink_eq_some.mp before
    have other : p ≠ handle := by
      rintro rfl
      have here := (childless_iff _ nonzero).mp (kept.resolve_left refused) h before
      rw [here, parentLink, after p] at linked
      exact absurd linked (by simp)
    rw [Table.contains, after p, if_neg other]
    exact (good.live h p before).1

theorem Good.live_disconnect (fd : Int32)
    (kept : sustains r.server (.disconnect fd)) : (r.step (.disconnect fd)).Live := by
  rw [sustains, all_entries_iff] at kept
  simp only [decide_eq_true_eq, Option.all_eq_true] at kept
  refine good.live_step_of_there rfl fun h p linked => ?_
  rw [step, handle] at linked ⊢
  have after := get?_disconnectClient r.server fd
  obtain ⟨ws, found, rfl, nonzero⟩ := parentLink_eq_some.mp linked
  rw [after] at found
  obtain ⟨found, stays⟩ := Option.filter_eq_some_iff.mp found
  have there := (good.live h _ (parentLink_eq_some.mpr ⟨ws, found, rfl, nonzero⟩)).1
  obtain ⟨parent, known⟩ := (contains_iff _ _).mp there
  have spared := ((kept h ws found).resolve_left (of_decide_eq_true stays)).resolve_left nonzero
    parent known
  refine (contains_iff _ _).mpr ⟨parent, ?_⟩
  rw [after, known]
  exact Option.filter_eq_some_iff.mpr ⟨rfl, decide_eq_true spared⟩

theorem Good.live_of_sustains (kept : sustains r.server request) : (r.step request).Live := by
  cases request with
  | createWindow fd req => exact good.live_createWindow fd kept
  | setParent handle parent => exact good.live_setParent parent kept
  | destroyWindow handle => exact good.live_destroyWindow kept
  | allocUserHandle fd =>
    have same := allocUserHandle_windowStates r.server 1 ((r.server.clientThreadId fd).getD 0)
      (r.server.clientPid fd)
    refine good.live_step_of_there rfl fun h p linked => ?_
    rw [show (r.server.step (.allocUserHandle fd)).windowStates = _ from same]
    exact (good.live h p ((congrFun (parentLink_congr same) h).symm.trans linked)).1
  | freeUserHandle handle => exact good.live_freeUserHandle handle kept
  | disconnect fd => exact good.live_disconnect fd kept
  | elsewhere => exact good.live_step_of_there rfl fun h p linked => (good.live h p linked).1

theorem Good.step (kept : sustains r.server request) : Good (r.step request) where
  live := good.live_of_sustains kept
  desktop := by
    refine ne_of_eq_of_ne ?_ good.desktop
    exact desktopTopWindow_step good.desktop request
  fresh h := by
    rw [WindowRun.step]
    dsimp only
    split
    · exact Nat.lt_succ_self _
    · exact Nat.lt_succ_of_lt (good.fresh h)

end

section
variable (around : Surroundings) (desktopRect : Rect) (sharedBase : Nat)
include around desktopRect

theorem good_start : Good (.start (startup around desktopRect sharedBase)) := by
  refine ⟨fun h p linked => ?_, (by decide : (0x20 : UInt32) ≠ 0), fun _ => Nat.zero_lt_one⟩
  obtain ⟨ws, found, rfl, nonzero⟩ := parentLink_eq_some.mp linked
  rcases of_insert found with ⟨-, rfl⟩ | ⟨-, first⟩
  · exact absurd rfl nonzero
  · rcases of_insert first with ⟨-, rfl⟩ | ⟨-, none_⟩
    · exact absurd rfl nonzero
    · cases none_

theorem parents_live_of_sustained {requests : List WindowRequest}
    (kept : AllSteps WindowRun.step (fun r request => sustains r.server request)
      (.start (startup around desktopRect sharedBase)) requests) :
    ∀ r ∈ states WindowRun.step (.start (startup around desktopRect sharedBase)) requests,
      r.Live := by
  intro r mem
  have keep : ∀ r request, Good r → sustains r.server request → Good (r.step request) :=
    fun r request good kept => good.step kept
  exact (good_of_allSteps keep (good_start around desktopRect sharedBase) kept r mem).live

end

def succession : List WindowRequest :=
  [plainWindow 0, plainWindow 0x24, plainWindow 0x26, .destroyWindow 0x26, .setParent 0x28 0x20,
    plainWindow 0x24]

theorem succession_live : AllSteps WindowRun.step (fun r request => sustains r.server request)
        (.start freshServer) succession ∧
      ∀ r ∈ states WindowRun.step (.start freshServer) succession, r.Live := by
  have kept : AllSteps WindowRun.step (fun r request => sustains r.server request)
      (.start freshServer) succession := by decide +kernel
  exact ⟨kept, parents_live_of_sustained oneClient Rect.zero 0 kept⟩

def adoption : List WindowRequest :=
  [plainWindow 0, plainWindow 0x24, .freeUserHandle 0x24, plainWindow 0]

theorem recycled_handle_adopts :
    ¬ ∀ r ∈ states WindowRun.step (.start freshServer) adoption, r.Live := by
  decide +kernel

end Triskelion.LiveParents
