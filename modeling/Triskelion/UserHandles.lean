import Triskelion.WindowTree

/-! Recycling of user-handle indices. A ledger of the handles handed out and not
yet given back rides along with the server; `destroy_window` recycles whatever
handle it is told and `free_user_handle` checks only the range, so the two agree
exactly along the runs that give back live handles. -/

namespace Triskelion.UserHandles

open RunRules WindowServer WindowTree List
open UInt32 (lt_iff_toNat_lt reduceToNat toNat_inj)

/-! ### Handles and indices -/

theorem handleOfIndex_toNat (i : UInt32) :
    (handleOfIndex i).toNat = (2 * i.toNat + 32) % 2 ^ 32 := by
  simp only [handleOfIndex, firstUserHandle, UInt32.toNat_add, UInt32.toNat_shiftLeft,
    reduceToNat, Nat.shiftLeft_eq, Nat.reduceMod, Nat.reducePow]
  omega

theorem indexOfHandle_toNat (h : UInt32) :
    (indexOfHandle h).toNat = (2 ^ 32 - 32 + h.toNat) % 2 ^ 32 / 2 := by
  simp only [indexOfHandle, firstUserHandle, UInt32.toNat_sub, UInt32.toNat_shiftRight,
    reduceToNat, Nat.shiftRight_eq_div_pow, Nat.reduceMod, Nat.reducePow]

variable {i h : UInt32} {s : WindowServer}

theorem indexOfHandle_handleOfIndex (fits : i.toNat < 2 ^ 31) :
    indexOfHandle (handleOfIndex i) = i := by
  apply toNat_inj.mp
  rw [indexOfHandle_toNat, handleOfIndex_toNat]
  omega

/-! ### The pool -/

/-- What the recycled indices and the ledger are supposed to keep: the list has no
duplicates, no index of a live handle and no index never handed out, and no
handle is live twice. -/
structure Unique (next : UInt32) (free live : List UInt32) : Prop where
  nodup : free.Nodup
  apart : ∀ h ∈ live, indexOfHandle h ∉ free
  below : ∀ i ∈ free, i < next
  distinct : live.Nodup

/-- Every index handed out so far is either recycled or held by a live handle. -/
structure Balanced (next : UInt32) (free live : List UInt32) : Prop
    extends Unique next free live where
  room : next.toNat ≤ 2 ^ 31
  issued : ∀ h ∈ live, ∃ i < next, h = handleOfIndex i
  total : ∀ i < next, i ∈ free ∨ handleOfIndex i ∈ live

variable {next : UInt32} {free live : List UInt32}

theorem Balanced.fits (bal : Balanced next free live) (lt : i < next) : i.toNat < 2 ^ 31 :=
  lt_of_lt_of_le (lt_iff_toNat_lt.mp lt) bal.room

theorem Balanced.handle_index (bal : Balanced next free live) (mem : h ∈ live) :
    indexOfHandle h < next ∧ handleOfIndex (indexOfHandle h) = h := by
  obtain ⟨i, lt, rfl⟩ := bal.issued h mem
  rw [indexOfHandle_handleOfIndex (bal.fits lt)]
  exact ⟨lt, rfl⟩

variable {rest : List UInt32}

theorem Balanced.recycle (bal : Balanced next (i :: rest) live) :
    Balanced next rest (handleOfIndex i :: live) := by
  have small := bal.below i mem_cons_self
  have back := indexOfHandle_handleOfIndex (bal.fits small)
  obtain ⟨fresh, nodup⟩ := nodup_cons.mp bal.nodup
  refine ⟨⟨nodup, ?_, ?_, ?_⟩, bal.room, ?_, ?_⟩
  · intro h mem
    rcases mem_cons.mp mem with rfl | old
    · rwa [back]
    · exact fun inRest => bal.apart h old (mem_cons_of_mem _ inRest)
  · exact fun j mem => bal.below j (mem_cons_of_mem _ mem)
  · refine nodup_cons.mpr ⟨fun held => ?_, bal.distinct⟩
    exact bal.apart _ held (by rw [back]; exact mem_cons_self)
  · intro h mem
    rcases mem_cons.mp mem with rfl | old
    · exact ⟨i, small, rfl⟩
    · exact bal.issued h old
  · intro j lt
    rcases bal.total j lt with inFree | held
    · rcases mem_cons.mp inFree with rfl | inRest
      · exact .inr mem_cons_self
      · exact .inl inRest
    · exact .inr (mem_cons_of_mem _ held)

theorem Balanced.extend (bal : Balanced next [] live) (below : next.toNat < 2 ^ 31) :
    Balanced (next + 1) [] (handleOfIndex next :: live) := by
  have succ : (next + 1).toNat = next.toNat + 1 := by
    exact Nat.mod_eq_of_lt (by simp; omega)
  have lt_succ : ∀ i : UInt32, i < next + 1 ↔ i < next ∨ i = next := by
    intro i
    rw [lt_iff_toNat_lt, lt_iff_toNat_lt, ← toNat_inj]
    omega
  refine ⟨⟨nodup_nil, by simp, by simp, ?_⟩, by omega, ?_, ?_⟩
  · refine nodup_cons.mpr ⟨fun held => ?_, bal.distinct⟩
    have := (bal.handle_index held).1
    rw [indexOfHandle_handleOfIndex below, lt_iff_toNat_lt] at this
    omega
  · intro h mem
    rcases mem_cons.mp mem with rfl | old
    · exact ⟨next, (lt_succ next).mpr (.inr rfl), rfl⟩
    · obtain ⟨i, lt, eq⟩ := bal.issued h old
      exact ⟨i, (lt_succ i).mpr (.inl lt), eq⟩
  · intro i lt
    rcases (lt_succ i).mp lt with old | rfl
    · exact (bal.total i old).imp_right (mem_cons_of_mem _)
    · exact .inr mem_cons_self

/-- With every index in use, the one after the last repeats the first handle. -/
theorem Balanced.extend_repeats (bal : Balanced next [] live) (full : ¬ next.toNat < 2 ^ 31) :
    ¬ (handleOfIndex next :: live).Nodup := by
  have top : next.toNat = 2 ^ 31 := by have := bal.room; omega
  intro distinct
  refine (nodup_cons.mp distinct).1 ?_
  rw [show next = 2 ^ 31 from toNat_inj.mp top]
  exact (bal.total 0 (lt_iff_toNat_lt.mpr (by simp [top]))).resolve_left (by simp)

theorem Balanced.giveBack (bal : Balanced next free live) (held : h ∈ live) :
    Balanced next (indexOfHandle h :: free) (live.erase h) := by
  obtain ⟨lt, back⟩ := bal.handle_index held
  have other : ∀ {g}, g ∈ live.erase h ↔ g ≠ h ∧ g ∈ live := bal.distinct.mem_erase_iff
  refine ⟨⟨nodup_cons.mpr ⟨bal.apart h held, bal.nodup⟩, ?_, ?_, bal.distinct.erase h⟩,
    bal.room, fun g mem => bal.issued g (other.mp mem).2, ?_⟩
  · intro g mem inFree
    obtain ⟨ne, old⟩ := other.mp mem
    rcases mem_cons.mp inFree with same | inOld
    · exact ne (by rw [← (bal.handle_index old).2, same, back])
    · exact bal.apart g old inOld
  · intro i mem
    rcases mem_cons.mp mem with rfl | old
    · exact lt
    · exact bal.below i old
  · intro i small
    rcases bal.total i small with inFree | inLive
    · exact .inl (mem_cons_of_mem _ inFree)
    · by_cases same : handleOfIndex i = h
      · refine .inl (mem_cons.mpr (.inl ?_))
        rw [← same, indexOfHandle_handleOfIndex (bal.fits small)]
      · exact .inr (other.mpr ⟨same, inLive⟩)

/-- Giving back a handle that is not live lists an index that is free already, in
use by another handle or not handed out. -/
theorem Balanced.giveBack_breaks (bal : Balanced next free live) (absent : h ∉ live) :
    ¬ Unique next (indexOfHandle h :: free) (live.erase h) := by
  intro unique
  have small := unique.below _ mem_cons_self
  rw [erase_of_not_mem absent] at unique
  rcases bal.total _ small with inFree | inLive
  · exact (nodup_cons.mp unique.nodup).1 inFree
  · refine unique.apart _ inLive ?_
    rw [indexOfHandle_handleOfIndex (bal.fits small)]
    exact mem_cons_self

/-! ### The pool of the server -/

section
variable (s : WindowServer)

def pool : UInt32 × List UInt32 := (s.nextUserHandleIndex, s.userHandleFreeList)

def PoolUnique (live : List UInt32) : Prop := Unique (pool s).1 (pool s).2 live

def PoolBalanced (live : List UInt32) : Prop :=
  Balanced (pool s).1 (pool s).2 live

def HasIndex : Prop := (pool s).2 ≠ [] ∨ (pool s).1.toNat < 2 ^ 31

end

theorem takeIndex_cons (free : (pool s).2 = i :: rest) :
    nextHandle s = handleOfIndex i ∧ pool s.takeIndex.2 = ((pool s).1, rest) := by
  simp only [pool] at free
  simp [nextHandle, takeIndex, free, pool]

theorem takeIndex_nil (free : (pool s).2 = []) :
    nextHandle s = handleOfIndex (pool s).1 ∧ pool s.takeIndex.2 = ((pool s).1 + 1, []) := by
  simp only [pool] at free
  simp [nextHandle, takeIndex, free, pool]

theorem takeIndex_balanced {live : List UInt32} (bal : PoolBalanced s live) (has : HasIndex s) :
    PoolBalanced s.takeIndex.2 (nextHandle s :: live) := by
  rw [PoolBalanced] at bal ⊢
  cases free : (pool s).2 with
  | cons i rest =>
    obtain ⟨handle, after⟩ := takeIndex_cons free
    rw [handle, after]
    exact (free ▸ bal).recycle
  | nil =>
    obtain ⟨handle, after⟩ := takeIndex_nil free
    rw [handle, after]
    exact (free ▸ bal).extend (has.resolve_left (not_not.mpr free))

theorem takeIndex_breaks {live : List UInt32} (bal : PoolBalanced s live) (exhausted : ¬ HasIndex s) :
    ¬ (nextHandle s :: live).Nodup := by
  obtain ⟨free, full⟩ := not_or.mp exhausted
  rw [not_not] at free
  rw [PoolBalanced, free] at bal
  rw [(takeIndex_nil free).1]
  exact bal.extend_repeats full

@[simp] theorem pool_ensureClassLocator (atom : UInt32) :
    pool (s.ensureClassLocator atom) = pool s := by
  rw [ensureClassLocator]
  split <;> rfl

@[simp] theorem pool_setParent (handle parent : UInt32) :
    (s.handleSetParent handle parent).allocated = [] ∧
    pool (s.handleSetParent handle parent).server = pool s := by
  rw [handleSetParent]
  split <;> simp [pool]

@[simp] theorem pool_disconnectClient (fd : Int32) : pool (s.disconnectClient fd) = pool s := by
  simp only [disconnectClient]
  split
  · split <;> rfl
  · rfl

/-! ### Runs with a ledger -/

structure Ledger where
  server : WindowServer
  live : List UInt32

def allocates : WindowRequest → Bool
  | .createWindow _ _ => true
  | .allocUserHandle _ => true
  | _ => false

def released (s : WindowServer) : WindowRequest → Option UInt32
  | .destroyWindow handle => if firstUserHandle ≤ handle then some handle else none
  | .freeUserHandle handle =>
    if handle < firstUserHandle ∨ s.nextUserHandleIndex ≤ indexOfHandle handle then none
    else some handle
  | _ => none

def Ledger.step (l : Ledger) (request : WindowRequest) : Ledger :=
  let outcome := l.server.handle request
  let kept := match released l.server request with
    | some handle => l.live.erase handle
    | none => l.live
  ⟨outcome.server, outcome.allocated ++ kept⟩

/-- A request that allocates finds an index, and one that recycles the index of a
handle is given a live one. -/
def RecycleSafe (l : Ledger) (request : WindowRequest) : Prop :=
  if allocates request then HasIndex l.server
  else ∀ handle, released l.server request = some handle → handle ∈ l.live

structure Sound (l : Ledger) : Prop where
  balanced : PoolBalanced l.server l.live
  desktop : l.server.desktopTopWindow ≠ 0

variable {l : Ledger} {request : WindowRequest}

theorem step_allocates (desktop : l.server.desktopTopWindow ≠ 0)
    (alloc : allocates request) : (l.step request).live = nextHandle l.server :: l.live ∧
    pool (l.step request).server = pool l.server.takeIndex.2 := by
  cases request with
  | createWindow =>
    simp only [Ledger.step, WindowServer.handle, handleCreateWindow, allocUserHandle_fst,
      ensureClassLocator_desktopTopWindow, allocUserHandle_desktopTopWindow, desktop, and_false,
      if_false, released]
    exact ⟨rfl, pool_ensureClassLocator _⟩
  | allocUserHandle => exact ⟨rfl, rfl⟩
  | _ => cases alloc

theorem step_recycles (alloc : allocates request = false) :
    (l.step request).live = ((released l.server request).map l.live.erase).getD l.live ∧
    pool (l.step request).server = ((pool l.server).1,
      ((released l.server request).map fun handle =>
        indexOfHandle handle :: (pool l.server).2).getD (pool l.server).2) := by
  cases request with
  | createWindow | allocUserHandle => cases alloc
  | setParent | disconnect => simp [Ledger.step, WindowServer.handle, released]
  | destroyWindow handle =>
    by_cases high : firstUserHandle ≤ handle
    all_goals simp [Ledger.step, WindowServer.handle, handleDestroyWindow, released, high, pool]
  | freeUserHandle handle =>
    simp only [Ledger.step, WindowServer.handle, handleFreeUserHandle, released]
    by_cases low : handle < firstUserHandle
    · simp [low]
    by_cases high : l.server.nextUserHandleIndex ≤ indexOfHandle handle
    · simp [low, high]
    · simp [low, high, pool]
  | elsewhere => exact ⟨rfl, rfl⟩

theorem sound_step (l : Ledger) (request : WindowRequest) (sound : Sound l)
    (safe : RecycleSafe l request) : Sound (l.step request) := by
  have desktop : (l.step request).server.desktopTopWindow ≠ 0 := by
    have same := desktopTopWindow_step sound.desktop request
    exact fun zero => sound.desktop (same.symm.trans zero)
  refine ⟨?_, desktop⟩
  rw [RecycleSafe] at safe
  split at safe
  · next alloc =>
    obtain ⟨live, after⟩ := step_allocates sound.desktop alloc
    rw [PoolBalanced, live, after]
    exact takeIndex_balanced sound.balanced safe
  · next alloc =>
    obtain ⟨live, after⟩ := step_recycles (Bool.eq_false_iff.mpr alloc)
    rw [PoolBalanced, live, after]
    cases given : released l.server request with
    | none => exact sound.balanced
    | some handle => exact sound.balanced.giveBack (safe handle given)

theorem unique_breaks (sound : Sound l) (wrong : ¬ RecycleSafe l request) :
    ¬ PoolUnique (l.step request).server (l.step request).live := by
  intro unique
  rw [RecycleSafe] at wrong
  split at wrong
  · next alloc =>
    obtain ⟨live, after⟩ := step_allocates sound.desktop alloc
    exact takeIndex_breaks sound.balanced wrong (live ▸ unique.distinct)
  · next alloc =>
    obtain ⟨live, after⟩ := step_recycles (Bool.eq_false_iff.mpr alloc)
    simp only [not_forall] at wrong
    obtain ⟨handle, given, absent⟩ := wrong
    rw [PoolUnique, live, after, given] at unique
    exact sound.balanced.giveBack_breaks absent unique

def opening (around : Surroundings) (desktopRect : Rect) (sharedBase : Nat) : Ledger :=
  ⟨startup around desktopRect sharedBase, [0x22, 0x20]⟩

section
variable (around : Surroundings) (desktopRect : Rect) (sharedBase : Nat)
include around desktopRect

theorem sound_opening : Sound (opening around desktopRect sharedBase) := by
  have two : ∀ i : UInt32, i < 2 → i = 0 ∨ i = 1 := by
    intro i lt
    have := lt_iff_toNat_lt.mp lt
    simp only [reduceToNat] at this
    rw [← toNat_inj, ← toNat_inj]
    simp only [reduceToNat]
    omega
  refine ⟨?_, (WindowTree.sound_startup around desktopRect sharedBase).desktop⟩
  show Balanced 2 [] [0x22, 0x20]
  refine ⟨⟨nodup_nil, by simp, by simp, by decide⟩, by decide, ?_, ?_⟩
  · intro h mem
    rcases mem_cons.mp mem with rfl | mem
    · exact ⟨1, by decide, by decide⟩
    · rcases mem_cons.mp mem with rfl | mem
      · exact ⟨0, by decide, by decide⟩
      · cases mem
  · intro i lt
    rcases two i lt with rfl | rfl <;> exact .inr (by decide)

/-- The recycled list and the live handles stay apart, and no live handle is handed
out again, in every state of a run exactly when each recycled handle is live at
the time and each allocation finds an index. -/
theorem run_unique_iff (requests : List WindowRequest) :
    (∀ l ∈ states Ledger.step (opening around desktopRect sharedBase) requests,
      PoolUnique l.server l.live) ↔
      AllSteps Ledger.step RecycleSafe (opening around desktopRect sharedBase) requests :=
  observed_iff_allSteps Sound (fun _ _ => True)
    (fun _ sound => sound.balanced.toUnique)
    (fun l request sound _ safe => sound_step l request sound safe)
    (fun _ _ sound _ wrong => unique_breaks sound wrong)
    (sound_opening around desktopRect sharedBase) (allSteps_of_forall (fun _ _ => trivial) _ _)

end

def destroyedTwice : List WindowRequest :=
  [plainWindow 0, .destroyWindow 0x24, .destroyWindow 0x24, plainWindow 0, plainWindow 0]

theorem destroyedTwice_shares_handle :
    (run Ledger.step (opening oneClient Rect.zero 0) destroyedTwice).live =
      [0x24, 0x24, 0x22, 0x20] ∧
    ¬ PoolUnique (run Ledger.step (opening oneClient Rect.zero 0) destroyedTwice).server
      (run Ledger.step (opening oneClient Rect.zero 0) destroyedTwice).live := by
  have live : (run Ledger.step (opening oneClient Rect.zero 0) destroyedTwice).live =
      [0x24, 0x24, 0x22, 0x20] := by decide
  refine ⟨live, fun unique => ?_⟩
  have distinct := unique.distinct
  exact absurd distinct (by decide)

end Triskelion.UserHandles
