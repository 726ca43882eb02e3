import Mathlib.Algebra.GroupWithZero.Nat
import Triskelion.ByteWords
import Triskelion.RunRules
import Triskelion.SharedHandlers

/-! The startup info of a process on its way from the parent's `new_process` request to the
child's `get_startup_info` (`process.rs`, `thread.rs`). The sizes in the request are the
client's: what it says of the info block need not be what the buffer has. -/

namespace Triskelion.StartupInfo

open ByteWords RunRules List

/-- The fields of the fixed part that the sizes come from. -/
structure NewProcessRequest where
  flags : UInt32
  handlesSize : UInt32
  jobsSize : UInt32
  infoSize : UInt32
  machine : UInt16
deriving DecidableEq

/-! ### The request

The variable part follows 64 bytes: object attributes, handles, jobs, startup info and
environment. A result of `none` is a read outside of the buffer. -/

def varargOff : Nat := 64

/-- `n & !1`. -/
def even (n : Nat) : Nat := n / 2 * 2

/-- `(n + 3) & !3`. -/
def roundSize (n : Nat) : Nat := (n + 3) / 4 * 4

def objattrSize (buf : List UInt8) : Option Nat :=
  if varargOff + 16 ≤ buf.length then do
    let sdLen ← readWord buf (varargOff + 8)
    let nameLen ← readWord buf (varargOff + 12)
    return roundSize (16 + even sdLen.toNat + even nameLen.toNat)
  else some 0

def inheritHandles (req : NewProcessRequest) (buf : List UInt8) (start : Nat) :
    Option (List UInt32) :=
  let stop := start + req.handlesSize.toNat
  if req.flags &&& 4 ≠ 0 ∧ 4 ≤ req.handlesSize ∧ stop ≤ buf.length then do
    let bytes ← slice buf start stop
    return (words bytes).filter (· ≠ 0)
  else some []

def lengthOffsets : List Nat := [64, 68, 72, 76, 80, 84, 88, 92]

def structSize : Nat := 96

def fixLength (info : List UInt8) (off budget : Nat) : Option (Nat × List UInt8) := do
  let val ← readWord info off
  let clamped := min val.toNat budget
  if clamped ≠ val.toNat then
    let fixed ← writeWord info off (UInt32.ofNat clamped)
    return (clamped, fixed)
  else return (clamped, info)

def fixLengths : List Nat → Nat → List UInt8 → Option (List UInt8)
  | [], _, info => some info
  | off :: rest, budget, info => do
    let fixed ← fixLength info off budget
    fixLengths rest (budget - fixed.1) fixed.2

def fixup (info : List UInt8) : Option (List UInt8) :=
  if structSize ≤ info.length then fixLengths lengthOffsets (info.length - structSize) info
  else some info

section
variable (infoSize : Nat) (remaining : List UInt8)

def envPart : Option (List UInt8) :=
  let envStart := min (roundSize infoSize) remaining.length
  if envStart < remaining.length then slice remaining envStart remaining.length else some []

def splitStartup : Option (List UInt8 × List UInt8) := do
  let block ← slice remaining 0 (min infoSize remaining.length)
  let info ← fixup block
  let env ← envPart infoSize remaining
  return (info, env)

end

def stdHandles (info : List UInt8) : Option (List UInt32) :=
  if 24 ≤ info.length then do
    let hstdin ← readWord info 12
    let hstdout ← readWord info 16
    let hstderr ← readWord info 20
    return [hstdin, hstdout, hstderr]
  else some []

structure Parsed where
  inherit : List UInt32
  startup : Option (List UInt8 × List UInt8)
deriving DecidableEq

section
variable (req : NewProcessRequest)

def varargStart (objattr : Nat) : Nat :=
  varargOff + objattr + req.handlesSize.toNat + req.jobsSize.toNat

def startupPart (buf : List UInt8) (start : Nat) : Option (Option (List UInt8 × List UInt8)) :=
  if start < buf.length then do
    let remaining ← slice buf start buf.length
    let parts ← splitStartup req.infoSize.toNat remaining
    return some parts
  else some none

def addHandles (handles std : List UInt32) : List UInt32 :=
  std.foldl (fun l h => if h ≠ 0 ∧ h ∉ l then l ++ [h] else l) handles

def parse (buf : List UInt8) : Option Parsed := do
  let objattr ← objattrSize buf
  let handles ← inheritHandles req buf (varargOff + objattr)
  let startup ← startupPart req buf (varargStart req objattr)
  let std ← stdHandles ((startup.map Prod.fst).getD [])
  return ⟨addHandles handles std, startup⟩

end

/-! ### The processes -/

/-- The last two fields are not in the code: the request that the process was made by, and
whether its startup info was handed out. -/
structure Process where
  startupInfo : Option (List UInt8)
  startupEnv : Option (List UInt8)
  infoSize : UInt32
  machine : UInt16
  request : NewProcessRequest
  buf : List UInt8
  taken : Bool

structure State where
  processes : Table UInt32 Process
  nextPtid : UInt32

def start : State := ⟨.empty, 0⟩

section
variable (s : State)

def handleNewProcess (req : Option NewProcessRequest) (buf : List UInt8) : State :=
  match req with
  | none => s
  | some req =>
    match parse req buf with
    | none => s
    | some parsed => { s with
        nextPtid := s.nextPtid + 1
        processes := s.processes.insert (ptid s.nextPtid)
          -- `info_size_clamped` is the size from the request, whatever the block has
          ⟨parsed.startup.map Prod.fst, parsed.startup.map Prod.snd, req.infoSize, req.machine,
            req, buf, false⟩ }

def gameInfo (dir path : List UInt8) : List UInt8 :=
  let len (text : List UInt8) := leBytes (UInt32.ofNat text.length)
  replicate 64 0 ++ len dir ++ leBytes 0 ++ len path ++ len path ++ replicate 16 0 ++
    dir ++ path ++ path

/-- `game` has the directory and the path from the environment of the daemon. -/
def handleInitFirstThread (pid : UInt32) (game : Option (List UInt8 × List UInt8)) : State :=
  match game with
  | none => s
  | some (dir, path) =>
    let info := gameInfo dir path
    { s with
      processes := s.processes.modify pid fun p =>
        if p.startupInfo.getD [] = [] then
          { p with startupInfo := some info, infoSize := UInt32.ofNat info.length }
        else p }

structure StartupReply where
  infoSize : UInt32
  machine : UInt16
  vararg : List UInt8
deriving DecidableEq

def handleGetStartupInfo (pid max : UInt32) : StartupReply × State :=
  match s.processes.get? pid with
  | none => (⟨0, 0x8664, []⟩, s)
  | some p =>
    let vararg := p.startupInfo.getD [] ++ p.startupEnv.getD []
    (⟨p.infoSize, if p.machine ≠ 0 then p.machine else 0x8664, vararg.take max.toNat⟩, { s with
        processes := s.processes.insert pid
          { p with startupInfo := none, startupEnv := none, taken := true } })

inductive StartupEvent
  | newProcess (req : Option NewProcessRequest) (buf : List UInt8)
  | initFirstThread (pid : UInt32) (game : Option (List UInt8 × List UInt8))
  | getStartupInfo (pid max : UInt32)

def step : StartupEvent → State
  | .newProcess req buf => handleNewProcess s req buf
  | .initFirstThread pid game => handleInitFirstThread s pid game
  | .getStartupInfo pid max => (handleGetStartupInfo s pid max).2

end

/-! ### The repair of the lengths -/

def wordAt (info : List UInt8) (off : Nat) : Nat := ((readWord info off).map UInt32.toNat).getD 0

def lengthsOf (info : List UInt8) : List Nat := lengthOffsets.map (wordAt info)

def clampAll : Nat → List Nat → List Nat
  | _, [] => []
  | budget, v :: rest => min v budget :: clampAll (budget - min v budget) rest

theorem sum_clampAll_le (budget : Nat) (l : List Nat) : (clampAll budget l).sum ≤ budget := by
  induction l generalizing budget with
  | nil => exact Nat.zero_le budget
  | cons v rest ih =>
    have later := ih (budget - min v budget)
    simp only [clampAll, sum_cons]
    omega

variable {info : List UInt8}

theorem fixLength_spec {off : Nat} (inside : off + 4 ≤ info.length) (budget : Nat) :
    ∃ after, fixLength info off budget = some (min (wordAt info off) budget, after) ∧
      after.length = info.length ∧ wordAt after off = min (wordAt info off) budget ∧
      (∀ i, i < off ∨ off + 4 ≤ i → after[i]? = info[i]?) ∧
      ∀ other, other + 4 ≤ off ∨ off + 4 ≤ other → wordAt after other = wordAt info other := by
  obtain ⟨val, read⟩ := readWord_isSome inside
  have value : wordAt info off = val.toNat := by
    rw [wordAt, read]
    rfl
  have small := val.toNat_lt
  rw [value]
  by_cases cut : min val.toNat budget = val.toNat
  · refine ⟨info, ?_, rfl, value.trans cut.symm, fun i _ => rfl, fun other _ => rfl⟩
    unfold fixLength
    rw [read]
    exact (if_neg (not_not.mpr cut)).trans rfl
  · obtain ⟨after, written⟩ := written_of_inside inside (UInt32.ofNat (min val.toNat budget))
    refine ⟨after, ?_, written.length, ?_, written.apart, fun other apart => ?_⟩
    · unfold fixLength
      rw [read]
      refine (if_pos cut).trans ?_
      rw [written.result]
      rfl
    · rw [wordAt, written.read]
      exact Nat.mod_eq_of_lt (by omega)
    · rw [wordAt, readWord_congr fun i small => written.apart _ (by omega)]
      rfl

theorem fixLengths_spec {offs : List Nat} (spaced : offs.Pairwise fun a b => a + 4 ≤ b)
    (inside : ∀ off ∈ offs, off + 4 ≤ info.length) (budget : Nat) :
    ∃ after, fixLengths offs budget info = some after ∧ after.length = info.length ∧
      (∀ i, (∀ off ∈ offs, i < off ∨ off + 4 ≤ i) → after[i]? = info[i]?) ∧
      offs.map (wordAt after) = clampAll budget (offs.map (wordAt info)) := by
  induction offs generalizing budget info with
  | nil => exact ⟨info, rfl, rfl, fun _ _ => rfl, rfl⟩
  | cons off rest ih =>
    obtain ⟨later, tail⟩ := pairwise_cons.mp spaced
    obtain ⟨fixed, first, length, word, bytes, words⟩ :=
      fixLength_spec (inside off mem_cons_self) budget
    have within : ∀ o ∈ rest, o + 4 ≤ fixed.length := by
      intro o mem
      rw [length]
      exact inside o (mem_cons_of_mem _ mem)
    obtain ⟨after, done, length', outside, clamped⟩ :=
      ih tail within (budget - min (wordAt info off) budget)
    -- the loop never comes back to the first length
    have kept : wordAt after off = wordAt fixed off := by
      rw [wordAt, wordAt, readWord_congr fun i small => outside _ fun o mem => ?_]
      have apart := later o mem
      omega
    refine ⟨after, ?_, length'.trans length, fun i apart => ?_, ?_⟩
    · rw [fixLengths, first]
      exact done
    · rw [outside i fun o mem => apart o (mem_cons_of_mem _ mem)]
      exact bytes i (apart off mem_cons_self)
    · have same := map_congr_left fun o mem => words o (.inr (later o mem))
      rw [map_cons, map_cons, clampAll, clamped, same, kept, word]

/-- The info block with its lengths repaired: every other byte is as it was. -/
structure FixedUp (block info : List UInt8) : Prop where
  length : info.length = block.length
  outside : ∀ i, i < 64 ∨ structSize ≤ i → info[i]? = block[i]?
  lengths : structSize ≤ block.length →
    lengthsOf info = clampAll (block.length - structSize) (lengthsOf block)
  short : block.length < structSize → info = block

theorem fixup_spec (block : List UInt8) : ∃ info, fixup block = some info ∧ FixedUp block info := by
  by_cases long : structSize ≤ block.length
  · have inside : ∀ off ∈ lengthOffsets, off + 4 ≤ block.length := by
      intro off mem
      have bound : ∀ off ∈ lengthOffsets, off + 4 ≤ structSize := by decide
      exact Nat.le_trans (bound off mem) long
    obtain ⟨info, done, length, outside, clamped⟩ :=
      fixLengths_spec (by decide) inside (block.length - structSize)
    refine ⟨info, (if_pos long).trans done, length, fun i apart => outside i fun off mem => ?_,
      fun _ => clamped, fun short => absurd long (Nat.not_le.mpr short)⟩
    have bounds : ∀ off ∈ lengthOffsets, 64 ≤ off ∧ off + 4 ≤ structSize := by decide
    have bound := bounds off mem
    omega
  · exact ⟨block, if_neg long, rfl, fun _ _ => rfl, fun le => absurd le long, fun _ => rfl⟩

/-! ### The parser -/

theorem objattrSize_isSome (buf : List UInt8) : ∃ n, objattrSize buf = some n := by
  unfold objattrSize
  split
  · obtain ⟨sdLen, atSd⟩ := readWord_isSome (show varargOff + 8 + 4 ≤ buf.length by omega)
    obtain ⟨nameLen, atName⟩ := readWord_isSome (show varargOff + 12 + 4 ≤ buf.length by omega)
    simp [atSd, atName]
  · exact ⟨0, rfl⟩

section
variable (req : NewProcessRequest) (buf : List UInt8)

theorem inheritHandles_isSome (start : Nat) : ∃ l, inheritHandles req buf start = some l := by
  unfold inheritHandles
  dsimp only
  split
  · next fits =>
    rw [slice_eq (Nat.le_add_right _ _) fits.2.2]
    exact ⟨_, rfl⟩
  · exact ⟨[], rfl⟩

theorem stdHandles_isSome (info : List UInt8) : ∃ l, stdHandles info = some l := by
  unfold stdHandles
  split
  · obtain ⟨a, at_a⟩ := readWord_isSome (show 12 + 4 ≤ info.length by omega)
    obtain ⟨b, at_b⟩ := readWord_isSome (show 16 + 4 ≤ info.length by omega)
    obtain ⟨c, at_c⟩ := readWord_isSome (show 20 + 4 ≤ info.length by omega)
    simp [at_a, at_b, at_c]
  · exact ⟨[], rfl⟩

variable {remaining : List UInt8}

theorem envPart_eq (infoSize : Nat) :
    envPart infoSize remaining = some (remaining.drop (roundSize infoSize)) := by
  unfold envPart
  dsimp only
  split
  · next more =>
    have whole : min (roundSize infoSize) remaining.length = roundSize infoSize := by omega
    rw [slice_eq (Nat.le_of_lt more) (Nat.le_refl _), take_length, whole]
  · rw [drop_eq_nil_of_le (by omega)]

theorem splitStartup_spec (infoSize : Nat) :
    ∃ info, splitStartup infoSize remaining = some (info, remaining.drop (roundSize infoSize)) ∧
      FixedUp (remaining.take infoSize) info := by
  have block : slice remaining 0 (min infoSize remaining.length) = some (remaining.take infoSize) := by
    rw [slice_eq (Nat.zero_le _) (Nat.min_le_right _ _), drop_zero, ← take_eq_take_min]
  obtain ⟨info, fixed, spec⟩ := fixup_spec (remaining.take infoSize)
  refine ⟨info, ?_, spec⟩
  simp [splitStartup, block, fixed, envPart_eq]

def remainder : List UInt8 :=
  buf.drop (varargStart req ((objattrSize buf).getD 0))

def infoBlock : List UInt8 :=
  (remainder req buf).take req.infoSize.toNat

def environment : List UInt8 :=
  (remainder req buf).drop (roundSize req.infoSize.toNat)

theorem startupPart_spec :
    ∃ startup info, startupPart req buf (varargStart req ((objattrSize buf).getD 0)) = some startup ∧
      FixedUp (infoBlock req buf) info ∧ (startup.map Prod.fst).getD [] = info ∧
      (startup.map Prod.snd).getD [] = environment req buf := by
  unfold startupPart
  split
  · next more =>
    have tail : slice buf (varargStart req ((objattrSize buf).getD 0)) buf.length =
        some (remainder req buf) := by
      rw [slice_eq (Nat.le_of_lt more) (Nat.le_refl _), take_length]
      rfl
    obtain ⟨info, parts, fixed⟩ := splitStartup_spec req.infoSize.toNat
    refine ⟨some (info, environment req buf), info, ?_, fixed, rfl, rfl⟩
    rw [tail, Option.bind_eq_bind, Option.bind_some, parts]
    rfl
  · next none =>
    have nothing : remainder req buf = [] := drop_eq_nil_of_le (Nat.not_lt.mp none)
    refine ⟨Option.none, [], rfl, ?_, rfl, ?_⟩
    · rw [infoBlock, nothing, take_nil]
      exact ⟨rfl, fun _ _ => rfl, fun long => absurd long (by decide), fun _ => rfl⟩
    · rw [environment, nothing, drop_nil]
      rfl

/-- No read is outside of the buffer, and what is stored is the block with its lengths
repaired and the environment. -/
theorem parse_spec : ∃ parsed info, parse req buf = some parsed ∧ FixedUp (infoBlock req buf) info ∧
      (parsed.startup.map Prod.fst).getD [] = info ∧
      (parsed.startup.map Prod.snd).getD [] = environment req buf := by
  obtain ⟨objattr, size⟩ := objattrSize_isSome buf
  obtain ⟨handles, inherited⟩ := inheritHandles_isSome req buf (varargOff + objattr)
  obtain ⟨startup, info, part, fixed, stored, env⟩ := startupPart_spec req buf
  obtain ⟨std, read⟩ := stdHandles_isSome ((startup.map Prod.fst).getD [])
  refine ⟨⟨addHandles handles std, startup⟩, info, ?_, fixed, stored, env⟩
  rw [size, Option.getD_some] at part
  simp [parse, size, inherited, part, read]

end

/-! ### The hand-over -/

/-- What the child is told: the parent's info block with its lengths repaired, the size of
that block, and the environment. -/
def HandedOver (s : State) : StartupEvent → Prop
  | .getStartupInfo pid max => ∀ p, s.processes.get? pid = some p → p.taken = false →
    ∃ info, FixedUp (infoBlock p.request p.buf) info ∧
      (handleGetStartupInfo s pid max).1.vararg = info ++ environment p.request p.buf ∧
      (handleGetStartupInfo s pid max).1.infoSize.toNat = info.length
  | _ => True

/-- The buffer has the info block that the request claims, the child has room for what it
gets, and no startup info is made up for it. -/
def whole (s : State) : StartupEvent → Bool
  | .newProcess req buf => req.all fun req => req.infoSize.toNat ≤ (remainder req buf).length
  | .initFirstThread pid game =>
    game.isNone || (s.processes.get? pid).all fun p => p.taken || p.startupInfo.getD [] ≠ []
  | .getStartupInfo pid max => (s.processes.get? pid).all fun p =>
    p.taken || (p.startupInfo.getD [] ++ p.startupEnv.getD []).length ≤ max.toNat

def Stored (s : State) : Prop :=
  ∀ pid p, s.processes.get? pid = some p → p.taken = false →
    FixedUp (infoBlock p.request p.buf) (p.startupInfo.getD []) ∧
      p.startupEnv.getD [] = environment p.request p.buf ∧
      p.infoSize.toNat = (p.startupInfo.getD []).length

section
variable (s : State) (event : StartupEvent) (stored : Stored s) (fits : whole s event)
include stored fits

theorem stored_step : Stored (step s event) := by
  cases event with
  | newProcess req buf =>
    cases req with
    | none => exact stored
    | some req =>
      obtain ⟨parsed, info, done, fixed, kept, env⟩ := parse_spec req buf
      have block := of_decide_eq_true fits
      intro pid p found untaken
      simp only [step, handleNewProcess, done] at found
      rcases Table.of_insert found with ⟨-, rfl⟩ | ⟨-, before⟩
      · dsimp only
        rw [kept]
        refine ⟨fixed, env, ?_⟩
        rw [fixed.length, infoBlock, length_take]
        omega
      · exact stored pid p before untaken
  | initFirstThread pid game =>
    cases game with
    | none => exact stored
    | some game =>
      intro other p found untaken
      simp only [step, handleInitFirstThread, Table.get?_modify] at found
      split_ifs at found with same
      · obtain ⟨before, at_pid, rfl⟩ := Option.map_eq_some_iff.mp found
        have kept : before.taken ∨ before.startupInfo.getD [] ≠ [] := by
          simpa [whole, at_pid] using fits
        split_ifs at untaken ⊢ with empty
        · rcases kept with taken | filled
          · exact absurd (taken.symm.trans untaken) (by decide)
          · exact absurd empty filled
        · exact stored pid before at_pid untaken
      · exact stored other p found untaken
  | getStartupInfo =>
    intro other p found untaken
    simp only [step, handleGetStartupInfo] at found
    split at found
    · exact stored other p found untaken
    · rcases Table.of_insert found with ⟨-, rfl⟩ | ⟨-, before⟩
      · cases untaken
      · exact stored other p before untaken

theorem handedOver_of_stored : HandedOver s event := by
  cases event with
  | newProcess | initFirstThread => trivial
  | getStartupInfo pid max =>
    intro p found untaken
    obtain ⟨fixed, env, size⟩ := stored pid p found untaken
    have room : (p.startupInfo.getD [] ++ p.startupEnv.getD []).length ≤ max.toNat := by
      simpa [whole, found, untaken] using fits
    refine ⟨p.startupInfo.getD [], fixed, ?_, ?_⟩
    · rw [handleGetStartupInfo, found]
      dsimp only
      rw [take_of_length_le room, env]
    · rw [handleGetStartupInfo, found]
      exact size

end

/-- The parser stays within every buffer and cuts the lengths to the info block. A child is
told what its parent sent, as long as the buffer has the block that the request claims. -/
theorem startup_handed_over (events : List StartupEvent) :
    (∀ req buf, ∃ parsed, parse req buf = some parsed ∧
      ∀ info env, parsed.startup = some (info, env) → structSize ≤ info.length →
        (lengthsOf info).sum ≤ req.infoSize.toNat - structSize) ∧
    (AllSteps step (fun s event => whole s event) start events →
      AllSteps step HandedOver start events) := by
  constructor
  · intro req buf
    obtain ⟨parsed, info, done, fixed, kept, -⟩ := parse_spec req buf
    refine ⟨parsed, done, fun block env stored long => ?_⟩
    rw [stored] at kept
    change block = info at kept
    subst kept
    have sum := sum_clampAll_le ((infoBlock req buf).length - structSize) (lengthsOf (infoBlock req buf))
    rw [← fixed.lengths (fixed.length ▸ long)] at sum
    have length : (infoBlock req buf).length ≤ req.infoSize.toNat := length_take_le _ _
    omega
  · intro fits
    exact allSteps_of_invariant stored_step handedOver_of_stored
      (fun pid p found => by simp [start] at found) fits

def requestBuf (bytes : List UInt8) : List UInt8 := replicate 80 0 ++ bytes

def wildInfo : List UInt8 :=
  replicate 64 1 ++ replicate 4 255 ++ replicate 28 0 ++ [7, 7, 7, 7]

/-- An info block of 100 bytes and an environment of two. -/
theorem startup_small_child :
    AllSteps step HandedOver start [.newProcess (some ⟨0, 0, 0, 100, 0⟩) (requestBuf (wildInfo ++ [9, 9])),
      .initFirstThread 32 none, .getStartupInfo 32 102] :=
  (startup_handed_over _).2 (by decide +kernel)

/-- The request claims 1000 bytes where the buffer has 100: so does the reply to the child. -/
theorem claimed_size_handed_over :
    ¬ AllSteps step HandedOver start [.newProcess (some ⟨0, 0, 0, 1000, 0⟩) (requestBuf wildInfo),
      .initFirstThread 32 none, .getStartupInfo 32 1000] := by
  rintro ⟨-, -, handed, -⟩
  have child : ((step (step start (.newProcess (some ⟨0, 0, 0, 1000, 0⟩) (requestBuf wildInfo)))
      (.initFirstThread 32 none)).processes.get? 32).map (fun p =>
        (p.taken, (infoBlock p.request p.buf).length)) = some (false, 100) := by decide +kernel
  have told : (handleGetStartupInfo (step (step start
      (.newProcess (some ⟨0, 0, 0, 1000, 0⟩) (requestBuf wildInfo))) (.initFirstThread 32 none))
        32 1000).1.infoSize.toNat = 1000 := by decide +kernel
  obtain ⟨p, found, facts⟩ := Option.map_eq_some_iff.mp child
  obtain ⟨untaken, length⟩ := Prod.mk.inj facts
  obtain ⟨info, fixed, -, size⟩ := handed p found untaken
  rw [told, fixed.length, length] at size
  cases size

end Triskelion.StartupInfo
