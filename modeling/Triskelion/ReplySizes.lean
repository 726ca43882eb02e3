import Triskelion.ByteWords
import Triskelion.PipeIo
import Triskelion.RegistryOps
import Triskelion.Select

/-! Replies as bytes: the two ways of writing one (`reply_fixed` and `reply_vararg` of
`event_loop/mod.rs`), and the handlers that answer with data of their own: reads, selects
with an APC, the target of a link, and what the registry and the atom table are asked for.
A client has room for 64 bytes and as many more as its request announces.

The structures of requests and replies are generated from a protocol file that is not
part of the daemon. What is used of it is that each of them has at most 64 bytes. -/

namespace Triskelion.ReplySizes

open UInt32 List
open PipeIo (maxSize receive)

open ByteWords (leBytes readWord ofBytes)

/-- A reply structure: `body` is what follows the header. -/
structure ReplyStruct where
  error : UInt32
  replySize : UInt32
  body : List UInt8
  small : body.length ≤ 56

def ReplyStruct.bytes (r : ReplyStruct) : List UInt8 :=
  leBytes r.error ++ leBytes r.replySize ++ r.body

def ReplyStruct.padded (r : ReplyStruct) : List UInt8 :=
  r.bytes ++ replicate (64 - r.bytes.length) 0

inductive Reply
  | fixed (buf : List UInt8) (len : Nat)
  | vararg (out : List UInt8)
deriving DecidableEq

def Reply.bytes : Reply → List UInt8
  | .fixed buf len => buf.take len
  | .vararg out => out

def replyFixed (r : ReplyStruct) : Reply := .fixed r.padded 64

def replyVararg (r : ReplyStruct) (vararg : List UInt8) : Reply := .vararg (r.padded ++ vararg)

def failure (error : UInt32) : Reply := replyFixed ⟨error, 0, [], by simp⟩

def maxReplyVararg (buf : List UInt8) : UInt32 :=
  if 12 ≤ buf.length then (readWord buf 8).getD 0 else 0

def varargOff : Nat := 64

/-! ### The handlers -/

inductive RequestKind
  | read
  | select
  | getKeyValue
  | enumKeyValue
  | enumKey
  | getAtomInformation
deriving DecidableEq

/-- The generated sizes of the request structures. -/
structure Protocol where
  requestSize : RequestKind → Nat
  small : ∀ kind, requestSize kind ≤ 64

/-- `read` on a descriptor that is not a pipe's or a socket's. -/
structure Files where
  read : Int → Nat → Recv
  le_max : ∀ fd max bytes, read fd max = .data bytes → bytes.length ≤ max

/-- `atoms` gives the name and the count of an atom. -/
structure AtomTable where
  atoms : Table UInt32 (List UInt8 × UInt32)
  atomNames : Table (List UInt16) UInt32

structure Server where
  pipes : PipeIo.State
  waits : Select.State
  registry : Registry
  atoms : AtomTable

structure ReadRequest where
  handle : UInt32
  user : UInt64

def readOutcome (files : Files) (s : PipeIo.State) (clientFd : Int) (req : ReadRequest)
    (maxReply : UInt32) (made : Bool) : PipeIo.ReadReply :=
  match PipeIo.entryFd s (PipeIo.clientPid s clientFd) req.handle with
  | none => ⟨0xC0000008, 0, 0, []⟩
  | some (fd, entry) =>
    if DescriptorTables.isStream entry then
      (PipeIo.handleRead s ⟨clientFd, req.handle, req.user, maxReply⟩ made).1
    else
      match files.read fd (maxSize maxReply) with
      | .data bytes => ⟨0, 0, entry.options, bytes⟩
      | .eof => ⟨0xC000014B, 0, entry.options, []⟩
      | .wouldBlock => ⟨0x103, 0, entry.options, []⟩
      | .failed => ⟨0xC0000185, 0, entry.options, []⟩

def handleRead (protocol : Protocol) (files : Files) (s : PipeIo.State) (clientFd : Int)
    (req : ReadRequest) (made : Bool) (buf : List UInt8) : Reply :=
  if buf.length < protocol.requestSize .read then failure 0xC000000D
  else
    let r := readOutcome files s clientFd req (maxReplyVararg buf) made
    let body := leBytes r.wait ++ leBytes r.options
    if r.data = [] then replyFixed ⟨r.error, 0, body, by simp [body, leBytes]⟩
    else replyVararg ⟨r.error, ofNat r.data.length, body, by simp [body, leBytes]⟩ r.data

def leBytes64 (w : UInt64) : List UInt8 := leBytes w.toUInt32 ++ leBytes (w >>> 32).toUInt32

def apcData (apc : Select.Apc) : List UInt8 :=
  leBytes apc.apcType ++ leBytes apc.status ++ leBytes64 apc.user ++ leBytes64 apc.sb ++
    leBytes apc.result

structure SelectRequest where
  prevApc : UInt32
  timeout : Int64
  size : UInt32
  cookie : UInt64

def handleSelect (protocol : Protocol) (s : Select.State) (clientFd : Int) (req : SelectRequest)
    (k : Select.SelectKernel) (buf : List UInt8) : Reply :=
  if buf.length < protocol.requestSize .select then failure 0xC000000D
  else
    let r := (Select.handleSelect s clientFd
      ⟨req.prevApc, req.timeout, req.size, req.cookie, buf.drop varargOff⟩ k).1
    let body := leBytes r.apcHandle ++ leBytes r.signaled
    match r.apc with
    | some apc =>
      replyVararg ⟨r.error, ofNat (apcData apc).length, body, by simp [body, leBytes]⟩
        (apcData apc)
    | none => replyFixed ⟨r.error, 0, body, by simp [body, leBytes]⟩

/-- `\BaseNamedObjects` in UTF-16. -/
def symlinkTarget : List UInt8 :=
  Utf16Text.leBytes (Utf16Text.encodeUtf16 "\\BaseNamedObjects".toList)

def handleQuerySymlink : Reply :=
  let total := ofNat symlinkTarget.length
  replyVararg ⟨0, total, leBytes total ++ leBytes 0, by simp [leBytes]⟩ symlinkTarget

def sendClamped (buf data : List UInt8) (body : List UInt8) (small : body.length ≤ 56) : Reply :=
  let sendLen := min data.length (maxReplyVararg buf).toNat
  replyVararg ⟨0, ofNat sendLen, body, small⟩ (data.take sendLen)

section Registry
variable [CaseMap]

section
variable (protocol : Protocol) (r : Registry) (hkey : UInt32)

def handleGetKeyValue (buf : List UInt8) : Except Panic Reply :=
  if buf.length < protocol.requestSize .getKeyValue then .ok (failure 0xC000000D)
  else (r.getValue hkey (buf.drop varargOff)).map fun
    | some (dataType, data) =>
      sendClamped buf data (leBytes dataType ++ leBytes (ofNat data.length))
        (by simp [leBytes])
    | none => replyFixed ⟨0xC0000034, 0, leBytes 0xFFFFFFFF ++ leBytes 0, by simp [leBytes]⟩

def indexOf (index : Int32) : Nat := index.toInt64.toUInt64.toNat

def handleEnumKeyValue (index : Int32) (buf : List UInt8) : Except Panic Reply :=
  if buf.length < protocol.requestSize .enumKeyValue then .ok (failure 0xC000000D)
  else (r.enumValue hkey (indexOf index)).map fun
    | some (name, dataType, data) =>
      sendClamped buf (name ++ data)
        (leBytes dataType ++ leBytes (ofNat data.length) ++
          leBytes (ofNat name.length) ++ leBytes 0) (by simp [leBytes])
    | none => failure 0x8000001A

def enumKeyBody (subkeys values maxValue maxData : Nat) (modif : UInt64) (name : List UInt8) :
    List UInt8 :=
  leBytes (ofNat subkeys) ++ leBytes 0 ++ leBytes 0 ++ leBytes (ofNat values) ++
    leBytes (ofNat maxValue) ++ leBytes (ofNat maxData) ++ leBytes64 modif ++
    leBytes (ofNat name.length) ++ leBytes (ofNat name.length)

def handleEnumKey (index : Int32) (buf : List UInt8) : Except Panic Reply :=
  if buf.length < protocol.requestSize .enumKey then .ok (failure 0xC000000D)
  else if index = -1 then
    (r.queryKey hkey).map fun
      | some (subkeys, values, maxValue, maxData) =>
        replyFixed ⟨0, 0, enumKeyBody subkeys values maxValue maxData r.writeSeq [],
          by simp [enumKeyBody, leBytes, leBytes64]⟩
      | none => failure 0xC0000008
  else
    -- the number of children is read for a log line, and can panic
    (r.queryKey hkey).bind fun _ =>
      (r.enumKey hkey (indexOf index)).map fun
        | some (name, subkeys, values) =>
          sendClamped buf name (enumKeyBody subkeys values 0 0 0 name)
            (by simp [enumKeyBody, leBytes, leBytes64])
        | none => failure 0x8000001A

end

end Registry

def handleFindAtom (t : AtomTable) (buf : List UInt8) : Reply :=
  match t.atomNames.get? (Utf16Text.ofLeBytes (buf.drop varargOff)) with
  | some atom => replyFixed ⟨0, 0, leBytes atom ++ leBytes 0, by simp [leBytes]⟩
  | none => failure 0xC0000034

def handleGetAtomInformation (protocol : Protocol) (t : AtomTable) (atom : UInt32)
    (buf : List UInt8) : Reply :=
  if buf.length < protocol.requestSize .getAtomInformation then failure 0xC000000D
  else
    match t.atoms.get? atom with
    | some (name, count) =>
      sendClamped buf name
        (leBytes count ++ leBytes 0 ++ leBytes (ofNat name.length) ++ leBytes 0)
        (by simp [leBytes])
    | none => failure 0xC0000008

inductive Query
  | read (clientFd : Int) (req : ReadRequest) (made : Bool)
  | select (clientFd : Int) (req : SelectRequest) (k : Select.SelectKernel)
  | querySymlink
  | getKeyValue (hkey : UInt32)
  | enumKeyValue (hkey : UInt32) (index : Int32)
  | enumKey (hkey : UInt32) (index : Int32)
  | findAtom
  | getAtomInformation (atom : UInt32)

def answer [CaseMap] (protocol : Protocol) (files : Files) (s : Server) (buf : List UInt8) :
    Query → Except Panic Reply
  | .read clientFd req made => .ok (handleRead protocol files s.pipes clientFd req made buf)
  | .select clientFd req k => .ok (handleSelect protocol s.waits clientFd req k buf)
  | .querySymlink => .ok handleQuerySymlink
  | .getKeyValue hkey => handleGetKeyValue protocol s.registry hkey buf
  | .enumKeyValue hkey index => handleEnumKeyValue protocol s.registry hkey index buf
  | .enumKey hkey index => handleEnumKey protocol s.registry hkey index buf
  | .findAtom => .ok (handleFindAtom s.atoms buf)
  | .getAtomInformation atom => .ok (handleGetAtomInformation protocol s.atoms atom buf)

/-! ### Replies of a given size -/

def Reply.replySize (r : Reply) : UInt32 := (readWord r.bytes 4).getD 0

theorem ReplyStruct.length_bytes (r : ReplyStruct) : r.bytes.length = 8 + r.body.length := by
  simp [ReplyStruct.bytes, leBytes]
  omega

@[simp] theorem ReplyStruct.length_padded (r : ReplyStruct) : r.padded.length = 64 := by
  have small := r.small
  rw [ReplyStruct.padded, length_append, length_replicate, r.length_bytes]
  omega

theorem ReplyStruct.readWord_padded (r : ReplyStruct) (rest : List UInt8) :
    readWord (r.padded ++ rest) 4 = some r.replySize := by
  simp [ReplyStruct.padded, ReplyStruct.bytes, leBytes, readWord, ByteWords.ofBytes_byteOf]

structure Framed (r : Reply) (n : Nat) : Prop where
  announced : r.replySize.toNat = n
  length : r.bytes.length = 64 + n

theorem framed_replyFixed {r : ReplyStruct} (bare : r.replySize = 0) : Framed (replyFixed r) 0 := by
  have sent : (replyFixed r).bytes = r.padded := take_of_length_le (by simp)
  constructor
  · have read := r.readWord_padded []
    rw [append_nil, ← sent] at read
    rw [Reply.replySize, read, bare]
    rfl
  · rw [sent, r.length_padded]

theorem framed_failure (error : UInt32) : Framed (failure error) 0 := framed_replyFixed rfl

theorem framed_replyVararg {r : ReplyStruct} {vararg : List UInt8}
    (size : r.replySize = ofNat vararg.length) (small : vararg.length < 2 ^ 32) :
    Framed (replyVararg r vararg) vararg.length := by
  constructor
  · rw [Reply.replySize, replyVararg, Reply.bytes, r.readWord_padded, Option.getD_some, size,
      toNat_ofNat', Nat.mod_eq_of_lt small]
  · rw [replyVararg, Reply.bytes, length_append, r.length_padded]

variable {data body : List UInt8}

theorem framed_sendClamped (buf : List UInt8) (small : body.length ≤ 56) :
    Framed (sendClamped buf data body small) (min data.length (maxReplyVararg buf).toNat) := by
  have bound := (maxReplyVararg buf).toNat_lt
  have taken : (data.take (min data.length (maxReplyVararg buf).toNat)).length =
      min data.length (maxReplyVararg buf).toNat := by
    rw [length_take]
    omega
  have framed := framed_replyVararg
    (r := ⟨0, ofNat (min data.length (maxReplyVararg buf).toNat), body, small⟩)
    (congrArg ofNat taken.symm) (by omega)
  rwa [taken] at framed

/-! ### The size of each reply -/

variable {s : PipeIo.State} {made : Bool}

theorem length_handleRead_le (req : PipeIo.ReadRequest) :
    (PipeIo.handleRead s req made).1.data.length ≤ maxSize req.maxReply := by
  rw [PipeIo.handleRead]
  split
  · exact Nat.zero_le _
  · next fd entry found =>
    have received : (receive s fd (maxSize req.maxReply)).1 =
        (s.sockets.recv fd (maxSize req.maxReply)).1 := rfl
    cases got : (receive s fd (maxSize req.maxReply)).1 with
    | data =>
      obtain ⟨_, ep, -, taken, -⟩ := Sockets.recv_data (received.symm.trans got)
      simp only [got]
      rw [taken, length_take]
      exact Nat.min_le_left _ _
    | eof | failed => simp [got]
    | wouldBlock => simp [got, PipeIo.keepRead]

variable {req : ReadRequest} {files : Files} {clientFd : Int}

theorem length_readOutcome_le (files : Files) (s : PipeIo.State) (clientFd : Int)
    (req : ReadRequest) (maxReply : UInt32) (made : Bool) :
    (readOutcome files s clientFd req maxReply made).data.length ≤ maxSize maxReply := by
  rw [readOutcome]
  split
  · exact Nat.zero_le _
  · split
    · exact length_handleRead_le ⟨clientFd, req.handle, req.user, maxReply⟩
    · split
      · next bytes got => exact files.le_max _ _ _ got
      all_goals exact Nat.zero_le _

theorem maxSize_lt (maxReply : UInt32) : maxSize maxReply < 2 ^ 32 := by
  have bound := maxReply.toNat_lt
  rw [maxSize]
  split <;> omega

theorem framed_handleRead (protocol : Protocol) (files : Files) (s : PipeIo.State)
    (clientFd : Int) (req : ReadRequest) (made : Bool) {buf : List UInt8} (long : 64 ≤ buf.length) :
    Framed (handleRead protocol files s clientFd req made buf)
      (readOutcome files s clientFd req (maxReplyVararg buf) made).data.length := by
  have fixed := protocol.small .read
  have bound := length_readOutcome_le files s clientFd req (maxReplyVararg buf) made
  have word := maxSize_lt (maxReplyVararg buf)
  rw [handleRead, if_neg (by omega)]
  dsimp only
  split
  · next none_ =>
    rw [none_]
    exact framed_replyFixed rfl
  · exact framed_replyVararg rfl (by omega)

@[simp] theorem length_apcData (apc : Select.Apc) : (apcData apc).length = 28 := rfl

variable {k : Select.SelectKernel}

theorem apc_handleSelect (s : Select.State) (req : Select.SelectRequest) :
    (Select.handleSelect s clientFd req k).1.apc.isSome = (Select.popApc s clientFd).isSome := by
  rw [Select.handleSelect]
  cases Select.popApc s clientFd with
  | some => rfl
  | none =>
    dsimp only
    split
    · rfl
    · rw [Select.waitFor]
      split <;> rfl

theorem framed_handleSelect (protocol : Protocol) (s : Select.State)
    (req : SelectRequest) {buf : List UInt8} (long : 64 ≤ buf.length) :
    Framed (handleSelect protocol s clientFd req k buf)
      (if (Select.popApc s clientFd).isSome then 28 else 0) := by
  have fixed := protocol.small .select
  rw [handleSelect, if_neg (by omega), ← apc_handleSelect s
    ⟨req.prevApc, req.timeout, req.size, req.cookie, buf.drop varargOff⟩]
  generalize (Select.handleSelect s clientFd _ k).1 = r
  cases carried : r.apc with
  | some =>
    simp only [carried, Option.isSome_some, if_true]
    exact framed_replyVararg rfl (by simp)
  | none =>
    simp only [carried, Option.isSome_none, Bool.false_eq_true, if_false]
    exact framed_replyFixed rfl

theorem length_symlinkTarget : symlinkTarget.length = 34 := by decide +kernel

theorem framed_handleQuerySymlink : Framed handleQuerySymlink 34 := by
  have framed := framed_replyVararg
    (r := ⟨0, ofNat symlinkTarget.length,
      leBytes (ofNat symlinkTarget.length) ++ leBytes 0, by simp [leBytes]⟩)
    rfl (by decide)
  rwa [length_symlinkTarget] at framed

def WithinMax (buf : List UInt8) (r : Reply) : Prop :=
  ∃ n ≤ (maxReplyVararg buf).toNat, Framed r n

theorem withinMax_bare {buf : List UInt8} {r : Reply} (framed : Framed r 0) : WithinMax buf r :=
  ⟨0, Nat.zero_le _, framed⟩

theorem withinMax_sendClamped (buf : List UInt8) (small : body.length ≤ 56) :
    WithinMax buf (sendClamped buf data body small) :=
  ⟨_, Nat.min_le_right _ _, framed_sendClamped buf small⟩

theorem withinMax_of_map {α : Type} {buf : List UInt8} {found : Except Panic α}
    {reply : α → Reply} (each : ∀ a, WithinMax buf (reply a)) {r : Reply}
    (answered : found.map reply = .ok r) : WithinMax buf r := by
  cases found with
  | error => cases answered
  | ok a =>
    cases answered
    exact each a

section Registry
variable [CaseMap] {protocol : Protocol} {registry : Registry} {hkey : UInt32}
  {buf : List UInt8} {r : Reply}

theorem withinMax_handleGetKeyValue
    (answered : handleGetKeyValue protocol registry hkey buf = .ok r) : WithinMax buf r := by
  rw [handleGetKeyValue] at answered
  split at answered
  · cases answered
    exact withinMax_bare (framed_failure _)
  · refine withinMax_of_map (fun found => ?_) answered
    rcases found with _ | ⟨dataType, data⟩
    · exact withinMax_bare (framed_replyFixed rfl)
    · exact withinMax_sendClamped _ _

variable {index : Int32}

theorem withinMax_handleEnumKeyValue
    (answered : handleEnumKeyValue protocol registry hkey index buf = .ok r) : WithinMax buf r := by
  rw [handleEnumKeyValue] at answered
  split at answered
  · cases answered
    exact withinMax_bare (framed_failure _)
  · refine withinMax_of_map (fun found => ?_) answered
    rcases found with _ | ⟨name, dataType, data⟩
    · exact withinMax_bare (framed_failure _)
    · exact withinMax_sendClamped _ _

theorem withinMax_handleEnumKey
    (answered : handleEnumKey protocol registry hkey index buf = .ok r) : WithinMax buf r := by
  rw [handleEnumKey] at answered
  split at answered
  · cases answered
    exact withinMax_bare (framed_failure _)
  split at answered
  · refine withinMax_of_map (fun found => ?_) answered
    rcases found with _ | ⟨subkeys, values, maxValue, maxData⟩
    · exact withinMax_bare (framed_failure _)
    · exact withinMax_bare (framed_replyFixed rfl)
  · cases counted : registry.queryKey hkey with
    | error =>
      rw [counted] at answered
      cases answered
    | ok =>
      rw [counted] at answered
      refine withinMax_of_map (fun found => ?_) answered
      rcases found with _ | ⟨name, subkeys, values⟩
      · exact withinMax_bare (framed_failure _)
      · exact withinMax_sendClamped _ _

end Registry

variable {t : AtomTable}

theorem withinMax_handleFindAtom (buf : List UInt8) : WithinMax buf (handleFindAtom t buf) := by
  rw [handleFindAtom]
  split
  · exact withinMax_bare (framed_replyFixed rfl)
  · exact withinMax_bare (framed_failure _)

theorem withinMax_handleGetAtomInformation (protocol : Protocol) (atom : UInt32)
    (buf : List UInt8) : WithinMax buf (handleGetAtomInformation protocol t atom buf) := by
  rw [handleGetAtomInformation]
  split
  · exact withinMax_bare (framed_failure _)
  split
  · exact withinMax_sendClamped _ _
  · exact withinMax_bare (framed_failure _)

/-! ### The contract with the client -/

/-- Three handlers do not look at the room that the client has: a read when none is
announced, a select that delivers an APC of 28 bytes, and the query of a link, whose target
has 34. -/
def fits (files : Files) (s : Server) (buf : List UInt8) : Query → Bool
  | .read clientFd req made =>
    maxReplyVararg buf ≠ 0 ∨ (readOutcome files s.pipes clientFd req 0 made).data = []
  | .select clientFd _ _ => (Select.popApc s.waits clientFd).isNone ∨ 28 ≤ maxReplyVararg buf
  | .querySymlink => 34 ≤ maxReplyVararg buf
  | _ => true

/-- The reply has as many bytes as it says, and no more than the client has room for exactly
if `room` holds. -/
structure Sized (buf : List UInt8) (r : Reply) (room : Prop) : Prop where
  length : r.bytes.length = 64 + r.replySize.toNat
  le_max : r.replySize ≤ maxReplyVararg buf ↔ room

theorem Framed.sized {buf : List UInt8} {r : Reply} {n : Nat} {room : Prop} (framed : Framed r n)
    (within : n ≤ (maxReplyVararg buf).toNat ↔ room) : Sized buf r room := by
  constructor
  · rw [framed.announced, framed.length]
  · rw [le_iff_toNat_le, framed.announced, within]

theorem WithinMax.sized {buf : List UInt8} {r : Reply} (within : WithinMax buf r) :
    Sized buf r (true) := by
  obtain ⟨n, le, framed⟩ := within
  exact framed.sized (iff_of_true le rfl)

theorem sized_of_answer [CaseMap] {protocol : Protocol} {s : Server}
    {buf : List UInt8} {q : Query} {r : Reply} (long : 64 ≤ buf.length)
    (answered : answer protocol files s buf q = .ok r) : Sized buf r (fits files s buf q) := by
  cases q with
  | read clientFd req made =>
    cases answered
    refine (framed_handleRead protocol files s.pipes clientFd req made long).sized ?_
    simp only [fits, decide_eq_true_eq]
    by_cases none_ : maxReplyVararg buf = 0
    · simp [none_]
    · have le := length_readOutcome_le files s.pipes clientFd req (maxReplyVararg buf) made
      rw [maxSize, if_neg none_] at le
      exact iff_of_true le (.inl none_)
  | select clientFd req k =>
    cases answered
    refine (framed_handleSelect protocol s.waits req long).sized ?_
    simp only [fits, decide_eq_true_eq]
    cases Select.popApc s.waits clientFd with
    | none => simp
    | some => simp [le_iff_toNat_le]
  | querySymlink =>
    cases answered
    refine framed_handleQuerySymlink.sized ?_
    simp [fits, le_iff_toNat_le]
  | getKeyValue => exact (withinMax_handleGetKeyValue answered).sized
  | enumKeyValue => exact (withinMax_handleEnumKeyValue answered).sized
  | enumKey => exact (withinMax_handleEnumKey answered).sized
  | findAtom =>
    cases answered
    exact (withinMax_handleFindAtom buf).sized
  | getAtomInformation atom =>
    cases answered
    exact (withinMax_handleGetAtomInformation protocol atom buf).sized

/-- Every reply has the 64 bytes that clients read first and then as many as it says, and it
fits into the room that the client announced exactly if the handler looks at that room or
happens not to need it. -/
theorem reply_within_max_iff [CaseMap] (protocol : Protocol) (files : Files) (s : Server)
    (buf : List UInt8) (q : Query) (r : Reply) (long : 64 ≤ buf.length)
    (answered : answer protocol files s buf q = .ok r) : r.bytes.length = 64 + r.replySize.toNat ∧
      (r.replySize ≤ maxReplyVararg buf ↔ fits files s buf q) :=
  ⟨(sized_of_answer long answered).length, (sized_of_answer long answered).le_max⟩

def wideProtocol : Protocol := ⟨fun _ => 64, fun _ => le_rfl⟩

def noFiles : Files := ⟨fun _ _ => .failed, fun _ _ _ got => by cases got⟩

def busyServer : Server where
  pipes := {
    clients := Table.empty.insert 7 32
    processes := Table.empty.insert 32
      (HandleTable.new.allocateFull ⟨0x1000, some 10, fdTypeDevice, 0, 0⟩).2
    nextObjectId := 0x1001
    ioWaitHandles := .empty
    events := .empty
    pendingReads := .empty
    pendingPipeReads := []
    completedPipeReads := []
    completedIoctls := .empty
    sockets := ⟨Table.empty.insert 10 0, Table.empty.insert 0 ⟨[9], 16, 1, false⟩⟩
    nextRead := 0
    stalled := false }
  waits := { Select.State.start .empty .empty with
    pendingKernelApcs := Table.empty.insert 7 [⟨2, 0, 0, 0, 0, 0, false⟩] }
  registry := Registry.empty []
  atoms := ⟨Table.empty.insert 0xC000 ([65, 0, 66, 0], 1), .empty⟩

def requestWith (room : UInt8) : List UInt8 :=
  replicate 8 0 ++ [room] ++ replicate 55 0

/-- Two of four bytes are sent to a client that has room for two. -/
theorem atom_name_within_max :
    (handleGetAtomInformation wideProtocol busyServer.atoms 0xC000 (requestWith 2)).bytes.length =
        66 ∧
      (handleGetAtomInformation wideProtocol busyServer.atoms 0xC000 (requestWith 2)).replySize ≤
        maxReplyVararg (requestWith 2) := by
  have held := @reply_within_max_iff asciiCase wideProtocol noFiles busyServer
    (requestWith 2) (.getAtomInformation 0xC000) _ (by decide) rfl
  refine ⟨held.1.trans ?_, held.2.mpr rfl⟩
  decide +kernel

/-- A client that announced no room is sent the byte that it reads, the APC, and the whole
target of the link. -/
theorem replies_beyond_max : ∃ buf : List UInt8, 64 ≤ buf.length ∧
      (¬ (handleRead wideProtocol noFiles busyServer.pipes 7 ⟨4, 0⟩ true buf).replySize ≤
        maxReplyVararg buf) ∧
      (¬ (handleSelect wideProtocol busyServer.waits 7 ⟨0, 0, 0, 0⟩
        ⟨fun _ => true, .timedOut, true, true, 0, 0, 0, 0⟩ buf).replySize ≤ maxReplyVararg buf) ∧
      ¬ handleQuerySymlink.replySize ≤ maxReplyVararg buf := by
  refine ⟨requestWith 0, by decide, ?_, ?_, ?_⟩ <;> decide +kernel

end Triskelion.ReplySizes
