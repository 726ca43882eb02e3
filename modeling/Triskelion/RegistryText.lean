import Triskelion.RegistryOps
import Triskelion.TextScan

/-! The `.reg` text of a hive: `save_to_prefix` writes a key as a header line and one
line for each value, and `load_reg_file` reads such lines back into the tree. -/

namespace Triskelion.RegistryText
open RegistryKey RegistryWalk TextScan Utf16Text

def replaceChar (c : Char) (new : Str) (s : Str) : Str :=
  s.flatMap fun d => if d = c then new else [d]

def escapeText (s : Str) : Str := replaceChar '"' ['\\', '"'] (replaceChar '\\' ['\\', '\\'] s)

def u32LeBytes (n : Nat) : List UInt8 :=
  [UInt8.ofNat (n % 256), UInt8.ofNat (n / 256 % 256), UInt8.ofNat (n / 65536 % 256),
    UInt8.ofNat (n / 16777216 % 256)]

def strToUtf16leNull (s : Str) : List UInt8 := leBytes (encodeUtf16 s ++ [0])

def nameText (name : Str) : Str :=
  if name = [] ∨ name = ['@'] then ['@'] else '"' :: escapeText name ++ ['"']

def hexText (data : List UInt8) : Str := [','].intercalate (data.map fun b => formatHex 2 b.toNat)

def valueText (v : RegistryValue) : Option Str :=
  if v.dataType = 1 then some ('"' :: escapeText (trimmedText v.data) ++ ['"'])
  else if v.dataType = 2 then
    some ("str(2):".toList ++ '"' :: escapeText (trimmedText v.data) ++ ['"'])
  else if v.dataType = 4 then
    match v.data with
    | a :: b :: c :: d :: _ => some ("dword:".toList ++
        formatHex 8 (a.toNat + 256 * b.toNat + 65536 * c.toNat + 16777216 * d.toNat))
    | _ => none
  else some ("hex(".toList ++ formatHex 0 v.dataType.toNat ++ "):".toList ++ hexText v.data)

def headerLine (path : Str) : Str := '[' :: path ++ "] 1773790329".toList

def unlines (written : List Str) : Str := written.flatMap fun line => line ++ ['\n']

/-- `contains`. -/
def containsText (pattern s : Str) : Bool := s.tails.any pattern.isPrefixOf

def childPath (path name : Str) : Str :=
  if path = [] then name else path ++ '\\' :: '\\' :: name

/-- `replacen(_, _, 1)`. -/
def replaceFirst (pattern new : Str) : Str → Str
  | [] => []
  | c :: rest =>
    match stripStart pattern (c :: rest) with
    | some after => new ++ after
    | none => c :: replaceFirst pattern new rest

def fileHeader (rootPrefix : Str) : List Str :=
  ["WINE REGISTRY Version 2".toList,
    ";; All keys relative to ".toList ++
      replaceFirst "Registry\\".toList "REGISTRY\\\\".toList rootPrefix,
    [], "#arch=win64".toList, []]

def parseQuotedName : Str → Option (Str × Str)
  | [] => none
  | '\\' :: rest =>
    match rest with
    | [] => none
    | esc :: rest =>
      (parseQuotedName rest).map fun found =>
        (if esc = '\\' ∨ esc = '"' then esc :: found.1 else '\\' :: esc :: found.1, found.2)
  | '"' :: rest => some ([], rest)
  | c :: rest => (parseQuotedName rest).map fun found => (c :: found.1, found.2)

def unescapeRegString : Str → Str
  | [] => []
  | '\\' :: rest =>
    match rest with
    | [] => ['\\']
    | '\\' :: rest => '\\' :: unescapeRegString rest
    | '"' :: rest => '"' :: unescapeRegString rest
    | '0' :: rest => '\x00' :: unescapeRegString rest
    | 'a' :: rest => '\x07' :: unescapeRegString rest
    | 'b' :: rest => '\x08' :: unescapeRegString rest
    | 't' :: rest => '\t' :: unescapeRegString rest
    | 'n' :: rest => '\n' :: unescapeRegString rest
    | 'r' :: rest => '\r' :: unescapeRegString rest
    | 'e' :: rest => '\x1b' :: unescapeRegString rest
    | other :: rest => '\\' :: other :: unescapeRegString rest
  | c :: rest => c :: unescapeRegString rest

def parseHexBytes (s : Str) : List UInt8 :=
  (s.splitOn ',').filterMap fun b => (fromStrRadix16 256 (trim b)).map UInt8.ofNat

def afterEquals : Str × Str → Option (Str × Str)
  | (name, '=' :: rest) => some (name, rest)
  | _ => none

def splitValueLine (line : Str) : Option (Str × Str) :=
  match line with
  | '@' :: '=' :: rest => some ([], rest)
  | '"' :: rest => (parseQuotedName rest).bind afterEquals
  | _ => none

def quotedSlice (inner : Str) : Except Panic Str :=
  match inner.getLast? with
  | none => .error .sliceOrder
  | some c => if c.utf8Size = 1 then .ok inner.dropLast else .error .charBoundary

def trimQuotes (s : Str) : Str := (s.dropWhile (· == '"')).rdropWhile (· == '"')

def parseTyped (rest : Str) : Option RegistryValue :=
  if let some digits := stripStart "dword:".toList rest then
    some ⟨4, u32LeBytes ((fromStrRadix16 0x100000000 (trim digits)).getD 0)⟩
  else if let some hex := stripStart "hex:".toList rest then
    some ⟨3, parseHexBytes hex⟩
  else if let some quoted := stripStart "str(2):".toList rest then
    some ⟨2, strToUtf16leNull (unescapeRegString (trimQuotes quoted))⟩
  else if let some quoted := stripStart "str(6):".toList rest then
    some ⟨6, leBytes (encodeUtf16 (unescapeRegString (trimQuotes quoted)))⟩
  else if let some typed := stripStart "hex(".toList rest then
    (splitAtPair ')' ':' typed).map fun found =>
      ⟨UInt32.ofNat ((fromStrRadix16 0x100000000 found.1).getD 3), parseHexBytes found.2⟩
  else none

def parseData (rest : Str) : Except Panic (Option RegistryValue) :=
  match rest with
  | '"' :: inner =>
    (quotedSlice inner).map fun text => some ⟨1, strToUtf16leNull (unescapeRegString text)⟩
  | _ => .ok (parseTyped rest)

def endsWithBackslash (s : Str) : Bool := s.getLast? = some '\\'

def isSkippedLine (trimmed : Str) : Bool :=
  trimmed.isEmpty || trimmed.head? = some ';' || trimmed.head? = some '#' ||
    "WINE REGISTRY".toList.isPrefixOf trimmed

def headerSegments (trimmed : Str) : List Str :=
  (splitDouble '\\' (trimmed.tail.takeWhile fun c => c ≠ ']')).filter fun s => !s.isEmpty

variable [CaseMap]

/-- The values that are written: those listed and stored, in the order of the list. -/
def listedValues (n : RegistryKey) : List (Str × RegistryValue) :=
  n.valueNames.filterMap fun name => (n.value name).map fun v => (name, v)

def valueLines (n : RegistryKey) : List Str :=
  (listedValues n).filterMap fun e => (valueText e.2).map fun text => nameText e.1 ++ '=' :: text

def keyLines (path : Str) (n : RegistryKey) : List Str :=
  headerLine path :: valueLines n ++ [[]]

def skipsKey (path : Str) : Bool :=
  containsText "currentcontrolset".toList (lower path) && containsText "services".toList (lower path)

/-- What stands under names, in the order of the lower-case names. -/
def inOrder {α : Type} (parts : List (Str × List α)) : List α :=
  (parts.insertionSort fun a b => strLe (lower a.1) (lower b.1)).flatMap Prod.snd

mutual

def writeKey : RegistryKey → Str → Str
  | ⟨children, values, valueNames⟩, path =>
    if skipsKey path then []
    else unlines (keyLines path ⟨children, values, valueNames⟩) ++ inOrder (writeChildren children path)

def writeChildren : List (Str × RegistryKey) → Str → List (Str × Str)
  | [], _ => []
  | (name, c) :: rest, path => (name, writeKey c (childPath path name)) :: writeChildren rest path

end

/-- The text of one hive; a root without subkeys, which `count_keys` counts as one
key, is not written. -/
def hiveText (rootPrefix : Str) (hive : RegistryKey) : Option Str :=
  if hive.children = [] then none
  else some (unlines (fileHeader rootPrefix) ++ inOrder (writeChildren hive.children []))

def hiveFiles (userSid : Str) : List (Str × Str) :=
  [("system.reg".toList, "Registry\\Machine".toList),
    ("user.reg".toList, "Registry\\User\\".toList ++ userSid),
    ("userdef.reg".toList, "Registry\\User\\.Default".toList)]

def saveToPrefix (userSid : Str) (root : RegistryKey) : List (Str × Str) :=
  (hiveFiles userSid).filterMap fun file =>
    ((node (splitPath file.2) root).bind (hiveText file.2)).map fun text => (file.1, text)

/-- `parse_reg_value`: the tree with the value of the line, if it has one. -/
def parseRegValue (line : Str) (path : List Str) (root : RegistryKey) : Except Panic RegistryKey :=
  if path = [] then .ok root
  else match splitValueLine line with
    | none => .ok root
    | some (name, rest) => (parseData rest).map fun
      | none => root
      | some v => walkMutCreate path (.setValue name v) root

/-- What `load_reg_file` carries from line to line. -/
structure LoadState where
  root : RegistryKey
  currentPath : List Str
  continuation : Str

section
variable (rootSegments : List Str) (st : LoadState)

def loadHeader (trimmed : Str) : LoadState :=
  let path := followSymlink st.root (rootSegments ++ headerSegments trimmed)
  { st with root := walkMutCreate path id st.root, currentPath := path }

def loadLine (line : Str) : Except Panic LoadState :=
  let trimmed := trim line
  if st.continuation ≠ [] then
    if endsWithBackslash trimmed then
      .ok { st with continuation := st.continuation ++ trimmed.dropLast }
    else
      (parseRegValue (st.continuation ++ trimmed) st.currentPath st.root).map fun root =>
        { st with root, continuation := [] }
  else if isSkippedLine trimmed then .ok st
  else if trimmed.head? = some '[' then
    .ok (if ']' ∈ trimmed then loadHeader rootSegments st trimmed else st)
  else if endsWithBackslash trimmed then .ok { st with continuation := trimmed.dropLast }
  else (parseRegValue trimmed st.currentPath st.root).map fun root => { st with root }

end

def loadLines (rootSegments : List Str) : LoadState → List Str → LoadState × Option Panic
  | st, [] => (st, none)
  | st, line :: rest =>
    match loadLine rootSegments st line with
    | .ok st => loadLines rootSegments st rest
    | .error p => (st, some p)

def loadRegFile (root : RegistryKey) (content rootPrefix : Str) : RegistryKey × Option Panic :=
  let (st, panic) := loadLines (splitPath rootPrefix) ⟨root, [], []⟩ (lines content)
  (st.root, panic)

/-- `load_prefix_registry` from the files of the prefix; a file that is missing is passed over. -/
def loadPrefixRegistry (userSid : Str) (files : List (Str × Str)) (root : RegistryKey) :
    Except Panic RegistryKey :=
  (hiveFiles userSid).foldlM (fun root file =>
    match KeyedTable.get id file.1 files with
    | none => .ok root
    | some content =>
      match loadRegFile root content file.2 with
      | (root, none) => .ok root
      | (_, some p) => .error p) root

end Triskelion.RegistryText
