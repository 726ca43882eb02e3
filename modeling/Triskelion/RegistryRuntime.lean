import Triskelion.RegistryText

/-! The keys that the server builds itself: `init_runtime_keys` at startup, and the
display keys from the hardware data of `display.rs`. Each function is the list of
edits it makes, one key and one value at a time, in its order. -/

namespace Triskelion.RegistryRuntime
open KeyedTable RegistryKey RegistryWalk RegistryText TextScan Utf16Text

inductive NodeEdit
  /-- `walk_mut_create` alone. -/
  | ensure
  /-- Listed if it is not yet stored, then stored. -/
  | set (name : Str) (v : RegistryValue)
  /-- Listed if it is not yet listed, then stored. -/
  | setByNames (name : Str) (v : RegistryValue)
  /-- Listed in any case, and stored. -/
  | push (name : Str) (v : RegistryValue)
  /-- Stored, and never listed. -/
  | store (name : Str) (v : RegistryValue)
  /-- Listed and stored if it is not yet stored. -/
  | addMissing (name : Str) (v : RegistryValue)

abbrev KeyEdit := List Str × NodeEdit

def under (path : Str) (edits : List NodeEdit) : List KeyEdit :=
  edits.map fun e => (splitPath path, e)

def regSz (s : Str) : RegistryValue := ⟨1, strToUtf16leNull s⟩

def regExpandSz (s : Str) : RegistryValue := ⟨2, strToUtf16leNull s⟩

def regDword (n : Nat) : RegistryValue := ⟨4, u32LeBytes n⟩

def regBinary (data : List UInt8) : RegistryValue := ⟨3, data⟩

def multiSz (strings : List Str) : RegistryValue :=
  ⟨7, strings.flatMap strToUtf16leNull ++ [0, 0]⟩

def classPath : Str :=
  "Registry\\Machine\\System\\ControlSet001\\Control\\Class\\\x7b4d36e968-e325-11ce-bfc1-08002be10318\x7d".toList

def nullVideoPath : Str :=
  "Registry\\Machine\\System\\ControlSet001\\Control\\Video\\\x7b00000000-0000-0000-0000-000000000000\x7d\\0000".toList

def devmapPath : Str := "Registry\\Machine\\Hardware\\DeviceMap\\Video".toList

def applyDisplayDriver (userSid drvShort drvDll : Str) : List KeyEdit :=
  under ("Registry\\User\\".toList ++ userSid ++ "\\Software\\Wine\\Drivers".toList)
      [.setByNames "Graphics".toList (regSz drvShort)] ++
    under nullVideoPath [.setByNames "GraphicsDriver".toList (regSz drvDll)]

def adapterValues : List NodeEdit :=
  [.push "DriverDesc".toList (regSz "Wine Display Adapter".toList),
    .push "HardwareInformation.AdapterString".toList (regSz "Wine Display Adapter".toList),
    .push "HardwareInformation.BiosString".toList (regSz "Wine Display Adapter".toList),
    .push "HardwareInformation.ChipType".toList (regSz "Wine Display Adapter".toList),
    .push "HardwareInformation.DacType".toList (regSz "Intergrated RAMDAC".toList),
    .push "HardwareInformation.MemorySize".toList (regDword 0x10000000)]

def deviceValues (classGuid : String) : List NodeEdit :=
  [.push "ClassGUID".toList (regSz classGuid.toList),
    .push "Driver".toList (regSz (classGuid ++ "\\0000").toList)]

def svchostGroups : List (String × List String) :=
  [("netsvcs", ["Themes", "BITS", "AudioEndpointBuilder", "Audiosrv", "CertPropSvc",
      "LanmanWorkstation", "ProfSvc", "SENS", "ShellHWDetection"]),
    ("LocalServiceNetworkRestricted", ["nsi", "DhcpSvc", "EventLog"]),
    ("LocalService", ["nsi", "WinHttpAutoProxySvc"]),
    ("LocalServiceNoNetwork", ["PLA"]),
    ("LocalSystemNetworkRestricted", ["WPDBusEnum"])]

structure Service where
  name : String
  svcType : Nat
  start : Nat
  imagePath : String
  group : String
  params : List (String × String)

def services : List Service :=
  [⟨"nsi", 0x20, 2, "%SystemRoot%\\system32\\svchost.exe -k LocalServiceNetworkRestricted",
      "TDI", [("ServiceDll", "%SystemRoot%\\system32\\nsisvc.dll")]⟩,
    ⟨"nsiproxy", 1, 1, "system32\\drivers\\nsiproxy.sys", "PNP_TDI", []⟩,
    ⟨"NDIS", 1, 1, "system32\\drivers\\ndis.sys", "NDIS", []⟩,
    ⟨"Dhcp", 0x20, 2, "%SystemRoot%\\system32\\svchost.exe -k LocalServiceNetworkRestricted",
      "TDI", [("ServiceDll", "%SystemRoot%\\system32\\dhcpsvc.dll")]⟩,
    ⟨"Eventlog", 0x20, 2, "%SystemRoot%\\system32\\svchost.exe -k LocalServiceNetworkRestricted",
      "", [("ServiceDll", "%SystemRoot%\\system32\\wevtsvc.dll")]⟩,
    ⟨"SharedGpuResources", 1, 2, "C:\\windows\\system32\\drivers\\sharedgpures.sys",
      "System Bus Extender", []⟩,
    ⟨"MountMgr", 1, 0, "system32\\drivers\\mountmgr.sys", "System Bus Extender", []⟩,
    ⟨"Winedevice1", 0x10, 3, "%SystemRoot%\\system32\\winedevice.exe", "", []⟩,
    ⟨"Winedevice2", 0x10, 3, "%SystemRoot%\\system32\\winedevice.exe", "", []⟩,
    ⟨"winebus", 1, 2, "system32\\drivers\\winebus.sys", "", []⟩,
    ⟨"wineusb", 1, 2, "system32\\drivers\\wineusb.sys", "", []⟩,
    ⟨"winebth", 1, 2, "system32\\drivers\\winebth.sys", "", []⟩]

def serviceEdits (s : Service) : List KeyEdit :=
  let path := "Registry\\Machine\\System\\ControlSet001\\Services\\".toList ++ s.name.toList
  under path
      ([.set "Type".toList (regDword s.svcType), .set "Start".toList (regDword s.start),
          .set "ImagePath".toList (regExpandSz s.imagePath.toList)] ++
        if s.group = "" then [] else [.set "Group".toList (regSz s.group.toList)]) ++
    under (path ++ "\\Parameters".toList)
      (s.params.map fun p => .addMissing p.1.toList (regExpandSz p.2.toList))

/-- A row of `COM_CLASSES`: class id, dll path and threading model. -/
structure ComClass where
  clsid : Str
  dllPath : Str
  threading : Str

def comClassEdits (c : ComClass) : List KeyEdit :=
  under ("Registry\\Machine\\Software\\Classes\\CLSID\\".toList ++ c.clsid ++
      "\\InprocServer32".toList)
    [.set [] (regSz c.dllPath), .set "ThreadingModel".toList (regSz c.threading)]

/-- `SymbolicLinkValue`, as it is spelled where it is written. -/
def linkValueName : Str := "SymbolicLinkValue".toList

def currentControlSetPath : Str := "Registry\\Machine\\System\\CurrentControlSet".toList

def currentControlSetLink : RegistryValue :=
  ⟨6, leBytes (encodeUtf16 "\\Registry\\Machine\\System\\ControlSet001".toList)⟩

section
variable (comClasses : List ComClass) (userSid : Str)

/-- `init_runtime_keys` after the link; the table of COM classes is a parameter. -/
def keysAfterLink : List KeyEdit :=
  applyDisplayDriver userSid "x11".toList "winex11.drv".toList ++
  under devmapPath [.push "\\Device\\Video0".toList (regSz
    "\\Registry\\Machine\\System\\CurrentControlSet\\Control\\Video\\\x7b00000000-0000-0000-0000-000000000000\x7d\\0000".toList)] ++
  under classPath [.push "Class".toList (regSz "Display".toList)] ++
  under (classPath ++ "\\0000".toList) adapterValues ++
  under nullVideoPath adapterValues ++
  under "Registry\\Machine\\System\\ControlSet001\\Enum\\PCI\\VEN_0000&DEV_0000&SUBSYS_00000000&REV_00\\0000".toList
    (deviceValues "\x7b4d36e968-e325-11ce-bfc1-08002be10318\x7d") ++
  under "Registry\\Machine\\System\\ControlSet001\\Enum\\DISPLAY\\Default_Monitor\\0000&0000".toList
    (deviceValues "\x7b4d36e96e-e325-11ce-bfc1-08002be10318\x7d") ++
  under "Registry\\Machine\\System\\ControlSet001\\Control\\Class\\\x7b4d36e96e-e325-11ce-bfc1-08002be10318\x7d\\0000".toList
    [.ensure] ++
  under ("Registry\\User\\".toList ++ userSid ++ "\\Software\\Wine\\X11 Driver".toList)
    [.push "UseEGL".toList (regSz "N".toList)] ++
  under "Registry\\Machine\\Software\\Microsoft\\Windows NT\\CurrentVersion\\Windows".toList
    [.push "AppInit_DLLs".toList (regSz "drv_init.dll".toList),
      .push "LoadAppInit_DLLs".toList (regDword 1)] ++
  under "Registry\\Machine\\Software\\Microsoft\\Windows NT\\CurrentVersion\\SvcHost".toList
    (svchostGroups.map fun g => .set g.1.toList (multiSz (g.2.map String.toList))) ++
  services.flatMap serviceEdits ++
  comClasses.flatMap comClassEdits

/-- `init_runtime_keys`, which makes the link `CurrentControlSet` first. -/
def initRuntimeKeys : List KeyEdit :=
  under currentControlSetPath [.addMissing linkValueName currentControlSetLink] ++
    keysAfterLink comClasses userSid

end

structure GpuData where
  pciVendor : UInt32
  pciDevice : UInt32
  pciSubsysVendor : UInt32
  pciSubsysDevice : UInt32
  pciRevision : UInt32
  gpuName : Str
  vramBytes : UInt64

structure ModeData where
  width : UInt32
  height : UInt32
  refresh : UInt32

structure ConnectorData where
  name : Str
  edid : List UInt8
  modes : List ModeData
  currentWidth : UInt32
  currentHeight : UInt32
  currentRefresh : UInt32

structure DisplayData where
  gpu : GpuData
  connectors : List ConnectorData
  driverChoice : UInt8

/-- `{:0w$X}`. -/
def formatHexUpper (width n : Nat) : Str := (formatHex width n).map Char.toUpper

def formatDec (width n : Nat) : Str := (Nat.toDigits 10 n).leftpad width '0'

namespace DisplayData

def displayDriver (dd : DisplayData) : Str × Str :=
  if dd.driverChoice = 2 then ("wayland".toList, "winewayland.drv".toList)
  else ("x11".toList, "winex11.drv".toList)

def gpuGuid (dd : DisplayData) : Str :=
  formatHex 4 dd.gpu.pciVendor.toNat ++ formatHex 4 dd.gpu.pciDevice.toNat ++
    "-0000-0000-0000-000000000000".toList

/-- The three letters that bytes 8 and 9 of an EDID pack into fifteen bits. -/
def edidManufacturer (edid : List UInt8) : Str :=
  match edid[8]?, edid[9]? with
  | some a, some b =>
    let raw := a.toNat * 256 + b.toNat
    [raw / 1024 % 32, raw / 32 % 32, raw % 32].map fun n => Char.ofNat (n + 65 - 1)
  | _, _ => "UNK".toList

def edidProduct (edid : List UInt8) : Nat :=
  match edid[10]?, edid[11]? with
  | some a, some b => a.toNat + 256 * b.toNat
  | _, _ => 0

end DisplayData

def pciName (gpu : GpuData) : Str :=
  "VEN_".toList ++ formatHexUpper 4 gpu.pciVendor.toNat ++ "&DEV_".toList ++
    formatHexUpper 4 gpu.pciDevice.toNat ++ "&SUBSYS_".toList ++
    formatHexUpper 4 gpu.pciSubsysDevice.toNat ++ formatHexUpper 4 gpu.pciSubsysVendor.toNat ++
    "&REV_".toList ++ formatHexUpper 2 gpu.pciRevision.toNat

def buildDevmodew (width height refresh : UInt32) (bpp : Nat) : List UInt8 :=
  List.replicate 0x40 0 ++ [0x01, 0x04, 0x01, 0x04, 188, 0, 0, 0] ++ u32LeBytes 0x580101 ++
    List.replicate 0x20 0 ++ u32LeBytes bpp ++ u32LeBytes width.toNat ++
    u32LeBytes height.toNat ++ List.replicate 4 0 ++ u32LeBytes refresh.toNat ++
    List.replicate 60 0

def videoSourcePath (controlSet : String) (guid name : Str) : Str :=
  controlSet.toList ++ "\\Control\\Video\\\x7b".toList ++ guid ++ "\x7d\\Sources\\".toList ++ name

def sourceModes (gpu : GpuData) (index : Nat) (conn : ConnectorData) : List NodeEdit :=
  let modes := conn.modes.flatMap fun m => buildDevmodew m.width m.height m.refresh 32
  let current :=
    (buildDevmodew conn.currentWidth conn.currentHeight conn.currentRefresh 32).drop 0x48
  let gpuPath := "\\Registry\\Machine\\System\\CurrentControlSet\\Enum\\PCI\\".toList ++
    pciName gpu ++ "\\0000".toList
  [.set "ModeCount".toList (regDword conn.modes.length), .set "Modes".toList (regBinary modes),
    .set "Current".toList (regBinary current), .set "Registry".toList (regBinary current),
    .set "GPUID".toList (regSz gpuPath),
    .set "StateFlags".toList (regDword (if index = 0 then 5 else 1)),
    .set "Dpi".toList (regDword 96), .set "Depth".toList (regDword 32)]

def connectorEdits (dd : DisplayData) (index : Nat) (conn : ConnectorData) : List KeyEdit :=
  under (videoSourcePath "Registry\\Machine\\System\\ControlSet001" dd.gpuGuid conn.name)
      ([.set "DefaultSettings.BitsPerPel".toList (regDword 32),
          .set "DefaultSettings.XResolution".toList (regDword conn.currentWidth.toNat),
          .set "DefaultSettings.YResolution".toList (regDword conn.currentHeight.toNat),
          .set "DefaultSettings.VRefresh".toList (regDword conn.currentRefresh.toNat),
          .set "DefaultSettings.Flags".toList (regDword 0)] ++
        sourceModes dd.gpu index conn) ++
  under (videoSourcePath
      "Registry\\Machine\\System\\CurrentControlSet\\Hardware Profiles\\Current\\System\\CurrentControlSet"
      dd.gpuGuid conn.name)
    (sourceModes dd.gpu index conn) ++
  under ("Registry\\Machine\\System\\ControlSet001\\Enum\\DISPLAY\\".toList ++
      DisplayData.edidManufacturer conn.edid ++ '\\' ::
      formatHexUpper 4 (DisplayData.edidProduct conn.edid) ++ '&' :: formatHexUpper 4 index)
    ([.set "ClassGUID".toList (regSz "\x7b4d36e96e-e325-11ce-bfc1-08002be10318\x7d".toList),
        .set "Driver".toList (regSz
          ("\x7b4d36e96e-e325-11ce-bfc1-08002be10318\x7d\\".toList ++ formatDec 4 index))] ++
      if conn.edid = [] then [] else [.set "EDID".toList (regBinary conn.edid)]) ++
  if index = 0 then []
  else under devmapPath [.push ("\\Device\\Video".toList ++ formatDec 0 index) (regSz
    (videoSourcePath "\\Registry\\Machine\\System\\CurrentControlSet" dd.gpuGuid conn.name))]

def applyDisplayRegistry (userSid : Str) (dd : DisplayData) : List KeyEdit :=
  let vram := if dd.gpu.vramBytes > 0 then min dd.gpu.vramBytes.toNat 0xFFFFFFFF else 0x10000000
  under ("Registry\\Machine\\System\\ControlSet001\\Enum\\PCI\\".toList ++ pciName dd.gpu ++
      "\\0000".toList)
    [.set "ClassGUID".toList (regSz "\x7b4d36e968-e325-11ce-bfc1-08002be10318\x7d".toList),
      .set "Driver".toList (regSz "\x7b4d36e968-e325-11ce-bfc1-08002be10318\x7d\\0000".toList)] ++
  under (classPath ++ "\\0000".toList)
    (.store "HardwareInformation.MemorySize".toList (regDword vram) ::
      if dd.gpu.gpuName = [] then []
      else ["DriverDesc", "HardwareInformation.AdapterString", "HardwareInformation.BiosString",
        "HardwareInformation.ChipType"].map fun name => .set name.toList (regSz dd.gpu.gpuName)) ++
  dd.connectors.zipIdx.flatMap (fun conn => connectorEdits dd conn.2 conn.1) ++
  applyDisplayDriver userSid dd.displayDriver.1 dd.displayDriver.2

def updateDisplayGuid (guid drvDll : Str) : List KeyEdit :=
  under ("Registry\\Machine\\System\\ControlSet001\\Control\\Video\\\x7b".toList ++ guid ++
      "\x7d\\0000".toList) [.set "GraphicsDriver".toList (regSz drvDll)] ++
  under devmapPath [.store "\\Device\\Video0".toList (regSz
    ("\\Registry\\Machine\\System\\CurrentControlSet\\Control\\Video\\\x7b".toList ++ guid ++
      "\x7d\\0000".toList))]

variable [CaseMap]

def NodeEdit.apply (n : RegistryKey) : NodeEdit → RegistryKey
  | ensure => n
  | set name v => n.setValue name v
  | setByNames name v =>
    { n with
      valueNames := if n.valueNames.any fun m => lower m = lower name then n.valueNames
        else n.valueNames ++ [name]
      values := insert lower name v n.values }
  | push name v =>
    { n with valueNames := n.valueNames ++ [name], values := insert lower name v n.values }
  | store name v => { n with values := insert lower name v n.values }
  | addMissing name v => if (n.value name).isSome then n else n.setValue name v

def applyEdit (root : RegistryKey) (e : KeyEdit) : RegistryKey :=
  walkMutCreate e.1 (fun n => e.2.apply n) root

def applyEdits (root : RegistryKey) (edits : List KeyEdit) : RegistryKey :=
  edits.foldl applyEdit root

def freshRegistry (comClasses : List ComClass) (userSid : Str) : Registry :=
  { Registry.empty userSid with
    root := applyEdits RegistryKey.new (initRuntimeKeys comClasses userSid) }

end Triskelion.RegistryRuntime
