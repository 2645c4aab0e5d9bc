import HeciMailbox.Config.File
import HeciMailbox.Cli.Files
import HeciMailbox.Controller.Basic
import HeciMailbox.Mkhi.Client
import HeciMailbox.Pci.Memory
import HeciMailbox.Transport.Handshake

/-! The firmware queries of the tool, run against a simulated controller. -/

set_option autoImplicit false

namespace HeciMailbox.Cli

inductive Failure where
  | badDepth (depth : UInt8)
  | unreadable (path : String) (fault : FileFault)
  | badConfig (path : String) (refusal : Config.Refusal)
  | notSimulated (device : DeviceId)
  | fault (fault : Fault)
  | query (failure : Mkhi.Failure)
  /-- An operation on the simulated controller was trapped or did not end. -/
  | stopped
  | alreadyThere (path : String)
  | unwritable (path : String) (fault : FileFault)
  | inexpressible (path : String)
  deriving DecidableEq, Repr

def Failure.message : Failure → String
  | .badDepth depth =>
    "ring depth must be a power of two of at least 2, got " ++ toString depth.toNat
  | .unreadable path why => "loading " ++ path ++ ": " ++ why.message
  | .badConfig path refusal => "loading " ++ path ++ ": " ++ refusal.message
  | .notSimulated device => device.name ++ " has no PCI function to simulate"
  | .fault why => why.message
  | .query why => why.message
  | .stopped => "the simulated controller came to no end"
  | .alreadyThere path => path ++ " already exists (use --force to overwrite)"
  | .unwritable path why => "writing " ++ path ++ ": " ++ why.message
  | .inexpressible path => "writing " ++ path ++ ": a setting is too large for the file"

structure Report where
  printed : List String := []
  logged : List LogLine := []
  ending : Except Failure Unit := .ok ()

def usableDepth (depth : UInt8) : Bool := 2 ≤ depth && depth &&& (depth - 1) == 0

namespace Simulation

def defaultBase : UInt64 := 0xFED1A000

def firmwareStatus : UInt32 := 0x245

/-- Rounds enough for every wait and every response of the simulated controller, whose longest
response has five frames. -/
def fuel : Nat := 64

def deviceOf : DeviceId → UInt16
  | .heci2 => 0x5A9C
  | .heci3 => 0x5A9E
  | .heci1 | .ftpm => 0x5A9A

def version : Mkhi.Version := ⟨3, 0, 40, 1392⟩

def versionReply : Message :=
  let header := Mkhi.Header.response Mkhi.generalGroup Mkhi.versionCommand 0
  Message.ofBytes (Bytes.ofWord header.raw ++ version.toBytes ++ version.toBytes)

def ruleReply (rule data : UInt32) : Message :=
  let header := Mkhi.Header.response Mkhi.rulesGroup Mkhi.ruleCommand 0
  Message.ofBytes (Bytes.ofWord header.raw ++ Bytes.ofWord rule ++ [4] ++ Bytes.ofWord data)

def controller (depth : UInt8) : Controller :=
  (Controller.ofDepth depth)
    |>.queueResponse versionReply
    |>.queueResponse (ruleReply Mkhi.capabilitiesRule 0x801)
    |>.queueResponse (ruleReply Mkhi.platformRule 0x1102)

structure Answers where
  versions : Mkhi.Versions
  capabilities : Mkhi.Capabilities
  platform : Mkhi.PlatformType
  deriving DecidableEq, Repr

def queries {σ : Type} [Registers σ] [Clock σ] (link : Link) :
    Op σ (Except Mkhi.Failure Answers) := do
  Op.bringUp link
  match ← Mkhi.firmwareVersions link with
  | .error failure => pure (.error failure)
  | .ok versions =>
    match ← Mkhi.capabilities link with
    | .error failure => pure (.error failure)
    | .ok capabilities =>
      match ← Mkhi.platformType link with
      | .error failure => pure (.error failure)
      | .ok platform => pure (.ok ⟨versions, capabilities, platform⟩)

def summary (device : Handle) (answers : Answers) (doorbells : Nat) : List String :=
  ["Device:        " ++ device.id.name ++ " at " ++ Text.hexWithMark 1 device.baseAddress.toNat,
    "Code version:  " ++ answers.versions.code.describe,
    "Recovery:      " ++ answers.versions.recovery.describe] ++
  (match answers.versions.fitc with
    | some fitc => ["FITC:          " ++ fitc.describe]
    | none => []) ++
  ["FW caps SKU:   " ++ Text.hexWithMark 8 answers.capabilities.raw.toNat,
    "Platform:      usage " ++ toString answers.platform.usage ++
      " image " ++ toString answers.platform.image ++
      " brand " ++ toString answers.platform.brand,
    "Doorbells:     " ++ toString doorbells]

def runQueries (depth : UInt8) (config : Config) (base : UInt64) : Report :=
  let link := Link.ofConfig config base fuel
  let lines (world : World (Timed Controller)) := Trace.lines link.device.id world.trace.toList
  match queries link { hardware := { registers := controller depth } } with
  | .ok (.ok answers) world =>
    { printed := summary link.device answers world.hardware.registers.doorbells
      logged := lines world }
  | .ok (.error failure) world => { logged := lines world, ending := .error (.query failure) }
  | .error (.fault fault) world => { logged := lines world, ending := .error (.fault fault) }
  | .error _ world => { logged := lines world, ending := .error .stopped }

/-- A function of the configured device, powered down and with its registers at the configured
base. -/
def memory (config : Config) (address : Pci.Address) : Pci.Memory :=
  Pci.Memory.empty
    |>.addFunction address (deviceOf config.device) (config.baseAddress.getD defaultBase)
    |>.setFirmwareStatus address firmwareStatus

def openFunction (device : DeviceId) :
    Pci.Op Pci.Memory (Except Fault (UInt64 × FirmwareStatus)) := do
  match ← Pci.Op.resolve device with
  | .error fault => pure (.error fault)
  | .ok base =>
    match ← Pci.Op.firmwareStatus device with
    | .error fault => pure (.error fault)
    | .ok status => pure (.ok (base, status))

def run (depth : UInt8) (config : Config) : Report :=
  match config.device.pciAddress? with
  | none => { ending := .error (.notSimulated config.device) }
  | some address =>
    let (opened, world) := (openFunction config.device).run { space := memory config address }
    let lines := world.trace.toList.filterMap Pci.Entry.line?
    match opened with
    | .error fault => { logged := lines, ending := .error (.fault fault) }
    | .ok (base, status) =>
      let report := runQueries depth config base
      { report with
        logged := lines ++ [⟨.info, "Firmware status status=" ++ status.describe⟩] ++
          report.logged }

end Simulation

end HeciMailbox.Cli
