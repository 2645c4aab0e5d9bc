import HeciMailbox.Pci.Address

/-! The mailbox instances of a platform and the handles under which they are open. -/

set_option autoImplicit false

namespace HeciMailbox

inductive DeviceId where
  | heci1
  | heci2
  | heci3
  /-- The command window of the firmware TPM. It has no PCI function and is reached only through an
  explicit base address. -/
  | ftpm
  deriving DecidableEq, Repr

namespace DeviceId

def all : List DeviceId := [.heci1, .heci2, .heci3, .ftpm]

def name : DeviceId → String
  | .heci1 => "HECI1"
  | .heci2 => "HECI2"
  | .heci3 => "HECI3"
  | .ftpm => "FTPM"

def key : DeviceId → String
  | .heci1 => "heci1"
  | .heci2 => "heci2"
  | .heci3 => "heci3"
  | .ftpm => "ftpm"

def title : DeviceId → String
  | .heci1 => "Heci1"
  | .heci2 => "Heci2"
  | .heci3 => "Heci3"
  | .ftpm => "Ftpm"

def ofKey? (key : String) : Option DeviceId := all.find? fun id => id.key == key

/-- The instance of a name in any mixture of ASCII cases; otherwise the name with its ASCII letters
in lower case. -/
def ofName (name : String) : Except String DeviceId :=
  let lowered := name.map Char.toLower
  match ofKey? lowered with
  | some id => .ok id
  | none => .error lowered

def unknownName (lowered : String) : String := "unknown HECI device '" ++ lowered ++ "'"

def pciAddress? : DeviceId → Option Pci.Address
  | .heci1 => some ⟨0, 0x0F, 0⟩
  | .heci2 => some ⟨0, 0x0F, 1⟩
  | .heci3 => some ⟨0, 0x0F, 2⟩
  | .ftpm => none

end DeviceId

def defaultMaxLength : Nat := 0x1000

structure Handle where
  id : DeviceId
  baseAddress : UInt64
  maxLength : Nat := defaultMaxLength
  deriving DecidableEq, Repr

namespace Handle

private def fields (handle : Handle) : List String :=
  ["id: " ++ handle.id.title,
    "base_address: " ++ Text.hexWithMark 1 handle.baseAddress.toNat,
    "max_message_len: " ++ toString handle.maxLength]

def describe (handle : Handle) : String :=
  "HeciDeviceHandle \x7b " ++ ", ".intercalate handle.fields ++ " \x7d"

def describeLines (handle : Handle) : String :=
  let lines := handle.fields.map fun field => "    " ++ field ++ ",\n"
  "HeciDeviceHandle \x7b\n" ++ String.join lines ++ "\x7d"

end Handle

end HeciMailbox
