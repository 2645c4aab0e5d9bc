import HeciMailbox.Log
import HeciMailbox.Pci.Address

/-! PCI configuration space.

Only aligned 32-bit words are accessed; a narrower read takes its part of the word, and a narrower
write reads the word, replaces its part and writes it back. Every access is kept in a trace together
with what is remarked on the way. -/

set_option autoImplicit false

namespace HeciMailbox.Pci

/-- A configuration space. Reads do not change it. -/
class ConfigSpace (π : Type) where
  read (space : π) (address : Address) (offset : UInt16) : UInt32
  write (space : π) (address : Address) (offset : UInt16) (value : UInt32) : π

inductive Remark where
  | noFunction (vendor : UInt16)
  | unknownDevice (device : UInt16)
  | poweringUp (state : UInt16)
  | noBase
  | enabled (address : Address) (device : UInt16) (base : UInt64)
  deriving DecidableEq, Repr

inductive Entry where
  | read (address : Address) (offset : UInt16) (value : UInt32)
  | write (address : Address) (offset : UInt16) (value : UInt32)
  | remark (remark : Remark)
  deriving DecidableEq, Repr

structure World (π : Type) where
  space : π
  trace : Array Entry := #[]

abbrev Op (π α : Type) := StateM (World π) α

def Remark.line : Remark → LogLine
  | .noFunction vendor => ⟨.debug, "No HECI function vendor=" ++ Text.hex 4 vendor.toNat⟩
  | .unknownDevice device =>
    ⟨.warn, "Unrecognized HECI device ID device_id=" ++ Text.hex 4 device.toNat⟩
  | .poweringUp state => ⟨.debug, "Bringing function to D0 state=" ++ toString state.toNat⟩
  | .noBase => ⟨.warn, "HECI BAR0 is not programmed"⟩
  | .enabled address device base =>
    ⟨.info, "HECI function enabled pci=" ++ address.describe ++
      " device_id=" ++ Text.hex 4 device.toNat ++ " base=" ++ Text.hexWithMark 1 base.toNat⟩

namespace Entry

def line? : Entry → Option LogLine
  | .remark said => some said.line
  | _ => none

/-- A dword access in short, such as `R 00:0F.0 00=5A9A8086`. -/
def access? : Entry → Option String
  | .read address offset value =>
    some ("R " ++ address.describe ++ " " ++ Text.hex 2 offset.toNat ++ "=" ++ Text.hexWord value)
  | .write address offset value =>
    some ("W " ++ address.describe ++ " " ++ Text.hex 2 offset.toNat ++ "=" ++ Text.hexWord value)
  | .remark _ => none

end Entry

def aligned (offset : UInt16) : UInt16 := offset &&& (0xFFFC : UInt16)

def halfOf (word : UInt32) (offset : UInt16) : UInt16 :=
  if offset &&& (2 : UInt16) = 0 then word.toUInt16 else (word >>> 16).toUInt16

def withHalf (word : UInt32) (offset value : UInt16) : UInt32 :=
  if offset &&& (2 : UInt16) = 0 then word &&& (0xFFFF0000 : UInt32) ||| value.toUInt32
  else word &&& (0x0000FFFF : UInt32) ||| value.toUInt32 <<< 16

def byteOf (word : UInt32) (offset : UInt16) : UInt8 :=
  (word >>> ((offset &&& (3 : UInt16)).toUInt32 * 8)).toUInt8

namespace Op

variable {π : Type}

def remark (said : Remark) : Op π Unit :=
  modify fun world => { world with trace := world.trace.push (.remark said) }

variable [ConfigSpace π]

def read32 (address : Address) (offset : UInt16) : Op π UInt32 :=
  modifyGet fun world =>
    let value := ConfigSpace.read world.space address offset
    (value, { world with trace := world.trace.push (.read address offset value) })

def write32 (address : Address) (offset : UInt16) (value : UInt32) : Op π Unit :=
  modify fun world =>
    { space := ConfigSpace.write world.space address offset value
      trace := world.trace.push (.write address offset value) }

def read16 (address : Address) (offset : UInt16) : Op π UInt16 := do
  pure (halfOf (← read32 address (aligned offset)) offset)

def write16 (address : Address) (offset value : UInt16) : Op π Unit := do
  let word ← read32 address (aligned offset)
  write32 address (aligned offset) (withHalf word offset value)

def read8 (address : Address) (offset : UInt16) : Op π UInt8 := do
  pure (byteOf (← read32 address (aligned offset)) offset)

end Op

end HeciMailbox.Pci
