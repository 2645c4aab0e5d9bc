import HeciMailbox.Device
import HeciMailbox.Fault
import HeciMailbox.FirmwareStatus
import HeciMailbox.Pci.ConfigSpace

/-! Bringing a mailbox function into use: find its power management capability, put it into D0, turn
on memory decoding and bus mastering, and read where its registers are. -/

set_option autoImplicit false

namespace HeciMailbox.Pci

def vendorOffset : UInt16 := 0x00
def deviceOffset : UInt16 := 0x02
def commandOffset : UInt16 := 0x04
def statusOffset : UInt16 := 0x06
def base0Offset : UInt16 := 0x10
def base1Offset : UInt16 := 0x14
def capabilitiesOffset : UInt16 := 0x34
def firmwareStatusOffset : UInt16 := 0x40

def intelVendor : UInt16 := 0x8086

def knownDevices : List UInt16 := [0x5A9A, 0x5A9C, 0x5A9E]

/-- Memory decoding and bus mastering. -/
def wantedCommand : UInt16 := 0x0006

def capabilityListBit : UInt16 := 0x0010

def powerCapability : UInt8 := 0x01

def powerControlOffset : UInt16 := 0x04

/-- Power state field of that register; zero is D0. -/
def powerStateMask : UInt16 := 0x0003

/-- Most entries that a capability list can have in 256 bytes of space. -/
def maxCapabilities : Nat := 48

namespace Op

variable {π : Type} [ConfigSpace π]

def walkCapabilities (address : Address) (capability : UInt8) :
    Nat → UInt8 → Op π (Option UInt16)
  | 0, _ => pure none
  | entries + 1, pointer => do
    if pointer = 0 then pure none
    else
      let entry ← read16 address pointer.toUInt16
      let next := (entry >>> 8).toUInt8 &&& (0xFC : UInt8)
      if entry.toUInt8 = capability then pure (some pointer.toUInt16)
      else walkCapabilities address capability entries next

def findCapability (address : Address) (capability : UInt8) : Op π (Option UInt16) := do
  let status ← read16 address statusOffset
  if status &&& capabilityListBit = 0 then pure none
  else
    let first ← read8 address capabilitiesOffset
    walkCapabilities address capability maxCapabilities (first &&& (0xFC : UInt8))

def powerUp (address : Address) (capability : UInt16) : Op π Unit := do
  let control ← read16 address (capability + powerControlOffset)
  if control &&& powerStateMask ≠ 0 then
    remark (.poweringUp (control &&& powerStateMask))
    write16 address (capability + powerControlOffset) (control &&& ~~~powerStateMask)

def enableDecoding (address : Address) : Op π Unit := do
  let command ← read16 address commandOffset
  if command &&& wantedCommand ≠ wantedCommand then
    write16 address commandOffset (command ||| wantedCommand)

/-- The base address of the function's registers, of one or two words, without its attribute bits.
-/
def readBase (address : Address) : Op π UInt64 := do
  let low ← read32 address base0Offset
  let base ←
    if low &&& (0x6 : UInt32) = 4 then do
      let high ← read32 address base1Offset
      pure (low.toUInt64 ||| high.toUInt64 <<< 32)
    else pure low.toUInt64
  pure (base &&& ~~~(0xF : UInt64))

def resolve (id : DeviceId) : Op π (Except Fault UInt64) := do
  match id.pciAddress? with
  | none => pure (.error .notPresent)
  | some address =>
    let vendor ← read16 address vendorOffset
    if vendor ≠ intelVendor then
      remark (.noFunction vendor)
      pure (.error .notPresent)
    else
      let device ← read16 address deviceOffset
      if !knownDevices.contains device then remark (.unknownDevice device)
      match ← findCapability address powerCapability with
      | some capability => powerUp address capability
      | none => pure ()
      enableDecoding address
      let base ← readBase address
      if base = 0 then
        remark .noBase
        pure (.error .notPresent)
      else
        remark (.enabled address device base)
        pure (.ok base)

def firmwareStatus (id : DeviceId) : Op π (Except Fault FirmwareStatus) := do
  match id.pciAddress? with
  | none => pure (.error .notPresent)
  | some address =>
    let vendor ← read16 address vendorOffset
    if vendor ≠ intelVendor then pure (.error .notPresent)
    else
      let raw ← read32 address firmwareStatusOffset
      pure (.ok ⟨raw⟩)

end Op

end HeciMailbox.Pci
