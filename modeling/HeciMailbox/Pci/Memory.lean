import HeciMailbox.Pci.Function

/-! Configuration space in memory.

A word that is not populated reads as all ones and ignores writes. -/

set_option autoImplicit false

namespace HeciMailbox.Pci

structure Memory where
  word? : Address → UInt16 → Option UInt32

namespace Memory

def empty : Memory := ⟨fun _ _ => none⟩

/-- Give a word a value, populated or not. -/
def put (memory : Memory) (address : Address) (offset : UInt16) (value : UInt32) : Memory :=
  ⟨fun a o => if a = address ∧ o = offset then some value else memory.word? a o⟩

instance : ConfigSpace Memory where
  read memory address offset := (memory.word? address (aligned offset)).getD 0xFFFFFFFF
  write memory address offset value :=
    match memory.word? address (aligned offset) with
    | some _ => memory.put address (aligned offset) value
    | none => memory

def clear (memory : Memory) (address : Address) : Memory :=
  ⟨fun a o =>
    if a = address ∧ o < 0x100 ∧ o &&& (3 : UInt16) = 0 then some 0 else memory.word? a o⟩

def powerCapabilityOffset : UInt16 := 0x50

/-- Add a mailbox function that is powered down to D3 with decoding off. Its registers are at
`base`, which is kept as a 64-bit address. -/
def addFunction (memory : Memory) (address : Address) (device : UInt16) (base : UInt64) : Memory :=
  memory.clear address
    |>.put address vendorOffset (intelVendor.toUInt32 ||| device.toUInt32 <<< 16)
    |>.put address commandOffset (capabilityListBit.toUInt32 <<< 16)
    |>.put address base0Offset (base.toUInt32 &&& (0xFFFFFFF0 : UInt32) ||| (0x4 : UInt32))
    |>.put address base1Offset (base >>> 32).toUInt32
    |>.put address capabilitiesOffset powerCapabilityOffset.toUInt32
    |>.put address powerCapabilityOffset powerCapability.toUInt32
    |>.put address (powerCapabilityOffset + powerControlOffset) 0x0003

def setFirmwareStatus (memory : Memory) (address : Address) (value : UInt32) : Memory :=
  memory.put address firmwareStatusOffset value

end Memory

end HeciMailbox.Pci
