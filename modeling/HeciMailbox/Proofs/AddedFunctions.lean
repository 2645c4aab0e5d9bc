import HeciMailbox.Cli.Simulation
import HeciMailbox.Proofs.Resolution

/-! Bringing a function into use that has been added to a memory.

Its capability list has one entry, for power management, and its base address registers hold one
address of 64 bits. So what `resolve` makes of it depends on that address alone. -/

set_option autoImplicit false

namespace HeciMailbox

namespace Pci

theorem toNat_attributed (low : UInt32) :
    (low &&& (0xFFFFFFF0 : UInt32) ||| (0x4 : UInt32)).toNat = low.toNat / 16 * 16 + 4 := by
  have bound := low.toNat_lt
  have kept : (low &&& (0xFFFFFFF0 : UInt32)).toNat = (low.toNat / 16) <<< 4 := by
    rw [UInt32.toNat_and, show (0xFFFFFFF0 : UInt32).toNat = (2 ^ 28 - 1) <<< 4 from rfl,
      and_above_attributes, Nat.mod_eq_of_lt (by omega), Nat.shiftLeft_eq]
  rw [UInt32.toNat_or, kept, show (0x4 : UInt32).toNat = 4 from rfl,
    ← Nat.shiftLeft_add_eq_or_of_lt (by decide), Nat.shiftLeft_eq]

namespace Memory

variable (memory : Memory) (address : Address)

theorem read_put {offset : UInt16} (whole : aligned offset = offset) (place : UInt16)
    (value : UInt32) :
    ConfigSpace.read (memory.put address place value) address offset =
      if offset = place then value else ConfigSpace.read memory address offset := by
  simp only [ConfigSpace.read, whole, put, true_and]
  split
  · rfl
  · rfl

end Memory

end Pci

namespace Cli.Simulation

open Pci

variable (config : Config) (address : Address)

def baseOf : UInt64 := config.baseAddress.getD defaultBase

/-! ### The words of the simulated function -/

theorem read_memory {offset : UInt16} (whole : aligned offset = offset) :
    ConfigSpace.read (memory config address) address offset =
      if offset = firmwareStatusOffset then firmwareStatus
      else if offset = 0x54 then 3
      else if offset = 0x50 then 1
      else if offset = capabilitiesOffset then 0x50
      else if offset = base1Offset then (baseOf config >>> 32).toUInt32
      else if offset = base0Offset then
        (baseOf config).toUInt32 &&& (0xFFFFFFF0 : UInt32) ||| (0x4 : UInt32)
      else if offset = commandOffset then 0x100000
      else if offset = vendorOffset then
        intelVendor.toUInt32 ||| (deviceOf config.device).toUInt32 <<< 16
      else ConfigSpace.read (Memory.empty.clear address) address offset := by
  unfold memory Memory.addFunction Memory.setFirmwareStatus
  simp only [Memory.read_put _ _ whole]
  rfl

theorem power?_memory : (memory config address).power? address = some 0x50 := by
  have status : ConfigSpace.read (memory config address) address commandOffset = 0x100000 :=
    read_memory config address rfl
  have start : ConfigSpace.read (memory config address) address capabilitiesOffset = 0x50 :=
    read_memory config address rfl
  have entry : ConfigSpace.read (memory config address) address 0x50 = 1 :=
    read_memory config address rfl
  have list : hasList (memory config address) address = true := by
    rw [hasList, status]
    decide
  have first : firstPointer (memory config address) address = 0x50 := by
    rw [firstPointer, start]
    decide
  have found : identifierAt (memory config address) address 0x50 = powerCapability := by
    rw [identifierAt, entryAt, show (0x50 : UInt8).toUInt16 = 0x50 from rfl, entry]
    decide
  rw [Memory.power?, capability?, if_pos list, first]
  exact search_eq_some.mpr ⟨0, by decide, leads_zero.mpr ⟨by decide, found⟩, rfl⟩

theorem ready_memory : (memory config address).Ready address where
  populated := (Memory.populated_addFunction _ _).put _ _ _
  power found := by
    obtain rfl := Option.some.inj ((power?_memory config address).symm.trans found)
    decide

theorem vendor_memory : (memory config address).vendor address = intelVendor := by
  have word : ConfigSpace.read (memory config address) address vendorOffset =
      intelVendor.toUInt32 ||| (deviceOf config.device).toUInt32 <<< 16 :=
    read_memory config address rfl
  have vendor : ∀ device : DeviceId,
      (intelVendor.toUInt32 ||| (deviceOf device).toUInt32 <<< 16).toUInt16 = intelVendor := by
    intro device
    cases device with
    | heci1 | heci2 | heci3 | ftpm => rfl
  rw [Memory.vendor, word, vendor]

/-- The registers are at the given base, to 16 bytes; there are none below. -/
theorem registers_memory :
    (memory config address).registers address =
      if (baseOf config).toNat < 16 then .error .notPresent
      else .ok (baseOf config &&& ~~~(0xF : UInt64)) := by
  have low : ConfigSpace.read (memory config address) address base0Offset =
      (baseOf config).toUInt32 &&& (0xFFFFFFF0 : UInt32) ||| (0x4 : UInt32) :=
    read_memory config address rfl
  have high : ConfigSpace.read (memory config address) address base1Offset =
      (baseOf config >>> 32).toUInt32 :=
    read_memory config address rfl
  have place : (memory config address).registerBase address = (baseOf config).toNat / 16 * 16 := by
    have bound := (baseOf config).toNat_lt
    have upper : (baseOf config >>> 32).toUInt32.toNat = (baseOf config).toNat / 2 ^ 32 := by
      rw [UInt64.toNat_toUInt32, UInt64.toNat_shiftRight,
        show (32 : UInt64).toNat % 64 = 32 from rfl, Nat.shiftRight_eq_div_pow]
      omega
    rw [Memory.registerBase, low, high, toNat_attributed, upper, UInt64.toNat_toUInt32,
      if_pos (by omega)]
    omega
  have base : UInt64.ofNat ((memory config address).registerBase address) =
      baseOf config &&& ~~~(0xF : UInt64) := by
    rw [place, ← toNat_without_attributes, UInt64.ofNat_toNat]
  have clear : baseOf config &&& ~~~(0xF : UInt64) = 0 ↔ (baseOf config).toNat < 16 := by
    rw [← UInt64.toNat_inj, toNat_without_attributes, UInt64.toNat_zero]
    omega
  rw [Memory.registers, base]
  by_cases small : (baseOf config).toNat < 16
  · rw [if_pos small, if_pos (clear.mpr small)]
  · rw [if_neg small, if_neg (mt clear.mp small)]

/-! ### Opening it -/

variable {config : Config} {address : Address}

theorem firmwareStatus_does (sited : config.device.pciAddress? = some address) :
    (Op.firmwareStatus config.device).Does ((memory config address).settled address)
      (.ok ⟨firmwareStatus⟩) [] ((memory config address).settled address) := by
  have ready := ready_memory config address
  have vendor : ((memory config address).settled address).vendor address = intelVendor := by
    rw [Memory.vendor, ready.read_header rfl (by decide) (by decide)]
    exact vendor_memory config address
  have status : ConfigSpace.read ((memory config address).settled address) address
      firmwareStatusOffset = firmwareStatus := by
    rw [ready.read_header rfl (by decide) (by decide)]
    exact read_memory config address rfl
  unfold Op.firmwareStatus
  rw [sited]
  refine (Op.readVendor_does _ address).look ?_
  rw [if_neg (not_not_intro vendor)]
  refine (Op.Does.read32 _ address firmwareStatusOffset).look ?_
  rw [status]
  exact .pure _ _

/-- A function whose registers are not below 16 is opened, whatever else is configured. -/
theorem openFunction_does (sited : config.device.pciAddress? = some address) :
    (openFunction config.device).Does (memory config address)
      (if (baseOf config).toNat < 16 then .error .notPresent
        else .ok (baseOf config &&& ~~~(0xF : UInt64), ⟨firmwareStatus⟩))
      ((memory config address).repairs address) ((memory config address).settled address) := by
  have ready := ready_memory config address
  have resolved := Op.resolve_does sited (vendor_memory config address) ready
  rw [ready.registers_settled, registers_memory] at resolved
  unfold openFunction
  rw [← List.append_nil ((memory config address).repairs address)]
  refine resolved.bind ?_
  by_cases small : (baseOf config).toNat < 16
  · rw [if_pos small, if_pos small]
    exact .pure _ _
  · rw [if_neg small, if_neg small]
    exact (firmwareStatus_does sited).look (.pure _ _)

end Cli.Simulation

end HeciMailbox
