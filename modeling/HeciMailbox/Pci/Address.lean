import HeciMailbox.Text.Numeral

/-! Where a function sits on the PCI bus. -/

set_option autoImplicit false

namespace HeciMailbox.Pci

structure Address where
  bus : UInt8
  device : UInt8
  function : UInt8
  deriving DecidableEq, Repr

def Address.describe (address : Address) : String :=
  Text.hex 2 address.bus.toNat ++ ":" ++ Text.hex 2 address.device.toNat ++ "." ++
    toString address.function.toNat

end HeciMailbox.Pci
