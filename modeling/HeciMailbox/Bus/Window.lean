import HeciMailbox.Register

/-! A register window in plain memory: what is written is what is read. Only the four aligned words
of the window may be touched. -/

set_option autoImplicit false

namespace HeciMailbox.Bus

structure Window where
  words : Vector UInt32 4

namespace Window

def index? (offset : UInt32) : Option (Fin 4) :=
  if offset.toNat % 4 = 0 then
    if h : offset.toNat / 4 < 4 then some ⟨offset.toNat / 4, h⟩ else none
  else none

instance : Registers Window where
  read offset window := (index? offset).map fun index => (window.words.get index, window)
  write offset value window := (index? offset).map fun index =>
    ⟨window.words.set index.val value index.isLt⟩

/-- Whether a window can be mapped at a physical address: anywhere but at zero. -/
def canMap (address : UInt64) : Bool := address != 0

end Window

end HeciMailbox.Bus
