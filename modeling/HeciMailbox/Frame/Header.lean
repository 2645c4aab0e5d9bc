import HeciMailbox.Fault
import HeciMailbox.Text.Numeral

/-! Framing headers.

Each frame on a ring starts with one header word: the controller-side client address in bits 0 to 7,
the host address in bits 8 to 15, the payload length in bytes in bits 16 to 24, and in bit 31
whether the frame ends its message. Bits 25 to 30 are reserved. -/

set_option autoImplicit false

namespace HeciMailbox.Frame

def maxLength : Nat := 0x1FF

/-- Largest payload, in bytes, that one frame carries in a ring of `depth` slots: one slot is the
header's, and the length field must hold a whole number of words. -/
def payloadLimit (depth : Nat) : Nat := min ((depth - 1) * 4) (maxLength / 4 * 4)

structure Header where
  raw : UInt32
  deriving DecidableEq, Repr

namespace Header

def completeBit : UInt32 := 0x80000000

/-- A header from its fields; a length beyond nine bits is refused. -/
def make? (controller host : UInt8) (length : Nat) (complete : Bool) : Except HeaderFault Header :=
  if maxLength < length then .error (.longFrame length)
  else
    let fields := controller.toUInt32 ||| host.toUInt32 <<< 8 ||| UInt32.ofNat length <<< 16
    .ok ⟨if complete then fields ||| completeBit else fields⟩

def controllerAddress (header : Header) : UInt8 := header.raw.toUInt8

def hostAddress (header : Header) : UInt8 := (header.raw >>> 8).toUInt8

def length (header : Header) : Nat := (header.raw >>> 16 &&& (0x1FF : UInt32)).toNat

def words (header : Header) : Nat := (header.length + 3) / 4

def complete (header : Header) : Bool := header.raw &&& completeBit != 0

def describe (header : Header) : String :=
  "HeciMessageHeader(" ++ Text.hexWord header.raw ++
    " me=" ++ Text.hexByte header.controllerAddress ++
    " host=" ++ Text.hexByte header.hostAddress ++
    " len=" ++ toString header.length ++ " complete=" ++ Text.flag header.complete ++ ")"

end Header

end HeciMailbox.Frame
