import HeciMailbox.Text.Numeral

/-! Control and status words.

The host and the controller side share one layout: control bits in the low byte, then the read
cursor, the write cursor and the depth of that side's ring, one byte each. -/

set_option autoImplicit false

namespace HeciMailbox

structure Csr where
  raw : UInt32
  deriving DecidableEq, Repr

namespace Csr

def enableBit : UInt32 := 0x01

/-- Interrupt status; writing a one clears it. -/
def statusBit : UInt32 := 0x02

/-- Interrupt generate, the doorbell. -/
def generateBit : UInt32 := 0x04

def readyBit : UInt32 := 0x08

def resetBit : UInt32 := 0x10

/-- A status word from its parts; only the low byte of `flags` counts. -/
def compose (flags : UInt32) (read write depth : UInt8) : Csr :=
  .mk (flags &&& (0xFF : UInt32) ||| read.toUInt32 <<< 8 ||| write.toUInt32 <<< 16 |||
    depth.toUInt32 <<< 24)

/-- What a read of a missing function gives: every bit set. -/
def absentWord : UInt32 := 0xFFFFFFFF

def absent (csr : Csr) : Bool := csr.raw == absentWord

def has (csr : Csr) (mask : UInt32) : Bool := csr.raw &&& mask != 0

def interruptEnable (csr : Csr) : Bool := csr.has enableBit
def interruptStatus (csr : Csr) : Bool := csr.has statusBit
def interruptGenerate (csr : Csr) : Bool := csr.has generateBit
def ready (csr : Csr) : Bool := csr.has readyBit
def reset (csr : Csr) : Bool := csr.has resetBit

def readCursor (csr : Csr) : UInt8 := (csr.raw >>> 8).toUInt8
def writeCursor (csr : Csr) : UInt8 := (csr.raw >>> 16).toUInt8
def depth (csr : Csr) : UInt8 := (csr.raw >>> 24).toUInt8

/-- The word that rings the doorbell. A pending interrupt status is written back, and so cleared,
only when `clearStatus` asks for it. -/
def withDoorbell (csr : Csr) (clearStatus : Bool) : UInt32 :=
  let rung := csr.raw ||| generateBit
  if clearStatus then rung else rung &&& ~~~statusBit

/-- The word with the bits of `set` on and those of `clear` off; interrupt status is left alone. -/
def withBits (csr : Csr) (set clear : UInt32) : UInt32 :=
  (csr.raw ||| set) &&& ~~~clear &&& ~~~statusBit

def describe (csr : Csr) : String :=
  "HeciCsr(" ++ Text.hexWord csr.raw ++
    " rdy=" ++ Text.bit csr.ready ++ " rst=" ++ Text.bit csr.reset ++
    " ie=" ++ Text.bit csr.interruptEnable ++ " is=" ++ Text.bit csr.interruptStatus ++
    " rp=" ++ toString csr.readCursor.toNat ++ " wp=" ++ toString csr.writeCursor.toNat ++
    " depth=" ++ toString csr.depth.toNat ++ ")"

def summary (csr : Csr) : String :=
  (if csr.ready then "RDY " else "") ++ (if csr.reset then "RST " else "") ++
    (if csr.interruptEnable then "IE " else "") ++ (if csr.interruptStatus then "IS " else "") ++
    (if csr.interruptGenerate then "IG " else "") ++
    " CBRP=" ++ toString csr.readCursor.toNat ++ " CBWP=" ++ toString csr.writeCursor.toNat ++
    " CBD=" ++ toString csr.depth.toNat

end Csr

end HeciMailbox
