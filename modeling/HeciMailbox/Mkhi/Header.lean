import HeciMailbox.Bytes
import HeciMailbox.Fault
import HeciMailbox.Text.Numeral

/-! Command headers of the MKHI client, the first word of every payload.

Bits 0 to 7 hold the command group, bits 8 to 14 the command, bit 15 marks a response, bits 16 to 23
are reserved and bits 24 to 31 hold the result. -/

set_option autoImplicit false

namespace HeciMailbox.Mkhi

structure Header where
  raw : UInt32
  deriving DecidableEq, Repr

namespace Header

def size : Nat := 4

def responseBit : UInt32 := 0x8000

/-- The header that asks for `command` of `group`; a command has seven bits. -/
def request (group command : UInt8) : Header :=
  ⟨group.toUInt32 ||| (command.toUInt32 &&& (0x7F : UInt32)) <<< 8⟩

def response (group command result : UInt8) : Header :=
  ⟨(request group command).raw ||| responseBit ||| result.toUInt32 <<< 24⟩

def ofBytes? : List UInt8 → Except HeaderFault Header
  | a :: b :: c :: d :: _ => .ok ⟨Bytes.word a b c d⟩
  | short => .error (.shortBuffer size short.length)

def group (header : Header) : UInt8 := header.raw.toUInt8

def command (header : Header) : UInt8 := (header.raw >>> 8 &&& (0x7F : UInt32)).toUInt8

def isResponse (header : Header) : Bool := header.raw &&& responseBit != 0

def result (header : Header) : UInt8 := (header.raw >>> 24).toUInt8

def answers (header request : Header) : Bool :=
  header.isResponse && header.group == request.group && header.command == request.command

def describe (header : Header) : String :=
  "MkhiHeader(" ++ Text.hexWord header.raw ++ " group=" ++ Text.hexByte header.group ++
    " cmd=" ++ Text.hexByte header.command ++ " response=" ++ Text.flag header.isResponse ++
    " result=" ++ Text.hexByte header.result ++ ")"

end Header

end HeciMailbox.Mkhi
