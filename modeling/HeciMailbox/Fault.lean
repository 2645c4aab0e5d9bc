/-! Why a mailbox operation can fail, and the sentence that reports it. -/

set_option autoImplicit false

namespace HeciMailbox

inductive Fault where
  /-- The ring has no room for the words requested, or its cursors make no sense. -/
  | overflow (filled depth : UInt8) (requested : Nat)
  | notPresent
  | timeout (milliseconds : Nat)
  | tooSmall (needed capacity : Nat)
  | badLength (length limit : Nat)
  | noData
  deriving DecidableEq, Repr

def Fault.message : Fault → String
  | .overflow filled depth requested =>
    "Circular buffer overflow: " ++ toString filled.toNat ++ " slots filled, depth " ++
      toString depth.toNat ++ ", " ++ toString requested ++ " requested"
  | .notPresent => "HECI device not present"
  | .timeout milliseconds => "Timeout after " ++ toString milliseconds ++ "ms"
  | .tooSmall needed capacity =>
    "Response of " ++ toString needed ++ " bytes does not fit receive buffer of " ++
      toString capacity ++ " bytes"
  | .badLength length limit =>
    "Invalid message length " ++ toString length ++ " (max " ++ toString limit ++ ")"
  | .noData => "No data available"

inductive HeaderFault where
  | shortBuffer (expected actual : Nat)
  | longFrame (length : Nat)
  deriving DecidableEq, Repr

def HeaderFault.message : HeaderFault → String
  | .shortBuffer expected actual =>
    "Buffer too small: expected " ++ toString expected ++ ", got " ++ toString actual
  | .longFrame length => "Frame length " ++ toString length ++ " exceeds the 9-bit length field"

end HeciMailbox
