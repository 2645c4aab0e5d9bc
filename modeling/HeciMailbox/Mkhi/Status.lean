import HeciMailbox.Text.Numeral

/-! Result codes of MKHI commands. -/

set_option autoImplicit false

namespace HeciMailbox.Mkhi

inductive Status where
  | success
  | invalidState
  | messageSkipped
  | sizeError
  | invalidAccess
  | invalidParams
  | notReady
  | notSupported
  | invalidAddress
  | invalidCommand
  | failure
  | invalidResource
  | resourceInUse
  | noResource
  | generalError
  | unknown (code : UInt8)
  deriving DecidableEq, Repr

namespace Status

def ofCode (code : UInt8) : Status :=
  match code.toNat with
  | 0x00 => .success
  | 0x01 => .invalidState
  | 0x02 => .messageSkipped
  | 0x05 => .sizeError
  | 0x84 => .invalidAccess
  | 0x85 => .invalidParams
  | 0x88 => .notReady
  | 0x89 => .notSupported
  | 0x8C => .invalidAddress
  | 0x8D => .invalidCommand
  | 0x9E => .failure
  | 0xE4 => .invalidResource
  | 0xE5 => .resourceInUse
  | 0xE6 => .noResource
  | 0xFF => .generalError
  | _ => .unknown code

def isUnknown : Status → Bool
  | .unknown _ => true
  | _ => false

def describe : Status → String
  | .success => "Success"
  | .invalidState => "InvalidState"
  | .messageSkipped => "MessageSkipped"
  | .sizeError => "SizeError"
  | .invalidAccess => "InvalidAccess"
  | .invalidParams => "InvalidParams"
  | .notReady => "NotReady"
  | .notSupported => "NotSupported"
  | .invalidAddress => "InvalidAddress"
  | .invalidCommand => "InvalidCommand"
  | .failure => "Failure"
  | .invalidResource => "InvalidResource"
  | .resourceInUse => "ResourceInUse"
  | .noResource => "NoResource"
  | .generalError => "GeneralError"
  | .unknown code => "unknown status " ++ Text.hexByte code

end Status

end HeciMailbox.Mkhi
