import HeciMailbox.Text.Numeral

/-! Reading a 32-bit word from hexadecimal text.

Any run of `0x` marks may stand in front, then any run of `0X` marks, then one plus sign. What
remains must be digits alone. The value is checked digit by digit, so a text that is both too large
and malformed is reported for whichever fault stands further left. -/

set_option autoImplicit false

namespace HeciMailbox.Text.HexWord

inductive Fault where
  | empty
  | badDigit
  | tooLarge
  deriving DecidableEq, Repr

def Fault.reason : Fault → String
  | .empty => "cannot parse integer from empty string"
  | .badDigit => "invalid digit found in string"
  | .tooLarge => "number too large to fit in target type"

def digits : Nat → List Char → Except Fault Nat
  | value, [] => .ok value
  | value, c :: rest =>
    match hexDigit? c with
    | none => .error .badDigit
    | some d =>
      if value * 16 + d < UInt32.size then digits (value * 16 + d) rest else .error .tooLarge

/-- Drop every leading `0x` spelt with the given letter. -/
def dropMarks (letter : Char) : List Char → List Char
  | '0' :: c :: rest => if c = letter then dropMarks letter rest else '0' :: c :: rest
  | text => text

/-- One plus sign may stand before the digits, but not on its own. -/
def number : List Char → Except Fault Nat
  | [] => .error .empty
  | ['+'] => .error .badDigit
  | '+' :: rest => digits 0 rest
  | text => digits 0 text

def read (text : String) : Except Fault UInt32 :=
  (number (dropMarks 'X' (dropMarks 'x' text.toList))).map UInt32.ofNat

def refusal (text : String) (fault : Fault) : String :=
  "invalid hex value '" ++ text ++ "': " ++ fault.reason

end HeciMailbox.Text.HexWord
