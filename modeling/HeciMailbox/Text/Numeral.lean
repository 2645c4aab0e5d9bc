/-! Numerals as they appear in diagnostics: upper-case hexadecimal of a fixed width, with or
without `0x` in front. Also the values of hexadecimal digits. -/

set_option autoImplicit false

namespace HeciMailbox.Text

/-- Upper-case hexadecimal digits of `n`, with zeros in front up to `width` digits. -/
def hex (width n : Nat) : String :=
  let digits := (Nat.toDigits 16 n).map Char.toUpper
  String.ofList (List.replicate (width - digits.length) '0' ++ digits)

/-- Hexadecimal with `0x` in front; `width` counts the digits alone. -/
def hexWithMark (width n : Nat) : String := "0x" ++ hex width n

def hexDigit? (c : Char) : Option Nat :=
  if '0' ≤ c ∧ c ≤ '9' then some (c.toNat - '0'.toNat)
  else if 'a' ≤ c ∧ c ≤ 'f' then some (c.toNat - 'a'.toNat + 10)
  else if 'A' ≤ c ∧ c ≤ 'F' then some (c.toNat - 'A'.toNat + 10)
  else none

def hexByte (byte : UInt8) : String := hexWithMark 2 byte.toNat

def hexWord (word : UInt32) : String := hex 8 word.toNat

def flag (value : Bool) : String := if value then "true" else "false"

def bit (value : Bool) : String := if value then "1" else "0"

def wordList (words : List UInt32) : String :=
  "[" ++ ", ".intercalate (words.map fun word => toString word.toNat) ++ "]"

end HeciMailbox.Text
