/-! The text form of settings, as the program relies on it.

A record is a list of named fields. A codec writes the values of its fields as a text and reads them
out of one; how a text spells them is its own affair. -/

set_option autoImplicit false

namespace HeciMailbox

inductive Config.Refusal where
  | notText
  | malformed
  | badSetting (key : String)
  deriving DecidableEq, Repr

def Config.Refusal.message : Refusal → String
  | .notText => "stream did not contain valid UTF-8"
  | .malformed => "not a TOML document"
  | .badSetting key => "invalid value for " ++ key

namespace Codec

inductive Value where
  | name (text : String)
  | number (value : Nat)
  deriving DecidableEq, Repr

/-- What a field may hold: one of these names, or a number below this bound. -/
inductive Kind where
  | choice (names : List String)
  | number (bound : Nat)
  deriving DecidableEq, Repr

namespace Value

def name? : Value → Option String
  | .name text => some text
  | .number _ => none

def number? : Value → Option Nat
  | .name _ => none
  | .number value => some value

end Value

def entries (fields : List (String × Option Value)) : List (String × Value) :=
  fields.filterMap fun (key, value?) => value?.map (key, ·)

end Codec

class Codec where
  /-- None if the record has a value that no text can hold. -/
  write (fields : List (String × Option Codec.Value)) : Option String
  /-- The values that a text has for the fields of a record; it may leave out any of them. -/
  read (fields : List (String × Codec.Kind)) (text : String) :
    Except Config.Refusal (List (String × Codec.Value))

end HeciMailbox
