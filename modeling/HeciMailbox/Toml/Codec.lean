import HeciMailbox.Config.Codec
import HeciMailbox.Toml.Document

/-! Records as TOML documents.

A record is a document without headers, with a line for each field that has a value. Reading passes
over keys that are no field. Integers of TOML have 63 bits, so larger numbers cannot be written. -/

set_option autoImplicit false

namespace HeciMailbox.Toml

open Codec (Kind Value)

/-! ### Writing -/

def maxInteger : Nat := 0x7FFFFFFFFFFFFFFF

def isExpressible : Value → Bool
  | .name _ => true
  | .number value => value ≤ maxInteger

def spell : Value → String
  | .name name => "\"" ++ name ++ "\""
  | .number value => toString value

def entryLine (key : String) (value : Value) : String := key ++ " = " ++ spell value ++ "\n"

def writeRecord (fields : List (String × Option Value)) : Option String :=
  let entries := Codec.entries fields
  if entries.all fun entry => isExpressible entry.2 then
    some (String.join (entries.map fun entry => entryLine entry.1 entry.2))
  else none

/-! ### Reading -/

def isHollow : Node → Bool
  | .array [] | .inline _ [] | .table _ [] | .tables [] => true
  | _ => false

/-- The name that a node gives: a string, or the only key of a table that holds nothing under it. -/
def nameOf? : Node → Option String
  | .scalar (.string name) => some name
  | .inline _ [(name, node)] | .table _ [(name, node)] => if isHollow node then some name else none
  | _ => none

def valueOf? : Kind → Node → Option Value
  | .choice names, node => ((nameOf? node).filter names.contains).map .name
  | .number bound, .scalar (.integer value) =>
    if 0 ≤ value ∧ value.toNat < bound then some (.number value.toNat) else none
  | .number _, _ => none

/-- The first field whose node does not fit is reported. -/
def readFields (document : Entries) :
    List (String × Kind) → Except Config.Refusal (List (String × Value))
  | [] => .ok []
  | (key, kind) :: rest =>
    match document.find? key with
    | none => readFields document rest
    | some node =>
      match valueOf? kind node with
      | none => .error (.badSetting key)
      | some value => do pure ((key, value) :: (← readFields document rest))

def readRecord (fields : List (String × Kind)) (text : String) :
    Except Config.Refusal (List (String × Value)) :=
  match parse text with
  | none => .error .malformed
  | some document => readFields document fields

instance codec : Codec where
  write := writeRecord
  read := readRecord

end HeciMailbox.Toml
