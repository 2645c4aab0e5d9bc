/-! The tree of a TOML document.

Numbers with a fraction, dates and times are checked when they are read, but of their value nothing
is kept: no setting has one. Tables remember how they came to be, because that decides what may
still be added to them. -/

set_option autoImplicit false

namespace HeciMailbox.Toml

inductive Scalar where
  | string (text : String)
  | integer (value : Int)
  | boolean (value : Bool)
  | float
  | date
  deriving DecidableEq, Repr

inductive Origin where
  | header
  /-- Named on the way to a longer header. -/
  | implied
  | dotted
  deriving DecidableEq, Repr

inductive Node where
  | scalar (value : Scalar)
  | array (items : List Node)
  /-- A table between braces; `dotted` if it was only named by a dotted key inside one. -/
  | inline (dotted : Bool) (entries : List (String × Node))
  | table (origin : Origin) (entries : List (String × Node))
  | tables (elements : List (List (String × Node)))

abbrev Entries := List (String × Node)

namespace Entries

def find? (entries : Entries) (key : String) : Option Node :=
  (List.find? (fun entry => entry.1 == key) entries).map Prod.snd

def add (entries : Entries) (key : String) (node : Node) : Entries := entries ++ [(key, node)]

def replace (entries : Entries) (key : String) (node : Node) : Entries :=
  List.map (fun entry => if entry.1 == key then (key, node) else entry) entries

end Entries

end HeciMailbox.Toml
