import HeciMailbox.Toml.Number

/-! Keys and values of TOML. -/

set_option autoImplicit false

namespace HeciMailbox.Toml

def isBareKey (c : Char) : Bool := c.isAlphanum || c == '_' || c == '-'

def keyPart : Reader String
  | [] => none
  | c :: rest =>
    if c = '\x22' ∨ c = '\x27' then
      (shortString (c :: rest)).map fun (chars, rest) => (String.ofList chars, rest)
    else if isBareKey c then
      some (String.ofList ((c :: rest).takeWhile isBareKey), (c :: rest).dropWhile isBareKey)
    else none

structure Key where
  tables : List String
  last : String
  deriving DecidableEq, Repr

def maxKeyParts : Nat := 79

/-- A key of at most so many parts, with blanks around each. -/
def keyOfParts : Nat → Reader Key
  | 0, _ => none
  | parts + 1, text => do
    let (first, rest) ← keyPart (skipBlanks text)
    match skipBlanks rest with
    | '.' :: rest => do
      let (key, rest) ← keyOfParts parts rest
      some (⟨first :: key.tables, key.last⟩, rest)
    | rest => some (⟨[], first⟩, rest)

def key : Reader Key := keyOfParts maxKeyParts

def maxNesting : Nat := 79

def keyValue (value : Reader Node) (text : List Char) : Option ((Key × Node) × List Char) := do
  let (key, rest) ← key text
  let rest ← afterWord? ['='] rest
  let (node, rest) ← value (skipBlanks rest)
  some ((key, node), rest)

def arrayItems (value : Reader Node) : Nat → Reader (List Node)
  | 0, _ => none
  | rounds + 1, text => do
    let text ← skipFiller (text.length + 1) text
    match text with
    | ']' :: rest => some ([], rest)
    | _ => do
      let (item, rest) ← value text
      let rest ← skipFiller (rest.length + 1) rest
      match rest with
      | ',' :: rest => do
        let (items, rest) ← arrayItems value rounds rest
        some (item :: items, rest)
      | ']' :: rest => some ([item], rest)
      | _ => none

def inlineEntries (value : Reader Node) : Nat → Reader (List (Key × Node))
  | 0, _ => none
  | rounds + 1, text => do
    let (entry, rest) ← keyValue value text
    match skipBlanks rest with
    | ',' :: rest => do
      let (entries, rest) ← inlineEntries value rounds rest
      some (entry :: entries, rest)
    | '\x7d' :: rest => some ([entry], rest)
    | _ => none

/-- Add an entry to a table between braces. A dotted key opens tables on its way and may go through
those that an earlier one opened, but through no other. -/
def addInline (key : String) (node : Node) : List String → Entries → Option Entries
  | [], entries =>
    match entries.find? key with
    | none => some (entries.add key node)
    | some _ => none
  | table :: path, entries =>
    match entries.find? table with
    | none => do
      let child ← addInline key node path []
      some (entries.add table (.inline true child))
    | some (.inline true inner) => do
      let child ← addInline key node path inner
      some (entries.replace table (.inline true child))
    | some _ => none

def inlineTable (entries : List (Key × Node)) : Option Node := do
  let table ← entries.foldlM
    (fun table (key, node) => addInline key.last node key.tables table) []
  some (.inline false table)

def value : Nat → Reader Node
  | _, [] => none
  | depth, c :: rest =>
    let text := c :: rest
    if c = '\x22' ∨ c = '\x27' then
      (anyString text).map fun (chars, rest) => (.scalar (.string (String.ofList chars)), rest)
    else if c = '[' then
      match depth with
      | 0 => none
      | depth + 1 => do
        let (items, rest) ← arrayItems (value depth) text.length rest
        some (.array items, rest)
    else if c = '\x7b' then
      match depth with
      | 0 => none
      | depth + 1 =>
        match skipBlanks rest with
        | '\x7d' :: rest => some (.inline false [], rest)
        | _ => do
          let (entries, rest) ← inlineEntries (value depth) text.length rest
          some (← inlineTable entries, rest)
    else if c = 't' then
      (afterWord? ['t', 'r', 'u', 'e'] text).map fun rest => (.scalar (.boolean true), rest)
    else if c = 'f' then
      (afterWord? ['f', 'a', 'l', 's', 'e'] text).map fun rest => (.scalar (.boolean false), rest)
    else (number text).map fun (scalar, rest) => (.scalar scalar, rest)

end HeciMailbox.Toml
