import HeciMailbox.Toml.Value

/-! TOML documents.

A document is a run of lines. Entries before the first header belong to the root; a header opens a
table, and the entries behind it belong to that table. -/

set_option autoImplicit false

namespace HeciMailbox.Toml

inductive Line where
  | empty
  | entry (key : Key) (node : Node)
  | header (key : Key)
  | arrayHeader (key : Key)

def lineContent (text : List Char) : Option (Line × List Char) :=
  match text with
  | [] => some (.empty, [])
  | '[' :: '[' :: rest => do
    let (key, rest) ← key rest
    let rest ← afterWord? [']', ']'] rest
    some (.arrayHeader key, rest)
  | '[' :: rest => do
    let (key, rest) ← key rest
    let rest ← afterWord? [']'] rest
    some (.header key, rest)
  | c :: rest =>
    if c = '#' ∨ c = '\n' ∨ c = '\r' then some (.empty, c :: rest)
    else do
      let ((key, node), rest) ← keyValue (value maxNesting) (c :: rest)
      some (.entry key node, rest)

def line (text : List Char) : Option (Line × List Char) := do
  let (content, rest) ← lineContent (skipBlanks text)
  some (content, ← afterLine? rest)

def lines : Nat → List Char → Option (List Line)
  | _, [] => some []
  | 0, _ :: _ => none
  | rounds + 1, text => do
    let (first, rest) ← line text
    some (first :: (← lines rounds rest))

/-- Change the table that `path` leads to. Tables on the way that are missing come to be as
`missing`; a path leads into the last of an array of tables. A dotted key does not lead through a
table with a header of its own. -/
def changeTable (missing : Origin) (change : Origin → Entries → Option Entries) :
    List String → Origin → Entries → Option Entries
  | [], origin, entries => change origin entries
  | name :: path, _, entries =>
    match entries.find? name with
    | none => do
      let child ← changeTable missing change path missing []
      some (entries.add name (.table missing child))
    | some (.table origin inner) =>
      if missing = .dotted ∧ origin = .header then none
      else do
        let child ← changeTable missing change path origin inner
        some (entries.replace name (.table origin child))
    | some (.tables elements) =>
      match elements.getLast? with
      | none => none
      | some last => do
        let child ← changeTable missing change path .header last
        some (entries.replace name (.tables (elements.dropLast ++ [child])))
    | some _ => none

/-- Add an entry to the table that is open. No key is given twice, and a dotted key adds only to
tables that dotted keys opened. -/
def addEntry (entries : Entries) (key : Key) (node : Node) : Option Entries :=
  changeTable .dotted
    (fun origin table =>
      if origin = .dotted ↔ key.tables = [] then none
      else
        match table.find? key.last with
        | none => some (table.add key.last node)
        | some _ => none)
    key.tables .header entries

def Line.isHeader : Line → Bool
  | .header _ | .arrayHeader _ => true
  | .empty | .entry .. => false

def addLine (entries : Entries) : Line → Option Entries
  | .entry key node => addEntry entries key node
  | .empty | .header _ | .arrayHeader _ => some entries

def addLines (entries : Entries) (body : List Line) : Option Entries := body.foldlM addLine entries

/-- Open the table `key` and give it the entries of `body`. A table has at most one header, but may
have been implied by longer ones before. -/
def openTable (root : Entries) (key : Key) (body : List Line) : Option Entries :=
  changeTable .implied
    (fun _ parent =>
      match parent.find? key.last with
      | none => do some (parent.add key.last (.table .header (← addLines [] body)))
      | some (.table .implied inner) => do
        some (parent.replace key.last (.table .header (← addLines inner body)))
      | some _ => none)
    key.tables .header root

def openElement (root : Entries) (key : Key) (body : List Line) : Option Entries :=
  changeTable .implied
    (fun _ parent =>
      match parent.find? key.last with
      | none => do some (parent.add key.last (.tables [← addLines [] body]))
      | some (.tables elements) => do
        some (parent.replace key.last (.tables (elements ++ [← addLines [] body])))
      | some _ => none)
    key.tables .header root

def addSections : Nat → List Line → Entries → Option Entries
  | _, [], root => some root
  | 0, _ :: _, _ => none
  | rounds + 1, first :: rest, root => do
    let body := rest.takeWhile fun line => !line.isHeader
    let behind := rest.dropWhile fun line => !line.isHeader
    match first with
    | .header key => addSections rounds behind (← openTable root key body)
    | .arrayHeader key => addSections rounds behind (← openElement root key body)
    | .empty | .entry .. => none

def parse (text : String) : Option Entries := do
  let chars := match text.toList with
    | '\ufeff' :: rest => rest
    | chars => chars
  let content ← lines chars.length chars
  let root ← addLines [] (content.takeWhile fun line => !line.isHeader)
  addSections content.length (content.dropWhile fun line => !line.isHeader) root

end HeciMailbox.Toml
