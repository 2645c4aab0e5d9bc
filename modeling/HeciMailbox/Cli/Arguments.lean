import HeciMailbox.Text.HexWord

/-! The command line's grammar.

A command line is read from left to right. A value that stands apart from its option, and a
positional value, are only looked at when the next argument shows that they are complete, so a bad
value is reported after an unknown option right behind it. -/

set_option autoImplicit false

namespace HeciMailbox.Cli

/-- Why a command line is not carried out; asking for help or the version is one reason. -/
inductive Usage where
  | help
  | version
  | nothingGiven
  | missingCommand
  | unknownCommand
  | unknownArgument
  | missingArgument
  /-- A value is missing, empty, or none of those to choose from. -/
  | badChoice
  | badValue
  | repeated
  | surplusValue
  deriving DecidableEq, Repr

inductive WordKind where
  | header
  | mkhi
  | csr
  deriving DecidableEq, Repr

inductive Command where
  | simulate (depth : UInt8) (config : Option String)
  | decode (kind : WordKind) (value : UInt32)
  | initConfig (path : String) (force : Bool)
  deriving DecidableEq, Repr

structure Invocation where
  command : Command
  verbose : Bool
  deriving DecidableEq, Repr

inductive Slot where
  | help
  | version
  | verbose
  | depth
  | config
  | force
  | kind
  | value
  | path
  deriving DecidableEq, Repr

def Slot.takesValue : Slot → Bool
  | .depth | .config | .kind | .value | .path => true
  | .help | .version | .verbose | .force => false

inductive Setting where
  | verbose
  | depth (slots : UInt8)
  | config (path : String)
  | force
  | kind (kind : WordKind)
  | value (word : UInt32)
  | path (path : String)
  deriving DecidableEq, Repr

def Setting.slot : Setting → Slot
  | .verbose => .verbose
  | .depth _ => .depth
  | .config _ => .config
  | .force => .force
  | .kind _ => .kind
  | .value _ => .value
  | .path _ => .path

/-! ### Values -/

def digits? (text : List Char) : Option Nat :=
  if text.isEmpty || !text.all Char.isDigit then none
  else some (text.foldl (fun value c => value * 10 + (c.toNat - '0'.toNat)) 0)

def byte? (text : String) : Option UInt8 := do
  let value : Int ← match text.toList with
    | '-' :: rest => (digits? rest).map fun value => -(value : Int)
    | '+' :: rest => (digits? rest).map Int.ofNat
    | rest => (digits? rest).map Int.ofNat
  if 0 ≤ value ∧ value < 256 then some (UInt8.ofNat value.toNat) else none

def WordKind.ofName? : String → Option WordKind
  | "header" => some .header
  | "mkhi" => some .mkhi
  | "csr" => some .csr
  | _ => none

def Slot.fill (slot : Slot) (text : String) : Except Usage Setting :=
  match slot with
  | .depth => (byte? text).elim (.error .badValue) fun slots => .ok (.depth slots)
  | .value =>
    match Text.HexWord.read text with
    | .ok word => .ok (.value word)
    | .error _ => .error .badValue
  | .kind => (WordKind.ofName? text).elim (.error .badChoice) fun kind => .ok (.kind kind)
  | .config => if text.isEmpty then .error .badChoice else .ok (.config text)
  | .path => if text.isEmpty then .error .badChoice else .ok (.path text)
  | .help | .version | .verbose | .force => .error .surplusValue

/-! ### Reading one level -/

/-- What one level of the command line admits: the tool itself, or one of its commands. -/
structure Grammar where
  long : List (String × Slot)
  short : List (Char × Slot)
  positional : List Slot
  commands : List String := []

structure Reading where
  /-- A slot whose value is not settled yet, and that value if it has been seen. -/
  pending : Option (Slot × Option String) := none
  settings : List Setting := []
  positional : List Slot
  /-- Whether two dashes have stood alone, so that only positional values follow. -/
  literal : Bool := false

namespace Reading

def awaitsValue (reading : Reading) : Bool :=
  match reading.pending with
  | some (_, none) => true
  | _ => false

def record (reading : Reading) (setting : Setting) : Except Usage Reading :=
  if reading.settings.any fun earlier => earlier.slot == setting.slot then .error .repeated
  else .ok { reading with settings := reading.settings ++ [setting] }

/-- Fill `slot`; that it is filled already is reported before what is wrong with the text. -/
def assign (reading : Reading) (slot : Slot) (text : String) : Except Usage Reading :=
  if reading.settings.any fun earlier => earlier.slot == slot then .error .repeated
  else do reading.record (← slot.fill text)

def settle (reading : Reading) : Except Usage Reading :=
  match reading.pending with
  | none => .ok reading
  | some (_, none) => .error .badChoice
  | some (slot, some text) => { reading with pending := none }.assign slot text

def mark (reading : Reading) (slot : Slot) : Except Usage Reading := do
  let reading ← reading.settle
  match slot with
  | .help => .error .help
  | .version => .error .version
  | .force => reading.record .force
  | _ => reading.record .verbose

def long (grammar : Grammar) (reading : Reading) (name : String) (attached : Option String) :
    Except Usage Reading :=
  match grammar.long.lookup name with
  | none => .error .unknownArgument
  | some slot =>
    match slot.takesValue, attached with
    | true, some text => do (← reading.settle).assign slot text
    | true, none => do .ok { ← reading.settle with pending := some (slot, none) }
    | false, some _ => .error .surplusValue
    | false, none => reading.mark slot

def short (grammar : Grammar) (reading : Reading) : List Char → Except Usage Reading
  | [] => .ok reading
  | letter :: rest =>
    match grammar.short.lookup letter with
    | none => .error .unknownArgument
    | some slot => do short grammar (← reading.mark slot) rest

def positionalValue (grammar : Grammar) (reading : Reading) (argument : String) :
    Except Usage Reading :=
  match reading.positional with
  | slot :: rest => do
    .ok { ← reading.settle with pending := some (slot, some argument), positional := rest }
  | [] =>
    if grammar.commands.isEmpty || (reading.literal && grammar.commands.contains argument) then
      .error .unknownArgument
    else .error .unknownCommand

def argument (grammar : Grammar) (reading : Reading) (argument : String) : Except Usage Reading :=
  if reading.literal then reading.positionalValue grammar argument
  else
    match argument.toList with
    | ['-', '-'] => .ok { reading with literal := true }
    | '-' :: '-' :: rest =>
      let name := String.ofList (rest.takeWhile (· != '='))
      match rest.dropWhile (· != '=') with
      | _ :: value => reading.long grammar name (some (String.ofList value))
      | [] => reading.long grammar name none
    | '-' :: letter :: rest => reading.short grammar (letter :: rest)
    | _ =>
      match reading.pending with
      | some (slot, none) => .ok { reading with pending := some (slot, some argument) }
      | _ => reading.positionalValue grammar argument

/-- Read arguments up to one that names a command. Gives that name and the arguments behind it. -/
def arguments (grammar : Grammar) (reading : Reading) :
    List String → Except Usage (Reading × Option (String × List String))
  | [] => .ok (reading, none)
  | first :: rest =>
    if !reading.literal && !reading.awaitsValue && grammar.commands.contains first then
      .ok (reading, some (first, rest))
    else do arguments grammar (← reading.argument grammar first) rest

end Reading

/-! ### The tool and its commands -/

def toolGrammar : Grammar where
  long := [("help", .help), ("version", .version), ("verbose", .verbose)]
  short := [('h', .help), ('V', .version), ('v', .verbose)]
  positional := []
  commands := ["simulate", "decode", "init-config", "help"]

def commandGrammar (options : List (String × Slot)) (positional : List Slot) : Grammar where
  long := [("help", .help), ("verbose", .verbose)] ++ options
  short := [('h', .help), ('v', .verbose)]
  positional := positional

def commandSettings (grammar : Grammar) (arguments : List String) :
    Except Usage (List Setting) := do
  let (reading, _) ← Reading.arguments grammar { positional := grammar.positional } arguments
  pure (← reading.settle).settings

def depthOf (settings : List Setting) : UInt8 :=
  (settings.findSome? fun | .depth slots => some slots | _ => none).getD 32

def configOf (settings : List Setting) : Option String :=
  settings.findSome? fun | .config path => some path | _ => none

def kindOf (settings : List Setting) : Option WordKind :=
  settings.findSome? fun | .kind kind => some kind | _ => none

def valueOf (settings : List Setting) : Option UInt32 :=
  settings.findSome? fun | .value word => some word | _ => none

def pathOf (settings : List Setting) : Option String :=
  settings.findSome? fun | .path path => some path | _ => none

def isVerbose (settings : List Setting) : Bool := settings.contains .verbose

def readCommand (earlier : List Setting) (name : String) (arguments : List String) :
    Except Usage Invocation := do
  if name = "simulate" then
    let settings ← commandSettings
      (commandGrammar [("depth", .depth), ("config", .config)] []) arguments
    pure ⟨.simulate (depthOf settings) (configOf settings), isVerbose (earlier ++ settings)⟩
  else if name = "decode" then
    let settings ← commandSettings (commandGrammar [] [.kind, .value]) arguments
    match kindOf settings, valueOf settings with
    | some kind, some value => pure ⟨.decode kind value, isVerbose (earlier ++ settings)⟩
    | _, _ => throw .missingArgument
  else if name = "init-config" then
    let settings ← commandSettings (commandGrammar [("force", .force)] [.path]) arguments
    match pathOf settings with
    | some path =>
      pure ⟨.initConfig path (settings.contains .force), isVerbose (earlier ++ settings)⟩
    | none => throw .missingArgument
  else
    -- The help command names at most one command, which has no commands of its own.
    .error <|
      match arguments with
      | [] => .help
      | [command] => if toolGrammar.commands.contains command then .help else .unknownCommand
      | _ => .unknownCommand

def readArguments (arguments : List String) : Except Usage Invocation := do
  match ← Reading.arguments toolGrammar { positional := [] } arguments with
  | (reading, some (name, rest)) => readCommand reading.settings name rest
  | (reading, none) =>
    .error (if reading.settings.isEmpty then .nothingGiven else .missingCommand)

end HeciMailbox.Cli
