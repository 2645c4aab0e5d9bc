import HeciMailbox.Cli.Run

/-! The command line tool. Lines that a command prints go to standard output, its log and its
failure to standard error. -/

set_option autoImplicit false

namespace HeciMailbox.Cli

/-- The number of a system error, which some file operations report negated. -/
def errorNumber (code : UInt32) : UInt32 := if code < 0x80000000 then code else 0 - code

def FileFault.ofError : IO.Error → FileFault
  | .noFileOrDirectory .. => .notFound
  | .inappropriateType _ code _ =>
    if errorNumber code = 20 then .notDirectory else .isDirectory
  | .invalidArgument file code details =>
    if errorNumber code = 36 then .tooLong
    else .other (toString (IO.Error.invalidArgument file code details))
  | error => .other (toString error)

def caught {α : Type} (operation : IO α) : IO (Except FileFault α) := do
  try pure (.ok (← operation))
  catch error => pure (.error (.ofError error))

instance : Files IO where
  present path := do
    match ← caught (IO.FS.realPath path) with
    | .ok _ => pure true
    | .error _ => pure false
  read path := caught (IO.FS.readBinFile path)
  write path text := caught (IO.FS.writeFile path text)

def helpLines : List String :=
  ["Intel HECI mailbox tool", "",
    "Usage: heci [-v] simulate [--depth <DEPTH>] [--config <CONFIG>]",
    "       heci [-v] decode <header|mkhi|csr> <VALUE>",
    "       heci [-v] init-config [--force] <PATH>"]

def Usage.lines : Usage → List String
  | .help | .nothingGiven => helpLines
  | .version => ["heci 0.1.0"]
  | .missingCommand => "error: a command is needed" :: helpLines
  | .unknownCommand => "error: no such command" :: helpLines
  | .unknownArgument => "error: unexpected argument" :: helpLines
  | .missingArgument => "error: a required argument was not given" :: helpLines
  | .badChoice => "error: a value is missing or not one of those allowed" :: helpLines
  | .badValue => "error: a value is malformed" :: helpLines
  | .repeated => "error: an argument was given more than once" :: helpLines
  | .surplusValue => "error: an option that takes no value was given one" :: helpLines

def Usage.isWanted : Usage → Bool
  | .help | .version => true
  | _ => false

def explain (usage : Usage) : IO UInt32 := do
  if usage.isWanted then
    usage.lines.forM IO.println
    pure 0
  else
    usage.lines.forM IO.eprintln
    pure 2

def present (verbose : Bool) (report : Report) : IO UInt32 := do
  let threshold := if verbose then Severity.debug else Severity.info
  (LogLine.atLeast threshold report.logged).forM fun line => IO.eprintln line.render
  report.printed.forM IO.println
  match report.ending with
  | .ok () => pure 0
  | .error failure =>
    IO.eprintln ("ERROR Error: " ++ failure.message)
    pure 1

def runTool (arguments : List String) : IO UInt32 := do
  match readArguments arguments with
  | .error usage => explain usage
  | .ok invocation => present invocation.verbose (← run invocation.command)

end HeciMailbox.Cli

def main (arguments : List String) : IO UInt32 := HeciMailbox.Cli.runTool arguments
