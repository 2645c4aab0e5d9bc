import HeciMailbox.Cli.Arguments
import HeciMailbox.Cli.Simulation
import HeciMailbox.Toml.Codec

/-! The tool's commands. They reach files only through `Files` and spell settings as their codec
does; the tool itself runs with that of TOML. -/

set_option autoImplicit false

namespace HeciMailbox.Cli

def decodeLines (kind : WordKind) (value : UInt32) : List String :=
  match kind with
  | .header =>
    let header : Frame.Header := ⟨value⟩
    [header.describe, "  payload dwords: " ++ toString header.words]
  | .mkhi => [(Mkhi.Header.mk value).describe]
  | .csr => [(Csr.mk value).summary]

section

variable {m : Type → Type} [Monad m] [Files m] [Codec]

def loadConfig (path : String) : m (Except Failure Config) := do
  match ← Files.read path with
  | .error fault => pure (.error (.unreadable path fault))
  | .ok bytes =>
    match Config.ofBytes bytes with
    | .error refusal => pure (.error (.badConfig path refusal))
    | .ok config => pure (.ok config)

/-- Write a configuration. One that cannot be expressed leaves the file as it was. -/
def saveConfig (path : String) (config : Config) : m (Except Failure Unit) := do
  match config.toText? with
  | none => pure (.error (.inexpressible path))
  | some text =>
    match ← Files.write path text with
    | .error fault => pure (.error (.unwritable path fault))
    | .ok () => pure (.ok ())

def simulate (depth : UInt8) (configPath : Option String) : m Report := do
  if !usableDepth depth then pure { ending := .error (.badDepth depth) }
  else
    match configPath with
    | none => pure (Simulation.run depth {})
    | some path =>
      match ← loadConfig path with
      | .error failure => pure { ending := .error failure }
      | .ok config => pure (Simulation.run depth config)

/-- Write the default configuration; what is there already is kept unless `force` is given. -/
def initConfig (path : String) (force : Bool) : m Report := do
  if (← Files.present path) && !force then pure { ending := .error (.alreadyThere path) }
  else
    match ← saveConfig path {} with
    | .error failure => pure { ending := .error failure }
    | .ok () => pure { logged := [⟨.info, "Wrote default configuration path=" ++ path⟩] }

def run : Command → m Report
  | .simulate depth configPath => simulate depth configPath
  | .decode kind value => pure { printed := decodeLines kind value }
  | .initConfig path force => initConfig path force

end

end HeciMailbox.Cli
