import HeciMailbox.Config.Basic

/-! The file access that commands need, and files in memory. -/

set_option autoImplicit false

namespace HeciMailbox.Cli

inductive FileFault where
  | notFound
  | notDirectory
  | isDirectory
  | tooLong
  /-- The path holds a NUL character, which would end it early. -/
  | cutShort
  | other (text : String)
  deriving DecidableEq, Repr

def FileFault.message : FileFault → String
  | .notFound => "No such file or directory (os error 2)"
  | .notDirectory => "Not a directory (os error 20)"
  | .isDirectory => "Is a directory (os error 21)"
  | .tooLong => "File name too long (os error 36)"
  | .cutShort => "file name contained an unexpected NUL byte"
  | .other text => text

class Files (m : Type → Type) where
  present (path : String) : m Bool
  read (path : String) : m (Except FileFault ByteArray)
  write (path text : String) : m (Except FileFault Unit)

/-! ### Files in memory -/

/-- Directories and files by the names on their paths. The root, which has no names, is always
there, and so is the current directory. -/
structure Tree where
  directories : List (List String)
  files : List (List String × String)
  current : List String := []

inductive Tree.Target where
  | missing
  | directory
  | file (text : String)
  | unnameable

namespace Tree

def maxName : Nat := 255

def maxPath : Nat := 4095

/-- The names on a path; slashes in a row count as one. -/
def names (path : String) : Except FileFault (List String) :=
  if path.contains '\x00' then .error .cutShort
  else if maxPath < path.utf8ByteSize then .error .tooLong
  else .ok ((path.splitToList (· == '/')).filter (· != ""))

def endsOpen (path : String) : Bool := path.endsWith "/"

def start (tree : Tree) (path : String) : List String :=
  if path.startsWith "/" then [] else tree.current

def isDirectory (tree : Tree) (place : List String) : Bool :=
  place.isEmpty || place == tree.current || tree.directories.contains place

def target (tree : Tree) (place : List String) : Target :=
  if place.any fun name => maxName < name.utf8ByteSize then .unnameable
  else if tree.isDirectory place then .directory
  else
    match tree.files.lookup place with
    | some text => .file text
    | none => .missing

def step (place : List String) (name : String) : List String :=
  if name = "." then place
  else if name = ".." then place.dropLast
  else place ++ [name]

def follow (tree : Tree) (place : List String) :
    List String → Except FileFault (List String × Target)
  | [] => .ok (place, tree.target place)
  | name :: rest =>
    match tree.target place with
    | .directory => follow tree (step place name) rest
    | .file _ => .error .notDirectory
    | .missing => .error .notFound
    | .unnameable => .error .tooLong

def locate (tree : Tree) (path : String) : Except FileFault (List String × Target) := do
  tree.follow (tree.start path) (← names path)

/-- Whether there is anything at `path`. A path with a slash at its end finds no file. -/
def present (tree : Tree) (path : String) : Bool :=
  match tree.locate path with
  | .ok (_, .directory) => true
  | .ok (_, .file _) => !endsOpen path
  | .ok (_, .missing) | .ok (_, .unnameable) | .error _ => false

def read (tree : Tree) (path : String) : Except FileFault ByteArray :=
  match tree.locate path with
  | .error fault => .error fault
  | .ok (_, .directory) => .error .isDirectory
  | .ok (_, .file text) => if endsOpen path then .error .notDirectory else .ok text.toUTF8
  | .ok (_, .missing) => .error .notFound
  | .ok (_, .unnameable) => .error .tooLong

def put (tree : Tree) (place : List String) (text : String) : Tree :=
  { tree with files := tree.files.filter (fun file => file.1 != place) ++ [(place, text)] }

/-- Write a file. A slash at the end of the path asks for a directory, whatever is there. -/
def write (tree : Tree) (path text : String) : Except FileFault Tree :=
  match tree.locate path with
  | .error fault => .error fault
  | .ok (_, .directory) => .error .isDirectory
  | .ok (place, target) =>
    if endsOpen path then .error .isDirectory
    else
      match target with
      | .unnameable => .error .tooLong
      | _ => .ok (tree.put place text)

instance : Files (StateM Tree) where
  present path := do pure ((← get).present path)
  read path := do pure ((← get).read path)
  write path text := do
    match (← get).write path text with
    | .ok tree => set tree; pure (.ok ())
    | .error fault => pure (.error fault)

def filesIn (tree : Tree) (directory : List String) : List (String × String) :=
  tree.files.filterMap fun (path, text) =>
    if path.dropLast = directory then path.getLast?.map fun name => (name, text) else none

end Tree

end HeciMailbox.Cli
