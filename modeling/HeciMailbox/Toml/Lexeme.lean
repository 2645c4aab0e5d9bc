import HeciMailbox.Text.Numeral

/-! Blanks, comments, line ends and strings of TOML text.

A reader takes its part off the front of a text and gives what it stands for together with the rest.
A reader that loops counts down; the length of the text is always enough, since every round takes a
character off. -/

set_option autoImplicit false

namespace HeciMailbox.Toml

abbrev Reader (α : Type) := List Char → Option (α × List Char)

def isBlank (c : Char) : Bool := c == ' ' || c == '\t'

/-- Characters that may stand in comments and strings as they are: tabs and all that is no control
character. -/
def isPlain (c : Char) : Bool := c == '\t' || (0x20 ≤ c.toNat && c.toNat != 0x7F)

def skipBlanks (text : List Char) : List Char := text.dropWhile isBlank

def afterBreak? : List Char → Option (List Char)
  | '\n' :: rest => some rest
  | '\r' :: '\n' :: rest => some rest
  | _ => none

def skipComment : List Char → List Char
  | '#' :: rest => rest.dropWhile isPlain
  | text => text

def afterLine? (text : List Char) : Option (List Char) :=
  match skipComment (skipBlanks text) with
  | [] => some []
  | rest => afterBreak? rest

def skipWhite : Nat → List Char → List Char
  | 0, text => text
  | rounds + 1, text =>
    let text := skipBlanks text
    match afterBreak? text with
    | some rest => skipWhite rounds rest
    | none => text

/-- Skip blanks, line breaks and comments. A comment must end with a line break. -/
def skipFiller : Nat → List Char → Option (List Char)
  | 0, _ => none
  | rounds + 1, text =>
    match skipBlanks text with
    | '#' :: rest =>
      match afterBreak? (rest.dropWhile isPlain) with
      | some rest => skipFiller rounds rest
      | none => none
    | text =>
      match afterBreak? text with
      | some rest => skipFiller rounds rest
      | none => some text

def afterWord? : List Char → List Char → Option (List Char)
  | [], text => some text
  | c :: word, d :: text => if c = d then afterWord? word text else none
  | _ :: _, [] => none

/-! ### Strings -/

def codePoint? (count : Nat) (text : List Char) : Option (Char × List Char) := do
  let digits ← (text.take count).mapM Text.hexDigit?
  let code := digits.foldl (fun value digit => value * 16 + digit) 0
  if digits.length = count ∧ code.isValidChar then some (Char.ofNat code, text.drop count) else none

def escape? : List Char → Option (Char × List Char)
  | 'b' :: rest => some ('\x08', rest)
  | 't' :: rest => some ('\x09', rest)
  | 'n' :: rest => some ('\x0a', rest)
  | 'f' :: rest => some ('\x0c', rest)
  | 'r' :: rest => some ('\x0d', rest)
  | '\x22' :: rest => some ('\x22', rest)
  | '\x5c' :: rest => some ('\x5c', rest)
  | 'u' :: rest => codePoint? 4 rest
  | 'U' :: rest => codePoint? 8 rest
  | _ => none

def basicBody : Nat → Reader (List Char)
  | 0, _ => none
  | _ + 1, [] => none
  | rounds + 1, c :: rest =>
    if c = '\x22' then some ([], rest)
    else if c = '\x5c' then do
      let (escaped, rest) ← escape? rest
      let (chars, rest) ← basicBody rounds rest
      some (escaped :: chars, rest)
    else if isPlain c then do
      let (chars, rest) ← basicBody rounds rest
      some (c :: chars, rest)
    else none

def literalBody : Reader (List Char)
  | [] => none
  | c :: rest =>
    if c = '\x27' then some ([], rest)
    else if isPlain c then do
      let (chars, rest) ← literalBody rest
      some (c :: chars, rest)
    else none

/-- How a string over several lines goes on at a run of its delimiter: three close it, and up to two
more may stand before them. Shorter runs belong to the string. -/
def closingRun (delimiter : Char) (text : List Char) : Nat × Bool :=
  let run := min 5 (text.takeWhile (· == delimiter)).length
  if run < 3 then (run, false) else (run - 3, true)

/-- The body of a string over several lines. A backslash at the end of a line removes the break and
all blanks and breaks after it. -/
def multilineBody (delimiter : Char) (escapes : Bool) : Nat → Reader (List Char)
  | 0, _ => none
  | _ + 1, [] => none
  | rounds + 1, c :: rest =>
    let text := c :: rest
    if c = delimiter then
      let (kept, closed) := closingRun delimiter text
      let quotes := List.replicate kept delimiter
      if closed then some (quotes, text.drop (kept + 3))
      else do
        let (chars, rest) ← multilineBody delimiter escapes rounds (text.drop kept)
        some (quotes ++ chars, rest)
    else if escapes && c == '\x5c' then
      match afterBreak? (skipBlanks rest) with
      | some rest => multilineBody delimiter escapes rounds (skipWhite rest.length rest)
      | none => do
        let (escaped, rest) ← escape? rest
        let (chars, rest) ← multilineBody delimiter escapes rounds rest
        some (escaped :: chars, rest)
    else if isPlain c then do
      let (chars, rest) ← multilineBody delimiter escapes rounds rest
      some (c :: chars, rest)
    else
      match afterBreak? text with
      | some rest => do
        let (chars, rest) ← multilineBody delimiter escapes rounds rest
        some ('\n' :: chars, rest)
      | none => none

def multiline (delimiter : Char) (escapes : Bool) (text : List Char) :
    Option (List Char × List Char) :=
  let body := (afterBreak? text).getD text
  multilineBody delimiter escapes body.length body

def shortString : Reader (List Char)
  | '\x22' :: rest => basicBody rest.length rest
  | '\x27' :: rest => literalBody rest
  | _ => none

def anyString (text : List Char) : Option (List Char × List Char) :=
  match afterWord? ['\x22', '\x22', '\x22'] text with
  | some rest => multiline '\x22' true rest
  | none =>
    match afterWord? ['\x27', '\x27', '\x27'] text with
    | some rest => multiline '\x27' false rest
    | none => shortString text

end HeciMailbox.Toml
