import HeciMailbox.Toml.Lexeme
import HeciMailbox.Toml.Node

/-! Numbers, dates and times of TOML. -/

set_option autoImplicit false

namespace HeciMailbox.Toml

/-! ### Dates and times -/

def fixedDigits (count : Nat) (text : List Char) : Option (Nat × List Char) :=
  let digits := text.take count
  if digits.length = count ∧ digits.all Char.isDigit then
    some (digits.foldl (fun value c => value * 10 + (c.toNat - '0'.toNat)) 0, text.drop count)
  else none

def twoDigits (low high : Nat) (text : List Char) : Option (Nat × List Char) := do
  let (value, rest) ← fixedDigits 2 text
  if low ≤ value ∧ value ≤ high then some (value, rest) else none

def isLeapYear (year : Nat) : Bool := year % 4 == 0 && (year % 100 != 0 || year % 400 == 0)

def daysOfMonth (year month : Nat) : Nat :=
  if month = 2 then (if isLeapYear year then 29 else 28)
  else if month = 4 ∨ month = 6 ∨ month = 9 ∨ month = 11 then 30
  else 31

def afterDate? (text : List Char) : Option (List Char) := do
  let (year, rest) ← fixedDigits 4 text
  let rest ← afterWord? ['-'] rest
  let (month, rest) ← twoDigits 1 12 rest
  let rest ← afterWord? ['-'] rest
  let (_, rest) ← twoDigits 1 (daysOfMonth year month) rest
  some rest

def afterFraction? (text : List Char) : Option (List Char) := do
  let rest ← afterWord? ['.'] text
  if (rest.head?.map Char.isDigit).getD false then some (rest.dropWhile Char.isDigit) else none

def afterTime? (text : List Char) : Option (List Char) := do
  let (_, rest) ← twoDigits 0 23 text
  let rest ← afterWord? [':'] rest
  let (_, rest) ← twoDigits 0 59 rest
  let rest ← afterWord? [':'] rest
  let (_, rest) ← twoDigits 0 60 rest
  some ((afterFraction? rest).getD rest)

def afterOffset? : List Char → Option (List Char)
  | [] => none
  | c :: rest =>
    if c = 'Z' ∨ c = 'z' then some rest
    else if c = '+' ∨ c = '-' then do
      let (_, rest) ← twoDigits 0 23 rest
      let rest ← afterWord? [':'] rest
      let (_, rest) ← twoDigits 0 59 rest
      some rest
    else none

def afterTimeOfDate? : List Char → Option (List Char)
  | [] => none
  | c :: rest =>
    if c = 'T' ∨ c = 't' ∨ c = ' ' then do
      let rest ← afterTime? rest
      some ((afterOffset? rest).getD rest)
    else none

def afterDateTime? (text : List Char) : Option (List Char) :=
  match afterDate? text with
  | some rest => some ((afterTimeOfDate? rest).getD rest)
  | none => afterTime? text

/-! ### Integers and fractions -/

/-- Digits that go on a run; single underscores may stand between two of them. -/
def moreDigits (isDigit : Char → Bool) : Reader (List Char)
  | [] => some ([], [])
  | c :: rest =>
    if isDigit c then do
      let (digits, rest) ← moreDigits isDigit rest
      some (c :: digits, rest)
    else if c = '_' then
      match rest with
      | [] => none
      | d :: rest =>
        if isDigit d then do
          let (digits, rest) ← moreDigits isDigit rest
          some (d :: digits, rest)
        else none
    else some ([], c :: rest)

def digitRun (isDigit : Char → Bool) : Reader (List Char)
  | [] => none
  | c :: rest =>
    if isDigit c then do
      let (digits, rest) ← moreDigits isDigit rest
      some (c :: digits, rest)
    else none

def ofDigits (base : Nat) (digits : List Char) : Nat :=
  digits.foldl (fun value c => value * base + (Text.hexDigit? c).getD 0) 0

def isDigitOf (base : Nat) (c : Char) : Bool :=
  match Text.hexDigit? c with
  | some value => value < base
  | none => false

def integer? (value : Int) : Option Scalar :=
  if -0x8000000000000000 ≤ value ∧ value < 0x8000000000000000 then some (.integer value) else none

/-- An integer with a mark for its base in front. Such numbers have no sign. -/
def markedInteger? (mark : Char) (base : Nat) (text : List Char) : Option (Scalar × List Char) := do
  let rest ← afterWord? ['0', mark] text
  let (digits, rest) ← digitRun (isDigitOf base) rest
  some (← integer? (ofDigits base digits), rest)

/-- The whole digits of a decimal number: zero alone, or a run that starts otherwise. -/
def wholeDigits : Reader (List Char)
  | [] => none
  | c :: rest =>
    if c = '0' then some (['0'], rest) else digitRun Char.isDigit (c :: rest)

def fractionDigits : Reader (List Char)
  | '.' :: rest => digitRun Char.isDigit rest
  | text => some ([], text)

def sign : List Char → Bool × List Char
  | '-' :: rest => (true, rest)
  | '+' :: rest => (false, rest)
  | text => (false, text)

def exponent : Reader (Option Int)
  | [] => some (none, [])
  | c :: rest =>
    if c = 'e' ∨ c = 'E' then do
      let (negative, rest) := sign rest
      let (digits, rest) ← digitRun Char.isDigit rest
      let value : Int := ofDigits 10 digits
      some (some (if negative then -value else value), rest)
    else some (none, c :: rest)

/-- Whether `digits` times ten to `scale` is rounded up to infinity in double precision, that is,
lies half a step or more above the largest finite double. -/
def overflows (digits : Nat) (scale : Int) : Bool :=
  let limit := Nat.pow 2 1024 - Nat.pow 2 970
  let magnitude : Int := (Nat.toDigits 10 digits).length + scale
  if digits = 0 then false
  else if 310 < magnitude then true
  else if magnitude < 300 then false
  else if 0 ≤ scale then limit ≤ digits * Nat.pow 10 scale.toNat
  else limit * Nat.pow 10 (-scale).toNat ≤ digits

/-- A decimal number. One with a fraction or an exponent must not exceed the doubles upward. -/
def decimal (text : List Char) : Option (Scalar × List Char) := do
  let (negative, unsigned) := sign text
  match afterWord? ['i', 'n', 'f'] unsigned, afterWord? ['n', 'a', 'n'] unsigned with
  | some rest, _ | none, some rest => some (.float, rest)
  | none, none =>
    let (whole, rest) ← wholeDigits unsigned
    let (fraction, rest) ← fractionDigits rest
    let (power, rest) ← exponent rest
    if fraction.isEmpty && power.isNone then
      let value : Int := ofDigits 10 whole
      some (← integer? (if negative then -value else value), rest)
    else if !negative && overflows (ofDigits 10 (whole ++ fraction))
        (power.getD 0 - fraction.length) then none
    else some (.float, rest)

def number (text : List Char) : Option (Scalar × List Char) :=
  match afterDateTime? text with
  | some rest => some (.date, rest)
  | none =>
    match afterWord? ['0', 'x'] text, afterWord? ['0', 'o'] text, afterWord? ['0', 'b'] text with
    | some _, _, _ => markedInteger? 'x' 16 text
    | none, some _, _ => markedInteger? 'o' 8 text
    | none, none, some _ => markedInteger? 'b' 2 text
    | none, none, none => decimal text

end HeciMailbox.Toml
