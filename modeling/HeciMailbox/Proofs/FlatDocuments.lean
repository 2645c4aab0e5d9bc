import HeciMailbox.Proofs.Digits
import HeciMailbox.Toml.Document
import Mathlib.Data.List.Nodup
import Mathlib.Data.List.TakeWhile

/-! Documents of entries alone.

Every line has one bare key and one text or number and ends with a line feed. Nothing is said of
documents in another form; this is the form in which settings are written. -/

set_option autoImplicit false

namespace HeciMailbox.Toml

variable {rest : List Char}

/-! ### Numbers at the end of a line -/

section

variable {digits : List Char} (decimal : ∀ c ∈ digits, c.isDigit = true)

include decimal

theorem moreDigits_of_decimal :
    moreDigits Char.isDigit (digits ++ '\n' :: rest) = some (digits, '\n' :: rest) := by
  induction digits with
  | nil =>
    rw [List.nil_append, moreDigits.eq_def]
    rfl
  | cons c digits ih =>
    have more := ih fun c member => decimal c (List.mem_cons_of_mem _ member)
    rw [List.cons_append, moreDigits.eq_def]
    simp only [decimal c List.mem_cons_self, if_true, more]
    rfl

/-- Whatever a number of fixed width leaves begins with a digit or is the end of the line. -/
theorem fixedDigits_of_decimal {count value : Nat} {behind : List Char}
    (read : fixedDigits count (digits ++ '\n' :: rest) = some (value, behind)) :
    ∃ more, (∀ c ∈ more, c.isDigit = true) ∧ behind = more ++ '\n' :: rest := by
  unfold fixedDigits at read
  simp only at read
  split at read
  · next whole =>
    obtain ⟨-, all⟩ := whole
    have enough : count ≤ digits.length := by
      by_contra short
      have member : '\n' ∈ (digits ++ '\n' :: rest).take count := by
        rw [List.take_append, show count - digits.length = count - digits.length - 1 + 1 by omega]
        simp
      exact absurd (List.all_eq_true.mp all _ member) (by decide)
    cases read
    refine ⟨digits.drop count, fun c member => decimal c (List.mem_of_mem_drop member), ?_⟩
    exact List.drop_append_of_le_length enough
  · cases read

theorem afterWord?_of_decimal {c : Char} (strange : c.isDigit = false) (inside : c ≠ '\n') :
    afterWord? [c] (digits ++ '\n' :: rest) = none := by
  cases digits with
  | nil => exact if_neg inside
  | cons d digits =>
    refine if_neg ?_
    rintro rfl
    rw [decimal c List.mem_cons_self] at strange
    cases strange

theorem afterMark?_of_decimal {mark : Char} (strange : mark.isDigit = false)
    (inside : mark ≠ '\n') : afterWord? ['0', mark] (digits ++ '\n' :: rest) = none := by
  cases digits with
  | nil => rfl
  | cons c digits =>
    rw [List.cons_append, afterWord?]
    split
    · exact afterWord?_of_decimal (fun c member => decimal c (List.mem_cons_of_mem _ member))
        strange inside
    · rfl

theorem afterDate?_of_decimal : afterDate? (digits ++ '\n' :: rest) = none := by
  unfold afterDate?
  cases year : fixedDigits 4 (digits ++ '\n' :: rest) with
  | none => rfl
  | some found =>
    obtain ⟨more, decimal, behind⟩ := fixedDigits_of_decimal decimal year
    simp only [behind, afterWord?_of_decimal decimal (c := '-') rfl (by decide),
      Option.bind_eq_bind, Option.bind_some, Option.bind_none]

theorem afterTime?_of_decimal : afterTime? (digits ++ '\n' :: rest) = none := by
  unfold afterTime? twoDigits
  cases hour : fixedDigits 2 (digits ++ '\n' :: rest) with
  | none => rfl
  | some found =>
    obtain ⟨more, decimal, behind⟩ := fixedDigits_of_decimal decimal hour
    simp only [Option.bind_eq_bind, Option.bind_some]
    split
    · simp only [behind, afterWord?_of_decimal decimal (c := ':') rfl (by decide),
        Option.bind_some, Option.bind_none]
    · rfl

end

theorem decimal_of_whole {text digits : List Char} (unsigned : sign text = (false, text))
    (finite : afterWord? ['i', 'n', 'f'] text = none)
    (defined : afterWord? ['n', 'a', 'n'] text = none)
    (whole : wholeDigits text = some (digits, '\n' :: rest)) :
    decimal text = (integer? (ofDigits 10 digits)).map fun value => (value, '\n' :: rest) := by
  have fraction : fractionDigits ('\n' :: rest) = some ([], '\n' :: rest) := rfl
  have power : exponent ('\n' :: rest) = some (none, '\n' :: rest) := rfl
  unfold decimal
  simp only [unsigned, finite, defined, whole]
  -- Bind by bind: reduced all at once they go too deep for the kernel.
  rw [Option.bind_eq_bind, Option.bind_some, fraction, Option.bind_eq_bind, Option.bind_some, power,
    Option.bind_eq_bind, Option.bind_some, if_pos (by rfl)]
  simp only [Bool.false_eq_true, if_false]
  cases integer? (ofDigits 10 digits) with
  | none => rfl
  | some value => rfl

/-- A number without zeros in front, in as many digits as it likes. -/
theorem number_of_decimal {c : Char} {digits : List Char}
    (decimal : ∀ d ∈ c :: digits, d.isDigit = true) (shortest : c = '0' → digits = []) :
    number (c :: digits ++ '\n' :: rest) =
      (integer? (ofDigits 10 (c :: digits))).map fun value => (value, '\n' :: rest) := by
  have first : c.isDigit = true := decimal c List.mem_cons_self
  have ne {other : Char} (strange : other.isDigit = false) : c ≠ other := by
    rintro rfl
    rw [first] at strange
    cases strange
  have unsigned : sign (c :: digits ++ '\n' :: rest) = (false, c :: digits ++ '\n' :: rest) := by
    rw [List.cons_append, sign.eq_def]
    split
    · next same => exact absurd (List.cons.inj same).1 (ne rfl)
    · next same => exact absurd (List.cons.inj same).1 (ne rfl)
    · rfl
  have whole : wholeDigits (c :: digits ++ '\n' :: rest) = some (c :: digits, '\n' :: rest) := by
    rw [List.cons_append, wholeDigits]
    split
    · next zero => rw [zero, shortest zero, List.nil_append]
    · have more : moreDigits Char.isDigit (digits ++ '\n' :: rest) = some (digits, '\n' :: rest) :=
        moreDigits_of_decimal fun d member => decimal d (List.mem_cons_of_mem c member)
      rw [digitRun, if_pos first, more]
      rfl
  have word {letter : Char} (strange : letter.isDigit = false) (letters : List Char) :
      afterWord? (letter :: letters) (c :: digits ++ '\n' :: rest) = none :=
    if_neg (ne strange).symm
  have markX : afterWord? ['0', 'x'] (c :: digits ++ '\n' :: rest) = none :=
    afterMark?_of_decimal decimal rfl (by decide)
  have markO : afterWord? ['0', 'o'] (c :: digits ++ '\n' :: rest) = none :=
    afterMark?_of_decimal decimal rfl (by decide)
  have markB : afterWord? ['0', 'b'] (c :: digits ++ '\n' :: rest) = none :=
    afterMark?_of_decimal decimal rfl (by decide)
  rw [number, afterDateTime?, afterDate?_of_decimal decimal]
  simp only [afterTime?_of_decimal decimal, markX, markO, markB]
  exact decimal_of_whole unsigned (word rfl _) (word rfl _) whole

theorem ofDigits_of_spells {base n : Nat} {text : List Char} (spells : Text.Spells base text n) :
    ofDigits base text = n := by
  induction spells with
  | digit digit small => simp [ofDigits, digit]
  | more front digit small ih =>
    rw [ofDigits, List.foldl_append, ← ofDigits, ih]
    simp [digit]

theorem ofDigits_toDigits (n : Nat) : ofDigits 10 (Nat.toDigits 10 n) = n :=
  ofDigits_of_spells (Text.Spells.toDigits (by decide) (by decide) n)

theorem toDigits_shortest {n : Nat} {digits : List Char}
    (written : Nat.toDigits 10 n = '0' :: digits) : digits = [] := by
  induction n using Nat.strongRecOn generalizing digits with
  | ind n ih =>
    rw [Nat.toDigits_eq_if (by decide)] at written
    split at written
    · exact (List.cons.inj written).2.symm
    · next large =>
      cases front : Nat.toDigits 10 (n / 10) with
      | nil => exact absurd front Nat.toDigits_ne_nil
      | cons c behind =>
        rw [front, List.cons_append] at written
        obtain ⟨rfl, -⟩ := List.cons.inj written
        obtain rfl := ih (n / 10) (by omega) front
        -- The front is zero alone, but it is the quotient of ten or more.
        have zero := ofDigits_toDigits (n / 10)
        rw [front] at zero
        have : n / 10 = 0 := zero.symm
        omega

theorem number_toDigits {n : Nat} (fits : n < 2 ^ 63) :
    number (Nat.toDigits 10 n ++ '\n' :: rest) = some (.integer n, '\n' :: rest) := by
  have value := ofDigits_toDigits n
  cases written : Nat.toDigits 10 n with
  | nil => exact absurd written Nat.toDigits_ne_nil
  | cons c digits =>
    rw [written] at value
    have decimal : ∀ d ∈ c :: digits, d.isDigit = true := fun d member =>
      Nat.isDigit_of_mem_toDigits (by decide) (by decide) (written ▸ member)
    have shortest : c = '0' → digits = [] := fun zero => toDigits_shortest (zero ▸ written)
    rw [number_of_decimal decimal shortest, value, integer?, if_pos (by omega)]
    rfl

/-! ### Values and lines -/

/-- `text` at the end of a line is read as the value `node`. -/
structure Shows (text : List Char) (node : Node) : Prop where
  first : ∃ c behind, text = c :: behind ∧ isBlank c = false
  read (depth : Nat) (rest : List Char) :
    value depth (text ++ '\n' :: rest) = some (node, '\n' :: rest)

theorem shows_number {n : Nat} (fits : n < 2 ^ 63) :
    Shows (Nat.toDigits 10 n) (.scalar (.integer n)) := by
  cases written : Nat.toDigits 10 n with
  | nil => exact absurd written Nat.toDigits_ne_nil
  | cons c digits =>
    have decimal : c.isDigit = true :=
      Nat.isDigit_of_mem_toDigits (by decide) (by decide) (written ▸ List.mem_cons_self)
    have ne {other : Char} (strange : other.isDigit = false) : c ≠ other := by
      rintro rfl
      rw [decimal] at strange
      cases strange
    refine ⟨⟨c, digits, rfl, ?_⟩, fun depth rest => ?_⟩
    · simp only [isBlank, Bool.or_eq_false_iff, beq_eq_false_iff_ne]
      exact ⟨ne rfl, ne rfl⟩
    · have read : number (Nat.toDigits 10 n ++ '\n' :: rest) = some (.integer n, '\n' :: rest) :=
        number_toDigits fits
      rw [written, List.cons_append] at read
      have quote : ¬ (c = '\x22' ∨ c = '\x27') := not_or.mpr ⟨ne rfl, ne rfl⟩
      have bracket : c ≠ '[' := ne rfl
      have brace : c ≠ '\x7b' := ne rfl
      have trueWord : c ≠ 't' := ne rfl
      have falseWord : c ≠ 'f' := ne rfl
      rw [List.cons_append, value.eq_def]
      simp only [quote, bracket, brace, trueWord, falseWord, if_false, read, Option.map_some]

/-- Characters that stand in a string as they are. -/
def isVerbatim (c : Char) : Bool := isPlain c && c != '\x22' && c != '\x5c'

theorem basicBody_of_verbatim {text : List Char} (verbatim : ∀ c ∈ text, isVerbatim c = true)
    {rounds : Nat} (enough : text.length < rounds) :
    basicBody rounds (text ++ '\x22' :: rest) = some (text, rest) := by
  induction text generalizing rounds with
  | nil =>
    cases rounds with
    | zero => simp at enough
    | succ rounds => rfl
  | cons c text ih =>
    cases rounds with
    | zero => simp at enough
    | succ rounds =>
      have first := verbatim c List.mem_cons_self
      simp only [isVerbatim, Bool.and_eq_true, bne_iff_ne, ne_eq] at first
      have more := ih (fun c member => verbatim c (List.mem_cons_of_mem _ member))
        (Nat.lt_of_succ_lt_succ enough)
      rw [List.cons_append, basicBody, if_neg first.1.2, if_neg first.2, if_pos first.1.1, more]
      rfl

theorem shows_string {text : List Char} (verbatim : ∀ c ∈ text, isVerbatim c = true) :
    Shows ('\x22' :: text ++ ['\x22']) (.scalar (.string (String.ofList text))) := by
  refine ⟨⟨'\x22', text ++ ['\x22'], rfl, rfl⟩, fun depth rest => ?_⟩
  have short : shortString ('\x22' :: (text ++ '\x22' :: '\n' :: rest)) =
      some (text, '\n' :: rest) := by
    apply basicBody_of_verbatim verbatim
    simp
  -- Three quotes would open a string over several lines.
  have single : afterWord? ['\x22', '\x22', '\x22'] ('\x22' :: (text ++ '\x22' :: '\n' :: rest)) =
      none := by
    cases text with
    | nil => rfl
    | cons c text =>
      have first := verbatim c List.mem_cons_self
      simp only [isVerbatim, Bool.and_eq_true, bne_iff_ne, ne_eq] at first
      rw [afterWord?, if_pos rfl, List.cons_append, afterWord?, if_neg (Ne.symm first.1.2)]
  have other : afterWord? ['\x27', '\x27', '\x27'] ('\x22' :: (text ++ '\x22' :: '\n' :: rest)) =
      none := rfl
  have read : anyString ('\x22' :: (text ++ '\x22' :: '\n' :: rest)) =
      some (text, '\n' :: rest) := by
    rw [anyString, single, other]
    exact short
  rw [List.cons_append, List.cons_append, List.append_assoc, List.singleton_append, value.eq_def]
  simp only [true_or, if_true, read, Option.map_some]

/-- `text` is a line that gives `key` the value `node`. -/
structure Gives (text key : String) (node : Node) : Prop where
  first : ∃ c behind, text.toList = c :: behind ∧ c ≠ '\ufeff'
  read (rest : List Char) : line (text.toList ++ rest) = some (.entry ⟨[], key⟩ node, rest)

theorem keyPart_of_bare {c : Char} {key : List Char} (bare : ∀ d ∈ c :: key, isBareKey d = true) :
    keyPart (c :: key ++ ' ' :: rest) = some (String.ofList (c :: key), ' ' :: rest) := by
  have first := bare c List.mem_cons_self
  have unquoted : ¬ (c = '\x22' ∨ c = '\x27') := by
    rintro (rfl | rfl)
    · cases first
    · cases first
  have taken : (c :: key ++ ' ' :: rest).takeWhile isBareKey = c :: key := by
    rw [List.takeWhile_append_of_pos bare, List.takeWhile_cons_of_neg (by decide), List.append_nil]
  have left : (c :: key ++ ' ' :: rest).dropWhile isBareKey = ' ' :: rest := by
    rw [List.dropWhile_append_of_pos bare, List.dropWhile_cons_of_neg (by decide)]
  rw [List.cons_append, keyPart, if_neg unquoted, if_pos first, ← List.cons_append, taken, left]

theorem ne_of_bare {c other : Char} (bare : isBareKey c = true)
    (strange : isBareKey other = false) : c ≠ other := by
  rintro rfl
  rw [bare] at strange
  cases strange

theorem skipBlanks_cons {c : Char} (solid : isBlank c = false) :
    skipBlanks (c :: rest) = c :: rest := List.dropWhile_cons_of_neg (by simp [solid])

/-- An entry is read up to the end of its line. -/
theorem keyValue_of_shows {c : Char} {key text : List Char} {node : Node}
    (bare : ∀ d ∈ c :: key, isBareKey d = true) (shows : Shows text node) (depth : Nat) :
    keyValue (value depth) (c :: key ++ (' ' :: '=' :: ' ' :: (text ++ '\n' :: rest))) =
      some ((⟨[], String.ofList (c :: key)⟩, node), '\n' :: rest) := by
  have first := bare c List.mem_cons_self
  have solid : isBlank c = false := by
    simp only [isBlank, Bool.or_eq_false_iff, beq_eq_false_iff_ne]
    exact ⟨ne_of_bare first rfl, ne_of_bare first rfl⟩
  obtain ⟨d, behind, rfl, solidValue⟩ := shows.first
  have read := shows.read depth rest
  have blanks : skipBlanks (' ' :: (d :: behind ++ '\n' :: rest)) = d :: behind ++ '\n' :: rest :=
    skipBlanks_cons solidValue
  have named : Toml.key (c :: key ++ (' ' :: '=' :: ' ' :: (d :: behind ++ '\n' :: rest))) =
      some (⟨[], String.ofList (c :: key)⟩, '=' :: ' ' :: (d :: behind ++ '\n' :: rest)) := by
    rw [Toml.key, maxKeyParts, keyOfParts, List.cons_append, skipBlanks_cons solid,
      ← List.cons_append, keyPart_of_bare bare]
    rfl
  rw [keyValue, named]
  simp only [Option.bind_eq_bind, Option.bind_some, afterWord?, if_true, blanks, read]

theorem lineContent_of_bare {c : Char} {text : List Char} (bare : isBareKey c = true) :
    lineContent (c :: text) =
      (keyValue (value maxNesting) (c :: text)).map fun read =>
        (.entry read.1.1 read.1.2, read.2) := by
  have ordinary : ¬ (c = '#' ∨ c = '\n' ∨ c = '\r') := by
    rintro (rfl | rfl | rfl)
    · cases bare
    · cases bare
    · cases bare
  rw [lineContent.eq_def]
  split
  · next same => cases same
  · next same => exact absurd (List.cons.inj same).1 (ne_of_bare bare rfl)
  · next same => exact absurd (List.cons.inj same).1 (ne_of_bare bare rfl)
  · next same =>
    obtain ⟨rfl, rfl⟩ := List.cons.inj same
    rw [if_neg ordinary]
    cases keyValue (value maxNesting) (c :: text) with
    | none => rfl
    | some read => rfl

theorem gives_of_shows {key text : String} {node : Node} (named : key ≠ "")
    (bare : ∀ c ∈ key.toList, isBareKey c = true) (shows : Shows text.toList node) :
    Gives (key ++ " = " ++ text ++ "\n") key node := by
  obtain ⟨c, behind, spelt⟩ : ∃ c behind, key.toList = c :: behind := by
    cases spelt : key.toList with
    | nil => exact absurd (String.toList_eq_nil_iff.mp spelt) named
    | cons c behind => exact ⟨c, behind, rfl⟩
  have back : String.ofList (c :: behind) = key := by rw [← spelt, String.ofList_toList]
  rw [spelt] at bare
  have first := bare c List.mem_cons_self
  have solid : isBlank c = false := by
    simp only [isBlank, Bool.or_eq_false_iff, beq_eq_false_iff_ne]
    exact ⟨ne_of_bare first rfl, ne_of_bare first rfl⟩
  have whole (rest : List Char) : (key ++ " = " ++ text ++ "\n").toList ++ rest =
      c :: behind ++ (' ' :: '=' :: ' ' :: (text.toList ++ '\n' :: rest)) := by
    simp [String.toList_append, spelt]
  constructor
  case first =>
    refine ⟨c, behind ++ (' ' :: '=' :: ' ' :: (text.toList ++ ['\n'])), ?_, ne_of_bare first rfl⟩
    have := whole []
    simpa using this
  case read =>
    intro rest
    rw [whole, line, List.cons_append, skipBlanks_cons solid, lineContent_of_bare first,
      ← List.cons_append, keyValue_of_shows bare shows, back]
    rfl

/-! ### Documents -/

structure FlatLine where
  text : String
  key : String
  node : Node

namespace FlatLine

def line (item : FlatLine) : Line := .entry ⟨[], item.key⟩ item.node

def entry (item : FlatLine) : String × Node := (item.key, item.node)

def Sound (item : FlatLine) : Prop := Gives item.text item.key item.node

end FlatLine

def flatText (items : List FlatLine) : String := String.join (items.map (·.text))

theorem flatText_cons (item : FlatLine) (items : List FlatLine) :
    flatText (item :: items) = item.text ++ flatText items := by
  rw [flatText, List.map_cons, String.join_cons, ← flatText]

theorem length_le_flatText {items : List FlatLine} (sound : ∀ item ∈ items, item.Sound) :
    items.length ≤ (flatText items).toList.length := by
  induction items with
  | nil => exact Nat.zero_le _
  | cons item items ih =>
    obtain ⟨c, behind, spelt, -⟩ := (sound item List.mem_cons_self).first
    have more := ih fun item member => sound item (List.mem_cons_of_mem _ member)
    rw [flatText_cons, String.toList_append, spelt, List.length_append, List.length_cons,
      List.length_cons]
    omega

theorem lines_of_flat {items : List FlatLine} (sound : ∀ item ∈ items, item.Sound) {rounds : Nat}
    (enough : items.length ≤ rounds) :
    lines rounds (flatText items).toList = some (items.map (·.line)) := by
  induction items generalizing rounds with
  | nil => simp [lines, flatText]
  | cons item items ih =>
    cases rounds with
    | zero => simp at enough
    | succ rounds =>
      have first := sound item List.mem_cons_self
      have more := ih (fun item member => sound item (List.mem_cons_of_mem _ member))
        (Nat.le_of_succ_le_succ enough)
      obtain ⟨c, behind, spelt, -⟩ := first.first
      have read := first.read (flatText items).toList
      rw [spelt, List.cons_append] at read
      rw [flatText_cons, String.toList_append, spelt, List.cons_append, lines]
      · simp only [read, Option.bind_eq_bind, Option.bind_some, more]
        rfl
      · simp

theorem addEntry_of_fresh {entries : Entries} {key : String} {node : Node}
    (fresh : entries.find? key = none) :
    addEntry entries ⟨[], key⟩ node = some (entries.add key node) := by
  simp [addEntry, changeTable, fresh]

theorem find?_eq_none {entries : Entries} {key : String} :
    entries.find? key = none ↔ key ∉ entries.map Prod.fst := by
  simp only [Entries.find?, Option.map_eq_none_iff, List.find?_eq_none, beq_iff_eq, List.mem_map,
    not_exists, not_and]

theorem addLines_of_flat {items : List FlatLine} {entries : Entries}
    (distinct : (entries.map Prod.fst ++ items.map (·.key)).Nodup) :
    addLines entries (items.map (·.line)) = some (entries ++ items.map (·.entry)) := by
  induction items generalizing entries with
  | nil => simp [addLines]
  | cons item items ih =>
    have fresh : entries.find? item.key = none := by
      rw [find?_eq_none]
      intro member
      exact (List.nodup_append.mp distinct).2.2 _ member _ List.mem_cons_self rfl
    have more : addLines (entries.add item.key item.node) (items.map (·.line)) =
        some (entries.add item.key item.node ++ items.map (·.entry)) := by
      apply ih
      simpa [Entries.add] using distinct
    have step : addLine entries item.line = some (entries.add item.key item.node) :=
      addEntry_of_fresh fresh
    rw [List.map_cons, addLines, List.foldlM_cons, step]
    rw [Entries.add, List.append_assoc] at more
    exact more

theorem parse_of_headless {text : String} {content : List Line}
    (unmarked : ∀ behind, text.toList ≠ '\ufeff' :: behind)
    (read : lines text.toList.length text.toList = some content)
    (headless : ∀ line ∈ content, line.isHeader = false) : parse text = addLines [] content := by
  have own : ∀ line ∈ content, (!line.isHeader) = true := fun line member => by
    rw [headless line member]
    rfl
  simp only [parse, read, Option.bind_eq_bind, Option.bind_some,
    List.takeWhile_eq_self_iff.mpr own, List.dropWhile_eq_nil_iff.mpr own]
  cases addLines [] content with
  | none => rfl
  | some root => cases content <;> rfl

/-- A document of such lines, no two with one key, holds their entries in order. -/
theorem parse_of_flat {items : List FlatLine} (sound : ∀ item ∈ items, item.Sound)
    (distinct : (items.map (·.key)).Nodup) :
    parse (flatText items) = some (items.map (·.entry)) := by
  have unmarked : ∀ behind, (flatText items).toList ≠ '\ufeff' :: behind := by
    intro behind same
    cases items with
    | nil => cases same
    | cons item items =>
      obtain ⟨c, behind, spelt, first⟩ := (sound item List.mem_cons_self).first
      rw [flatText_cons, String.toList_append, spelt] at same
      exact first (List.cons.inj same).1
  have headless : ∀ line ∈ items.map (·.line), line.isHeader = false := by
    intro line member
    obtain ⟨item, -, rfl⟩ := List.mem_map.mp member
    rfl
  rw [parse_of_headless unmarked (lines_of_flat sound (length_le_flatText sound)) headless]
  exact addLines_of_flat (by simpa using distinct)

end HeciMailbox.Toml
