import HeciMailbox.Proofs.Digits
import HeciMailbox.Text.HexWord
import Mathlib.Data.List.Induction

/-! Which texts are taken for a 32-bit word.

A word is written with at most one mark and then digits. The reader takes more than that: marks may
be repeated, first those in small letters and then those in capitals, and a plus sign may stand
between the marks and the digits. -/

set_option autoImplicit false

namespace HeciMailbox.Text.HexWord

/-- `text` writes `word` in digits, with one mark in front or with none. -/
def Written (text : List Char) (word : UInt32) : Prop :=
  ∃ mark digits, (mark = [] ∨ mark = ['0', 'x'] ∨ mark = ['0', 'X']) ∧
    text = mark ++ digits ∧ Spells 16 digits word.toNat

def marks (letter : Char) (count : Nat) : List Char :=
  (List.replicate count ['0', letter]).flatten

/-- `text` is what the reader takes for `word`. -/
def Accepted (text : List Char) (word : UInt32) : Prop :=
  ∃ small capital sign digits, (sign = [] ∨ sign = ['+']) ∧
    text = marks 'x' small ++ (marks 'X' capital ++ (sign ++ digits)) ∧
    Spells 16 digits word.toNat

/-! ### Digits and a sign -/

theorem digits_append (start : Nat) (front back : List Char) :
    digits start (front ++ back) = digits start front >>= fun value => digits value back := by
  induction front generalizing start with
  | nil => rfl
  | cons c front ih =>
    rw [List.cons_append, digits, digits]
    split
    · rfl
    · split
      · exact ih _
      · rfl

theorem digits_singleton {start value : Nat} {c : Char} :
    digits start [c] = .ok value ↔
      ∃ d, hexDigit? c = some d ∧ start * 16 + d = value ∧ value < UInt32.size := by
  cases digit : hexDigit? c with
  | none => simp [digits, digit]
  | some d =>
    simp only [digits, digit, Option.some.injEq, exists_eq_left']
    split
    · next fits =>
      simp only [Except.ok.injEq]
      constructor
      · rintro rfl
        exact ⟨rfl, fits⟩
      · exact And.left
    · next large =>
      simp only [reduceCtorEq, false_iff]
      rintro ⟨rfl, fits⟩
      exact large fits

theorem digits_of_spells {text : List Char} {value : Nat} (spells : Spells 16 text value)
    (fits : value < UInt32.size) : digits 0 text = .ok value := by
  induction spells with
  | digit digit small => exact digits_singleton.mpr ⟨_, digit, by omega, fits⟩
  | more front digit small ih =>
    rw [digits_append, ih (by omega)]
    exact digits_singleton.mpr ⟨_, digit, rfl, fits⟩

theorem spells_of_digits {text : List Char} {value : Nat} (nonempty : text ≠ [])
    (read : digits 0 text = .ok value) : Spells 16 text value ∧ value < UInt32.size := by
  induction text using List.reverseRecOn generalizing value with
  | nil => exact absurd rfl nonempty
  | append_singleton front c ih =>
    rw [digits_append] at read
    cases before : digits 0 front with
    | error fault => rw [before] at read; cases read
    | ok n =>
      rw [before] at read
      obtain ⟨d, digit, rfl, fits⟩ := digits_singleton.mp read
      have small := (hexDigit?_eq_some.mp digit).1
      refine ⟨?_, fits⟩
      cases front with
      | nil =>
        cases before
        simpa using Spells.digit digit small
      | cons first rest => exact (ih (by simp) before).1.more digit small

theorem head_ne_plus {text : List Char} {value : Nat} (spells : Spells 16 text value) :
    text.head? ≠ some '+' := by
  intro plus
  obtain ⟨d, -, digit⟩ := spells.digit_of_mem (List.mem_of_head? plus)
  cases digit

theorem number_eq_ok {text : List Char} {value : Nat} :
    number text = .ok value ↔
      ∃ sign digits, (sign = [] ∨ sign = ['+']) ∧ text = sign ++ digits ∧
        Spells 16 digits value ∧ value < UInt32.size := by
  constructor
  · intro read
    unfold number at read
    split at read
    · cases read
    · cases read
    · next rest bare =>
      obtain ⟨spells, fits⟩ := spells_of_digits (fun empty => bare (by rw [empty])) read
      exact ⟨['+'], rest, .inr rfl, rfl, spells, fits⟩
    · next nonempty _ _ =>
      obtain ⟨spells, fits⟩ := spells_of_digits nonempty read
      exact ⟨[], text, .inl rfl, rfl, spells, fits⟩
  · rintro ⟨sign, text, known, rfl, spells, fits⟩
    have read := digits_of_spells spells fits
    cases text with
    | nil => exact absurd rfl spells.ne_nil
    | cons c rest =>
      rcases known with rfl | rfl
      · have digit : c ≠ '+' := fun plus => head_ne_plus spells (by rw [plus]; rfl)
        simpa [number, digit] using read
      · simpa [number] using read

/-! ### Marks -/

theorem marks_succ (letter : Char) (count : Nat) :
    marks letter (count + 1) = '0' :: letter :: marks letter count := rfl

theorem eq_marks_append_dropMarks (letter : Char) (text : List Char) :
    ∃ count, text = marks letter count ++ dropMarks letter text := by
  induction text using dropMarks.induct letter with
  | case1 rest ih =>
    obtain ⟨count, same⟩ := ih
    refine ⟨count + 1, ?_⟩
    rw [dropMarks, if_pos rfl, marks_succ, List.cons_append, List.cons_append, ← same]
  | case2 c rest other =>
    refine ⟨0, ?_⟩
    rw [dropMarks, if_neg other]
    rfl
  | case3 text unmarked =>
    refine ⟨0, ?_⟩
    rw [dropMarks]
    · rfl
    · exact unmarked

theorem dropMarks_marks (letter : Char) (count : Nat) {rest : List Char}
    (unmarked : ¬ ['0', letter] <+: rest) :
    dropMarks letter (marks letter count ++ rest) = rest := by
  induction count with
  | zero =>
    show dropMarks letter rest = rest
    rw [dropMarks.eq_def]
    split
    · next c behind =>
      rw [if_neg]
      rintro rfl
      exact unmarked ⟨behind, rfl⟩
    · rfl
  | succ count ih =>
    rw [marks_succ, List.cons_append, List.cons_append, dropMarks, if_pos rfl]
    exact ih

theorem not_mark_of_spells {letter : Char} (strange : hexDigit? letter = none) {digits : List Char}
    {value : Nat} (spells : Spells 16 digits value) : ¬ ['0', letter] <+: digits := by
  rintro ⟨behind, rfl⟩
  obtain ⟨d, -, digit⟩ := spells.digit_of_mem (c := letter) (by simp)
  rw [strange] at digit
  cases digit

theorem not_mark_of_signed {letter : Char} (strange : hexDigit? letter = none)
    {sign digits : List Char} (known : sign = [] ∨ sign = ['+']) {value : Nat}
    (spells : Spells 16 digits value) : ¬ ['0', letter] <+: sign ++ digits := by
  rcases known with rfl | rfl
  · exact not_mark_of_spells strange spells
  · rintro ⟨behind, same⟩
    cases same

/-! ### Whole texts -/

theorem read_eq_ok {text : String} {word : UInt32} :
    read text = .ok word ↔ number (dropMarks 'X' (dropMarks 'x' text.toList)) = .ok word.toNat := by
  rw [read]
  cases taken : number (dropMarks 'X' (dropMarks 'x' text.toList)) with
  | error fault => simp [Except.map]
  | ok value =>
    obtain ⟨-, -, -, -, -, fits⟩ := number_eq_ok.mp taken
    simp only [Except.map, Except.ok.injEq]
    constructor
    · rintro rfl
      exact (UInt32.toNat_ofNat_of_lt' fits).symm
    · rintro rfl
      exact UInt32.ofNat_toNat

theorem read_eq_ok_iff {text : String} {word : UInt32} :
    read text = .ok word ↔ Accepted text.toList word := by
  rw [read_eq_ok, number_eq_ok]
  constructor
  · rintro ⟨sign, digits, known, same, spells, -⟩
    obtain ⟨small, first⟩ := eq_marks_append_dropMarks 'x' text.toList
    obtain ⟨capital, second⟩ := eq_marks_append_dropMarks 'X' (dropMarks 'x' text.toList)
    rw [same] at second
    rw [second] at first
    exact ⟨small, capital, sign, digits, known, first, spells⟩
  · rintro ⟨small, capital, sign, digits, known, same, spells⟩
    refine ⟨sign, digits, known, ?_, spells, word.toNat_lt⟩
    have behind : ¬ ['0', 'x'] <+: marks 'X' capital ++ (sign ++ digits) := by
      cases capital with
      | zero =>
        show ¬ ['0', 'x'] <+: sign ++ digits
        exact not_mark_of_signed rfl known spells
      | succ capital =>
        rintro ⟨rest, same⟩
        cases same
    rw [same, dropMarks_marks 'x' small behind,
      dropMarks_marks 'X' capital (not_mark_of_signed rfl known spells)]

theorem Written.accepted {text : List Char} {word : UInt32} (written : Written text word) :
    Accepted text word := by
  obtain ⟨mark, digits, known, rfl, spells⟩ := written
  rcases known with rfl | rfl | rfl
  · exact ⟨0, 0, [], digits, .inl rfl, rfl, spells⟩
  · exact ⟨1, 0, [], digits, .inl rfl, rfl, spells⟩
  · exact ⟨0, 1, [], digits, .inl rfl, rfl, spells⟩

def isMarkLetter (c : Char) : Bool := c == 'x' || c == 'X'

theorem countP_marks {letter : Char} (known : isMarkLetter letter = true) (count : Nat) :
    (marks letter count).countP isMarkLetter = count := by
  induction count with
  | zero => rfl
  | succ count ih =>
    rw [marks_succ, List.countP_cons_of_neg (by decide), List.countP_cons_of_pos known, ih]

theorem countP_digits {digits : List Char} {value : Nat} (spells : Spells 16 digits value) :
    digits.countP isMarkLetter = 0 := by
  rw [List.countP_eq_zero]
  intro c member letter
  obtain ⟨d, -, digit⟩ := spells.digit_of_mem member
  simp only [isMarkLetter, Bool.or_eq_true, beq_iff_eq] at letter
  rcases letter with rfl | rfl
  · cases digit
  · cases digit

theorem plus_not_mem_digits {digits : List Char} {value : Nat} (spells : Spells 16 digits value) :
    '+' ∉ digits := by
  intro member
  obtain ⟨d, -, digit⟩ := spells.digit_of_mem member
  cases digit

/-- What is accepted is written as a word should be, unless it has a sign or a second mark. -/
theorem written_iff {text : List Char} {word : UInt32} :
    Written text word ↔ Accepted text word ∧ '+' ∉ text ∧ text.countP isMarkLetter ≤ 1 := by
  constructor
  · intro written
    refine ⟨written.accepted, ?_⟩
    obtain ⟨mark, digits, known, rfl, spells⟩ := written
    have unsigned := plus_not_mem_digits spells
    rw [List.countP_append, countP_digits spells]
    rcases known with rfl | rfl | rfl
    · exact ⟨unsigned, by decide⟩
    · exact ⟨by simpa using unsigned, by decide⟩
    · exact ⟨by simpa using unsigned, by decide⟩
  · rintro ⟨⟨small, capital, sign, digits, known, rfl, spells⟩, unsigned, once⟩
    have bare : sign = [] := by
      rcases known with rfl | rfl
      · rfl
      · simp at unsigned
    subst bare
    have first : (marks 'x' small).countP isMarkLetter = small := countP_marks rfl small
    have second : (marks 'X' capital).countP isMarkLetter = capital := countP_marks rfl capital
    rw [List.countP_append, List.countP_append, first, second] at once
    have few : small = 0 ∧ capital = 0 ∨ small = 1 ∧ capital = 0 ∨ small = 0 ∧ capital = 1 := by
      omega
    rcases few with ⟨rfl, rfl⟩ | ⟨rfl, rfl⟩ | ⟨rfl, rfl⟩
    · exact ⟨[], digits, .inl rfl, rfl, spells⟩
    · exact ⟨['0', 'x'], digits, .inr (.inl rfl), rfl, spells⟩
    · exact ⟨['0', 'X'], digits, .inr (.inr rfl), rfl, spells⟩

theorem spells_hex (width n : Nat) : Spells 16 (hex width n).toList n := by
  rw [hex, String.toList_ofList]
  exact (Spells.toDigits (by decide) (by decide) n).toUpper.zeros _

/-- The reader takes every way of writing a word. What else it takes has a sign or a second mark;
everything but that is refused. -/
theorem words_are_read_in_hex (text : String) :
    (∀ word, read text = .ok word ↔ Accepted text.toList word) ∧
    (∀ word, Written text.toList word ↔
      read text = .ok word ∧ '+' ∉ text.toList ∧ text.toList.countP isMarkLetter ≤ 1) ∧
    ((∃ fault, read text = .error fault) ↔ ∀ word, ¬ Accepted text.toList word) ∧
    ∀ word width, read (hex width word.toNat) = .ok word ∧
      read (hexWithMark width word.toNat) = .ok word := by
  have taken {text : String} {word : UInt32} (written : Written text.toList word) :
      read text = .ok word := read_eq_ok_iff.mpr written.accepted
  refine ⟨fun word => read_eq_ok_iff, ?written, ?refused, fun word width => ⟨?bare, ?marked⟩⟩
  case written =>
    intro word
    rw [read_eq_ok_iff]
    exact written_iff
  case refused =>
    simp only [← read_eq_ok_iff]
    cases read text with
    | error fault => simp
    | ok word => simp
  case bare =>
    exact taken ⟨[], _, .inl rfl, (List.nil_append _).symm, spells_hex width word.toNat⟩
  case marked =>
    apply taken
    refine ⟨['0', 'x'], (hex width word.toNat).toList, .inr (.inl rfl), ?_, spells_hex _ _⟩
    rw [hexWithMark, String.toList_append]
    rfl

/-- A second mark and a plus sign are no part of a word, and are taken for one. -/
theorem second_mark_is_taken :
    read "0x0xFF" = .ok 0xFF ∧ ¬ Written "0x0xFF".toList 0xFF ∧
    read "+FF" = .ok 0xFF ∧ ¬ Written "+FF".toList 0xFF := by
  have spelt : Spells 16 ['F', 'F'] 255 :=
    (Spells.digit (d := 15) rfl (by decide)).more (d := 15) rfl (by decide)
  refine ⟨?_, fun written => ?_, ?_, fun written => ?_⟩
  · exact read_eq_ok_iff.mpr ⟨2, 0, [], ['F', 'F'], .inl rfl, by decide, spelt⟩
  · obtain ⟨-, -, once⟩ := written_iff.mp written
    exact absurd once (by decide)
  · exact read_eq_ok_iff.mpr ⟨0, 0, ['+'], ['F', 'F'], .inr rfl, by decide, spelt⟩
  · obtain ⟨-, unsigned, -⟩ := written_iff.mp written
    exact absurd unsigned (by decide)

end HeciMailbox.Text.HexWord
