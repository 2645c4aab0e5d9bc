import HeciMailbox.Proofs.FlatDocuments
import HeciMailbox.Toml.Codec

/-! What is relied on of a codec, and that TOML does it.

Only flat tables matter, of plain words and of numbers. Such a table is written with one line for
each entry and read back from its lines; a number beyond 63 bits is refused. -/

set_option autoImplicit false

namespace HeciMailbox

namespace Codec

def IsWord (text : String) : Prop :=
  text ≠ "" ∧ text.toList.all (fun c => c.isAlphanum || c == '_') = true

def Value.Fits : Value → Prop
  | .name _ => True
  | .number value => value < 2 ^ 63

/-- The value can be spelt without quoting anything in it. -/
def Value.Plain : Value → Prop
  | .name text => IsWord text
  | .number _ => True

def Kind.Admits : Kind → Value → Prop
  | .choice names, .name text => text ∈ names
  | .number bound, .number value => value < bound
  | .choice _, .number _ | .number _, .name _ => False

/-- No key stands twice, and all that is spelt are words and numbers. -/
structure Flat (entries : List (String × Value)) : Prop where
  distinct : (entries.map Prod.fst).Nodup
  keys : ∀ entry ∈ entries, IsWord entry.1
  plain : ∀ entry ∈ entries, entry.2.Plain

/-- The text of a table, if `line` spells an entry. -/
def spelt (line : String → Value → String) (entries : List (String × Value)) : String :=
  String.join (entries.map fun entry => line entry.1 entry.2)

/-- What is relied on of a codec: an entry is one line; a flat table is written as the lines of its
entries, and one with too large a number is refused; and from such lines the fields of a record are
read back, as far as they are there. -/
structure Lawful [Codec] (line : String → Value → String) : Prop where
  single {key : String} {value : Value} : IsWord key → value.Plain → value.Fits →
    ∃ text, line key value = text ++ "\n" ∧ '\n' ∉ text.toList
  writes {fields : List (String × Option Value)} : Flat (entries fields) →
    (∀ entry ∈ entries fields, entry.2.Fits) →
    Codec.write fields = some (spelt line (entries fields))
  refuses {fields : List (String × Option Value)} : Flat (entries fields) →
    (∃ entry ∈ entries fields, ¬entry.2.Fits) → Codec.write fields = none
  reads {fields : List (String × Kind)} {given : List (String × Value)} :
    (fields.map Prod.fst).Nodup → Flat given → (∀ entry ∈ given, entry.2.Fits) →
    (∀ entry ∈ given, ∃ kind, (entry.1, kind) ∈ fields ∧ kind.Admits entry.2) →
    ∃ values, Codec.read fields (spelt line given) = .ok values ∧
      ∀ field ∈ fields, values.lookup field.1 = given.lookup field.1

end Codec

namespace Toml

open Codec (Flat IsWord Kind Value)

/-! ### Lines -/

def nodeOf : Value → Node
  | .name text => .scalar (.string text)
  | .number value => .scalar (.integer value)

def flatLine (entry : String × Value) : FlatLine where
  text := entryLine entry.1 entry.2
  key := entry.1
  node := nodeOf entry.2

theorem isBareKey_of_word {text : String} (word : IsWord text) :
    ∀ c ∈ text.toList, isBareKey c = true := by
  intro c member
  have usual := List.all_eq_true.mp word.2 c member
  simp [isBareKey, usual]

theorem isPlain_of_bare {c : Char} (bare : isBareKey c = true) : isPlain c = true := by
  simp only [isBareKey, Bool.or_eq_true, beq_iff_eq] at bare
  obtain (letter | rfl) | rfl := bare
  · replace letter : (decide (c.val ≥ 'A'.val ∧ c.val ≤ 'Z'.val) ||
        decide (c.val ≥ 'a'.val) && decide (c.val ≤ 'z'.val) ||
        decide (c.val ≥ '0'.val) && decide (c.val ≤ '9'.val)) = true := letter
    have code : (65 ≤ c.toNat ∧ c.toNat ≤ 90 ∨ 97 ≤ c.toNat ∧ c.toNat ≤ 122) ∨
        48 ≤ c.toNat ∧ c.toNat ≤ 57 := by
      simpa [UInt32.le_iff_toNat_le] using letter
    simp only [isPlain, Bool.or_eq_true, Bool.and_eq_true, decide_eq_true_eq, bne_iff_ne]
    omega
  · rfl
  · rfl

theorem isVerbatim_of_bare {c : Char} (bare : isBareKey c = true) : isVerbatim c = true := by
  simp only [isVerbatim, Bool.and_eq_true, bne_iff_ne]
  exact ⟨⟨isPlain_of_bare bare, ne_of_bare bare rfl⟩, ne_of_bare bare rfl⟩

theorem toList_spell_name (text : String) :
    (spell (.name text)).toList = '\x22' :: text.toList ++ ['\x22'] := by
  simp [spell]

theorem shows_spell {value : Value} (plain : value.Plain) (fits : value.Fits) :
    Shows (spell value).toList (nodeOf value) := by
  cases value with
  | name text =>
    have shows := shows_string fun c member => isVerbatim_of_bare (isBareKey_of_word plain c member)
    rwa [String.ofList_toList, ← toList_spell_name] at shows
  | number value =>
    have shows := shows_number fits
    rwa [← String.toList_ofList (l := Nat.toDigits 10 value)] at shows

theorem flatLine_sound {entry : String × Value} (word : IsWord entry.1) (plain : entry.2.Plain)
    (fits : entry.2.Fits) : (flatLine entry).Sound :=
  gives_of_shows word.1 (isBareKey_of_word word) (shows_spell plain fits)

theorem newline_not_mem_word {text : String} (word : IsWord text) : '\n' ∉ text.toList :=
  fun member => absurd (isBareKey_of_word word _ member) (by decide)

theorem newline_not_mem_spell {value : Value} (plain : value.Plain) :
    '\n' ∉ (spell value).toList := by
  cases value with
  | name text =>
    rw [toList_spell_name]
    simpa using newline_not_mem_word plain
  | number value =>
    intro member
    have digit : '\n'.isDigit = true :=
      Nat.isDigit_of_mem_toDigits (by decide) (by decide)
        (show '\n' ∈ Nat.toDigits 10 value by simpa [spell] using member)
    exact absurd digit (by decide)

theorem entryLine_single {key : String} {value : Value} (word : IsWord key)
    (plain : value.Plain) :
    ∃ text, entryLine key value = text ++ "\n" ∧ '\n' ∉ text.toList := by
  refine ⟨key ++ " = " ++ spell value, rfl, ?_⟩
  simp [newline_not_mem_word word, newline_not_mem_spell plain]

/-! ### Tables -/

theorem isExpressible_iff {value : Value} : isExpressible value = true ↔ value.Fits := by
  cases value with
  | name => exact iff_of_true rfl trivial
  | number value =>
    rw [isExpressible, decide_eq_true_eq]
    exact (Nat.lt_succ_iff (m := value) (n := maxInteger)).symm

theorem writeRecord_of_fits {fields : List (String × Option Value)}
    (fits : ∀ entry ∈ Codec.entries fields, entry.2.Fits) :
    writeRecord fields = some (Codec.spelt entryLine (Codec.entries fields)) := by
  rw [writeRecord]
  exact if_pos (List.all_eq_true.mpr fun entry member => isExpressible_iff.mpr (fits entry member))

theorem writeRecord_of_large {fields : List (String × Option Value)}
    (large : ∃ entry ∈ Codec.entries fields, ¬entry.2.Fits) : writeRecord fields = none := by
  obtain ⟨entry, member, large⟩ := large
  rw [writeRecord]
  exact if_neg fun fits => large (isExpressible_iff.mp (List.all_eq_true.mp fits entry member))

theorem parse_spelt {given : List (String × Value)} (flat : Flat given)
    (fits : ∀ entry ∈ given, entry.2.Fits) :
    parse (Codec.spelt entryLine given) =
      some (given.map fun entry => (entry.1, nodeOf entry.2)) := by
  have sound : ∀ item ∈ given.map flatLine, item.Sound := by
    intro item member
    obtain ⟨entry, inside, rfl⟩ := List.mem_map.mp member
    exact flatLine_sound (flat.keys entry inside) (flat.plain entry inside) (fits entry inside)
  have distinct : ((given.map flatLine).map (·.key)).Nodup := by
    rw [List.map_map]
    exact flat.distinct
  have parsed := parse_of_flat sound distinct
  rw [flatText, List.map_map, List.map_map] at parsed
  exact parsed

theorem find?_nodes (given : List (String × Value)) (key : String) :
    Entries.find? (given.map fun entry => (entry.1, nodeOf entry.2)) key =
      (given.lookup key).map nodeOf := by
  induction given with
  | nil => rfl
  | cons entry rest ih =>
    obtain ⟨name, value⟩ := entry
    rw [Entries.find?] at ih ⊢
    by_cases same : name = key
    · simp [same]
    · have other : (key == name) = false := beq_false_of_ne (Ne.symm same)
      rw [List.map_cons, List.find?_cons_of_neg (by simpa using same), ih,
        List.lookup_cons, other]

theorem valueOf?_nodeOf {kind : Kind} {value : Value} (admits : kind.Admits value) :
    valueOf? kind (nodeOf value) = some value := by
  cases kind with
  | choice names =>
    cases value with
    | name text =>
      have listed : text ∈ names := admits
      simp [valueOf?, nodeOf, nameOf?, listed]
    | number => exact admits.elim
  | number bound =>
    cases value with
    | name => exact admits.elim
    | number value =>
      have small : value < bound := admits
      simp [valueOf?, nodeOf, small]

/-- Each field finds what the table has for it. -/
theorem readFields_of_given {given : List (String × Value)} {fields : List (String × Kind)}
    (distinct : (fields.map Prod.fst).Nodup)
    (admitted : ∀ field ∈ fields, ∀ value, given.lookup field.1 = some value →
      field.2.Admits value) :
    ∃ values, readFields (given.map fun entry => (entry.1, nodeOf entry.2)) fields = .ok values ∧
      (∀ key ∉ fields.map Prod.fst, values.lookup key = none) ∧
      ∀ field ∈ fields, values.lookup field.1 = given.lookup field.1 := by
  -- A key that is no field of the rest stays free for the field before them.
  induction fields with
  | nil => exact ⟨[], rfl, by simp, by simp⟩
  | cons field rest ih =>
    obtain ⟨key, kind⟩ := field
    rw [List.map_cons, List.nodup_cons] at distinct
    obtain ⟨here, others⟩ := List.forall_mem_cons.mp admitted
    obtain ⟨values, read, free, found⟩ := ih distinct.2 others
    have apart : ∀ field ∈ rest, (field.1 == key) = false := by
      intro field member
      refine beq_false_of_ne ?_
      rintro rfl
      exact distinct.1 (List.mem_map.mpr ⟨field, member, rfl⟩)
    cases held : given.lookup key with
    | none =>
      refine ⟨values, ?_, fun other strange => ?_, List.forall_mem_cons.mpr ⟨?_, found⟩⟩
      · rw [readFields, find?_nodes, held]
        exact read
      · exact free other fun member => strange (List.mem_cons_of_mem _ member)
      · exact (free key distinct.1).trans held.symm
    | some value =>
      refine ⟨(key, value) :: values, ?_, fun other strange => ?_,
        List.forall_mem_cons.mpr ⟨?_, fun field member => ?_⟩⟩
      · rw [readFields, find?_nodes, held]
        simp only [Option.map_some, valueOf?_nodeOf (here value held), read]
        rfl
      · obtain ⟨ne, strange⟩ := not_or.mp (mt List.mem_cons.mpr strange)
        rw [List.lookup_cons, beq_false_of_ne ne]
        exact free other strange
      · simp [held]
      · rw [List.lookup_cons, apart field member]
        exact found field member

theorem readRecord_spelt {fields : List (String × Kind)} {given : List (String × Value)}
    (distinct : (fields.map Prod.fst).Nodup) (flat : Flat given)
    (fits : ∀ entry ∈ given, entry.2.Fits)
    (asked : ∀ entry ∈ given, ∃ kind, (entry.1, kind) ∈ fields ∧ kind.Admits entry.2) :
    ∃ values, readRecord fields (Codec.spelt entryLine given) = .ok values ∧
      ∀ field ∈ fields, values.lookup field.1 = given.lookup field.1 := by
  have admitted : ∀ field ∈ fields, ∀ value, given.lookup field.1 = some value →
      field.2.Admits value := by
    intro field member value held
    obtain ⟨_, _, rfl, -⟩ := List.lookup_eq_some_iff.mp held
    obtain ⟨kind, listed, admits⟩ := asked (field.1, value) (by simp)
    have same := List.inj_on_of_nodup_map distinct member listed rfl
    rwa [same]
  obtain ⟨values, read, -, found⟩ := readFields_of_given distinct admitted
  refine ⟨values, ?_, found⟩
  rw [readRecord, parse_spelt flat fits]
  exact read

theorem lawful : Codec.Lawful entryLine where
  single word plain _ := entryLine_single word plain
  writes _ fits := writeRecord_of_fits fits
  refuses _ large := writeRecord_of_large large
  reads := readRecord_spelt

end Toml

end HeciMailbox
