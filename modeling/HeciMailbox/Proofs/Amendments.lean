import HeciMailbox.Proofs.Capabilities
import Mathlib.Algebra.Group.Nat.Defs

/-! The two changes that bring a function into use, and where its registers are.

Each change rewrites half a word, and only where that half is not yet as it should be. Neither can
make an entry of a capability list of what was none, or lead the list elsewhere. -/

set_option autoImplicit false

namespace HeciMailbox.Pci

/-! ### Words in memory -/

namespace Memory

variable {memory : Memory} {address : Address} {offset : UInt16} {word : UInt32}
  {change : UInt32 → UInt32}

theorem read_of_word? (there : memory.word? address offset = some word)
    (whole : aligned offset = offset) : ConfigSpace.read memory address offset = word := by
  simp [ConfigSpace.read, whole, there]

theorem write_of_word? (there : memory.word? address offset = some word)
    (whole : aligned offset = offset) (value : UInt32) :
    ConfigSpace.write memory address offset value = memory.put address offset value := by
  simp [ConfigSpace.write, whole, there]

def amend (memory : Memory) (address : Address) (offset : UInt16) (change : UInt32 → UInt32) :
    Memory :=
  match memory.word? address offset with
  | some word => memory.put address offset (change word)
  | none => memory

def amendment (memory : Memory) (address : Address) (offset : UInt16)
    (change : UInt32 → UInt32) : List (Address × UInt16 × UInt32) :=
  match memory.word? address offset with
  | some word => if change word = word then [] else [(address, offset, change word)]
  | none => []

theorem word?_amend (memory : Memory) (address : Address) (offset : UInt16)
    (change : UInt32 → UInt32) (other : Address) (place : UInt16) :
    (memory.amend address offset change).word? other place =
      if other = address ∧ place = offset then (memory.word? other place).map change
      else memory.word? other place := by
  unfold amend
  split
  · next word there =>
    by_cases here : other = address ∧ place = offset
    · obtain ⟨rfl, rfl⟩ := here
      simp [put, there]
    · simp only [put, if_neg here]
  · next absent =>
    by_cases here : other = address ∧ place = offset
    · obtain ⟨rfl, rfl⟩ := here
      simp [absent]
    · rw [if_neg here]

theorem amend_of_same
    (same : (memory.word? address offset).map change = memory.word? address offset) :
    memory.amend address offset change = memory ∧ memory.amendment address offset change = [] := by
  constructor
  · have words : (memory.amend address offset change).word? = memory.word? := by
      funext other place
      rw [word?_amend]
      split
      · next here => rw [here.1, here.2, same]
      · rfl
    cases memory
    exact congrArg Memory.mk words
  · unfold amendment
    split
    · next word there =>
      rw [there] at same
      rw [if_pos (Option.some.inj same)]
    · rfl

end Memory

/-! ### The two changes -/

/-- In D0: the two bits of the power state are zero. -/
def powered (word : UInt32) : UInt32 := word &&& (0xFFFFFFFC : UInt32)

/-- With memory decoding and bus mastering on. The status half of the word stays as it is. -/
def enabled (word : UInt32) : UInt32 := word ||| (0x6 : UInt32)

theorem powered_powered (word : UInt32) : powered (powered word) = powered word := by
  rw [powered, powered, UInt32.and_assoc, UInt32.and_self]

theorem enabled_enabled (word : UInt32) : enabled (enabled word) = enabled word := by
  rw [enabled, enabled, UInt32.or_assoc, UInt32.or_self]

/-- Neither change touches what an entry of the list has behind its identifier. -/
theorem powered_behind (word : UInt32) : (powered word >>> 8).toUInt8 = (word >>> 8).toUInt8 := by
  rw [powered, UInt32.shiftRight_and, UInt32.toUInt8_and]
  exact UInt8.and_neg_one

theorem enabled_behind (word : UInt32) : (enabled word >>> 8).toUInt8 = (word >>> 8).toUInt8 := by
  rw [enabled, UInt32.shiftRight_or]
  exact congrArg _ UInt32.or_zero

theorem enabled_status (word : UInt32) :
    (enabled word >>> 16).toUInt16 = (word >>> 16).toUInt16 := by
  rw [enabled, UInt32.shiftRight_or]
  exact congrArg _ UInt32.or_zero

theorem powered_unlike (word : UInt32) : (powered word).toUInt8 ≠ powerCapability := by
  have low : ∀ byte : UInt8, byte &&& (0xFC : UInt8) ≠ powerCapability :=
    forall_byte (by decide +kernel)
  rw [powered, UInt32.toUInt8_and]
  exact low word.toUInt8

theorem enabled_unlike (word : UInt32) : (enabled word).toUInt8 ≠ powerCapability := by
  have low : ∀ byte : UInt8, byte ||| (6 : UInt8) ≠ powerCapability :=
    forall_byte (by decide +kernel)
  rw [enabled, UInt32.toUInt8_or]
  exact low word.toUInt8

namespace Op

variable {memory : Memory} {address : Address} {word : UInt32}

theorem write16_does {offset value : UInt16} {change : UInt32 → UInt32}
    (there : memory.word? address offset = some word) (whole : aligned offset = offset)
    (changed : withHalf word offset value = change word) (moved : change word ≠ word) :
    (write16 address offset value).Does memory () (memory.amendment address offset change)
      (memory.amend address offset change) := by
  have written := Does.write16 memory address offset value
  simp only [whole, memory.read_of_word? there whole, memory.write_of_word? there whole,
    changed] at written
  simpa [Memory.amend, Memory.amendment, there, moved] using written

theorem unchanged_does {offset : UInt16} {change : UInt32 → UInt32}
    (there : memory.word? address offset = some word) (same : change word = word) :
    (pure () : Op Memory Unit).Does memory () (memory.amendment address offset change)
      (memory.amend address offset change) := by
  obtain ⟨kept, unwritten⟩ := Memory.amend_of_same (show
    (memory.word? address offset).map change = memory.word? address offset by simp [there, same])
  rw [kept, unwritten]
  exact .pure memory ()

theorem powerUp_does {capability : UInt16}
    (there : memory.word? address (capability + powerControlOffset) = some word)
    (whole : aligned (capability + powerControlOffset) = capability + powerControlOffset)
    (even : (capability + powerControlOffset) &&& (2 : UInt16) = 0) :
    (powerUp address capability).Does memory ()
      (memory.amendment address (capability + powerControlOffset) powered)
      (memory.amend address (capability + powerControlOffset) powered) := by
  have changed := withHalf_and even word (~~~powerStateMask)
  have moves : powered word = word ↔
      halfOf word (capability + powerControlOffset) &&& powerStateMask = 0 := by
    rw [and_eq_zero_iff, ← withHalf_eq_self even, changed]
    rfl
  unfold powerUp
  refine (Does.read16 memory address _).look ?_
  rw [whole, memory.read_of_word? there whole]
  by_cases still : halfOf word (capability + powerControlOffset) &&& powerStateMask = 0
  · rw [if_neg (not_not_intro still)]
    exact unchanged_does there (moves.mpr still)
  · rw [if_pos still]
    exact (Does.remark memory _).look (write16_does there whole changed (mt moves.mp still))

theorem enableDecoding_does (there : memory.word? address commandOffset = some word) :
    (enableDecoding address).Does memory () (memory.amendment address commandOffset enabled)
      (memory.amend address commandOffset enabled) := by
  have even : commandOffset &&& (2 : UInt16) = 0 := rfl
  have whole : aligned commandOffset = commandOffset := rfl
  have changed := withHalf_or even word wantedCommand
  have moves : enabled word = word ↔
      halfOf word commandOffset &&& wantedCommand = wantedCommand := by
    rw [and_eq_mask_iff, ← withHalf_eq_self even, changed]
    rfl
  unfold enableDecoding
  refine (Does.read16 memory address _).look ?_
  rw [whole, memory.read_of_word? there whole]
  by_cases still : halfOf word commandOffset &&& wantedCommand = wantedCommand
  · rw [if_neg (not_not_intro still)]
    exact unchanged_does there (moves.mpr still)
  · rw [if_pos still]
    exact write16_does there whole changed (mt moves.mp still)

end Op

/-! ### Where the registers are -/

/-- The address in the base address registers of a function. Bits 1 and 2 of the first say whether
the second holds its upper half; the low four bits are attributes. -/
def Memory.registerBase (memory : Memory) (address : Address) : Nat :=
  let low := (ConfigSpace.read memory address base0Offset).toNat
  let high := (ConfigSpace.read memory address base1Offset).toNat
  (if low / 2 % 4 = 2 then high * 2 ^ 32 + low else low) / 16 * 16

theorem wide_iff (word : UInt32) : word &&& (0x6 : UInt32) = 4 ↔ word.toNat / 2 % 4 = 2 := by
  have bits : ∀ low < 8, (low &&& 6 = 4 ↔ low / 2 % 4 = 2) := by decide
  have masked : word.toNat &&& 6 = word.toNat % 2 ^ 3 &&& 6 % 2 ^ 3 := by
    rw [← Nat.and_mod_two_pow, Nat.mod_eq_of_lt (Nat.lt_of_le_of_lt Nat.and_le_right (by decide))]
  rw [← UInt32.toNat_inj, UInt32.toNat_and]
  refine (Eq.congr_left masked).trans ((bits _ (Nat.mod_lt _ (by decide))).trans ?_)
  omega

theorem and_above_attributes (value width : Nat) :
    value &&& (2 ^ width - 1) <<< 4 = value / 16 % 2 ^ width * 16 := by
  have masked : value &&& (2 ^ width - 1) <<< 4 = (value >>> 4 &&& 2 ^ width - 1) <<< 4 := by
    apply Nat.eq_of_testBit_eq
    intro place
    rw [Nat.testBit_and, Nat.testBit_shiftLeft, Nat.testBit_shiftLeft, Nat.testBit_and,
      Nat.testBit_shiftRight]
    by_cases high : 4 ≤ place
    · simp [high]
    · simp [high]
  rw [masked, Nat.and_two_pow_sub_one_eq_mod, Nat.shiftLeft_eq, Nat.shiftRight_eq_div_pow]

theorem toNat_without_attributes (base : UInt64) :
    (base &&& ~~~(0xF : UInt64)).toNat = base.toNat / 16 * 16 := by
  have bound := base.toNat_lt
  rw [UInt64.toNat_and, show (~~~(0xF : UInt64)).toNat = (2 ^ 60 - 1) <<< 4 from rfl,
    and_above_attributes, Nat.mod_eq_of_lt (by omega)]

theorem toNat_joined (low high : UInt32) :
    (low.toUInt64 ||| high.toUInt64 <<< 32).toNat = high.toNat * 2 ^ 32 + low.toNat := by
  have bound := high.toNat_lt
  have placed : high.toNat <<< ((32 : UInt64).toNat % 64) % 2 ^ 64 = high.toNat <<< 32 := by
    rw [show (32 : UInt64).toNat % 64 = 32 from rfl, Nat.shiftLeft_eq]; omega
  rw [UInt64.toNat_or, UInt64.toNat_shiftLeft, UInt32.toNat_toUInt64, UInt32.toNat_toUInt64, placed,
    Nat.or_comm, ← Nat.shiftLeft_add_eq_or_of_lt low.toNat_lt, Nat.shiftLeft_eq]

theorem Memory.registerBase_lt (memory : Memory) (address : Address) :
    memory.registerBase address < 2 ^ 64 := by
  have low := (ConfigSpace.read memory address base0Offset).toNat_lt
  have high := (ConfigSpace.read memory address base1Offset).toNat_lt
  unfold registerBase
  dsimp only
  split <;> omega

theorem Op.readBase_does (memory : Memory) (address : Address) :
    (readBase address).Does memory (UInt64.ofNat (memory.registerBase address)) [] memory := by
  have base : ∀ base : UInt64, base.toNat = memory.registerBase address →
      UInt64.ofNat (memory.registerBase address) = base := fun base same => by
    rw [← same, UInt64.ofNat_toNat]
  unfold readBase
  refine (Does.read32 memory address base0Offset).look ?_
  by_cases wide : ConfigSpace.read memory address base0Offset &&& (0x6 : UInt32) = 4
  · dsimp only
    rw [if_pos wide]
    refine (Does.read32 memory address base1Offset).look ((Does.pure memory _).look ?_)
    rw [base _ ?_]
    · exact .pure memory _
    · rw [toNat_without_attributes, toNat_joined, Memory.registerBase,
        if_pos ((wide_iff _).mp wide)]
  · dsimp only
    rw [if_neg wide]
    refine (Does.pure memory _).look ?_
    rw [base _ ?_]
    · exact .pure memory _
    · rw [toNat_without_attributes, UInt32.toNat_toUInt64, Memory.registerBase,
        if_neg (mt (wide_iff _).mpr wide)]

end HeciMailbox.Pci
