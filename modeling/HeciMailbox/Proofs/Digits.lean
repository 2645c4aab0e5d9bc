import HeciMailbox.Text.Numeral
import Mathlib.Tactic.IntervalCases

/-! Digits and the numbers they write, in any base up to sixteen. -/

set_option autoImplicit false

namespace HeciMailbox.Text

/-! ### Digits -/

theorem hexDigit?_of_not_ascii {c : Char} (beyond : 128 ≤ c.toNat) : hexDigit? c = none := by
  have above {last : Char} (ascii : last.toNat < 128) (first : Char) :
      ¬ (first ≤ c ∧ c ≤ last) := by
    rintro ⟨-, below⟩
    have : c.toNat ≤ last.toNat := below
    omega
  rw [hexDigit?, if_neg (above (by decide) _), if_neg (above (by decide) _),
    if_neg (above (by decide) _)]

/-- Each digit has its two cases, and nothing else is a digit. -/
theorem hexDigit?_eq_some {c : Char} {d : Nat} :
    hexDigit? c = some d ↔ d < 16 ∧ (c = Nat.digitChar d ∨ c = (Nat.digitChar d).toUpper) := by
  constructor
  · intro digit
    have ascii : c.toNat < 128 := by
      by_contra beyond
      rw [hexDigit?_of_not_ascii (by omega)] at digit
      cases digit
    have table : ∀ n < 128, ∀ d ∈ hexDigit? (Char.ofNat n),
        d < 16 ∧ (Char.ofNat n = Nat.digitChar d ∨ Char.ofNat n = (Nat.digitChar d).toUpper) := by
      decide
    have entry := table c.toNat ascii d
    rw [Char.ofNat_toNat] at entry
    exact entry digit
  · rintro ⟨small, rfl | rfl⟩
    · interval_cases d <;> rfl
    · interval_cases d <;> rfl

theorem hexDigit?_digitChar {d : Nat} (small : d < 16) : hexDigit? (Nat.digitChar d) = some d :=
  hexDigit?_eq_some.mpr ⟨small, .inl rfl⟩

theorem hexDigit?_toUpper {c : Char} {d : Nat} (digit : hexDigit? c = some d) :
    hexDigit? c.toUpper = some d := by
  obtain ⟨small, rfl | rfl⟩ := hexDigit?_eq_some.mp digit
  · exact hexDigit?_eq_some.mpr ⟨small, .inr rfl⟩
  · have twice : ∀ d < 16, (Nat.digitChar d).toUpper.toUpper = (Nat.digitChar d).toUpper := by
      decide
    exact hexDigit?_eq_some.mpr ⟨small, .inr (twice d small)⟩

/-! ### Numbers -/

/-- `text` is one or more digits that write a number in the given base. -/
inductive Spells (base : Nat) : List Char → Nat → Prop where
  | digit {c : Char} {d : Nat} (digit : hexDigit? c = some d) (small : d < base) :
      Spells base [c] d
  | more {text : List Char} {n : Nat} {c : Char} {d : Nat} (front : Spells base text n)
      (digit : hexDigit? c = some d) (small : d < base) : Spells base (text ++ [c]) (n * base + d)

namespace Spells

variable {base n : Nat} {text : List Char}

theorem ne_nil (spells : Spells base text n) : text ≠ [] := by
  cases spells with
  | digit digit small => simp
  | more front digit small => simp

theorem zeros (spells : Spells base text n) (count : Nat) :
    Spells base (List.replicate count '0' ++ text) n := by
  induction count with
  | zero => exact spells
  | succ count ih =>
    have positive : 0 < base := by
      cases spells with
      | digit digit small => omega
      | more front digit small => omega
    rw [List.replicate_succ, List.cons_append]
    clear spells
    generalize List.replicate count '0' ++ text = behind at ih
    induction ih with
    | digit digit small =>
      have zero : Spells base ['0'] 0 := .digit rfl positive
      simpa using zero.more digit small
    | more front digit small ih => exact ih.more digit small

theorem toUpper (spells : Spells base text n) : Spells base (text.map Char.toUpper) n := by
  induction spells with
  | digit digit small => exact .digit (hexDigit?_toUpper digit) small
  | more front digit small ih =>
    rw [List.map_append]
    exact ih.more (hexDigit?_toUpper digit) small

theorem toDigits (several : 1 < base) (known : base ≤ 16) (n : Nat) :
    Spells base (Nat.toDigits base n) n := by
  induction n using Nat.strongRecOn with
  | ind n ih =>
    rw [Nat.toDigits_eq_if several]
    split
    · next small => exact .digit (hexDigit?_digitChar (by omega)) small
    · next large =>
      have positive : 0 < base := by omega
      have last : n % base < base := Nat.mod_lt n positive
      have shorter : n / base < n := Nat.div_lt_self (by omega) several
      have written := (ih (n / base) shorter).more (hexDigit?_digitChar (by omega)) last
      rwa [Nat.mul_comm, Nat.div_add_mod] at written

theorem digit_of_mem (spells : Spells base text n) {c : Char} (member : c ∈ text) :
    ∃ d < base, hexDigit? c = some d := by
  induction spells with
  | digit digit small =>
    rw [List.mem_singleton] at member
    subst member
    exact ⟨_, small, digit⟩
  | more front digit small ih =>
    rw [List.mem_append, List.mem_singleton] at member
    rcases member with front | rfl
    · exact ih front
    · exact ⟨_, small, digit⟩

end Spells

end HeciMailbox.Text
