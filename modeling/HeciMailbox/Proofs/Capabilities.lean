import HeciMailbox.Proofs.ConfigAccess
import Mathlib.Data.Fintype.Card
import Mathlib.Logic.Function.Iterate

/-! The walk along a capability list finds what the list holds.

The entries of a list may point anywhere, also back, so the walk looks at a bounded number of them.
Before it finds what it looks for it meets no entry twice, and there are no more places for entries
than it looks at: so the bound cuts nothing off. -/

set_option autoImplicit false

namespace HeciMailbox.Pci

variable {π : Type} [ConfigSpace π] {space : π} {address : Address} {capability : UInt8}

/-- Pointers name words. -/
def Pointer (pointer : UInt8) : Prop := pointer &&& (0xFC : UInt8) = pointer

instance (pointer : UInt8) : Decidable (Pointer pointer) :=
  inferInstanceAs (Decidable (pointer &&& (0xFC : UInt8) = pointer))

/-- What holds of a byte can be decided by trying all of them. -/
theorem forall_byte {P : UInt8 → Prop} (all : ∀ n < 256, P (UInt8.ofNat n)) (byte : UInt8) :
    P byte := by
  have here := all byte.toNat byte.toNat_lt
  rwa [UInt8.ofNat_toNat] at here

theorem pointer_and (byte : UInt8) : Pointer (byte &&& (0xFC : UInt8)) := by
  rw [Pointer, UInt8.and_assoc, UInt8.and_self]

theorem Pointer.aligned {pointer : UInt8} (whole : Pointer pointer) :
    aligned pointer.toUInt16 = pointer.toUInt16 := by
  rw [Pci.aligned, ← whole, UInt8.toUInt16_and, UInt16.and_assoc]
  rfl

theorem Pointer.even {pointer : UInt8} (whole : Pointer pointer) :
    pointer.toUInt16 &&& (2 : UInt16) = 0 := by
  rw [← whole, UInt8.toUInt16_and, UInt16.and_assoc]
  exact UInt16.and_zero

theorem Pointer.four_dvd {pointer : UInt8} (whole : Pointer pointer) : 4 ∣ pointer.toNat := by
  rw [← whole, UInt8.toNat_and, show (4 : Nat) = 2 ^ 2 from rfl]
  exact Nat.dvd_of_mod_eq_zero (by rw [Nat.and_mod_two_pow]; exact Nat.and_zero _)

theorem toUInt8_half (word : UInt32) : (word.toUInt16 >>> 8).toUInt8 = (word >>> 8).toUInt8 := by
  apply UInt8.toNat_inj.mp
  simp only [UInt16.toNat_toUInt8, UInt16.toNat_shiftRight, UInt32.toNat_toUInt16,
    UInt32.toNat_toUInt8, UInt32.toNat_shiftRight, UInt16.toNat_ofNat, UInt32.toNat_ofNat,
    Nat.shiftRight_eq_div_pow, Nat.reduceMod, Nat.reducePow]
  omega

section

variable (space address)

/-- The word at which an entry of a capability list stands. Its identifier is in bits 0 to 7, and in
bits 8 to 15 is the pointer to the next entry. -/
def entryAt (pointer : UInt8) : UInt32 := ConfigSpace.read space address pointer.toUInt16

def identifierAt (pointer : UInt8) : UInt8 := (entryAt space address pointer).toUInt8

def pointerBehind (pointer : UInt8) : UInt8 :=
  (entryAt space address pointer >>> 8).toUInt8 &&& (0xFC : UInt8)

def hasList : Bool :=
  (ConfigSpace.read space address commandOffset >>> 16).toUInt16 &&& capabilityListBit != 0

def firstPointer : UInt8 :=
  (ConfigSpace.read space address capabilitiesOffset).toUInt8 &&& (0xFC : UInt8)

/-- Pointer number `place` of the list, which goes on up to a pointer that is zero. -/
def pointerAt (place : Nat) : UInt8 :=
  (pointerBehind space address)^[place] (firstPointer space address)

def search (capability : UInt8) : Nat → UInt8 → Option UInt8
  | 0, _ => none
  | entries + 1, pointer =>
    if pointer = 0 then none
    else if identifierAt space address pointer = capability then some pointer
    else search capability entries (pointerBehind space address pointer)

def capability? (capability : UInt8) : Option UInt8 :=
  if hasList space address then
    search space address capability maxCapabilities (firstPointer space address)
  else none

/-- From `start`, the first entry with the identifier is `steps` entries on. -/
structure Leads (capability start : UInt8) (steps : Nat) : Prop where
  listed : ∀ place ≤ steps, (pointerBehind space address)^[place] start ≠ 0
  found : identifierAt space address ((pointerBehind space address)^[steps] start) = capability
  first : ∀ place < steps,
    identifierAt space address ((pointerBehind space address)^[place] start) ≠ capability

end

/-! ### The walk -/

theorem Op.walk_does {pointer : UInt8} (whole : Pointer pointer) (entries : Nat) :
    (walkCapabilities address capability entries pointer).Does space
      ((search space address capability entries pointer).map UInt8.toUInt16) [] space := by
  induction entries generalizing pointer with
  | zero => exact .pure space none
  | succ entries ih =>
    unfold walkCapabilities search
    by_cases last : pointer = 0
    · rw [if_pos last, if_pos last]
      exact .pure space none
    · rw [if_neg last, if_neg last]
      refine (Does.read16 space address _).look ?_
      rw [whole.aligned, halfOf_even whole.even, UInt32.toUInt8_toUInt16, toUInt8_half]
      by_cases here : (ConfigSpace.read space address pointer.toUInt16).toUInt8 = capability
      · rw [if_pos here, if_pos (show identifierAt space address pointer = capability from here)]
        exact .pure space (some pointer.toUInt16)
      · rw [if_neg here, if_neg (show identifierAt space address pointer ≠ capability from here)]
        exact ih (pointer_and _)

theorem Op.findCapability_does (space : π) (address : Address) (capability : UInt8) :
    (findCapability address capability).Does space
      ((capability? space address capability).map UInt8.toUInt16) [] space := by
  refine (Does.read16 space address statusOffset).look ?_
  have status : halfOf (ConfigSpace.read space address (aligned statusOffset)) statusOffset =
      (ConfigSpace.read space address commandOffset >>> 16).toUInt16 := rfl
  rw [status]
  by_cases listless :
      (ConfigSpace.read space address commandOffset >>> 16).toUInt16 &&& capabilityListBit = 0
  · rw [if_pos listless, capability?, if_neg (by simp [hasList, listless])]
    exact .pure space none
  · rw [if_neg listless, capability?, if_pos (by simp [hasList, listless])]
    refine (Does.read8 space address capabilitiesOffset).look ?_
    have first : byteOf (ConfigSpace.read space address (aligned capabilitiesOffset))
        capabilitiesOffset &&& (0xFC : UInt8) = firstPointer space address := rfl
    rw [first]
    exact walk_does (pointer_and _) maxCapabilities

/-! ### The first entry -/

theorem leads_zero {start : UInt8} :
    Leads space address capability start 0 ↔
      start ≠ 0 ∧ identifierAt space address start = capability := by
  constructor
  · exact fun leads => ⟨leads.listed 0 (Nat.le_refl 0), leads.found⟩
  · rintro ⟨listed, found⟩
    exact ⟨fun place low => by rwa [Nat.le_zero.mp low], found,
      fun _ low => absurd low (Nat.not_lt_zero _)⟩

theorem leads_succ {start : UInt8} {steps : Nat} :
    Leads space address capability start (steps + 1) ↔
      start ≠ 0 ∧ identifierAt space address start ≠ capability ∧
        Leads space address capability (pointerBehind space address start) steps := by
  constructor
  · intro leads
    exact ⟨leads.listed 0 (Nat.zero_le _), leads.first 0 (Nat.zero_lt_succ _),
      fun place within => leads.listed (place + 1) (Nat.succ_le_succ within), leads.found,
      fun place before => leads.first (place + 1) (Nat.succ_lt_succ before)⟩
  · rintro ⟨listed, other, leads⟩
    refine ⟨?_, leads.found, ?_⟩
    · rintro (_ | place) within
      · exact listed
      · exact leads.listed place (Nat.le_of_succ_le_succ within)
    · rintro (_ | place) before
      · exact other
      · exact leads.first place (Nat.lt_of_succ_lt_succ before)

theorem search_eq_some {entries : Nat} {start pointer : UInt8} :
    search space address capability entries start = some pointer ↔
      ∃ steps < entries, Leads space address capability start steps ∧
        (pointerBehind space address)^[steps] start = pointer := by
  induction entries generalizing start with
  | zero => simp [search]
  | succ entries ih =>
    unfold search
    by_cases last : start = 0
    · rw [if_pos last]
      constructor
      · nofun
      · rintro ⟨_, -, leads, -⟩
        exact absurd last (leads.listed 0 (Nat.zero_le _))
    · rw [if_neg last]
      by_cases here : identifierAt space address start = capability
      · rw [if_pos here]
        constructor
        · rintro ⟨⟩
          exact ⟨0, Nat.zero_lt_succ _, leads_zero.mpr ⟨last, here⟩, rfl⟩
        · rintro ⟨_ | steps, -, leads, rfl⟩
          · rfl
          · exact absurd here (leads_succ.mp leads).2.1
      · rw [if_neg here, ih]
        constructor
        · rintro ⟨steps, within, leads, reached⟩
          exact ⟨steps + 1, Nat.succ_lt_succ within, leads_succ.mpr ⟨last, here, leads⟩, reached⟩
        · rintro ⟨_ | steps, within, leads, reached⟩
          · exact absurd (leads_zero.mp leads).2 here
          · exact ⟨steps, Nat.lt_of_succ_lt_succ within, (leads_succ.mp leads).2.2, reached⟩

/-- No entry stands twice before the one that is looked for: from the second time on the walk would
go as from the first, and so would have ended before. -/
theorem Leads.apart {start : UInt8} {steps first second : Nat}
    (leads : Leads space address capability start steps) (order : first < second)
    (within : second ≤ steps) :
    (pointerBehind space address)^[first] start ≠ (pointerBehind space address)^[second] start := by
  intro same
  have rest : steps = steps - second + second := by omega
  have again : (pointerBehind space address)^[steps - second + first] start =
      (pointerBehind space address)^[steps] start := by
    rw [Function.iterate_add_apply, same, ← Function.iterate_add_apply, ← rest]
  refine leads.first (steps - second + first) (by omega) ?_
  rw [again]
  exact leads.found

theorem pointer_iterate {start : UInt8} (whole : Pointer start) (place : Nat) :
    Pointer ((pointerBehind space address)^[place] start) := by
  cases place with
  | zero => exact whole
  | succ place =>
    rw [Function.iterate_succ_apply']
    exact pointer_and _

/-- There are 48 places for entries behind the header of a function. -/
theorem Leads.steps_lt {start : UInt8} {steps : Nat}
    (leads : Leads space address capability start steps) (whole : Pointer start)
    (ranged : ∀ place ≤ steps, 0x40 ≤ (pointerBehind space address)^[place] start) :
    steps < maxCapabilities := by
  let place : Fin (steps + 1) → Fin maxCapabilities := fun index =>
    ⟨((pointerBehind space address)^[index] start).toNat / 4 - 16, by
      have := ((pointerBehind space address)^[index.val] start).toNat_lt
      unfold maxCapabilities
      omega⟩
  have injective : Function.Injective place := by
    intro first second same
    have low := UInt8.le_iff_toNat_le.mp (ranged first (Nat.le_of_lt_succ first.isLt))
    have low' := UInt8.le_iff_toNat_le.mp (ranged second (Nat.le_of_lt_succ second.isLt))
    have fourth : 4 ∣ ((pointerBehind space address)^[first.val] start).toNat :=
      (pointer_iterate whole first).four_dvd
    have fourth' : 4 ∣ ((pointerBehind space address)^[second.val] start).toNat :=
      (pointer_iterate whole second).four_dvd
    have equal := UInt8.toNat_inj.mp (show
        ((pointerBehind space address)^[first.val] start).toNat =
          ((pointerBehind space address)^[second.val] start).toNat by
      have places := Fin.mk.inj same
      simp only [UInt8.toNat_ofNat] at low low'
      omega)
    rcases Nat.lt_trichotomy first second with order | order | order
    · exact absurd equal (leads.apart order (Nat.le_of_lt_succ second.isLt))
    · exact Fin.ext order
    · exact absurd equal.symm (leads.apart order (Nat.le_of_lt_succ first.isLt))
  have few := Fintype.card_le_of_injective place injective
  rwa [Fintype.card_fin, Fintype.card_fin] at few

theorem exists_leads {start : UInt8} {place : Nat}
    (listed : ∀ earlier ≤ place, (pointerBehind space address)^[earlier] start ≠ 0)
    (found : identifierAt space address ((pointerBehind space address)^[place] start) =
      capability) :
    ∃ steps, Leads space address capability start steps := by
  have reached : ∃ steps,
      identifierAt space address ((pointerBehind space address)^[steps] start) = capability :=
    ⟨place, found⟩
  have least : Nat.find reached ≤ place := Nat.find_min' reached found
  exact ⟨Nat.find reached, fun earlier before => listed earlier (Nat.le_trans before least),
    Nat.find_spec reached, fun earlier before => Nat.find_min reached before⟩

/-! ### All of the list -/

section

variable (space address)

def Listed (place : Nat) : Prop := ∀ earlier ≤ place, pointerAt space address earlier ≠ 0

/-- The entries that the walk meets, up to the one that it looks for, stand behind the header of the
function. -/
def Ranged (capability : UInt8) : Prop :=
  ∀ place, Listed space address place →
    (∀ earlier < place,
      identifierAt space address (pointerAt space address earlier) ≠ capability) →
    0x40 ≤ pointerAt space address place

end

theorem search_of_ranged (ranged : Ranged space address capability) {entries : Nat}
    (enough : maxCapabilities ≤ entries) {pointer : UInt8} :
    search space address capability entries (firstPointer space address) = some pointer ↔
      ∃ place, Leads space address capability (firstPointer space address) place ∧
        pointerAt space address place = pointer := by
  rw [search_eq_some]
  constructor
  · rintro ⟨place, -, leads, reached⟩
    exact ⟨place, leads, reached⟩
  · rintro ⟨place, leads, reached⟩
    have met : ∀ earlier ≤ place, 0x40 ≤ pointerAt space address earlier := fun earlier before =>
      ranged earlier (fun first sooner => leads.listed first (Nat.le_trans sooner before))
        fun first sooner => leads.first first (Nat.lt_of_lt_of_le sooner before)
    have few := leads.steps_lt (pointer_and _) met
    exact ⟨place, Nat.lt_of_lt_of_le few enough, leads, reached⟩

theorem capability?_eq_some (ranged : Ranged space address capability) {pointer : UInt8} :
    capability? space address capability = some pointer ↔
      hasList space address = true ∧
        ∃ place, Leads space address capability (firstPointer space address) place ∧
          pointerAt space address place = pointer := by
  rw [capability?]
  cases hasList space address with
  | false => simp
  | true => simpa using search_of_ranged ranged (Nat.le_refl _)

theorem capability?_eq_none (ranged : Ranged space address capability) :
    capability? space address capability = none ↔
      hasList space address = false ∨
        ∀ place, Listed space address place →
          identifierAt space address (pointerAt space address place) ≠ capability := by
  rw [Option.eq_none_iff_forall_ne_some]
  simp only [ne_eq, capability?_eq_some ranged]
  constructor
  · intro unfound
    cases list : hasList space address with
    | false => exact .inl rfl
    | true =>
      refine .inr fun place listed found => ?_
      obtain ⟨steps, leads⟩ := exists_leads listed found
      exact unfound _ ⟨list, steps, leads, rfl⟩
  · rintro (unlisted | absent) _ ⟨list, place, leads, -⟩
    · simp [unlisted] at list
    · exact absent place leads.listed leads.found

/-- A capability is found just if the status register announces a list and the list has an entry
with the identifier, and then it is the first such entry; entries may point back as they like. The
walk writes nothing, and a higher bound on its entries would change nothing. -/
theorem capability_walk_is_complete {world : World π}
    (ranged : Ranged world.space address capability) :
    let first := firstPointer world.space address
    let walk := (Op.findCapability address capability).run world
    (∀ offset, walk.1 = some offset ↔
        hasList world.space address = true ∧
          ∃ place, Leads world.space address capability first place ∧
            (pointerAt world.space address place).toUInt16 = offset) ∧
      (walk.1 = none ↔
        hasList world.space address = false ∨
          ∀ place, Listed world.space address place →
            identifierAt world.space address (pointerAt world.space address place) ≠ capability) ∧
      (walk.2.space = world.space ∧ walk.2.writes = world.writes) ∧
      ∀ entries, maxCapabilities ≤ entries →
        ((Op.walkCapabilities address capability entries first).run world).1 =
          ((Op.walkCapabilities address capability maxCapabilities first).run world).1 := by
  intro first walk
  have does := Op.findCapability_does world.space address capability
  have answer : walk.1 = (capability? world.space address capability).map UInt8.toUInt16 :=
    does.answer world rfl
  have walked : ∀ entries, ((Op.walkCapabilities address capability entries first).run world).1 =
      (search world.space address capability entries first).map UInt8.toUInt16 := fun entries =>
    (Op.walk_does (pointer_and _) entries).answer world rfl
  refine ⟨fun offset => ?_, ?_, ⟨does.space world rfl, ?_⟩, fun entries enough => ?_⟩
  · rw [answer, Option.map_eq_some_iff]
    simp only [capability?_eq_some ranged]
    constructor
    · rintro ⟨_, ⟨list, place, leads, rfl⟩, rfl⟩
      exact ⟨list, place, leads, rfl⟩
    · rintro ⟨list, place, leads, rfl⟩
      exact ⟨_, ⟨list, place, leads, rfl⟩, rfl⟩
  · rw [answer, Option.map_eq_none_iff, capability?_eq_none ranged]
  · rw [← List.append_nil world.writes]
    exact does.writes world rfl
  · rw [walked, walked]
    congr 1
    ext pointer
    rw [search_of_ranged ranged enough, search_of_ranged ranged (Nat.le_refl _)]

/-- A list that fills all places and goes on from its last entry to its first. Only the last has
identifier 5. -/
def roundabout : Memory where
  word? _ offset :=
    if offset = commandOffset then some 0x00100000
    else if offset = capabilitiesOffset then some 0x00000040
    else if offset = 0xFC then some 0x00004005
    else some ((offset.toUInt32 + 4) <<< 8 ||| 0x09)

theorem pointerAt_roundabout (place : Nat) :
    let pointer := pointerAt roundabout ⟨0, 0x0F, 0⟩ place
    Pointer pointer ∧ 0x40 ≤ pointer ∧ identifierAt roundabout ⟨0, 0x0F, 0⟩ pointer ≠ 7 := by
  have step : ∀ pointer : UInt8, Pointer pointer → 0x40 ≤ pointer →
      0x40 ≤ pointerBehind roundabout ⟨0, 0x0F, 0⟩ pointer ∧
        identifierAt roundabout ⟨0, 0x0F, 0⟩ pointer ≠ 7 :=
    forall_byte (by decide +kernel)
  have ranged : Pointer (pointerAt roundabout ⟨0, 0x0F, 0⟩ place) ∧
      0x40 ≤ pointerAt roundabout ⟨0, 0x0F, 0⟩ place := by
    refine ⟨pointer_iterate (pointer_and _) place, ?_⟩
    induction place with
    | zero => decide
    | succ place ih =>
      rw [pointerAt, Function.iterate_succ_apply']
      exact (step _ (pointer_iterate (pointer_and _) place) ih).1
  exact ⟨ranged.1, ranged.2, (step _ ranged.1 ranged.2).2⟩

theorem last_of_48_entries_is_found :
    let address : Address := ⟨0, 0x0F, 0⟩
    let world : World Memory := { space := roundabout }
    (Ranged roundabout address 5 ∧ Ranged roundabout address 7) ∧
      ((Op.findCapability address 5).run world).1 = some 0xFC ∧
      ((Op.findCapability address 7).run world).1 = none := by
  intro address world
  have ranged : ∀ capability, Ranged world.space address capability := fun _ place _ _ =>
    (pointerAt_roundabout place).2.1
  refine ⟨⟨ranged 5, ranged 7⟩, ?_, ?_⟩
  · refine ((capability_walk_is_complete (ranged 5)).1 _).mpr ⟨by decide, 47, ⟨?_, ?_, ?_⟩, ?_⟩
    all_goals decide +kernel
  · refine (capability_walk_is_complete (ranged 7)).2.1.mpr (.inr ?_)
    exact fun place _ => (pointerAt_roundabout place).2.2

end HeciMailbox.Pci
