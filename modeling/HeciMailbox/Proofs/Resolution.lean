import HeciMailbox.Proofs.Amendments

/-! Bringing a function into use changes two words of its configuration space at most.

The walk along the capability list goes the same way behind the changes, although the list may lead
through the words that change. So a second run finds nothing left to do. -/

set_option autoImplicit false

namespace HeciMailbox.Pci

/-! ### What is read of a function -/

def Memory.vendor (memory : Memory) (address : Address) : UInt16 :=
  (ConfigSpace.read memory address vendorOffset).toUInt16

theorem Op.readVendor_does (memory : Memory) (address : Address) :
    (read16 address vendorOffset).Does memory (memory.vendor address) [] memory :=
  Does.read16 memory address vendorOffset

def Memory.registers (memory : Memory) (address : Address) : Except Fault UInt64 :=
  let base := UInt64.ofNat (memory.registerBase address)
  if base = 0 then .error .notPresent else .ok base

/-! ### A function in use -/

def controlOf (pointer : UInt8) : UInt16 := pointer.toUInt16 + powerControlOffset

/-- The word at `control` is one of the function's own, behind its header and beside the capability
at `pointer`. -/
@[mk_iff]
structure Controls (control : UInt16) (pointer : UInt8) : Prop where
  whole : aligned control = control
  even : control &&& (2 : UInt16) = 0
  within : control < 0x100
  behind : 0x40 < control
  beside : control ≠ pointer.toUInt16

instance (control : UInt16) (pointer : UInt8) : Decidable (Controls control pointer) :=
  decidable_of_iff _ (controls_iff control pointer).symm

theorem Pointer.controls : ∀ pointer : UInt8, Pointer pointer → 0x40 ≤ pointer → pointer ≤ 0xF8 →
    Controls (controlOf pointer) pointer :=
  forall_byte (by decide +kernel)

namespace Memory

section

variable (memory : Memory) (address : Address)

def Populated : Prop :=
  ∀ offset < 0x100, aligned offset = offset → (memory.word? address offset).isSome

def power? : Option UInt8 := capability? memory address powerCapability

/-- A function that can be brought up: its words are populated, and its power management capability
stands behind its header, with the control register within its space. -/
structure Ready : Prop where
  populated : memory.Populated address
  power {pointer : UInt8} : memory.power? address = some pointer → 0x40 ≤ pointer ∧ pointer ≤ 0xF8

def poweredUp : Memory :=
  match memory.power? address with
  | some pointer => memory.amend address (controlOf pointer) powered
  | none => memory

/-- The space of a function in use. -/
def settled : Memory := (memory.poweredUp address).amend address commandOffset enabled

def repairs : List (Address × UInt16 × UInt32) :=
  (match memory.power? address with
    | some pointer => memory.amendment address (controlOf pointer) powered
    | none => []) ++ (memory.poweredUp address).amendment address commandOffset enabled

def settle (offset : UInt16) : UInt32 → UInt32 :=
  if offset = commandOffset then enabled
  else if (memory.power? address).map controlOf = some offset then powered
  else id

end

variable {memory : Memory} {address : Address}

theorem pointer_of_power? {pointer : UInt8} (found : memory.power? address = some pointer) :
    Pointer pointer := by
  rw [power?, capability?, Option.ite_none_right_eq_some, search_eq_some] at found
  obtain ⟨-, steps, -, -, rfl⟩ := found
  exact pointer_iterate (pointer_and _) steps

theorem word?_poweredUp (other : Address) (offset : UInt16) :
    (memory.poweredUp address).word? other offset =
      if other = address ∧ (memory.power? address).map controlOf = some offset then
        (memory.word? other offset).map powered
      else memory.word? other offset := by
  rw [poweredUp]
  cases memory.power? address with
  | none => simp
  | some pointer => simp only [word?_amend, Option.map_some, Option.some.injEq, eq_comm]

namespace Ready

variable (ready : memory.Ready address)

include ready

theorem controls {pointer : UInt8} (found : memory.power? address = some pointer) :
    Controls (controlOf pointer) pointer :=
  Pointer.controls pointer (pointer_of_power? found) (ready.power found).1 (ready.power found).2

theorem power_ne {offset : UInt16} (header : offset ≤ 0x40) :
    (memory.power? address).map controlOf ≠ some offset := by
  rw [ne_eq, Option.map_eq_some_iff]
  rintro ⟨pointer, found, rfl⟩
  exact UInt16.not_lt.mpr header (ready.controls found).behind

theorem word?_settled (other : Address) (offset : UInt16) :
    (memory.settled address).word? other offset =
      if other = address then (memory.word? other offset).map (memory.settle address offset)
      else memory.word? other offset := by
  rw [settled, word?_amend, word?_poweredUp]
  by_cases same : other = address
  · by_cases command : offset = commandOffset
    · subst command
      have behind := ready.power_ne (show commandOffset ≤ 0x40 by decide)
      simp [same, settle, behind]
    · by_cases control : (memory.power? address).map controlOf = some offset
      · simp [same, settle, command, control]
      · simp [same, settle, command, control]
  · simp [same]

theorem read_settled {offset : UInt16} (whole : aligned offset = offset) (within : offset < 0x100) :
    ConfigSpace.read (memory.settled address) address offset =
      memory.settle address offset (ConfigSpace.read memory address offset) := by
  obtain ⟨word, there⟩ := Option.isSome_iff_exists.mp (ready.populated offset within whole)
  rw [read_of_word? there whole]
  exact read_of_word? (by rw [ready.word?_settled, if_pos rfl, there]; rfl) whole

/-- Of the header only the command register changes. -/
theorem settle_header {offset : UInt16} (header : offset ≤ 0x40) (other : offset ≠ commandOffset) :
    memory.settle address offset = id := by
  rw [settle, if_neg other, if_neg (ready.power_ne header)]

theorem read_header {offset : UInt16} (whole : aligned offset = offset) (header : offset ≤ 0x40)
    (other : offset ≠ commandOffset) :
    ConfigSpace.read (memory.settled address) address offset =
      ConfigSpace.read memory address offset := by
  rw [ready.read_settled whole (UInt16.lt_of_le_of_lt header (by decide)),
    ready.settle_header header other, id]

end Ready

/-! ### A second look at the list -/

theorem settle_behind (offset : UInt16) (word : UInt32) :
    (memory.settle address offset word >>> 8).toUInt8 = (word >>> 8).toUInt8 := by
  unfold settle
  split
  · exact enabled_behind word
  · split
    · exact powered_behind word
    · rfl

theorem of_settle_eq_power {offset : UInt16} {word : UInt32}
    (found : (memory.settle address offset word).toUInt8 = powerCapability) :
    word.toUInt8 = powerCapability := by
  unfold settle at found
  split at found
  · exact absurd found (enabled_unlike word)
  · split at found
    · exact absurd found (powered_unlike word)
    · exact found

/-- A search finds the same where all pointers are the same, no entry has become one that is looked
for, and the one that is found has stayed one. -/
theorem search_of_alike {other : Memory} {capability : UInt8}
    (behind : ∀ pointer, Pointer pointer →
      pointerBehind other address pointer = pointerBehind memory address pointer)
    (unlike : ∀ pointer, Pointer pointer → identifierAt other address pointer = capability →
      identifierAt memory address pointer = capability)
    {entries : Nat} {start : UInt8} (whole : Pointer start)
    (kept : ∀ pointer, search memory address capability entries start = some pointer →
      identifierAt other address pointer = capability) :
    search other address capability entries start =
      search memory address capability entries start := by
  -- By the bound. What is found behind an entry is what is found from it, so `kept` carries over.
  induction entries generalizing start with
  | zero => rfl
  | succ entries ih =>
    unfold search at kept ⊢
    by_cases last : start = 0
    · rw [if_pos last, if_pos last]
    · rw [if_neg last, if_neg last]
      rw [if_neg last] at kept
      by_cases here : identifierAt memory address start = capability
      · rw [if_pos here] at kept
        rw [if_pos here, if_pos (kept start rfl)]
      · rw [if_neg here] at kept
        rw [if_neg here, if_neg (mt (unlike start whole) here), behind start whole]
        exact ih (pointer_and _) kept

namespace Ready

variable (ready : memory.Ready address)

include ready

theorem entryAt_settled {pointer : UInt8} (whole : Pointer pointer) :
    entryAt (memory.settled address) address pointer =
      memory.settle address pointer.toUInt16 (entryAt memory address pointer) :=
  ready.read_settled whole.aligned (UInt16.lt_iff_toNat_lt.mpr pointer.toNat_lt)

/-- The entry for power management is none of the words that change. -/
theorem settle_found {pointer : UInt8} (found : memory.power? address = some pointer) :
    memory.settle address pointer.toUInt16 = id := by
  have beside := (ready.controls found).beside
  have behind : pointer.toUInt16 ≠ commandOffset := fun header => by
    have four : pointer = 4 := UInt8.toNat_inj.mp (by rw [← UInt8.toNat_toUInt16, header]; rfl)
    exact absurd (four ▸ (ready.power found).1) (by decide)
  rw [settle, if_neg behind, found, Option.map_some, if_neg (mt Option.some.inj beside)]

theorem hasList_settled : hasList (memory.settled address) address = hasList memory address := by
  rw [hasList, ready.read_settled rfl (by decide), settle, if_pos rfl, enabled_status, hasList]

theorem power?_settled : (memory.settled address).power? address = memory.power? address := by
  have first : firstPointer (memory.settled address) address = firstPointer memory address := by
    rw [firstPointer, ready.read_header rfl (by decide) (by decide), firstPointer]
  have behind : ∀ pointer, Pointer pointer →
      pointerBehind (memory.settled address) address pointer =
        pointerBehind memory address pointer := fun pointer whole => by
    rw [pointerBehind, ready.entryAt_settled whole, settle_behind, pointerBehind]
  have unlike : ∀ pointer, Pointer pointer →
      identifierAt (memory.settled address) address pointer = powerCapability →
        identifierAt memory address pointer = powerCapability := fun pointer whole found => by
    rw [identifierAt, ready.entryAt_settled whole] at found
    exact of_settle_eq_power found
  rw [power?, power?, capability?, capability?, ready.hasList_settled, first]
  cases list : hasList memory address with
  | false => rw [if_neg Bool.false_ne_true, if_neg Bool.false_ne_true]
  | true =>
    rw [if_pos rfl, if_pos rfl]
    refine search_of_alike behind unlike (pointer_and _) fun pointer found => ?_
    have power : memory.power? address = some pointer := by
      rw [power?, capability?, list, if_pos rfl]
      exact found
    obtain ⟨steps, -, leads, rfl⟩ := search_eq_some.mp found
    rw [identifierAt, ready.entryAt_settled (pointer_of_power? power), ready.settle_found power]
    exact leads.found

theorem settled : (memory.settled address).Ready address where
  populated := fun offset within whole => by
    rw [ready.word?_settled, if_pos rfl, Option.isSome_map]
    exact ready.populated offset within whole
  power := fun found => ready.power (ready.power?_settled ▸ found)

theorem settle_control {pointer : UInt8} (found : memory.power? address = some pointer) :
    memory.settle address (controlOf pointer) = powered := by
  have behind : controlOf pointer ≠ commandOffset := fun header =>
    absurd (header ▸ (ready.controls found).behind) (by decide)
  rw [settle, if_neg behind, found, Option.map_some, if_pos rfl]

theorem powered_settled {pointer : UInt8} (found : memory.power? address = some pointer) :
    ((memory.settled address).word? address (controlOf pointer)).map powered =
      (memory.settled address).word? address (controlOf pointer) := by
  rw [ready.word?_settled, if_pos rfl, ready.settle_control found, Option.map_map]
  exact congrArg (Option.map · _) (funext powered_powered)

theorem enabled_settled :
    ((memory.settled address).word? address commandOffset).map enabled =
      (memory.settled address).word? address commandOffset := by
  rw [ready.word?_settled, if_pos rfl, settle, if_pos rfl, Option.map_map]
  exact congrArg (Option.map · _) (funext enabled_enabled)

theorem settled_twice : (memory.settled address).settled address = memory.settled address ∧
    (memory.settled address).repairs address = [] := by
  have up : (memory.settled address).poweredUp address = memory.settled address := by
    rw [poweredUp, ready.power?_settled]
    cases found : memory.power? address with
    | none => rfl
    | some pointer => exact (amend_of_same (ready.powered_settled found)).1
  obtain ⟨kept, unrepaired⟩ := amend_of_same ready.enabled_settled
  refine ⟨?_, ?_⟩
  · rw [Memory.settled, up, kept]
  · rw [repairs, up, unrepaired, ready.power?_settled, List.append_nil]
    cases found : memory.power? address with
    | none => rfl
    | some pointer => exact (amend_of_same (ready.powered_settled found)).2

end Ready

end Memory

/-! ### The whole run -/

namespace Op

variable {memory : Memory} {address : Address}

def openRegisters (address : Address) (device : UInt16) : Op Memory (Except Fault UInt64) := do
  enableDecoding address
  let base ← readBase address
  if base = 0 then
    remark .noBase
    pure (.error .notPresent)
  else
    remark (.enabled address device base)
    pure (.ok base)

theorem openRegisters_does {word : UInt32} (device : UInt16)
    (there : memory.word? address commandOffset = some word) :
    (openRegisters address device).Does memory
      ((memory.amend address commandOffset enabled).registers address)
      (memory.amendment address commandOffset enabled)
      (memory.amend address commandOffset enabled) := by
  unfold openRegisters
  rw [← List.append_nil (memory.amendment address commandOffset enabled)]
  refine (enableDecoding_does there).bind ((readBase_does _ address).look ?_)
  unfold Memory.registers
  dsimp only
  split
  · exact (Does.remark _ _).look (.pure _ _)
  · exact (Does.remark _ _).look (.pure _ _)

def bringUp (address : Address) (device : UInt16) : Op Memory (Except Fault UInt64) := do
  match ← findCapability address powerCapability with
  | some capability => do
    powerUp address capability
    openRegisters address device
  | none => openRegisters address device

theorem bringUp_does (ready : memory.Ready address) (device : UInt16) :
    (bringUp address device).Does memory ((memory.settled address).registers address)
      (memory.repairs address) (memory.settled address) := by
  unfold bringUp
  refine (findCapability_does memory address powerCapability).look ?_
  obtain ⟨command, there⟩ := Option.isSome_iff_exists.mp
    (ready.populated commandOffset (by decide) rfl)
  have kept : (memory.poweredUp address).word? address commandOffset = some command := by
    have behind := ready.power_ne (show commandOffset ≤ 0x40 by decide)
    rw [Memory.word?_poweredUp, if_neg (fun here => behind here.2), there]
  have rest := openRegisters_does device kept
  rw [Memory.repairs, Memory.settled, ← show memory.power? address = capability? memory address
    powerCapability from rfl]
  rw [Memory.poweredUp] at rest ⊢
  cases found : memory.power? address with
  | none =>
    rw [found] at rest
    exact rest
  | some pointer =>
    rw [found] at rest
    have controls := ready.controls found
    obtain ⟨control, here⟩ := Option.isSome_iff_exists.mp
      (ready.populated _ controls.within controls.whole)
    exact (powerUp_does here controls.whole controls.even).bind rest

theorem resolve_does {id : DeviceId} (sited : id.pciAddress? = some address)
    (vendor : memory.vendor address = intelVendor)
    (ready : memory.Ready address) :
    (resolve id).Does memory ((memory.settled address).registers address)
      (memory.repairs address) (memory.settled address) := by
  unfold resolve
  rw [sited]
  refine (readVendor_does memory address).look ?_
  rw [if_neg (not_not_intro vendor)]
  refine (Does.read16 memory address deviceOffset).look ?_
  -- A device that is not known is remarked on and brought up like any other.
  dsimp only
  split
  · exact (Does.remark memory _).look (bringUp_does ready _)
  · exact bringUp_does ready _

theorem resolve_without {id : DeviceId}
    (absent : ∀ address, id.pciAddress? = some address → memory.vendor address ≠ intelVendor) :
    (resolve id).Does memory (.error .notPresent) [] memory := by
  unfold resolve
  cases sited : id.pciAddress? with
  | none => exact .pure memory _
  | some address =>
    refine (readVendor_does memory address).look ?_
    rw [if_pos (absent address sited)]
    exact (Does.remark memory _).look (.pure memory _)

end Op

theorem Memory.Ready.registers_settled {memory : Memory} {address : Address}
    (ready : memory.Ready address) :
    (memory.settled address).registers address = memory.registers address := by
  have low : ConfigSpace.read (memory.settled address) address base0Offset =
      ConfigSpace.read memory address base0Offset :=
    ready.read_header rfl (by decide) (by decide)
  have high : ConfigSpace.read (memory.settled address) address base1Offset =
      ConfigSpace.read memory address base1Offset :=
    ready.read_header rfl (by decide) (by decide)
  unfold registers registerBase
  rw [low, high]

/-- What is different in `after`: two power state bits of the function at `address`, and memory
decoding and bus mastering of it. -/
structure Memory.BroughtUp (before : Memory) (address : Address) (capability : Option UInt16)
    (after : Memory) : Prop where
  power (place : UInt16) : capability = some place →
    after.word? address (place + powerControlOffset) =
      (before.word? address (place + powerControlOffset)).map powered
  command : after.word? address commandOffset = (before.word? address commandOffset).map enabled
  other (function : Address) : function ≠ address → after.word? function = before.word? function
  rest (offset : UInt16) : offset ≠ commandOffset →
    capability.map (· + powerControlOffset) ≠ some offset →
      after.word? address offset = before.word? address offset

theorem Memory.Ready.broughtUp {memory : Memory} {address : Address}
    (ready : memory.Ready address) :
    memory.BroughtUp address ((memory.power? address).map UInt8.toUInt16)
      (memory.settled address) where
  power := fun place found => by
    obtain ⟨pointer, here, rfl⟩ := Option.map_eq_some_iff.mp found
    rw [← ready.settle_control here]
    exact (ready.word?_settled address (controlOf pointer)).trans (if_pos rfl)
  command := by rw [ready.word?_settled, if_pos rfl, settle, if_pos rfl]
  other := fun function other => funext fun offset => by rw [ready.word?_settled, if_neg other]
  rest := fun offset command control => by
    have apart : (memory.power? address).map controlOf ≠ some offset := by
      rwa [Option.map_map] at control
    rw [ready.word?_settled, if_pos rfl, settle, if_neg command, if_neg apart, Option.map_id]
    rfl

/-- For the TPM, and where there is no function of Intel's, nothing changes. A function of which all
words are there is brought up and its registers are where its base address registers say; a second
run has the same answer and writes nothing. -/
theorem resolution_changes_what_it_must (id : DeviceId) (world : World Memory) :
    let once := (Op.resolve id).run world
    let twice := (Op.resolve id).run once.2
    ((id = .ftpm ∨ ∃ address, id.pciAddress? = some address ∧
        world.space.vendor address ≠ intelVendor) →
      once.1 = .error .notPresent ∧ once.2.space = world.space ∧ once.2.writes = world.writes) ∧
    ∀ address, id.pciAddress? = some address → world.space.vendor address = intelVendor →
      world.space.Populated address →
      let capability := ((Op.findCapability address powerCapability).run world).1
      (∀ place, capability = some place → 0x40 ≤ place ∧ place ≤ 0xF8) →
        world.space.BroughtUp address capability once.2.space ∧
        (∃ base : UInt64, base.toNat = world.space.registerBase address ∧
          once.1 = if base = 0 then .error .notPresent else .ok base) ∧
        twice.1 = once.1 ∧ twice.2.space = once.2.space ∧ twice.2.writes = once.2.writes := by
  intro once twice
  constructor
  · intro without
    have absent : ∀ address, id.pciAddress? = some address →
        world.space.vendor address ≠ intelVendor := fun address sited => by
      obtain rfl | ⟨_, same, foreign⟩ := without
      · nomatch sited
      · rwa [← Option.some.inj (same.symm.trans sited)]
    have does := Op.resolve_without absent
    refine ⟨does.answer world rfl, does.space world rfl, ?_⟩
    rw [does.writes world rfl, List.append_nil]
  · intro address sited vendor populated capability ranged
    have found : capability = (world.space.power? address).map UInt8.toUInt16 :=
      (Op.findCapability_does world.space address powerCapability).answer world rfl
    have ready : world.space.Ready address := ⟨populated, fun {pointer} here =>
      ranged pointer.toUInt16 (by rw [found, here]; rfl)⟩
    have first := Op.resolve_does sited vendor ready
    have settled : once.2.space = world.space.settled address := first.space world rfl
    have same : (world.space.settled address).vendor address = intelVendor := by
      rw [Memory.vendor, ready.read_header rfl (by decide) (by decide)]
      exact vendor
    have second := Op.resolve_does sited same ready.settled
    obtain ⟨kept, unrepaired⟩ := ready.settled_twice
    rw [kept, unrepaired] at second
    refine ⟨?_, ⟨UInt64.ofNat (world.space.registerBase address), ?_, ?_⟩, ?_, ?_, ?_⟩
    · rw [settled, found]
      exact ready.broughtUp
    · exact UInt64.toNat_ofNat_of_lt' (world.space.registerBase_lt address)
    · exact (first.answer world rfl).trans ready.registers_settled
    · rw [second.answer once.2 settled]
      exact (first.answer world rfl).symm
    · rw [second.space once.2 settled, settled]
    · rw [second.writes once.2 settled, List.append_nil]

/-! ### Functions that are added -/

namespace Memory

variable {memory : Memory} {address : Address}

theorem populated_clear : (memory.clear address).Populated address := fun offset within whole => by
  have low : offset &&& (3 : UInt16) = 0 := by
    rw [← whole, aligned, UInt16.and_assoc]
    exact UInt16.and_zero
  exact Option.isSome_iff_exists.mpr ⟨0, if_pos ⟨rfl, within, low⟩⟩

theorem Populated.put (populated : memory.Populated address) (function : Address)
    (offset : UInt16) (value : UInt32) : (memory.put function offset value).Populated address :=
  fun place within whole => by
    unfold Memory.put
    dsimp only
    split
    · rfl
    · exact populated place within whole

theorem populated_addFunction (device : UInt16) (base : UInt64) :
    (memory.addFunction address device base).Populated address := by
  unfold addFunction
  exact (((((((populated_clear.put _ _ _).put _ _ _).put _ _ _).put _ _ _).put _ _ _).put _ _ _).put
    _ _ _)

/-- A function whose power control register is at the same time the first entry of its list. -/
def crossed : Memory :=
  (empty.addFunction ⟨0, 0x0F, 0⟩ 0x5A9A 0x1FED1A004).put ⟨0, 0x0F, 0⟩ capabilitiesOffset 0x54
    |>.put ⟨0, 0x0F, 0⟩ 0x54 0x00005007

end Memory

theorem powering_up_rewrites_an_entry :
    let world : World Memory := { space := .crossed }
    let once := (Op.resolve .heci1).run world
    let twice := (Op.resolve .heci1).run once.2
    ((Op.findCapability ⟨0, 0x0F, 0⟩ powerCapability).run world).1 = some 0x50 ∧
      once.1 = .ok 0x1FED1A000 ∧ once.2.space.word? ⟨0, 0x0F, 0⟩ 0x54 = some 0x00005004 ∧
      twice.1 = .ok 0x1FED1A000 ∧ twice.2.writes = once.2.writes := by
  have populated : Memory.crossed.Populated ⟨0, 0x0F, 0⟩ :=
    ((Memory.populated_addFunction _ _).put _ _ _).put _ _ _
  have vendor : Memory.crossed.vendor ⟨0, 0x0F, 0⟩ = intelVendor := by decide +kernel
  have list : capability? Memory.crossed ⟨0, 0x0F, 0⟩ powerCapability = some 0x50 := by
    decide +kernel
  have word : Memory.crossed.word? ⟨0, 0x0F, 0⟩ 0x54 = some 0x00005007 := by decide +kernel
  have place : Memory.crossed.registerBase ⟨0, 0x0F, 0⟩ = (0x1FED1A000 : UInt64).toNat := by
    decide +kernel
  intro world
  have same : world.space = .crossed := rfl
  -- Of the world only its space matters; left in place, the runs would be computed here.
  clear_value world
  intro once twice
  rw [← same] at populated vendor list word place
  have found : ((Op.findCapability ⟨0, 0x0F, 0⟩ powerCapability).run world).1 = some 0x50 := by
    rw [(Op.findCapability_does world.space _ _).answer world rfl, list]
    rfl
  obtain ⟨brought, ⟨base, value, answer⟩, again, -, writes⟩ :=
    (resolution_changes_what_it_must .heci1 world).2 ⟨0, 0x0F, 0⟩ rfl vendor populated
      (fun place here => by rw [← Option.some.inj (found.symm.trans here)]; decide)
  have ok : once.1 = .ok 0x1FED1A000 := by
    rw [answer, UInt64.toNat_inj.mp (value.trans place), if_neg (by decide)]
  have control : once.2.space.word? ⟨0, 0x0F, 0⟩ 0x54 = some 0x00005004 := by
    rw [← show powered 0x00005007 = 0x00005004 by decide]
    exact (brought.power 0x50 found).trans (congrArg (Option.map powered) word)
  exact ⟨found, ok, control, again.trans ok, writes⟩

end HeciMailbox.Pci
