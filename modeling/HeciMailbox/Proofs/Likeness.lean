import HeciMailbox.Proofs.StatusBits

/-! Simulated controllers that answer alike from now on.

A ring shows its cursors and the words between them, a status word the flags that anyone acts on.
Controllers that show the same take every access in the same way, whatever else is left in their
slots, their interrupt flags and their records. -/

set_option autoImplicit false

namespace HeciMailbox

/-! ### Status words -/

namespace Csr

/-- Bits that act when they are written or decide what an operation does when they are read. The
two interrupt bits do neither. -/
def liveBits : UInt32 := generateBit ||| readyBit ||| resetBit

/-- Status words that no operation tells apart. -/
structure Alike (first second : Csr) : Prop where
  absent : first.absent = second.absent
  live : first.raw &&& liveBits = second.raw &&& liveBits
  cursors : Cursors.ofCsr first = Cursors.ofCsr second

theorem Alike.ready {first second : Csr} (alike : first.Alike second) :
    first.ready = second.ready := by
  simp only [Csr.ready, has, and_eq_of_and_eq readyBit alike.live (by decide)]

/-- Flags of two sides that agree where anyone acts on them. A side never shows the doorbell, so its
status word is not that of an absent function. -/
structure FlagsAlike (first second : UInt32) : Prop where
  live : first &&& liveBits = second &&& liveBits
  quiet : Quiet generateBit first

namespace FlagsAlike

variable {first second : UInt32}

theorem quiet' (alike : FlagsAlike first second) : Quiet generateBit second :=
  (and_eq_of_and_eq _ alike.live (by decide)).symm.trans alike.quiet

theorem or (alike : FlagsAlike first second) {bits : UInt32} (apart : Quiet generateBit bits) :
    FlagsAlike (first ||| bits) (second ||| bits) :=
  ⟨or_and_of_same alike.live bits, alike.quiet.or apart⟩

theorem and (alike : FlagsAlike first second) (bits : UInt32) :
    FlagsAlike (first &&& bits) (second &&& bits) :=
  ⟨and_and_of_same alike.live bits, alike.quiet.and bits⟩

end FlagsAlike

end Csr

namespace Controller

/-! ### Rings -/

namespace Ring

variable {ring : Ring}

theorem peek?_eq_getElem? (ring : Ring) (place : Nat) :
    ring.peek? place =
      if ring.cursors.overflowed = false ∧ place < ring.cursors.filled.toNat then
        ring.slots.toList[ring.cursors.slot (ring.read + UInt8.ofNat place)]?
      else none := by
  unfold peek?
  split <;> simp

theorem read_add_filled (ring : Ring) :
    ring.read + UInt8.ofNat ring.cursors.filled.toNat = ring.write := by
  rw [UInt8.ofNat_toNat, UInt8.add_comm]
  exact UInt8.sub_add_cancel _ _

/-- A word that was written is seen at every place whose slot it went to, and at no other. -/
theorem peek?_of_push? {next : Ring} {word : UInt32} (pushed : ring.push? word = some next)
    (place : Nat) :
    next.peek? place =
      if place ≤ ring.cursors.filled.toNat ∧
          ring.cursors.slot (ring.read + UInt8.ofNat place) = ring.cursors.slot ring.write then
        some word
      else ring.peek? place := by
  have roomy : 0 < ring.room := Nat.pos_of_ne_zero fun full => by
    rw [push?_of_no_room full] at pushed
    cases pushed
  obtain ⟨stored, same, moved, slots⟩ := push?_of_room roomy word
  obtain rfl : stored = next := Option.some.inj (same.symm.trans pushed)
  have room := filled_lt_of_room roomy
  have filled := Cursors.toNat_filled_advanceWrite room
  have depth := ring.toNat_cursors_depth
  have read : stored.read = ring.read := congrArg Cursors.read moved
  have slot : ∀ cursor, stored.cursors.slot cursor = ring.cursors.slot cursor := by
    intro cursor
    rw [moved]
    rfl
  have bound : ring.cursors.slot ring.write < ring.slots.toList.length := by
    rw [Array.length_toList]
    exact slot_lt_size (by omega) _
  have within : ring.cursors.overflowed = false := Cursors.overflowed_eq_false.mpr (by omega)
  have within' : stored.cursors.overflowed = false := by
    rw [Cursors.overflowed_eq_false, moved, filled]
    exact room
  rw [peek?_eq_getElem?, peek?_eq_getElem? ring, slot, read, slots, moved, filled]
  rw [moved] at within'
  simp only [within, within', true_and]
  by_cases here : ring.cursors.slot (ring.read + UInt8.ofNat place) = ring.cursors.slot ring.write
  · rw [here, List.getElem?_set_self bound]
    by_cases inside : place ≤ ring.cursors.filled.toNat
    · rw [if_pos (by omega), if_pos ⟨inside, rfl⟩]
    · rw [if_neg (by omega), if_neg (by omega), if_neg (by omega)]
  · have apart : ¬(place ≤ ring.cursors.filled.toNat ∧
        ring.cursors.slot (ring.read + UInt8.ofNat place) = ring.cursors.slot ring.write) :=
      fun both => here both.2
    rw [List.getElem?_set_ne (Ne.symm here), if_neg apart]
    have last : place ≠ ring.cursors.filled.toNat := by
      rintro rfl
      exact here (congrArg _ ring.read_add_filled)
    by_cases inside : place < ring.cursors.filled.toNat
    · rw [if_pos (by omega), if_pos inside]
    · rw [if_neg (by omega), if_neg inside]

theorem peek?_of_pop? {next : Ring} {word : UInt32} (popped : ring.pop? = some (word, next))
    (place : Nat) : next.peek? place = ring.peek? (place + 1) := by
  obtain ⟨oldest, shape⟩ := pop?_eq_some popped
  obtain ⟨within, nonempty⟩ := filled_of_peek? oldest
  have filled := Cursors.toNat_filled_advanceRead nonempty
  have moved : next.cursors = ring.cursors.advanceRead 1 := by rw [shape]; rfl
  have within' : (ring.cursors.advanceRead 1).overflowed = false := by
    have least := Cursors.overflowed_eq_false.mp within
    rw [Cursors.overflowed_eq_false, filled]
    exact Nat.le_trans (Nat.sub_le _ _) least
  have stand : next.read + UInt8.ofNat place = ring.read + UInt8.ofNat (place + 1) := by
    rw [shape]
    simp only [Cursors.advanceRead, cursors, UInt8.ofNat_add]
    rw [UInt8.add_assoc, UInt8.add_comm (UInt8.ofNat 1)]
  have slots : next.slots = ring.slots := by rw [shape]
  have slot : ∀ cursor, (ring.cursors.advanceRead 1).slot cursor = ring.cursors.slot cursor :=
    fun _ => rfl
  rw [peek?_eq_getElem?, peek?_eq_getElem?, moved, stand, slots, filled, slot]
  simp only [within, within', true_and]
  by_cases inside : place < ring.cursors.filled.toNat - 1
  · rw [if_pos inside, if_pos (by omega)]
  · rw [if_neg inside, if_neg (by omega)]

/-- Rings with the same cursors and the same words between them. -/
structure Alike (first second : Ring) : Prop where
  size : first.slots.size = second.slots.size
  read : first.read = second.read
  write : first.write = second.write
  peek? (place : Nat) : first.peek? place = second.peek? place

namespace Alike

variable {first second : Ring}

theorem depth (alike : first.Alike second) : first.depth = second.depth := by
  rw [Ring.depth, Ring.depth, alike.size]

theorem cursors (alike : first.Alike second) : first.cursors = second.cursors := by
  rw [Ring.cursors, Ring.cursors, alike.read, alike.write, alike.depth]

theorem room (alike : first.Alike second) : first.room = second.room := by
  rw [room_eq, room_eq, alike.size, alike.cursors]

theorem of_cleared (size : first.slots.size = second.slots.size)
    (cleared : first.read = 0 ∧ first.write = 0) (cleared' : second.read = 0 ∧ second.write = 0) :
    first.Alike second where
  size := size
  read := cleared.1.trans cleared'.1.symm
  write := cleared.2.trans cleared'.2.symm
  peek? place := by
    have nothing : ∀ ring : Ring, ring.read = 0 ∧ ring.write = 0 → ring.peek? place = none := by
      intro ring zero
      rw [peek?_eq_getElem?, if_neg]
      simp [Ring.cursors, Cursors.filled, zero.1, zero.2]
    rw [nothing first cleared, nothing second cleared']

theorem push? (alike : first.Alike second) (word : UInt32) :
    (first.push? word = none ∧ second.push? word = none) ∨
      ∃ next other, first.push? word = some next ∧ second.push? word = some other ∧
        next.Alike other := by
  by_cases full : first.room = 0
  · exact .inl ⟨push?_of_no_room full word, push?_of_no_room (alike.room ▸ full) word⟩
  · obtain ⟨next, pushed, moved, slots⟩ := push?_of_room (Nat.pos_of_ne_zero full) word
    obtain ⟨other, pushed', moved', slots'⟩ :=
      push?_of_room (Nat.pos_of_ne_zero (alike.room ▸ full)) word
    have same : next.cursors = other.cursors := by rw [moved, moved', alike.cursors]
    refine .inr ⟨next, other, pushed, pushed', ?_, congrArg Cursors.read same,
      congrArg Cursors.write same, fun place => ?_⟩
    · rw [← Array.length_toList, ← Array.length_toList, slots, slots', List.length_set,
        List.length_set, Array.length_toList, Array.length_toList, alike.size]
    · rw [peek?_of_push? pushed, peek?_of_push? pushed', alike.cursors, alike.read, alike.write,
        alike.peek?]

theorem pop? (alike : first.Alike second) :
    (first.pop? = none ∧ second.pop? = none) ∨
      ∃ word next other, first.pop? = some (word, next) ∧ second.pop? = some (word, other) ∧
        next.Alike other := by
  cases oldest : first.peek? 0 with
  | none =>
    have oldest' : second.peek? 0 = none := by rw [← alike.peek?, oldest]
    exact .inl ⟨by simp only [Ring.pop?, oldest], by simp only [Ring.pop?, oldest']⟩
  | some word =>
    have oldest' : second.peek? 0 = some word := by rw [← alike.peek?, oldest]
    have popped : first.pop? =
        some (word, { first with read := (first.cursors.advanceRead 1).read }) := by
      simp only [Ring.pop?, oldest]
    have popped' : second.pop? =
        some (word, { second with read := (second.cursors.advanceRead 1).read }) := by
      simp only [Ring.pop?, oldest']
    refine .inr ⟨word, _, _, popped, popped', alike.size, ?_, alike.write, fun place => ?_⟩
    · simp only [alike.cursors]
    · rw [peek?_of_pop? popped, peek?_of_pop? popped', alike.peek?]

theorem popMany (alike : first.Alike second) (count : Nat) :
    ∃ words next other, Ring.popMany count first = (words, next) ∧
      Ring.popMany count second = (words, other) ∧ next.Alike other := by
  induction count generalizing first second with
  | zero => exact ⟨[], first, second, rfl, rfl, alike⟩
  | succ count ih =>
    obtain ⟨empty, empty'⟩ | ⟨word, next, other, popped, popped', alike'⟩ := alike.pop?
    · obtain ⟨words, last, last', rest, rest', alike'⟩ := ih alike
      exact ⟨0 :: words, last, last', by simp only [Ring.popMany, empty, rest],
        by simp only [Ring.popMany, empty', rest'], alike'⟩
    · obtain ⟨words, last, last', rest, rest', alike''⟩ := ih alike'
      exact ⟨word :: words, last, last', by simp only [Ring.popMany, popped, rest],
        by simp only [Ring.popMany, popped', rest'], alike''⟩

theorem pushAll (alike : first.Alike second) (words : List UInt32) :
    (first.pushAll words).Alike (second.pushAll words) := by
  induction words generalizing first second with
  | nil => exact alike
  | cons word rest ih =>
    simp only [Ring.pushAll, List.foldl_cons]
    refine ih ?_
    obtain ⟨full, full'⟩ | ⟨next, other, pushed, pushed', alike'⟩ := alike.push? word
    · rwa [full, full']
    · rwa [pushed, pushed']

theorem placeFrames (alike : first.Alike second) (frames : List (List UInt32)) :
    ∃ left next other placed, Controller.placeFrames frames first = (left, next, placed) ∧
      Controller.placeFrames frames second = (left, other, placed) ∧ next.Alike other := by
  induction frames generalizing first second with
  | nil => exact ⟨[], first, second, false, rfl, rfl, alike⟩
  | cons frame rest ih =>
    unfold Controller.placeFrames
    rw [alike.room]
    by_cases fits : frame.length ≤ second.room
    · obtain ⟨left, next, other, placed, places, places', alike'⟩ := ih (alike.pushAll frame)
      refine ⟨left, next, other, true, ?_, ?_, alike'⟩
      · rw [if_pos fits, places]
      · rw [if_pos fits, places']
    · exact ⟨frame :: rest, first, second, false, if_neg fits, if_neg fits, alike⟩

theorem takeFrame? (alike : first.Alike second) :
    (Controller.takeFrame? first = none ∧ Controller.takeFrame? second = none) ∨
      ∃ header payload next other,
        Controller.takeFrame? first = some (header, payload, next) ∧
        Controller.takeFrame? second = some (header, payload, other) ∧ next.Alike other := by
  unfold Controller.takeFrame?
  rw [alike.peek?, alike.cursors]
  cases second.peek? 0 with
  | none => exact .inl ⟨rfl, rfl⟩
  | some raw =>
    by_cases short : second.cursors.filled.toNat < (Frame.Header.mk raw).words + 1
    · exact .inl ⟨if_pos short, if_pos short⟩
    · obtain ⟨words, next, other, popped, popped', alike'⟩ :=
        alike.popMany ((Frame.Header.mk raw).words + 1)
      refine .inr ⟨⟨raw⟩, (Bytes.unpack words.tail).take (Frame.Header.mk raw).length, next, other,
        ?_, ?_, alike'⟩
      · simp only [if_neg short, popped]
      · simp only [if_neg short, popped']

end Alike

end Ring

/-! ### Flags -/

theorem taken_and (held value : UInt32) {mask : UInt32} (apart : Csr.statusBit &&& mask = 0) :
    (held &&& Csr.statusBit ||| value &&& controlBits) &&& mask =
      value &&& (controlBits &&& mask) := by
  have quiet : Csr.Quiet mask (held &&& Csr.statusBit) := by
    rw [UInt32.and_comm]
    exact Csr.Quiet.and apart held
  rw [UInt32.or_comm, quiet.or_and, UInt32.and_assoc]

theorem quiet_taken (held value : UInt32) :
    Csr.Quiet Csr.generateBit (held &&& Csr.statusBit ||| value &&& controlBits) := by
  rw [Csr.Quiet, taken_and held value (by decide)]
  exact UInt32.and_zero

theorem flagsAlike_taken {value value' : UInt32}
    (same : value &&& Csr.liveBits = value' &&& Csr.liveBits) (held held' : UInt32) :
    Csr.FlagsAlike (held &&& Csr.statusBit ||| value &&& controlBits)
      (held' &&& Csr.statusBit ||| value' &&& controlBits) where
  live := by
    rw [taken_and _ _ (by decide), taken_and _ _ (by decide)]
    exact Csr.and_eq_of_and_eq _ same (by decide)
  quiet := quiet_taken held value

/-! ### Controllers -/

/-- Controllers that answer alike from now on; the first has received `earlier` before. -/
structure Alike (earlier : List Message) (first second : Controller) : Prop where
  present : first.present = true
  present' : second.present = true
  hostRing : first.hostRing.Alike second.hostRing
  ownRing : first.ownRing.Alike second.ownRing
  hostFlags : Csr.FlagsAlike first.hostFlags second.hostFlags
  ownFlags : Csr.FlagsAlike first.ownFlags second.ownFlags
  autoConsume : first.autoConsume = second.autoConsume
  responses : first.responses = second.responses
  pending : first.pending = second.pending
  assembly : first.assembly = second.assembly
  received : first.received = earlier ++ second.received

theorem statusWord_and (flags : UInt32) (ring : Ring) {mask : UInt32} (low : mask.toNat < 0x100) :
    statusWord flags ring &&& mask = flags &&& mask :=
  Csr.compose_and flags _ _ _ low

theorem quiet_statusWord {flags : UInt32} (quiet : Csr.Quiet Csr.generateBit flags) (ring : Ring) :
    Csr.Quiet Csr.generateBit (statusWord flags ring) :=
  (statusWord_and flags ring (by decide)).trans quiet

theorem alike_statusWord {flags flags' : UInt32} {ring ring' : Ring}
    (alike : Csr.FlagsAlike flags flags') (rings : ring.Alike ring') :
    (Csr.mk (statusWord flags ring)).Alike ⟨statusWord flags' ring'⟩ where
  absent := by
    rw [Csr.present_of_quiet (quiet_statusWord alike.quiet ring) (by decide),
      Csr.present_of_quiet (quiet_statusWord alike.quiet' ring') (by decide)]
  live := by rw [statusWord_and _ _ (by decide), statusWord_and _ _ (by decide), alike.live]
  cursors := by
    have shown : ∀ flags ring, Cursors.ofCsr ⟨statusWord flags ring⟩ = ring.cursors :=
      fun flags ring => Cursors.ofCsr_compose flags _ _ _
    rw [shown, shown, rings.cursors]

theorem writeStatus_of_present {controller : Controller} (present : controller.present = true)
    (value : UInt32) :
    controller.writeRegister Register.hostCsr value = controller.writeHostCsr value := by
  unfold writeRegister
  rw [present]
  rfl

namespace Alike

variable {earlier : List Message} {first second : Controller}

theorem hostStatus (alike : Alike earlier first second) :
    (Csr.mk first.hostStatus).Alike ⟨second.hostStatus⟩ := by
  rw [Controller.hostStatus, Controller.hostStatus, alike.present, alike.present', if_pos rfl,
    if_pos rfl]
  exact alike_statusWord alike.hostFlags alike.hostRing

theorem ownStatus (alike : Alike earlier first second) :
    (Csr.mk first.ownStatus).Alike ⟨second.ownStatus⟩ := by
  rw [Controller.ownStatus, Controller.ownStatus, alike.present, alike.present', if_pos rfl,
    if_pos rfl]
  exact alike_statusWord alike.ownFlags alike.ownRing

theorem fill (alike : Alike earlier first second) : Alike earlier first.fill second.fill := by
  obtain ⟨left, next, other, placed, places, places', rings⟩ :=
    alike.ownRing.placeFrames second.pending
  unfold Controller.fill
  rw [alike.pending, places, places']
  exact { alike with
    ownRing := rings
    pending := rfl
    hostFlags := by
      dsimp only
      split
      · exact alike.hostFlags.or (by decide)
      · exact alike.hostFlags }

theorem enqueue (alike : Alike earlier first second) (message : Message) (client host : UInt8) :
    Alike earlier (first.enqueue message client host) (second.enqueue message client host) := by
  have joined : Alike earlier
      { first with
        pending := first.pending ++ framesOf first.ownRing.slots.size message client host }
      { second with
        pending := second.pending ++ framesOf second.ownRing.slots.size message client host } :=
    { alike with pending := by rw [alike.pending, alike.ownRing.size] }
  exact joined.fill

theorem accept (alike : Alike earlier first second) (header : Frame.Header)
    (payload : List UInt8) :
    Alike earlier (first.accept header payload) (second.accept header payload) := by
  unfold Controller.accept
  rw [alike.responses, alike.assembly]
  split
  · have complete : ∀ responses, Alike earlier
        { first with
          assembly := []
          frameLog := first.frameLog ++ [header]
          received := first.received ++ [.ofBytes (second.assembly ++ payload)]
          responses }
        { second with
          assembly := []
          frameLog := second.frameLog ++ [header]
          received := second.received ++ [.ofBytes (second.assembly ++ payload)]
          responses } := fun responses =>
      { alike with
        assembly := rfl
        responses := rfl
        received := by rw [alike.received, List.append_assoc] }
    cases waiting : second.responses with
    | nil => simpa [alike.responses, waiting] using complete []
    | cons response responses => exact (complete responses).enqueue response _ _
  · exact { alike with
      assembly := rfl
      responses := rfl }

theorem takeFrames (alike : Alike earlier first second) (count : Nat) :
    Alike earlier (Controller.takeFrames count first) (Controller.takeFrames count second) := by
  induction count generalizing first second with
  | zero => exact alike
  | succ count ih =>
    unfold Controller.takeFrames
    obtain ⟨missing, missing'⟩ | ⟨header, payload, next, other, taken, taken', rings⟩ :=
      alike.hostRing.takeFrame?
    · rwa [missing, missing']
    · rw [taken, taken']
      have moved :
          Alike earlier { first with hostRing := next } { second with hostRing := other } :=
        { alike with hostRing := rings }
      exact ih (moved.accept header payload)

theorem consume (alike : Alike earlier first second) :
    Alike earlier first.consume second.consume := by
  unfold Controller.consume
  rw [alike.hostRing.cursors]
  have taken := alike.takeFrames second.hostRing.cursors.filled.toNat
  exact { taken with ownFlags := taken.ownFlags.or (by decide) }

theorem ringDoorbell (alike : Alike earlier first second) (inReset : Bool) :
    Alike earlier (first.ringDoorbell inReset) (second.ringDoorbell inReset) := by
  -- What follows once the doorbell has been counted.
  have answered : ∀ one two : Controller, Alike earlier one two →
      Alike earlier
        (if inReset then one
          else if one.ownFlags &&& Csr.readyBit == 0 then
            { one with ownFlags := one.ownFlags ||| Csr.readyBit }
          else if one.autoConsume then one.consume.fill else one.fill)
        (if inReset then two
          else if two.ownFlags &&& Csr.readyBit == 0 then
            { two with ownFlags := two.ownFlags ||| Csr.readyBit }
          else if two.autoConsume then two.consume.fill else two.fill) := by
    intro one two alike
    rw [Csr.and_eq_of_and_eq Csr.readyBit alike.ownFlags.live (by decide)]
    split
    · exact alike
    split
    · exact { alike with ownFlags := alike.ownFlags.or (by decide) }
    rw [alike.autoConsume]
    split
    · exact alike.consume.fill
    · exact alike.fill
  exact answered { first with doorbells := first.doorbells + 1 }
    { second with doorbells := second.doorbells + 1 } { alike with }

/-- Values that agree on the live bits have the same effect, except on the interrupt flags. -/
theorem writeFlags (alike : Alike earlier first second) {value value' : UInt32}
    (same : value &&& Csr.liveBits = value' &&& Csr.liveBits) :
    Alike earlier (first.writeFlags value) (second.writeFlags value') := by
  have asked := Csr.and_eq_of_and_eq Csr.resetBit same (by decide)
  -- Clearing the interrupt status does not touch the reset bit.
  have held : ∀ flags value : UInt32,
      (if value &&& Csr.statusBit != 0 then flags &&& ~~~Csr.statusBit else flags) &&&
        Csr.resetBit = flags &&& Csr.resetBit := by
    intro flags value
    split
    · rw [UInt32.and_assoc, show ~~~Csr.statusBit &&& Csr.resetBit = Csr.resetBit by decide]
    · rfl
  have was := Csr.and_eq_of_and_eq Csr.resetBit alike.hostFlags.live (by decide)
  unfold Controller.writeFlags
  dsimp only
  rw [held, held, asked, was]
  split
  · exact { alike with
      hostRing := .of_cleared alike.hostRing.size ⟨rfl, rfl⟩ ⟨rfl, rfl⟩
      ownRing := .of_cleared alike.ownRing.size ⟨rfl, rfl⟩ ⟨rfl, rfl⟩
      pending := rfl
      assembly := rfl
      hostFlags := (flagsAlike_taken same _ _).and _
      ownFlags := alike.ownFlags.and _ }
  · exact { alike with hostFlags := flagsAlike_taken same _ _ }

theorem writeHostCsr (alike : Alike earlier first second) {value value' : UInt32}
    (same : value &&& Csr.liveBits = value' &&& Csr.liveBits) :
    Alike earlier (first.writeHostCsr value) (second.writeHostCsr value') := by
  unfold Controller.writeHostCsr
  dsimp only
  rw [Csr.and_eq_of_and_eq Csr.generateBit same (by decide),
    Csr.and_eq_of_and_eq Csr.resetBit same (by decide)]
  split
  · exact alike.writeFlags same
  · exact (alike.writeFlags same).ringDoorbell _

/-! ### Accesses -/

theorem takeWord (alike : Alike earlier first second) :
    ∃ word next other, first.readRegister Register.controllerWindow = (word, next) ∧
      second.readRegister Register.controllerWindow = (word, other) ∧ Alike earlier next other := by
  have apart : Register.controllerWindow ≠ Register.hostCsr ∧
      Register.controllerWindow ≠ Register.controllerCsr := by decide
  obtain ⟨empty, empty'⟩ | ⟨word, next, other, popped, popped', rings⟩ := alike.ownRing.pop?
  · refine ⟨0, first, second, ?_, ?_, alike⟩
    · simp [Controller.readRegister, alike.present, apart, empty]
    · simp [Controller.readRegister, alike.present', apart, empty']
  · exact ⟨word, _, _, readWindow_of_pop? alike.present popped,
      readWindow_of_pop? alike.present' popped', { alike with ownRing := rings }⟩

theorem putWord (alike : Alike earlier first second) (word : UInt32) :
    Alike earlier (first.writeRegister Register.hostWindow word)
      (second.writeRegister Register.hostWindow word) := by
  obtain ⟨full, full'⟩ | ⟨next, other, pushed, pushed', rings⟩ := alike.hostRing.push? word
  · have dropped : first.writeRegister Register.hostWindow word =
        { first with dropped := first.dropped + 1 } := by
      simp [Controller.writeRegister, alike.present, full]
    have dropped' : second.writeRegister Register.hostWindow word =
        { second with dropped := second.dropped + 1 } := by
      simp [Controller.writeRegister, alike.present', full']
    rw [dropped, dropped']
    exact { alike with }
  · have stored : first.writeRegister Register.hostWindow word =
        { first with hostRing := next } := by
      simp [Controller.writeRegister, alike.present, pushed]
    have stored' : second.writeRegister Register.hostWindow word =
        { second with hostRing := other } := by
      simp [Controller.writeRegister, alike.present', pushed']
    rw [stored, stored']
    exact { alike with hostRing := rings }

theorem putStatus (alike : Alike earlier first second) {value value' : UInt32}
    (same : value &&& Csr.liveBits = value' &&& Csr.liveBits) :
    Alike earlier (first.writeRegister Register.hostCsr value)
      (second.writeRegister Register.hostCsr value') := by
  rw [writeStatus_of_present alike.present, writeStatus_of_present alike.present']
  exact alike.writeHostCsr same

end Alike

end Controller

end HeciMailbox
