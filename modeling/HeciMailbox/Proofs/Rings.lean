import HeciMailbox.Controller.Basic

/-! The room in a simulated ring, and what a status word shows of it. -/

set_option autoImplicit false

namespace HeciMailbox

/-! ### Status words -/

namespace Csr

theorem toNat_compose (flags : UInt32) (read write depth : UInt8) :
    (compose flags read write depth).raw.toNat =
      depth.toNat * 0x1000000 + write.toNat * 0x10000 + read.toNat * 0x100 +
        flags.toNat % 0x100 := by
  have hr := read.toNat_lt
  have hw := write.toNat_lt
  have hd := depth.toNat_lt
  have low : (flags &&& (0xFF : UInt32)).toNat = flags.toNat % 0x100 := by
    rw [UInt32.toNat_and, show (0xFF : UInt32).toNat = 2 ^ 8 - 1 from rfl,
      Nat.and_two_pow_sub_one_eq_mod]
  have first : read.toNat <<< ((8 : UInt32).toNat % 32) % 2 ^ 32 = read.toNat <<< 8 := by
    rw [show (8 : UInt32).toNat % 32 = 8 from rfl, Nat.shiftLeft_eq]; omega
  have second : write.toNat <<< ((16 : UInt32).toNat % 32) % 2 ^ 32 = write.toNat <<< 16 := by
    rw [show (16 : UInt32).toNat % 32 = 16 from rfl, Nat.shiftLeft_eq]; omega
  have third : depth.toNat <<< ((24 : UInt32).toNat % 32) % 2 ^ 32 = depth.toNat <<< 24 := by
    rw [show (24 : UInt32).toNat % 32 = 24 from rfl, Nat.shiftLeft_eq]; omega
  -- Disjoint bytes: each `or` is a sum.
  have two : flags.toNat % 0x100 ||| read.toNat <<< 8 =
      read.toNat <<< 8 + flags.toNat % 0x100 := by
    rw [Nat.or_comm]; exact (Nat.shiftLeft_add_eq_or_of_lt (Nat.mod_lt _ (by decide)) _).symm
  have three : read.toNat <<< 8 + flags.toNat % 0x100 ||| write.toNat <<< 16 =
      write.toNat <<< 16 + (read.toNat <<< 8 + flags.toNat % 0x100) := by
    rw [Nat.or_comm]
    exact (Nat.shiftLeft_add_eq_or_of_lt (by rw [Nat.shiftLeft_eq]; omega) _).symm
  simp only [compose, UInt32.toNat_or, UInt32.toNat_shiftLeft, UInt8.toNat_toUInt32, low, first,
    second, third, two, three]
  rw [Nat.or_comm, ← Nat.shiftLeft_add_eq_or_of_lt (by simp only [Nat.shiftLeft_eq]; omega)]
  simp only [Nat.shiftLeft_eq]
  omega

end Csr

theorem Cursors.ofCsr_compose (flags : UInt32) (read write depth : UInt8) :
    ofCsr (.compose flags read write depth) = ⟨read, write, depth⟩ := by
  have hr := read.toNat_lt
  have hw := write.toNat_lt
  have hd := depth.toNat_lt
  have readCursor : (Csr.compose flags read write depth).readCursor = read := by
    apply UInt8.toNat_inj.mp
    rw [Csr.readCursor, UInt32.toNat_toUInt8, UInt32.toNat_shiftRight, Csr.toNat_compose,
      show (8 : UInt32).toNat % 32 = 8 from rfl, Nat.shiftRight_eq_div_pow]
    omega
  have writeCursor : (Csr.compose flags read write depth).writeCursor = write := by
    apply UInt8.toNat_inj.mp
    rw [Csr.writeCursor, UInt32.toNat_toUInt8, UInt32.toNat_shiftRight, Csr.toNat_compose,
      show (16 : UInt32).toNat % 32 = 16 from rfl, Nat.shiftRight_eq_div_pow]
    omega
  have slots : (Csr.compose flags read write depth).depth = depth := by
    apply UInt8.toNat_inj.mp
    rw [Csr.depth, UInt32.toNat_toUInt8, UInt32.toNat_shiftRight, Csr.toNat_compose,
      show (24 : UInt32).toNat % 32 = 24 from rfl, Nat.shiftRight_eq_div_pow]
    omega
  rw [ofCsr, readCursor, writeCursor, slots]

namespace Cursors

variable {cursors : Cursors}

theorem overflowed_eq_false :
    cursors.overflowed = false ↔ cursors.filled.toNat ≤ cursors.depth.toNat := by
  simp [overflowed, UInt8.le_iff_toNat_le]

theorem overflowed_eq_true :
    cursors.overflowed = true ↔ cursors.depth.toNat < cursors.filled.toNat := by
  simp [overflowed, UInt8.lt_iff_toNat_lt]

/-- One more word written, in a ring that has room for it. -/
theorem toNat_filled_advanceWrite (room : cursors.filled.toNat < cursors.depth.toNat) :
    (cursors.advanceWrite 1).filled.toNat = cursors.filled.toNat + 1 := by
  have bound := cursors.depth.toNat_lt
  have hr := cursors.read.toNat_lt
  have hw := cursors.write.toNat_lt
  simp only [advanceWrite, filled, UInt8.toNat_sub, UInt8.toNat_add, UInt8.toNat_ofNat'] at *
  omega

/-- One word fewer, in a ring that holds one. -/
theorem toNat_filled_advanceRead (nonempty : 0 < cursors.filled.toNat) :
    (cursors.advanceRead 1).filled.toNat = cursors.filled.toNat - 1 := by
  have hr := cursors.read.toNat_lt
  have hw := cursors.write.toNat_lt
  simp only [advanceRead, filled, UInt8.toNat_sub, UInt8.toNat_add, UInt8.toNat_ofNat'] at *
  omega

theorem checkRoom_eq_ok {words : Nat} :
    cursors.checkRoom words = .ok () ↔ cursors.filled.toNat + words ≤ cursors.depth.toNat := by
  unfold checkRoom free?
  cases spilt : cursors.overflowed with
  | true =>
    have beyond := overflowed_eq_true.mp spilt
    simp only [if_true, reduceCtorEq, false_iff]
    omega
  | false =>
    have within := overflowed_eq_false.mp spilt
    simp only [Bool.false_eq_true, if_false]
    rw [UInt8.toNat_sub_of_le _ _ (UInt8.le_iff_toNat_le.mpr within)]
    split
    · simp; omega
    · simp; omega

theorem checkRoom_eq_error {words : Nat}
    (full : cursors.depth.toNat < cursors.filled.toNat + words) :
    cursors.checkRoom words = .error (cursors.overflowFault words) := by
  have refused : cursors.checkRoom words ≠ .ok () := fun room => by
    have := checkRoom_eq_ok.mp room
    omega
  unfold checkRoom at refused ⊢
  split at refused
  · split at refused
    · exact absurd rfl refused
    · next crowded => simp only [*, if_false]
  · simp only [*]

end Cursors

namespace Controller

namespace Ring

variable {ring next : Ring}

theorem toNat_cursors_depth (ring : Ring) : ring.cursors.depth.toNat = ring.slots.size :=
  ring.toNat_depth

theorem room_eq : ring.room = ring.slots.size - ring.cursors.filled.toNat := by
  rw [← toNat_cursors_depth]
  unfold room Cursors.free?
  cases spilt : ring.cursors.overflowed with
  | true =>
    have beyond := Cursors.overflowed_eq_true.mp spilt
    simp only [if_true]
    exact (Nat.sub_eq_zero_of_le (Nat.le_of_lt beyond)).symm
  | false =>
    have within := Cursors.overflowed_eq_false.mp spilt
    simp only [Bool.false_eq_true, if_false]
    exact UInt8.toNat_sub_of_le _ _ (UInt8.le_iff_toNat_le.mpr within)

theorem filled_lt_of_room (roomy : 0 < ring.room) :
    ring.cursors.filled.toNat < ring.cursors.depth.toNat := by
  rw [room_eq, ← toNat_cursors_depth] at roomy
  omega

theorem push?_of_no_room (full : ring.room = 0) (word : UInt32) : ring.push? word = none := by
  unfold push?
  split
  · rfl
  · next room =>
    have fits := Cursors.checkRoom_eq_ok.mp room
    rw [room_eq, ← toNat_cursors_depth] at full
    omega

/-- A word goes wherever there is room into the slot of the write cursor, which moves on. -/
theorem push?_of_room (roomy : 0 < ring.room) (word : UInt32) :
    ∃ next, ring.push? word = some next ∧ next.cursors = ring.cursors.advanceWrite 1 ∧
      next.slots.toList = ring.slots.toList.set (ring.cursors.slot ring.write) word := by
  have room : ring.cursors.checkRoom 1 = .ok () :=
    Cursors.checkRoom_eq_ok.mpr (filled_lt_of_room roomy)
  unfold push?
  split
  · next refused => simp [room] at refused
  · exact ⟨_, rfl, by simp [cursors, Cursors.advanceWrite, depth], by simp⟩

theorem room_of_push? (roomy : 0 < ring.room) (word : UInt32) :
    ∃ next, ring.push? word = some next ∧ ring.room = next.room + 1 := by
  obtain ⟨next, pushed, cursors, slots⟩ := push?_of_room roomy word
  have filled := Cursors.toNat_filled_advanceWrite (filled_lt_of_room roomy)
  have size : next.slots.size = ring.slots.size := by
    rw [← Array.length_toList, slots, List.length_set, Array.length_toList]
  refine ⟨next, pushed, ?_⟩
  rw [room_eq] at roomy ⊢
  rw [room_eq, cursors, filled, size]
  omega

theorem pop?_eq_some {word : UInt32} (popped : ring.pop? = some (word, next)) :
    ring.peek? 0 = some word ∧ next = { ring with read := (ring.cursors.advanceRead 1).read } := by
  unfold pop? at popped
  split at popped
  · next oldest =>
    cases popped
    exact ⟨oldest, rfl⟩
  · cases popped

theorem filled_of_peek? {offset : Nat} {word : UInt32} (seen : ring.peek? offset = some word) :
    ring.cursors.overflowed = false ∧ offset < ring.cursors.filled.toNat := by
  unfold peek? at seen
  split at seen
  · next present => exact present
  · cases seen

theorem room_le_of_pop? {word : UInt32} (popped : ring.pop? = some (word, next)) :
    ring.room ≤ next.room := by
  obtain ⟨oldest, rfl⟩ := pop?_eq_some popped
  obtain ⟨-, nonempty⟩ := filled_of_peek? oldest
  have filled := Cursors.toNat_filled_advanceRead nonempty
  have moved :
      (Ring.mk ring.slots (ring.cursors.advanceRead 1).read ring.write ring.size_lt).cursors =
        ring.cursors.advanceRead 1 := rfl
  rw [room_eq, room_eq, moved, filled]
  simp only
  omega

theorem room_le_popMany (count : Nat) : ring.room ≤ (popMany count ring).2.room := by
  induction count generalizing ring with
  | zero => exact Nat.le_refl _
  | succ count ih =>
    unfold popMany
    cases popped : ring.pop? with
    | none => exact ih
    | some first => exact Nat.le_trans (room_le_of_pop? popped) ih

theorem room_le_reset : ring.room ≤ ring.reset.room := by
  have empty : ring.reset.cursors.filled = 0 := by simp [reset, cursors, Cursors.filled]
  rw [room_eq, room_eq, empty]
  exact Nat.sub_le _ _

/-! ### Sizes -/

theorem size_of_push? {word : UInt32} (pushed : ring.push? word = some next) :
    next.slots.size = ring.slots.size := by
  unfold push? at pushed
  split at pushed
  · cases pushed
  · cases pushed
    simp

theorem size_pop? {word : UInt32} (popped : ring.pop? = some (word, next)) :
    next.slots.size = ring.slots.size := by
  rw [(pop?_eq_some popped).2]

theorem size_popMany (count : Nat) (ring : Ring) :
    (popMany count ring).2.slots.size = ring.slots.size := by
  induction count generalizing ring with
  | zero => rfl
  | succ count ih =>
    unfold popMany
    split
    · next popped => exact (ih _).trans (size_pop? popped)
    · exact ih _

theorem size_pushAll (words : List UInt32) (ring : Ring) :
    (ring.pushAll words).slots.size = ring.slots.size := by
  induction words generalizing ring with
  | nil => rfl
  | cons word rest ih =>
    simp only [pushAll, List.foldl_cons]
    refine (ih _).trans ?_
    cases pushed : ring.push? word with
    | none => rfl
    | some next => exact size_of_push? pushed

theorem size_pushWhile (words : List UInt32) (ring : Ring) :
    (ring.pushWhile words).slots.size = ring.slots.size := by
  induction words generalizing ring with
  | nil => rfl
  | cons word rest ih =>
    unfold pushWhile
    split
    · next pushed => exact (ih _).trans (size_of_push? pushed)
    · rfl

end Ring

/-! ### Status registers -/

theorem readRegister_hostCsr (controller : Controller) :
    controller.readRegister Register.hostCsr = (controller.hostStatus, controller) := by
  unfold Controller.readRegister
  split
  · next gone => simp [hostStatus, show controller.present = false by simpa using gone]
  · rfl

theorem readRegister_controllerCsr (controller : Controller) :
    controller.readRegister Register.controllerCsr = (controller.ownStatus, controller) := by
  unfold Controller.readRegister
  split
  · next gone => simp [ownStatus, show controller.present = false by simpa using gone]
  · rfl

theorem readWindow_of_pop? {controller : Controller} {word : UInt32} {ownRing : Ring}
    (present : controller.present = true)
    (popped : controller.ownRing.pop? = some (word, ownRing)) :
    controller.readRegister Register.controllerWindow = (word, { controller with ownRing }) := by
  have apart : Register.controllerWindow ≠ Register.hostCsr ∧
      Register.controllerWindow ≠ Register.controllerCsr := by decide
  simp only [Controller.readRegister, present, Bool.not_true, Bool.false_eq_true, if_false, if_true,
    apart, popped]

end Controller

end HeciMailbox
