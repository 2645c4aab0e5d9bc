import HeciMailbox.Proofs.Budgets
import HeciMailbox.Proofs.Steering

/-! How much a simulated controller can still give the host.

The words in its ring, those of the frames that wait for room and those of the responses that are
prepared: a doorbell moves them from the last of these to the first, but makes no new ones. So
whatever state the controller is in, no register access adds to their number, and each frame that is
read takes at least one of them away. -/

set_option autoImplicit false

namespace HeciMailbox

namespace Controller

/-! ### Rings -/

namespace Ring

variable {ring next : Ring}

theorem filled_push?_le {word : UInt32} (pushed : ring.push? word = some next) :
    next.cursors.filled.toNat ≤ ring.cursors.filled.toNat + 1 := by
  unfold push? at pushed
  split at pushed
  · cases pushed
  · cases pushed
    simp only [cursors, Cursors.filled, Cursors.advanceWrite, UInt8.toNat_sub, UInt8.toNat_add,
      UInt8.toNat_ofNat']
    omega

theorem filled_pushAll_le (words : List UInt32) (ring : Ring) :
    (ring.pushAll words).cursors.filled.toNat ≤ ring.cursors.filled.toNat + words.length := by
  induction words generalizing ring with
  | nil => exact Nat.le_refl _
  | cons word rest ih =>
    have others := ih ((ring.push? word).getD ring)
    have first : ((ring.push? word).getD ring).cursors.filled.toNat ≤
        ring.cursors.filled.toNat + 1 := by
      cases pushed : ring.push? word with
      | none => exact Nat.le_succ _
      | some next => exact filled_push?_le pushed
    rw [List.length_cons]
    exact Nat.le_trans others (by omega)

theorem filled_of_pop? {word : UInt32} (popped : ring.pop? = some (word, next)) :
    ring.cursors.filled.toNat = next.cursors.filled.toNat + 1 := by
  obtain ⟨oldest, rfl⟩ := pop?_eq_some popped
  obtain ⟨-, nonempty⟩ := filled_of_peek? oldest
  have fewer := Cursors.toNat_filled_advanceRead nonempty
  have moved :
      (Ring.mk ring.slots (ring.cursors.advanceRead 1).read ring.write ring.size_lt).cursors =
        ring.cursors.advanceRead 1 := rfl
  rw [moved, fewer]
  omega

theorem filled_popMany_le (count : Nat) (ring : Ring) :
    (popMany count ring).2.cursors.filled.toNat ≤ ring.cursors.filled.toNat := by
  induction count generalizing ring with
  | zero => exact Nat.le_refl _
  | succ count ih =>
    unfold popMany
    split
    · next popped => exact Nat.le_trans (ih _) (by rw [filled_of_pop? popped]; omega)
    · exact ih _

theorem pop?_of_filled (within : ring.cursors.overflowed = false)
    (nonempty : 0 < ring.cursors.filled.toNat) : ∃ word next, ring.pop? = some (word, next) := by
  unfold pop? peek?
  rw [dif_pos ⟨within, nonempty⟩]
  exact ⟨_, _, rfl⟩

end Ring

/-! ### The peer's own loop -/

theorem filled_of_takeFrame? {ring next : Ring} {header : Frame.Header} {payload : List UInt8}
    (taken : takeFrame? ring = some (header, payload, next)) :
    next.cursors.filled.toNat < ring.cursors.filled.toNat := by
  unfold takeFrame? at taken
  split at taken
  · cases taken
  · next seen =>
    dsimp only at taken
    split at taken
    · cases taken
    · cases taken
      obtain ⟨within, nonempty⟩ := Ring.filled_of_peek? seen
      obtain ⟨word, rest, popped⟩ := Ring.pop?_of_filled within nonempty
      simp only [Ring.popMany, popped]
      exact Nat.lt_of_le_of_lt (Ring.filled_popMany_le _ rest)
        (by rw [Ring.filled_of_pop? popped]; omega)

/-- After as many frames as the host ring shows words, no whole frame is left in it. -/
theorem takeFrame?_takeFrames {count : Nat} {controller : Controller}
    (enough : controller.hostRing.cursors.filled.toNat ≤ count) :
    takeFrame? (controller.takeFrames count).hostRing = none := by
  induction count generalizing controller with
  | zero =>
    have empty : controller.hostRing.peek? 0 = none := by
      unfold Ring.peek?
      exact dif_neg fun seen => by omega
    simp only [takeFrames, takeFrame?, empty]
  | succ count ih =>
    unfold takeFrames
    split
    · next missing => exact missing
    · next taken =>
      refine ih ?_
      rw [hostRing_accept]
      have fewer := filled_of_takeFrame? taken
      exact Nat.le_of_lt_succ (Nat.lt_of_lt_of_le fewer enough)

/-! ### Frames of a response -/

theorem length_framesOfChunks (client host : UInt8) (chunks : List (List UInt8)) :
    (framesOfChunks client host chunks).flatten.length =
      (framesOfChunks 0 0 chunks).flatten.length := by
  fun_induction framesOfChunks 0 0 chunks with
  | case1 => rfl
  | case2 chunk => rfl
  | case3 chunk rest nonempty ih =>
    rw [framesOfChunks, List.flatten_cons, List.length_append, ih, List.flatten_cons,
      List.length_append]
    · rfl
    · exact nonempty

/-- Words that the host may still be given: those on their way to it, and those in the frames of the
responses that are prepared. -/
def load (controller : Controller) : Nat :=
  controller.wordsToHost +
    (controller.responses.flatMap fun response =>
      (framesOf controller.ownRing.slots.size response 0 0).flatten).length

/-! ### What every act of the controller keeps to -/

/-- The controller has the same ring and no more for the host than before, and has counted at most
`events` more doorbells and lost words. -/
structure Subsides (events : Nat) (before after : Controller) : Prop where
  size : after.ownRing.slots.size = before.ownRing.slots.size
  load : after.load ≤ before.load
  counted : after.doorbells + after.dropped ≤ before.doorbells + before.dropped + events

namespace Subsides

variable {first second third : Controller} {events more : Nat}

theorem of_same (ownRing : second.ownRing = first.ownRing)
    (pending : second.pending = first.pending) (responses : second.responses = first.responses)
    (counted : second.doorbells + second.dropped ≤ first.doorbells + first.dropped + events) :
    Subsides events first second where
  size := by rw [ownRing]
  load := by simp only [Controller.load, wordsToHost, ownRing, pending, responses, Nat.le_refl]
  counted := counted

theorem refl (controller : Controller) : Subsides 0 controller controller :=
  of_same rfl rfl rfl (Nat.le_refl _)

theorem trans (earlier : Subsides events first second) (later : Subsides more second third) :
    Subsides (events + more) first third where
  size := later.size.trans earlier.size
  load := Nat.le_trans later.load earlier.load
  counted := by
    have bound := earlier.counted
    exact Nat.le_trans later.counted (by omega)

end Subsides

theorem placeFrames_le (frames : List (List UInt32)) (ring : Ring) :
    (placeFrames frames ring).2.1.cursors.filled.toNat +
        (placeFrames frames ring).1.flatten.length ≤
      ring.cursors.filled.toNat + frames.flatten.length := by
  induction frames generalizing ring with
  | nil => exact Nat.le_refl _
  | cons frame rest ih =>
    unfold placeFrames
    split
    · have others := ih (ring.pushAll frame)
      have first := Ring.filled_pushAll_le frame ring
      rw [List.flatten_cons, List.length_append]
      exact Nat.le_trans others (by omega)
    · exact Nat.le_refl _

namespace Subsides

theorem fill (controller : Controller) : Subsides 0 controller controller.fill where
  size := size_placeFrames _ _
  load := by
    have moved := placeFrames_le controller.pending controller.ownRing
    have size : controller.fill.ownRing.slots.size = controller.ownRing.slots.size :=
      size_placeFrames _ _
    unfold Controller.load
    rw [size]
    exact Nat.add_le_add_right moved _
  counted := Nat.le_refl _

theorem enqueue {controller : Controller} {response : Message} {responses : List Message}
    (prepared : controller.responses = response :: responses) (client host : UInt8) :
    Subsides 0 controller
      (Controller.enqueue { controller with responses } response client host) := by
  have words : (framesOf controller.ownRing.slots.size response client host).flatten.length =
      (framesOf controller.ownRing.slots.size response 0 0).flatten.length :=
    length_framesOfChunks client host _
  have moved : Subsides 0 controller
      { controller with
        responses
        pending := controller.pending ++
          framesOf controller.ownRing.slots.size response client host } := by
    refine ⟨rfl, ?_, Nat.le_refl _⟩
    simp only [Controller.load, wordsToHost, prepared, List.flatten_append, List.length_append,
      words, List.flatMap_cons]
    omega
  exact moved.trans (fill _)

theorem accept (controller : Controller) (header : Frame.Header) (payload : List UInt8) :
    Subsides 0 controller (controller.accept header payload) := by
  unfold Controller.accept
  split
  · dsimp only
    split
    · exact of_same rfl rfl rfl (Nat.le_refl _)
    · next prepared =>
      let ended : Controller :=
        { controller with
          assembly := []
          frameLog := controller.frameLog ++ [header]
          received := controller.received ++ [Message.ofBytes (controller.assembly ++ payload)] }
      have same : Subsides 0 controller ended := of_same rfl rfl rfl (Nat.le_refl _)
      exact same.trans (@enqueue ended _ _ prepared _ _)
  · exact of_same rfl rfl rfl (Nat.le_refl _)

theorem takeFrames (count : Nat) (controller : Controller) :
    Subsides 0 controller (controller.takeFrames count) := by
  refine takeFrames_keeps (refl controller) (fun {before _ _ hostRing} _ subsides => ?_) count
  have popped : Subsides 0 before { before with hostRing } :=
    of_same rfl rfl rfl (Nat.le_refl _)
  exact subsides.trans (popped.trans (accept _ _ _))

theorem consume (controller : Controller) : Subsides 0 controller controller.consume :=
  have taken := takeFrames controller.hostRing.cursors.filled.toNat controller
  { size := taken.size, load := taken.load, counted := taken.counted }

theorem ringDoorbell (controller : Controller) (inReset : Bool) :
    Subsides 1 controller (controller.ringDoorbell inReset) := by
  have counted : Subsides 1 controller { controller with doorbells := controller.doorbells + 1 } :=
    of_same rfl rfl rfl (by dsimp only; omega)
  unfold Controller.ringDoorbell
  dsimp only
  split
  · exact counted
  split
  · exact of_same rfl rfl rfl counted.counted
  split
  · exact counted.trans ((consume _).trans (fill _))
  · exact counted.trans (fill _)

theorem writeFlags (controller : Controller) (value : UInt32) :
    Subsides 0 controller (controller.writeFlags value) := by
  unfold Controller.writeFlags
  lift_lets
  intro held hostFlags
  split
  · refine ⟨rfl, ?_, Nat.le_refl _⟩
    have empty : controller.ownRing.reset.cursors.filled.toNat = 0 := by
      simp [Ring.reset, Ring.cursors, Cursors.filled]
    have size : controller.ownRing.reset.slots.size = controller.ownRing.slots.size := rfl
    simp only [Controller.load, wordsToHost, empty, size, List.flatten_nil, List.length_nil]
    omega
  · exact of_same rfl rfl rfl (Nat.le_refl _)

theorem writeHostCsr (controller : Controller) (value : UInt32) :
    Subsides 1 controller (controller.writeHostCsr value) := by
  have flags := writeFlags controller value
  unfold Controller.writeHostCsr
  dsimp only
  split
  · exact { flags with counted := Nat.le_succ_of_le flags.counted }
  · exact (flags.trans (ringDoorbell _ _) : Subsides (0 + 1) _ _)

theorem pop {controller : Controller} {word : UInt32} {ownRing : Ring}
    (popped : controller.ownRing.pop? = some (word, ownRing)) :
    controller.load = { controller with ownRing }.load + 1 := by
  have size := Ring.size_pop? popped
  have filled := Ring.filled_of_pop? popped
  simp only [Controller.load, wordsToHost, size, filled]
  omega

theorem readRegister (controller : Controller) (offset : UInt32) :
    Subsides 0 controller (controller.readRegister offset).2 := by
  unfold Controller.readRegister
  repeat' split
  all_goals first
    | exact refl _
    | next popped =>
      exact ⟨Ring.size_pop? popped, by rw [pop popped]; exact Nat.le_succ _, Nat.le_refl _⟩

theorem writeRegister (controller : Controller) (offset value : UInt32) :
    Subsides 1 controller (controller.writeRegister offset value) := by
  unfold Controller.writeRegister
  split
  · exact of_same rfl rfl rfl (Nat.le_succ _)
  split
  · split <;> exact of_same rfl rfl rfl (by dsimp only; omega)
  split
  · exact writeHostCsr controller value
  · exact of_same rfl rfl rfl (Nat.le_succ _)

theorem path {before after : Timed Controller} {entries : List Entry}
    (path : Path before entries after) :
    Subsides entries.length before.registers after.registers := by
  induction path with
  | done => exact refl _
  | @read _ _ _ _ _ rest answered _ ih =>
    cases answered
    have whole := (readRegister _ _).trans ih
    exact { whole with counted := Nat.le_trans whole.counted (by simp) }
  | @write _ _ _ _ _ rest answered _ ih =>
    cases answered
    rw [List.length_cons, Nat.add_comm]
    exact (writeRegister _ _ _).trans ih
  | refused answered => cases answered
  | note _ _ ih => exact { ih with counted := Nat.le_trans ih.counted (by simp) }
  | pause _ _ ih => exact ih

end Subsides

end Controller

/-! ### A frame read takes a word away -/

namespace Path

theorem unmoved {before after : Timed Controller} (path : Path before [] after) :
    after.registers = before.registers := by
  generalize idle : ([] : List Entry) = entries at path
  induction path with
  | done => rfl
  | pause _ _ ih => exact ih idle
  | _ => cases idle

/-- Pauses before and after it do not change what a read of a simulated controller finds. -/
theorem read_answered {before after : Timed Controller} {offset value : UInt32}
    (path : Path before [.read offset value] after) :
    before.registers.readRegister offset = (value, after.registers) := by
  generalize shape : [Entry.read offset value] = entries at path
  induction path with
  | read answered path =>
    cases shape
    rw [path.unmoved]
    cases answered
    rfl
  | note quiet => cases shape; cases quiet
  | pause _ _ ih => exact ih shape
  | _ => cases shape

end Path

namespace Op

/-- A ring that is found to hold something has a word for the read that follows the look. -/
theorem Arrived.takes {deadline : Option Deadline} {cursors : Cursors} {arrival : List Entry}
    {raw : UInt32} {before after : Timed Controller}
    (arrived : Arrived deadline arrival (.ok cursors))
    (path : Path before (arrival ++ [.read Register.controllerWindow raw]) after) :
    after.registers.load < before.registers.load := by
  obtain ⟨earlier, csr, rfl, -, usual, filled⟩ := arrived.last
  obtain ⟨here, rfl, within⟩ := usable_eq_ok.mp usual
  obtain ⟨looked, looking, taking⟩ := path.split
  obtain ⟨early, waiting, look⟩ := looking.split
  have shown := look.read_answered
  rw [Controller.readRegister_controllerCsr, Prod.mk.injEq] at shown
  obtain ⟨status, same⟩ := shown
  have present : early.registers.present = true :=
    Controller.present_of_ownStatus (by rw [status]; exact here)
  have seen : Cursors.ofCsr csr = looked.registers.ownRing.cursors := by
    rw [← same, ← Controller.ownStatus_cursors present, status]
  obtain ⟨word, ownRing, popped⟩ := Controller.Ring.pop?_of_filled (seen ▸ within) (seen ▸ filled)
  have taken := taking.read_answered
  rw [Controller.readWindow_of_pop? (same ▸ present) popped, Prod.mk.injEq] at taken
  have fewer := Controller.Subsides.pop popped
  have waited := (Controller.Subsides.path waiting).load
  rw [taken.2] at fewer
  rw [same] at waited
  omega

theorem FrameRead.takes {deadline : Option Deadline} {entries : List Entry}
    {read : Frame.Header × List UInt32} {before after : Timed Controller}
    (frame : FrameRead deadline entries (.ok read)) (path : Path before entries after) :
    after.registers.load < before.registers.load := by
  cases frame with
  | @taken arrival waiting acknowledgement cursors header payload arrived _ _ _ _ =>
    rw [← List.singleton_append, ← List.append_assoc] at path
    obtain ⟨middle, begun, others⟩ := path.split
    exact Nat.lt_of_le_of_lt (Controller.Subsides.path others).load (arrived.takes begun)

end Op

end HeciMailbox
