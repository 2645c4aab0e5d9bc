import HeciMailbox.Proofs.Delivery
import HeciMailbox.Proofs.Doorbells

/-! A message of one frame fits the host ring exactly if there is a slot for each of its words.

The ring may have any depth and its cursors may stand anywhere. Only what the ring holds afterwards,
as a queue, is said for depths that divide 256: with any other depth a word written before the
cursors wrap is looked for in another slot behind the wrap. -/

set_option autoImplicit false

namespace HeciMailbox

namespace Controller

/-! ### Words behind the others -/

/-- The second ring is the first with `words` written behind the others. -/
structure Ring.Appended (ring : Ring) (words : List UInt32) (next : Ring) : Prop where
  read : next.read = ring.read
  write : next.write = ring.write + UInt8.ofNat words.length
  size : next.slots.size = ring.slots.size
  apart (index : Nat) :
    (∀ place < words.length, ring.cursors.slot (ring.write + UInt8.ofNat place) ≠ index) →
    next.slots[index]? = ring.slots[index]?
  queue : ring.slots.size.isPowerOfTwo → next.toList = ring.toList ++ words

theorem Ring.Appended.push {ring middle next : Ring} {word : UInt32} {rest : List UInt32}
    (roomy : 0 < ring.room) (pushed : ring.push? word = some middle)
    (appended : middle.Appended rest next) : ring.Appended (word :: rest) next := by
  obtain ⟨other, pushed', moved, slots⟩ := push?_of_room roomy word
  obtain rfl : middle = other := Option.some.inj (pushed.symm.trans pushed')
  have size := size_of_push? pushed
  have later : ∀ place : Nat,
      middle.write + UInt8.ofNat place = ring.write + UInt8.ofNat (place + 1) := by
    intro place
    rw [show middle.write = ring.write + UInt8.ofNat 1 from congrArg Cursors.write moved,
      UInt8.add_assoc, ← UInt8.ofNat_add, Nat.add_comm]
  exact {
    read := appended.read.trans (congrArg Cursors.read moved)
    write := appended.write.trans (later _)
    size := appended.size.trans size
    apart := by
      intro index apart
      have here : ring.cursors.slot ring.write ≠ index := by simpa using apart 0 (by simp)
      rw [appended.apart index, ← Array.getElem?_toList, slots, List.getElem?_set_ne here,
        Array.getElem?_toList]
      intro place within
      rw [later, moved]
      exact apart (place + 1) (by simpa using within)
    queue := by
      intro power
      have within := filled_lt_of_room roomy
      rw [toNat_cursors_depth] at within
      have sound := sound_of_power power (Nat.le_of_lt within)
      obtain ⟨_, again, -, queue, -⟩ := sound.push? (by rwa [sound.length_toList]) word
      rw [pushed] at again
      cases again
      rw [appended.queue (size ▸ power), queue, List.append_assoc]
      rfl }

theorem Ring.appended_pushAll {ring : Ring} {words : List UInt32}
    (room : ring.cursors.filled.toNat + words.length ≤ ring.slots.size) :
    ring.Appended words (ring.pushAll words) := by
  induction words generalizing ring with
  | nil =>
    exact ⟨rfl, (UInt8.add_zero _).symm, rfl, fun _ _ => rfl, fun _ => (List.append_nil _).symm⟩
  | cons word rest ih =>
    rw [List.length_cons] at room
    have roomy : 0 < ring.room := by rw [Ring.room_eq]; omega
    obtain ⟨middle, pushed, moved, -⟩ := push?_of_room roomy word
    have filled : middle.cursors.filled.toNat = ring.cursors.filled.toNat + 1 := by
      rw [moved, Cursors.toNat_filled_advanceWrite (filled_lt_of_room roomy)]
    have step : ring.pushAll (word :: rest) = middle.pushAll rest := by
      simp [Ring.pushAll, pushed]
    rw [step]
    exact .push roomy pushed (ih (by rw [filled, size_of_push? pushed]; omega))

theorem Ring.Appended.filled {ring next : Ring} {words : List UInt32}
    (appended : ring.Appended words next)
    (room : ring.cursors.filled.toNat + words.length ≤ ring.slots.size) :
    next.cursors.filled.toNat = ring.cursors.filled.toNat + words.length := by
  have small := ring.size_lt
  have hr := ring.read.toNat_lt
  have hw := ring.write.toNat_lt
  simp only [cursors, Cursors.filled, appended.read, appended.write, UInt8.toNat_sub,
    UInt8.toNat_add, UInt8.toNat_ofNat'] at room ⊢
  omega

theorem writeWindow {controller : Controller} (present : controller.present = true)
    (room : 0 < controller.hostRing.room) (word : UInt32) :
    controller.writeRegister Register.hostWindow word =
      { controller with hostRing := controller.hostRing.pushAll [word] } := by
  obtain ⟨next, pushed, -⟩ := Ring.push?_of_room room word
  simp [writeRegister, present, Ring.pushAll, pushed]

end Controller

open Controller (Ring)

namespace Op

variable {state : Timed Controller}

def written (state : Timed Controller) (words : List UInt32) : Timed Controller :=
  { state with
    registers :=
      { state.registers with hostRing := state.registers.hostRing.pushAll words } }

theorem written_append (state : Timed Controller) (words others : List UInt32) :
    written (written state words) others = written state (words ++ others) := by
  simp only [written, Ring.pushAll, List.foldl_append]

theorem writeWindow_returns (present : state.registers.present = true)
    (room : 0 < state.registers.hostRing.room) (word : UInt32) :
    (writeRegister Register.hostWindow word : Op (Timed Controller) Unit).Returns state ()
      (written state [word]) := by
  refine .last (.writeRegister rfl (.pure ⟨rfl, ?_⟩))
  rw [written, ← Controller.writeWindow present room]

theorem writeWords_returns (words : List UInt32) (present : state.registers.present = true)
    (room : state.registers.hostRing.cursors.filled.toNat + words.length ≤
      state.registers.hostRing.slots.size) :
    (writeWords words : Op (Timed Controller) Unit).Returns state () (written state words) := by
  induction words generalizing state with
  | nil => exact .pure ⟨rfl, rfl⟩
  | cons word rest ih =>
    rw [List.length_cons] at room
    have first := @Ring.appended_pushAll state.registers.hostRing [word]
      (by rw [List.length_singleton]; omega)
    refine .following (writeWindow_returns present (by rw [Ring.room_eq]; omega) word) ?_
    have filled := first.filled (by rw [List.length_singleton]; omega)
    have size := first.size
    have others := @ih (written state [word]) present (by
      simp only [written, filled, size, List.length_singleton]
      omega)
    rwa [written_append] at others

/-- How a frame of these words goes into the host ring: where it fits, whole and behind what is
there, with one doorbell; otherwise nothing changes. -/
inductive Placed (words : List UInt32) (before : Timed Controller) {α : Type} (value : α) :
    Except Stop α → Timed Controller → Prop where
  | sent {after : Timed Controller} :
    before.registers.hostRing.cursors.filled.toNat + words.length ≤
      before.registers.hostRing.slots.size →
    before.registers.hostRing.Appended words after.registers.hostRing →
    after.registers.doorbells = before.registers.doorbells + 1 →
    after.registers.dropped = before.registers.dropped →
    Placed words before value (.ok value) after
  | refused :
    before.registers.hostRing.slots.size <
      before.registers.hostRing.cursors.filled.toNat + words.length →
    Placed words before value
      (.error (.fault (before.registers.hostRing.cursors.overflowFault words.length))) before

theorem hostCursors_returns (opened : state.registers.Open) :
    (hostCursors : Op (Timed Controller) Cursors).Returns state state.registers.hostRing.cursors
      state :=
  .following (hostCsr_returns opened.hostStatus_present)
    (.pure ⟨congrArg Except.ok (Controller.hostStatus_cursors opened.present), rfl⟩)

theorem sendFragment_placed (opened : state.registers.Open)
    (waiting : state.registers.autoConsume = false) (route : Route) {fragment : Frame.Fragment}
    (short : fragment.length ≤ Frame.maxLength) :
    (sendFragment route state.registers.hostRing.cursors fragment).Reaches state
      (Placed ((Frame.Segment.ofFragment route fragment).words) state ()) := by
  have depth := state.registers.hostRing.toNat_cursors_depth
  have count : (Frame.Segment.ofFragment route fragment).words.length =
      fragment.words.length + 1 := rfl
  unfold sendFragment
  by_cases room : state.registers.hostRing.cursors.filled.toNat + (fragment.words.length + 1) ≤
      state.registers.hostRing.slots.size
  · have made : Frame.Header.make? route.controller route.host fragment.length fragment.last =
        .ok (Frame.Segment.ofFragment route fragment).header :=
      Frame.Header.make?_eq_ok.mpr ⟨short, rfl⟩
    simp only [Cursors.checkRoom_eq_ok.mpr (show _ ≤ _ from depth ▸ room), made]
    let frame := (Frame.Segment.ofFragment route fragment).words
    have payload : (writeWords frame : Op (Timed Controller) Unit).Returns state ()
        (written state frame) := writeWords_returns frame opened.present room
    have still := opened.withRing (state.registers.hostRing.pushAll frame)
    obtain ⟨kept, counted, lossless⟩ := still.rung waiting
    have appended := @Ring.appended_pushAll state.registers.hostRing frame room
    -- Header and payload are written by one run of words.
    have begun : ∀ next : Op (Timed Controller) Unit,
        (writeWords frame >>= fun _ => next) = (do
          writeRegister Register.hostWindow (Frame.Segment.ofFragment route fragment).header.raw
          writeWords fragment.words
          next) := fun next => bind_assoc _ _ _
    refine .ofExcept ?_
    rw [← begun]
    refine .following payload (.remark (.emit ?_))
    refine .following (hostCsr_returns still.hostStatus_present)
      (.last (.writeRegister rfl (.pure ?_)))
    exact .sent room (kept ▸ appended) counted lossless
  · have full : state.registers.hostRing.cursors.depth.toNat <
        state.registers.hostRing.cursors.filled.toNat + (fragment.words.length + 1) := by omega
    simp only [Cursors.checkRoom_eq_error full]
    refine Reaches.mono (Reaches.stopping (.fail ⟨rfl, rfl⟩)) ?_
    rintro _ _ ⟨rfl, rfl⟩
    exact .refused (depth ▸ full)

theorem ofMessage_short {limit : Nat} {message : Message} (nonempty : 0 < message.length)
    (short : message.length ≤ limit) :
    Frame.Fragment.ofMessage limit message = [⟨message.length, message.words, true⟩] := by
  have one : (message.length + limit - 1) / limit = 1 := by
    rw [Nat.div_eq_iff (by omega)]
    omega
  rw [Frame.Fragment.ofMessage, one]
  rfl

def frameOf (route : Route) (message : Message) : Frame.Segment :=
  .ofFragment route ⟨message.length, message.words, true⟩

theorem writeMessage_placed (opened : state.registers.Open)
    (waiting : state.registers.autoConsume = false) {link : Link} {message : Message}
    (nonempty : 0 < message.length) (accepted : message.length ≤ link.device.maxLength)
    (short : message.length ≤ Frame.payloadLimit state.registers.hostRing.slots.size)
    (route : Route) (caller : Option Deadline) :
    (writeMessage link message route caller).Reaches state
      (Placed (frameOf route message).words state ()) := by
  have depth := state.registers.hostRing.toNat_cursors_depth
  have fits : message.length ≤ Frame.maxLength :=
    Nat.le_trans short (Frame.payloadLimit_le_maxLength _)
  refine .ite_neg (by omega) (.following
    (requireController_returns opened.ownStatus_present opened.ownReady) (.following
    (ensureHostReady_returns opened.hostStatus_present opened.hostReady) (.following
    (hostCursors_returns opened) ?_)))
  rw [depth]
  refine .ite_neg (by omega) (.deadlineAfter ?_)
  rw [ofMessage_short nonempty short]
  refine .following (hostCursors_returns opened) ?_
  refine (sendFragment_placed opened waiting route fits).andThen ?_ ?_
  · rintro _ after placed
    exact .pure placed
  · rintro _ after (_ | full)
    exact .refused full

theorem send_placed (opened : state.registers.Open)
    (waiting : state.registers.autoConsume = false) {link : Link} {message : Message}
    (nonempty : 0 < message.length) (accepted : message.length ≤ link.device.maxLength)
    (short : message.length ≤ Frame.payloadLimit state.registers.hostRing.slots.size)
    (route : Route) :
    (send link message route).Reaches state (Placed (frameOf route message).words state ()) := by
  have half : (sendPhase link message route none {}).Reaches state
      (Placed (frameOf route message).words state ⟨.sending⟩) := by
    refine .following (advance_served rfl) ?_
    refine (writeMessage_placed opened waiting nonempty accepted short route none).attempt ?_ ?_ ?_
    · rintro _ middle (⟨room, appended, counted, lossless⟩ | _)
      exact .pure (.sent room appended counted lossless)
    · rintro _ _ (_ | full)
      exact .following (advance_served rfl) (.fail (.refused full))
    · rintro _ _ other (_ | _)
      exact absurd rfl (other _)
  refine half.andThen ?_ ?_
  · rintro _ middle (⟨room, appended, counted, lossless⟩ | _)
    exact .following (advance_served rfl) (.pure (.sent room appended counted lossless))
  · rintro _ _ (_ | full)
    exact .refused full

/-- A message of one frame is sent exactly if the host ring has a slot for the header and for each
word, on any ring and wherever its cursors stand. Then the frame stands behind what was there and
one doorbell has been rung; otherwise the controller is as it was, and the fault says what was
missing. -/
theorem send_succeeds_exactly_if_it_fits {link : Link} {message : Message} (route : Route)
    {world : World (Timed Controller)} (opened : world.hardware.registers.Open)
    (waiting : world.hardware.registers.autoConsume = false) (nonempty : 0 < message.length)
    (short : message.length ≤ min link.device.maxLength
      (Frame.payloadLimit world.hardware.registers.hostRing.slots.size)) :
    let ring := world.hardware.registers.hostRing
    let words := message.words.length + 1
    let outcome := (send link message route).outcome world
    let after := ((send link message route).reached world).hardware
    (outcome = .ok () ↔ ring.cursors.filled.toNat + words ≤ ring.slots.size) ∧
      (outcome = .ok () →
        (∃ header, Frame.Header.make? route.controller route.host message.length true = .ok header ∧
          ring.Appended (header.raw :: message.words) after.registers.hostRing) ∧
        after.registers.doorbells = world.hardware.registers.doorbells + 1 ∧
        after.registers.dropped = world.hardware.registers.dropped) ∧
      (outcome ≠ .ok () →
        outcome = .error (.fault (.overflow ring.cursors.filled ring.depth words)) ∧
        after = world.hardware) := by
  intro ring words outcome after
  obtain ⟨accepted, narrow⟩ := Nat.le_min.mp short
  have made : Frame.Header.make? route.controller route.host message.length true =
      .ok (frameOf route message).header :=
    Frame.Header.make?_eq_ok.mpr
      ⟨Nat.le_trans narrow (Nat.le_trans (Frame.payloadLimit_le _) (by decide)), rfl⟩
  have placed : Placed (frameOf route message).words world.hardware () outcome after :=
    (send_placed opened waiting nonempty accepted narrow route).holds
  generalize outcome = outcome, after = after at placed
  cases placed with
  | sent room appended counted lossless =>
    exact ⟨⟨fun _ => room, fun _ => rfl⟩, fun _ => ⟨⟨_, made, appended⟩, counted, lossless⟩,
      fun failed => absurd rfl failed⟩
  | refused full =>
    exact ⟨⟨nofun, fun room => absurd room (Nat.not_le.mpr full)⟩, nofun, fun _ => ⟨rfl, rfl⟩⟩

def crossing (read : UInt8) : World (Timed Controller) where
  hardware :=
    { registers :=
        { Controller.ofDepth 4 with
          hostRing := (Ring.ofDepth 4).withCursors read 255
          autoConsume := false } }

/-- Three words fit behind one other word, and not behind two. -/
theorem eight_bytes_cross_the_wrap :
    let message : Message := .ofBytes [1, 2, 3, 4, 5, 6, 7, 8]
    let link : Link := .ofConfig {} 0xFED1A000 0
    let sent := ((send link message ⟨0, 7⟩).reached (crossing 254)).hardware.registers.hostRing
    (crossing 254).hardware.registers.Open ∧ (crossing 253).hardware.registers.Open ∧
      (send link message ⟨0, 7⟩).outcome (crossing 254) = .ok () ∧ sent.write = 2 ∧
      sent.toList = [0, 0x80080007, 0x04030201, 0x08070605] ∧
      (send link message ⟨0, 7⟩).outcome (crossing 253) = .error (.fault (.overflow 2 4 3)) := by
  intro message link sent
  have opened : (crossing 254).hardware.registers.Open := ⟨rfl, rfl, rfl, rfl, rfl⟩
  have more : (crossing 253).hardware.registers.Open := ⟨rfl, rfl, rfl, rfl, rfl⟩
  have short : message.length ≤ min link.device.maxLength (Frame.payloadLimit 4) := by decide
  obtain ⟨fits, succeeded, -⟩ :=
    send_succeeds_exactly_if_it_fits ⟨0, 7⟩ opened rfl (by decide) short
  obtain ⟨crowded, -, failed⟩ :=
    send_succeeds_exactly_if_it_fits ⟨0, 7⟩ more rfl (by decide) short
  have done := fits.mpr (by decide)
  obtain ⟨⟨header, made, appended⟩, -⟩ := succeeded done
  cases made
  refine ⟨opened, more, done, appended.write.trans ?_, (appended.queue ⟨2, rfl⟩).trans ?_,
    (failed (mt crowded.mp (by decide))).1⟩
  · decide
  · decide +kernel

end Op

end HeciMailbox
