import HeciMailbox.Proofs.Conservation

/-! What holds of a simulated controller in every state that it can be brought into.

`Intact` is kept by each access and each steering, whatever is written and however the cursors are
forced: no flag is shown that a side does not have, every frame that waits has a header that counts
its words and finds room in an empty ring, and a request that is complete leaves no bytes behind. -/

set_option autoImplicit false

namespace HeciMailbox

namespace Frame

/-- A frame as it is made of a response for a ring of `depth` slots: the header counts the words
behind it, there is at least one byte in them and no more than fit into whole words by a header's
count, and an empty ring takes the frame. -/
structure Segment.Placeable (depth : Nat) (frame : Segment) : Prop where
  counted : frame.payload.length = frame.header.words
  nonempty : 1 ≤ frame.content.length
  bounded : frame.content.length ≤ 508
  fits : 2 ≤ depth → frame.words.length ≤ depth

theorem Segment.length_content_le (frame : Segment) :
    frame.content.length ≤ 4 * frame.payload.length := by
  rw [content, ← Bytes.length_unpack]
  exact List.length_take_le' _ _

end Frame

namespace Steering

def accesses : Steering → Bool
  | .read _ | .write _ _ => true
  | _ => false

end Steering

namespace Controller

theorem placeable_of_responseFrames {ownDepth : Nat} {response : Message} {route : Route}
    {frame : Frame.Segment} (member : frame ∈ responseFrames ownDepth response route) :
    frame.Placeable ownDepth where
  counted := Frame.counted_segments route (responseLimit_le ownDepth) _ frame member
  nonempty :=
    List.length_pos_iff.mpr (Frame.content_ne_nil route (responseLimit_le ownDepth) member)
  bounded := by
    -- The limit is whole words, so the words of a chunk hold no more bytes than it allows.
    have four := Frame.four_dvd_payloadLimit ownDepth
    have small := Frame.payloadLimit_le ownDepth
    have short := Frame.length_words_le route (by omega) member
    have within := frame.length_content_le
    rw [Frame.Segment.words, List.length_cons] at short
    omega
  fits deep := responseFrames_fit deep response route frame member

theorem placeFrames_suffix (frames : List (List UInt32)) (ring : Ring) :
    (placeFrames frames ring).1 <:+ frames := by
  induction frames generalizing ring with
  | nil => exact List.suffix_rfl
  | cons frame rest ih =>
    unfold placeFrames
    split
    · exact (ih _).trans (List.suffix_cons _ _)
    · exact List.suffix_rfl

/-! ### The invariant -/

def hostBits : UInt32 := Csr.enableBit ||| Csr.statusBit ||| Csr.readyBit ||| Csr.resetBit

def ownBits : UInt32 := Csr.statusBit ||| Csr.readyBit

theorem quiet_written (held value : UInt32) :
    Csr.Quiet (~~~hostBits) (held &&& Csr.statusBit ||| value &&& controlBits) := by
  rw [UInt32.and_comm held, UInt32.and_comm value]
  exact .or (.and (by decide) held) (.and (by decide) value)

/-- Rings of these sizes, no flag but those of each side, frames in waiting that the controller has
made itself, and no byte of a request under way behind a frame that has ended one. -/
structure Intact (hostDepth ownDepth : Nat) (controller : Controller) : Prop
    extends Shaped hostDepth ownDepth controller where
  hostFlags : Csr.Quiet (~~~hostBits) controller.hostFlags
  ownFlags : Csr.Quiet (~~~ownBits) controller.ownFlags
  pending : ∀ words ∈ controller.pending,
    ∃ frame : Frame.Segment, frame.words = words ∧ frame.Placeable ownDepth
  concluded : controller.frameLog.getLast?.all Frame.Header.complete = true →
    controller.assembly = []

namespace Intact

variable {hostDepth ownDepth : Nat} {controller : Controller}

theorem ofDepths (hostDepth ownDepth : UInt8) :
    (Controller.ofDepths hostDepth ownDepth).Intact hostDepth.toNat ownDepth.toNat where
  toShaped := .ofDepths hostDepth ownDepth
  hostFlags := (by decide : Csr.Quiet (~~~hostBits) Csr.readyBit)
  ownFlags := (by decide : Csr.Quiet (~~~ownBits) Csr.readyBit)
  pending := List.forall_mem_nil _
  concluded _ := rfl

theorem fill (intact : controller.Intact hostDepth ownDepth) :
    controller.fill.Intact hostDepth ownDepth where
  toShaped := intact.toShaped.fill
  hostFlags := by
    unfold Controller.fill
    dsimp only
    split
    · exact intact.hostFlags.or (by decide)
    · exact intact.hostFlags
  ownFlags := intact.ownFlags
  pending words member := intact.pending words ((placeFrames_suffix _ _).mem member)
  concluded := intact.concluded

theorem enqueue (intact : controller.Intact hostDepth ownDepth) (message : Message)
    (client host : UInt8) : (controller.enqueue message client host).Intact hostDepth ownDepth := by
  refine fill { intact with pending := ?_ }
  intro words member
  obtain waiting | made := List.mem_append.mp member
  · exact intact.pending words waiting
  · rw [framesOf_eq, intact.ownSize] at made
    obtain ⟨frame, framed, rfl⟩ := List.mem_map.mp made
    exact ⟨frame, rfl, placeable_of_responseFrames framed⟩

theorem accept (intact : controller.Intact hostDepth ownDepth) (header : Frame.Header)
    (payload : List UInt8) : (controller.accept header payload).Intact hostDepth ownDepth := by
  unfold Controller.accept
  split
  · dsimp only
    split
    · exact { intact with concluded := fun _ => rfl }
    · refine enqueue ?_ _ _ _
      exact { intact with concluded := fun _ => rfl }
  · next unended =>
    -- The frame is logged before it is looked at: the last one logged is the one that goes on.
    refine { intact with concluded := fun ended => absurd ?_ unended }
    simpa using ended

theorem takeFrames (intact : controller.Intact hostDepth ownDepth) (count : Nat) :
    (Controller.takeFrames count controller).Intact hostDepth ownDepth := by
  refine takeFrames_keeps intact (fun taken intact => accept ?_ _ _) count
  exact { intact with hostSize := (size_of_takeFrame? taken).trans intact.hostSize }

theorem consume (intact : controller.Intact hostDepth ownDepth) :
    controller.consume.Intact hostDepth ownDepth :=
  have taken := intact.takeFrames controller.hostRing.cursors.filled.toNat
  { taken with
    ownQuiet := taken.ownQuiet.or (by decide)
    ownFlags := taken.ownFlags.or (by decide) }

theorem ringDoorbell (intact : controller.Intact hostDepth ownDepth) (inReset : Bool) :
    (controller.ringDoorbell inReset).Intact hostDepth ownDepth := by
  unfold Controller.ringDoorbell
  dsimp only
  have counted : Intact hostDepth ownDepth
      { controller with doorbells := controller.doorbells + 1 } := { intact with }
  split
  · exact counted
  split
  · exact { counted with
      ownQuiet := counted.ownQuiet.or (by decide)
      ownFlags := counted.ownFlags.or (by decide) }
  split
  · exact counted.consume.fill
  · exact counted.fill

theorem writeFlags (intact : controller.Intact hostDepth ownDepth) (value : UInt32) :
    (controller.writeFlags value).Intact hostDepth ownDepth := by
  unfold Controller.writeFlags
  lift_lets
  intro held hostFlags
  split
  -- Entering the reset drops what waits and what was gathered; else only the host's flags move.
  · exact { intact with
      hostQuiet := (quiet_taken held value).and _
      ownQuiet := intact.ownQuiet.and _
      hostFlags := (quiet_written held value).and _
      ownFlags := intact.ownFlags.and _
      pending := List.forall_mem_nil _
      concluded := fun _ => rfl }
  · exact { intact with
      hostQuiet := quiet_taken held value
      hostFlags := quiet_written held value }

theorem writeHostCsr (intact : controller.Intact hostDepth ownDepth) (value : UInt32) :
    (controller.writeHostCsr value).Intact hostDepth ownDepth := by
  unfold Controller.writeHostCsr
  dsimp only
  split
  · exact intact.writeFlags value
  · exact (intact.writeFlags value).ringDoorbell _

theorem readRegister (intact : controller.Intact hostDepth ownDepth) (offset : UInt32) :
    (controller.readRegister offset).2.Intact hostDepth ownDepth := by
  obtain ⟨-, same⟩ | ⟨_, _, popped, -, answered⟩ := Steering.popped_cases controller offset
  · rwa [same]
  · rw [answered]
    exact { intact with ownSize := (Ring.size_pop? popped).trans intact.ownSize }

theorem writeRegister (intact : controller.Intact hostDepth ownDepth) (offset value : UInt32) :
    (controller.writeRegister offset value).Intact hostDepth ownDepth := by
  unfold Controller.writeRegister
  split
  · exact intact
  split
  · split
    · next pushed =>
      exact { intact with hostSize := (Ring.size_of_push? pushed).trans intact.hostSize }
    · exact { intact with }
  split
  · exact intact.writeHostCsr value
  · exact intact

theorem steer (intact : controller.Intact hostDepth ownDepth) (steering : Steering) :
    (controller.steer steering).Intact hostDepth ownDepth := by
  have shaped := intact.toShaped.steer steering
  cases steering with
  | read offset => exact intact.readRegister offset
  | write offset value => exact intact.writeRegister offset value
  | enqueue message client host => exact intact.enqueue message client host
  | consumeNow => exact intact.consume.fill
  | injectWords words =>
    exact { intact with
      toShaped := shaped
      hostFlags := intact.hostFlags.or (by decide) }
  | setOwnReady ready =>
    exact { intact with
      toShaped := shaped
      ownFlags := quiet_withReady intact.ownFlags (by decide) ready }
  | setHostReady ready =>
    exact { intact with
      toShaped := shaped
      hostFlags := quiet_withReady intact.hostFlags (by decide) ready }
  | queueResponse | setPresent | setAutoConsume | setHostCursors | setOwnCursors =>
    exact { intact with }

theorem steerAll (intact : controller.Intact hostDepth ownDepth) (steerings : List Steering) :
    (controller.steerAll steerings).Intact hostDepth ownDepth := by
  induction steerings generalizing controller with
  | nil => exact intact
  | cons steering rest ih => exact ih (intact.steer steering)

/-! ### What follows -/

/-- A present controller shows neither an absent function nor a doorbell. -/
theorem shown (intact : controller.Intact hostDepth ownDepth) (present : controller.present = true)
    {status : UInt32} (member : status ∈ [controller.hostStatus, controller.ownStatus]) :
    (Csr.mk status).absent = false ∧ (Csr.mk status).interruptGenerate = false := by
  have quiet : Csr.Quiet Csr.generateBit status := by
    obtain rfl | rfl : status = controller.hostStatus ∨ status = controller.ownStatus := by
      simpa using member
    · exact (hostStatus_and present (by decide)).trans (intact.hostFlags.mono (by decide))
    · exact (ownStatus_and present (by decide)).trans (intact.ownFlags.mono (by decide))
  exact ⟨Csr.present_of_quiet quiet (by decide), Csr.has_of_quiet quiet⟩

theorem fill_of_empty (intact : controller.Intact hostDepth ownDepth) (deep : 2 ≤ ownDepth)
    (empty : controller.ownRing.cursors.isEmpty = true) (waiting : controller.pending ≠ []) :
    controller.fill.pending.length < controller.pending.length := by
  obtain ⟨words, rest, shape⟩ := List.exists_cons_of_ne_nil waiting
  obtain ⟨frame, rfl, placeable⟩ := intact.pending words (by simp [shape])
  have zero : controller.ownRing.cursors.filled = 0 := by simpa [Cursors.isEmpty] using empty
  have room : frame.words.length ≤ controller.ownRing.room := by
    rw [Ring.room_eq, zero, intact.ownSize]
    exact placeable.fits deep
  have left := (placeFrames_suffix rest (controller.ownRing.pushAll frame.words)).length_le
  unfold Controller.fill
  simp only [shape, placeFrames, if_pos room, List.length_cons]
  omega

end Intact

/-- The frame that completes a request takes all of its bytes with it, whatever the peer was doing
when it began to look. -/
theorem assembly_of_completed (controller : Controller) (count : Nat)
    (completed : (controller.takeFrames (count + 1)).received ≠
      (controller.takeFrames count).received) :
    (controller.takeFrames (count + 1)).assembly = [] := by
  -- By the rounds before the one that completes the request.
  induction count generalizing controller with
  | zero =>
    simp only [takeFrames] at completed ⊢
    cases taken : takeFrame? controller.hostRing with
    | none => simp [taken] at completed
    | some frame =>
      simp only [taken] at completed ⊢
      unfold accept at completed ⊢
      split at completed
      · rw [if_pos ‹_›]
        dsimp only
        split <;> rfl
      · simp at completed
  | succ count ih =>
    rw [takeFrames, takeFrames] at completed
    rw [takeFrames]
    cases taken : takeFrame? controller.hostRing with
    | none => simp [taken] at completed
    | some frame =>
      simp only [taken] at completed ⊢
      exact ih _ completed

theorem steerAll_of_absent {controller : Controller} (absent : controller.present = false)
    {accesses : List Steering} (access : ∀ steering ∈ accesses, steering.accesses = true) :
    controller.steerAll accesses = controller := by
  induction accesses with
  | nil => rfl
  | cons steering rest ih =>
    obtain ⟨here, others⟩ := List.forall_mem_cons.mp access
    have same : controller.steer steering = controller := by
      cases steering with
      | read offset => simp [steer, readRegister, absent]
      | write offset value => simp [steer, writeRegister, absent]
      | _ => cases here
    rw [steerAll, List.foldl_cons, same]
    exact ih others

/-- In every state that a controller of any depths can be brought into, by accesses of any registers
with any values and by all that can be done from outside, it is intact. So it is never taken for an
absent function while it is present, and shows no doorbell; a frame that waits enters its ring once
that is empty; and while it is absent no access changes it. Within each look at the host ring, the
frame that completes a request leaves none of its bytes behind. -/
theorem every_state_is_intact (hostDepth ownDepth : UInt8) (steerings : List Steering) :
    let after := (ofDepths hostDepth ownDepth).steerAll steerings
    after.Intact hostDepth.toNat ownDepth.toNat ∧
      (after.present = true →
        ∀ status ∈ [(after.readRegister Register.hostCsr).1,
            (after.readRegister Register.controllerCsr).1],
          (Csr.mk status).absent = false ∧ (Csr.mk status).interruptGenerate = false) ∧
      (2 ≤ ownDepth.toNat → after.ownRing.cursors.isEmpty = true → after.pending ≠ [] →
        after.fill.pending.length < after.pending.length) ∧
      (∀ (looking : Controller) (count : Nat),
        (looking.takeFrames (count + 1)).received ≠ (looking.takeFrames count).received →
        (looking.takeFrames (count + 1)).assembly = []) ∧
      (after.present = false → ∀ accesses : List Steering,
        (∀ steering ∈ accesses, steering.accesses = true) → after.steerAll accesses = after) := by
  intro after
  have intact : after.Intact hostDepth.toNat ownDepth.toNat :=
    (Intact.ofDepths hostDepth ownDepth).steerAll steerings
  refine ⟨intact, fun present status member => ?_, intact.fill_of_empty, assembly_of_completed,
    fun absent accesses access => steerAll_of_absent absent access⟩
  rw [readRegister_hostCsr, readRegister_controllerCsr] at member
  exact intact.shown present member

/-- A response is cut off by a reset that comes with every other bit of the status. Another one
waits behind forced cursors while a request is written, and the function is gone for a while. -/
def mistreatment : List Steering :=
  [.setOwnCursors 0 255, .enqueue (.ofBytes (List.replicate 20 0xAA)) 7 0,
    .write Register.hostCsr 0xFFFFFFFF,
    .write Register.hostCsr (Csr.readyBit ||| Csr.generateBit), .setOwnCursors 0 255,
    .enqueue (.ofBytes (List.replicate 20 0xBB)) 7 0, .write Register.hostWindow 0x80010007,
    .write Register.hostWindow 0x00000041, .setPresent false,
    .write Register.hostCsr 0xFFFFFFFF, .setPresent true, .setOwnCursors 9 9]

theorem mistreated_controller_is_intact :
    let after := (ofDepths 4 4).steerAll mistreatment
    let gone := (ofDepths 4 4).steerAll (mistreatment ++ [.setPresent false])
    (after.present = true ∧ 2 ≤ (4 : UInt8).toNat ∧ after.ownRing.cursors.isEmpty = true ∧
      after.pending ≠ [] ∧ (after.takeFrames 1).received ≠ (after.takeFrames 0).received ∧
      gone.present = false) ∧
    after.Intact 4 4 ∧ (Csr.mk (after.readRegister Register.hostCsr).1).absent = false ∧
      after.fill.pending.length < after.pending.length ∧ (after.takeFrames 1).assembly = [] ∧
      gone.steerAll [.write Register.hostWindow 1, .write Register.hostCsr 0xFFFFFFFF] = gone := by
  intro after gone
  have present : after.present = true := by decide +kernel
  have empty : after.ownRing.cursors.isEmpty = true := by decide +kernel
  have waiting : after.pending ≠ [] := by decide +kernel
  have completed : (after.takeFrames 1).received ≠ (after.takeFrames 0).received := by
    decide +kernel
  have absent : gone.present = false := by decide +kernel
  obtain ⟨intact, shown, enters, concluded, -⟩ := every_state_is_intact 4 4 mistreatment
  obtain ⟨-, -, -, -, ignored⟩ := every_state_is_intact 4 4 (mistreatment ++ [.setPresent false])
  exact ⟨⟨present, by decide, empty, waiting, completed, absent⟩, intact,
    (shown present _ (List.mem_cons_self)).1, enters (by decide) empty waiting,
    concluded after 0 completed, ignored absent _ (by decide)⟩

end Controller

end HeciMailbox
