import HeciMailbox.Proofs.Likeness
import HeciMailbox.Proofs.Requests

/-! What may happen to a simulated controller, and what survives all of it.

Besides the calls of a host anyone may read and write registers and force the controller's state.
However corrupt that leaves it, the rings keep their sizes and no flag is ever one that only an
absent function shows. -/

set_option autoImplicit false

namespace HeciMailbox

/-- One thing done to the controller from outside. -/
inductive Steering where
  | read (offset : UInt32)
  | write (offset value : UInt32)
  | queueResponse (response : Message)
  | enqueue (message : Message) (client host : UInt8)
  | injectWords (words : List UInt32)
  | setPresent (present : Bool)
  | setOwnReady (ready : Bool)
  | setHostReady (ready : Bool)
  | setAutoConsume (autoConsume : Bool)
  | consumeNow
  | setHostCursors (read write : UInt8)
  | setOwnCursors (read write : UInt8)

def Controller.steer (controller : Controller) : Steering → Controller
  | .read offset => (controller.readRegister offset).2
  | .write offset value => controller.writeRegister offset value
  | .queueResponse response => controller.queueResponse response
  | .enqueue message client host => controller.enqueue message client host
  | .injectWords words => controller.injectWords words
  | .setPresent present => controller.setPresent present
  | .setOwnReady ready => controller.setOwnReady ready
  | .setHostReady ready => controller.setHostReady ready
  | .setAutoConsume autoConsume => controller.setAutoConsume autoConsume
  | .consumeNow => controller.consumeNow
  | .setHostCursors read write => controller.setHostCursors read write
  | .setOwnCursors read write => controller.setOwnCursors read write

namespace Controller

def steerAll (controller : Controller) (steerings : List Steering) : Controller :=
  steerings.foldl steer controller

/-- What is seen of each of the steerings when it is done, in order. -/
def gathered {α : Type} (see : Controller → Steering → List α) :
    Controller → List Steering → List α
  | _, [] => []
  | controller, steering :: rest =>
    see controller steering ++ gathered see (controller.steer steering) rest

theorem gathered_append {α : Type} (see : Controller → Steering → List α)
    (controller : Controller) (steerings others : List Steering) :
    controller.gathered see (steerings ++ others) =
      controller.gathered see steerings ++ (controller.steerAll steerings).gathered see others := by
  induction steerings generalizing controller with
  | nil => rfl
  | cons steering rest ih =>
    rw [List.cons_append, gathered, ih, gathered, List.append_assoc]
    rfl

end Controller

namespace Steering

def resets : Steering → Bool
  | .write offset value => offset == Register.hostCsr && value &&& Csr.resetBit != 0
  | _ => false

end Steering

/-- A call of the host, or something done from outside between calls. -/
inductive Happening where
  | called (link : Link) (call : Call)
  | steered (steering : Steering)

namespace Happening

def run (world : World (Timed Controller)) : Happening → World (Timed Controller)
  | .called link call => (Op.perform link call).reached world
  | .steered steering =>
    let registers := world.hardware.registers.steer steering
    { world with hardware := { world.hardware with registers } }

def runAll (world : World (Timed Controller)) (happenings : List Happening) :
    World (Timed Controller) :=
  happenings.foldl run world

end Happening

namespace Controller

/-! ### Sizes of rings -/

theorem size_placeFrames (frames : List (List UInt32)) (ring : Ring) :
    (placeFrames frames ring).2.1.slots.size = ring.slots.size := by
  induction frames generalizing ring with
  | nil => rfl
  | cons frame rest ih =>
    unfold placeFrames
    split
    · exact (ih _).trans (Ring.size_pushAll _ _)
    · rfl

theorem size_of_takeFrame? {ring next : Ring} {header : Frame.Header} {payload : List UInt8}
    (taken : takeFrame? ring = some (header, payload, next)) :
    next.slots.size = ring.slots.size := by
  unfold takeFrame? at taken
  split at taken
  · cases taken
  · dsimp only at taken
    split at taken
    · cases taken
    · cases taken
      exact Ring.size_popMany _ _

/-! ### Flags -/

theorem quiet_withReady {mask flags : UInt32} (quiet : Csr.Quiet mask flags)
    (apart : Csr.Quiet mask Csr.readyBit) (ready : Bool) :
    Csr.Quiet mask (withReady flags ready) := by
  unfold withReady
  split
  · exact quiet.or apart
  · exact quiet.and _

/-! ### The invariant -/

/-- Rings of these sizes. The host side never shows the doorbell, and the controller side shows
neither that nor a reset. -/
structure Shaped (hostDepth ownDepth : Nat) (controller : Controller) : Prop where
  hostSize : controller.hostRing.slots.size = hostDepth
  ownSize : controller.ownRing.slots.size = ownDepth
  hostQuiet : Csr.Quiet Csr.generateBit controller.hostFlags
  ownQuiet : Csr.Quiet (Csr.generateBit ||| Csr.resetBit) controller.ownFlags

namespace Shaped

variable {hostDepth ownDepth : Nat} {controller : Controller}

theorem ofDepths (hostDepth ownDepth : UInt8) :
    (Controller.ofDepths hostDepth ownDepth).Shaped hostDepth.toNat ownDepth.toNat where
  hostSize := Array.size_replicate
  ownSize := Array.size_replicate
  hostQuiet := (by decide : Csr.Quiet Csr.generateBit Csr.readyBit)
  ownQuiet := (by decide : Csr.Quiet (Csr.generateBit ||| Csr.resetBit) Csr.readyBit)

theorem fill (shaped : controller.Shaped hostDepth ownDepth) :
    controller.fill.Shaped hostDepth ownDepth :=
  { shaped with
    ownSize := (size_placeFrames _ _).trans shaped.ownSize
    hostQuiet := by
      unfold Controller.fill
      dsimp only
      split
      · exact shaped.hostQuiet.or (by decide)
      · exact shaped.hostQuiet }

theorem enqueue (shaped : controller.Shaped hostDepth ownDepth) (message : Message)
    (client host : UInt8) : (controller.enqueue message client host).Shaped hostDepth ownDepth :=
  fill { shaped with }

theorem accept (shaped : controller.Shaped hostDepth ownDepth) (header : Frame.Header)
    (payload : List UInt8) : (controller.accept header payload).Shaped hostDepth ownDepth := by
  unfold Controller.accept
  split
  · dsimp only
    split
    · exact { shaped with }
    · refine enqueue ?_ _ _ _
      exact { shaped with }
  · exact { shaped with }

theorem takeFrames (shaped : controller.Shaped hostDepth ownDepth) (count : Nat) :
    (Controller.takeFrames count controller).Shaped hostDepth ownDepth := by
  refine takeFrames_keeps shaped (fun taken shaped => accept ?_ _ _) count
  exact { shaped with hostSize := (size_of_takeFrame? taken).trans shaped.hostSize }

theorem consume (shaped : controller.Shaped hostDepth ownDepth) :
    controller.consume.Shaped hostDepth ownDepth :=
  have taken := shaped.takeFrames controller.hostRing.cursors.filled.toNat
  { taken with ownQuiet := taken.ownQuiet.or (by decide) }

theorem ringDoorbell (shaped : controller.Shaped hostDepth ownDepth) (inReset : Bool) :
    (controller.ringDoorbell inReset).Shaped hostDepth ownDepth := by
  unfold Controller.ringDoorbell
  dsimp only
  have counted : Shaped hostDepth ownDepth
      { controller with doorbells := controller.doorbells + 1 } := { shaped with }
  split
  · exact counted
  split
  · exact { counted with ownQuiet := counted.ownQuiet.or (by decide) }
  split
  · exact counted.consume.fill
  · exact counted.fill

theorem writeFlags (shaped : controller.Shaped hostDepth ownDepth) (value : UInt32) :
    (controller.writeFlags value).Shaped hostDepth ownDepth := by
  unfold Controller.writeFlags
  lift_lets
  intro held hostFlags
  split
  · exact { shaped with
      hostQuiet := (quiet_taken held value).and _
      ownQuiet := shaped.ownQuiet.and _ }
  · exact { shaped with hostQuiet := quiet_taken held value }

theorem writeHostCsr (shaped : controller.Shaped hostDepth ownDepth) (value : UInt32) :
    (controller.writeHostCsr value).Shaped hostDepth ownDepth := by
  unfold Controller.writeHostCsr
  dsimp only
  split
  · exact shaped.writeFlags value
  · exact (shaped.writeFlags value).ringDoorbell _

theorem readRegister (shaped : controller.Shaped hostDepth ownDepth) (offset : UInt32) :
    (controller.readRegister offset).2.Shaped hostDepth ownDepth := by
  unfold Controller.readRegister
  repeat' split
  all_goals first
    | exact shaped
    | next popped => exact { shaped with ownSize := (Ring.size_pop? popped).trans shaped.ownSize }

theorem writeRegister (shaped : controller.Shaped hostDepth ownDepth) (offset value : UInt32) :
    (controller.writeRegister offset value).Shaped hostDepth ownDepth := by
  unfold Controller.writeRegister
  split
  · exact shaped
  split
  · split
    · next pushed =>
      exact { shaped with hostSize := (Ring.size_of_push? pushed).trans shaped.hostSize }
    · exact { shaped with }
  split
  · exact shaped.writeHostCsr value
  · exact shaped

theorem steer (shaped : controller.Shaped hostDepth ownDepth) (steering : Steering) :
    (controller.steer steering).Shaped hostDepth ownDepth := by
  cases steering with
  | read offset => exact shaped.readRegister offset
  | write offset value => exact shaped.writeRegister offset value
  | enqueue message client host => exact shaped.enqueue message client host
  | injectWords words =>
    exact { shaped with
      ownSize := (Ring.size_pushWhile _ _).trans shaped.ownSize
      hostQuiet := shaped.hostQuiet.or (by decide) }
  | setOwnReady ready =>
    exact { shaped with ownQuiet := quiet_withReady shaped.ownQuiet (by decide) ready }
  | setHostReady ready =>
    exact { shaped with hostQuiet := quiet_withReady shaped.hostQuiet (by decide) ready }
  | consumeNow => exact shaped.consume.fill
  | queueResponse | setPresent | setAutoConsume | setHostCursors | setOwnCursors =>
    exact { shaped with }

theorem path {before after : Timed Controller} {entries : List Entry}
    (shaped : before.registers.Shaped hostDepth ownDepth) (path : Path before entries after) :
    after.registers.Shaped hostDepth ownDepth := by
  induction path with
  | done => exact shaped
  | read answered _ ih =>
    cases answered
    exact ih (shaped.readRegister _)
  | write answered _ ih =>
    cases answered
    exact ih (shaped.writeRegister _ _)
  | refused answered => cases answered
  | note _ _ ih => exact ih shaped
  | pause _ _ ih => exact ih shaped

end Shaped

end Controller

open Controller (Shaped)

theorem Happening.shaped_run {hostDepth ownDepth : Nat} {world : World (Timed Controller)}
    (shaped : world.hardware.registers.Shaped hostDepth ownDepth) (happening : Happening) :
    (happening.run world).hardware.registers.Shaped hostDepth ownDepth := by
  cases happening with
  | called link call => exact shaped.path ((Op.perform_ensures link call).holds world).2.2
  | steered steering => exact shaped.steer steering

theorem Happening.shaped_runAll {hostDepth ownDepth : Nat} {world : World (Timed Controller)}
    (shaped : world.hardware.registers.Shaped hostDepth ownDepth) (happenings : List Happening) :
    (Happening.runAll world happenings).hardware.registers.Shaped hostDepth ownDepth := by
  induction happenings generalizing world with
  | nil => exact shaped
  | cons happening rest ih => exact ih (happening.shaped_run shaped)

end HeciMailbox
