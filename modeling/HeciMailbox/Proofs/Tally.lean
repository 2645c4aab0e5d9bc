import HeciMailbox.Proofs.Doorbells
import HeciMailbox.Proofs.Footprint

/-! How often the doorbell of a simulated controller has been rung.

The controller counts every doorbell that a present function hears, also in a reset and when it is
not ready. So its count is that of the writes in the trace that carry the doorbell. -/

set_option autoImplicit false

namespace HeciMailbox

namespace Csr

/-- Whether a write of this value to the host status rings the doorbell. -/
def rings (value : UInt32) : Bool := value &&& generateBit != 0

theorem rings_withDoorbell (csr : Csr) (clearStatus : Bool) :
    rings (csr.withDoorbell clearStatus) = true := by
  rw [rings, withDoorbell_apart csr clearStatus (by decide), or_and_absorb]
  rfl

theorem rings_withBits (csr : Csr) :
    rings (csr.withBits (readyBit ||| generateBit) resetBit) = true := by
  have kept : ~~~resetBit &&& (~~~statusBit &&& generateBit) = generateBit := by decide
  rw [rings, withBits, UInt32.and_assoc, UInt32.and_assoc, kept, ← UInt32.or_assoc, or_and_absorb]
  rfl

end Csr

namespace Trace

def doorbells (entries : List Entry) : Nat :=
  (writes Register.hostCsr entries).countP Csr.rings

theorem doorbells_append (first second : List Entry) :
    doorbells (first ++ second) = doorbells first + doorbells second := by
  rw [doorbells, writes_append, List.countP_append]
  rfl

theorem doorbells_eq_zero {reads writes : List UInt32} {direction : Option Direction}
    {entries : List Entry} (within : ∀ entry ∈ entries, entry.Within reads writes direction)
    (other : Register.hostCsr ∉ writes) : doorbells entries = 0 := by
  rw [doorbells, writes_eq_nil within other]
  rfl

theorem doorbells_note {entry : Entry} (quiet : entry.access? = none) (rest : List Entry) :
    doorbells (entry :: rest) = doorbells rest := by
  cases entry with
  | read | write => cases quiet
  | wait | event | remark => rfl

end Trace

/-! ### What the controller counts -/

namespace Controller

/-- The same function is on the bus, and `count` more doorbells have been heard. -/
structure Tallied (count : Nat) (before after : Controller) : Prop where
  present : after.present = before.present
  doorbells : after.doorbells = before.doorbells + count

namespace Tallied

variable {first second : Nat} {before middle after : Controller}

theorem refl (controller : Controller) : Tallied 0 controller controller := ⟨rfl, rfl⟩

theorem trans (earlier : Tallied first before middle) (later : Tallied second middle after) :
    Tallied (first + second) before after where
  present := later.present.trans earlier.present
  doorbells := by rw [later.doorbells, earlier.doorbells, Nat.add_assoc]

theorem fill (controller : Controller) : Tallied 0 controller controller.fill := ⟨rfl, rfl⟩

theorem accept (controller : Controller) (header : Frame.Header) (payload : List UInt8) :
    Tallied 0 controller (controller.accept header payload) := by
  unfold Controller.accept
  split
  · dsimp only
    split
    · exact ⟨rfl, rfl⟩
    · exact ⟨rfl, rfl⟩
  · exact ⟨rfl, rfl⟩

theorem takeFrames (count : Nat) (controller : Controller) :
    Tallied 0 controller (Controller.takeFrames count controller) := by
  refine takeFrames_keeps (refl controller) (fun {before _ _ hostRing} _ tallied => ?_) count
  have popped : Tallied 0 before { before with hostRing } := ⟨rfl, rfl⟩
  exact tallied.trans (popped.trans (accept _ _ _))

theorem consume (controller : Controller) : Tallied 0 controller controller.consume :=
  { takeFrames controller.hostRing.cursors.filled.toNat controller with }

theorem ringDoorbell (controller : Controller) (inReset : Bool) :
    Tallied 1 controller (controller.ringDoorbell inReset) := by
  have counted : Tallied 1 controller { controller with doorbells := controller.doorbells + 1 } :=
    ⟨rfl, rfl⟩
  unfold Controller.ringDoorbell
  dsimp only
  split
  · exact counted
  split
  · exact ⟨rfl, rfl⟩
  split
  · exact counted.trans ((consume _).trans (fill _))
  · exact counted.trans (fill _)

theorem writeFlags (controller : Controller) (value : UInt32) :
    Tallied 0 controller (controller.writeFlags value) := by
  unfold Controller.writeFlags
  lift_lets
  intro held hostFlags
  split
  · exact ⟨rfl, rfl⟩
  · exact ⟨rfl, rfl⟩

theorem writeHostCsr (controller : Controller) (value : UInt32) :
    Tallied (Csr.rings value).toNat controller (controller.writeHostCsr value) := by
  have flags := writeFlags controller value
  unfold Controller.writeHostCsr Csr.rings
  dsimp only
  by_cases silent : value &&& Csr.generateBit = 0
  · rw [silent]
    exact flags
  · have rung : (value &&& Csr.generateBit != 0) = true := by simpa using silent
    rw [if_neg (by simpa using silent), rung]
    exact (flags.trans (ringDoorbell _ _) : Tallied (0 + 1) _ _)

theorem readRegister (controller : Controller) (offset : UInt32) :
    Tallied 0 controller (controller.readRegister offset).2 := by
  unfold Controller.readRegister
  repeat' split
  all_goals exact ⟨rfl, rfl⟩

theorem writeStatus {controller : Controller} (present : controller.present = true)
    (value : UInt32) :
    Tallied (Csr.rings value).toNat controller
      (controller.writeRegister Register.hostCsr value) := by
  rw [writeStatus_of_present present]
  exact writeHostCsr controller value

theorem writeRegister (controller : Controller) {offset : UInt32}
    (other : offset ≠ Register.hostCsr) (value : UInt32) :
    Tallied 0 controller (controller.writeRegister offset value) := by
  unfold Controller.writeRegister
  rw [if_neg other]
  split
  · exact refl controller
  split
  · split
    · exact ⟨rfl, rfl⟩
    · exact ⟨rfl, rfl⟩
  · exact refl controller

theorem withDoorbell {controller : Controller} (present : controller.present = true) (csr : Csr)
    (clearStatus : Bool) :
    Tallied 1 controller
      (controller.writeRegister Register.hostCsr (csr.withDoorbell clearStatus)) := by
  have tallied := writeStatus present (csr.withDoorbell clearStatus)
  rwa [Csr.rings_withDoorbell] at tallied

theorem withBits {controller : Controller} (present : controller.present = true) (csr : Csr) :
    Tallied 1 controller
      (controller.writeRegister Register.hostCsr
        (csr.withBits (Csr.readyBit ||| Csr.generateBit) Csr.resetBit)) := by
  have tallied :=
    writeStatus present (csr.withBits (Csr.readyBit ||| Csr.generateBit) Csr.resetBit)
  rwa [Csr.rings_withBits] at tallied

theorem path {before after : Timed Controller} {entries : List Entry}
    (path : Path before entries after) (present : before.registers.present = true) :
    Tallied (Trace.doorbells entries) before.registers after.registers := by
  induction path with
  | done => exact refl _
  | @read state _ _ offset _ _ answered _ ih =>
    cases answered
    have read := readRegister state.registers offset
    have whole := read.trans (ih (read.present.trans present))
    rwa [Nat.zero_add] at whole
  | @write state _ _ offset value rest answered _ ih =>
    cases answered
    by_cases status : offset = Register.hostCsr
    · subst status
      have written := writeStatus present value
      have counted : Trace.doorbells (.write Register.hostCsr value :: rest) =
          (Csr.rings value).toNat + Trace.doorbells rest := by
        cases rung : Csr.rings value <;>
          simp [Trace.doorbells, rung, Nat.add_comm]
      rw [counted]
      exact written.trans (ih (written.present.trans present))
    · have written := writeRegister state.registers status value
      have silent : Trace.doorbells (.write offset value :: rest) = Trace.doorbells rest := by
        simp [Trace.doorbells, status]
      rw [silent, ← Nat.zero_add (Trace.doorbells rest)]
      exact written.trans (ih (written.present.trans present))
  | refused answered => cases answered
  | note quiet _ ih =>
    rw [Trace.doorbells_note quiet]
    exact ih present
  | pause _ _ ih => exact ih present

end Tallied

end Controller

/-! ### Sends -/

namespace Op

variable {entries : List Entry} {route : Route}

/-- No doorbell is rung while the host looks for an empty ring. -/
theorem Opened.silent {deadline : Deadline} {first : Bool} {outcome : Except Stop Cursors}
    (opened : Opened deadline first entries outcome) : Trace.doorbells entries = 0 := by
  have looks : ∀ entry ∈ entries, entry.Within [Register.hostCsr] [] none := by
    cases first with
    | true => exact Look.within opened (by simp)
    | false => exact Awaited.within opened (by simp)
  exact Trace.doorbells_eq_zero looks (by simp)

theorem FragmentSent.doorbells {cursors : Cursors} {fragment : Frame.Fragment}
    (sent : FragmentSent route cursors fragment entries (.ok ())) :
    Trace.doorbells entries = 1 := by
  cases sent with
  | @sent header csr =>
    have body : Trace.doorbells (frameWritten header fragment.words cursors.write) = 0 := by
      have apart : Register.hostWindow ≠ Register.hostCsr := by decide
      simp [Trace.doorbells, frameWritten, apart, List.filterMap_cons, Function.comp_def]
    have announced : List.countP Csr.rings [csr.withDoorbell false] = 1 := by
      simp [Csr.rings_withDoorbell]
    rw [Trace.doorbells_append, body, Nat.zero_add]
    exact announced

/-- One doorbell for each frame. -/
theorem FragmentsSent.doorbells {deadline : Deadline} {first : Bool}
    {fragments : List Frame.Fragment} {outcome : Except Stop Unit}
    (sent : FragmentsSent route deadline first fragments entries outcome)
    (ended : outcome = .ok ()) : Trace.doorbells entries = fragments.length := by
  induction sent with
  | done => rfl
  | closed | stopped => cases ended
  | next opened sent _ ih =>
    rw [Trace.doorbells_append, Trace.doorbells_append, opened.silent, sent.doorbells, ih ended,
      List.length_cons]
    omega

end Op

end HeciMailbox
