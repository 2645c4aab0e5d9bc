import HeciMailbox.Proofs.Likeness
import HeciMailbox.Proofs.Segments

/-! The doorbell outside a reset, whatever the controller shows.

The host writes the status back as it has read it, with the doorbell added, so its own flags change
in nothing but the interrupt status. -/

set_option autoImplicit false

namespace HeciMailbox

namespace Csr

theorem or_and_absorb (flags bits : UInt32) : (flags ||| bits) &&& bits = bits := by
  apply UInt32.toBitVec_inj.mp
  ext index
  simp only [UInt32.toBitVec_and, UInt32.toBitVec_or, BitVec.getElem_and, BitVec.getElem_or]
  cases flags.toBitVec[index] <;> simp

theorem withDoorbell_apart (csr : Csr) (clearStatus : Bool) {mask : UInt32}
    (apart : ~~~statusBit &&& mask = mask) :
    csr.withDoorbell clearStatus &&& mask = (csr.raw ||| generateBit) &&& mask := by
  cases clearStatus with
  | true => rfl
  | false =>
    change (csr.raw ||| generateBit) &&& ~~~statusBit &&& mask = _
    rw [UInt32.and_assoc, apart]

theorem and_bit (flags : UInt32) {bit : UInt32} {place : Nat} (single : bit.toNat = 1 <<< place) :
    flags &&& bit = 0 ∨ flags &&& bit = bit := by
  have masked : (flags &&& bit).toNat = if flags.toNat.testBit place then 1 <<< place else 0 := by
    rw [UInt32.toNat_and, single, Frame.Header.and_one_shiftLeft]
  by_cases set : flags.toNat.testBit place
  · exact .inr (UInt32.toNat_inj.mp (by rw [masked, if_pos set, single]))
  · exact .inl (UInt32.toNat_inj.mp (by rw [masked, if_neg set]; rfl))

end Csr

namespace Controller

variable {controller : Controller}

/-! ### Status words -/

theorem hostStatus_and (present : controller.present = true) {mask : UInt32}
    (low : mask.toNat < 0x100) :
    controller.hostStatus &&& mask = controller.hostFlags &&& mask := by
  rw [hostStatus, if_pos present, statusWord_and _ _ low]

theorem ownStatus_and (present : controller.present = true) {mask : UInt32}
    (low : mask.toNat < 0x100) : controller.ownStatus &&& mask = controller.ownFlags &&& mask := by
  rw [ownStatus, if_pos present, statusWord_and _ _ low]

theorem hostStatus_cursors (present : controller.present = true) :
    Cursors.ofCsr ⟨controller.hostStatus⟩ = controller.hostRing.cursors := by
  rw [hostStatus, if_pos present]
  exact Cursors.ofCsr_compose _ _ _ _

theorem ownStatus_cursors (present : controller.present = true) :
    Cursors.ofCsr ⟨controller.ownStatus⟩ = controller.ownRing.cursors := by
  rw [ownStatus, if_pos present]
  exact Cursors.ofCsr_compose _ _ _ _

theorem present_of_ownStatus (here : (Csr.mk controller.ownStatus).absent = false) :
    controller.present = true := by
  cases gone : controller.present with
  | true => rfl
  | false => simp [ownStatus, gone, Csr.absent] at here

/-! ### Writes of the host status -/

theorem writeFlags_of_unasked {value : UInt32} (unasked : Csr.Quiet Csr.resetBit value) :
    ∃ held, controller.writeFlags value =
      { controller with hostFlags := held &&& Csr.statusBit ||| value &&& controlBits } := by
  unfold Controller.writeFlags
  lift_lets
  intro held hostFlags
  refine ⟨held, if_neg ?_⟩
  rw [show value &&& Csr.resetBit = 0 from unasked]
  simp

theorem writeHostCsr_of_rung {value : UInt32}
    (rung : value &&& Csr.generateBit = Csr.generateBit) :
    controller.writeHostCsr value =
      (controller.writeFlags value).ringDoorbell (value &&& Csr.resetBit != 0) := by
  unfold writeHostCsr
  rw [rung]
  rfl

/-- What a write of the host status outside a reset makes of a controller: it changes the host flags
and, if it rings the doorbell, wakes a controller that is not ready, or makes a ready one look at
the host ring if it is to, and refill its own. -/
inductive Told (controller : Controller) (value : UInt32) : Controller → Prop where
  | silent (hostFlags : UInt32) : value &&& Csr.generateBit = 0 →
    Told controller value { controller with hostFlags }
  | woken (hostFlags : UInt32) : value &&& Csr.generateBit ≠ 0 →
    controller.ownFlags &&& Csr.readyBit = 0 →
    Told controller value
      { controller with
        hostFlags
        doorbells := controller.doorbells + 1
        ownFlags := controller.ownFlags ||| Csr.readyBit }
  | looked (hostFlags : UInt32) : value &&& Csr.generateBit ≠ 0 →
    controller.ownFlags &&& Csr.readyBit ≠ 0 → controller.autoConsume = true →
    Told controller value
      (fill (consume { controller with hostFlags, doorbells := controller.doorbells + 1 }))
  | filled (hostFlags : UInt32) : value &&& Csr.generateBit ≠ 0 →
    controller.ownFlags &&& Csr.readyBit ≠ 0 → controller.autoConsume = false →
    Told controller value
      (fill { controller with hostFlags, doorbells := controller.doorbells + 1 })

theorem told_writeHostCsr {value : UInt32} (unasked : Csr.Quiet Csr.resetBit value) :
    controller.Told value (controller.writeHostCsr value) := by
  obtain ⟨held, flags⟩ := @writeFlags_of_unasked controller _ unasked
  unfold writeHostCsr
  rw [flags]
  dsimp only
  by_cases rung : value &&& Csr.generateBit = 0
  · rw [rung]
    exact .silent _ rung
  rw [if_neg (by simpa using rung), show value &&& Csr.resetBit = 0 from unasked]
  unfold ringDoorbell
  simp only [bne_self_eq_false, Bool.false_eq_true, if_false]
  by_cases ready : controller.ownFlags &&& Csr.readyBit = 0
  · rw [ready]
    exact .woken _ rung ready
  rw [if_neg (by simpa using ready)]
  split
  · next consuming => exact .looked _ rung ready consuming
  · next spared => exact .filled _ rung ready (by simpa using spared)

theorem writeStatus_of_rung (present : controller.present = true)
    (ready : (controller.ownFlags &&& Csr.readyBit == 0) = false) {value : UInt32}
    (unasked : Csr.Quiet Csr.resetBit value)
    (rung : value &&& Csr.generateBit = Csr.generateBit) :
    ∃ held, controller.writeRegister Register.hostCsr value =
      let rung := { controller with
        hostFlags := held &&& Csr.statusBit ||| value &&& controlBits
        doorbells := controller.doorbells + 1 }
      fill (if controller.autoConsume then consume rung else rung) := by
  obtain ⟨held, flags⟩ := @writeFlags_of_unasked controller _ unasked
  refine ⟨held, ?_⟩
  rw [writeStatus_of_present present, writeHostCsr_of_rung rung, flags,
    show value &&& Csr.resetBit = 0 from unasked]
  unfold ringDoorbell
  dsimp only
  rw [ready]
  simp only [bne_self_eq_false, Bool.false_eq_true, if_false]
  split <;> rfl

/-- Present and ready, with the host not in a reset: such a controller acts on every doorbell. -/
structure Attentive (controller : Controller) : Prop where
  present : controller.present = true
  ready : (Csr.mk controller.ownStatus).ready = true
  released : (Csr.mk controller.hostStatus).reset = false

namespace Attentive

variable (attentive : controller.Attentive)

include attentive

theorem ownFlags_ready : controller.ownFlags &&& Csr.readyBit = Csr.readyBit := by
  obtain unset | set := Csr.and_bit controller.ownFlags (show Csr.readyBit.toNat = 1 <<< 3 from rfl)
  · have ready := attentive.ready
    rw [Csr.ready, Csr.has, ownStatus_and attentive.present (by decide), unset] at ready
    cases ready
  · exact set

theorem hostFlags_released : Csr.Quiet Csr.resetBit controller.hostFlags :=
  (hostStatus_and attentive.present (by decide)).symm.trans (Csr.quiet_of_has attentive.released)

end Attentive

theorem Attentive.of_flags (present : controller.present = true)
    (ready : controller.ownFlags &&& Csr.readyBit = Csr.readyBit)
    (released : Csr.Quiet Csr.resetBit controller.hostFlags) : controller.Attentive where
  present := present
  ready := by
    rw [Csr.ready, Csr.has, ownStatus_and present (by decide), ready]
    rfl
  released := Csr.has_of_quiet ((hostStatus_and present (by decide)).trans released)

/-- The doorbell that it acts on: it looks at the host ring if it is to, and refills its own. Of the
host's flags only the interrupt status may change. -/
theorem Attentive.doorbell (attentive : controller.Attentive) (clearStatus : Bool) :
    ∃ hostFlags, hostFlags &&& controlBits = controller.hostFlags &&& controlBits ∧
      controller.writeRegister Register.hostCsr
          ((Csr.mk controller.hostStatus).withDoorbell clearStatus) =
        let rung := { controller with hostFlags, doorbells := controller.doorbells + 1 }
        fill (if controller.autoConsume then consume rung else rung) := by
  have kept := @Csr.withDoorbell_apart ⟨controller.hostStatus⟩ clearStatus
  generalize (Csr.mk controller.hostStatus).withDoorbell clearStatus = value at kept
  obtain ⟨held, written⟩ := writeStatus_of_rung attentive.present
    (by rw [attentive.ownFlags_ready]; rfl)
    ((kept (by decide)).trans ((Csr.quiet_of_has attentive.released).or (by decide)))
    ((kept (by decide)).trans (Csr.or_and_absorb _ _))
  refine ⟨held &&& Csr.statusBit ||| value &&& controlBits, ?_, written⟩
  rw [taken_and held value (by decide), UInt32.and_self, kept (by decide),
    Csr.Quiet.or_and (by decide), hostStatus_and attentive.present (by decide)]

/-! ### Both sides ready -/

/-- Present, both sides ready and neither in reset. -/
structure Open (controller : Controller) : Prop where
  present : controller.present = true
  hostReady : (Csr.mk controller.hostStatus).ready = true
  ownReady : (Csr.mk controller.ownStatus).ready = true
  hostReleased : (Csr.mk controller.hostStatus).reset = false
  ownReleased : (Csr.mk controller.ownStatus).reset = false

theorem Open.hostStatus_present (opened : controller.Open) :
    (Csr.mk controller.hostStatus).absent = false :=
  Csr.present_of_quiet (Csr.quiet_of_has opened.hostReleased) (by decide)

theorem Open.ownStatus_present (opened : controller.Open) :
    (Csr.mk controller.ownStatus).absent = false :=
  Csr.present_of_quiet (Csr.quiet_of_has opened.ownReleased) (by decide)

theorem Open.withRing (opened : controller.Open) (hostRing : Ring) :
    Open { controller with hostRing } := by
  let other := { controller with hostRing }
  have same : ∀ {mask : UInt32}, mask.toNat < 0x100 →
      (Csr.mk other.hostStatus).has mask = (Csr.mk controller.hostStatus).has mask := by
    intro mask low
    have bits : other.hostStatus &&& mask = controller.hostStatus &&& mask :=
      (@hostStatus_and other opened.present mask low).trans
        (hostStatus_and opened.present low).symm
    rw [Csr.has, Csr.has, bits]
  exact { opened with
    hostReady := (same (by decide)).trans opened.hostReady
    hostReleased := (same (by decide)).trans opened.hostReleased }

theorem Open.rung (opened : controller.Open)
    (waiting : controller.autoConsume = false) :
    let next := controller.writeRegister Register.hostCsr
      ((Csr.mk controller.hostStatus).withDoorbell false)
    next.hostRing = controller.hostRing ∧ next.doorbells = controller.doorbells + 1 ∧
      next.dropped = controller.dropped := by
  have attentive : controller.Attentive := ⟨opened.present, opened.ownReady, opened.hostReleased⟩
  obtain ⟨hostFlags, -, rung⟩ := attentive.doorbell false
  rw [rung, waiting]
  exact ⟨rfl, rfl, rfl⟩

end Controller

end HeciMailbox
