import HeciMailbox.Proofs.Budgets
import HeciMailbox.Proofs.Rings

/-! The simulated controller drops no word that a look at its cursors has allowed.

Between a look and a write the peer may empty the host ring, but it never fills it; so the room that
the look has shown is still there. -/

set_option autoImplicit false

namespace HeciMailbox

namespace Controller

/-- The host ring has at least as much room as before, and nothing was dropped. -/
structure Yields (before after : Controller) : Prop where
  present : after.present = before.present
  dropped : after.dropped = before.dropped
  room : before.hostRing.room ≤ after.hostRing.room

namespace Yields

variable {first second third : Controller}

theorem of_same (present : second.present = first.present)
    (dropped : second.dropped = first.dropped) (hostRing : second.hostRing = first.hostRing) :
    Yields first second :=
  ⟨present, dropped, Nat.le_of_eq (by rw [hostRing])⟩

theorem trans (earlier : Yields first second) (later : Yields second third) : Yields first third :=
  ⟨later.present.trans earlier.present, later.dropped.trans earlier.dropped,
    Nat.le_trans earlier.room later.room⟩

theorem fill (controller : Controller) : Yields controller controller.fill := of_same rfl rfl rfl

theorem accept (controller : Controller) (header : Frame.Header) (payload : List UInt8) :
    Yields controller (controller.accept header payload) := by
  unfold Controller.accept
  split
  · dsimp only
    split
    · exact of_same rfl rfl rfl
    · exact of_same rfl rfl rfl
  · exact of_same rfl rfl rfl

end Yields

theorem room_le_of_takeFrame? {ring next : Ring} {header : Frame.Header} {payload : List UInt8}
    (taken : takeFrame? ring = some (header, payload, next)) : ring.room ≤ next.room := by
  unfold takeFrame? at taken
  split at taken
  · cases taken
  · dsimp only at taken
    split at taken
    · cases taken
    · cases taken
      exact Ring.room_le_popMany _

theorem Yields.takeFrames (count : Nat) (controller : Controller) :
    Yields controller (controller.takeFrames count) := by
  refine takeFrames_keeps (of_same rfl rfl rfl) (fun {before _ _ hostRing} taken yields => ?_) count
  have popped : Yields before { before with hostRing } := ⟨rfl, rfl, room_le_of_takeFrame? taken⟩
  exact yields.trans (popped.trans (accept _ _ _))

theorem Yields.consume (controller : Controller) : Yields controller controller.consume :=
  (takeFrames _ controller).trans (of_same rfl rfl rfl)

theorem Yields.ringDoorbell (controller : Controller) (inReset : Bool) :
    Yields controller (controller.ringDoorbell inReset) := by
  unfold Controller.ringDoorbell
  dsimp only
  split
  · exact of_same rfl rfl rfl
  · split
    · exact of_same rfl rfl rfl
    · split
      · have counted :
            Yields controller { controller with doorbells := controller.doorbells + 1 } :=
          of_same rfl rfl rfl
        exact counted.trans ((consume _).trans (fill _))
      · exact of_same rfl rfl rfl

theorem Yields.writeFlags (controller : Controller) (value : UInt32) :
    Yields controller (controller.writeFlags value) := by
  unfold Controller.writeFlags
  lift_lets
  intro held hostFlags
  split
  · exact ⟨rfl, rfl, Ring.room_le_reset⟩
  · exact of_same rfl rfl rfl

theorem Yields.writeHostCsr (controller : Controller) (value : UInt32) :
    Yields controller (controller.writeHostCsr value) := by
  unfold Controller.writeHostCsr
  dsimp only
  split
  · exact writeFlags controller value
  · exact (writeFlags controller value).trans (ringDoorbell _ _)

theorem Yields.readRegister (controller : Controller) (offset : UInt32) :
    Yields controller (controller.readRegister offset).2 := by
  unfold Controller.readRegister
  repeat' split
  all_goals exact of_same rfl rfl rfl

theorem room_hostStatus (controller : Controller) :
    (Csr.mk controller.hostStatus).room ≤ controller.hostRing.room := by
  unfold hostStatus Csr.room
  split
  · split
    · exact Nat.zero_le _
    · have shown := Cursors.ofCsr_compose controller.hostFlags controller.hostRing.read
        controller.hostRing.write controller.hostRing.depth
      rw [Ring.room_eq, ← Ring.toNat_depth]
      simp only [statusWord, shown]
      exact Nat.le_refl _
  · simp [Csr.absent]

theorem yields_writeRegister {controller : Controller} {offset value : UInt32}
    (other : offset ≠ Register.hostWindow) :
    Yields controller (controller.writeRegister offset value) := by
  unfold Controller.writeRegister
  rw [if_neg other]
  split
  · exact .of_same rfl rfl rfl
  · split
    · exact Yields.writeHostCsr controller value
    · exact .of_same rfl rfl rfl

theorem writeWindow_of_absent {controller : Controller} (absent : controller.present = false)
    (value : UInt32) : controller.writeRegister Register.hostWindow value = controller := by
  simp [Controller.writeRegister, absent]

theorem writeWindow_of_room {controller : Controller} (roomy : 0 < controller.hostRing.room)
    (here : controller.present = true) (value : UInt32) :
    ∃ hostRing, controller.writeRegister Register.hostWindow value = { controller with hostRing } ∧
      controller.hostRing.room = hostRing.room + 1 := by
  obtain ⟨hostRing, pushed, room⟩ := Ring.room_of_push? roomy value
  exact ⟨hostRing, by simp [Controller.writeRegister, here, pushed], room⟩

end Controller

theorem Budget.spend_host {allowance unspent : Nat} {value : UInt32} {rest : List Entry}
    (spent : Budget.host.left allowance (.write Register.hostWindow value :: rest) = some unspent) :
    ∃ left, allowance = left + 1 ∧ Budget.host.left left rest = some unspent := by
  obtain ⟨left, steps, spent⟩ := steps_of_left spent
  cases steps with
  | granted looked => cases looked
  | idle _ still => simp [Budget.host] at still
  | spent => exact ⟨left, rfl, spent⟩

/-- What is left of the budget is room in the host ring, unless the function is absent. -/
def Covered (allowance : Nat) (controller : Controller) : Prop :=
  controller.present = true → allowance ≤ controller.hostRing.room

theorem Covered.yields {allowance : Nat} {before after : Controller}
    (covered : Covered allowance before) (yields : before.Yields after) :
    Covered allowance after := fun here =>
  Nat.le_trans (covered (yields.present ▸ here)) yields.room

theorem Controller.covered_hostStatus (controller : Controller) :
    Covered (Csr.mk (controller.readRegister Register.hostCsr).1).room controller := fun _ => by
  rw [readRegister_hostCsr]
  exact room_hostStatus controller

/-- Register accesses of the controller in which each word for the host window finds room, unless
the function is absent. -/
inductive Controller.Houses : Controller → List Entry → Controller → Prop where
  | done {controller : Controller} : Houses controller [] controller
  | read {controller after : Controller} {rest : List Entry} (offset : UInt32) :
    Houses (controller.readRegister offset).2 rest after →
    Houses controller (.read offset (controller.readRegister offset).1 :: rest) after
  | write {controller after : Controller} {offset value : UInt32} {rest : List Entry} :
    (offset = Register.hostWindow → Covered 1 controller) →
    Houses (controller.writeRegister offset value) rest after →
    Houses controller (.write offset value :: rest) after
  | note {controller after : Controller} {entry : Entry} {rest : List Entry} :
    entry.access? = none → Houses controller rest after → Houses controller (entry :: rest) after

theorem Covered.writeWindow {left : Nat} {controller : Controller}
    (covered : Covered (left + 1) controller) (value : UInt32) :
    Covered left (controller.writeRegister Register.hostWindow value) := by
  cases here : controller.present with
  | false =>
    rw [Controller.writeWindow_of_absent here]
    exact fun present => by simp [here] at present
  | true =>
    have enough : left + 1 ≤ controller.hostRing.room := covered here
    obtain ⟨hostRing, pushed, room⟩ :=
      Controller.writeWindow_of_room (Nat.lt_of_lt_of_le (Nat.succ_pos left) enough) here value
    rw [room] at enough
    rw [pushed]
    exact fun _ => Nat.le_of_succ_le_succ enough

/-- Accesses that keep to the budget of the host window find room for each word. -/
theorem houses_of_path {before after : Timed Controller} {entries : List Entry}
    (path : Path before entries after) {allowance unspent : Nat}
    (spent : Budget.host.left allowance entries = some unspent)
    (covered : Covered allowance before.registers) :
    before.registers.Houses entries after.registers := by
  -- The invariant is `Covered`. A look sets the allowance to no more than the room; a window write
  -- takes one off both; whatever else the controller does only makes room.
  induction path generalizing allowance with
  | done => exact .done
  | @read state next after offset value rest answered _ ih =>
    obtain ⟨rfl, rfl⟩ : value = (state.registers.readRegister offset).1 ∧
        next = { state with registers := (state.registers.readRegister offset).2 } := by
      simpa [Registers.read, eq_comm] using answered
    have yields := Controller.Yields.readRegister state.registers offset
    refine .read offset ?_
    by_cases status : offset = Register.hostCsr
    · subst status
      rw [show (Entry.read Register.hostCsr (state.registers.readRegister Register.hostCsr).1) =
        .read Budget.host.status (Csr.mk (state.registers.readRegister Register.hostCsr).1).raw from
        rfl, Budget.left_grant] at spent
      exact ih spent ((Controller.covered_hostStatus state.registers).yields yields)
    · rw [Budget.left_skip (by simp [Budget.host, status]) rfl] at spent
      exact ih spent (covered.yields yields)
  | @write state next after offset value rest answered _ ih =>
    obtain rfl : next = { state with registers := state.registers.writeRegister offset value } := by
      simpa [Registers.write, eq_comm] using answered
    by_cases window : offset = Register.hostWindow
    · subst window
      obtain ⟨left, rfl, spent⟩ := Budget.spend_host spent
      have enough : Covered 1 state.registers := fun present =>
        Nat.le_trans (Nat.le_add_left 1 left) (covered present)
      exact .write (fun _ => enough) (ih spent (covered.writeWindow value))
    · rw [Budget.left_skip rfl (by simp [Budget.host, window])] at spent
      exact .write (fun same => absurd same window)
        (ih spent (covered.yields (Controller.yields_writeRegister window)))
  | refused answered => simp [Registers.write] at answered
  | @note state after entry rest quiet _ ih =>
    refine .note quiet (ih ?_ covered)
    cases entry with
    | read => simp [Entry.access?] at quiet
    | write => simp [Entry.access?] at quiet
    | _ => rwa [Budget.left_skip rfl rfl] at spent
  | pause microseconds _ ih => exact ih spent covered

theorem Controller.Houses.dropped {before after : Controller} {entries : List Entry}
    (houses : before.Houses entries after) : after.dropped = before.dropped := by
  induction houses with
  | done => rfl
  | @read controller _ _ offset _ ih =>
    exact ih.trans (Yields.readRegister controller offset).dropped
  | @write controller _ offset value _ room _ ih =>
    refine ih.trans ?_
    by_cases window : offset = Register.hostWindow
    · subst window
      cases here : controller.present with
      | false => rw [writeWindow_of_absent here]
      | true =>
        obtain ⟨hostRing, pushed, -⟩ := writeWindow_of_room (room rfl here) here value
        rw [pushed]
    · exact (yields_writeRegister window).dropped
  | note _ _ ih => exact ih

/-- Accesses that keep to the budget of the host window drop no word. -/
theorem dropped_of_path {before after : Timed Controller} {entries : List Entry}
    (path : Path before entries after) {allowance unspent : Nat}
    (spent : Budget.host.left allowance entries = some unspent)
    (covered : Covered allowance before.registers) :
    after.registers.dropped = before.registers.dropped :=
  (houses_of_path path spent covered).dropped

end HeciMailbox
