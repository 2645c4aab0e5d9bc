import HeciMailbox.Proofs.Agreement
import HeciMailbox.Proofs.Doorbells
import HeciMailbox.Proofs.Phases
import HeciMailbox.Proofs.Steering

/-! A reset makes a fresh channel of whatever the simulated controller has become.

The three writes of the handshake are followed one by one. What the first leaves is cleared but for
the flags, the second and the third set these, and the controller then shows nothing that a new one
does not show. -/

set_option autoImplicit false

namespace HeciMailbox

namespace Controller

/-! ### The handshake as the controller sees it -/

theorem writeFlags_of_entering {controller : Controller} {value : UInt32}
    (asked : value &&& Csr.resetBit = Csr.resetBit)
    (released : Csr.Quiet Csr.resetBit controller.hostFlags) :
    ∃ held, controller.writeFlags value =
      { controller with
        hostRing := controller.hostRing.reset
        ownRing := controller.ownRing.reset
        pending := []
        assembly := []
        hostFlags := (held &&& Csr.statusBit ||| value &&& controlBits) &&& ~~~Csr.readyBit
        ownFlags := controller.ownFlags &&& ~~~Csr.readyBit } := by
  unfold Controller.writeFlags
  lift_lets
  intro held hostFlags
  have still : held &&& Csr.resetBit = 0 := by
    unfold held
    split
    · exact released.and _
    · exact released
  refine ⟨held, if_pos ?_⟩
  rw [asked, still]
  rfl

/-- A controller whose rings are clear and that has nothing under way, while the two sides show
these flags; the rest is as in `origin`. -/
structure Cleared (hostDepth ownDepth : Nat) (hostShown ownShown : UInt32)
    (controller origin : Controller) : Prop where
  present : controller.present = true
  hostSize : controller.hostRing.slots.size = hostDepth
  ownSize : controller.ownRing.slots.size = ownDepth
  hostCursors : controller.hostRing.read = 0 ∧ controller.hostRing.write = 0
  ownCursors : controller.ownRing.read = 0 ∧ controller.ownRing.write = 0
  hostFlags : controller.hostFlags &&& Csr.liveBits = hostShown
  ownFlags : controller.ownFlags &&& Csr.liveBits = ownShown
  autoConsume : controller.autoConsume = origin.autoConsume
  responses : controller.responses = origin.responses
  pending : controller.pending = []
  assembly : controller.assembly = []
  received : controller.received = origin.received

variable {hostDepth ownDepth : Nat} {hostShown ownShown : UInt32} {origin controller : Controller}

/-- Entering a reset clears everything, whatever was there. -/
theorem Shaped.cleared (shaped : controller.Shaped hostDepth ownDepth)
    (present : controller.present = true) (released : Csr.Quiet Csr.resetBit controller.hostFlags)
    {value : UInt32} (asked : value &&& Csr.resetBit = Csr.resetBit)
    (rung : value &&& Csr.generateBit = Csr.generateBit) :
    (controller.writeRegister Register.hostCsr value).Cleared hostDepth ownDepth Csr.resetBit 0
      controller := by
  obtain ⟨held, flags⟩ := writeFlags_of_entering asked released
  rw [writeStatus_of_present present, writeHostCsr_of_rung rung, flags, asked]
  exact {
    present := present
    hostSize := shaped.hostSize
    ownSize := shaped.ownSize
    hostCursors := ⟨rfl, rfl⟩
    ownCursors := ⟨rfl, rfl⟩
    hostFlags := by
      refine (UInt32.and_assoc _ _ _).trans ((taken_and held value ?_).trans ?_)
      · decide
      · exact asked
    ownFlags := (UInt32.and_assoc _ _ _).trans shaped.ownQuiet
    autoConsume := rfl
    responses := rfl
    pending := rfl
    assembly := rfl
    received := rfl }

theorem and_of_live {flags shown : UInt32} (live : flags &&& Csr.liveBits = shown) (mask : UInt32)
    (within : Csr.liveBits &&& mask = mask) : flags &&& mask = shown &&& mask := by
  rw [← live, UInt32.and_assoc, within]

namespace Cleared

theorem fill (cleared : controller.Cleared hostDepth ownDepth hostShown ownShown origin) :
    controller.fill.Cleared hostDepth ownDepth hostShown ownShown origin := by
  unfold Controller.fill
  rw [cleared.pending]
  exact { cleared with pending := rfl }

theorem consume (cleared : controller.Cleared hostDepth ownDepth hostShown ownShown origin) :
    controller.consume.Cleared hostDepth ownDepth hostShown ownShown origin := by
  have nothing : controller.hostRing.cursors.filled = 0 := by
    simp [Ring.cursors, Cursors.filled, cleared.hostCursors]
  unfold Controller.consume
  rw [nothing]
  exact { cleared with
    ownFlags := (Csr.Quiet.or_and (by decide) controller.ownFlags).trans cleared.ownFlags }

/-- The doorbell of a released host makes the controller side ready, or finds it ready. -/
theorem ringDoorbell (cleared : controller.Cleared hostDepth ownDepth hostShown ownShown origin)
    (known : ownShown = 0 ∨ ownShown = Csr.readyBit) :
    (controller.ringDoorbell false).Cleared hostDepth ownDepth hostShown Csr.readyBit origin := by
  have counted : Cleared hostDepth ownDepth hostShown ownShown
      { controller with doorbells := controller.doorbells + 1 } origin := { cleared with }
  unfold Controller.ringDoorbell
  rw [if_neg (by simp), and_of_live cleared.ownFlags Csr.readyBit (by decide)]
  obtain rfl | rfl := known
  · rw [if_pos (by decide)]
    exact { counted with
      ownFlags := (Csr.or_and_of_same (cleared.ownFlags.trans (by decide)) Csr.readyBit).trans
        (by decide : (0 ||| Csr.readyBit) &&& Csr.liveBits = Csr.readyBit) }
  · rw [if_neg (by decide)]
    split
    · exact counted.consume.fill
    · exact counted.fill

theorem writeStatus (cleared : controller.Cleared hostDepth ownDepth hostShown ownShown origin)
    (known : ownShown = 0 ∨ ownShown = Csr.readyBit) {value shown : UInt32}
    (live : value &&& Csr.liveBits = shown ||| Csr.generateBit)
    (marks : shown = 0 ∨ shown = Csr.readyBit) :
    (controller.writeRegister Register.hostCsr value).Cleared hostDepth ownDepth shown Csr.readyBit
      origin := by
  have rung : value &&& Csr.generateBit = Csr.generateBit := by
    rw [and_of_live live _ (by decide)]
    obtain rfl | rfl := marks <;> decide
  have unasked : value &&& Csr.resetBit = 0 := by
    rw [and_of_live live _ (by decide)]
    obtain rfl | rfl := marks <;> decide
  obtain ⟨held, flags⟩ := @writeFlags_of_unasked controller _ unasked
  rw [writeStatus_of_present cleared.present, writeHostCsr_of_rung rung, flags, unasked]
  refine ringDoorbell ?_ known
  refine { cleared with hostFlags := ?_ }
  rw [taken_and held value (by decide), and_of_live live _ (by decide)]
  obtain rfl | rfl := marks <;> decide

end Cleared

/-! ### A new controller -/

namespace Cleared

theorem hostStatus_live
    (cleared : controller.Cleared hostDepth ownDepth hostShown ownShown origin) :
    controller.hostStatus &&& Csr.liveBits = hostShown :=
  (hostStatus_and cleared.present (by decide)).trans cleared.hostFlags

theorem ownStatus_live
    (cleared : controller.Cleared hostDepth ownDepth hostShown ownShown origin) :
    controller.ownStatus &&& Csr.liveBits = ownShown :=
  (ownStatus_and cleared.present (by decide)).trans cleared.ownFlags

theorem hostStatus_present
    (cleared : controller.Cleared hostDepth ownDepth hostShown ownShown origin)
    (quiet : Csr.Quiet Csr.generateBit hostShown) :
    (Csr.mk controller.hostStatus).absent = false :=
  Csr.present_of_quiet ((and_of_live cleared.hostStatus_live _ (by decide)).trans quiet)
    (by decide)

theorem ownStatus_ready
    (cleared : controller.Cleared hostDepth ownDepth hostShown ownShown origin) :
    (Csr.mk controller.ownStatus).ready = (Csr.mk ownShown).ready := by
  simp only [Csr.ready, Csr.has, and_of_live cleared.ownStatus_live Csr.readyBit (by decide)]

theorem hostStatus_has
    (cleared : controller.Cleared hostDepth ownDepth hostShown ownShown origin) {mask : UInt32}
    (within : Csr.liveBits &&& mask = mask) :
    (Csr.mk controller.hostStatus).has mask = (Csr.mk hostShown).has mask := by
  simp only [Csr.has, and_of_live cleared.hostStatus_live mask within]

end Cleared

theorem Cleared.cursors {hostDepth ownDepth : UInt8}
    (cleared :
      controller.Cleared hostDepth.toNat ownDepth.toNat hostShown ownShown origin) :
    controller.hostRing.cursors = ⟨0, 0, hostDepth⟩ ∧
      controller.ownRing.cursors = ⟨0, 0, ownDepth⟩ := by
  simp only [Ring.cursors, Ring.depth, cleared.hostCursors, cleared.ownCursors, cleared.hostSize,
    cleared.ownSize, UInt8.ofNat_toNat, and_self]

/-- A controller just made, with the prepared responses of `origin` and its way of taking frames. -/
def renewed (hostDepth ownDepth : UInt8) (origin : Controller) : Controller :=
  { ofDepths hostDepth ownDepth with
    responses := origin.responses
    autoConsume := origin.autoConsume }

theorem Cleared.alike {hostDepth ownDepth : UInt8}
    (cleared : controller.Cleared hostDepth.toNat ownDepth.toNat Csr.readyBit Csr.readyBit origin) :
    Alike origin.received controller (renewed hostDepth ownDepth origin) :=
  have same : Csr.readyBit = Csr.readyBit &&& Csr.liveBits := by decide
  { present := cleared.present
    present' := rfl
    hostRing := .of_cleared (cleared.hostSize.trans Array.size_replicate.symm) cleared.hostCursors
      ⟨rfl, rfl⟩
    ownRing := .of_cleared (cleared.ownSize.trans Array.size_replicate.symm) cleared.ownCursors
      ⟨rfl, rfl⟩
    hostFlags := ⟨cleared.hostFlags.trans same, and_of_live cleared.hostFlags _ (by decide)⟩
    ownFlags := ⟨cleared.ownFlags.trans same, and_of_live cleared.ownFlags _ (by decide)⟩
    autoConsume := cleared.autoConsume
    responses := cleared.responses
    pending := cleared.pending
    assembly := cleared.assembly
    received := cleared.received.trans (List.append_nil _).symm }

end Controller

def Timed.Alike (earlier : List Message) (first second : Timed Controller) : Prop :=
  first.registers.Alike earlier second.registers ∧ first.elapsed = second.elapsed

instance {earlier : List Message} : Twins (Timed.Alike earlier) where
  look {offset one two} member alike := by
    obtain rfl | rfl : offset = Register.hostCsr ∨ offset = Register.controllerCsr := by
      simpa using member
    · refine ⟨one.registers.hostStatus, one, two.registers.hostStatus, two, ?_, ?_,
        alike.1.hostStatus, alike⟩
      · simp only [Registers.read, Controller.readRegister_hostCsr]
      · simp only [Registers.read, Controller.readRegister_hostCsr]
    · refine ⟨one.registers.ownStatus, one, two.registers.ownStatus, two, ?_, ?_,
        alike.1.ownStatus, alike⟩
      · simp only [Registers.read, Controller.readRegister_controllerCsr]
      · simp only [Registers.read, Controller.readRegister_controllerCsr]
  take {one two} alike := by
    obtain ⟨word, next, other, answered, answered', alike'⟩ := alike.1.takeWord
    refine ⟨word, { one with registers := next }, { two with registers := other }, ?_, ?_, alike',
      alike.2⟩
    · simp only [Registers.read, answered]
    · simp only [Registers.read, answered']
  put word alike := ⟨_, _, rfl, rfl, alike.1.putWord word, alike.2⟩
  mark live alike := ⟨_, _, rfl, rfl, alike.1.putStatus live, alike.2⟩
  now alike := alike.2
  pause microseconds alike :=
    ⟨alike.1, congrArg (· + max 1 microseconds) alike.2⟩

namespace Op

/-! ### The run of a reset -/

variable {hostDepth ownDepth : Nat} {hostShown ownShown : UInt32} {origin : Controller}
  {state : Timed Controller}

theorem awaitReady_returns {link : Link} (fuel : 0 < link.fuel) (ready : Bool)
    (shown : (Csr.mk state.registers.ownStatus).ready = ready) :
    (awaitReady link ready : Op (Timed Controller) Unit).Returns state () state := by
  refine .deadlineAfter (await_served (.following controllerCsr_served (.pure ⟨?_, rfl⟩)) fuel)
  simp [shown]

theorem reset_reaches {link : Link} (fuel : 0 < link.fuel)
    (shaped : state.registers.Shaped hostDepth ownDepth) (present : state.registers.present = true)
    (released : (Csr.mk state.registers.hostStatus).reset = false) :
    (reset link).Reaches state fun outcome after =>
      outcome = .ok () ∧ after.elapsed = state.elapsed ∧
        after.registers.Cleared hostDepth ownDepth Csr.readyBit Csr.readyBit state.registers := by
  have ownQuiet : Csr.Quiet Csr.generateBit state.registers.ownStatus :=
    (Controller.ownStatus_and present (by decide)).trans (shaped.ownQuiet.mono (by decide))
  have hostQuiet : Csr.Quiet Csr.generateBit state.registers.hostStatus :=
    (Controller.hostStatus_and present (by decide)).trans shaped.hostQuiet
  have unreset : Csr.Quiet Csr.resetBit state.registers.hostStatus := Csr.quiet_of_has released
  have present' : (Csr.mk state.registers.ownStatus).absent = false :=
    Csr.present_of_quiet ownQuiet (by decide)
  refine .following controllerCsr_served (.ite_neg (by simp [present']) ?_)
  -- First write: both rings and everything under way are gone, and neither side is ready.
  refine .following (hostCsr_returns (Csr.present_of_quiet hostQuiet (by decide)))
    (.writeRegister rfl ?_)
  have asked := shaped.cleared present
    ((Controller.hostStatus_and present (by decide)).symm.trans unreset)
    (Csr.withBits_and (unreset.trans UInt32.zero_and.symm) (Csr.resetBit ||| Csr.generateBit) 0)
    (Csr.withBits_and (hostQuiet.trans UInt32.zero_and.symm) (Csr.resetBit ||| Csr.generateBit) 0)
  refine .following (awaitReady_returns fuel false asked.ownStatus_ready) ?_
  -- Second write: the host side leaves the reset, and the controller side becomes ready.
  refine .following (hostCsr_returns (asked.hostStatus_present (by decide)))
    (.writeRegister rfl ?_)
  have freed := asked.writeStatus (.inl rfl)
    (Csr.withBits_and (show _ = Csr.resetBit &&& Csr.liveBits from asked.hostStatus_live)
      Csr.generateBit Csr.resetBit)
    (.inl rfl)
  refine .following (awaitReady_returns fuel true freed.ownStatus_ready) ?_
  -- Third write: the host side is ready too, and its doorbell finds nothing to take.
  refine .following (hostCsr_returns (freed.hostStatus_present (by decide)))
    (.writeRegister rfl ?_)
  have marked := freed.writeStatus (.inr rfl)
    (Csr.withBits_and (show _ = 0 &&& Csr.liveBits from freed.hostStatus_live)
      (Csr.readyBit ||| Csr.generateBit) 0)
    (.inr rfl)
  exact .last (.emit (.pure ⟨rfl, rfl, marked⟩))

/-! ### What observers are told -/

theorem Awaited.events {offset : UInt32} {judge : Csr → Except Stop (Option Unit)}
    {deadline : Deadline} {entries : List Entry} {outcome : Except Stop Unit}
    (awaited : Awaited offset judge deadline entries outcome) : Trace.events entries = [] := by
  obtain ⟨rounds, rfl, waited⟩ := awaited
  refine List.filterMap_eq_nil_iff.mpr (List.forall_mem_cons.mpr ⟨rfl, fun entry member => ?_⟩)
  obtain ⟨value, rfl⟩ := waited.looks entry member
  rfl

theorem HandshakeStep.events {set clear : UInt32} {ready : Bool} {entries : List Entry}
    {outcome : Except Stop Unit} (step : HandshakeStep set clear ready entries outcome) :
    Trace.events entries = [] := by
  cases step with
  | gone marked => cases marked; rfl
  | answered marked awaited =>
    cases marked
    rw [Trace.events_append, awaited.events]
    rfl

theorem Reset.events {entries : List Entry} (reset : Reset entries (.ok ())) :
    Trace.events entries = [.reset] := by
  cases reset with
  | reset _ asked released marked =>
    cases marked
    rw [← List.singleton_append, Trace.events_append, Trace.events_append, Trace.events_append,
      asked.events, released.events]
    rfl

/-! ### The fresh channel -/

/-- Whatever has happened to a simulated controller that is present and not in reset, a reset
succeeds, announces itself once and leaves both rings empty, nothing under way and both sides ready.
From then on every run of calls returns what it returns on a new controller with the same depths,
prepared responses and way of taking frames, and the peer receives the same further requests. -/
theorem reset_restores_a_fresh_channel (hostDepth ownDepth : UInt8) (happenings : List Happening)
    {link : Link} (fuel : 0 < link.fuel) :
    let world := Happening.runAll (simulated hostDepth ownDepth []) happenings
    let origin := world.hardware.registers
    let after := (reset link).reached world
    let controller := after.hardware.registers
    let fresh : World (Timed Controller) :=
      ⟨⟨origin.renewed hostDepth ownDepth, after.hardware.elapsed⟩, #[]⟩
    origin.present = true → (Csr.mk origin.hostStatus).reset = false →
      (reset link).outcome world = .ok () ∧
      Trace.events ((reset link).added world) = [.reset] ∧
      controller.hostRing.cursors = ⟨0, 0, hostDepth⟩ ∧
      controller.ownRing.cursors = ⟨0, 0, ownDepth⟩ ∧
      controller.pending = [] ∧ controller.assembly = [] ∧
      (Csr.mk controller.hostStatus).ready = true ∧ (Csr.mk controller.hostStatus).reset = false ∧
      (Csr.mk controller.ownStatus).ready = true ∧
      ∀ calls : List (Link × Call),
        (replies calls).outcome after = (replies calls).outcome fresh ∧
        ((replies calls).reached after).hardware.registers.received =
          controller.received ++ ((replies calls).reached fresh).hardware.registers.received := by
  intro world origin after controller fresh present released
  have shaped : origin.Shaped hostDepth.toNat ownDepth.toNat :=
    Happening.shaped_runAll { Controller.Shaped.ofDepths hostDepth ownDepth with } happenings
  obtain ⟨returned, -, cleared⟩ := (reset_reaches fuel shaped present released).holds
  have told := (reset_ensures link).holds world
  rw [returned] at told
  refine ⟨returned, told.1.events, cleared.cursors.1, cleared.cursors.2, cleared.pending,
    cleared.assembly, cleared.hostStatus_has (by decide), cleared.hostStatus_has (by decide),
    cleared.ownStatus_ready, fun calls => ?_⟩
  have alike : Timed.Alike origin.received after.hardware fresh.hardware := ⟨cleared.alike, rfl⟩
  obtain ⟨same, further⟩ := (agree_replies calls).holds alike
  exact ⟨same, further.1.received.trans (by rw [cleared.received])⟩

/-- A send is cut short and half its message taken, half a frame lies in the other ring, the host
ring's cursors are forced into overflow, interrupts are enabled and neither side is ready. -/
def disorder : List Happening :=
  [.steered (.queueResponse (.ofBytes [5, 6])), .steered (.setAutoConsume false),
    .called hasty (.send (.ofBytes (List.replicate 28 0xAA)) ⟨0, 7⟩), .steered .consumeNow,
    .steered (.injectWords [0x00080007, 0xBBBBBBBB]), .steered (.write Register.hostCsr 0x09),
    .steered (.setHostCursors 0 200), .steered (.setOwnReady false),
    .steered (.setHostReady false), .steered (.setAutoConsume true)]

theorem disorder_ends_with_a_reset :
    let world := Happening.runAll (simulated 4 4 []) disorder
    let after := (reset hasty).reached world
    0 < hasty.fuel ∧ world.hardware.registers.present = true ∧
    (Csr.mk world.hardware.registers.hostStatus).reset = false ∧
    (replies [(hasty, .sendAndAwait (.ofBytes [1, 2, 3, 4]) ⟨0, 7⟩ 1000 64)]).outcome after =
      .ok [.ok (.message (.ofBytes [5, 6]))] := by
  intro world after
  have fuel : 0 < hasty.fuel := by decide
  have present : world.hardware.registers.present = true := by decide +kernel
  have released : (Csr.mk world.hardware.registers.hostStatus).reset = false := by decide +kernel
  obtain ⟨-, -, -, -, -, -, -, -, -, same⟩ :=
    reset_restores_a_fresh_channel 4 4 disorder fuel present released
  refine ⟨fuel, present, released, (same _).1.trans ?_⟩
  decide +kernel

end Op

end HeciMailbox
