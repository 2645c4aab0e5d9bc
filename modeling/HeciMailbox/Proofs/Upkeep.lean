import HeciMailbox.Proofs.Looks
import HeciMailbox.Transport.Drain
import HeciMailbox.Transport.Handshake

/-! What draining, bringing up and resetting do, on any hardware. -/

set_option autoImplicit false

namespace HeciMailbox.Op

inductive FrameDiscarded (depth : UInt8) : List Entry → Except Stop Unit → Prop where
  | oversized {header : Frame.Header} {discarding : List Entry} {outcome : Except Stop Unit} :
    depth.toNat ≤ header.words → Discarded discarding outcome →
    FrameDiscarded depth (.read Register.controllerWindow header.raw :: discarding) outcome
  | cutOff {header : Frame.Header} {deadline : Deadline} {waiting : List Entry} {stop : Stop} :
    header.words < depth.toNat →
    Awaited Register.controllerCsr (whenUsable (filledTo header.words)) deadline waiting
      (.error stop) →
    FrameDiscarded depth (.read Register.controllerWindow header.raw :: waiting) (.error stop)
  | taken {header : Frame.Header} {deadline : Deadline} {waiting acknowledgement : List Entry}
    {payload : List UInt32} :
    header.words < depth.toNat →
    Awaited Register.controllerCsr (whenUsable (filledTo header.words)) deadline waiting (.ok ()) →
    payload.length = header.words → Acknowledged acknowledgement →
    FrameDiscarded depth
      (.read Register.controllerWindow header.raw ::
        (waiting ++ (payload.map (.read Register.controllerWindow) ++ acknowledgement))) (.ok ())

inductive FramesDiscarded : Nat → List Entry → Except Stop Nat → Prop where
  | limit {frames : Nat} : FramesDiscarded frames [] (.ok frames)
  | stopped {frames : Nat} {csr : Csr} {stop : Stop} : usable csr = .error stop →
    FramesDiscarded frames [.read Register.controllerCsr csr.raw] (.error stop)
  | empty {frames : Nat} {csr : Csr} {cursors : Cursors} : usable csr = .ok cursors →
    cursors.isEmpty = true →
    FramesDiscarded frames [.read Register.controllerCsr csr.raw] (.ok frames)
  | undiscarded {frames : Nat} {csr : Csr} {cursors : Cursors} {entries : List Entry}
    {stop : Stop} : usable csr = .ok cursors → cursors.isEmpty = false →
    FrameDiscarded cursors.depth entries (.error stop) →
    FramesDiscarded frames (.read Register.controllerCsr csr.raw :: entries) (.error stop)
  | next {frames : Nat} {csr : Csr} {cursors : Cursors} {entries tail : List Entry}
    {outcome : Except Stop Nat} : usable csr = .ok cursors → cursors.isEmpty = false →
    FrameDiscarded cursors.depth entries (.ok ()) → FramesDiscarded (frames + 1) tail outcome →
    FramesDiscarded frames (.read Register.controllerCsr csr.raw :: (entries ++ tail)) outcome

/-- A drain, with its announcement if any frame went. -/
inductive Drained : List Entry → Except Stop Nat → Prop where
  | nothing {entries : List Entry} : FramesDiscarded 0 entries (.ok 0) → Drained entries (.ok 0)
  | removed {entries : List Entry} {frames : Nat} : 0 < frames →
    FramesDiscarded 0 entries (.ok frames) →
    Drained (entries ++ [.event (.drained frames)]) (.ok frames)
  | stopped {entries : List Entry} {stop : Stop} : FramesDiscarded 0 entries (.error stop) →
    Drained entries (.error stop)

def whenUp (csr : Csr) : Except Stop (Option Unit) :=
  .ok (if !csr.absent && csr.ready then some () else none)

def whenReady (ready : Bool) (csr : Csr) : Except Stop (Option Unit) :=
  .ok (if csr.ready == ready then some () else none)

/-- The host status is read and written back with the bits of `set` on and those of `clear` off. -/
inductive Marked (set clear : UInt32) : List Entry → Except Stop Unit → Prop where
  | gone {csr : Csr} : csr.absent = true →
    Marked set clear [.read Register.hostCsr csr.raw] (.error (.fault .notPresent))
  | marked {csr : Csr} : csr.absent = false →
    Marked set clear
      [.read Register.hostCsr csr.raw, .write Register.hostCsr (csr.withBits set clear)] (.ok ())

inductive BroughtUp : List Entry → Except Stop Unit → Prop where
  | down {deadline : Deadline} {waiting : List Entry} {fault : Fault} :
    Awaited Register.controllerCsr whenUp deadline waiting (.error (.fault fault)) →
    BroughtUp waiting (.error (.fault .notPresent))
  | abandoned {deadline : Deadline} {waiting : List Entry} {stop : Stop} :
    (∀ fault, stop ≠ .fault fault) →
    Awaited Register.controllerCsr whenUp deadline waiting (.error stop) →
    BroughtUp waiting (.error stop)
  | gone {deadline : Deadline} {waiting marking : List Entry} {stop : Stop} :
    Awaited Register.controllerCsr whenUp deadline waiting (.ok ()) →
    Marked (Csr.readyBit ||| Csr.generateBit) Csr.resetBit marking (.error stop) →
    BroughtUp (waiting ++ marking) (.error stop)
  | up {deadline : Deadline} {waiting marking : List Entry} :
    Awaited Register.controllerCsr whenUp deadline waiting (.ok ()) →
    Marked (Csr.readyBit ||| Csr.generateBit) Csr.resetBit marking (.ok ()) →
    BroughtUp (waiting ++ (marking ++ [.remark .broughtUp])) (.ok ())

/-- One step of the reset handshake: a mark on the host side and the controller's answer. -/
inductive HandshakeStep (set clear : UInt32) (ready : Bool) :
    List Entry → Except Stop Unit → Prop where
  | gone {marking : List Entry} {stop : Stop} : Marked set clear marking (.error stop) →
    HandshakeStep set clear ready marking (.error stop)
  | answered {marking waiting : List Entry} {deadline : Deadline} {outcome : Except Stop Unit} :
    Marked set clear marking (.ok ()) →
    Awaited Register.controllerCsr (whenReady ready) deadline waiting outcome →
    HandshakeStep set clear ready (marking ++ waiting) outcome

inductive Reset : List Entry → Except Stop Unit → Prop where
  | absent {csr : Csr} : csr.absent = true →
    Reset [.read Register.controllerCsr csr.raw] (.error (.fault .notPresent))
  | unasked {csr : Csr} {asking : List Entry} {stop : Stop} : csr.absent = false →
    HandshakeStep (Csr.resetBit ||| Csr.generateBit) 0 false asking (.error stop) →
    Reset (.read Register.controllerCsr csr.raw :: asking) (.error stop)
  | unreleased {csr : Csr} {asking releasing : List Entry} {stop : Stop} : csr.absent = false →
    HandshakeStep (Csr.resetBit ||| Csr.generateBit) 0 false asking (.ok ()) →
    HandshakeStep Csr.generateBit Csr.resetBit true releasing (.error stop) →
    Reset (.read Register.controllerCsr csr.raw :: (asking ++ releasing)) (.error stop)
  | unmarked {csr : Csr} {asking releasing marking : List Entry} {stop : Stop} :
    csr.absent = false →
    HandshakeStep (Csr.resetBit ||| Csr.generateBit) 0 false asking (.ok ()) →
    HandshakeStep Csr.generateBit Csr.resetBit true releasing (.ok ()) →
    Marked (Csr.readyBit ||| Csr.generateBit) 0 marking (.error stop) →
    Reset (.read Register.controllerCsr csr.raw :: (asking ++ (releasing ++ marking)))
      (.error stop)
  | reset {csr : Csr} {asking releasing marking : List Entry} : csr.absent = false →
    HandshakeStep (Csr.resetBit ||| Csr.generateBit) 0 false asking (.ok ()) →
    HandshakeStep Csr.generateBit Csr.resetBit true releasing (.ok ()) →
    Marked (Csr.readyBit ||| Csr.generateBit) 0 marking (.ok ()) →
    Reset (.read Register.controllerCsr csr.raw ::
      (asking ++ (releasing ++ (marking ++ [.event .reset])))) (.ok ())

variable {σ : Type} [Registers σ] [Clock σ] [Registers.Answers σ]

theorem discardFrame_ensures (link : Link) (depth : UInt8) :
    (discardFrame link depth : Op σ Unit).Ensures (FrameDiscarded depth) := by
  refine .readRegister (by simp [Register.readable]) fun word => ?_
  refine .ite (fun oversized => ?_) fun fits => ?_
  · exact discardAvailable_ensures.mono fun _ _ discarded =>
      @FrameDiscarded.oversized _ ⟨word⟩ _ _ oversized discarded
  · replace fits : (Frame.Header.mk word).words < depth.toNat := Nat.lt_of_not_le fits
    refine .deadlineAfter fun deadline => (awaitWords_ensures link deadline _).andThen ?_ ?_
    · intro _ waiting awaited
      refine (takeWords_ensures _).andThen ?_ (by rintro _ _ ⟨_, _, _, ⟨⟩⟩)
      rintro _ _ ⟨payload, count, rfl, ⟨⟩⟩
      refine acknowledge_ensures.mono ?_
      rintro _ _ ⟨acknowledged, rfl⟩
      exact @FrameDiscarded.taken _ ⟨word⟩ _ _ _ _ fits awaited count acknowledged
    · intro stop waiting stopped
      exact @FrameDiscarded.cutOff _ ⟨word⟩ _ _ _ fits stopped

theorem discardFrames_ensures (link : Link) (limit frames : Nat) :
    (discardFrames link limit frames : Op σ Nat).Ensures (FramesDiscarded frames) := by
  induction limit generalizing frames with
  | zero => exact .pure .limit
  | succ limit ih =>
    refine controllerCursors_ensures.look ?_ fun csr stop judged => .stopped judged
    intro csr cursors judged
    refine .ite (fun empty => ?_) fun filled => ?_
    · exact .pure (.empty judged empty)
    · replace filled : cursors.isEmpty = false := by simpa using filled
      refine (discardFrame_ensures link _).andThen ?_ ?_
      · intro _ entries discarded
        exact (ih (frames + 1)).mono fun _ _ tail => .next judged filled discarded tail
      · intro stop entries undiscarded
        exact .undiscarded judged filled undiscarded

theorem drain_ensures (link : Link) : (drain link : Op σ Nat).Ensures Drained := by
  refine (discardFrames_ensures link _ 0).andThen ?_ fun stop _ stopped => .stopped stopped
  intro frames entries discarded
  refine .ite (fun positive => ?_) fun zero => ?_
  · exact .emit (.pure (.removed positive discarded))
  · have : frames = 0 := by omega
    subst this
    exact .pure (by simpa using .nothing discarded)

theorem marked_ensures (set clear : UInt32) {β : Type} {next : Unit → Op σ β}
    {goal : List Entry → Except Stop β → Prop}
    (rest : ∀ marking, Marked set clear marking (.ok ()) →
      (next ()).Ensures fun tail outcome => goal (marking ++ tail) outcome)
    (gone : ∀ stop marking, Marked set clear marking (.error stop) → goal marking (.error stop)) :
    Ensures (σ := σ) (do
      let csr ← hostCsr
      let answer ← writeRegister Register.hostCsr (csr.withBits set clear)
      next answer) goal := by
  refine hostCsr_ensures.look ?_ ?_
  · intro csr value judged
    obtain ⟨here, rfl⟩ := present_eq_ok.mp judged
    exact .writeRegister (by simp [Register.writable]) (rest _ (.marked here))
  · intro csr stop judged
    obtain ⟨absent, rfl⟩ := present_eq_error.mp judged
    exact gone _ _ (.gone absent)

theorem bringUp_ensures (link : Link) : (bringUp link : Op σ Unit).Ensures BroughtUp := by
  refine .deadlineAfter fun deadline => ?_
  have looks : Ensures (σ := σ) (do
      let csr ← controllerCsr
      pure (if !csr.absent && csr.ready then some () else none))
      (Look Register.controllerCsr whenUp) := by
    refine controllerCsr_ensures.look ?_ (by simp)
    rintro csr _ ⟨⟩
    exact .pure ⟨csr, rfl, rfl⟩
  refine (await_ensures looks link deadline).attempt ?_ ?_ ?_
  · intro _ waiting up
    refine marked_ensures _ _ ?_ fun stop marking absent => .gone up absent
    intro marking marked
    exact .last (.remark (.pure (by simpa using .up up marked)))
  · intro fault waiting down
    exact .fail (by simpa using .down down)
  · intro stop waiting other stopped
    exact .abandoned other stopped

theorem awaitReady_ensures (link : Link) (ready : Bool) :
    (awaitReady link ready : Op σ Unit).Ensures fun entries outcome =>
      ∃ deadline, Awaited Register.controllerCsr (whenReady ready) deadline entries outcome := by
  refine .deadlineAfter fun deadline => (await_ensures ?_ link deadline).mono
    fun _ _ awaited => ⟨deadline, awaited⟩
  refine controllerCsr_ensures.look ?_ (by simp)
  rintro csr _ ⟨⟩
  exact .pure ⟨csr, rfl, rfl⟩

theorem handshakeStep_ensures (link : Link) (set clear : UInt32) (ready : Bool) {β : Type}
    {next : Unit → Op σ β} {goal : List Entry → Except Stop β → Prop}
    (rest : ∀ entries, HandshakeStep set clear ready entries (.ok ()) →
      (next ()).Ensures fun tail outcome => goal (entries ++ tail) outcome)
    (stopped : ∀ stop entries, HandshakeStep set clear ready entries (.error stop) →
      goal entries (.error stop)) :
    Ensures (σ := σ) (do
      let csr ← hostCsr
      writeRegister Register.hostCsr (csr.withBits set clear)
      let answer ← awaitReady link ready
      next answer) goal := by
  refine marked_ensures set clear ?_ fun stop marking gone => stopped stop marking (.gone gone)
  intro marking marked
  refine (awaitReady_ensures link ready).andThen ?_ ?_
  · rintro _ waiting ⟨_, answered⟩
    simpa using rest (marking ++ waiting) (.answered marked answered)
  · rintro stop waiting ⟨_, unanswered⟩
    exact stopped stop _ (.answered marked unanswered)

theorem reset_ensures (link : Link) : (reset link : Op σ Unit).Ensures Reset := by
  refine controllerCsr_ensures.look ?_ (by simp)
  rintro csr _ ⟨⟩
  refine .ite (fun absent => .fail (.absent absent)) fun here => ?_
  replace here : csr.absent = false := by simpa using here
  refine handshakeStep_ensures link _ _ _ ?_ fun stop _ unasked => .unasked here unasked
  intro asking asked
  refine handshakeStep_ensures link _ _ _ ?_ fun stop _ kept => .unreleased here asked kept
  intro releasing released
  refine marked_ensures _ _ ?_ fun stop marking gone => .unmarked here asked released gone
  intro marking marked
  exact .last (.emit (.pure (.reset here asked released marked)))

end HeciMailbox.Op
