import HeciMailbox.Proofs.Looks
import HeciMailbox.Transport.Send

/-! What a send does, on any hardware.

Each relation lists the ways in which one step of a send can go, with the entries it makes and how
it ends; beside it stands the lemma that the step goes in one of these ways. -/

set_option autoImplicit false

namespace HeciMailbox.Op

inductive Required : List Entry → Except Stop Unit → Prop where
  | unready {csr : Csr} : (csr.absent || !csr.ready) = true →
    Required [.read Register.controllerCsr csr.raw, .remark (.controllerNotReady csr)]
      (.error (.fault .notPresent))
  | ready {csr : Csr} : (csr.absent || !csr.ready) = false →
    Required [.read Register.controllerCsr csr.raw] (.ok ())

inductive HostMarked : List Entry → Except Stop Unit → Prop where
  | gone {csr : Csr} : csr.absent = true →
    HostMarked [.read Register.hostCsr csr.raw] (.error (.fault .notPresent))
  | already {csr : Csr} : csr.absent = false → csr.ready = true →
    HostMarked [.read Register.hostCsr csr.raw] (.ok ())
  | marked {csr : Csr} : csr.absent = false → csr.ready = false →
    HostMarked [.read Register.hostCsr csr.raw, .remark .settingHostReady,
      .write Register.hostCsr
        (csr.withBits (Csr.readyBit ||| Csr.generateBit) Csr.resetBit)] (.ok ())

/-- The entries of one frame: its words one after the other, then the announcement. -/
def frameWritten (header : Frame.Header) (words : List UInt32) (writeCursor : UInt8) :
    List Entry :=
  (header.raw :: words).map (.write Register.hostWindow) ++
    [.remark (.frameWritten header writeCursor), .event (.ofFrame .toController header words)]

/-- One frame is written into the ring of `cursors`. -/
inductive FragmentSent (route : Route) (cursors : Cursors) (fragment : Frame.Fragment) :
    List Entry → Except Stop Unit → Prop where
  | noRoom {fault : Fault} :
    cursors.checkRoom (fragment.words.length + 1) = .error fault →
    FragmentSent route cursors fragment [] (.error (.fault fault))
  | tooLong {cause : HeaderFault} :
    cursors.checkRoom (fragment.words.length + 1) = .ok () →
    Frame.Header.make? route.controller route.host fragment.length fragment.last = .error cause →
    FragmentSent route cursors fragment []
      (.error (.fault (.badLength fragment.length Frame.maxLength)))
  | vanished {header : Frame.Header} {csr : Csr} :
    cursors.checkRoom (fragment.words.length + 1) = .ok () →
    Frame.Header.make? route.controller route.host fragment.length fragment.last = .ok header →
    csr.absent = true →
    FragmentSent route cursors fragment
      (frameWritten header fragment.words cursors.write ++ [.read Register.hostCsr csr.raw])
      (.error (.fault .notPresent))
  | sent {header : Frame.Header} {csr : Csr} :
    cursors.checkRoom (fragment.words.length + 1) = .ok () →
    Frame.Header.make? route.controller route.host fragment.length fragment.last = .ok header →
    csr.absent = false →
    FragmentSent route cursors fragment
      (frameWritten header fragment.words cursors.write ++
        [.read Register.hostCsr csr.raw, .write Register.hostCsr (csr.withDoorbell false)])
      (.ok ())

/-- How a frame comes by its cursors: the first frame of a message by one look, any other by waiting
for an empty ring. -/
def Opened (deadline : Deadline) (first : Bool) : List Entry → Except Stop Cursors → Prop :=
  if first then Look Register.hostCsr reported
  else Awaited Register.hostCsr (whenUsable emptied) deadline

inductive FragmentsSent (route : Route) (deadline : Deadline) :
    Bool → List Frame.Fragment → List Entry → Except Stop Unit → Prop where
  | done {first : Bool} : FragmentsSent route deadline first [] [] (.ok ())
  | closed {first : Bool} {fragment : Frame.Fragment} {rest : List Frame.Fragment}
    {entries : List Entry} {stop : Stop} :
    Opened deadline first entries (.error stop) →
    FragmentsSent route deadline first (fragment :: rest) entries (.error stop)
  | stopped {first : Bool} {fragment : Frame.Fragment} {rest : List Frame.Fragment}
    {opening entries : List Entry} {cursors : Cursors} {stop : Stop} :
    Opened deadline first opening (.ok cursors) →
    FragmentSent route cursors fragment entries (.error stop) →
    FragmentsSent route deadline first (fragment :: rest) (opening ++ entries) (.error stop)
  | next {first : Bool} {fragment : Frame.Fragment} {rest : List Frame.Fragment}
    {opening entries tail : List Entry} {cursors : Cursors} {outcome : Except Stop Unit} :
    Opened deadline first opening (.ok cursors) →
    FragmentSent route cursors fragment entries (.ok ()) →
    FragmentsSent route deadline false rest tail outcome →
    FragmentsSent route deadline first (fragment :: rest) (opening ++ (entries ++ tail)) outcome

inductive MessageWritten (link : Link) (message : Message) (route : Route) :
    List Entry → Except Stop Unit → Prop where
  | badLength : message.length = 0 ∨ link.device.maxLength < message.length →
    MessageWritten link message route []
      (.error (.fault (.badLength message.length link.device.maxLength)))
  | unready {entries : List Entry} {stop : Stop} :
    ¬(message.length = 0 ∨ link.device.maxLength < message.length) →
    Required entries (.error stop) →
    MessageWritten link message route entries (.error stop)
  | unmarked {required entries : List Entry} {stop : Stop} :
    ¬(message.length = 0 ∨ link.device.maxLength < message.length) →
    Required required (.ok ()) → HostMarked entries (.error stop) →
    MessageWritten link message route (required ++ entries) (.error stop)
  | unsized {required marked : List Entry} {sizing : Csr} :
    ¬(message.length = 0 ∨ link.device.maxLength < message.length) →
    Required required (.ok ()) → HostMarked marked (.ok ()) → sizing.absent = true →
    MessageWritten link message route
      (required ++ (marked ++ [.read Register.hostCsr sizing.raw]))
      (.error (.fault .notPresent))
  | shallow {required marked : List Entry} {sizing : Csr} :
    ¬(message.length = 0 ∨ link.device.maxLength < message.length) →
    Required required (.ok ()) → HostMarked marked (.ok ()) → sizing.absent = false →
    Frame.payloadLimit sizing.depth.toNat = 0 →
    MessageWritten link message route
      (required ++ (marked ++ [.read Register.hostCsr sizing.raw, .remark .unusableDepth]))
      (.error (.fault .notPresent))
  | sent {required marked entries : List Entry} {sizing : Csr} {deadline : Deadline}
    {outcome : Except Stop Unit} :
    ¬(message.length = 0 ∨ link.device.maxLength < message.length) →
    Required required (.ok ()) → HostMarked marked (.ok ()) → sizing.absent = false →
    Frame.payloadLimit sizing.depth.toNat ≠ 0 →
    FragmentsSent route deadline true
      (Frame.Fragment.ofMessage (Frame.payloadLimit sizing.depth.toNat) message) entries outcome →
    MessageWritten link message route
      (required ++ (marked ++ .read Register.hostCsr sizing.raw :: entries)) outcome

/-- The send half of an exchange, from idle to sending or to the phase of its fault. -/
inductive SendHalf (link : Link) (message : Message) (route : Route) :
    List Entry → Except Stop Exchange → Prop where
  | sent {entries : List Entry} : MessageWritten link message route entries (.ok ()) →
    SendHalf link message route (.event (.phaseChanged .idle .sending) :: entries) (.ok ⟨.sending⟩)
  | failed {entries : List Entry} {fault : Fault} :
    MessageWritten link message route entries (.error (.fault fault)) →
    SendHalf link message route
      (.event (.phaseChanged .idle .sending) ::
        (entries ++ [.event (.phaseChanged .sending (.ofFault fault))]))
      (.error (.fault fault))
  | abandoned {entries : List Entry} {stop : Stop} : (∀ fault, stop ≠ .fault fault) →
    MessageWritten link message route entries (.error stop) →
    SendHalf link message route (.event (.phaseChanged .idle .sending) :: entries) (.error stop)

inductive Sent (link : Link) (message : Message) (route : Route) :
    List Entry → Except Stop Unit → Prop where
  | complete {entries : List Entry} {exchange : Exchange} :
    SendHalf link message route entries (.ok exchange) →
    Sent link message route (entries ++ [.event (.phaseChanged .sending .complete)]) (.ok ())
  | stopped {entries : List Entry} {stop : Stop} :
    SendHalf link message route entries (.error stop) →
    Sent link message route entries (.error stop)

variable {σ : Type} [Registers σ] [Clock σ] [Registers.Answers σ]

theorem requireController_ensures : (requireController : Op σ Unit).Ensures Required := by
  refine controllerCsr_ensures.look ?_ (by simp)
  rintro csr _ ⟨⟩
  refine .ite (fun unready => ?_) fun ready => ?_
  · exact .remark (.fail (.unready unready))
  · exact .pure (.ready (by simpa using ready))

theorem ensureHostReady_ensures : (ensureHostReady : Op σ Unit).Ensures HostMarked := by
  refine hostCsr_ensures.look ?_ ?_
  · intro csr value judged
    obtain ⟨here, rfl⟩ := present_eq_ok.mp judged
    refine .ite (fun unready => ?_) fun ready => ?_
    · refine .remark (.last (.writeRegister (by simp [Register.writable]) (.pure ?_)))
      exact .marked here (by simpa using unready)
    · exact .pure (.already here (by simpa using ready))
  · intro csr stop judged
    obtain ⟨gone, rfl⟩ := present_eq_error.mp judged
    exact .gone gone

theorem lookEmptied_ensures :
    Ensures (σ := σ) (do
      let cursors ← hostCursors
      ofExcept cursors.checkOverflow
      pure (if cursors.isEmpty then some cursors else none))
      (Look Register.hostCsr (whenUsable emptied)) := by
  refine hostCursors_ensures.look ?_ ?_
  · intro csr cursors judged
    obtain ⟨here, rfl⟩ := reported_eq_ok.mp judged
    cases spilt : (Cursors.ofCsr csr).overflowed with
    | true =>
      simp only [Cursors.checkOverflow, spilt]
      exact .fail ⟨csr, rfl, by simp [whenUsable, usable, here, spilt, Except.map]⟩
    | false =>
      simp only [Cursors.checkOverflow, spilt]
      exact .pure ⟨csr, rfl, by simp [whenUsable, usable, here, spilt, Except.map, emptied]⟩
  · intro csr stop judged
    obtain ⟨gone, rfl⟩ := reported_eq_error.mp judged
    exact ⟨csr, rfl, by simp [whenUsable, usable, gone, Except.map]⟩

theorem awaitHostEmpty_ensures (link : Link) (deadline : Deadline) :
    (awaitHostEmpty link deadline : Op σ Cursors).Ensures
      (Awaited Register.hostCsr (whenUsable emptied) deadline) :=
  await_ensures lookEmptied_ensures link deadline

theorem sendFragment_ensures (route : Route) (cursors : Cursors) (fragment : Frame.Fragment) :
    (sendFragment route cursors fragment : Op σ Unit).Ensures
      (FragmentSent route cursors fragment) := by
  unfold sendFragment
  refine .ofExcept (fun _ room => ?_) fun fault noRoom => .noRoom noRoom
  cases made : Frame.Header.make? route.controller route.host fragment.length fragment.last with
  | error cause => exact .fail (.tooLong room made)
  | ok header =>
    refine .writeRegister (by simp [Register.writable]) ?_
    refine (writeWords_ensures _).andThen ?_ ?_
    · rintro _ _ ⟨rfl, -⟩
      refine .remark (.emit (hostCsr_ensures.look ?_ ?_))
      · intro csr value judged
        obtain ⟨here, rfl⟩ := present_eq_ok.mp judged
        refine .last (.writeRegister (by simp [Register.writable]) (.pure ?_))
        simpa [frameWritten] using FragmentSent.sent room made here
      · intro csr stop judged
        obtain ⟨gone, rfl⟩ := present_eq_error.mp judged
        simpa [frameWritten] using FragmentSent.vanished room made gone
    · rintro _ _ ⟨_, ⟨⟩⟩

theorem sendRest_ensures (link : Link) (route : Route) (deadline : Deadline)
    (fragments : List Frame.Fragment) :
    (sendRest link route deadline fragments : Op σ Unit).Ensures
      (FragmentsSent route deadline false fragments) := by
  induction fragments with
  | nil => exact .pure .done
  | cons fragment rest ih =>
    refine (awaitHostEmpty_ensures link deadline).andThen ?_ fun stop _ closed => .closed closed
    intro cursors opening opened
    refine (sendFragment_ensures route cursors fragment).andThen ?_ ?_
    · intro _ entries sent
      exact ih.mono fun _ _ tail => .next opened sent tail
    · intro stop entries stopped
      exact .stopped opened stopped

theorem sendFragments_ensures (link : Link) (route : Route) (deadline : Deadline)
    (fragments : List Frame.Fragment) :
    (sendFragments link route deadline fragments : Op σ Unit).Ensures
      (FragmentsSent route deadline true fragments) := by
  cases fragments with
  | nil => exact .pure .done
  | cons fragment rest =>
    refine hostCursors_ensures.andThen ?_ fun stop _ closed => .closed closed
    intro cursors opening opened
    refine (sendFragment_ensures route cursors fragment).andThen ?_ ?_
    · intro _ entries sent
      exact (sendRest_ensures link route deadline rest).mono fun _ _ tail => .next opened sent tail
    · intro stop entries stopped
      exact .stopped opened stopped

theorem writeMessage_ensures (link : Link) (message : Message) (route : Route)
    (caller : Option Deadline) :
    (writeMessage link message route caller : Op σ Unit).Ensures
      (MessageWritten link message route) := by
  refine .ite (fun bad => .fail (.badLength bad)) fun good => ?_
  refine requireController_ensures.andThen ?_ fun stop _ unready => .unready good unready
  intro _ required ready
  refine ensureHostReady_ensures.andThen ?_ fun stop _ unmarked => .unmarked good ready unmarked
  intro _ marking marked
  refine hostCursors_ensures.look ?_ ?_
  · intro sizing cursors judged
    obtain ⟨here, rfl⟩ := reported_eq_ok.mp judged
    refine .ite (fun shallow => ?_) fun deep => ?_
    · exact .remark (.fail (.shallow good ready marked here shallow))
    · refine .deadlineAfter fun own => ?_
      refine (sendFragments_ensures link route _ _).mono fun _ _ sent => ?_
      exact .sent good ready marked here deep sent
  · intro sizing stop judged
    obtain ⟨gone, rfl⟩ := reported_eq_error.mp judged
    exact .unsized good ready marked gone

theorem sendPhase_ensures (link : Link) (message : Message) (route : Route)
    (caller : Option Deadline) :
    (sendPhase link message route caller {} : Op σ Exchange).Ensures
      (SendHalf link message route) := by
  refine (advance_ensures rfl).andThen ?_ (by rintro _ _ ⟨_, ⟨⟩⟩)
  rintro _ _ ⟨rfl, ⟨⟩⟩
  refine (writeMessage_ensures link message route caller).attempt ?_ ?_ ?_
  · intro _ entries written
    exact .pure (by simpa using .sent written)
  · intro fault entries failed
    refine (advance_ensures (mayPrecede_ofFault_of_sending fault)).andThen ?_
      (by rintro _ _ ⟨_, ⟨⟩⟩)
    rintro _ _ ⟨rfl, ⟨⟩⟩
    exact .fail (by simpa using .failed failed)
  · intro stop entries other stopped
    exact .abandoned other stopped

theorem send_ensures (link : Link) (message : Message) (route : Route) :
    (send link message route : Op σ Unit).Ensures (Sent link message route) := by
  refine (sendPhase_ensures link message route none).andThen ?_ fun _ _ stopped => .stopped stopped
  intro exchange entries sent
  have sending : exchange = ⟨.sending⟩ := by cases sent; rfl
  subst sending
  refine (advance_ensures rfl).andThen ?_ (by rintro _ _ ⟨_, ⟨⟩⟩)
  rintro _ _ ⟨rfl, ⟨⟩⟩
  exact .pure (by simpa using .complete sent)

end HeciMailbox.Op
