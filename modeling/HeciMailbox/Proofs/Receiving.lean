import HeciMailbox.Proofs.Sending
import HeciMailbox.Transport.Receive

/-! What a read does, on any hardware, alone or behind a send. -/

set_option autoImplicit false

namespace HeciMailbox.Op

def filledNow (csr : Csr) : Except Stop Cursors :=
  match usable csr with
  | .ok cursors => if cursors.isEmpty then .error (.fault .noData) else .ok cursors
  | .error stop => .error stop

def Arrived (deadline : Option Deadline) : List Entry → Except Stop Cursors → Prop :=
  match deadline with
  | some deadline => Awaited Register.controllerCsr (whenUsable filledAny) deadline
  | none => Look Register.controllerCsr filledNow

/-- The rest of a frame of so many words is in the ring; one without words is not waited for. -/
inductive BodyAwaited (words : Nat) : List Entry → Except Stop Unit → Prop where
  | bare : words = 0 → BodyAwaited words [] (.ok ())
  | awaited {deadline : Deadline} {entries : List Entry} {outcome : Except Stop Unit} : 0 < words →
    Awaited Register.controllerCsr (whenUsable (filledTo words)) deadline entries outcome →
    BodyAwaited words entries outcome

/-- One frame is read: its header, its words once they are all there, and the acknowledgement. A
header that claims too much has the whole ring thrown away. -/
inductive FrameRead (deadline : Option Deadline) :
    List Entry → Except Stop (Frame.Header × List UInt32) → Prop where
  | missing {entries : List Entry} {stop : Stop} : Arrived deadline entries (.error stop) →
    FrameRead deadline entries (.error stop)
  | oversized {arrival discarding : List Entry} {cursors : Cursors} {header : Frame.Header} :
    Arrived deadline arrival (.ok cursors) → cursors.depth.toNat ≤ header.words →
    Discarded discarding (.ok ()) →
    FrameRead deadline
      (arrival ++ .read Register.controllerWindow header.raw ::
        .remark (.oversizedFrame header cursors.depth) :: discarding)
      (.error (.fault (cursors.overflowFault header.words)))
  | undiscarded {arrival discarding : List Entry} {cursors : Cursors} {header : Frame.Header}
    {stop : Stop} :
    Arrived deadline arrival (.ok cursors) → cursors.depth.toNat ≤ header.words →
    Discarded discarding (.error stop) →
    FrameRead deadline
      (arrival ++ .read Register.controllerWindow header.raw ::
        .remark (.oversizedFrame header cursors.depth) :: discarding) (.error stop)
  | cutOff {arrival waiting : List Entry} {cursors : Cursors} {header : Frame.Header}
    {stop : Stop} :
    Arrived deadline arrival (.ok cursors) → header.words < cursors.depth.toNat →
    BodyAwaited header.words waiting (.error stop) →
    FrameRead deadline (arrival ++ .read Register.controllerWindow header.raw :: waiting)
      (.error stop)
  | taken {arrival waiting acknowledgement : List Entry} {cursors : Cursors}
    {header : Frame.Header} {payload : List UInt32} :
    Arrived deadline arrival (.ok cursors) → header.words < cursors.depth.toNat →
    BodyAwaited header.words waiting (.ok ()) → payload.length = header.words →
    Acknowledged acknowledgement →
    FrameRead deadline
      (arrival ++ .read Register.controllerWindow header.raw ::
        (waiting ++ (payload.map (.read Register.controllerWindow) ++
          .event (.ofFrame .toHost header payload) :: acknowledgement)))
      (.ok (header, payload))

inductive Finished (capacity : Nat) (assembly : Assembly) :
    List Entry → Except Stop Message → Prop where
  | oversized : assembly.truncated = true →
    Finished capacity assembly [.remark (.oversizedResponse assembly.total capacity)]
      (.error (.fault (.tooSmall assembly.total capacity)))
  | whole : assembly.truncated = false →
    Finished capacity assembly [] (.ok (Message.ofBytes assembly.bytes.toList))

/-- Frames are read until one ends the message; `assembly` is what earlier frames gave. -/
inductive MessageRead (capacity : Nat) :
    Option Deadline → Assembly → List Entry → Except Stop Message → Prop where
  | stopped {deadline : Option Deadline} {assembly : Assembly} {entries : List Entry}
    {stop : Stop} : FrameRead deadline entries (.error stop) →
    MessageRead capacity deadline assembly entries (.error stop)
  | last {deadline : Option Deadline} {assembly : Assembly} {entries tail : List Entry}
    {header : Frame.Header} {payload : List UInt32} {outcome : Except Stop Message} :
    FrameRead deadline entries (.ok (header, payload)) → header.complete = true →
    Finished capacity (assembly.add capacity header.length payload) tail outcome →
    MessageRead capacity deadline assembly (entries ++ tail) outcome
  | next {deadline : Option Deadline} {later : Deadline} {assembly : Assembly}
    {entries tail : List Entry} {header : Frame.Header} {payload : List UInt32}
    {outcome : Except Stop Message} :
    FrameRead deadline entries (.ok (header, payload)) → header.complete = false →
    MessageRead capacity (some later) (assembly.add capacity header.length payload) tail outcome →
    MessageRead capacity deadline assembly (entries ++ tail) outcome
  | unfinished {deadline : Option Deadline} {assembly : Assembly} :
    MessageRead capacity deadline assembly [] (.error .unfinished)

inductive ReadHalf (capacity : Nat) (deadline : Option Deadline) :
    List Entry → Except Stop Message → Prop where
  | complete {entries : List Entry} {message : Message} :
    MessageRead capacity deadline {} entries (.ok message) →
    ReadHalf capacity deadline
      (entries ++ [.event (.phaseChanged .awaitingResponse .complete)]) (.ok message)
  | failed {entries : List Entry} {fault : Fault} :
    MessageRead capacity deadline {} entries (.error (.fault fault)) →
    ReadHalf capacity deadline
      (entries ++ [.event (.phaseChanged .awaitingResponse (.ofFault fault))])
      (.error (.fault fault))
  | abandoned {entries : List Entry} {stop : Stop} : (∀ fault, stop ≠ .fault fault) →
    MessageRead capacity deadline {} entries (.error stop) →
    ReadHalf capacity deadline entries (.error stop)

def Received (link : Link) (entries : List Entry) (outcome : Except Stop Message) : Prop :=
  ∃ deadline half, ReadHalf link.device.maxLength deadline half outcome ∧
    entries = .event (.phaseChanged .idle .awaitingResponse) :: half

/-- An exchange: a send half and, if that succeeds, a read half. -/
inductive Exchanged (link : Link) (request : Message) (route : Route) (capacity : Nat) :
    List Entry → Except Stop Message → Prop where
  | unsent {entries : List Entry} {stop : Stop} :
    SendHalf link request route entries (.error stop) →
    Exchanged link request route capacity entries (.error stop)
  | read {sending reading : List Entry} {deadline : Deadline} {outcome : Except Stop Message} :
    SendHalf link request route sending (.ok ⟨.sending⟩) →
    ReadHalf capacity (some deadline) reading outcome →
    Exchanged link request route capacity
      (sending ++ .event (.phaseChanged .sending .awaitingResponse) :: reading) outcome

variable {σ : Type} [Registers σ] [Clock σ] [Registers.Answers σ]

theorem awaitFrame_ensures (link : Link) (deadline : Option Deadline) :
    (awaitFrame link deadline : Op σ Cursors).Ensures (Arrived deadline) := by
  cases deadline with
  | some deadline =>
    exact await_ensures (looks_whenUsable controllerCursors_ensures _) link deadline
  | none =>
    refine controllerCursors_ensures.look ?_ ?_
    · intro csr cursors judged
      refine .ite (fun empty => ?_) fun filled => ?_
      · exact .fail ⟨csr, rfl, by simp [filledNow, judged, empty]⟩
      · exact .pure ⟨csr, rfl, by simp [filledNow, judged, filled]⟩
    · intro csr stop judged
      exact ⟨csr, rfl, by simp [filledNow, judged]⟩

/-- What is left of a frame that is there as a whole, once its header has been read. -/
def takeBody {σ : Type} [Registers σ] (header : Frame.Header) :
    Op σ (Frame.Header × List UInt32) := do
  let payload ← takeWords header.words
  emit (.ofFrame .toHost header payload)
  acknowledge
  pure (header, payload)

theorem takeBody_ensures (header : Frame.Header) :
    (takeBody header : Op σ (Frame.Header × List UInt32)).Ensures fun entries outcome =>
      ∃ payload acknowledgement, payload.length = header.words ∧ Acknowledged acknowledgement ∧
        entries = payload.map (.read Register.controllerWindow) ++
          .event (.ofFrame .toHost header payload) :: acknowledgement ∧
        outcome = .ok (header, payload) := by
  refine (takeWords_ensures _).andThen ?_ (by rintro _ _ ⟨_, _, _, ⟨⟩⟩)
  rintro payload _ ⟨_, counted, rfl, ⟨⟩⟩
  refine .emit (acknowledge_ensures.andThen ?_ (by rintro _ _ ⟨_, ⟨⟩⟩))
  rintro _ acknowledgement ⟨acknowledged, -⟩
  exact .pure ⟨payload, acknowledgement, counted, acknowledged, by simp, rfl⟩

theorem readFrame_ensures (link : Link) (deadline : Option Deadline) :
    (readFrame link deadline : Op σ (Frame.Header × List UInt32)).Ensures (FrameRead deadline) := by
  refine (awaitFrame_ensures link deadline).andThen ?_ fun stop _ missing => .missing missing
  intro cursors arrival arrived
  refine .readRegister (by simp [Register.readable]) fun word => ?_
  refine .ite (fun oversized => ?_) fun fits => ?_
  · refine .remark (discardAvailable_ensures.andThen ?_ ?_)
    · intro _ discarding discarded
      exact .fail (by simpa using .oversized arrived oversized discarded)
    · intro stop discarding undiscarded
      exact .undiscarded arrived oversized undiscarded
  · replace fits : (Frame.Header.mk word).words < cursors.depth.toNat := Nat.lt_of_not_le fits
    -- The rest of the frame, behind whatever wait its words needed.
    have taking : ∀ waiting, BodyAwaited (Frame.Header.mk word).words waiting (.ok ()) →
        (takeBody ⟨word⟩ : Op σ _).Ensures fun tail outcome =>
          FrameRead deadline
            (arrival ++ .read Register.controllerWindow word :: (waiting ++ tail)) outcome := by
      intro waiting awaited
      refine (takeBody_ensures ⟨word⟩).mono ?_
      rintro _ _ ⟨payload, acknowledgement, counted, acknowledged, rfl, rfl⟩
      exact .taken arrived fits awaited counted acknowledged
    have waiting : ∀ bodyDeadline, 0 < (Frame.Header.mk word).words →
        Ensures (σ := σ) (do
          awaitWords link bodyDeadline (Frame.Header.mk word).words
          takeBody ⟨word⟩) fun tail outcome =>
            FrameRead deadline (arrival ++ .read Register.controllerWindow word :: tail)
              outcome := by
      intro bodyDeadline bodied
      refine (awaitWords_ensures link bodyDeadline _).andThen ?_ ?_
      · intro _ entries awaited
        exact taking entries (.awaited bodied awaited)
      · intro stop entries stopped
        exact .cutOff arrived fits (.awaited bodied stopped)
    refine .ite (fun bodied => ?_) fun bodiless => ?_
    · cases deadline with
      | some deadline => exact waiting deadline bodied
      | none => exact .deadlineAfter fun bodyDeadline => waiting bodyDeadline bodied
    · exact taking [] (.bare (by omega))

omit [Registers.Answers σ] in
theorem finishAssembly_ensures (capacity : Nat) (assembly : Assembly) :
    (finishAssembly capacity assembly : Op σ Message).Ensures (Finished capacity assembly) := by
  refine .ite (fun truncated => ?_) fun whole => ?_
  · exact .remark (.fail (.oversized truncated))
  · exact .pure (.whole (by simpa using whole))

theorem readFrames_ensures (link : Link) (capacity rounds : Nat) (deadline : Option Deadline)
    (assembly : Assembly) :
    (readFrames link capacity rounds deadline assembly : Op σ Message).Ensures
      (MessageRead capacity deadline assembly) := by
  induction rounds generalizing deadline assembly with
  | zero => exact .stop .unfinished
  | succ rounds ih =>
    refine (readFrame_ensures link deadline).andThen ?_ fun stop _ stopped => .stopped stopped
    rintro ⟨header, payload⟩ entries read
    refine .ite (fun complete => ?_) fun incomplete => ?_
    · exact (finishAssembly_ensures _ _).mono fun _ _ finished => .last read complete finished
    · refine .deadlineAfter fun later => (ih (some later) _).mono fun _ _ tail => ?_
      exact .next read (by simpa using incomplete) tail

theorem readPhase_ensures (link : Link) (capacity : Nat) (deadline : Option Deadline) :
    (readPhase link ⟨.awaitingResponse⟩ capacity deadline : Op σ Message).Ensures
      (ReadHalf capacity deadline) := by
  refine (readFrames_ensures link capacity link.fuel deadline {}).attempt ?_ ?_ ?_
  · intro message entries read
    refine (advance_ensures rfl).andThen ?_ (by rintro _ _ ⟨_, ⟨⟩⟩)
    rintro _ _ ⟨rfl, -⟩
    exact .pure (by simpa using .complete read)
  · intro fault entries failed
    refine (advance_ensures (mayPrecede_ofFault_of_awaiting fault)).andThen ?_
      (by rintro _ _ ⟨_, ⟨⟩⟩)
    rintro _ _ ⟨rfl, -⟩
    exact .fail (by simpa using .failed failed)
  · intro stop entries other stopped
    exact .abandoned other stopped

theorem receive_ensures (link : Link) (blocking : Bool) :
    (receive link blocking : Op σ Message).Ensures (Received link) := by
  have reading : ∀ deadline, Ensures (σ := σ) (do
      let awaiting ← advance {} .awaitingResponse
      readPhase link awaiting link.device.maxLength deadline) (Received link) := by
    intro deadline
    refine (advance_ensures rfl).andThen ?_ (by rintro _ _ ⟨_, ⟨⟩⟩)
    rintro _ _ ⟨rfl, ⟨⟩⟩
    refine (readPhase_ensures link _ deadline).mono fun half outcome read => ?_
    exact ⟨deadline, half, read, rfl⟩
  refine .ite (fun _ => ?_) fun _ => ?_
  · rw [map_eq_pure_bind, bind_assoc]
    exact .deadlineAfter fun deadline => reading (some deadline)
  · exact reading none

theorem sendAndAwait_ensures (link : Link) (request : Message) (route : Route)
    (timeout capacity : Nat) :
    (sendAndAwait link request route timeout capacity : Op σ Message).Ensures
      (Exchanged link request route capacity) := by
  refine .deadlineAfter fun deadline => ?_
  refine (sendPhase_ensures link request route (some deadline)).andThen ?_
    fun stop _ unsent => .unsent unsent
  intro exchange sending sent
  have phase : exchange = ⟨.sending⟩ := by cases sent; rfl
  subst phase
  refine (advance_ensures rfl).andThen ?_ (by rintro _ _ ⟨_, ⟨⟩⟩)
  rintro _ _ ⟨rfl, ⟨⟩⟩
  refine (readPhase_ensures link capacity (some deadline)).mono fun reading outcome read => ?_
  exact .read sent read

end HeciMailbox.Op
