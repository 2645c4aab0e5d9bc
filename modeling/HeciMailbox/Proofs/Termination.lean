import HeciMailbox.Proofs.Lasting
import HeciMailbox.Proofs.Rounds
import HeciMailbox.Proofs.Workload

/-! Every call ends, whatever state the simulated controller is in.

Only waits and the reading of a message have no bound of their own. A wait is over at its deadline.
A read takes a frame off in each round, and each frame leaves the controller with less for the host
than before, even where the acknowledgement makes it take requests and answer them: so there are no
more frames than there are words on their way or prepared when the call begins. -/

set_option autoImplicit false

namespace HeciMailbox

/-- No wait of the link's own is longer than `patience`, and it has the rounds for one so long. -/
structure Link.Patient (link : Link) (patience : Nat) : Prop where
  send : link.config.sendTimeout ≤ patience
  receive : link.config.receiveTimeout ≤ patience
  reset : link.config.resetTimeout ≤ patience
  rounds : patience < link.fuel

namespace Frame.Fragment

theorem length_cut (limit count : Nat) (words : List UInt32) (length : Nat) :
    (cut limit count words length).length = count := by
  fun_induction cut limit count words length with
  | case1 => rfl
  | case2 => rfl
  | case3 _ _ _ ih => rw [List.length_cons, ih]

theorem length_ofMessage_le {limit : Nat} (positive : 0 < limit) (message : Message) :
    (ofMessage limit message).length ≤ message.length := by
  rw [ofMessage, length_cut]
  cases message.length with
  | zero => exact Nat.le_of_eq (Nat.div_eq_of_lt (by omega))
  | succ length =>
    have whole : length ≤ limit * length := Nat.le_mul_of_pos_left length positive
    refine Nat.div_le_of_le_mul ?_
    rw [Nat.mul_succ]
    omega

theorem flatMap_words_cut (limit count : Nat) (words : List UInt32) (length : Nat) :
    (cut limit (count + 1) words length).flatMap Fragment.words = words := by
  induction count generalizing words length with
  | zero => simp [cut]
  | succ count ih => simp [cut, ih]

/-- The fragments have the words of the message between them, each once and in order. -/
theorem flatMap_words_ofMessage {limit : Nat} (positive : 0 < limit) (message : Message) :
    (ofMessage limit message).flatMap Fragment.words = message.words := by
  unfold ofMessage
  cases fragments : (message.length + limit - 1) / limit with
  | zero =>
    have short : message.length + limit - 1 < limit :=
      (Nat.div_eq_zero_iff_lt positive).mp fragments
    have wordless : message.words.length = 0 := by
      rw [← message.pack_bytes, Bytes.length_pack, message.length_bytes]
      omega
    exact (List.length_eq_zero_iff.mp wordless).symm
  | succ count => exact flatMap_words_cut limit count _ _

end Frame.Fragment

namespace Op

section

variable {ρ : Type} [Registers ρ] {patience : Nat} {state : Timed ρ}

theorem advance_ends (exchange : Exchange) (target : Phase) :
    (advance exchange target : Op (Timed ρ) Exchange).Ends patience 0 1 state := by
  unfold advance
  cases exchange.advance? target with
  | some next =>
    exact (Ends.record rfl).step (Nat.le_refl _) fun _ _ _ => .pure
  | none => exact .stop (by simp)

variable [Registers.Answers ρ]

/-! ### Looks and window accesses -/

theorem hostCsr_ends : (hostCsr : Op (Timed ρ) Csr).Ends patience 0 1 state :=
  (Ends.readRegister (by decide)).step (Nat.le_refl _) fun _ _ _ =>
    .ite (fun _ => .fail) fun _ => .pure

theorem controllerCsr_ends : (controllerCsr : Op (Timed ρ) Csr).Ends patience 0 1 state :=
  (Ends.readRegister (by decide)).step (Nat.le_refl _) fun _ _ _ => .pure

theorem hostCursors_ends : (hostCursors : Op (Timed ρ) Cursors).Ends patience 0 1 state :=
  hostCsr_ends.step (Nat.le_refl _) fun _ _ _ => .pure

theorem controllerCursors_ends :
    (controllerCursors : Op (Timed ρ) Cursors).Ends patience 0 1 state :=
  controllerCsr_ends.step (Nat.le_refl _) fun _ _ _ =>
    .ite (fun _ => .fail) fun _ => .ofExcept fun _ _ => .pure

theorem acknowledge_ends : (acknowledge : Op (Timed ρ) Unit).Ends patience 0 2 state :=
  (Ends.readRegister (by decide)).step (by omega) fun _ _ _ =>
    .writeRegister (by decide)

theorem writeWords_ends (words : List UInt32) :
    (writeWords words : Op (Timed ρ) Unit).Ends patience 0 words.length state := by
  induction words generalizing state with
  | nil => exact .pure
  | cons word rest ih =>
    exact (Ends.writeRegister (by decide)).step (by simp) fun _ _ _ => ih

theorem takeWords_ends (count : Nat) :
    (takeWords count : Op (Timed ρ) (List UInt32)).Ends patience 0 count state := by
  induction count generalizing state with
  | zero => exact .pure
  | succ count ih =>
    refine (Ends.readRegister (by decide)).step (by simp) fun _ _ _ => ?_
    exact ih.step (by simp) fun _ _ _ => .pure

theorem discardAvailable_ends :
    (discardAvailable : Op (Timed ρ) Unit).Ends patience 0 258 state := by
  refine controllerCursors_ends.step (by omega) fun cursors _ _ => ?_
  have few := cursors.filled.toNat_lt
  refine (takeWords_ends _).step (by omega) fun _ _ _ => ?_
  exact acknowledge_ends.mono (Nat.le_refl _) (by omega)

theorem takeBody_ends (header : Frame.Header) :
    (takeBody header : Op (Timed ρ) _).Ends patience 0 (header.words + 3) state := by
  refine (takeWords_ends _).step (by omega) fun _ _ _ => ?_
  refine (Ends.record rfl).step (by omega) fun _ _ _ => ?_
  exact acknowledge_ends.step (by omega) fun _ _ _ => .pure

variable {link : Link} (patient : link.Patient patience)

include patient

theorem awaitWords_ends {deadline : Deadline} (due : deadline.Due (state.elapsed + patience))
    (words : Nat) : (awaitWords link deadline words : Op (Timed ρ) Unit).Ends patience 1 0 state :=
  await_ends (fun _ => controllerCursors_ends.step (Nat.le_refl _)
    fun _ _ _ => .pure) due patient.rounds

theorem awaitReady_ends (ready : Bool) :
    (awaitReady link ready : Op (Timed ρ) Unit).Ends patience 1 0 state := by
  refine .deadlineAfter (await_ends (fun _ => ?_) ?_ patient.rounds)
  · exact controllerCsr_ends.step (Nat.le_refl _) fun _ _ _ => .pure
  · exact Deadline.due_after patient.reset _

/-! ### Sending -/

omit patient in
theorem requireController_ends :
    (requireController : Op (Timed ρ) Unit).Ends patience 0 2 state := by
  refine controllerCsr_ends.step (by omega) fun _ _ _ => ?_
  refine .ite (fun _ => ?_) fun _ => .pure
  exact (Ends.record rfl).step (Nat.le_refl _) fun _ _ _ => .fail

omit patient in
theorem ensureHostReady_ends :
    (ensureHostReady : Op (Timed ρ) Unit).Ends patience 0 3 state := by
  refine hostCsr_ends.step (by omega) fun _ _ _ => ?_
  refine .ite (fun _ => ?_) fun _ => .pure
  refine (Ends.record rfl).step (by omega) fun _ _ _ => ?_
  exact .writeRegister (by decide)

omit patient in
theorem sendFragment_ends (route : Route) (cursors : Cursors) (fragment : Frame.Fragment) :
    (sendFragment route cursors fragment : Op (Timed ρ) Unit).Ends patience 0 260 state := by
  refine .ofExcept fun _ room => ?_
  have room := Cursors.checkRoom_eq_ok.mp room
  have short := cursors.depth.toNat_lt
  cases Frame.Header.make? route.controller route.host fragment.length fragment.last with
  | error _ => exact .fail
  | ok header =>
    refine (Ends.writeRegister (by decide)).step (by omega) fun _ _ _ => ?_
    refine (writeWords_ends _).step (by omega) fun _ _ _ => ?_
    refine (Ends.record rfl).step (by omega) fun _ _ _ => ?_
    refine (Ends.record rfl).step (by omega) fun _ _ _ => ?_
    refine hostCsr_ends.step (by omega) fun _ _ _ => ?_
    exact (Ends.writeRegister (by decide)).mono (Nat.le_refl _) (by omega)

theorem awaitHostEmpty_ends {deadline : Deadline} (due : deadline.Due (state.elapsed + patience)) :
    (awaitHostEmpty link deadline : Op (Timed ρ) Cursors).Ends patience 1 0 state :=
  await_ends (fun _ => hostCursors_ends.step (Nat.le_refl _)
    fun _ _ _ => .ofExcept fun _ _ => .pure) due patient.rounds

theorem sendRest_ends (route : Route) {deadline : Deadline}
    (due : deadline.Due (state.elapsed + patience)) (fragments : List Frame.Fragment) :
    (sendRest link route deadline fragments : Op (Timed ρ) Unit).Ends patience fragments.length
      (260 * fragments.length) state := by
  induction fragments generalizing state with
  | nil => exact .pure
  | cons fragment rest ih =>
    rw [List.length_cons]
    refine (awaitHostEmpty_ends patient due).andThen (by omega) (by omega)
      fun cursors _ _ waited => ?_
    refine (sendFragment_ends route cursors fragment).step (by omega)
      fun _ _ written => ?_
    exact (ih (due.later (Nat.le_trans waited.later written))).mono (by omega) (by omega)

theorem sendFragments_ends (route : Route) {deadline : Deadline}
    (due : deadline.Due (state.elapsed + patience)) (fragments : List Frame.Fragment) :
    (sendFragments link route deadline fragments : Op (Timed ρ) Unit).Ends patience
      fragments.length (1 + 260 * fragments.length) state := by
  cases fragments with
  | nil => exact .pure
  | cons fragment rest =>
    rw [List.length_cons]
    refine hostCursors_ends.step (by omega) fun cursors _ looked => ?_
    refine (sendFragment_ends route cursors fragment).step (by omega) fun _ _ written => ?_
    have due := due.later (Nat.le_trans looked written)
    exact (sendRest_ends patient route due rest).mono (by omega) (by omega)

theorem writeMessage_ends (message : Message) (route : Route) {caller : Option Deadline}
    (due : ∀ deadline, caller = some deadline → deadline.Due (state.elapsed + patience)) :
    (writeMessage link message route caller : Op (Timed ρ) Unit).Ends patience message.length
      (7 + 260 * message.length) state := by
  refine .ite (fun _ => .fail) fun _ => ?_
  refine requireController_ends.step (by omega) fun _ _ required => ?_
  refine ensureHostReady_ends.step (by omega) fun _ _ marked => ?_
  refine hostCursors_ends.step (by omega) fun cursors middle looked => ?_
  have passed : state.elapsed ≤ middle.elapsed :=
    Nat.le_trans required (Nat.le_trans marked looked)
  refine .ite (fun _ => ?_) fun usable => .deadlineAfter ?_
  · exact (Ends.record rfl).step (by omega) fun _ _ _ => .fail
  have few := Frame.Fragment.length_ofMessage_le (Nat.pos_of_ne_zero usable) message
  have own : (Deadline.after middle.elapsed link.config.sendTimeout).Due
      (middle.elapsed + patience) :=
    Deadline.due_after patient.send _
  cases caller with
  | none => exact (sendFragments_ends patient route own _).mono few (by omega)
  | some caller =>
    have earlier := own.earliest ((due caller rfl).later passed)
    exact (sendFragments_ends patient route earlier _).mono few (by omega)

theorem sendPhase_ends (message : Message) (route : Route) {caller : Option Deadline}
    (due : ∀ deadline, caller = some deadline → deadline.Due (state.elapsed + patience))
    (exchange : Exchange) :
    (sendPhase link message route caller exchange : Op (Timed ρ) Exchange).Ends patience
      message.length (9 + 260 * message.length) state := by
  refine (advance_ends _ _).step (by omega) fun _ _ moved => ?_
  have due := fun deadline given => (due deadline given).later moved
  refine (writeMessage_ends patient message route due).attempt.andThen (by omega) (by omega)
    fun written _ _ _ => ?_
  cases written with
  | ok _ => exact .pure
  | error fault => exact (advance_ends _ _).step (by omega) fun _ _ _ => .fail

theorem send_ends (message : Message) (route : Route) :
    (send link message route : Op (Timed ρ) Unit).Ends patience message.length
      (10 + 260 * message.length) state := by
  refine (sendPhase_ends patient message route (by simp) {}).andThen (by omega) (by omega)
    fun _ _ _ _ => ?_
  exact (advance_ends _ _).step (by omega) fun _ _ _ => .pure

/-! ### Draining and resetting -/

theorem discardFrame_ends (depth : UInt8) :
    (discardFrame link depth : Op (Timed ρ) Unit).Ends patience 1 259 state := by
  refine (Ends.readRegister (by decide)).step (by omega) fun word _ _ => ?_
  refine .ite (fun _ => discardAvailable_ends.mono (by omega) (by omega)) fun fits => ?_
  have short := depth.toNat_lt
  refine .deadlineAfter ?_
  refine (awaitWords_ends patient ?_ _).andThen (by omega) (by omega) fun _ _ _ _ => ?_
  · exact Deadline.due_after patient.receive _
  refine (takeWords_ends _).step (by omega) fun _ _ _ => ?_
  exact acknowledge_ends.mono (by omega) (by omega)

theorem discardFrames_ends (limit frames : Nat) :
    (discardFrames link limit frames : Op (Timed ρ) Nat).Ends patience limit (260 * limit)
      state := by
  induction limit generalizing state frames with
  | zero => exact .pure
  | succ limit ih =>
    refine controllerCursors_ends.step (by omega) fun cursors _ _ => ?_
    refine .ite (fun _ => .pure) fun _ => ?_
    refine (discardFrame_ends patient cursors.depth).andThen (by omega) (by omega)
      fun _ _ _ _ => ?_
    exact (ih (frames + 1)).mono (by omega) (by omega)

theorem drain_ends :
    (drain link : Op (Timed ρ) Nat).Ends patience drainLimit (260 * drainLimit + 1) state := by
  refine (discardFrames_ends patient drainLimit 0).andThen (by omega) (by omega)
    fun frames _ _ _ => ?_
  refine .ite (fun _ => ?_) fun _ => .pure
  exact (Ends.record rfl).step (by omega) fun _ _ _ => .pure

theorem bringUp_ends : (bringUp link : Op (Timed ρ) Unit).Ends patience 1 3 state := by
  refine .deadlineAfter ?_
  have due : (Deadline.after state.elapsed link.config.resetTimeout).Due
      (state.elapsed + patience) :=
    Deadline.due_after patient.reset _
  refine (await_ends (fun _ => controllerCsr_ends.step (Nat.le_refl _)
    fun _ _ _ => .pure) due patient.rounds).attempt.andThen (by omega) (by omega)
    fun waited _ _ _ => ?_
  cases waited with
  | error _ => exact .fail
  | ok _ =>
    refine hostCsr_ends.step (by omega) fun _ _ _ => ?_
    refine (Ends.writeRegister (by decide)).step (by omega) fun _ _ _ => ?_
    exact (Ends.record rfl).mono (by omega) (by omega)

theorem reset_ends : (reset link : Op (Timed ρ) Unit).Ends patience 2 8 state := by
  refine controllerCsr_ends.step (by omega) fun _ _ _ => ?_
  refine .ite (fun _ => .fail) fun _ => ?_
  refine hostCsr_ends.step (by omega) fun _ _ _ => ?_
  refine (Ends.writeRegister (by decide)).step (by omega) fun _ _ _ => ?_
  refine (awaitReady_ends patient false).andThen (by omega) (by omega) fun _ _ _ _ => ?_
  refine hostCsr_ends.step (by omega) fun _ _ _ => ?_
  refine (Ends.writeRegister (by decide)).step (by omega) fun _ _ _ => ?_
  refine (awaitReady_ends patient true).andThen (by omega) (by omega) fun _ _ _ _ => ?_
  refine hostCsr_ends.step (by omega) fun _ _ _ => ?_
  refine (Ends.writeRegister (by decide)).step (by omega) fun _ _ _ => ?_
  exact (Ends.record rfl).mono (by omega) (by omega)

/-! ### Reading -/

theorem awaitFrame_ends {deadline : Option Deadline}
    (due : ∀ given, deadline = some given → given.Due (state.elapsed + patience)) :
    (awaitFrame link deadline : Op (Timed ρ) Cursors).Ends patience 1 1 state := by
  cases deadline with
  | some deadline =>
    refine (await_ends (fun _ => ?_) (due deadline rfl) patient.rounds).mono (by omega) (by omega)
    exact controllerCursors_ends.step (Nat.le_refl _) fun _ _ _ => .pure
  | none =>
    refine controllerCursors_ends.step (by omega) fun _ _ _ => ?_
    exact .ite (fun _ => .fail) fun _ => .pure

theorem readFrame_ends {deadline : Option Deadline}
    (due : ∀ given, deadline = some given → given.Due (state.elapsed + patience)) :
    (readFrame link deadline : Op (Timed ρ) (Frame.Header × List UInt32)).Ends patience 2 261
      state := by
  refine (awaitFrame_ends patient due).andThen (by omega) (by omega)
    fun cursors _ _ arrived => ?_
  refine (Ends.readRegister (by decide)).step (by omega) fun word middle read => ?_
  have due := fun given is => (due given is).later (Nat.le_trans arrived.later read)
  refine .ite (fun _ => ?_) fun fits => ?_
  · refine (Ends.record rfl).step (by omega) fun _ _ _ => ?_
    exact discardAvailable_ends.step (by omega) fun _ _ _ => .fail
  have short := cursors.depth.toNat_lt
  have taking : ∀ state, (takeBody ⟨word⟩ : Op (Timed ρ) _).Ends patience 0 258 state :=
    fun _ => (takeBody_ends ⟨word⟩).mono (Nat.le_refl _) (by omega)
  have waiting : ∀ given : Deadline, given.Due (middle.elapsed + patience) →
      Ends patience 1 258 (do
        awaitWords link given (Frame.Header.mk word).words
        takeBody ⟨word⟩) middle := by
    intro given due
    exact (awaitWords_ends patient due _).andThen (by omega) (by omega) fun _ _ _ _ => taking _
  refine .ite (fun _ => ?_) fun _ => ?_
  · cases deadline with
    | some deadline => exact (waiting deadline (due deadline rfl)).mono (by omega) (by omega)
    | none =>
      refine .deadlineAfter ((waiting _ ?_).mono (by omega) (by omega))
      exact Deadline.due_after patient.receive _
  · exact (taking middle).mono (by omega) (by omega)

end

section

variable {patience : Nat} {link : Link} {state : Timed Controller}

theorem readFrame_lessens {deadline : Option Deadline} {read : Frame.Header × List UInt32}
    {entries : List Entry} {after : Timed Controller}
    (performs : (readFrame link deadline).Performs state entries (.ok read) after) :
    after.registers.load < state.registers.load :=
  ((readFrame_ensures link deadline).told performs).takes performs.path

variable (patient : link.Patient patience)

include patient

theorem readFrames_ends (capacity : Nat) {rounds : Nat} {deadline : Option Deadline}
    (due : ∀ given, deadline = some given → given.Due (state.elapsed + patience))
    (assembly : Assembly) (enough : state.registers.load < rounds) :
    (readFrames link capacity rounds deadline assembly : Op (Timed Controller) Message).Ends
      patience (2 * (state.registers.load + 1)) (262 * (state.registers.load + 1)) state := by
  -- The induction is on the rounds, which the load stays below, since each frame lessens it.
  induction rounds generalizing state deadline assembly with
  | zero => exact absurd enough (Nat.not_lt_zero _)
  | succ rounds ih =>
    refine (readFrame_ends patient due).andThen (by omega) (by omega) fun frame _ middle read => ?_
    have fewer := readFrame_lessens read
    refine .ite (fun _ => ?_) fun _ => .deadlineAfter ?_
    · refine .ite (fun _ => ?_) fun _ => .pure
      exact (Ends.record rfl).step (by omega) fun _ _ _ => .fail
    · refine (ih ?_ _ (by omega)).mono (by omega) (by omega)
      rintro _ ⟨⟩
      exact Deadline.due_after patient.receive _

theorem readPhase_ends (exchange : Exchange) (capacity : Nat) {deadline : Option Deadline}
    (due : ∀ given, deadline = some given → given.Due (state.elapsed + patience))
    (enough : state.registers.load < link.fuel) :
    (readPhase link exchange capacity deadline : Op (Timed Controller) Message).Ends patience
      (2 * (state.registers.load + 1)) (262 * (state.registers.load + 1) + 1) state := by
  refine (readFrames_ends patient capacity due {} enough).attempt.andThen (by omega) (by omega)
    fun read _ _ _ => ?_
  cases read with
  | ok message => exact (advance_ends _ _).step (by omega) fun _ _ _ => .pure
  | error fault => exact (advance_ends _ _).step (by omega) fun _ _ _ => .fail

theorem receive_ends (blocking : Bool) (enough : state.registers.load < link.fuel) :
    (receive link blocking : Op (Timed Controller) Message).Ends patience
      (2 * (state.registers.load + 1)) (262 * (state.registers.load + 1) + 2) state := by
  have reading : ∀ deadline, (∀ given, deadline = some given →
      given.Due (state.elapsed + patience)) → Ends patience
        (2 * (state.registers.load + 1)) (262 * (state.registers.load + 1) + 2) (do
          let awaiting ← advance {} .awaitingResponse
          readPhase link awaiting link.device.maxLength deadline) state := by
    intro deadline due
    refine (advance_ends _ _).andThen (by omega) (by omega) fun _ _ middle moved => ?_
    have less := (Controller.Subsides.path moved.path).load
    have due := fun given is => (due given is).later moved.later
    exact (readPhase_ends patient _ _ due (by omega)).mono (by omega) (by omega)
  refine .ite (fun _ => ?_) fun _ => reading none (by simp)
  rw [map_eq_pure_bind, bind_assoc]
  refine .deadlineAfter (reading _ ?_)
  rintro _ ⟨⟩
  exact Deadline.due_after patient.receive _

theorem sendAndAwait_ends (request : Message) (route : Route) {timeout : Nat}
    (short : timeout ≤ patience) (capacity : Nat) (enough : state.registers.load < link.fuel) :
    (sendAndAwait link request route timeout capacity : Op (Timed Controller) Message).Ends patience
      (request.length + 2 * (state.registers.load + 1))
      (260 * request.length + 262 * (state.registers.load + 1) + 11) state := by
  refine .deadlineAfter ?_
  have due : ∀ given, some (Deadline.after state.elapsed timeout) = some given →
      given.Due (state.elapsed + patience) := by
    rintro _ ⟨⟩
    exact Deadline.due_after short _
  refine (sendPhase_ends patient request route due {}).andThen (by omega) (by omega)
    fun sent _ _ sending => ?_
  refine (advance_ends _ _).andThen (by omega) (by omega) fun awaiting _ _ moved => ?_
  have less := Nat.le_trans (Controller.Subsides.path moved.path).load
    (Controller.Subsides.path sending.path).load
  have due := fun given is => (due given is).later (Nat.le_trans sending.later moved.later)
  exact (readPhase_ends patient awaiting capacity due (by omega)).mono (by omega) (by omega)

end

end Op

/-! ### Calls -/

namespace Call

/-- The longest wait that a call may come to. -/
def longestWait (config : Config) (call : Call) : Nat :=
  let own := max config.sendTimeout (max config.receiveTimeout config.resetTimeout)
  match call with
  | .sendAndAwait _ _ timeout _ => max timeout own
  | .send .. | .receive _ | .drain | .bringUp | .reset => own

/-- Most frames that a call writes, reads or looks for, if the controller has so many words for the
host; one for a call that does none of this. -/
def rounds (load : Nat) : Call → Nat
  | .send message _ => message.length + 1
  | .sendAndAwait request _ _ _ => request.length + load + 2
  | .receive _ => load + 1
  | .drain => Op.drainLimit
  | .bringUp | .reset => 1

theorem patient {link : Link} {call : Call} (enough : call.longestWait link.config < link.fuel) :
    link.Patient (call.longestWait link.config) := by
  refine ⟨?_, ?_, ?_, enough⟩ <;> cases call <;> simp only [longestWait] <;> omega

end Call

namespace Op

theorem perform_ends {link : Link} {call : Call} {state : Timed Controller}
    (waits : call.longestWait link.config < link.fuel) (frames : state.registers.load < link.fuel) :
    (perform link call).Ends (call.longestWait link.config)
      (2 * call.rounds state.registers.load) (270 * call.rounds state.registers.load) state := by
  have patient := Call.patient waits
  cases call with
  | send message route =>
    exact (send_ends patient message route).mono (by simp only [Call.rounds]; omega)
      (by simp only [Call.rounds]; omega)
  | sendAndAwait request route timeout capacity =>
    refine (sendAndAwait_ends patient request route (Nat.le_max_left _ _) capacity
      frames).andThen ?_ ?_ fun _ _ _ _ => .pure
    · simp only [Call.rounds]; omega
    · simp only [Call.rounds]; omega
  | receive blocking =>
    refine (receive_ends patient blocking frames).andThen ?_ ?_ fun _ _ _ _ => .pure
    · simp only [Call.rounds]; omega
    · simp only [Call.rounds]; omega
  | drain =>
    refine (drain_ends patient).andThen ?_ ?_ fun _ _ _ _ => .pure
    · simp only [Call.rounds]; omega
    · simp only [Call.rounds, drainLimit]; omega
  | bringUp => exact (bringUp_ends patient).mono (by simp [Call.rounds]) (by simp [Call.rounds])
  | reset => exact (reset_ends patient).mono (by simp [Call.rounds]) (by simp [Call.rounds])

/-! ### How far a read counts -/

theorem FrameRead.total_le {deadline : Option Deadline} {header : Frame.Header}
    {payload : List UInt32} {entries : List Entry}
    (read : FrameRead deadline entries (.ok (header, payload))) (assembly : Assembly)
    (capacity : Nat) :
    (assembly.add capacity header.length payload).total ≤
      assembly.total + Frame.maxLength * entries.length := by
  have total : (assembly.add capacity header.length payload).total =
      assembly.total + header.length := by
    unfold Assembly.add
    split <;> rfl
  have short : header.length ≤ Frame.maxLength := by
    unfold Frame.Header.length
    rw [UInt32.toNat_and]
    exact Nat.and_le_right
  have nonempty : 0 < entries.length := by
    cases read
    simp only [List.length_append, List.length_cons]
    omega
  have one := Nat.le_mul_of_pos_right Frame.maxLength nonempty
  omega

theorem MessageRead.needed_le {capacity : Nat} {deadline : Option Deadline} {assembly : Assembly}
    {entries : List Entry} {outcome : Except Stop Message} {needed limit : Nat}
    (read : MessageRead capacity deadline assembly entries outcome)
    (failed : outcome = .error (.fault (.tooSmall needed limit))) :
    needed ≤ assembly.total + Frame.maxLength * entries.length := by
  induction read with
  | stopped read =>
    cases failed
    exact absurd read.plain id
  | @last _ assembly _ _ _ _ _ read _ finished =>
    have begun := read.total_le assembly capacity
    cases finished with
    | oversized =>
      cases failed
      rw [List.length_append, Nat.mul_add]
      exact Nat.le_trans begun (by omega)
    | whole => cases failed
  | @next _ _ assembly _ _ _ _ _ read _ _ ih =>
    have begun := read.total_le assembly capacity
    have others := ih failed
    rw [List.length_append, Nat.mul_add]
    exact Nat.le_trans others (by omega)
  | unfinished => cases failed

theorem ReadHalf.needed_le {capacity : Nat} {deadline : Option Deadline} {entries : List Entry}
    {needed limit : Nat}
    (half : ReadHalf capacity deadline entries (.error (.fault (.tooSmall needed limit)))) :
    needed ≤ Frame.maxLength * entries.length := by
  cases half with
  | failed read =>
    have counted := read.needed_le rfl
    rw [List.length_append, Nat.mul_add]
    exact Nat.le_trans counted (by simp)
  | abandoned other => exact absurd rfl (other _)

theorem Called.needed_le {link : Link} {call : Call} {entries : List Entry}
    {outcome : Except Stop Unit} {needed limit : Nat} (called : Called link call entries outcome)
    (failed : outcome = .error (.fault (.tooSmall needed limit))) :
    needed ≤ Frame.maxLength * entries.length := by
  cases called with
  | send sent => cases failed; exact absurd sent.plain id
  | @sendAndAwait _ _ _ _ _ outcome exchanged =>
    cases outcome with
    | ok => cases failed
    | error stop =>
      cases failed
      cases exchanged with
      | unsent half => exact absurd half.plain id
      | read half reading =>
        refine Nat.le_trans reading.needed_le (Nat.mul_le_mul_left _ ?_)
        rw [List.length_append, List.length_cons]
        omega
  | @receive _ _ outcome received =>
    cases outcome with
    | ok => cases failed
    | error stop =>
      cases failed
      obtain ⟨_, half, reading, rfl⟩ := received
      exact Nat.le_trans reading.needed_le (Nat.mul_le_mul_left _ (Nat.le_succ _))
  | @drain _ outcome drained =>
    cases outcome with
    | ok => cases failed
    | error stop => cases failed; exact absurd drained.plain id
  | bringUp broughtUp => cases failed; exact absurd broughtUp.plain id
  | reset reset => cases failed; exact absurd reset.plain id

/-- Whatever state the controller is in, a call returns or reports a fault once its waits have an
end, as they all have unless the call may last beyond the clock's range. The rounds of the link, if
there are enough for one wait and for the words that the controller has for the host, do not decide
how the call goes, and its length is bounded by these words, its message and its timeouts. No
counter grows by more than the accesses made, and the bytes found to exceed a capacity are no more
than these may bring. What the controller does on a doorbell ends too: no whole frame is left in the
host ring after as many as there were words. And whatever depth a send finds, each of its frames has
the words that its length calls for; there are no more of them than the message has. -/
theorem calls_return (link : Link) (call : Call) (world : World (Timed Controller))
    (waits : call.longestWait link.config < link.fuel)
    (frames : world.hardware.registers.load < link.fuel)
    (finite : ¬Trace.Endless ((perform link call).added world) ∨
      world.hardware.elapsed +
        2 * call.rounds world.hardware.registers.load * call.longestWait link.config <
          Deadline.horizon) :
    let before := world.hardware
    let after := ((perform link call).reached world).hardware
    let entries := (perform link call).added world
    let outcome := (perform link call).outcome world
    let rounds := call.rounds before.registers.load
    let wait := call.longestWait link.config
    (outcome = .ok () ∨ ∃ fault, outcome = .error (.fault fault)) ∧
    (∀ more, link.fuel ≤ more →
      perform { link with fuel := more } call world = perform link call world) ∧
    entries.length ≤ 270 * rounds + 2 * rounds * (wait + 2) ∧
    after.elapsed ≤ before.elapsed + 2 * rounds * wait ∧
    after.registers.doorbells + after.registers.dropped ≤
      before.registers.doorbells + before.registers.dropped + entries.length ∧
    (∀ needed capacity, outcome = .error (.fault (.tooSmall needed capacity)) →
      needed ≤ Frame.maxLength * entries.length) ∧
    (∀ controller : Controller, Controller.takeFrame? controller.consume.hostRing = none) ∧
    ∀ (depth : Nat) (message : Message), Frame.payloadLimit depth ≠ 0 →
      let fragments := Frame.Fragment.ofMessage (Frame.payloadLimit depth) message
      fragments.flatMap Frame.Fragment.words = message.words ∧
        ∀ fragment ∈ fragments, fragment.length ≤ Frame.payloadLimit depth ∧
          fragment.words.length = (fragment.length + 3) / 4 := by
  intro before after entries outcome rounds wait
  obtain ⟨added, ended, middle, performs, lasts⟩ := perform_ends waits frames
  have called := ((perform_ensures link call).holds world).1
  have entriesEq : entries = added := performs.added_eq world.trace
  have outcomeEq : outcome = ended := performs.outcome_eq world.trace
  have afterEq : after = middle := congrArg World.hardware (performs.reached_eq world.trace)
  have counted := (Controller.Subsides.path performs.path).counted
  rw [← entriesEq, ← outcomeEq, ← afterEq] at lasts
  rw [← entriesEq, ← afterEq] at counted
  cases lasts with
  | endless endless _ beyond =>
    obtain never | within := finite
    · exact absurd endless never
    · exact absurd within (Nat.not_lt_of_le beyond)
  | ended finished short early =>
    have settled : ∀ given : Except Stop Unit, given ≠ .error .unfinished →
        (∀ trap, given ≠ .error (.trap trap)) →
        given = .ok () ∨ ∃ fault, given = .error (.fault fault) := by
      rintro (stop | ⟨⟩) whole sound
      · cases stop with
        | fault fault => exact .inr ⟨fault, rfl⟩
        | trap trap => exact absurd rfl (sound trap)
        | unfinished => exact absurd rfl whole
      · exact .inl rfl
    exact ⟨settled outcome finished called.not_trap,
      fun more le => (perform_prolonged le call world).resolve_left finished, short, early, counted,
      fun _ _ => called.needed_le,
      fun controller => Controller.takeFrame?_takeFrames (Nat.le_refl _),
      fun depth message usable =>
        ⟨Frame.Fragment.flatMap_words_ofMessage (Nat.pos_of_ne_zero usable) message,
          Frame.Fragment.ofMessage_fits (Frame.four_dvd_payloadLimit depth)
            (Nat.pos_of_ne_zero usable) message⟩⟩

/-- Rings of depths that do not divide 256, their cursors about to wrap, with frames in both that
nobody sent, more frames waiting, and a request half assembled. -/
def garbled : World (Timed Controller) :=
  ⟨⟨{ hostRing := ⟨#[0x80000007, 0x80000007, 7, 0, 0x80000007, 0x80000007], 250, 254, by decide⟩
      ownRing := ⟨#[0, 0, 0x00030007, 0, 0x00070007], 254, 2, by decide⟩
      hostFlags := 0x6A
      responses := [.ofBytes [1, 2, 3], .empty, .ofBytes [4]]
      pending := [[0], [0x00010007, 0]]
      assembly := [9] }, 0⟩, #[]⟩

def hasty : Link :=
  .ofConfig { sendMilliseconds := 0, receiveMilliseconds := 0, resetMilliseconds := 0 } 0xFED1A000
    32

/-- A read goes through all that never ends a message and through the answer that its doorbells
have called up, however many rounds it is given. -/
theorem garbled_read_returns :
    (perform hasty (.receive true)).outcome garbled = .ok () ∧
    ((perform hasty (.receive true)).added garbled).length = 42 ∧
    ∀ more, 32 ≤ more →
      (perform { hasty with fuel := more } (.receive true)).outcome garbled = .ok () := by
  have outcome : (perform hasty (.receive true)).outcome garbled = .ok () := by decide +kernel
  obtain ⟨-, same, -⟩ := calls_return hasty (.receive true) garbled (by decide +kernel)
    (by decide +kernel) (.inr (by decide +kernel))
  refine ⟨outcome, by decide +kernel, fun more le => ?_⟩
  unfold Op.outcome at outcome ⊢
  rw [same more le]
  exact outcome

end Op

end HeciMailbox
