import HeciMailbox.Proofs.Backends
import HeciMailbox.Proofs.Reaches
import HeciMailbox.Proofs.Service
import HeciMailbox.Transport.Receive

/-! Calls on a controller in service.

Every wait but one ends at its first look, because the controller has acted on the doorbell before
the host looks again. The exception is a wait for a message when none is under way: it ends exactly
at its deadline. -/

set_option autoImplicit false

namespace HeciMailbox.Op

variable {hostDepth ownDepth : Nat} {holding : Controller.Holding} {state : Timed Controller}

/-! ### Looks -/

theorem hostCsr_returns (here : (Csr.mk state.registers.hostStatus).absent = false) :
    (hostCsr : Op (Timed Controller) Csr).Returns state ⟨state.registers.hostStatus⟩ state := by
  have answered : Registers.read Register.hostCsr state =
      some (state.registers.hostStatus, state) := by
    simp only [Registers.read, Controller.readRegister_hostCsr]
  exact .readRegister answered (.ite_neg (by simp [here]) (.pure ⟨rfl, rfl⟩))

theorem hostCsr_served (holds : state.registers.Holds hostDepth ownDepth holding) :
    (hostCsr : Op (Timed Controller) Csr).Returns state ⟨state.registers.hostStatus⟩ state :=
  hostCsr_returns holds.hostStatus_present

theorem acknowledge_returns :
    (acknowledge : Op (Timed Controller) Unit).Returns state ()
      { state with
        registers := state.registers.writeRegister Register.hostCsr
          ((Csr.mk state.registers.hostStatus).withDoorbell true) } := by
  have answered : Registers.read Register.hostCsr state =
      some (state.registers.hostStatus, state) := by
    simp only [Registers.read, Controller.readRegister_hostCsr]
  exact .readRegister answered (.last (.writeRegister rfl (.pure ⟨rfl, rfl⟩)))

theorem controllerCsr_served :
    (controllerCsr : Op (Timed Controller) Csr).Returns state ⟨state.registers.ownStatus⟩
      state := by
  have answered : Registers.read Register.controllerCsr state =
      some (state.registers.ownStatus, state) := by
    simp only [Registers.read, Controller.readRegister_controllerCsr]
  exact .readRegister answered (.pure ⟨rfl, rfl⟩)

theorem hostCursors_served (holds : state.registers.Holds hostDepth ownDepth holding) :
    (hostCursors : Op (Timed Controller) Cursors).Returns state state.registers.hostRing.cursors
      state := by
  exact .following (hostCsr_served holds)
    (.pure ⟨congrArg Except.ok (Controller.hostStatus_cursors holds.present), rfl⟩)

theorem controllerCursors_returns (present : state.registers.present = true)
    (sound : state.registers.ownRing.Sound) :
    (controllerCursors : Op (Timed Controller) Cursors).Returns state
      state.registers.ownRing.cursors state := by
  have status : state.registers.ownStatus =
      Controller.statusWord state.registers.ownFlags state.registers.ownRing := if_pos present
  have here : (Csr.mk state.registers.ownStatus).absent = false :=
    status ▸ Controller.absent_statusWord sound _
  have shown := Controller.ownStatus_cursors present
  have within : state.registers.ownRing.cursors.checkOverflow = .ok () := by
    simp [Cursors.checkOverflow, sound.not_overflowed]
  refine .following controllerCsr_served (.ite_neg (by simp [here]) ?_)
  simp only [shown, within]
  exact .ofExcept (.pure ⟨rfl, rfl⟩)

/-! ### Waits -/

/-- A wait whose first look gives a value. -/
theorem await_served {α : Type} {look : Op (Timed Controller) (Option α)} {link : Link}
    {deadline : Deadline} {value : α} (looks : look.Returns state (some value) state)
    (fuel : 0 < link.fuel) : (await link deadline look).Returns state value state := by
  refine .record rfl ?_
  obtain ⟨rounds, shape⟩ := Nat.exists_eq_add_one.mpr fuel
  rw [shape]
  exact .following looks (.pure ⟨rfl, rfl⟩)

/-- A wait that no look can end passes at its deadline, to the microsecond. -/
theorem poll_late {α : Type} {look : Op (Timed Controller) (Option α)} {controller : Controller}
    (looks : ∀ elapsed, look.Returns ⟨controller, elapsed⟩ none ⟨controller, elapsed⟩)
    (interval : Nat) {deadline : Deadline} {moment : Nat} (finite : deadline.at? = some moment)
    (rounds : Nat) {elapsed : Nat} (early : elapsed ≤ moment) (enough : moment - elapsed < rounds) :
    (poll interval deadline look rounds).Stops ⟨controller, elapsed⟩
      (.fault (.timeout deadline.milliseconds)) ⟨controller, moment⟩ := by
  -- A pause takes at least one microsecond and never outlasts the deadline, so the time left gets
  -- less with every round and is used up before the rounds are.
  induction rounds generalizing elapsed with
  | zero => exact absurd enough (Nat.not_lt_zero _)
  | succ rounds ih =>
    refine .following (looks elapsed) (.now ?_)
    by_cases passed : moment ≤ elapsed
    · simp only [Clock.now, Deadline.remaining?_of_passed finite passed]
      exact .fail ⟨rfl, by rw [Nat.le_antisymm early passed]⟩
    · simp only [Clock.now, Deadline.remaining?_of_early finite passed]
      exact .pause (ih (by dsimp only; omega) (by dsimp only; omega))

/-! ### Sending -/

section Sending

variable {post : Controller.Post}

def Serving (hostDepth ownDepth : Nat) (written : List UInt32) (post : Controller.Post)
    (moment : Nat) (state : Timed Controller) : Prop :=
  state.registers.Keeps hostDepth ownDepth written post ∧ state.elapsed = moment

theorem writeWords_served {written : List UInt32} (words : List UInt32)
    (keeps : state.registers.Keeps hostDepth ownDepth written post)
    (room : written.length + words.length ≤ hostDepth) :
    (writeWords words).Reaches state fun outcome after => ∃ value, outcome = .ok value ∧
      Serving hostDepth ownDepth (written ++ words) post state.elapsed after := by
  induction words generalizing written state with
  | nil =>
    rw [List.append_nil]
    exact .pure ⟨_, rfl, keeps, rfl⟩
  | cons word rest ih =>
    rw [List.length_cons] at room
    refine .writeRegister rfl ?_
    let next : Timed Controller :=
      { state with registers := state.registers.writeRegister Register.hostWindow word }
    have written : next.registers.Keeps hostDepth ownDepth (written ++ [word]) post :=
      keeps.writeWindow (by omega) word
    simpa using ih written (by simp; omega)

theorem requireController_returns (here : (Csr.mk state.registers.ownStatus).absent = false)
    (ready : (Csr.mk state.registers.ownStatus).ready = true) :
    (requireController : Op (Timed Controller) Unit).Returns state () state :=
  .following controllerCsr_served (.ite_neg (by simp [here, ready]) (.pure ⟨rfl, rfl⟩))

theorem ensureHostReady_returns (here : (Csr.mk state.registers.hostStatus).absent = false)
    (ready : (Csr.mk state.registers.hostStatus).ready = true) :
    (ensureHostReady : Op (Timed Controller) Unit).Returns state () state :=
  .following (hostCsr_returns here) (.ite_neg (by simp [ready]) (.pure ⟨rfl, rfl⟩))

theorem requireController_served (holds : state.registers.Holds hostDepth ownDepth holding) :
    (requireController : Op (Timed Controller) Unit).Returns state () state :=
  requireController_returns holds.ownStatus_present holds.ownStatus_ready

theorem ensureHostReady_served (holds : state.registers.Holds hostDepth ownDepth holding) :
    (ensureHostReady : Op (Timed Controller) Unit).Returns state () state :=
  ensureHostReady_returns holds.hostStatus_present holds.hostStatus_ready

structure Fitting (hostDepth : Nat) (fragment : Frame.Fragment) : Prop where
  short : fragment.length ≤ Frame.maxLength
  counted : fragment.words.length = (fragment.length + 3) / 4
  room : fragment.words.length + 1 ≤ hostDepth

theorem Fitting.counted_ofFragment {fragment : Frame.Fragment}
    (fitting : Fitting hostDepth fragment) (route : Route) :
    (Frame.Segment.ofFragment route fragment).payload.length =
      (Frame.Segment.ofFragment route fragment).header.words := by
  rw [Frame.Segment.ofFragment, Frame.Header.words,
    Frame.Header.length_ofFields _ _ _ fitting.short]
  exact fitting.counted

theorem sendFragment_served (deep : 2 ≤ ownDepth) (route : Route) {fragment : Frame.Fragment}
    (fitting : Fitting hostDepth fragment)
    (keeps : state.registers.Keeps hostDepth ownDepth [] post) :
    (sendFragment route state.registers.hostRing.cursors fragment).Reaches state
      fun outcome after => ∃ value, outcome = .ok value ∧
        Serving hostDepth ownDepth [] (post.accept ownDepth (.ofFragment route fragment))
          state.elapsed after := by
  have space := fitting.room
  have room : state.registers.hostRing.cursors.checkRoom (fragment.words.length + 1) = .ok () := by
    obtain ⟨_, _, _, _, _, holds⟩ := keeps
    rw [Cursors.checkRoom_eq_ok, holds.host_depth, ← holds.hostSound.length_toList, holds.written,
      List.length_nil, Nat.zero_add]
    exact space
  have made : Frame.Header.make? route.controller route.host fragment.length fragment.last =
      .ok (Frame.Segment.ofFragment route fragment).header :=
    Frame.Header.make?_eq_ok.mpr ⟨fitting.short, rfl⟩
  unfold sendFragment
  simp only [room, made]
  have opened := keeps.writeWindow (by simp; omega)
    (Frame.Segment.ofFragment route fragment).header.raw
  refine .ofExcept (.writeRegister rfl (.returning
    (writeWords_served fragment.words opened (by simp; omega)) ?_))
  rintro _ after ⟨written, moment⟩
  obtain ⟨_, _, _, _, _, holds⟩ := id written
  refine .remark (.emit (.following (hostCsr_served holds) (.last (.writeRegister rfl (.pure ?_)))))
  exact ⟨_, rfl, written.announce deep (fitting.counted_ofFragment route) false, moment⟩

theorem awaitHostEmpty_served {link : Link} (fuel : 0 < link.fuel) (deadline : Deadline)
    (keeps : state.registers.Keeps hostDepth ownDepth [] post) :
    (awaitHostEmpty link deadline : Op (Timed Controller) Cursors).Returns state
      state.registers.hostRing.cursors state := by
  obtain ⟨_, _, _, _, _, holds⟩ := keeps
  refine await_served ?_ fuel
  have within : state.registers.hostRing.cursors.checkOverflow = .ok () := by
    simp [Cursors.checkOverflow, holds.hostSound.not_overflowed]
  have empty : state.registers.hostRing.cursors.isEmpty = true := by
    rw [holds.hostSound.isEmpty_eq, holds.written]
    rfl
  refine .following (hostCursors_served holds) ?_
  simp only [within, empty, if_true]
  exact .ofExcept (.pure ⟨rfl, rfl⟩)

/-- The frames that are left of a message go out one after the other. -/
theorem sendRest_served (deep : 2 ≤ ownDepth) {link : Link} (fuel : 0 < link.fuel) (route : Route)
    (deadline : Deadline) {fragments : List Frame.Fragment}
    (fitting : ∀ fragment ∈ fragments, Fitting hostDepth fragment)
    (keeps : state.registers.Keeps hostDepth ownDepth [] post) :
    (sendRest link route deadline fragments).Reaches state fun outcome after =>
      ∃ value, outcome = .ok value ∧ Serving hostDepth ownDepth []
        ((fragments.map (.ofFragment route)).foldl (Controller.Post.accept ownDepth) post)
        state.elapsed after := by
  -- The doorbell has the controller take each frame, so the ring is empty again before the next.
  induction fragments generalizing state post with
  | nil => exact .pure ⟨_, rfl, keeps, rfl⟩
  | cons fragment rest ih =>
    obtain ⟨here, others⟩ := List.forall_mem_cons.mp fitting
    refine .following (awaitHostEmpty_served fuel deadline keeps) ?_
    refine .returning (sendFragment_served deep route here keeps) ?_
    rintro _ after ⟨sent, moment⟩
    rw [← moment]
    exact ih others sent

theorem sendFragments_served (deep : 2 ≤ ownDepth) {link : Link} (fuel : 0 < link.fuel)
    (route : Route) (deadline : Deadline) {fragments : List Frame.Fragment}
    (fitting : ∀ fragment ∈ fragments, Fitting hostDepth fragment)
    (keeps : state.registers.Keeps hostDepth ownDepth [] post) :
    (sendFragments link route deadline fragments).Reaches state fun outcome after =>
      ∃ value, outcome = .ok value ∧ Serving hostDepth ownDepth []
        ((fragments.map (.ofFragment route)).foldl (Controller.Post.accept ownDepth) post)
        state.elapsed after := by
  cases fragments with
  | nil => exact .pure ⟨_, rfl, keeps, rfl⟩
  | cons fragment rest =>
    obtain ⟨here, others⟩ := List.forall_mem_cons.mp fitting
    obtain ⟨_, _, _, _, _, holds⟩ := id keeps
    refine .following (hostCursors_served holds) ?_
    refine .returning (sendFragment_served deep route here keeps) ?_
    rintro _ after ⟨sent, moment⟩
    rw [← moment]
    exact sendRest_served deep fuel route deadline others sent

/-- How a message goes out: it is refused for its length alone, and any other becomes a complete
request. -/
inductive Submitted (hostDepth ownDepth : Nat) (link : Link) (message : Message)
    (post : Controller.Post) (state : Timed Controller) {α : Type} (value : α) :
    Except Stop α → Timed Controller → Prop where
  | refused : message.length = 0 ∨ link.device.maxLength < message.length →
    Submitted hostDepth ownDepth link message post state value
      (.error (.fault (.badLength message.length link.device.maxLength))) state
  | sent {reply : Route} {after : Timed Controller} :
    ¬(message.length = 0 ∨ link.device.maxLength < message.length) →
    Serving hostDepth ownDepth [] (post.complete ownDepth reply message.bytes) state.elapsed after →
    Submitted hostDepth ownDepth link message post state value (.ok value) after

theorem fitting_ofMessage (wide : 2 ≤ hostDepth) (message : Message) :
    ∀ fragment ∈ Frame.Fragment.ofMessage (Frame.payloadLimit hostDepth) message,
      Fitting hostDepth fragment := by
  intro fragment member
  obtain ⟨within, counted⟩ := Frame.Fragment.ofMessage_fits (Frame.four_dvd_payloadLimit hostDepth)
    (Frame.payloadLimit_pos wide) message fragment member
  have fits : Frame.payloadLimit hostDepth ≤ (hostDepth - 1) * 4 := Nat.min_le_left _ _
  have short := Frame.payloadLimit_le_maxLength hostDepth
  exact ⟨Nat.le_trans within short, counted, by omega⟩

theorem accept_ofMessage (wide : 2 ≤ hostDepth) {message : Message} (nonempty : 0 < message.length)
    (route : Route) (post : Controller.Post) :
    ∃ reply,
      ((Frame.Fragment.ofMessage (Frame.payloadLimit hostDepth) message).map
        (.ofFragment route)).foldl (Controller.Post.accept ownDepth) post =
        post.complete ownDepth reply (post.assembly ++ message.bytes) := by
  have positive := Frame.payloadLimit_pos wide
  have short := Frame.payloadLimit_le_maxLength hostDepth
  have conveys := Frame.segments_convey route positive short (message.length_bytes.symm ▸ nonempty)
  -- The fragments are cut from words and the frames of `conveys` from bytes; they are the same.
  rw [← Frame.ofMessage_eq_segments route (Frame.four_dvd_payloadLimit hostDepth) positive]
    at conveys
  exact Controller.Post.accept_frames conveys post

/-- Once both sides are ready, a message that is not refused for its length is cut for the host
ring, and its fragments are sent from the state in which the host was marked ready. -/
theorem writeMessage_opens (wide : 2 ≤ hostDepth) {link : Link} {message : Message}
    (good : ¬(message.length = 0 ∨ link.device.maxLength < message.length)) (route : Route)
    (caller : Option Deadline)
    (required : (requireController : Op (Timed Controller) Unit).Returns state () state)
    {opened : Timed Controller → Prop} {goal : Except Stop Unit → Timed Controller → Prop}
    (marked : (ensureHostReady : Op (Timed Controller) Unit).Reaches state fun outcome middle =>
      ∃ value, outcome = .ok value ∧ opened middle)
    (serves : ∀ middle, opened middle → middle.registers.Keeps hostDepth ownDepth [] post)
    (sends : ∀ middle deadline, opened middle →
      (sendFragments link route deadline
        (Frame.Fragment.ofMessage (Frame.payloadLimit hostDepth) message)).Reaches middle goal) :
    (writeMessage link message route caller).Reaches state goal := by
  refine .ite_neg good (.following required (.returning marked ?_))
  intro _ middle here
  obtain ⟨_, _, _, _, _, holds⟩ := serves middle here
  refine .following (hostCursors_served holds) ?_
  rw [holds.host_depth]
  refine .ite_neg (Nat.ne_of_gt (Frame.payloadLimit_pos wide)) (.deadlineAfter ?_)
  exact sends middle _ here

/-- The message goes out whole and ends the request under way. -/
theorem writeMessage_completes (wide : 2 ≤ hostDepth) (deep : 2 ≤ ownDepth) {link : Link}
    (fuel : 0 < link.fuel) {message : Message}
    (good : ¬(message.length = 0 ∨ link.device.maxLength < message.length)) (route : Route)
    (caller : Option Deadline)
    (required : (requireController : Op (Timed Controller) Unit).Returns state () state)
    (marked : (ensureHostReady : Op (Timed Controller) Unit).Reaches state fun outcome after =>
      ∃ value, outcome = .ok value ∧ Serving hostDepth ownDepth [] post state.elapsed after) :
    (writeMessage link message route caller).Reaches state fun outcome after =>
      ∃ value, outcome = .ok value ∧ ∃ reply, Serving hostDepth ownDepth []
        (post.complete ownDepth reply (post.assembly ++ message.bytes)) state.elapsed after := by
  have nonempty : 0 < message.length := Nat.pos_of_ne_zero fun empty => good (.inl empty)
  obtain ⟨reply, completed⟩ := @accept_ofMessage _ ownDepth wide _ nonempty route post
  refine writeMessage_opens wide good route caller required marked (fun _ here => here.1) ?_
  rintro middle deadline ⟨keeps, moment⟩
  refine (sendFragments_served deep fuel route deadline (fitting_ofMessage wide message)
    keeps).mono ?_
  rintro outcome after ⟨value, rfl, serving⟩
  rw [completed, moment] at serving
  exact ⟨value, rfl, reply, serving⟩

theorem writeMessage_served (wide : 2 ≤ hostDepth) (deep : 2 ≤ ownDepth) {link : Link}
    (fuel : 0 < link.fuel) (message : Message) (route : Route) (caller : Option Deadline)
    (keeps : state.registers.Keeps hostDepth ownDepth [] post) (fresh : post.assembly = []) :
    (writeMessage link message route caller).Reaches state
      (Submitted hostDepth ownDepth link message post state ()) := by
  by_cases bad : message.length = 0 ∨ link.device.maxLength < message.length
  · exact .ite_pos bad (.fail (.refused bad))
  · obtain ⟨_, _, _, _, _, holds⟩ := id keeps
    have marked : (ensureHostReady : Op (Timed Controller) Unit).Reaches state
        fun outcome after => ∃ value, outcome = .ok value ∧
          Serving hostDepth ownDepth [] post state.elapsed after := by
      refine (ensureHostReady_served holds).mono ?_
      rintro _ _ ⟨rfl, rfl⟩
      exact ⟨(), rfl, keeps, rfl⟩
    refine (writeMessage_completes wide deep fuel bad route caller (requireController_served holds)
      marked).mono ?_
    rintro _ after ⟨_, rfl, reply, serving⟩
    rw [fresh, List.nil_append] at serving
    exact .sent bad serving

theorem advance_served {exchange : Exchange} {target : Phase}
    (legal : exchange.phase.mayPrecede target = true) :
    (advance exchange target : Op (Timed Controller) Exchange).Returns state ⟨target⟩ state :=
  .last (.advance legal (.pure ⟨rfl, rfl⟩))

theorem sendPhase_served (wide : 2 ≤ hostDepth) (deep : 2 ≤ ownDepth) {link : Link}
    (fuel : 0 < link.fuel) (message : Message) (route : Route) (caller : Option Deadline)
    (keeps : state.registers.Keeps hostDepth ownDepth [] post) (fresh : post.assembly = []) :
    (sendPhase link message route caller {}).Reaches state
      (Submitted hostDepth ownDepth link message post state ⟨.sending⟩) := by
  refine .following (advance_served rfl) ?_
  refine (writeMessage_served wide deep fuel message route caller keeps fresh).attempt ?_ ?_ ?_
  · rintro _ middle (_ | ⟨good, serving⟩)
    exact .pure (.sent good serving)
  · rintro _ _ (⟨bad⟩ | _)
    exact .following (advance_served rfl) (.fail (.refused bad))
  · rintro _ _ other (_ | _)
    exact absurd rfl (other _)

theorem send_served (wide : 2 ≤ hostDepth) (deep : 2 ≤ ownDepth) {link : Link}
    (fuel : 0 < link.fuel) (message : Message) (route : Route)
    (keeps : state.registers.Keeps hostDepth ownDepth [] post) (fresh : post.assembly = []) :
    (send link message route).Reaches state
      (Submitted hostDepth ownDepth link message post state ()) := by
  refine (sendPhase_served wide deep fuel message route none keeps fresh).andThen ?_ ?_
  · rintro _ middle (_ | ⟨good, serving⟩)
    exact .following (advance_served rfl) (.pure (.sent good serving))
  · rintro _ _ (⟨bad⟩ | _)
    exact .refused bad

end Sending

end HeciMailbox.Op
