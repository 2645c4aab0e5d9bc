import HeciMailbox.Proofs.Ledger
import HeciMailbox.Proofs.Reassembly
import HeciMailbox.Proofs.Served

/-! Reading from a controller that has frames for the host.

The frames are read in order, and each acknowledgement moves more of them into the ring. A read that
finds none fails at once or at its deadline, and leaves the controller as it was. -/

set_option autoImplicit false

namespace HeciMailbox

namespace Controller

/-- A way to say which frames a controller has for the host that lets them be read one after
another: the next one stands in front of the ring as a whole, and when it has been taken, the
acknowledgement leaves the rest. -/
structure Streams (offers : List Frame.Segment → Controller → Prop) : Prop where
  present {frames : List Frame.Segment} {controller : Controller} : offers frames controller →
    controller.present = true
  sound {frames : List Frame.Segment} {controller : Controller} : offers frames controller →
    controller.ownRing.Sound
  empty {controller : Controller} : offers [] controller → controller.ownRing.toList = []
  front {segment : Frame.Segment} {rest : List Frame.Segment} {controller : Controller} :
    offers (segment :: rest) controller →
    ∃ behind, controller.ownRing.toList = segment.words ++ behind ∧
      ∀ ownRing : Ring, ownRing.Sound → ownRing.toList = behind →
        ownRing.slots.size = controller.ownRing.slots.size →
        let taken := { controller with ownRing }
        offers rest (taken.writeRegister Register.hostCsr
          ((Csr.mk taken.hostStatus).withDoorbell true))

theorem Keeps.streams (hostDepth ownDepth : Nat) (post : Post) :
    Streams fun frames controller =>
      controller.Keeps hostDepth ownDepth [] { post with frames } where
  present := fun ⟨_, _, _, _, _, holds⟩ => holds.present
  sound := fun ⟨_, _, _, _, _, holds⟩ => holds.ownSound
  empty := by
    rintro controller ⟨placed, waiting, shape, -, -, holds⟩
    obtain ⟨rfl, -⟩ := List.append_eq_nil_iff.mp shape.symm
    exact holds.supplied
  front := by
    intro segment rest controller keeps
    obtain ⟨placed, waiting, rfl, -, fits, holds⟩ := keeps.front rfl
    refine ⟨_, holds.supplied, fun ownRing sound queue size => ?_⟩
    have taken : Holds hostDepth ownDepth
        ⟨[], placed.flatMap Frame.Segment.words, waiting.map Frame.Segment.words, post.assembly,
          post.responses, post.received⟩ { controller with ownRing } :=
      { holds with
        ownSound := sound
        ownSize := size.trans holds.ownSize
        supplied := queue }
    exact taken.acknowledge fits true

end Controller

namespace Op

variable {hostDepth ownDepth : Nat} {state : Timed Controller} {post : Controller.Post}
  {offers : List Frame.Segment → Controller → Prop}

/-! ### One frame -/

theorem takeWords_front {front rest : List UInt32} (present : state.registers.present = true)
    (sound : state.registers.ownRing.Sound)
    (queue : state.registers.ownRing.toList = front ++ rest) :
    (takeWords front.length).Reaches state fun outcome after => ∃ words, outcome = .ok words ∧
      words = front ∧ ∃ next : Controller.Ring,
        after = { state with registers := { state.registers with ownRing := next } } ∧
          next.Sound ∧ next.toList = rest ∧
          next.slots.size = state.registers.ownRing.slots.size := by
  induction front generalizing state with
  | nil => exact .pure ⟨[], rfl, rfl, state.registers.ownRing, rfl, sound, queue, rfl⟩
  | cons word front ih =>
    obtain ⟨middle, answered, sound, queue, size⟩ := Controller.readWindow_front present sound queue
    let next : Timed Controller :=
      { state with registers := { state.registers with ownRing := middle } }
    have read : Registers.read Register.controllerWindow state = some (word, next) := by
      simp only [Registers.read, answered, next]
    refine .readRegister read (.returning (@ih next present sound queue) ?_)
    rintro _ after ⟨rfl, last, rfl, sound, queue, size'⟩
    exact .pure ⟨_, rfl, rfl, last, rfl, sound, queue, size'.trans size⟩

theorem awaitFrame_returns {link : Link} (fuel : 0 < link.fuel) (deadline : Option Deadline)
    (present : state.registers.present = true) (sound : state.registers.ownRing.Sound)
    (nonempty : state.registers.ownRing.toList ≠ []) :
    (awaitFrame link deadline : Op (Timed Controller) Cursors).Returns state
      state.registers.ownRing.cursors state := by
  have filled : state.registers.ownRing.cursors.isEmpty = false := by
    rw [sound.isEmpty_eq]
    exact Bool.eq_false_iff.mpr fun empty => nonempty (List.isEmpty_iff.mp empty)
  have looks := controllerCursors_returns present sound
  cases deadline with
  | none => exact .following looks (.ite_neg (by simp [filled]) (.pure ⟨rfl, rfl⟩))
  | some deadline =>
    refine await_served (.following looks ?_) fuel
    simp only [filled, Bool.false_eq_true, if_false]
    exact .pure ⟨rfl, rfl⟩

theorem awaitWords_returns {link : Link} (fuel : 0 < link.fuel) (deadline : Deadline) {words : Nat}
    (present : state.registers.present = true) (sound : state.registers.ownRing.Sound)
    (enough : words ≤ state.registers.ownRing.toList.length) :
    (awaitWords link deadline words : Op (Timed Controller) Unit).Returns state () state := by
  rw [sound.length_toList] at enough
  refine await_served (.following (controllerCursors_returns present sound) ?_) fuel
  simp only [enough, if_true]
  exact .pure ⟨rfl, rfl⟩

/-- The next frame is read whole, and those behind it move up. -/
theorem readFrame_takes (streams : Controller.Streams offers) {link : Link} (fuel : 0 < link.fuel)
    (deadline : Option Deadline) {segment : Frame.Segment} {rest : List Frame.Segment}
    (frames : offers (segment :: rest) state.registers)
    (counted : segment.payload.length = segment.header.words) :
    (readFrame link deadline).Reaches state fun outcome after => ∃ frame, outcome = .ok frame ∧
      frame = (segment.header, segment.payload) ∧ offers rest after.registers ∧
      after.elapsed = state.elapsed := by
  have present := streams.present frames
  have sound := streams.sound frames
  obtain ⟨behind, queue, acknowledged⟩ := streams.front frames
  have within := sound.within
  rw [← sound.length_toList, queue, List.length_append, Frame.Segment.words,
    List.length_cons] at within
  have depth := state.registers.ownRing.toNat_cursors_depth
  refine .following (awaitFrame_returns fuel deadline present sound
    (by simp [queue, Frame.Segment.words])) ?_
  obtain ⟨ownRing, answered, sound, queue, size⟩ :=
    Controller.readWindow_front present sound (queue.trans (List.cons_append ..))
  let next : Timed Controller := { state with registers := { state.registers with ownRing } }
  have read : Registers.read Register.controllerWindow state = some (segment.header.raw, next) := by
    simp only [Registers.read, answered, next]
  refine .readRegister read (.ite_neg (by rw [depth, ← counted]; omega) ?_)
  -- What remains after the header is the same with and without a wait for the rest of the frame.
  have taking : (takeBody segment.header).Reaches next fun outcome after =>
      ∃ frame, outcome = .ok frame ∧ frame = (segment.header, segment.payload) ∧
        offers rest after.registers ∧ after.elapsed = state.elapsed := by
    unfold takeBody
    rw [← counted]
    refine .returning (@takeWords_front next _ _ present sound queue) ?_
    rintro _ _ ⟨rfl, ownRing, rfl, sound, queue, size'⟩
    refine .emit (.following acknowledge_returns (.pure ⟨_, rfl, rfl, ?_, rfl⟩))
    exact acknowledged ownRing sound queue (size'.trans size)
  have waits : ∀ bodyDeadline,
      (awaitWords link bodyDeadline segment.header.words : Op (Timed Controller) Unit).Returns
        next () next := fun bodyDeadline =>
    @awaitWords_returns next link fuel bodyDeadline _ present sound
      (by rw [queue, List.length_append]; omega)
  by_cases bodied : 0 < segment.header.words
  · refine .ite_pos bodied ?_
    cases deadline with
    | some deadline => exact .following (.pure ⟨rfl, rfl⟩) (.following (waits deadline) taking)
    | none => exact .deadlineAfter (.following (waits _) taking)
  · exact .ite_neg bodied taking

/-! ### One message -/

theorem finishAssembly_served (capacity : Nat) (assembly : Assembly) :
    (finishAssembly capacity assembly).Reaches state fun outcome after =>
      outcome = concluded capacity assembly ∧ after = state := by
  unfold concluded
  by_cases truncated : assembly.truncated = true
  · exact .ite_pos truncated (.remark (.fail (by simp [truncated])))
  · exact .ite_neg truncated (.pure (by simp [truncated]))

theorem readFrames_take (streams : Controller.Streams offers) {link : Link} (fuel : 0 < link.fuel)
    (capacity : Nat) {group rest : List Frame.Segment} {bytes : List UInt8}
    (conveys : Frame.Conveys group bytes) {rounds : Nat} (enough : group.length ≤ rounds)
    (deadline : Option Deadline) (assembly : Assembly)
    (frames : offers (group ++ rest) state.registers) :
    (readFrames link capacity rounds deadline assembly).Reaches state fun outcome after =>
      outcome = concluded capacity (group.foldl (Assembly.addFrame capacity) assembly) ∧
        offers rest after.registers ∧ after.elapsed = state.elapsed := by
  -- By the frames of the message. The acknowledgement of one refills the ring from those behind it,
  -- so the controller offers the rest when the next one is read.
  induction conveys generalizing state rounds deadline assembly with
  | last counted complete =>
    obtain ⟨rounds, rfl⟩ := Nat.exists_eq_add_one.mpr (show 0 < rounds from enough)
    refine .returning (readFrame_takes streams fuel deadline frames counted) ?_
    rintro _ middle ⟨rfl, offered⟩
    refine .ite_pos complete ((finishAssembly_served capacity _).mono ?_)
    rintro outcome after ⟨rfl, rfl⟩
    exact ⟨rfl, offered⟩
  | @next segment group bytes counted incomplete conveys ih =>
    rw [List.length_cons] at enough
    obtain ⟨rounds, rfl⟩ := Nat.exists_eq_add_one.mpr (show 0 < rounds by omega)
    refine .returning (readFrame_takes streams fuel deadline frames counted) ?_
    rintro _ middle ⟨rfl, offered, moment⟩
    rw [← moment]
    refine .ite_neg (by simp [incomplete]) (.deadlineAfter ?_)
    have others := ih (Nat.le_of_succ_le_succ enough)
      (some (.after (Clock.now middle) link.config.receiveTimeout))
      (assembly.addFrame capacity segment) offered
    exact others

theorem readMessage_takes (streams : Controller.Streams offers) {link : Link} (fuel : 0 < link.fuel)
    (capacity : Nat) (deadline : Option Deadline) {group rest : List Frame.Segment}
    {message : Message} (conveys : Frame.Conveys group message.bytes)
    (enough : group.length ≤ link.fuel) (frames : offers (group ++ rest) state.registers) :
    (readMessage link capacity deadline).Reaches state fun outcome after =>
      outcome = message.fitted capacity ∧ offers rest after.registers ∧
        after.elapsed = state.elapsed := by
  refine (readFrames_take streams fuel capacity conveys enough deadline {} frames).mono ?_
  rintro outcome after ⟨rfl, offered⟩
  have holds := (Assembly.Holds.start capacity).addFrames conveys.counted
  rw [List.nil_append, conveys.content] at holds
  rw [concluded_of_holds holds, Message.fitted, message.length_bytes, message.ofBytes_bytes]
  exact ⟨rfl, offered⟩

theorem readMessage_served {link : Link} (fuel : 0 < link.fuel) (capacity : Nat)
    (deadline : Option Deadline) {group rest : List Frame.Segment} {message : Message}
    (conveys : Frame.Conveys group message.bytes) (enough : group.length ≤ link.fuel)
    (keeps : state.registers.Keeps hostDepth ownDepth [] post)
    (frames : post.frames = group ++ rest) :
    (readMessage link capacity deadline).Reaches state fun outcome after =>
      outcome = message.fitted capacity ∧
        Serving hostDepth ownDepth [] { post with frames := rest } state.elapsed after := by
  have streams := Controller.Keeps.streams hostDepth ownDepth post
  exact readMessage_takes streams fuel capacity deadline conveys enough (frames ▸ keeps)

/-! ### No message -/

def missed : Option Deadline → Fault
  | none => .noData
  | some deadline => .timeout deadline.milliseconds

/-- A read that finds nothing gives up at once or at its deadline, and does not run out of rounds
before. -/
def GivesUp (rounds elapsed moment : Nat) : Option Deadline → Prop
  | none => moment = elapsed
  | some deadline => deadline.at? = some moment ∧ elapsed ≤ moment ∧ moment - elapsed < rounds

theorem awaitFrame_missed {link : Link} {deadline : Option Deadline} {controller : Controller}
    {elapsed moment : Nat} (ends : GivesUp link.fuel elapsed moment deadline)
    (present : controller.present = true) (sound : controller.ownRing.Sound)
    (empty : controller.ownRing.toList = []) :
    (awaitFrame link deadline : Op (Timed Controller) Cursors).Stops ⟨controller, elapsed⟩
      (.fault (missed deadline)) ⟨controller, moment⟩ := by
  have empty : controller.ownRing.cursors.isEmpty = true := by
    rw [sound.isEmpty_eq, empty]
    rfl
  have looks : ∀ elapsed, (controllerCursors : Op (Timed Controller) Cursors).Returns
      ⟨controller, elapsed⟩ controller.ownRing.cursors ⟨controller, elapsed⟩ := fun elapsed =>
    @controllerCursors_returns ⟨controller, elapsed⟩ present sound
  cases deadline with
  | none =>
    obtain rfl : moment = elapsed := ends
    refine .following (looks moment) ?_
    exact .ite_pos empty (.fail ⟨rfl, rfl⟩)
  | some deadline =>
    obtain ⟨finite, early, enough⟩ := ends
    refine .record rfl (poll_late (fun elapsed => ?_) _ finite _ early enough)
    refine .following (looks elapsed) ?_
    simp only [empty, if_true]
    exact .pure ⟨rfl, rfl⟩

theorem readMessage_missed (streams : Controller.Streams offers) {link : Link}
    (fuel : 0 < link.fuel) (capacity : Nat) {deadline : Option Deadline} {controller : Controller}
    {elapsed moment : Nat} (ends : GivesUp link.fuel elapsed moment deadline)
    (exhausted : offers [] controller) :
    (readMessage link capacity deadline : Op (Timed Controller) Message).Stops
      ⟨controller, elapsed⟩ (.fault (missed deadline)) ⟨controller, moment⟩ := by
  obtain ⟨rounds, same⟩ := Nat.exists_eq_add_one.mpr fuel
  unfold readMessage
  rw [same]
  exact .stopping (.stopping
    (awaitFrame_missed ends (streams.present exhausted) (streams.sound exhausted)
      (streams.empty exhausted)))

/-! ### The read half of an exchange -/

theorem readPhase_served {link : Link} {capacity : Nat} {deadline : Option Deadline}
    {spec : Except Stop Message → Timed Controller → Prop}
    (reads : (readMessage link capacity deadline).Reaches state spec) :
    (readPhase link ⟨.awaitingResponse⟩ capacity deadline).Reaches state spec := by
  refine reads.attempt ?_ ?_ ?_
  · intro message middle holds
    exact .following (advance_served rfl) (.pure holds)
  · intro fault middle holds
    exact .following (advance_served (mayPrecede_ofFault_of_awaiting fault)) (.fail holds)
  · intro stop after _ holds
    exact holds

end Op

end HeciMailbox
