import Mathlib.Algebra.Order.Floor.Div
import HeciMailbox.Proofs.Exchanges
import HeciMailbox.Proofs.Tally
import HeciMailbox.Transport.Handshake

/-! What an exchange with a simulated controller in service costs in doorbells.

The host rings once for each frame that it sends and once for each that it reads. A controller with
nothing under way answers a request with its next response, so both numbers follow from the two
lengths and the depths of the rings. -/

set_option autoImplicit false

namespace HeciMailbox

namespace Frame

/-- How many frames a message of `length` bytes takes on a ring of `depth` slots. A frame carries
the words that fit beside its header, but not more than 508 bytes. -/
def needed (depth length : Nat) : Nat := length ⌈/⌉ min (4 * (depth - 1)) 508

theorem payloadLimit_eq (depth : Nat) : payloadLimit depth = min (4 * (depth - 1)) 508 := by
  unfold payloadLimit maxLength
  rw [Nat.mul_comm]

theorem length_segments (route : Route) (depth : Nat) (bytes : List UInt8) :
    (segments route (payloadLimit depth) bytes).length = needed depth bytes.length := by
  rw [segments, List.length_map, List.length_range, payloadLimit_eq]
  rfl

theorem length_ofMessage {depth : Nat} (deep : 2 ≤ depth) (message : Message) :
    (Fragment.ofMessage (payloadLimit depth) message).length = needed depth message.length := by
  have same := congrArg List.length
    (ofMessage_eq_segments ⟨0, 0⟩ (four_dvd_payloadLimit depth) (payloadLimit_pos deep) message)
  rwa [List.length_map, length_segments, message.length_bytes] at same

end Frame

theorem Ready.withBits {flags : UInt32} (ready : Ready flags) :
    (Csr.mk flags).withBits (Csr.readyBit ||| Csr.generateBit) Csr.resetBit =
      Csr.readyBit ||| Csr.generateBit := by
  obtain rfl | rfl := ready
  · rfl
  · rfl

namespace Controller

/-- With nothing under way and these responses prepared, and so many doorbells heard. -/
structure Stocked (hostDepth ownDepth : Nat) (responses : List Message) (doorbells : Nat)
    (controller : Controller) : Prop where
  keeps : ∃ received, controller.Keeps hostDepth ownDepth [] ⟨[], [], responses, received⟩
  counted : controller.doorbells = doorbells

theorem length_responseFrames {ownDepth : Nat} (deep : 2 ≤ ownDepth) (response : Message)
    (route : Route) :
    (responseFrames ownDepth response route).length = Frame.needed ownDepth response.length := by
  have limit : max (Frame.payloadLimit ownDepth) 4 = Frame.payloadLimit ownDepth := by
    unfold Frame.payloadLimit Frame.maxLength
    omega
  rw [responseFrames, limit, Frame.length_segments, response.length_bytes]

theorem Streams.counted {offers : List Frame.Segment → Controller → Prop} (streams : Streams offers)
    (total : Nat) :
    Streams fun frames controller =>
      offers frames controller ∧ controller.doorbells + frames.length = total where
  present here := streams.present here.1
  sound here := streams.sound here.1
  empty here := streams.empty here.1
  front := by
    rintro segment rest controller ⟨offered, counted⟩
    obtain ⟨behind, queue, taken⟩ := streams.front offered
    refine ⟨behind, queue, fun ownRing sound same size => ⟨taken ownRing sound same size, ?_⟩⟩
    have present := streams.present offered
    have tallied := @Tallied.withDoorbell { controller with ownRing } present
      ⟨hostStatus { controller with ownRing }⟩ true
    have rung := tallied.doorbells
    rw [List.length_cons] at counted
    dsimp only at rung ⊢
    omega

end Controller

namespace Op

variable {hostDepth ownDepth : Nat} {state : Timed Controller} {post : Controller.Post}

/-! ### The request -/

theorem sendFragments_counted (deep : 2 ≤ ownDepth) {link : Link} (fuel : 0 < link.fuel)
    (route : Route) (deadline : Deadline) {fragments : List Frame.Fragment}
    (fitting : ∀ fragment ∈ fragments, Fitting hostDepth fragment)
    (keeps : state.registers.Keeps hostDepth ownDepth [] post) :
    (sendFragments link route deadline fragments).Reaches state fun outcome after =>
      ∃ value, outcome = .ok value ∧
        Serving hostDepth ownDepth []
          ((fragments.map (.ofFragment route)).foldl (Controller.Post.accept ownDepth) post)
          state.elapsed after ∧
        after.registers.doorbells = state.registers.doorbells + fragments.length := by
  have present : state.registers.present = true := by
    obtain ⟨_, _, _, _, _, holds⟩ := keeps
    exact holds.present
  obtain ⟨entries, _, after, performs, sent, value, rfl, serving⟩ :=
    (sendFragments_served deep fuel route deadline fitting keeps).ensured
      (sendFragments_ensures link route deadline fragments)
  have tallied := Controller.Tallied.path performs.path present
  rw [sent.doorbells rfl] at tallied
  exact ⟨entries, _, after, performs, value, rfl, serving, tallied.doorbells⟩

theorem writeMessage_counted (wide : 2 ≤ hostDepth) (deep : 2 ≤ ownDepth) {link : Link}
    (fuel : 0 < link.fuel) {request : Message} (good : ¬link.Refuses request) (route : Route)
    (caller : Option Deadline) (keeps : state.registers.Keeps hostDepth ownDepth [] post) :
    (writeMessage link request route caller).Reaches state fun outcome after =>
      ∃ value, outcome = .ok value ∧ ∃ reply,
        after.registers.Keeps hostDepth ownDepth []
          (post.complete ownDepth reply (post.assembly ++ request.bytes)) ∧
        after.registers.doorbells =
          state.registers.doorbells + Frame.needed hostDepth request.length := by
  obtain ⟨_, _, _, _, _, holds⟩ := id keeps
  have nonempty : 0 < request.length := Nat.pos_of_ne_zero fun empty => good (.inl empty)
  obtain ⟨reply, completed⟩ := @accept_ofMessage _ ownDepth wide _ nonempty route post
  have marked : (ensureHostReady : Op (Timed Controller) Unit).Reaches state fun outcome middle =>
      ∃ value, outcome = .ok value ∧ middle = state := by
    refine (ensureHostReady_served holds).mono ?_
    rintro _ _ ⟨rfl, rfl⟩
    exact ⟨(), rfl, rfl⟩
  refine writeMessage_opens wide good route caller (requireController_served holds) marked
    (fun _ same => same ▸ keeps) ?_
  rintro _ deadline rfl
  refine (sendFragments_counted deep fuel route deadline (fitting_ofMessage wide request)
    keeps).mono ?_
  rintro _ after ⟨value, rfl, ⟨kept, -⟩, counted⟩
  rw [completed] at kept
  rw [Frame.length_ofMessage wide] at counted
  exact ⟨value, rfl, reply, kept, counted⟩

/-! ### The exchange -/

theorem sendAndAwait_refused {link : Link} {request : Message} (refused : link.Refuses request)
    (route : Route) (timeout capacity : Nat) :
    (sendAndAwait link request route timeout capacity : Op (Timed Controller) Message).Stops state
      (link.refusal request) state := by
  refine .deadlineAfter (.stopping (.following (advance_served rfl) ?_))
  have stops : ∀ caller,
      (writeMessage link request route caller : Op (Timed Controller) Unit).Stops state
        (link.refusal request) state := fun caller => .ite_pos refused (.fail ⟨rfl, rfl⟩)
  refine (stops _).attempt ?_ ?_ ?_
  · rintro _ _ ⟨⟨⟩, _⟩
  · rintro fault _ ⟨⟨⟩, rfl⟩
    exact .following (advance_served rfl) (.fail ⟨rfl, rfl⟩)
  · rintro _ _ other ⟨⟨⟩, _⟩
    exact absurd rfl (other _)

/-- The next response is read, whatever the time given for it, and is gone. -/
theorem sendAndAwait_answered (wide : 2 ≤ hostDepth) (deep : 2 ≤ ownDepth) {link : Link}
    {request response : Message} {others : List Message} {doorbells : Nat}
    (stocked : state.registers.Stocked hostDepth ownDepth (response :: others) doorbells)
    (good : ¬link.Refuses request) (nonempty : 0 < response.length)
    (enough : response.length ≤ link.fuel) (route : Route) (timeout capacity : Nat) :
    (sendAndAwait link request route timeout capacity : Op (Timed Controller) Message).Reaches state
      fun outcome after => outcome = response.fitted capacity ∧
        after.registers.Stocked hostDepth ownDepth others
          (doorbells + Frame.needed hostDepth request.length +
            Frame.needed ownDepth response.length) := by
  obtain ⟨⟨received, keeps⟩, rfl⟩ := stocked
  have fuel : 0 < link.fuel := Nat.lt_of_lt_of_le nonempty enough
  have writes := fun caller => writeMessage_counted wide deep fuel good route caller keeps
  refine .deadlineAfter (.returning (sendPhase_completes (writes _)) ?_)
  rintro _ middle ⟨rfl, reply, kept, counted⟩
  obtain ⟨conveys, few⟩ := @Controller.responseFrames_convey ownDepth response nonempty reply
  refine .following (advance_served rfl) (readPhase_served ?_)
  -- What the request has left under way are the frames of the response, and nothing else.
  let left : Controller.Post := ⟨[], [], others, received ++ [.ofBytes request.bytes]⟩
  have streams := (Controller.Keeps.streams hostDepth ownDepth left).counted
    (middle.registers.doorbells + (Controller.responseFrames ownDepth response reply).length)
  refine (@readMessage_takes middle _ streams link fuel capacity _ _ [] _ conveys
    (Nat.le_trans few enough) ?_).mono ?_
  · rw [List.append_nil]
    exact ⟨kept, rfl⟩
  · rintro outcome after ⟨rfl, ⟨emptied, total⟩, -⟩
    refine ⟨rfl, ⟨_, emptied⟩, ?_⟩
    rw [← Controller.length_responseFrames deep response reply, ← counted]
    exact total

/-! ### Bringing the channel up -/

theorem bringUp_counted {link : Link} (fuel : 0 < link.fuel) {responses : List Message}
    {doorbells : Nat}
    (stocked : state.registers.Stocked hostDepth ownDepth responses doorbells) :
    (bringUp link : Op (Timed Controller) Unit).Reaches state fun outcome after =>
      ∃ value, outcome = .ok value ∧
        after.registers.Stocked hostDepth ownDepth responses (doorbells + 1) := by
  obtain ⟨⟨received, keeps⟩, rfl⟩ := stocked
  obtain ⟨placed, waiting, shape, busy, fits, holds⟩ := keeps
  have up : (do
      let csr ← controllerCsr
      pure (if !csr.absent && csr.ready then some () else none) :
        Op (Timed Controller) (Option Unit)).Returns state (some ()) state := by
    refine .following controllerCsr_served (.pure ⟨?_, rfl⟩)
    simp [holds.ownStatus_present, holds.ownStatus_ready]
  refine .deadlineAfter ((await_served up fuel).attempt ?_ ?_ ?_)
  · rintro _ middle ⟨-, same⟩
    rw [same]
    refine .following (hostCsr_served holds) (.writeRegister rfl (.last (.remark (.pure ?_))))
    have ready : Controller.Keeps hostDepth ownDepth [] ⟨[], [], responses, received⟩
        { state.registers with hostFlags := Csr.readyBit } :=
      ⟨placed, waiting, shape, busy, fits, { holds with hostReady := .inl rfl }⟩
    exact ⟨(), rfl, ⟨received, ready.mark holds.hostReady.withBits⟩,
      (Controller.Tallied.withBits holds.present ⟨state.registers.hostStatus⟩).doorbells⟩
  · rintro _ _ ⟨⟨⟩, _⟩
  · rintro _ _ _ ⟨⟨⟩, _⟩

end Op

end HeciMailbox
