import HeciMailbox.Proofs.Exchanges
import HeciMailbox.Proofs.Replies

/-! Queries to a simulated controller that takes requests.

However the request and the reply are cut into frames, what a query returns is a function of the
bytes of the next message for the host. -/

set_option autoImplicit false

namespace HeciMailbox

/-! ### Frames without bytes -/

theorem Frame.Conveys.bare {group : List Segment} {bytes : List UInt8}
    (conveys : Conveys group bytes) (empty : bytes = []) :
    ∃ frame ∈ group, frame.header.complete = true ∧ frame.content = [] := by
  induction conveys with
  | last _ complete => exact ⟨_, List.mem_singleton_self _, complete, empty⟩
  | next _ _ _ ih =>
    obtain ⟨frame, member, bare⟩ := ih (List.append_eq_nil_iff.mp empty).2
    exact ⟨frame, List.mem_cons_of_mem _ member, bare⟩

theorem Controller.content_ne_nil {ownDepth : Nat} {response : Message} {route : Route}
    {frame : Frame.Segment} (member : frame ∈ responseFrames ownDepth response route) :
    frame.content ≠ [] :=
  Frame.content_ne_nil route (responseLimit_le ownDepth) member

/-- A message without bytes is one that the controller has not made of a response. -/
theorem Op.Upcoming.raw {responses : List Message} {frames : List Frame.Segment}
    {bytes : List UInt8} {count : Nat} (upcoming : Upcoming responses frames bytes count)
    (empty : bytes = []) :
    ∃ frame ∈ frames, frame.header.complete = true ∧ frame.content = [] ∧
      ∀ ownDepth response route,
        frame ∉ Controller.responseFrames ownDepth response route := by
  cases upcoming with
  | underWay conveys =>
    obtain ⟨frame, member, complete, bare⟩ := conveys.bare empty
    exact ⟨frame, List.mem_append_left _ member, complete, bare, fun ownDepth response route made =>
      Controller.content_ne_nil made bare⟩
  | @prepared response _ _ _ nonempty =>
    rw [← response.length_bytes, empty] at nonempty
    exact absurd nonempty (Nat.lt_irrefl 0)

namespace Mkhi

def dataIn (reply : List UInt8) : UInt32 := Bytes.wordAt reply 9

section

variable {world : World (Timed Controller)} {link : Link} {entries : List Entry}
  {reply : Message} {after : Timed Controller}

theorem firmwareVersions_outcome
    (performs : (exchange link (.request generalGroup versionCommand) []).Performs world.hardware
      entries (.ok reply) after) :
    (firmwareVersions link).outcome world =
      .ok (judged generalGroup versionCommand versionReplySize versionsIn reply.bytes) := by
  obtain ⟨told, answered, -⟩ := firmwareVersions_performs performs
  exact answered.outcome_eq world.trace

theorem rule_outcome {α : Type} {rule : UInt32} {make : UInt32 → α}
    (performs : (exchange link (.request rulesGroup ruleCommand) [rule]).Performs world.hardware
      entries (.ok reply) after) :
    Op.outcome (do pure ((← ruleData link rule).map make)) world =
      .ok (judged rulesGroup ruleCommand ruleReplySize (make ∘ dataIn) reply.bytes) := by
  obtain ⟨told, answered, -⟩ := rule_performs performs
  exact answered.outcome_eq world.trace

end

/-- However the request and the reply are cut into frames, a query to a controller that takes
requests returns what the bytes of the next message for the host say. Only a frame that the
controller was given as it is can bring a message without bytes. -/
theorem queries_judge_the_next_message (hostDepth ownDepth : UInt8)
    (power : hostDepth.toNat.isPowerOfTwo) (wide : 2 ≤ hostDepth.toNat) (deep : 2 ≤ ownDepth.toNat)
    (happenings : List Happening) {link : Link} (large : 8 ≤ link.device.maxLength)
    {placed waiting : List Frame.Segment} {bytes : List UInt8}
    (short : bytes.length ≤ link.device.maxLength) :
    let world := Happening.runAll (simulated hostDepth ownDepth []) happenings
    let controller := world.hardware.registers
    controller.Attentive → controller.autoConsume = true →
      controller.hostRing.cursors.isEmpty = true → controller.Offers placed waiting →
      Op.Upcoming controller.responses (placed ++ waiting) bytes link.fuel →
      (firmwareVersions link).outcome world =
        .ok (judged generalGroup versionCommand versionReplySize versionsIn bytes) ∧
      (capabilities link).outcome world =
        .ok (judged rulesGroup ruleCommand ruleReplySize (Capabilities.mk ∘ dataIn) bytes) ∧
      (platformType link).outcome world =
        .ok (judged rulesGroup ruleCommand ruleReplySize (PlatformType.mk ∘ dataIn) bytes) ∧
      (bytes = [] → ∃ frame ∈ placed ++ waiting,
        frame.header.complete = true ∧ frame.content = [] ∧
          ∀ depth response route, frame ∉ Controller.responseFrames depth response route) := by
  intro world controller attentive consuming empty offers upcoming
  have shaped : controller.Shaped hostDepth.toNat ownDepth.toNat :=
    Happening.shaped_runAll { Controller.Shaped.ofDepths hostDepth ownDepth with } happenings
  have exchanged : ∀ (request : Header) (body : List UInt32), body.length ≤ 1 →
      ∃ entries after, (exchange link request body).Performs world.hardware entries
        (.ok (.ofBytes bytes)) after := by
    intro request body few
    have accepted : ¬link.Refuses (Message.ofHeader request.raw body) := by
      have size : (Message.ofHeader request.raw body).length = 4 * (body.length + 1) := rfl
      unfold Link.Refuses
      omega
    rw [← Message.bytes_ofBytes bytes] at upcoming
    obtain ⟨entries, _, after, performs, rfl⟩ := Op.exchange_reads_the_upcoming wide deep
      (dvd_of_isPowerOfTwo power) shaped attentive consuming empty offers upcoming accepted
      link.config.mkhiRoute link.config.receiveTimeout link.device.maxLength
    rw [Message.fitted, if_pos (show (Message.ofBytes bytes).length ≤ _ from short)] at performs
    exact ⟨entries, after, performs⟩
  obtain ⟨_, _, versions⟩ := exchanged (.request generalGroup versionCommand) [] (by decide)
  obtain ⟨_, _, described⟩ :=
    exchanged (.request rulesGroup ruleCommand) [capabilitiesRule] (by decide)
  obtain ⟨_, _, typed⟩ := exchanged (.request rulesGroup ruleCommand) [platformRule] (by decide)
  have same := Message.bytes_ofBytes bytes
  exact ⟨same ▸ firmwareVersions_outcome versions, same ▸ rule_outcome described,
    same ▸ rule_outcome typed, upcoming.raw⟩

def platformFrames : List Frame.Segment := Controller.responseFrames 2 platformReply ⟨0, 7⟩

/-- The reply has been under way since before the query. -/
def premature : List Happening := [.steered (.enqueue platformReply 7 0)]

theorem reply_in_four_frames_is_judged :
    let world := Happening.runAll (simulated 2 2 []) premature
    platformFrames.length = 4 ∧
      world.hardware.registers.Offers (platformFrames.take 1) (platformFrames.drop 1) ∧
      (platformType impatient).outcome world = .ok (.ok ⟨0x12345678⟩) ∧
      (firmwareVersions impatient).outcome world =
        .ok (.error (.unexpected (.request 0xFF 0x02) ⟨0x00008203⟩)) := by
  intro world
  have attentive : world.hardware.registers.Attentive :=
    ⟨by decide +kernel, by decide +kernel, by decide +kernel⟩
  have offers :
      world.hardware.registers.Offers (platformFrames.take 1) (platformFrames.drop 1) :=
    { sound := ⟨by decide +kernel, by decide +kernel⟩
      supplied := by decide +kernel
      pending := by decide +kernel
      busy := by decide +kernel
      fits := by decide +kernel }
  have conveys : Frame.Conveys platformFrames platformReply.bytes :=
    Frame.segments_convey ⟨0, 7⟩ (by decide) (by decide) (by decide)
  have upcoming : Op.Upcoming world.hardware.registers.responses
      (platformFrames.take 1 ++ platformFrames.drop 1) platformReply.bytes impatient.fuel := by
    rw [List.take_append_drop, ← List.append_nil platformFrames]
    exact .underWay conveys (by decide +kernel)
  have consuming : world.hardware.registers.autoConsume = true := by decide +kernel
  have empty : world.hardware.registers.hostRing.cursors.isEmpty = true := by decide +kernel
  have large : 8 ≤ impatient.device.maxLength := by decide
  obtain ⟨versions, -, typed, -⟩ := queries_judge_the_next_message 2 2 ⟨1, rfl⟩ (by decide)
    (by decide) premature large (by decide) attentive consuming empty offers upcoming
  refine ⟨by decide +kernel, offers, typed.trans ?_, versions.trans ?_⟩
  · decide +kernel
  · decide +kernel

end Mkhi

end HeciMailbox
