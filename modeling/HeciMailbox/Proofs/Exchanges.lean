import HeciMailbox.Proofs.Renewal
import HeciMailbox.Proofs.Retrieval

/-! An exchange with a simulated controller that takes requests.

Whatever its flags and records show, such a controller answers as one does whose flags are clear of
everything but the ready bits. That one is in service as soon as the host has been marked ready, and
the exchange reads the message whose frames come first of those under way and those of the answer to
the request. -/

set_option autoImplicit false

namespace HeciMailbox

namespace Csr

theorem and_or_left (flags first second : UInt32) :
    flags &&& (first ||| second) = flags &&& first ||| flags &&& second := by
  apply UInt32.toBitVec_inj.mp
  simp only [UInt32.toBitVec_and, UInt32.toBitVec_or, BitVec.and_or_distrib_left]

theorem Quiet.join {first second flags : UInt32} (quiet : Quiet first flags)
    (quiet' : Quiet second flags) : Quiet (first ||| second) flags := by
  rw [Quiet, and_or_left, show flags &&& first = 0 from quiet,
    show flags &&& second = 0 from quiet']
  rfl

/-- Where neither the doorbell nor a reset shows, only the ready bit acts. -/
theorem flagsAlike_ready {flags : UInt32} (quiet : Quiet (generateBit ||| resetBit) flags) :
    FlagsAlike flags (flags &&& readyBit) where
  live := by
    have split : flags &&& liveBits = flags &&& readyBit := by
      rw [show liveBits = generateBit ||| resetBit ||| readyBit by decide, and_or_left,
        show flags &&& (generateBit ||| resetBit) = 0 from quiet, UInt32.zero_or]
    rw [split, UInt32.and_assoc, show readyBit &&& liveBits = readyBit by decide]
  quiet := quiet.mono (by decide)

end Csr

namespace Controller

/-- The frames on their way to the host: those in the ring, then those that wait for room. None
waits while the ring is empty. -/
structure Offers (placed waiting : List Frame.Segment) (controller : Controller) : Prop where
  sound : controller.ownRing.Sound
  supplied : controller.ownRing.toList = placed.flatMap Frame.Segment.words
  pending : controller.pending = waiting.map Frame.Segment.words
  busy : placed = [] → waiting = []
  fits : ∀ segment ∈ waiting, segment.words.length ≤ controller.ownRing.slots.size

variable {hostDepth ownDepth : Nat} {controller : Controller} {placed waiting : List Frame.Segment}

theorem Offers.all_fit (offers : controller.Offers placed waiting) :
    ∀ segment ∈ placed ++ waiting, segment.words.length ≤ controller.ownRing.slots.size := by
  refine List.forall_mem_append.mpr ⟨fun segment member => ?_, offers.fits⟩
  have part : segment.words.Sublist (placed.flatMap Frame.Segment.words) :=
    List.flatMap_def ▸ List.sublist_flatten_of_mem (List.mem_map_of_mem member)
  have inside := part.length_le
  rw [← offers.supplied, offers.sound.length_toList] at inside
  exact Nat.le_trans inside offers.sound.within

/-- The same controller with flags that show nothing but which sides are ready, and no record of
writes that found no room. -/
def plain (controller : Controller) : Controller :=
  { controller with
    hostFlags := controller.hostFlags &&& Csr.readyBit
    ownFlags := Csr.readyBit
    dropped := 0 }

theorem Attentive.alike_plain (attentive : controller.Attentive)
    (shaped : controller.Shaped hostDepth ownDepth) : Alike [] controller controller.plain where
  present := attentive.present
  present' := attentive.present
  hostRing := ⟨rfl, rfl, rfl, fun _ => rfl⟩
  ownRing := ⟨rfl, rfl, rfl, fun _ => rfl⟩
  hostFlags := Csr.flagsAlike_ready (shaped.hostQuiet.join attentive.hostFlags_released)
  ownFlags := by
    have alike := Csr.flagsAlike_ready shaped.ownQuiet
    rwa [attentive.ownFlags_ready] at alike
  autoConsume := rfl
  responses := rfl
  pending := rfl
  assembly := rfl
  received := rfl

def post (controller : Controller) (frames : List Frame.Segment) : Post :=
  ⟨frames, controller.assembly, controller.responses, controller.received⟩

theorem Offers.keeps (offers : controller.Offers placed waiting)
    (shaped : controller.Shaped hostDepth ownDepth) (present : controller.present = true)
    (consuming : controller.autoConsume = true) (host : hostDepth ∣ 256)
    (empty : controller.hostRing.cursors.isEmpty = true) :
    Keeps hostDepth ownDepth [] (controller.post (placed ++ waiting))
      { controller.plain with hostFlags := Csr.readyBit } := by
  have zero : controller.hostRing.cursors.filled.toNat = 0 := by
    simpa [Cursors.isEmpty, ← UInt8.toNat_inj] using empty
  have hostSound : controller.hostRing.Sound :=
    ⟨shaped.hostSize.symm ▸ host, zero ▸ Nat.zero_le _⟩
  refine ⟨placed, waiting, rfl, offers.busy, shaped.ownSize ▸ offers.all_fit, ?_⟩
  exact {
    present := present
    consuming := consuming
    hostReady := .inl rfl
    ownReady := .inl rfl
    hostSound := hostSound
    hostSize := shaped.hostSize
    written := List.isEmpty_iff.mp (hostSound.isEmpty_eq.symm.trans empty)
    ownSound := offers.sound
    ownSize := shaped.ownSize
    supplied := offers.supplied
    waiting := offers.pending
    assembly := rfl
    responses := rfl
    received := rfl
    lossless := rfl }

/-- A host that is marked ready rings the doorbell, which finds nothing to take. The flags may show
anything that the mark leaves nothing of. -/
theorem Keeps.mark {post : Post}
    (keeps : Keeps hostDepth ownDepth [] post { controller with hostFlags := Csr.readyBit })
    (marks : (Csr.mk controller.hostFlags).withBits (Csr.readyBit ||| Csr.generateBit)
      Csr.resetBit = Csr.readyBit ||| Csr.generateBit) :
    Keeps hostDepth ownDepth [] post
      (controller.writeRegister Register.hostCsr
        ((Csr.mk controller.hostStatus).withBits (Csr.readyBit ||| Csr.generateBit)
          Csr.resetBit)) := by
  obtain ⟨placed, waiting, shape, busy, fits, holds⟩ := keeps
  have status : controller.hostStatus =
      Controller.statusWord controller.hostFlags controller.hostRing := if_pos holds.present
  have seen : ∀ mask : UInt32, mask.toNat < 0x100 →
      (Csr.mk controller.hostStatus).withBits (Csr.readyBit ||| Csr.generateBit) Csr.resetBit
          &&& mask =
        (Csr.readyBit ||| Csr.generateBit) &&& mask := by
    intro mask low
    have same : controller.hostStatus &&& mask = controller.hostFlags &&& mask :=
      status ▸ Controller.statusWord_and controller.hostFlags controller.hostRing low
    rw [Csr.withBits_and same, marks]
  obtain ⟨hostFlags, ready, written⟩ := @Controller.writeRegister_of_rung controller _ _
    holds.present holds.ownReady (.inl rfl) seen
  have taken := written.trans (congrArg Controller.fill (if_pos holds.consuming))
  have ringing : Controller.Holds hostDepth ownDepth _
      { controller with hostFlags, doorbells := controller.doorbells + 1 } :=
    { holds with hostReady := ready }
  rw [shape] at fits
  have filled := (ringing.consume rfl).fill fits
  rw [← shape] at filled
  rw [taken]
  exact filled

end Controller

namespace Op

variable {hostDepth ownDepth : Nat} {post : Controller.Post}

/-! ### The request -/

theorem ensureHostReady_marks {controller : Controller} {elapsed : Nat}
    (keeps : Controller.Keeps hostDepth ownDepth [] post
      { controller with hostFlags := Csr.readyBit })
    (marked : controller.hostFlags = 0 ∨ controller.hostFlags = Csr.readyBit) :
    (ensureHostReady : Op (Timed Controller) Unit).Reaches ⟨controller, elapsed⟩
      fun outcome after => ∃ value, outcome = .ok value ∧
        Serving hostDepth ownDepth [] post elapsed after := by
  obtain unmarked | marked := marked
  · obtain ⟨_, _, _, _, _, holds⟩ := id keeps
    have status : controller.hostStatus = Controller.statusWord 0 controller.hostRing := by
      rw [Controller.hostStatus, if_pos holds.present, unmarked]
    have unready : (Csr.mk controller.hostStatus).ready = false := by
      rw [Csr.ready, Csr.has, status, Controller.statusWord_and _ _ (by decide)]
      rfl
    have here : (Csr.mk controller.hostStatus).absent = false := by
      rw [status]
      exact Controller.absent_statusWord holds.hostSound 0
    refine .following (hostCsr_returns here) (.ite_pos (by simp [unready]) ?_)
    refine .remark (.last (.writeRegister rfl (.pure ⟨(), rfl, ?_, rfl⟩)))
    exact keeps.mark (unmarked ▸ rfl)
  · have same : { controller with hostFlags := Csr.readyBit } = controller := by rw [← marked]
    rw [same] at keeps
    obtain ⟨_, _, _, _, _, holds⟩ := id keeps
    have served := @ensureHostReady_served hostDepth ownDepth _ ⟨controller, elapsed⟩ holds
    refine served.mono ?_
    rintro _ _ ⟨rfl, rfl⟩
    exact ⟨(), rfl, keeps, rfl⟩

theorem sendPhase_completes {state : Timed Controller} {link : Link} {message : Message}
    {route : Route} {caller : Option Deadline} {goal : Timed Controller → Prop}
    (writes : (writeMessage link message route caller).Reaches state fun outcome after =>
      ∃ value, outcome = .ok value ∧ goal after) :
    (sendPhase link message route caller {}).Reaches state fun outcome after =>
      ∃ sending, outcome = .ok sending ∧ sending = ⟨.sending⟩ ∧ goal after := by
  refine .following (advance_served rfl) (writes.attempt ?_ ?_ ?_)
  · rintro value middle ⟨_, ⟨⟩, holds⟩
    exact .pure ⟨_, rfl, rfl, holds⟩
  · rintro fault middle ⟨_, ⟨⟩, _⟩
  · rintro stop middle _ ⟨_, ⟨⟩, _⟩

/-! ### The message read -/

theorem sendAndAwait_reads (wide : 2 ≤ hostDepth) (deep : 2 ≤ ownDepth) {link : Link}
    {controller : Controller} {elapsed : Nat} {request message : Message}
    (keeps : Controller.Keeps hostDepth ownDepth [] post
      { controller with hostFlags := Csr.readyBit })
    (marked : controller.hostFlags = 0 ∨ controller.hostFlags = Csr.readyBit)
    (good : ¬link.Refuses request)
    (leads : ∀ reply, ∃ group rest,
      (post.complete ownDepth reply (post.assembly ++ request.bytes)).frames = group ++ rest ∧
        Frame.Conveys group message.bytes ∧ group.length ≤ link.fuel)
    (route : Route) (timeout capacity : Nat) :
    (sendAndAwait link request route timeout capacity : Op (Timed Controller) Message).Reaches
      ⟨controller, elapsed⟩ fun outcome _ => outcome = message.fitted capacity := by
  have fuel : 0 < link.fuel := by
    obtain ⟨group, _, -, conveys, enough⟩ := leads ⟨0, 0⟩
    exact Nat.lt_of_lt_of_le (List.length_pos_iff.mpr conveys.ne_nil) enough
  have required : (requireController : Op (Timed Controller) Unit).Returns ⟨controller, elapsed⟩ ()
      ⟨controller, elapsed⟩ := by
    obtain ⟨_, _, _, _, _, holds⟩ := keeps
    exact requireController_returns holds.ownStatus_present holds.ownStatus_ready
  have writes := fun caller => writeMessage_completes wide deep fuel good route caller required
    (ensureHostReady_marks keeps marked)
  refine .deadlineAfter (.returning (sendPhase_completes (writes _)) ?_)
  rintro _ middle ⟨rfl, reply, served, -⟩
  obtain ⟨group, rest, frames, conveys, enough⟩ := leads reply
  refine .following (advance_served rfl) (readPhase_served ?_)
  refine (readMessage_served fuel capacity _ conveys enough served frames).mono ?_
  rintro outcome after ⟨rfl, -⟩
  rfl

theorem Agree.reaches {σ α : Type} [Registers σ] [Clock σ] {same : σ → σ → Prop}
    {first second : Op σ α} {one two : σ} {goal : Except Stop α → Prop}
    (agree : Agree same first second) (related : same one two)
    (reaches : second.Reaches two fun outcome _ => goal outcome) :
    first.Reaches one fun outcome _ => goal outcome := by
  obtain ⟨outcome, _, _, _, _, performs, performs', -⟩ := agree one two related
  obtain ⟨_, _, _, known, holds⟩ := reaches
  obtain ⟨-, rfl⟩ := performs'.unique known
  exact ⟨_, _, _, performs, holds⟩

/-- The next message for the host has these bytes and at most `count` frames: they come first of the
frames under way, or none is under way and the message is the response prepared for the next
request. -/
inductive Upcoming (responses : List Message) :
    List Frame.Segment → List UInt8 → Nat → Prop where
  | underWay {group rest : List Frame.Segment} {bytes : List UInt8} {count : Nat} :
    Frame.Conveys group bytes → group.length ≤ count →
    Upcoming responses (group ++ rest) bytes count
  | prepared {response : Message} {others : List Message} {count : Nat} :
    responses = response :: others → 0 < response.length → response.length ≤ count →
    Upcoming responses [] response.bytes count

theorem Upcoming.leads {responses : List Message} {frames : List Frame.Segment} {bytes : List UInt8}
    {count : Nat} (upcoming : Upcoming responses frames bytes count) (assembly : List UInt8)
    (received : List Message) (reply : Route) (request : List UInt8) :
    ∃ group rest,
      (Controller.Post.complete ownDepth ⟨frames, assembly, responses, received⟩ reply
        request).frames = group ++ rest ∧
      Frame.Conveys group bytes ∧ group.length ≤ count := by
  cases upcoming with
  | underWay conveys few => exact ⟨_, _, List.append_assoc _ _ _, conveys, few⟩
  | @prepared response others _ prepared nonempty short =>
    subst prepared
    obtain ⟨conveys, few⟩ := @Controller.responseFrames_convey ownDepth response nonempty reply
    exact ⟨_, [], (List.append_nil _).symm, conveys, Nat.le_trans few short⟩

/-- An exchange with a controller that takes requests reads the next message for the host. -/
theorem exchange_reads_the_upcoming {state : Timed Controller}
    {placed waiting : List Frame.Segment} {link : Link} {request message : Message}
    (wide : 2 ≤ hostDepth) (deep : 2 ≤ ownDepth) (host : hostDepth ∣ 256)
    (shaped : state.registers.Shaped hostDepth ownDepth) (attentive : state.registers.Attentive)
    (consuming : state.registers.autoConsume = true)
    (empty : state.registers.hostRing.cursors.isEmpty = true)
    (offers : state.registers.Offers placed waiting)
    (upcoming :
      Upcoming state.registers.responses (placed ++ waiting) message.bytes link.fuel)
    (good : ¬link.Refuses request) (route : Route) (timeout capacity : Nat) :
    (sendAndAwait link request route timeout capacity).Reaches state
      fun outcome _ => outcome = message.fitted capacity := by
  have keeps := offers.keeps shaped attentive.present consuming host empty
  have marked : state.registers.plain.hostFlags = 0 ∨
      state.registers.plain.hostFlags = Csr.readyBit :=
    Csr.and_bit state.registers.hostFlags (show Csr.readyBit.toNat = 1 <<< 3 from rfl)
  have alike : Timed.Alike [] state { state with registers := state.registers.plain } :=
    ⟨attentive.alike_plain shaped, rfl⟩
  exact (agree_sendAndAwait link request route timeout capacity).reaches alike
    (sendAndAwait_reads wide deep keeps marked good (fun reply => upcoming.leads _ _ reply _)
      route timeout capacity)

end Op

end HeciMailbox
