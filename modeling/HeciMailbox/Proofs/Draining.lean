import HeciMailbox.Proofs.Exchanges
import HeciMailbox.Transport.Drain

/-! Draining a simulated controller.

The frames to be thrown away are those in the ring and those that wait for room, which move up at
every acknowledgement. The ring holds fewer frames than a drain may take, so none that was there
before is left. -/

set_option autoImplicit false

namespace HeciMailbox

namespace Controller

/-! ### Doorbells that find nothing -/

/-- After `count` doorbells that found the host ring empty. Frames for the host have been taken or
have moved up, and on either side only the interrupt status may have changed. -/
inductive Rung (before : Controller) (count : Nat) : Controller → Prop where
  | intro {ownRing : Ring} {pending : List (List UInt32)} {hostFlags ownFlags : UInt32} :
    hostFlags &&& controlBits = before.hostFlags &&& controlBits →
    ownFlags &&& Csr.liveBits = before.ownFlags &&& Csr.liveBits →
    Rung before count
      { before with
        ownRing, pending, hostFlags, ownFlags, doorbells := before.doorbells + count }

def Offering (frames : List Frame.Segment) (controller : Controller) : Prop :=
  ∃ placed waiting, frames = placed ++ waiting ∧ controller.Offers placed waiting

variable {controller : Controller}

theorem Offers.length_le {placed waiting : List Frame.Segment}
    (offers : controller.Offers placed waiting) :
    placed.length ≤ controller.ownRing.slots.size := by
  have words : ∀ frames : List Frame.Segment,
      frames.length ≤ (frames.flatMap Frame.Segment.words).length := by
    intro frames
    induction frames with
    | nil => exact Nat.le_refl _
    | cons frame rest ih =>
      rw [List.flatMap_cons, List.length_append, List.length_cons, Frame.Segment.words,
        List.length_cons]
      omega
  have within := offers.sound.within
  rw [← offers.sound.length_toList, offers.supplied] at within
  exact Nat.le_trans (words placed) within

theorem Rung.refl (controller : Controller) : controller.Rung 0 controller := .intro rfl rfl

theorem Rung.trans {first second : Nat} {middle after : Controller}
    (rung : controller.Rung first middle) (more : middle.Rung second after) :
    controller.Rung (first + second) after := by
  obtain ⟨hostFlags, ownFlags⟩ := rung
  obtain ⟨hostFlags', ownFlags'⟩ := more
  dsimp only
  rw [Nat.add_assoc]
  exact .intro (hostFlags'.trans hostFlags) (ownFlags'.trans ownFlags)

theorem Rung.of_taken {ring : Ring} {count : Nat} {after : Controller}
    (rung : Rung { controller with ownRing := ring } count after) :
    controller.Rung count after := by
  obtain ⟨hostFlags, ownFlags⟩ := rung
  exact .intro hostFlags ownFlags

theorem Attentive.rung {count : Nat} {after : Controller} (attentive : controller.Attentive)
    (rung : controller.Rung count after) : after.Attentive := by
  obtain ⟨hostFlags, ownFlags⟩ := rung
  refine .of_flags attentive.present ?_ ?_
  · exact (Csr.and_eq_of_and_eq _ ownFlags (by decide)).trans attentive.ownFlags_ready
  · exact (Csr.and_eq_of_and_eq _ hostFlags (by decide)).trans attentive.hostFlags_released

theorem Rung.empty {count : Nat} {after : Controller} (rung : controller.Rung count after)
    (empty : controller.hostRing.cursors.isEmpty = true) :
    after.hostRing.cursors.isEmpty = true := by
  cases rung
  exact empty

theorem Rung.same {count : Nat} {after : Controller} (rung : controller.Rung count after) :
    after.autoConsume = controller.autoConsume ∧ after.responses = controller.responses := by
  cases rung
  exact ⟨rfl, rfl⟩

theorem consume_of_empty (empty : controller.hostRing.cursors.isEmpty = true) :
    controller.consume = { controller with ownFlags := controller.ownFlags ||| Csr.statusBit } := by
  have nothing : controller.hostRing.cursors.filled = 0 := by simpa [Cursors.isEmpty] using empty
  unfold consume
  rw [nothing]
  rfl

/-- Frames that wait move up behind those in the ring. -/
theorem fill_offers {placed waiting : List Frame.Segment} (sound : controller.ownRing.Sound)
    (supplied : controller.ownRing.toList = placed.flatMap Frame.Segment.words)
    (pending : controller.pending = waiting.map Frame.Segment.words)
    (fits : ∀ segment ∈ waiting, segment.words.length ≤ controller.ownRing.slots.size) :
    controller.Rung 0 controller.fill ∧ controller.fill.Offering (placed ++ waiting) ∧
      controller.fill.ownRing.slots.size = controller.ownRing.slots.size := by
  obtain ⟨moved, stay, ring, filled, rfl, shape, sound', queue, size, busy⟩ :=
    fill_frames sound pending fits
  rw [shape]
  refine ⟨.intro ?_ rfl, ?_, size⟩
  · split
    · exact Csr.Quiet.or_and (by decide) _
    · rfl
  · rw [← List.append_assoc]
    refine ⟨placed ++ moved, stay, rfl, sound', ?_, rfl, fun nothing => busy ?_, ?_⟩
    · rw [queue, List.flatMap_append, ← supplied]
    · rw [queue, supplied, ← List.flatMap_append, nothing]
      rfl
    · rw [size]
      exact (List.forall_mem_append.mp fits).2

theorem Attentive.acknowledge (attentive : controller.Attentive)
    (empty : controller.hostRing.cursors.isEmpty = true) {placed waiting : List Frame.Segment}
    (sound : controller.ownRing.Sound)
    (supplied : controller.ownRing.toList = placed.flatMap Frame.Segment.words)
    (pending : controller.pending = waiting.map Frame.Segment.words)
    (fits : ∀ segment ∈ waiting, segment.words.length ≤ controller.ownRing.slots.size)
    (clearStatus : Bool) :
    let next := controller.writeRegister Register.hostCsr
      ((Csr.mk controller.hostStatus).withDoorbell clearStatus)
    controller.Rung 1 next ∧ next.Offering (placed ++ waiting) ∧
      next.ownRing.slots.size = controller.ownRing.slots.size := by
  intro next
  obtain ⟨hostFlags, same, written⟩ :=
    attentive.doorbell clearStatus
  let counted := { controller with hostFlags, doorbells := controller.doorbells + 1 }
  obtain ⟨ownFlags, same', looked⟩ : ∃ ownFlags,
      ownFlags &&& Csr.liveBits = controller.ownFlags &&& Csr.liveBits ∧
        (if controller.autoConsume then consume counted else counted) =
          { counted with ownFlags } := by
    by_cases consuming : controller.autoConsume = true
    · exact ⟨controller.ownFlags ||| Csr.statusBit, Csr.Quiet.or_and (by decide) _,
        (if_pos consuming).trans (consume_of_empty empty)⟩
    · exact ⟨controller.ownFlags, rfl, if_neg consuming⟩
  have rung : controller.Rung 1 { counted with ownFlags } := .intro same same'
  obtain ⟨filled, offering, size⟩ :=
    @fill_offers { counted with ownFlags } placed waiting sound supplied pending fits
  have after : next = fill { counted with ownFlags } := written.trans (congrArg fill looked)
  rw [after]
  exact ⟨rung.trans filled, offering, size⟩

/-- An attentive controller with nothing to take from the host, whose ring has so many slots, and
the frames that it has for the host. -/
structure Forwards (ownDepth : Nat) (frames : List Frame.Segment) (controller : Controller) :
    Prop where
  attentive : controller.Attentive
  empty : controller.hostRing.cursors.isEmpty = true
  size : controller.ownRing.slots.size = ownDepth
  offering : controller.Offering frames

/-- The next of the frames stands in front of the ring; once it has been taken, one doorbell leaves
the rest. -/
theorem Forwards.front {ownDepth : Nat} {segment : Frame.Segment} {rest : List Frame.Segment}
    (forwards : controller.Forwards ownDepth (segment :: rest)) :
    ∃ behind, controller.ownRing.toList = segment.words ++ behind ∧
      ∀ ownRing : Ring, ownRing.Sound → ownRing.toList = behind →
        ownRing.slots.size = controller.ownRing.slots.size →
        let taken := { controller with ownRing }
        let next := taken.writeRegister Register.hostCsr
          ((Csr.mk taken.hostStatus).withDoorbell true)
        controller.Rung 1 next ∧ next.Forwards ownDepth rest := by
  obtain ⟨attentive, empty, size, placed, waiting, shape, offers⟩ := forwards
  cases placed with
  | nil =>
    rw [offers.busy rfl] at shape
    cases shape
  | cons first placed =>
    obtain ⟨rfl, rfl⟩ : segment = first ∧ rest = placed ++ waiting := by simpa using shape
    refine ⟨_, offers.supplied, fun ownRing sound queue sameSize => ?_⟩
    have taken : Attentive { controller with ownRing } :=
      .of_flags attentive.present attentive.ownFlags_ready attentive.hostFlags_released
    obtain ⟨more, offering, kept⟩ :=
      taken.acknowledge empty sound queue offers.pending (sameSize ▸ offers.fits) true
    have rung := more.of_taken
    exact ⟨rung,
      { attentive := attentive.rung rung
        empty := rung.empty empty
        size := kept.trans (sameSize.trans size)
        offering := offering }⟩

theorem Forwards.streams (ownDepth : Nat) :
    Streams fun frames controller => controller.Forwards ownDepth frames where
  present forwards := forwards.attentive.present
  sound forwards := by
    obtain ⟨_, _, -, offers⟩ := forwards.offering
    exact offers.sound
  empty forwards := by
    obtain ⟨placed, waiting, shape, offers⟩ := forwards.offering
    obtain ⟨rfl, -⟩ := List.append_eq_nil_iff.mp shape.symm
    exact offers.supplied
  front forwards := by
    obtain ⟨behind, queue, taken⟩ := forwards.front
    exact ⟨behind, queue, fun ownRing sound queue size => (taken ownRing sound queue size).2⟩

/-- The same, together with the doorbells that `before` has heard for the frames taken since. -/
structure Forwarded (before : Controller) (all frames : List Frame.Segment)
    (controller : Controller) : Prop where
  forwards : controller.Forwards before.ownRing.slots.size frames
  rung : ∃ count, count + frames.length = all.length ∧ before.Rung count controller

theorem Forwarded.streams (before : Controller) (all : List Frame.Segment) :
    Streams (before.Forwarded all) where
  present forwarded := (Forwards.streams _).present forwarded.forwards
  sound forwarded := (Forwards.streams _).sound forwarded.forwards
  empty forwarded := (Forwards.streams _).empty forwarded.forwards
  front := by
    rintro segment rest controller ⟨forwards, count, counted, rung⟩
    obtain ⟨behind, queue, taken⟩ := forwards.front
    refine ⟨behind, queue, fun ownRing sound queue size => ?_⟩
    obtain ⟨more, forwards⟩ := taken ownRing sound queue size
    refine ⟨forwards, count + 1, ?_, rung.trans more⟩
    rw [← counted, List.length_cons]
    omega

theorem Forwards.start {frames : List Frame.Segment} {ownDepth : Nat}
    (forwards : controller.Forwards ownDepth frames) :
    controller.Forwarded frames frames controller :=
  ⟨{ forwards with size := rfl }, 0, Nat.zero_add _, .refl _⟩

end Controller

namespace Op

variable {state : Timed Controller} {frames : List Frame.Segment}
  {offers : List Frame.Segment → Controller → Prop}

/-! ### The run of a drain -/

theorem discardFrame_takes (streams : Controller.Streams offers) {link : Link}
    (fuel : 0 < link.fuel) {segment : Frame.Segment}
    (counted : segment.payload.length = segment.header.words)
    (offered : offers (segment :: frames) state.registers) :
    (discardFrame link state.registers.ownRing.cursors.depth).Reaches state fun outcome after =>
      ∃ value, outcome = .ok value ∧ offers frames after.registers := by
  have present := streams.present offered
  have sound := streams.sound offered
  obtain ⟨behind, queue, acknowledged⟩ := streams.front offered
  have short : segment.payload.length < state.registers.ownRing.cursors.depth.toNat := by
    have within := sound.within
    rw [← sound.length_toList, queue, List.length_append, Frame.Segment.words,
      List.length_cons] at within
    rw [Controller.Ring.toNat_cursors_depth]
    omega
  obtain ⟨ring, answered, sound, queue, size⟩ :=
    Controller.readWindow_front present sound (queue.trans (List.cons_append ..))
  let begun : Timed Controller :=
    { state with registers := { state.registers with ownRing := ring } }
  have read : Registers.read Register.controllerWindow state =
      some (segment.header.raw, begun) := by
    simp only [Registers.read, answered, begun]
  refine .readRegister read (.ite_neg (by rw [← counted]; omega) (.deadlineAfter ?_))
  have waits := fun deadline =>
    @awaitWords_returns begun link fuel deadline segment.header.words present sound
      (by rw [queue, List.length_append]; omega)
  refine .following (waits _) ?_
  rw [← counted]
  refine .returning (@takeWords_front begun _ _ present sound queue) ?_
  rintro _ after ⟨rfl, last, rfl, sound, queue, size'⟩
  refine acknowledge_returns.mono ?_
  rintro _ _ ⟨rfl, rfl⟩
  exact ⟨(), rfl, acknowledged last sound queue (size'.trans size)⟩

theorem discardFrames_take (streams : Controller.Streams offers) {link : Link}
    (fuel : 0 < link.fuel) (limit done : Nat)
    (counted : ∀ segment ∈ frames, segment.payload.length = segment.header.words)
    (offered : offers frames state.registers) :
    (discardFrames link limit done).Reaches state fun outcome after =>
      ∃ count, outcome = .ok count ∧ count = done + min frames.length limit ∧
        offers (frames.drop (min frames.length limit)) after.registers := by
  -- By the limit, which sinks with every frame. What is offered after a frame has been taken is the
  -- rest of the frames, wherever they stand.
  induction limit generalizing state frames done with
  | zero =>
    rw [Nat.min_zero]
    exact .pure ⟨done, rfl, rfl, offered⟩
  | succ limit ih =>
    have sound := streams.sound offered
    refine .following (controllerCursors_returns (streams.present offered) sound) ?_
    have shown := sound.isEmpty_eq
    cases frames with
    | nil =>
      rw [streams.empty offered] at shown
      rw [List.length_nil, Nat.zero_min]
      exact .ite_pos shown (.pure ⟨done, rfl, rfl, offered⟩)
    | cons segment frames =>
      obtain ⟨here, others⟩ := List.forall_mem_cons.mp counted
      obtain ⟨behind, queue, -⟩ := streams.front offered
      refine .ite_neg (by simp [shown, queue, Frame.Segment.words]) ?_
      refine .returning (discardFrame_takes streams fuel here offered) ?_
      rintro _ middle offered
      refine (ih (done + 1) others offered).mono ?_
      rintro _ after ⟨count, rfl, rfl, offered⟩
      have step : min (frames.length + 1) (limit + 1) = min frames.length limit + 1 := by omega
      rw [List.length_cons, step, List.drop_succ_cons]
      exact ⟨_, rfl, by omega, offered⟩

/-- From a known number of frames on, a controller has heard a doorbell for each that was taken. -/
theorem discardFrames_forward {link : Link} (fuel : 0 < link.fuel) (limit done : Nat)
    {ownDepth : Nat} (forwards : state.registers.Forwards ownDepth frames)
    (counted : ∀ segment ∈ frames, segment.payload.length = segment.header.words) :
    (discardFrames link limit done).Reaches state fun outcome after =>
      ∃ count, outcome = .ok count ∧ count = done + min frames.length limit ∧
        state.registers.Rung (min frames.length limit) after.registers ∧
        after.registers.Forwards state.registers.ownRing.slots.size
          (frames.drop (min frames.length limit)) := by
  have streams := Controller.Forwarded.streams state.registers frames
  refine (discardFrames_take streams fuel limit done counted forwards.start).mono ?_
  rintro _ after ⟨_, rfl, rfl, forwards, count, counted, rung⟩
  obtain rfl : count = min frames.length limit := by
    rw [List.length_drop] at counted
    omega
  exact ⟨_, rfl, rfl, rung, forwards⟩

theorem drain_takes {link : Link} (fuel : 0 < link.fuel) (attentive : state.registers.Attentive)
    (empty : state.registers.hostRing.cursors.isEmpty = true)
    (counted : ∀ segment ∈ frames, segment.payload.length = segment.header.words)
    (offering : state.registers.Offering frames) :
    (drain link).Reaches state fun outcome after =>
      outcome = .ok (min frames.length drainLimit) ∧
        state.registers.Rung (min frames.length drainLimit) after.registers ∧
        after.registers.Offering (frames.drop (min frames.length drainLimit)) := by
  have forwards : state.registers.Forwards _ frames := ⟨attentive, empty, rfl, offering⟩
  refine .returning (discardFrames_forward fuel drainLimit 0 forwards counted) ?_
  rintro _ after ⟨rfl, rung, forwards⟩
  rw [Nat.zero_add]
  by_cases removes : 0 < min frames.length drainLimit
  · exact .ite_pos removes (.emit (.pure ⟨rfl, rung, forwards.offering⟩))
  · exact .ite_neg removes (.pure ⟨rfl, rung, forwards.offering⟩)

/-! ### What a drain writes and tells -/

section

variable {entries : List Entry}

/-- Among the entries are `count` writes of the host status, and observers are told nothing. -/
def Rings (count : Nat) (entries : List Entry) : Prop :=
  (Trace.writes Register.hostCsr entries).length = count ∧ Trace.events entries = []

theorem Rings.append {first second : Nat} {head tail : List Entry} (rings : Rings first head)
    (more : Rings second tail) : Rings (first + second) (head ++ tail) := by
  obtain ⟨rfl, untold⟩ := rings
  obtain ⟨rfl, untold'⟩ := more
  refine ⟨?_, ?_⟩
  · rw [Trace.writes_append, List.length_append]
  · rw [Trace.events_append, untold, untold', List.append_nil]

theorem Rings.read {count : Nat} (rings : Rings count entries) (offset value : UInt32) :
    Rings count (.read offset value :: entries) := rings

theorem rings_reads (offset : UInt32) (words : List UInt32) :
    Rings 0 (words.map (.read offset)) := by
  induction words with
  | nil => exact ⟨rfl, rfl⟩
  | cons word rest ih => exact ih.read offset word

theorem Acknowledged.rings (acknowledged : Acknowledged entries) : Rings 1 entries := by
  obtain ⟨csr, rfl⟩ := acknowledged
  exact ⟨rfl, rfl⟩

theorem Awaited.rings {judge : Csr → Except Stop (Option Unit)} {deadline : Deadline}
    {outcome : Except Stop Unit}
    (awaited : Awaited Register.controllerCsr judge deadline entries outcome) :
    Rings 0 entries := by
  have looks : ∀ entry ∈ entries, entry.Within [Register.controllerCsr] [] none :=
    awaited.within (by simp)
  refine ⟨?_, awaited.events⟩
  rw [Trace.writes_eq_nil looks (by simp), List.length_nil]

theorem FrameDiscarded.rings {depth : UInt8} (discarded : FrameDiscarded depth entries (.ok ())) :
    Rings 1 entries := by
  cases discarded with
  | oversized _ discarded =>
    cases discarded with
    | taken _ _ acknowledged =>
      exact (((rings_reads _ _).append acknowledged.rings).read _ _).read _ _
  | taken _ awaited _ acknowledged =>
    exact (awaited.rings.append ((rings_reads _ _).append acknowledged.rings)).read _ _

theorem FramesDiscarded.rings {frames : Nat} {outcome : Except Stop Nat}
    (discarded : FramesDiscarded frames entries outcome) {count : Nat}
    (ended : outcome = .ok count) :
    ∃ rung, count = frames + rung ∧ Rings rung entries := by
  induction discarded with
  | limit =>
    cases ended
    exact ⟨0, rfl, rfl, rfl⟩
  | empty =>
    cases ended
    exact ⟨0, rfl, rfl, rfl⟩
  | stopped | undiscarded => cases ended
  | next _ _ discarded _ ih =>
    obtain ⟨rung, rfl, rings⟩ := ih ended
    exact ⟨1 + rung, by omega, (discarded.rings.append rings).read _ _⟩

theorem Drained.acknowledged {count : Nat} (drained : Drained entries (.ok count)) :
    (Trace.writes Register.hostCsr entries).length = count ∧
      Trace.events entries = if count = 0 then [] else [.drained count] := by
  cases drained with
  | nothing discarded =>
    obtain ⟨rung, counted, written, untold⟩ := discarded.rings rfl
    exact ⟨by omega, untold⟩
  | removed positive discarded =>
    obtain ⟨rung, counted, written, untold⟩ := discarded.rings rfl
    refine ⟨?_, ?_⟩
    · rw [Trace.writes_append, List.length_append, written, counted]
      simp
    · rw [Trace.events_append, untold, if_neg (Nat.ne_of_gt positive)]
      rfl

end

/-! ### The frames that are gone -/

/-- Of the frames in the ring and those that wait for room a drain takes the first 256, all that
were in the ring among them, and acknowledges each. It tells their number, unless it is zero, and
leaves everything else as it is. When no frame is left, the next exchange returns the response that
was prepared for it. -/
theorem drain_removes_the_stale_frames (hostDepth ownDepth : UInt8) (deep : 2 ≤ ownDepth.toNat)
    (happenings : List Happening) {link : Link} (fuel : 0 < link.fuel)
    {placed waiting : List Frame.Segment}
    (counted : ∀ segment ∈ placed ++ waiting, segment.payload.length = segment.header.words) :
    let world := Happening.runAll (simulated hostDepth ownDepth []) happenings
    let before := world.hardware.registers
    let drained : World (Timed Controller) := (drain link).reached world
    let after := drained.hardware.registers
    let added := (drain link).added world
    let count := min (placed ++ waiting).length 256
    before.Attentive → before.hostRing.cursors.isEmpty = true → before.Offers placed waiting →
      (drain link).outcome world = .ok count ∧ placed.length ≤ count ∧
      before.Rung count after ∧ after.Offering ((placed ++ waiting).drop count) ∧
      (Trace.writes Register.hostCsr added).length = count ∧
      Trace.events added = (if count = 0 then [] else [.drained count]) ∧
      ((placed ++ waiting).length ≤ 256 →
        after.ownRing.cursors.isEmpty = true ∧ after.pending = [] ∧
        (hostDepth.toNat.isPowerOfTwo → 2 ≤ hostDepth.toNat → before.autoConsume = true →
          ∀ (other : Link) (request response : Message) (others : List Message) (route : Route)
            (timeout capacity : Nat),
            ¬other.Refuses request → before.responses = response :: others →
            0 < response.length → response.length ≤ capacity → response.length ≤ other.fuel →
            (sendAndAwait other request route timeout capacity).outcome drained =
              .ok response)) := by
  intro world before drained after added count attentive empty offers
  obtain ⟨returned, rung, offering⟩ :=
    (drain_takes fuel attentive empty counted ⟨placed, waiting, rfl, offers⟩).holds
  obtain ⟨told, -, path⟩ := (drain_ensures link).holds world
  rw [returned] at told
  have small := before.ownRing.size_lt
  have few := offers.length_le
  refine ⟨returned, ?_, rung, offering, told.acknowledged.1, told.acknowledged.2, fun all => ?_⟩
  · exact Nat.le_min.mpr ⟨by rw [List.length_append]; omega, by omega⟩
  obtain ⟨still, stay, shape, offers'⟩ := offering
  rw [List.drop_of_length_le (by unfold drainLimit; omega)] at shape
  obtain ⟨rfl, rfl⟩ := List.append_eq_nil_iff.mp shape.symm
  refine ⟨offers'.sound.isEmpty_eq.trans (List.isEmpty_iff.mpr offers'.supplied), offers'.pending,
    fun power wide consuming => ?_⟩
  intro other request response others route timeout capacity good prepared nonempty fits enough
  have shaped : after.Shaped hostDepth.toNat ownDepth.toNat :=
    (Happening.shaped_runAll { Controller.Shaped.ofDepths hostDepth ownDepth with }
      happenings).path path
  obtain ⟨sameWay, sameResponses⟩ := rung.same
  have reads := exchange_reads_the_upcoming wide deep (dvd_of_isPowerOfTwo power) shaped
    (attentive.rung rung) (sameWay.trans consuming) (rung.empty empty) offers'
    (.prepared (sameResponses.trans prepared) nonempty enough) good route timeout capacity
  rw [reads.holds, Message.fitted, if_pos fits]

def bodiless : Frame.Segment := ⟨⟨0x80000007⟩, []⟩

def belated : List Frame.Segment :=
  [⟨⟨0x000C0007⟩, [0xAAAAAAAA, 0xAAAAAAAA, 0xAAAAAAAA]⟩,
    ⟨⟨0x80080007⟩, [0xAAAAAAAA, 0xAAAAAAAA]⟩]

/-- The one stands where the cursors wrap, and the others have found no room behind it. -/
def clogged : List Happening :=
  [.steered (.setOwnCursors 255 255), .steered (.injectWords bodiless.words),
    .steered (.enqueue (.ofBytes (List.replicate 20 0xAA)) 7 0),
    .steered (.queueResponse (.ofBytes [5, 6]))]

theorem three_stale_frames_are_drained :
    let world := Happening.runAll (simulated 4 4 []) clogged
    let drained : World (Timed Controller) := (drain hasty).reached world
    world.hardware.registers.Attentive ∧ world.hardware.registers.Offers [bodiless] belated ∧
      (drain hasty).outcome world = .ok 3 ∧
      (sendAndAwait hasty (.ofBytes [1, 2, 3, 4]) ⟨0, 7⟩ 1000 64).outcome drained =
        .ok (.ofBytes [5, 6]) := by
  intro world drained
  have attentive : world.hardware.registers.Attentive :=
    ⟨by decide +kernel, by decide +kernel, by decide +kernel⟩
  have offers : world.hardware.registers.Offers [bodiless] belated :=
    { sound := ⟨by decide +kernel, by decide +kernel⟩
      supplied := by decide +kernel
      pending := by decide +kernel
      busy := nofun
      fits := by decide +kernel }
  have counted : ∀ segment ∈ [bodiless] ++ belated,
      segment.payload.length = segment.header.words := by decide
  have fuel : 0 < hasty.fuel := by decide
  have empty : world.hardware.registers.hostRing.cursors.isEmpty = true := by decide +kernel
  obtain ⟨returned, -, -, -, -, -, gone⟩ :=
    drain_removes_the_stale_frames 4 4 (by decide) clogged fuel counted attentive empty offers
  obtain ⟨-, -, answered⟩ := gone (by decide)
  have accepted : ¬hasty.Refuses (.ofBytes [1, 2, 3, 4]) := by decide
  have prepared : world.hardware.registers.responses = [.ofBytes [5, 6]] := by decide +kernel
  exact ⟨attentive, offers, returned,
    answered ⟨2, rfl⟩ (by decide) (by decide +kernel) hasty _ _ _ _ _ _ accepted prepared
      (by decide) (by decide) (by decide)⟩

end Op

end HeciMailbox
