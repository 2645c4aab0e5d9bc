import HeciMailbox.Proofs.Conveyance
import HeciMailbox.Proofs.Doorbells
import HeciMailbox.Proofs.Fifo

/-! The simulated controller in service.

`Holds` says what the rings and queues of a working controller hold. `Keeps` puts the words of its
own ring and the frames that wait for room together again, as the frames on their way to the host.
No frame waits while the ring is empty, so the next frame can always be read. -/

set_option autoImplicit false

namespace HeciMailbox

/-! ### Flags -/

/-- Flags of a side that is ready, whether or not its interrupt is pending. -/
def Ready (flags : UInt32) : Prop :=
  flags = Csr.readyBit ∨ flags = Csr.readyBit ||| Csr.statusBit

theorem Ready.or_status {flags : UInt32} (ready : Ready flags) :
    Ready (flags ||| Csr.statusBit) := by
  obtain rfl | rfl := ready
  · exact .inr rfl
  · exact .inr (by decide)

theorem Ready.taken (held : UInt32) : Ready (held &&& Csr.statusBit ||| Csr.readyBit) := by
  obtain off | on := Csr.and_bit held (show Csr.statusBit.toNat = 1 <<< 1 from rfl)
  · exact .inl (by rw [off]; rfl)
  · exact .inr (by rw [on]; rfl)

theorem Ready.withDoorbell {flags : UInt32} (ready : Ready flags) (clearStatus : Bool) :
    ∃ shown, Ready shown ∧
      (Csr.mk flags).withDoorbell clearStatus = shown ||| Csr.generateBit := by
  cases clearStatus with
  | true => exact ⟨flags, ready, rfl⟩
  | false => exact ⟨Csr.readyBit, .inl rfl, by obtain rfl | rfl := ready <;> decide⟩

namespace Controller

theorem absent_statusWord {ring : Ring} (sound : ring.Sound) (flags : UInt32) :
    (Csr.mk (statusWord flags ring)).absent = false := by
  have shown := Cursors.ofCsr_compose flags ring.read ring.write ring.depth
  cases absent : (Csr.mk (statusWord flags ring)).absent with
  | false => rfl
  | true =>
    have raw : statusWord flags ring = Csr.absentWord := by simpa [Csr.absent] using absent
    -- All bits set would show a depth of 255, which does not divide 256.
    have depth : ring.depth = 0xFF := by
      have same : (Csr.mk Csr.absentWord).depth = ring.depth := by
        rw [← raw]
        exact congrArg Cursors.depth shown
      exact same.symm
    have size := ring.toNat_depth
    rw [depth] at size
    have divides := sound.divides
    rw [← size] at divides
    exact absurd divides (by decide)

theorem ready_statusWord {flags : UInt32} (ready : Ready flags) (ring : Ring) :
    (Csr.mk (statusWord flags ring)).ready = true := by
  have same : statusWord flags ring &&& Csr.readyBit = flags &&& Csr.readyBit :=
    Csr.compose_and flags _ _ _ (by decide)
  obtain rfl | rfl := ready <;> simp only [Csr.ready, Csr.has, same] <;> decide

/-! ### What a working controller holds -/

/-- The words in the two rings, the frames that wait for room, and what the peer remembers. -/
structure Holding where
  written : List UInt32
  supplied : List UInt32
  waiting : List (List UInt32)
  assembly : List UInt8
  responses : List Message
  received : List Message

/-- A present and ready controller that consumes at every doorbell, with rings of these sizes. -/
structure Holds (hostDepth ownDepth : Nat) (holding : Holding) (controller : Controller) :
    Prop where
  present : controller.present = true
  consuming : controller.autoConsume = true
  hostReady : Ready controller.hostFlags
  ownReady : Ready controller.ownFlags
  hostSound : controller.hostRing.Sound
  hostSize : controller.hostRing.slots.size = hostDepth
  written : controller.hostRing.toList = holding.written
  ownSound : controller.ownRing.Sound
  ownSize : controller.ownRing.slots.size = ownDepth
  supplied : controller.ownRing.toList = holding.supplied
  waiting : controller.pending = holding.waiting
  assembly : controller.assembly = holding.assembly
  responses : controller.responses = holding.responses
  received : controller.received = holding.received
  lossless : controller.dropped = 0

/-- What is under way on either side: the frames on their way to the host, the bytes of the request
so far, the prepared responses and the requests received. -/
structure Post where
  frames : List Frame.Segment
  assembly : List UInt8
  responses : List Message
  received : List Message

/-- The frames under way are those whose words are in the ring, then those that wait, and none waits
while the ring is empty. -/
def Keeps (hostDepth ownDepth : Nat) (written : List UInt32) (post : Post)
    (controller : Controller) : Prop :=
  ∃ placed waiting, post.frames = placed ++ waiting ∧ (placed = [] → waiting = []) ∧
    (∀ segment ∈ post.frames, segment.words.length ≤ ownDepth) ∧
    controller.Holds hostDepth ownDepth
      ⟨written, placed.flatMap Frame.Segment.words, waiting.map Frame.Segment.words, post.assembly,
        post.responses, post.received⟩

theorem keeps_ofDepths {hostDepth ownDepth : UInt8} (host : hostDepth.toNat ∣ 256)
    (own : ownDepth.toNat ∣ 256) (responses : List Message) :
    Keeps hostDepth.toNat ownDepth.toNat [] ⟨[], [], responses, []⟩
      { ofDepths hostDepth ownDepth with responses } :=
  ⟨[], [], rfl, fun _ => rfl, List.forall_mem_nil _,
    { present := rfl
      consuming := rfl
      hostReady := .inl rfl
      ownReady := .inl rfl
      hostSound := Ring.sound_ofDepth host
      hostSize := Array.size_replicate
      written := Ring.toList_ofDepth hostDepth
      ownSound := Ring.sound_ofDepth own
      ownSize := Array.size_replicate
      supplied := Ring.toList_ofDepth ownDepth
      waiting := rfl
      assembly := rfl
      responses := rfl
      received := rfl
      lossless := rfl }⟩

section

variable {hostDepth ownDepth : Nat} {written : List UInt32} {controller : Controller}
  {holding : Holding}

/-! ### Status words of a controller in service -/

theorem Holds.hostStatus_eq (holds : controller.Holds hostDepth ownDepth holding) :
    controller.hostStatus = statusWord controller.hostFlags controller.hostRing := by
  rw [hostStatus, holds.present, if_pos rfl]

theorem Holds.ownStatus_eq (holds : controller.Holds hostDepth ownDepth holding) :
    controller.ownStatus = statusWord controller.ownFlags controller.ownRing := by
  rw [ownStatus, holds.present, if_pos rfl]

theorem Holds.host_depth (holds : controller.Holds hostDepth ownDepth holding) :
    controller.hostRing.cursors.depth.toNat = hostDepth :=
  controller.hostRing.toNat_cursors_depth.trans holds.hostSize

theorem Holds.hostStatus_present (holds : controller.Holds hostDepth ownDepth holding) :
    (Csr.mk controller.hostStatus).absent = false := by
  rw [holds.hostStatus_eq]
  exact absent_statusWord holds.hostSound _

theorem Holds.ownStatus_present (holds : controller.Holds hostDepth ownDepth holding) :
    (Csr.mk controller.ownStatus).absent = false := by
  rw [holds.ownStatus_eq]
  exact absent_statusWord holds.ownSound _

theorem Holds.hostStatus_ready (holds : controller.Holds hostDepth ownDepth holding) :
    (Csr.mk controller.hostStatus).ready = true := by
  rw [holds.hostStatus_eq]
  exact ready_statusWord holds.hostReady _

theorem Holds.ownStatus_ready (holds : controller.Holds hostDepth ownDepth holding) :
    (Csr.mk controller.ownStatus).ready = true := by
  rw [holds.ownStatus_eq]
  exact ready_statusWord holds.ownReady _

/-! ### Frames under way -/

/-- Filling the ring puts the first of the frames that wait behind the words that are there. An
empty ring leaves none waiting. -/
theorem fill_frames {waiting : List Frame.Segment} (sound : controller.ownRing.Sound)
    (pending : controller.pending = waiting.map Frame.Segment.words)
    (fits : ∀ segment ∈ waiting, segment.words.length ≤ controller.ownRing.slots.size) :
    ∃ (moved stay : List Frame.Segment) (next : Ring) (filled : Bool), waiting = moved ++ stay ∧
      controller.fill =
        { controller with
          pending := stay.map Frame.Segment.words
          ownRing := next
          hostFlags :=
            if filled then controller.hostFlags ||| Csr.statusBit else controller.hostFlags } ∧
      next.Sound ∧
      next.toList = controller.ownRing.toList ++ moved.flatMap Frame.Segment.words ∧
      next.slots.size = controller.ownRing.slots.size ∧ (next.toList = [] → stay = []) := by
  obtain ⟨taken, left, next, filled, places, shape, sound', queue, size, full⟩ :=
    placeFrames_spec sound controller.pending
  rw [pending] at shape
  obtain ⟨moved, stay, rfl, rfl, rfl⟩ := List.map_eq_append_iff.mp shape
  refine ⟨moved, stay, next, filled, rfl, ?_, sound', by rw [queue, List.flatMap_def], size, ?_⟩
  · simp only [Controller.fill, places]
  -- Frames wait only for want of room, and every frame has room in an empty ring.
  · intro nothing
    cases stay with
    | nil => rfl
    | cons segment rest =>
      have bound := fits segment (by simp)
      have crowded := full _ _ rfl
      rw [nothing, size, List.length_nil] at crowded
      omega

/-- Filling the ring puts the frames under way in order, whatever has been read out of it. -/
theorem Holds.fill {placed waiting : List Frame.Segment} {assembly : List UInt8}
    {responses received : List Message}
    (holds : controller.Holds hostDepth ownDepth
      ⟨written, placed.flatMap Frame.Segment.words, waiting.map Frame.Segment.words, assembly,
        responses, received⟩)
    (fits : ∀ segment ∈ placed ++ waiting, segment.words.length ≤ ownDepth) :
    controller.fill.Keeps hostDepth ownDepth written
      ⟨placed ++ waiting, assembly, responses, received⟩ := by
  obtain ⟨moved, stay, next, filled, rfl, shape, sound, queue, size, busy⟩ :=
    fill_frames holds.ownSound holds.waiting (holds.ownSize ▸ (List.forall_mem_append.mp fits).2)
  rw [holds.supplied, ← List.flatMap_append] at queue
  refine ⟨placed ++ moved, stay, by simp, fun nothing => busy ?_, fits, ?_⟩
  · rw [queue, nothing, List.flatMap_nil]
  · rw [shape]
    exact { holds with
      hostReady := by
        dsimp only
        split
        · exact holds.hostReady.or_status
        · exact holds.hostReady
      ownSound := sound
      ownSize := size.trans holds.ownSize
      supplied := queue
      waiting := rfl }

theorem Keeps.front {post : Post} {segment : Frame.Segment} {rest : List Frame.Segment}
    (keeps : controller.Keeps hostDepth ownDepth written post)
    (frames : post.frames = segment :: rest) :
    ∃ placed waiting, rest = placed ++ waiting ∧ segment.words.length ≤ ownDepth ∧
      (∀ segment ∈ rest, segment.words.length ≤ ownDepth) ∧
      controller.Holds hostDepth ownDepth
        ⟨written, segment.words ++ placed.flatMap Frame.Segment.words,
          waiting.map Frame.Segment.words, post.assembly, post.responses, post.received⟩ := by
  obtain ⟨placed, waiting, shape, busy, fits, holds⟩ := keeps
  rw [frames] at shape fits
  cases placed with
  | nil =>
    rw [busy rfl] at shape
    cases shape
  | cons first placed =>
    obtain ⟨rfl, rfl⟩ : segment = first ∧ rest = placed ++ waiting := by simpa using shape
    obtain ⟨here, others⟩ := List.forall_mem_cons.mp fits
    exact ⟨placed, waiting, rfl, here, others, by simpa using holds⟩

def responseFrames (ownDepth : Nat) (response : Message) (route : Route) : List Frame.Segment :=
  Frame.segments route (max (Frame.payloadLimit ownDepth) 4) response.bytes

theorem responseFrames_empty {response : Message} (empty : response.length = 0) (route : Route) :
    responseFrames ownDepth response route = [] := by
  have bare : response.bytes = [] := List.length_eq_zero_iff.mp (response.length_bytes.trans empty)
  have count : ∀ limit, 4 ≤ limit → (limit - 1) / limit = 0 := fun limit large =>
    Nat.div_eq_of_lt (by omega)
  rw [responseFrames, bare, Frame.segments, List.length_nil, Nat.zero_add,
    count _ (Nat.le_max_right _ _)]
  rfl

theorem responseFrames_fit (deep : 2 ≤ ownDepth) (response : Message) (route : Route) :
    ∀ segment ∈ responseFrames ownDepth response route, segment.words.length ≤ ownDepth := by
  intro segment member
  have whole : 4 ∣ max (Frame.payloadLimit ownDepth) 4 := by
    have four := Frame.four_dvd_payloadLimit ownDepth
    omega
  have bound := Frame.length_words_le route whole member
  unfold Frame.payloadLimit at bound
  omega

theorem responseLimit_le (ownDepth : Nat) : max (Frame.payloadLimit ownDepth) 4 ≤ Frame.maxLength :=
  Nat.max_le.mpr ⟨Frame.payloadLimit_le_maxLength ownDepth, by decide⟩

/-- A response with bytes is in its frames, of which there are not more than bytes. -/
theorem responseFrames_convey {response : Message} (nonempty : 0 < response.length)
    (route : Route) :
    Frame.Conveys (responseFrames ownDepth response route) response.bytes ∧
      (responseFrames ownDepth response route).length ≤ response.length := by
  refine ⟨Frame.segments_convey route (by omega) (responseLimit_le ownDepth)
    (response.length_bytes ▸ nonempty), ?_⟩
  rw [← response.length_bytes]
  exact Frame.length_segments_le route response.bytes (by omega)

theorem Keeps.enqueue {post : Post} (deep : 2 ≤ ownDepth)
    (keeps : controller.Keeps hostDepth ownDepth written post) (response : Message)
    (client host : UInt8) :
    (controller.enqueue response client host).Keeps hostDepth ownDepth written
      { post with frames := post.frames ++ responseFrames ownDepth response ⟨host, client⟩ } := by
  obtain ⟨placed, waiting, shape, -, fits, holds⟩ := keeps
  have joined : Holds hostDepth ownDepth
      ⟨written, placed.flatMap Frame.Segment.words,
        (waiting ++ responseFrames ownDepth response ⟨host, client⟩).map Frame.Segment.words,
        post.assembly, post.responses, post.received⟩
      { controller with
        pending := controller.pending ++
          framesOf controller.ownRing.slots.size response client host } :=
    { holds with
      waiting := by
        dsimp only
        rw [holds.waiting, holds.ownSize, framesOf_eq, List.map_append]
        rfl }
  have filled := joined.fill (by
    rw [← List.append_assoc, ← shape]
    exact List.forall_mem_append.mpr ⟨fits, responseFrames_fit deep response _⟩)
  rw [shape]
  simpa [Controller.enqueue] using filled

def Post.complete (ownDepth : Nat) (post : Post) (route : Route) (bytes : List UInt8) : Post where
  frames := post.frames ++
    match post.responses with
    | [] => []
    | response :: _ => responseFrames ownDepth response route
  assembly := []
  responses := post.responses.tail
  received := post.received ++ [.ofBytes bytes]

def Post.accept (ownDepth : Nat) (post : Post) (segment : Frame.Segment) : Post :=
  if segment.header.complete then
    post.complete ownDepth ⟨segment.header.hostAddress, segment.header.controllerAddress⟩
      (post.assembly ++ segment.content)
  else { post with assembly := post.assembly ++ segment.content }

/-- The frames of one request make it complete, whatever bytes came before them. -/
theorem Post.accept_frames {segments : List Frame.Segment} {bytes : List UInt8}
    (conveys : Frame.Conveys segments bytes) (post : Post) :
    ∃ route, segments.foldl (Post.accept ownDepth) post =
      post.complete ownDepth route (post.assembly ++ bytes) := by
  -- By the frames of the request. Its response is sent back on the route of the last one, whatever
  -- the routes of the others.
  induction conveys generalizing post with
  | @last segment _ complete =>
    exact ⟨⟨segment.header.hostAddress, segment.header.controllerAddress⟩, by
      simp [Post.accept, complete]⟩
  | @next segment rest bytes _ incomplete _ ih =>
    obtain ⟨route, completed⟩ := ih { post with assembly := post.assembly ++ segment.content }
    refine ⟨route, ?_⟩
    simpa [Post.accept, Post.complete, incomplete] using completed

theorem Keeps.accept {post : Post} (deep : 2 ≤ ownDepth)
    (keeps : controller.Keeps hostDepth ownDepth written post) (segment : Frame.Segment) :
    (controller.accept segment.header segment.content).Keeps hostDepth ownDepth written
      (post.accept ownDepth segment) := by
  obtain ⟨placed, waiting, shape, busy, fits, holds⟩ := keeps
  unfold Controller.accept Post.accept Post.complete
  cases complete : segment.header.complete with
  | false =>
    exact ⟨placed, waiting, shape, busy, fits, { holds with assembly := by simp [holds.assembly] }⟩
  | true =>
    cases prepared : post.responses with
    | nil =>
      have unprepared : controller.responses = [] := holds.responses.trans prepared
      simp only [if_true, unprepared, List.append_nil]
      exact ⟨placed, waiting, shape, busy, fits,
        { holds with
          assembly := rfl
          responses := rfl
          received := by simp [holds.received, holds.assembly] }⟩
    | cons response responses =>
      have listed : controller.responses = response :: responses := holds.responses.trans prepared
      simp only [if_true, listed]
      let completed : Post :=
        ⟨post.frames, [], responses, post.received ++ [.ofBytes (post.assembly ++ segment.content)]⟩
      have kept : Keeps hostDepth ownDepth written completed
          { controller with
            assembly := []
            frameLog := controller.frameLog ++ [segment.header]
            received := controller.received ++ [.ofBytes (controller.assembly ++ segment.content)]
            responses } :=
        ⟨placed, waiting, shape, busy, fits,
          { holds with
            assembly := rfl
            responses := rfl
            received := by simp [holds.received, holds.assembly, completed] }⟩
      exact kept.enqueue deep response _ _

/-! ### The doorbell -/

theorem takeFrames_nil (sound : controller.hostRing.Sound) (empty : controller.hostRing.toList = [])
    (count : Nat) : takeFrames count controller = controller := by
  cases count with
  | zero => rfl
  | succ count => simp only [takeFrames, takeFrame?_nil sound empty]

theorem Holds.consume (holds : controller.Holds hostDepth ownDepth holding)
    (empty : holding.written = []) : controller.consume.Holds hostDepth ownDepth holding := by
  unfold Controller.consume
  rw [takeFrames_nil holds.hostSound (holds.written.trans empty)]
  exact { holds with ownReady := holds.ownReady.or_status }

/-- A doorbell behind a frame has the frame accepted, and the ring is empty again. -/
theorem Keeps.consume {post : Post} {segment : Frame.Segment} (deep : 2 ≤ ownDepth)
    (keeps : controller.Keeps hostDepth ownDepth segment.words post)
    (counted : segment.payload.length = segment.header.words) :
    controller.consume.Keeps hostDepth ownDepth [] (post.accept ownDepth segment) := by
  obtain ⟨placed, waiting, shape, busy, fits, holds⟩ := keeps
  have queue : controller.hostRing.toList = segment.header.raw :: (segment.payload ++ []) := by
    rw [List.append_nil]
    exact holds.written
  obtain ⟨next, taken, sound, empty, size⟩ := takeFrame?_spec holds.hostSound queue counted
  have emptied : Keeps hostDepth ownDepth [] post { controller with hostRing := next } :=
    ⟨placed, waiting, shape, busy, fits,
      { holds with hostSound := sound, hostSize := size.trans holds.hostSize, written := empty }⟩
  obtain ⟨placed, waiting, shape, busy, fits, accepted⟩ := emptied.accept deep segment
  have length : controller.hostRing.cursors.filled.toNat = segment.payload.length + 1 := by
    rw [← holds.hostSound.length_toList, holds.written, Frame.Segment.words, List.length_cons]
  -- The ring counts the words of one frame, so the loop has rounds to spare; it stops when the ring
  -- is empty.
  have once : takeFrames controller.hostRing.cursors.filled.toNat controller =
      Controller.accept { controller with hostRing := next } segment.header segment.content := by
    rw [length]
    simp only [takeFrames, taken]
    exact takeFrames_nil accepted.hostSound accepted.written _
  refine ⟨placed, waiting, shape, busy, fits, ?_⟩
  unfold Controller.consume
  rw [once]
  exact { accepted with ownReady := accepted.ownReady.or_status }

/-- A write that rings the doorbell of a ready controller as a ready side would: the host is ready
then, the controller looks at the host ring if it is to, and refills its own. -/
theorem writeRegister_of_rung {shown value : UInt32} (present : controller.present = true)
    (ownReady : Ready controller.ownFlags) (given : Ready shown)
    (seen : ∀ mask : UInt32, mask.toNat < 0x100 →
      value &&& mask = (shown ||| Csr.generateBit) &&& mask) :
    ∃ hostFlags, Ready hostFlags ∧
      controller.writeRegister Register.hostCsr value =
        let rung := { controller with hostFlags, doorbells := controller.doorbells + 1 }
        Controller.fill (if controller.autoConsume then Controller.consume rung else rung) := by
  have own : (controller.ownFlags &&& Csr.readyBit == 0) = false := by
    obtain flags | flags := ownReady <;> rw [flags] <;> decide
  have bits : Csr.Quiet Csr.resetBit value ∧ value &&& Csr.generateBit = Csr.generateBit ∧
      value &&& controlBits = Csr.readyBit := by
    rw [Csr.Quiet, seen Csr.resetBit (by decide), seen Csr.generateBit (by decide),
      seen controlBits (by decide)]
    obtain rfl | rfl := given <;> decide
  obtain ⟨held, written⟩ := writeStatus_of_rung present own bits.1 bits.2.1
  rw [bits.2.2] at written
  exact ⟨_, .taken held, written⟩

theorem Holds.doorbell (holds : controller.Holds hostDepth ownDepth holding)
    (clearStatus : Bool) :
    ∃ hostFlags, Ready hostFlags ∧
      controller.writeRegister Register.hostCsr
          ((Csr.mk controller.hostStatus).withDoorbell clearStatus) =
        Controller.fill (Controller.consume
          { controller with hostFlags, doorbells := controller.doorbells + 1 }) := by
  obtain ⟨shown, given, rung⟩ := holds.hostReady.withDoorbell clearStatus
  have seen : ∀ mask : UInt32, mask.toNat < 0x100 →
      (Csr.mk controller.hostStatus).withDoorbell clearStatus &&& mask =
        (shown ||| Csr.generateBit) &&& mask := by
    intro mask low
    rw [← rung]
    refine Csr.withDoorbell_and ?_ clearStatus
    rw [holds.hostStatus_eq]
    exact Csr.compose_and _ _ _ _ low
  obtain ⟨hostFlags, ready, written⟩ :=
    writeRegister_of_rung holds.present holds.ownReady given seen
  refine ⟨hostFlags, ready, ?_⟩
  simp only [written, holds.consuming, if_true]

theorem Holds.acknowledge {placed waiting : List Frame.Segment} {assembly : List UInt8}
    {responses received : List Message}
    (holds : controller.Holds hostDepth ownDepth
      ⟨[], placed.flatMap Frame.Segment.words, waiting.map Frame.Segment.words, assembly, responses,
        received⟩)
    (fits : ∀ segment ∈ placed ++ waiting, segment.words.length ≤ ownDepth) (clearStatus : Bool) :
    Keeps hostDepth ownDepth [] ⟨placed ++ waiting, assembly, responses, received⟩
      (controller.writeRegister Register.hostCsr
        ((Csr.mk controller.hostStatus).withDoorbell clearStatus)) := by
  obtain ⟨hostFlags, ready, rung⟩ := holds.doorbell clearStatus
  rw [rung]
  have ringing : Holds hostDepth ownDepth _
      { controller with hostFlags, doorbells := controller.doorbells + 1 } :=
    { holds with hostReady := ready }
  exact (ringing.consume rfl).fill fits

theorem Keeps.announce {post : Post} {segment : Frame.Segment} (deep : 2 ≤ ownDepth)
    (keeps : controller.Keeps hostDepth ownDepth segment.words post)
    (counted : segment.payload.length = segment.header.words) (clearStatus : Bool) :
    Keeps hostDepth ownDepth [] (post.accept ownDepth segment)
      (controller.writeRegister Register.hostCsr
        ((Csr.mk controller.hostStatus).withDoorbell clearStatus)) := by
  obtain ⟨placed, waiting, shape, busy, fits, holds⟩ := keeps
  obtain ⟨hostFlags, ready, rung⟩ := holds.doorbell clearStatus
  rw [rung]
  have ringing : Keeps hostDepth ownDepth segment.words post
      { controller with hostFlags, doorbells := controller.doorbells + 1 } :=
    ⟨placed, waiting, shape, busy, fits, { holds with hostReady := ready }⟩
  obtain ⟨placed, waiting, shape, busy, fits, holds⟩ := ringing.consume deep counted
  have filled := holds.fill (shape ▸ fits)
  rwa [← shape] at filled

/-! ### Window accesses -/

theorem Keeps.writeWindow {post : Post}
    (keeps : controller.Keeps hostDepth ownDepth written post) (room : written.length < hostDepth)
    (word : UInt32) :
    (controller.writeRegister Register.hostWindow word).Keeps hostDepth ownDepth (written ++ [word])
      post := by
  obtain ⟨placed, waiting, shape, busy, fits, holds⟩ := keeps
  obtain ⟨next, pushed, sound, queue, size⟩ :=
    holds.hostSound.push? (by rw [holds.written, holds.hostSize]; exact room) word
  have stored : controller.writeRegister Register.hostWindow word =
      { controller with hostRing := next } := by
    simp [Controller.writeRegister, holds.present, pushed]
  rw [stored]
  exact ⟨placed, waiting, shape, busy, fits,
    { holds with
      hostSound := sound
      hostSize := size.trans holds.hostSize
      written := by rw [queue, holds.written] }⟩

theorem readWindow_front (present : controller.present = true) (sound : controller.ownRing.Sound)
    {word : UInt32} {rest : List UInt32} (front : controller.ownRing.toList = word :: rest) :
    ∃ next, controller.readRegister Register.controllerWindow =
        (word, { controller with ownRing := next }) ∧
      next.Sound ∧ next.toList = rest ∧ next.slots.size = controller.ownRing.slots.size := by
  obtain ⟨next, popped, taken⟩ := sound.pop? front
  exact ⟨next, readWindow_of_pop? present popped, taken⟩

end

end Controller

end HeciMailbox
