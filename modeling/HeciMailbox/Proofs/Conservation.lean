import HeciMailbox.Proofs.Steering

/-! The controller side loses nothing on its way to the host.

The words read so far, those in the controller ring and those of the frames that wait are the frames
of all messages enqueued, in order. So it stays through every register access outside a reset, also
in the middle of a frame, and the frames go into the ring whole. -/

set_option autoImplicit false

namespace HeciMailbox

namespace Frame

/-- These frames carry the bytes in chunks of `limit`, on this route; the last alone is marked as
such. -/
structure Chunked (route : Route) (limit : Nat) (bytes : List UInt8) (frames : List Segment) :
    Prop where
  count : frames.length = (bytes.length + limit - 1) / limit
  content : frames.flatMap Segment.content = bytes
  chunk : ∀ index frame, frames[index]? = some frame →
    frame.content = (bytes.drop (index * limit)).take limit ∧
      frame.payload = Bytes.pack frame.content ∧
      frame.header.length = frame.content.length ∧
      frame.header.controllerAddress = route.controller ∧
      frame.header.hostAddress = route.host ∧
      frame.header.complete = decide (index + 1 = frames.length)

theorem segments_chunked (route : Route) {limit : Nat} (positive : 0 < limit)
    (fits : limit ≤ maxLength) (bytes : List UInt8) :
    Chunked route limit bytes (segments route limit bytes) where
  count := by rw [segments, List.length_map, List.length_range]
  content := by
    obtain empty | nonempty := Nat.eq_zero_or_pos bytes.length
    · have count : (0 + limit - 1) / limit = 0 := Nat.div_eq_of_lt (by omega)
      rw [List.length_eq_zero_iff.mp empty, segments, List.length_nil, count]
      rfl
    · exact (segments_convey route positive fits nonempty).content
  chunk := by
    intro index frame here
    obtain ⟨inside, shape⟩ := List.getElem?_eq_some_iff.mp here
    have bound : (bytes.length + limit - 1) / limit = (segments route limit bytes).length := by
      rw [segments, List.length_map, List.length_range]
    obtain rfl : segment route limit bytes index = frame := by
      simpa [segments] using shape
    have small := length_chunk_le (bytes.drop (index * limit)) fits
    have length := Header.length_ofFields route.controller route.host
      (decide (bytes.length ≤ (index + 1) * limit)) small
    have content := content_segment route bytes index fits
    -- A chunk is the last if no byte is left behind it.
    have last : bytes.length ≤ (index + 1) * limit ↔
        index + 1 = (segments route limit bytes).length := by
      rw [← bound] at inside ⊢
      have through : bytes.length ≤ (index + 1) * limit ↔
          (bytes.length + limit - 1) / limit ≤ index + 1 := by
        have below : (bytes.length + limit - 1) / limit < index + 1 + 1 ↔
            bytes.length + limit - 1 < (index + 1 + 1) * limit := Nat.div_lt_iff_lt_mul positive
        rw [Nat.succ_mul (index + 1)] at below
        omega
      rw [through]
      omega
    refine ⟨content, by rw [content]; rfl, by rw [content]; exact length,
      Header.controllerAddress_ofFields _ _ _ small, Header.hostAddress_ofFields _ _ _ small, ?_⟩
    rw [segment, Header.complete_ofFields _ _ _ small]
    exact decide_eq_decide.mpr last

end Frame

namespace Controller

def answers (responses : List Message) (headers : List Frame.Header) : List (Message × Route) :=
  (responses.zip (headers.filter Frame.Header.complete)).map fun (response, header) =>
    (response, ⟨header.hostAddress, header.controllerAddress⟩)

theorem answers_nil (responses : List Message) : answers responses [] = [] := by simp [answers]

theorem answers_cons (responses : List Message) (header : Frame.Header)
    (headers : List Frame.Header) :
    answers responses (header :: headers) =
      answers responses [header] ++
        answers (if header.complete then responses.tail else responses) headers := by
  cases complete : header.complete <;> cases responses <;> simp [answers, complete]

/-- The frames of messages one after the other, for a controller ring of `ownDepth` slots. -/
def framesTo (ownDepth : Nat) (messages : List (Message × Route)) : List Frame.Segment :=
  messages.flatMap fun (message, route) => responseFrames ownDepth message route

end Controller

namespace Steering

def popped (controller : Controller) : Steering → List UInt32
  | .read offset =>
    if controller.present && offset == Register.controllerWindow then
      (controller.ownRing.pop?.map Prod.fst).toList
    else []
  | _ => []

theorem popped_cases (controller : Controller) (offset : UInt32) :
    ((read offset).popped controller = [] ∧ (controller.readRegister offset).2 = controller) ∨
      ∃ word ownRing, controller.ownRing.pop? = some (word, ownRing) ∧
        (read offset).popped controller = [word] ∧
        controller.readRegister offset = (word, { controller with ownRing }) := by
  have apart : Register.controllerWindow ≠ Register.hostCsr ∧
      Register.controllerWindow ≠ Register.controllerCsr := by decide
  by_cases taking : controller.present = true ∧ offset = Register.controllerWindow
  · obtain ⟨present, rfl⟩ := taking
    cases popped : controller.ownRing.pop? with
    | none =>
      exact .inl ⟨by simp [Steering.popped, popped], by
        simp [Controller.readRegister, present, apart, popped]⟩
    | some taken =>
      exact .inr ⟨taken.1, taken.2, rfl, by simp [Steering.popped, present, popped], by
        simp [Controller.readRegister, present, apart, popped]⟩
  · have untaken : (controller.present && offset == Register.controllerWindow) = false := by
      simpa using taking
    refine .inl ⟨by simp only [Steering.popped, untaken, Bool.false_eq_true, if_false], ?_⟩
    unfold Controller.readRegister
    split
    · rfl
    split
    · rfl
    split
    · rfl
    · next present _ _ =>
      rw [if_neg fun window => taking ⟨by simpa using present, window⟩]

def injected : Steering → List (Message × Route)
  | .enqueue message client host => [(message, ⟨host, client⟩)]
  | _ => []

/-- The messages enqueued for the host: one from outside, or the answers to the requests whose
frames the peer takes. -/
def enqueued (controller : Controller) (steering : Steering) : List (Message × Route) :=
  let taken := (controller.steer steering).frameLog.drop controller.frameLog.length
  steering.injected ++ Controller.answers controller.responses taken

/-- The controller refills its ring at the end: when a message is enqueued or the peer told to look
at the host ring, or at a doorbell outside a reset while it is ready. -/
def refills (controller : Controller) : Steering → Bool
  | .enqueue _ _ _ | .consumeNow => true
  | .write offset value =>
    controller.present && offset == Register.hostCsr && value &&& Csr.generateBit != 0 &&
      value &&& Csr.resetBit == 0 && controller.ownFlags &&& Csr.readyBit != 0
  | _ => false

/-- No reset, no change of the controller cursors and no bare words. -/
def sparesOwn : Steering → Bool
  | .setOwnCursors _ _ | .injectWords _ => false
  | steering => !steering.resets

end Steering

namespace Controller

/-- The frames for the host so far: those that entered the ring, of which these words have been
read, and those that wait. -/
structure Supplies (ownDepth : Nat) (read : List UInt32) (frames : List Frame.Segment)
    (controller : Controller) : Prop where
  sound : controller.ownRing.Sound
  size : controller.ownRing.slots.size = ownDepth
  fits : ∀ frame ∈ frames, frame.words.length ≤ ownDepth
  split : ∃ entered waiting, frames = entered ++ waiting ∧
    read ++ controller.ownRing.toList = entered.flatMap Frame.Segment.words ∧
    controller.pending = waiting.map Frame.Segment.words

namespace Supplies

variable {ownDepth : Nat} {read : List UInt32} {frames : List Frame.Segment}
  {controller after : Controller}

theorem of_same (supplies : controller.Supplies ownDepth read frames)
    (ownRing : after.ownRing = controller.ownRing) (pending : after.pending = controller.pending) :
    after.Supplies ownDepth read frames where
  sound := ownRing ▸ supplies.sound
  size := ownRing ▸ supplies.size
  fits := supplies.fits
  split := by rw [ownRing, pending]; exact supplies.split

theorem fill (supplies : controller.Supplies ownDepth read frames) :
    controller.fill.Supplies ownDepth read frames ∧
      (controller.fill.ownRing.toList = [] → controller.fill.pending = []) := by
  obtain ⟨sound, size, fits, entered, waiting, rfl, words, pending⟩ := supplies
  obtain ⟨moved, stay, next, filled, rfl, shape, sound', queue, size', busy⟩ :=
    fill_frames sound pending (size.symm ▸ (List.forall_mem_append.mp fits).2)
  rw [shape]
  refine ⟨⟨sound', size'.trans size, fits, entered ++ moved, stay, by simp, ?_, rfl⟩, ?_⟩
  · simp only [queue, List.flatMap_append, ← words, List.append_assoc]
  · intro nothing
    simp only [busy nothing, List.map_nil]

theorem enqueue (deep : 2 ≤ ownDepth) (supplies : controller.Supplies ownDepth read frames)
    (message : Message) (client host : UInt8) :
    (controller.enqueue message client host).Supplies ownDepth read
        (frames ++ framesTo ownDepth [(message, ⟨host, client⟩)]) ∧
      ((controller.enqueue message client host).ownRing.toList = [] →
        (controller.enqueue message client host).pending = []) := by
  obtain ⟨sound, size, fits, entered, waiting, rfl, words, pending⟩ := supplies
  refine fill ⟨sound, size, ?_, entered, waiting ++ responseFrames ownDepth message ⟨host, client⟩,
    by simp [framesTo], words, ?_⟩
  · exact List.forall_mem_append.mpr ⟨fits, by
      simpa [framesTo] using responseFrames_fit deep message ⟨host, client⟩⟩
  · simp only [pending, framesOf_eq, size, List.map_append]
    rfl

theorem accept (deep : 2 ≤ ownDepth) (supplies : controller.Supplies ownDepth read frames)
    (header : Frame.Header) (payload : List UInt8) :
    (controller.accept header payload).Supplies ownDepth read
        (frames ++ framesTo ownDepth (answers controller.responses [header])) ∧
      (controller.accept header payload).responses =
        if header.complete then controller.responses.tail else controller.responses := by
  have unanswered : answers controller.responses [header] = [] →
      frames ++ framesTo ownDepth (answers controller.responses [header]) = frames :=
    fun nothing => by rw [nothing, framesTo, List.flatMap_nil, List.append_nil]
  unfold Controller.accept
  dsimp only
  cases complete : header.complete with
  | false =>
    rw [unanswered (by simp [answers, complete])]
    exact ⟨supplies.of_same rfl rfl, rfl⟩
  | true =>
    simp only [if_true]
    cases prepared : controller.responses with
    | nil =>
      rw [prepared] at unanswered
      rw [unanswered rfl]
      exact ⟨supplies.of_same rfl rfl, rfl⟩
    | cons response responses =>
      have ended : Supplies ownDepth read frames
          { controller with
            assembly := []
            frameLog := controller.frameLog ++ [header]
            received := controller.received ++ [.ofBytes (controller.assembly ++ payload)]
            responses } := supplies.of_same rfl rfl
      have answered := (ended.enqueue deep response header.controllerAddress header.hostAddress).1
      exact ⟨by simpa [answers, complete] using answered, rfl⟩

/-- Frames taken from the host are answered where they end a request; each answer is enqueued. -/
theorem takeFrames (deep : 2 ≤ ownDepth) (supplies : controller.Supplies ownDepth read frames)
    (count : Nat) :
    ∃ headers, (controller.takeFrames count).frameLog = controller.frameLog ++ headers ∧
      (controller.takeFrames count).Supplies ownDepth read
        (frames ++ framesTo ownDepth (answers controller.responses headers)) := by
  have still : ∃ headers, controller.frameLog = controller.frameLog ++ headers ∧
      controller.Supplies ownDepth read
        (frames ++ framesTo ownDepth (answers controller.responses headers)) :=
    ⟨[], by simp, by simpa [answers_nil, framesTo] using supplies⟩
  induction count generalizing controller frames with
  | zero => exact still
  | succ count ih =>
    unfold Controller.takeFrames
    split
    · exact still
    · next header payload hostRing taken =>
      have popped : Supplies ownDepth read frames { controller with hostRing } :=
        supplies.of_same rfl rfl
      obtain ⟨one, responses⟩ := popped.accept deep header payload
      obtain ⟨headers, logged, rest⟩ := ih one
        ⟨[], by simp, by simpa [answers_nil, framesTo] using one⟩
      refine ⟨header :: headers, by rw [logged, frameLog_accept]; simp, ?_⟩
      rw [answers_cons, framesTo, List.flatMap_append, ← List.append_assoc]
      rw [responses] at rest
      exact rest

theorem consume (deep : 2 ≤ ownDepth) (supplies : controller.Supplies ownDepth read frames) :
    ∃ headers, controller.consume.frameLog = controller.frameLog ++ headers ∧
      controller.consume.Supplies ownDepth read
        (frames ++ framesTo ownDepth (answers controller.responses headers)) := by
  obtain ⟨headers, log, taken⟩ := supplies.takeFrames deep controller.hostRing.cursors.filled.toNat
  exact ⟨headers, log, taken.of_same rfl rfl⟩

/-! ### Steerings -/

theorem readRegister (supplies : controller.Supplies ownDepth read frames) (offset : UInt32) :
    (controller.readRegister offset).2.Supplies ownDepth
      (read ++ (Steering.read offset).popped controller) frames := by
  obtain ⟨nothing, same⟩ | ⟨word, ownRing, popped, one, answered⟩ :=
    Steering.popped_cases controller offset
  · rw [nothing, same, List.append_nil]
    exact supplies
  · rw [one, answered]
    obtain ⟨sound, size, fits, entered, waiting, shape, words, pending⟩ := supplies
    obtain ⟨sound', queue, size'⟩ := sound.of_pop? popped
    refine ⟨sound', size'.trans size, fits, entered, waiting, shape, ?_, pending⟩
    rw [← words, queue, List.append_assoc, List.singleton_append]

theorem writeStatus (deep : 2 ≤ ownDepth) (supplies : controller.Supplies ownDepth read frames)
    {value : UInt32} (unasked : Csr.Quiet Csr.resetBit value) :
    ∃ headers, (controller.writeRegister Register.hostCsr value).frameLog =
        controller.frameLog ++ headers ∧
      (controller.writeRegister Register.hostCsr value).Supplies ownDepth read
        (frames ++ framesTo ownDepth (answers controller.responses headers)) ∧
      ((Steering.write Register.hostCsr value).refills controller = true →
        (controller.writeRegister Register.hostCsr value).ownRing.toList = [] →
        (controller.writeRegister Register.hostCsr value).pending = []) := by
  have alone : frames ++ framesTo ownDepth (answers controller.responses []) = frames := by
    simp [answers_nil, framesTo]
  cases present : controller.present with
  | false =>
    have ignored : controller.writeRegister Register.hostCsr value = controller := by
      simp [Controller.writeRegister, present]
    rw [ignored]
    exact ⟨[], by simp, by rwa [alone], by simp [Steering.refills, present]⟩
  | true =>
    rw [writeStatus_of_present present]
    have told := @told_writeHostCsr controller _ unasked
    generalize controller.writeHostCsr value = after at told ⊢
    cases told with
    | silent hostFlags unrung =>
      exact ⟨[], by simp, alone.symm ▸ supplies.of_same rfl rfl, by
        simp [Steering.refills, unrung]⟩
    | woken hostFlags _ unready =>
      exact ⟨[], by simp, alone.symm ▸ supplies.of_same rfl rfl, by
        simp [Steering.refills, unready]⟩
    | looked hostFlags =>
      have rung : Supplies ownDepth read frames
          { controller with hostFlags, doorbells := controller.doorbells + 1 } :=
        supplies.of_same rfl rfl
      obtain ⟨headers, log, consumed⟩ := rung.consume deep
      exact ⟨headers, log, consumed.fill.1, fun _ => consumed.fill.2⟩
    | filled hostFlags =>
      have rung : Supplies ownDepth read frames
          { controller with hostFlags, doorbells := controller.doorbells + 1 } :=
        supplies.of_same rfl rfl
      exact ⟨[], (List.append_nil _).symm, alone.symm ▸ rung.fill.1, fun _ => rung.fill.2⟩

theorem writeRegister (deep : 2 ≤ ownDepth) (supplies : controller.Supplies ownDepth read frames)
    {offset value : UInt32} (spares : (Steering.write offset value).sparesOwn = true) :
    ∃ headers, (controller.writeRegister offset value).frameLog = controller.frameLog ++ headers ∧
      (controller.writeRegister offset value).Supplies ownDepth read
        (frames ++ framesTo ownDepth (answers controller.responses headers)) ∧
      ((Steering.write offset value).refills controller = true →
        (controller.writeRegister offset value).ownRing.toList = [] →
        (controller.writeRegister offset value).pending = []) := by
  by_cases status : offset = Register.hostCsr
  · subst status
    have unasked : value &&& Csr.resetBit = 0 := by
      simpa [Steering.sparesOwn, Steering.resets] using spares
    exact supplies.writeStatus deep unasked
  · have alone : frames ++ framesTo ownDepth (answers controller.responses []) = frames := by
      simp [answers_nil, framesTo]
    have same : (controller.writeRegister offset value).ownRing = controller.ownRing ∧
        (controller.writeRegister offset value).pending = controller.pending ∧
        (controller.writeRegister offset value).frameLog = controller.frameLog := by
      unfold Controller.writeRegister
      rw [if_neg status]
      repeat' split
      all_goals exact ⟨rfl, rfl, rfl⟩
    exact ⟨[], by rw [same.2.2, List.append_nil], alone.symm ▸ supplies.of_same same.1 same.2.1,
      by simp [Steering.refills, status]⟩

/-- Every step keeps what has been read, what is in the ring and what waits together. -/
theorem steer (deep : 2 ≤ ownDepth) (supplies : controller.Supplies ownDepth read frames)
    {steering : Steering} (spares : steering.sparesOwn = true) :
    (controller.steer steering).Supplies ownDepth (read ++ steering.popped controller)
        (frames ++ framesTo ownDepth (steering.enqueued controller)) ∧
      (steering.refills controller = true → (controller.steer steering).ownRing.toList = [] →
        (controller.steer steering).pending = []) := by
  have answering : ∀ {headers : List Frame.Header} {words : List UInt32},
      (controller.steer steering).frameLog = controller.frameLog ++ headers →
      read ++ steering.popped controller = words →
      (controller.steer steering).Supplies ownDepth words
        (frames ++ framesTo ownDepth (steering.injected ++ answers controller.responses headers)) →
      (controller.steer steering).Supplies ownDepth (read ++ steering.popped controller)
        (frames ++ framesTo ownDepth (steering.enqueued controller)) := by
    rintro headers _ log rfl supplies
    rw [Steering.enqueued, log, List.drop_left]
    exact supplies
  have idle : frames ++ framesTo ownDepth ([] ++ answers controller.responses []) = frames := by
    simp [answers_nil, framesTo]
  cases steering with
  | read offset =>
    have same : (controller.readRegister offset).2.frameLog = controller.frameLog ++ [] := by
      obtain ⟨-, same⟩ | ⟨_, _, -, -, answered⟩ := Steering.popped_cases controller offset
      · rw [same, List.append_nil]
      · rw [answered, List.append_nil]
    exact ⟨answering same rfl (idle.symm ▸ supplies.readRegister offset), nofun⟩
  | write offset value =>
    obtain ⟨headers, log, written, emptied⟩ := supplies.writeRegister deep spares
    exact ⟨answering log (List.append_nil _) written, emptied⟩
  | enqueue message client host =>
    have enqueued := supplies.enqueue deep message client host
    refine ⟨answering (List.append_nil _).symm (List.append_nil _) ?_, fun _ => enqueued.2⟩
    rw [answers_nil]
    exact enqueued.1
  | consumeNow =>
    obtain ⟨headers, log, consumed⟩ := supplies.consume deep
    exact ⟨answering log (List.append_nil _) consumed.fill.1, fun _ => consumed.fill.2⟩
  | setOwnCursors | injectWords => cases spares
  | queueResponse | setPresent | setOwnReady | setHostReady | setAutoConsume | setHostCursors =>
    exact ⟨answering (List.append_nil _).symm (List.append_nil _)
      (idle.symm ▸ supplies.of_same rfl rfl), nofun⟩

theorem steerAll (deep : 2 ≤ ownDepth) (supplies : controller.Supplies ownDepth read frames)
    {steerings : List Steering} (spare : ∀ steering ∈ steerings, steering.sparesOwn = true) :
    (controller.steerAll steerings).Supplies ownDepth
      (read ++ controller.gathered Steering.popped steerings)
      (frames ++ framesTo ownDepth (controller.gathered Steering.enqueued steerings)) := by
  induction steerings generalizing controller read frames with
  | nil => simpa [gathered, framesTo, Controller.steerAll] using supplies
  | cons steering rest ih =>
    obtain ⟨here, others⟩ := List.forall_mem_cons.mp spare
    have next := ih (supplies.steer deep here).1 others
    rw [gathered, gathered, framesTo, List.flatMap_append, ← List.append_assoc, ← List.append_assoc]
    exact next

end Supplies

/-- Nothing for the host is lost, whatever is enqueued and whenever it is read, as long as no reset,
no forced cursors and no bare words come between: the words read, those in the ring and those that
wait are the frames of the messages in the order in which these were enqueued; frames enter the ring
whole; and a refill leaves none waiting beside an empty ring. The frames of a message are its bytes,
in chunks of what one frame carries. -/
theorem own_side_loses_nothing {controller : Controller}
    (power : controller.ownRing.slots.size.isPowerOfTwo)
    (deep : 2 ≤ controller.ownRing.slots.size)
    (empty : controller.ownRing.cursors.isEmpty = true) (nonePending : controller.pending = [])
    {steerings : List Steering} (spare : ∀ steering ∈ steerings, steering.sparesOwn = true) :
    let depth := controller.ownRing.slots.size
    let after := controller.steerAll steerings
    let read := controller.gathered Steering.popped steerings
    let frames := framesTo depth (controller.gathered Steering.enqueued steerings)
    read ++ after.ownRing.toList ++ after.pending.flatten = frames.flatMap Frame.Segment.words ∧
      (∃ entered waiting, frames = entered ++ waiting ∧
        read ++ after.ownRing.toList = entered.flatMap Frame.Segment.words ∧
        after.pending = waiting.map Frame.Segment.words) ∧
      (∀ before last, steerings = before ++ [last] →
        last.refills (controller.steerAll before) = true →
        after.ownRing.cursors.isEmpty = true → after.pending = []) ∧
      ∀ (message : Message) (route : Route),
        Frame.Chunked route (Frame.payloadLimit depth) message.bytes
          (responseFrames depth message route) := by
  intro depth after read frames
  obtain ⟨sound, unread⟩ := Ring.sound_of_isEmpty power empty
  have fresh : controller.Supplies depth [] [] :=
    ⟨sound, rfl, by simp, [], [], rfl, by simp [unread], nonePending⟩
  have supplies : after.Supplies depth read frames := fresh.steerAll deep spare
  obtain ⟨entered, waiting, shape, words, pending⟩ := supplies.split
  refine ⟨?_, ⟨entered, waiting, shape, words, pending⟩, ?_, fun message route => ?_⟩
  · rw [words, pending, shape, List.flatMap_append, ← List.flatMap_def]
  · rintro before last rfl refills emptied
    obtain ⟨others, here⟩ := List.forall_mem_append.mp spare
    have middle := fresh.steerAll deep others
    have steered : after = (controller.steerAll before).steer last := List.foldl_append
    rw [supplies.sound.isEmpty_eq, List.isEmpty_iff] at emptied
    rw [steered] at emptied ⊢
    exact (middle.steer deep (here last (List.mem_singleton_self last))).2 refills emptied
  · have limit : max (Frame.payloadLimit depth) 4 = Frame.payloadLimit depth := by
      unfold Frame.payloadLimit Frame.maxLength
      omega
    have chunked := Frame.segments_chunked route (by omega) (responseLimit_le depth) message.bytes
    rw [limit] at chunked
    rw [responseFrames, limit]
    exact chunked

/-- A message in two frames, of which the ring has room for one; it is read in part. Then a request
is answered, and the last reads find the ring empty until the doorbell brings the rest. -/
def haltingReads : List Steering :=
  [.enqueue (.ofBytes (List.replicate 20 0xAA)) 7 0, .read Register.controllerWindow,
    .queueResponse (.ofBytes [9]), .write Register.hostWindow 0x80010003,
    .write Register.hostWindow 0x0000002A, .read Register.controllerWindow, .consumeNow,
    .read Register.controllerWindow, .read Register.controllerWindow,
    .read Register.controllerWindow,
    .write Register.hostCsr (Csr.readyBit ||| Csr.generateBit), .read Register.controllerWindow]

theorem halting_reads_lose_nothing :
    let controller := (ofDepth 4).setOwnCursors 254 254
    let after := controller.steerAll haltingReads
    (controller.ownRing.slots.size.isPowerOfTwo ∧ 2 ≤ controller.ownRing.slots.size ∧
      controller.ownRing.cursors.isEmpty = true ∧ controller.pending = [] ∧
      ∀ steering ∈ haltingReads, steering.sparesOwn = true) ∧
    controller.gathered Steering.popped haltingReads ++ after.ownRing.toList ++
        after.pending.flatten =
      [0x000C0007, 0xAAAAAAAA, 0xAAAAAAAA, 0xAAAAAAAA, 0x80080007, 0xAAAAAAAA, 0xAAAAAAAA,
        0x80010003, 0x00000009] := by
  intro controller after
  have power : controller.ownRing.slots.size.isPowerOfTwo := ⟨2, rfl⟩
  have deep : 2 ≤ controller.ownRing.slots.size := by decide
  have spare : ∀ steering ∈ haltingReads, steering.sparesOwn = true := by decide
  have empty : controller.ownRing.cursors.isEmpty = true := by decide +kernel
  refine ⟨⟨power, deep, empty, rfl, spare⟩, ?_⟩
  refine (own_side_loses_nothing power deep empty rfl spare).1.trans ?_
  decide +kernel

end Controller

end HeciMailbox
