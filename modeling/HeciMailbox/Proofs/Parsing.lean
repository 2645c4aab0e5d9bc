import HeciMailbox.Proofs.Steering

/-! The peer's reassembly does not depend on when it looks.

Whenever the simulated controller takes the frames in its host ring, it has read the words that the
ring accepted so far as one greedy parse reads them: frame after frame from the left, the last one
left where it is while it is incomplete. -/

set_option autoImplicit false

namespace HeciMailbox

namespace Frame

/-- The frame at the front of a word stream, if it is there as a whole, and the words behind it. -/
def front? : List UInt32 → Option (Segment × List UInt32)
  | [] => none
  | raw :: words =>
    let header : Header := ⟨raw⟩
    if words.length < header.words then none
    else some (⟨header, words.take header.words⟩, words.drop header.words)

theorem front?_eq_some {words rest : List UInt32} {frame : Segment}
    (front : front? words = some (frame, rest)) :
    words = frame.words ++ rest ∧ frame.payload.length = frame.header.words := by
  cases words with
  | nil => cases front
  | cons raw words =>
    unfold front? at front
    dsimp only at front
    split at front
    · cases front
    · next enough =>
      cases front
      exact ⟨by simp [Segment.words], List.length_take_of_le (Nat.le_of_not_lt enough)⟩

theorem front?_words {frame : Segment} (counted : frame.payload.length = frame.header.words)
    (rest : List UInt32) : front? (frame.words ++ rest) = some (frame, rest) := by
  have long : ¬(frame.payload ++ rest).length < frame.header.words := by
    rw [List.length_append]
    omega
  rw [Segment.words, List.cons_append, front?]
  simp only [if_neg long]
  rw [← counted, List.take_left, List.drop_left]

/-- The greedy parse of a word stream: the whole frames at its front and the words behind them. -/
def parse (words : List UInt32) : List Segment × List UInt32 :=
  match _front : front? words with
  | none => ([], words)
  | some (frame, rest) =>
    let (frames, left) := parse rest
    (frame :: frames, left)
termination_by words.length
decreasing_by
  rw [(front?_eq_some _front).1, List.length_append, Segment.words, List.length_cons]
  omega

theorem parse_of_not_front? {words : List UInt32} (missing : front? words = none) :
    parse words = ([], words) := by
  unfold parse
  split
  · rfl
  · next front => cases missing.symm.trans front

theorem parse_cons {frame : Segment} (counted : frame.payload.length = frame.header.words)
    (rest : List UInt32) :
    parse (frame.words ++ rest) = (frame :: (parse rest).1, (parse rest).2) := by
  rw [parse]
  split
  · next missing => cases missing.symm.trans (front?_words counted rest)
  · next front =>
    cases front.symm.trans (front?_words counted rest)
    rfl

theorem parse_frames {frames : List Segment} {left : List UInt32}
    (counted : ∀ frame ∈ frames, frame.payload.length = frame.header.words)
    (missing : front? left = none) :
    parse (frames.flatMap Segment.words ++ left) = (frames, left) := by
  induction frames with
  | nil => exact parse_of_not_front? missing
  | cons frame rest ih =>
    obtain ⟨here, others⟩ := List.forall_mem_cons.mp counted
    rw [List.flatMap_cons, List.append_assoc, parse_cons here, ih others]

end Frame

namespace Steering

def accepted (controller : Controller) : Steering → List UInt32
  | .write offset word =>
    if controller.present && offset == Register.hostWindow &&
        (controller.hostRing.push? word).isSome then [word]
    else []
  | _ => []

/-- The peer takes the frames in its host ring: when told to, or at a doorbell outside a reset while
it is ready and is to consume at every one. -/
def looks (controller : Controller) : Steering → Bool
  | .consumeNow => true
  | .write offset value =>
    controller.present && offset == Register.hostCsr && value &&& Csr.generateBit != 0 &&
      value &&& Csr.resetBit == 0 && controller.ownFlags &&& Csr.readyBit != 0 &&
      controller.autoConsume
  | _ => false

def sparesHost : Steering → Bool
  | .setHostCursors _ _ => false
  | steering => !steering.resets

end Steering

namespace Controller

/-! ### Frames taken -/

theorem takeFrame?_of_front? {ring : Ring} (sound : ring.Sound) {frame : Frame.Segment}
    {rest : List UInt32} (front : Frame.front? ring.toList = some (frame, rest)) :
    ∃ next, takeFrame? ring = some (frame.header, frame.content, next) ∧ next.Sound ∧
      next.toList = rest := by
  obtain ⟨queue, counted⟩ := Frame.front?_eq_some front
  obtain ⟨next, taken, sound', left, -⟩ := takeFrame?_spec sound queue counted
  exact ⟨next, taken, sound', left⟩

theorem takeFrame?_of_not_front? {ring : Ring} (sound : ring.Sound)
    (missing : Frame.front? ring.toList = none) : takeFrame? ring = none := by
  cases queue : ring.toList with
  | nil => exact takeFrame?_nil sound queue
  | cons raw words =>
    rw [queue, Frame.front?] at missing
    split at missing
    · next short =>
      have here : ring.toList ++ [] = (Frame.Header.mk raw).raw :: (words ++ []) := by simp [queue]
      refine takeFrame?_of_short sound here ?_
      rw [queue, List.length_cons]
      exact short
    · cases missing

/-- The words are those of the frames taken since `start` and, behind them, those in the host ring;
the frames are in the log and in the inbox. -/
structure Heard (start : Controller) (words : List UInt32) (frames : List Frame.Segment)
    (controller : Controller) : Prop where
  sound : controller.hostRing.Sound
  counted : ∀ frame ∈ frames, frame.payload.length = frame.header.words
  words : words = frames.flatMap Frame.Segment.words ++ controller.hostRing.toList
  log : controller.frameLog = start.frameLog ++ frames.map Frame.Segment.header
  inbox : controller.inbox = frames.foldl Inbox.accept start.inbox

namespace Heard

variable {start controller after : Controller} {words : List UInt32}
  {frames : List Frame.Segment}

theorem of_same (heard : start.Heard words frames controller)
    (hostRing : after.hostRing = controller.hostRing)
    (frameLog : after.frameLog = controller.frameLog) (inbox : after.inbox = controller.inbox) :
    start.Heard words frames after where
  sound := hostRing ▸ heard.sound
  counted := heard.counted
  words := hostRing ▸ heard.words
  log := frameLog.trans heard.log
  inbox := inbox.trans heard.inbox

theorem takeFrames (heard : start.Heard words frames controller) (count : Nat) :
    ∃ taken, start.Heard words taken (controller.takeFrames count) ∧
      (controller.hostRing.toList.length ≤ count →
        Frame.front? (controller.takeFrames count).hostRing.toList = none) := by
  -- By the rounds of the loop; each takes at least the slot of a header.
  induction count generalizing controller frames with
  | zero =>
    refine ⟨frames, heard, fun empty => ?_⟩
    rw [Controller.takeFrames, List.length_eq_zero_iff.mp (Nat.le_zero.mp empty)]
    rfl
  | succ count ih =>
    cases front : Frame.front? controller.hostRing.toList with
    | none =>
      have stopped : controller.takeFrames (count + 1) = controller := by
        rw [Controller.takeFrames, takeFrame?_of_not_front? heard.sound front]
      rw [stopped]
      exact ⟨frames, heard, fun _ => front⟩
    | some found =>
      obtain ⟨frame, rest⟩ := found
      obtain ⟨queue, counted⟩ := Frame.front?_eq_some front
      obtain ⟨hostRing, popped, sound, left⟩ := takeFrame?_of_front? heard.sound front
      have one : start.Heard words (frames ++ [frame])
          (Controller.accept { controller with hostRing } frame.header frame.content) := {
        sound := by rw [hostRing_accept]; exact sound
        counted := List.forall_mem_append.mpr ⟨heard.counted, by simpa using counted⟩
        words := by rw [heard.words, hostRing_accept, left, queue]; simp
        log := by rw [frameLog_accept, heard.log]; simp
        inbox := by
          rw [inbox_accept, List.foldl_append, ← heard.inbox]
          rfl }
      obtain ⟨taken, heard', emptied⟩ := ih one
      have step : controller.takeFrames (count + 1) =
          (Controller.accept { controller with hostRing } frame.header
            frame.content).takeFrames count := by
        rw [Controller.takeFrames, popped]
      rw [step]
      refine ⟨taken, heard', fun enough => emptied ?_⟩
      rw [queue, List.length_append, Frame.Segment.words, List.length_cons] at enough
      rw [hostRing_accept, left]
      omega

theorem consume (heard : start.Heard words frames controller) :
    ∃ taken, start.Heard words taken controller.consume ∧
      Frame.front? controller.consume.hostRing.toList = none := by
  obtain ⟨taken, heard', emptied⟩ := heard.takeFrames controller.hostRing.cursors.filled.toNat
  exact ⟨taken, heard'.of_same rfl rfl rfl, emptied (Nat.le_of_eq heard.sound.length_toList)⟩

/-! ### Steerings -/

theorem readRegister (heard : start.Heard words frames controller) (offset : UInt32) :
    start.Heard words frames (controller.readRegister offset).2 := by
  unfold Controller.readRegister
  repeat' split
  all_goals exact heard.of_same rfl rfl rfl

theorem writeWindow (heard : start.Heard words frames controller) (word : UInt32) :
    start.Heard (words ++ (Steering.write Register.hostWindow word).accepted controller) frames
      (controller.writeRegister Register.hostWindow word) := by
  unfold Controller.writeRegister Steering.accepted
  cases present : controller.present with
  | false => simpa using heard
  | true =>
    cases pushed : controller.hostRing.push? word with
    | none =>
      have refused : start.Heard words frames
          { controller with dropped := controller.dropped + 1 } := heard.of_same rfl rfl rfl
      simpa [pushed, present] using refused
    | some hostRing =>
      have room : controller.hostRing.toList.length < controller.hostRing.slots.size := by
        refine Nat.lt_of_not_le fun full => ?_
        have full := Ring.push?_of_no_room (by rw [heard.sound.room_eq]; omega) word
        cases full.symm.trans pushed
      obtain ⟨next, again, sound, queue, -⟩ := heard.sound.push? room word
      cases again.symm.trans pushed
      have stored : start.Heard (words ++ [word]) frames { controller with hostRing } :=
        { heard with
          sound := sound
          words := by rw [queue, heard.words, List.append_assoc] }
      simpa [pushed, present] using stored

theorem writeStatus (heard : start.Heard words frames controller) {value : UInt32}
    (unasked : Csr.Quiet Csr.resetBit value) :
    ∃ taken, start.Heard words taken (controller.writeRegister Register.hostCsr value) ∧
      ((Steering.write Register.hostCsr value).looks controller = true →
        Frame.front? (controller.writeRegister Register.hostCsr value).hostRing.toList = none) := by
  cases present : controller.present with
  | false =>
    have ignored : controller.writeRegister Register.hostCsr value = controller := by
      simp [Controller.writeRegister, present]
    rw [ignored]
    exact ⟨frames, heard, by simp [Steering.looks, present]⟩
  | true =>
    rw [writeStatus_of_present present]
    have told := @told_writeHostCsr controller _ unasked
    generalize controller.writeHostCsr value = after at told ⊢
    cases told with
    | silent hostFlags unrung =>
      exact ⟨frames, heard.of_same rfl rfl rfl, by simp [Steering.looks, unrung]⟩
    | woken hostFlags _ unready =>
      exact ⟨frames, heard.of_same rfl rfl rfl, by simp [Steering.looks, unready]⟩
    | looked hostFlags =>
      have rung : start.Heard words frames
          { controller with hostFlags, doorbells := controller.doorbells + 1 } :=
        heard.of_same rfl rfl rfl
      obtain ⟨taken, heard', emptied⟩ := rung.consume
      exact ⟨taken, heard'.of_same rfl rfl rfl, fun _ => emptied⟩
    | filled hostFlags _ _ spared =>
      exact ⟨frames, heard.of_same rfl rfl rfl, by simp [Steering.looks, spared]⟩

theorem steer (heard : start.Heard words frames controller) {steering : Steering}
    (spares : steering.sparesHost = true) :
    ∃ taken, start.Heard (words ++ steering.accepted controller) taken
        (controller.steer steering) ∧
      (steering.looks controller = true →
        Frame.front? (controller.steer steering).hostRing.toList = none) := by
  have aside : steering.accepted controller = [] → steering.looks controller = false →
      start.Heard words frames (controller.steer steering) →
      ∃ taken, start.Heard (words ++ steering.accepted controller) taken
          (controller.steer steering) ∧
        (steering.looks controller = true →
          Frame.front? (controller.steer steering).hostRing.toList = none) := by
    intro nothing unlooked same
    rw [nothing, List.append_nil]
    exact ⟨frames, same, by simp [unlooked]⟩
  cases steering with
  | write offset value =>
    by_cases window : offset = Register.hostWindow
    · subst window
      exact ⟨frames, heard.writeWindow value, by
        simp [Steering.looks, show Register.hostWindow ≠ Register.hostCsr by decide]⟩
    have untaken : (Steering.write offset value).accepted controller = [] := by
      simp [Steering.accepted, window]
    by_cases status : offset = Register.hostCsr
    · subst status
      have unasked : value &&& Csr.resetBit = 0 := by
        simpa [Steering.sparesHost, Steering.resets] using spares
      rw [untaken, List.append_nil]
      exact heard.writeStatus unasked
    · refine aside untaken (by simp [Steering.looks, status]) ?_
      have ignored : controller.writeRegister offset value = controller := by
        simp [Controller.writeRegister, window, status]
      rw [Controller.steer, ignored]
      exact heard
  | consumeNow =>
    obtain ⟨taken, heard', emptied⟩ := heard.consume
    have untaken : Steering.consumeNow.accepted controller = [] := rfl
    rw [untaken, List.append_nil]
    exact ⟨taken, heard'.of_same rfl rfl rfl, fun _ => emptied⟩
  | read offset => exact aside rfl rfl (heard.readRegister offset)
  | setHostCursors => cases spares
  | queueResponse | enqueue | injectWords | setPresent | setOwnReady | setHostReady |
      setAutoConsume | setOwnCursors => exact aside rfl rfl (heard.of_same rfl rfl rfl)

theorem steerAll (heard : start.Heard words frames controller) {steerings : List Steering}
    (spare : ∀ steering ∈ steerings, steering.sparesHost = true) :
    ∃ taken, start.Heard (words ++ controller.gathered Steering.accepted steerings) taken
      (controller.steerAll steerings) := by
  induction steerings generalizing controller words frames with
  | nil =>
    rw [gathered, List.append_nil]
    exact ⟨frames, heard⟩
  | cons steering rest ih =>
    obtain ⟨here, others⟩ := List.forall_mem_cons.mp spare
    obtain ⟨middle, heard', -⟩ := heard.steer here
    rw [gathered, ← List.append_assoc]
    exact ih heard' others

end Heard

/-- These steerings leave the order of the host ring alone, which they find empty and no request
under way, and the last of them makes the peer look at it. -/
structure LooksLast (controller : Controller) (steerings : List Steering) (last : Steering) :
    Prop where
  power : controller.hostRing.slots.size.isPowerOfTwo
  empty : controller.hostRing.cursors.isEmpty = true
  idle : controller.assembly = []
  spare : ∀ steering ∈ steerings, steering.sparesHost = true
  spares : last.sparesHost = true
  looks : last.looks (controller.steerAll steerings) = true

theorem LooksLast.parsed {controller : Controller} {steerings : List Steering} {last : Steering}
    (run : controller.LooksLast steerings last) :
    ∃ frames, controller.Heard (controller.gathered Steering.accepted (steerings ++ [last])) frames
        (controller.steerAll (steerings ++ [last])) ∧
      Frame.parse (controller.gathered Steering.accepted (steerings ++ [last])) =
        (frames, (controller.steerAll (steerings ++ [last])).hostRing.toList) := by
  obtain ⟨sound, nothing⟩ := Ring.sound_of_isEmpty run.power run.empty
  have fresh : controller.Heard [] [] controller :=
    ⟨sound, by simp, by simp [nothing], by simp, rfl⟩
  obtain ⟨_, before⟩ := fresh.steerAll run.spare
  obtain ⟨frames, heard, emptied⟩ := before.steer run.spares
  have steered : controller.steerAll (steerings ++ [last]) =
      (controller.steerAll steerings).steer last := List.foldl_append
  rw [gathered_append, steered]
  simp only [gathered, List.append_nil, List.nil_append] at heard ⊢
  refine ⟨frames, heard, ?_⟩
  rw [heard.words]
  exact Frame.parse_frames heard.counted (emptied run.looks)

/-- The words that the host ring accepted, read from the left as one parse reads them, are what the
peer makes of them, however its looks and the writes of the host are interleaved: its log has the
headers of the parsed frames, its inbox their bytes, and the ring the words of the last frame while
that is incomplete. So two runs with the same accepted words end alike, wherever the peer looked on
the way. -/
theorem reassembly_is_one_parse {controller : Controller} {steerings : List Steering}
    {last : Steering} (run : controller.LooksLast steerings last) :
    let words := controller.gathered Steering.accepted (steerings ++ [last])
    let after := controller.steerAll (steerings ++ [last])
    let inbox := (Frame.parse words).1.foldl Inbox.accept ⟨[], controller.received⟩
    (after.frameLog = controller.frameLog ++ (Frame.parse words).1.map Frame.Segment.header ∧
      after.received = inbox.received ∧ after.assembly = inbox.assembly ∧
      after.hostRing.toList = (Frame.parse words).2) ∧
    ∀ (other : Controller) (others : List Steering) (otherLast : Steering),
      other.LooksLast others otherLast → other.frameLog = controller.frameLog →
      other.received = controller.received →
      other.gathered Steering.accepted (others ++ [otherLast]) = words →
      let otherwise := other.steerAll (others ++ [otherLast])
      otherwise.frameLog = after.frameLog ∧ otherwise.received = after.received ∧
        otherwise.assembly = after.assembly ∧
        otherwise.hostRing.toList = after.hostRing.toList := by
  intro words after inbox
  obtain ⟨frames, heard, parsed⟩ := run.parsed
  have fresh : controller.inbox = ⟨[], controller.received⟩ := by rw [Controller.inbox, run.idle]
  have gathers : after.inbox = inbox := by
    rw [heard.inbox, fresh]
    simp only [inbox, words, parsed]
  refine ⟨⟨?_, congrArg Inbox.received gathers, congrArg Inbox.assembly gathers, ?_⟩, ?_⟩
  · rw [heard.log]
    simp only [words, parsed]
  · simp only [words, parsed]
    rfl
  · intro other others otherLast otherRun sameLog sameReceived same otherwise
    obtain ⟨_, heard', parsed'⟩ := otherRun.parsed
    obtain ⟨rfl, left⟩ :=
      Prod.mk.inj (parsed'.symm.trans ((congrArg Frame.parse same).trans parsed))
    have fresh' : other.inbox = controller.inbox := by
      rw [fresh, Controller.inbox, otherRun.idle, sameReceived]
    have gathers' : otherwise.inbox = after.inbox := by
      rw [heard'.inbox, heard.inbox, fresh']
    exact ⟨by rw [heard'.log, heard.log, sameLog], congrArg Inbox.received gathers',
      congrArg Inbox.assembly gathers', left⟩

/-- A frame of five bytes that ends its message, and the header of a frame that has not come yet. -/
def fragmentary : List UInt32 := [0x80050007, 0x04030201, 0x00000005, 0x00040007]

def watchful : List Steering :=
  fragmentary.flatMap fun word =>
    [.write Register.hostWindow word, .write Register.hostCsr (Csr.readyBit ||| Csr.generateBit)]

/-- The peer looks once, after the last word, which goes into a slot behind the wrap. -/
def belatedLook : List Steering :=
  fragmentary.map fun word => .write Register.hostWindow word

theorem one_late_look_suffices :
    let early := (ofDepth 4).steerAll (watchful ++ [.consumeNow])
    let late := ((ofDepth 4).setHostCursors 254 254).steerAll (belatedLook ++ [.consumeNow])
    (ofDepth 4).LooksLast watchful .consumeNow ∧
      ((ofDepth 4).setHostCursors 254 254).LooksLast belatedLook .consumeNow ∧
      early.received = [.ofBytes [1, 2, 3, 4, 5]] ∧ early.hostRing.toList = [0x00040007] ∧
      late.received = early.received ∧ late.hostRing.toList = early.hostRing.toList := by
  have early : (ofDepth 4).LooksLast watchful .consumeNow :=
    ⟨⟨2, rfl⟩, rfl, rfl, by decide, rfl, rfl⟩
  have late : ((ofDepth 4).setHostCursors 254 254).LooksLast belatedLook .consumeNow :=
    ⟨⟨2, rfl⟩, rfl, rfl, by decide, rfl, rfl⟩
  obtain ⟨⟨-, received, -, left⟩, alike⟩ := reassembly_is_one_parse early
  obtain ⟨-, sameReceived, -, sameLeft⟩ := alike _ _ _ late rfl rfl (by decide +kernel)
  refine ⟨early, late, received.trans ?_, left.trans ?_, sameReceived, sameLeft⟩
  · decide +kernel
  · decide +kernel

end Controller

end HeciMailbox
