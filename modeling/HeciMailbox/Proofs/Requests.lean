import HeciMailbox.Proofs.Delivery
import HeciMailbox.Proofs.Intake

/-! The requests that the simulated controller receives from a run of calls.

A send that fails may have written some frames of its message, and nothing takes them back. Their
bytes stay in the request under way and stand before those of the next message that is sent to its
end. Apart from that every request is a message that was sent to its end, in the order of the
sends. -/

set_option autoImplicit false

namespace HeciMailbox

/-- A message that a call was given to send: how many of its frames were written, and whether it was
sent to its end. -/
structure Sending where
  message : Message
  frames : Nat
  whole : Bool

/-- What is left of a message that was not sent to its end ends with one of its frames, short of the
last. -/
def Sending.Proper (limit : Nat) (sending : Sending) : Prop :=
  sending.whole = false →
    sending.frames = 0 ∨ sending.frames * limit < sending.message.length

def Inbox.post (limit : Nat) (inbox : Inbox) (sending : Sending) : Inbox :=
  if sending.whole then
    ⟨[], inbox.received ++ [.ofBytes (inbox.assembly ++ sending.message.bytes)]⟩
  else
    { inbox with
      assembly := inbox.assembly ++ sending.message.bytes.take (sending.frames * limit) }

def Call.message? : Call → Option Message
  | .send message _ => some message
  | .sendAndAwait request _ _ _ => some request
  | .receive _ | .drain | .bringUp | .reset => none

/-- The message of the call was sent to its end, whatever came of a response. -/
def Call.wentThrough (entries : List Entry) (outcome : Except Stop Unit) : Call → Bool
  | .send .. => outcome.isOk
  | .sendAndAwait .. => decide (.event (.phaseChanged .sending .awaitingResponse) ∈ entries)
  | .receive _ | .drain | .bringUp | .reset => false

/-- What a call sent, as its entries and its outcome show it. -/
def Call.sending? (call : Call) (entries : List Entry) (outcome : Except Stop Unit) :
    Option Sending :=
  call.message?.map fun message =>
    ⟨message, (Trace.frames .toController entries).length, call.wentThrough entries outcome⟩

inductive Turn where
  | perform (link : Link) (call : Call)
  | setAutoConsume (autoConsume : Bool)
  | consumeNow

namespace Turn

def message? : Turn → Option Message
  | .perform _ call => call.message?
  | .setAutoConsume _ | .consumeNow => none

def run (world : World (Timed Controller)) : Turn → World (Timed Controller)
  | .perform link call => (Op.perform link call).reached world
  | .setAutoConsume autoConsume =>
    let registers := world.hardware.registers.setAutoConsume autoConsume
    { world with hardware := { world.hardware with registers } }
  | .consumeNow =>
    let registers := world.hardware.registers.consumeNow
    { world with hardware := { world.hardware with registers } }

def runAll (world : World (Timed Controller)) (turns : List Turn) : World (Timed Controller) :=
  turns.foldl run world

def sending? (world : World (Timed Controller)) : Turn → Option Sending
  | .perform link call =>
    call.sending? ((Op.perform link call).added world) ((Op.perform link call).outcome world)
  | .setAutoConsume _ | .consumeNow => none

def sendings (world : World (Timed Controller)) : List Turn → List Sending
  | [] => []
  | turn :: rest => (turn.sending? world).toList ++ sendings (turn.run world) rest

end Turn

/-! ### Frames of one sending -/

namespace Inbox

/-- Frames none of which ends a message only add their bytes. -/
theorem accept_parts (inbox : Inbox) {frames : List Frame.Segment}
    (incomplete : ∀ frame ∈ frames, frame.header.complete = false) :
    frames.foldl accept inbox =
      { inbox with assembly := inbox.assembly ++ frames.flatMap Frame.Segment.content } := by
  induction frames generalizing inbox with
  | nil => simp
  | cons frame rest ih =>
    obtain ⟨here, others⟩ := List.forall_mem_cons.mp incomplete
    rw [List.foldl_cons, ih _ others]
    simp [accept, here]

/-- The frames of a message end the request that they find under way. -/
theorem accept_whole (inbox : Inbox) {frames : List Frame.Segment} {bytes : List UInt8}
    (conveys : Frame.Conveys frames bytes) :
    frames.foldl accept inbox =
      ⟨[], inbox.received ++ [.ofBytes (inbox.assembly ++ bytes)]⟩ := by
  induction conveys generalizing inbox with
  | last _ complete => simp [accept, complete]
  | next _ incomplete _ ih =>
    rw [List.foldl_cons, ih]
    simp [accept, incomplete]

theorem accept_segments (message : Message) (route : Route) {limit count : Nat} {whole : Bool}
    (fits : limit ≤ Frame.maxLength)
    (bound : count ≤ (Frame.segments route limit message.bytes).length)
    (all : whole = true ↔ 0 < (Frame.segments route limit message.bytes).length ∧
      count = (Frame.segments route limit message.bytes).length) :
    Sending.Proper limit ⟨message, count, whole⟩ ∧
      ∀ inbox : Inbox, ((Frame.segments route limit message.bytes).take count).foldl accept inbox =
        inbox.post limit ⟨message, count, whole⟩ := by
  obtain rfl | positive := Nat.eq_zero_or_pos limit
  · -- A ring without room for content: there is no frame to write.
    simp only [Frame.segments_zero, List.length_nil, Nat.le_zero_eq] at bound all
    obtain rfl : whole = false := by simpa using all
    exact ⟨by simp [Sending.Proper, bound], fun inbox => by
      simp [Frame.segments_zero, post]⟩
  · cases whole with
    | true =>
      obtain ⟨nonempty, rfl⟩ := all.mp rfl
      have long := Frame.length_segments_le route message.bytes positive
      have conveys := Frame.segments_convey route positive fits (Nat.lt_of_lt_of_le nonempty long)
      refine ⟨by simp [Sending.Proper], fun inbox => ?_⟩
      rw [List.take_length, inbox.accept_whole conveys]
      simp [post]
    | false =>
      obtain rfl | further := Nat.eq_zero_or_pos count
      · exact ⟨by simp [Sending.Proper], fun inbox => by simp [post]⟩
      · have short : count < (Frame.segments route limit message.bytes).length := by
          refine Nat.lt_of_le_of_ne bound fun same => ?_
          simp [← same, further] at all
        obtain ⟨incomplete, content, within⟩ := Frame.take_segments route positive fits short
        rw [message.length_bytes] at within
        refine ⟨fun _ => .inr within, fun inbox => ?_⟩
        rw [inbox.accept_parts incomplete, content]
        simp [post]

/-- Sendings that leave no part of a message make requests of the messages sent to their end. -/
theorem post_whole {limit : Nat} {sendings : List Sending} (received : List Message)
    (clean : ∀ sending ∈ sendings, sending.whole = false → sending.frames = 0) :
    sendings.foldl (post limit) ⟨[], received⟩ =
      ⟨[], received ++ (sendings.filter Sending.whole).map Sending.message⟩ := by
  induction sendings generalizing received with
  | nil => simp
  | cons sending rest ih =>
    obtain ⟨here, others⟩ := List.forall_mem_cons.mp clean
    have posted : post limit ⟨[], received⟩ sending =
        ⟨[], received ++ if sending.whole then [sending.message] else []⟩ := by
      cases whole : sending.whole with
      | true => simp [post, whole]
      | false => simp [post, whole, here whole]
    rw [List.foldl_cons, posted, ih _ others]
    cases whole : sending.whole <;> simp [whole]

end Inbox

namespace Op

section

variable {entries : List Entry} {hostDepth : Nat}

theorem present_of_depth (divides : hostDepth ∣ 256) {raw : UInt32}
    (depth : (Csr.mk raw).depth.toNat = hostDepth) : (Csr.mk raw).absent = false := by
  cases absent : (Csr.mk raw).absent with
  | false => rfl
  | true =>
    obtain rfl : raw = Csr.absentWord := by simpa [Csr.absent] using absent
    rw [← depth] at divides
    exact absurd divides (by decide)

theorem Delivered.rung {first rung : Bool} {segments : List Frame.Segment}
    (delivered : Delivered first segments rung entries)
    (present : ∀ raw ∈ Trace.reads Register.hostCsr entries, (Csr.mk raw).absent = false) :
    rung = true := by
  induction delivered with
  | done => rfl
  | @vanished _ _ looking shown csr _ _ gone =>
    have here := present csr.raw
      (List.mem_filterMap.mpr ⟨.read Register.hostCsr csr.raw, by simp, by simp⟩)
    cases gone.symm.trans here
  | next _ _ _ _ ih =>
    refine ih fun raw member => present raw ?_
    simp [frameWritten, List.filterMap_cons, member]

theorem sizingDepth_of_reads
    (depths : ∀ raw ∈ Trace.reads Register.hostCsr entries, (Csr.mk raw).depth.toNat = hostDepth) :
    sizingDepth entries = hostDepth ∨ sizingDepth entries = 0 := by
  unfold sizingDepth
  cases sized : (Trace.reads Register.hostCsr entries)[1]? with
  | none => exact .inr rfl
  | some raw => exact .inl (depths raw (List.mem_of_getElem? sized))

/-- What a call puts into the host ring: whole frames, which make of the inbox what the sending does
if the host status has shown no other depth. -/
def Posts (entries : List Entry) (sending : Option Sending) : Prop :=
  ∃ frames : List Frame.Segment,
    (∀ frame ∈ frames, frame.payload.length = frame.header.words) ∧
    Trace.writes Register.hostWindow entries = frames.flatMap Frame.Segment.words ∧
    ∀ hostDepth, hostDepth ∣ 256 →
      (∀ raw ∈ Trace.reads Register.hostCsr entries, (Csr.mk raw).depth.toNat = hostDepth) →
      (∀ sent ∈ sending, sent.Proper (Frame.payloadLimit hostDepth)) ∧
      ∀ inbox : Inbox, frames.foldl Inbox.accept inbox =
        sending.toList.foldl (Inbox.post (Frame.payloadLimit hostDepth)) inbox

theorem Posts.of_unwritten (unwritten : Trace.writes Register.hostWindow entries = []) :
    Posts entries none :=
  ⟨[], by simp, unwritten, fun _ _ _ => ⟨by simp, fun _ => rfl⟩⟩

theorem WritesWhole.posts {message : Message} {route : Route} {succeeds : Prop} {whole : Bool}
    {reading : List Entry} (written : WritesWhole message route succeeds reading entries)
    (same : succeeds ↔ whole = true) :
    Posts entries (some ⟨message, (Trace.frames .toController entries).length, whole⟩) := by
  obtain ⟨count, rung, before, delivery, after, bound, shape, -, -, delivered, words, shown,
    succeeded⟩ := written
  have number : (Trace.frames .toController entries).length = count := by
    rw [shown, List.length_map, List.length_take_of_le bound]
  have fits := Frame.payloadLimit_le_maxLength
  refine ⟨_, fun frame member =>
    Frame.counted_segments route (fits _) _ frame (List.mem_of_mem_take member), words,
    fun hostDepth divides depths => ?_⟩
  have present : ∀ raw ∈ Trace.reads Register.hostCsr delivery, (Csr.mk raw).absent = false := by
    intro raw member
    refine present_of_depth divides (depths raw ?_)
    rw [shape, Trace.reads_append, Trace.reads_append]
    simp [member]
  have all : whole = true ↔ 0 < (planned message route entries).length ∧
      count = (planned message route entries).length := by
    rw [← same, succeeded, delivered.rung present, eq_self, and_true]
  rw [number]
  obtain sized | unsized := sizingDepth_of_reads depths
  · simp only [planned, sized] at bound all ⊢
    simpa using Inbox.accept_segments message route (fits _) bound all
  · -- The send got no further than its preparations.
    have unplanned : planned message route entries = [] := by
      rw [planned, unsized]
      exact Frame.segments_zero route message.bytes
    rw [unplanned] at bound all
    obtain rfl : whole = false := by simpa using all
    obtain rfl : count = 0 := Nat.le_zero.mp bound
    exact ⟨by simp [Sending.Proper], fun inbox => by simp [Inbox.post]⟩

/-- A call is one sending at most, and puts nothing else into the host ring. -/
theorem Called.posts {link : Link} {call : Call} {outcome : Except Stop Unit}
    (called : Called link call entries outcome) :
    Posts entries (call.sending? entries outcome) := by
  cases called with
  | send sent =>
    refine sent.whole.posts ?_
    cases outcome <;> simp [Call.wentThrough, Except.isOk, Except.toBool]
  | sendAndAwait exchanged =>
    obtain ⟨_, -, whole⟩ := exchanged.whole
    exact whole.posts (by simp [Call.wentThrough])
  | receive received =>
    obtain ⟨_, half, reading, rfl⟩ := received
    have inbound : ∀ entry ∈ .event (.phaseChanged .idle .awaitingResponse) :: half,
        Inbound entry := List.forall_mem_cons.mpr ⟨trivial, reading.inbound⟩
    exact .of_unwritten (Trace.writes_eq_nil inbound (by decide))
  | drain drained => exact .of_unwritten (Trace.writes_eq_nil drained.draining (by decide))
  | bringUp broughtUp => exact .of_unwritten (Trace.writes_eq_nil broughtUp.aside (by decide))
  | reset reset => exact .of_unwritten (Trace.writes_eq_nil reset.aside (by decide))

end

end Op

namespace Turn

variable {hostDepth : Nat} {inbox : Inbox} {world : World (Timed Controller)}

theorem brings_run (divides : hostDepth ∣ 256) {turn : Turn}
    (unreset : ∀ link, turn ≠ .perform link .reset)
    (brings : world.hardware.registers.Brings hostDepth [] inbox) :
    (turn.run world).hardware.registers.Brings hostDepth []
        ((turn.sending? world).toList.foldl (Inbox.post (Frame.payloadLimit hostDepth)) inbox) ∧
      ∀ sending ∈ turn.sending? world, sending.Proper (Frame.payloadLimit hostDepth) := by
  cases turn with
  | perform link call =>
    have other : call ≠ .reset := by
      rintro rfl
      exact unreset link rfl
    obtain ⟨called, -, path⟩ := (Op.perform_ensures link call).holds world
    obtain ⟨frames, counted, words, posts⟩ := called.posts
    obtain ⟨unspent, spent⟩ := called.kept_host 0
    have extended := brings.extend counted
    rw [← words] at extended
    have houses := houses_of_path path spent fun _ => Nat.zero_le _
    obtain ⟨brought, depths⟩ := extended.follow houses (called.echoing other []) (by simp)
    obtain ⟨proper, posted⟩ := posts hostDepth divides depths
    exact ⟨posted inbox ▸ brought, proper⟩
  | setAutoConsume autoConsume => exact ⟨brings.of_same { brings.1 with } rfl rfl, nofun⟩
  | consumeNow => exact ⟨brings.consume.fill, nofun⟩

theorem brings_runAll (divides : hostDepth ∣ 256) {turns : List Turn}
    (unreset : ∀ link, .perform link .reset ∉ turns)
    (brings : world.hardware.registers.Brings hostDepth [] inbox) :
    (runAll world turns).hardware.registers.Brings hostDepth []
        ((sendings world turns).foldl (Inbox.post (Frame.payloadLimit hostDepth)) inbox) ∧
      ∀ sending ∈ sendings world turns, sending.Proper (Frame.payloadLimit hostDepth) := by
  induction turns generalizing world inbox with
  | nil => exact ⟨brings, nofun⟩
  | cons turn rest ih =>
    have others : ∀ link, .perform link .reset ∉ rest := fun link member =>
      unreset link (List.mem_cons_of_mem _ member)
    obtain ⟨brought, proper⟩ :=
      brings_run divides (fun link same => unreset link (same ▸ List.mem_cons_self)) brings
    obtain ⟨ended, later⟩ := ih others brought
    rw [sendings, List.foldl_append]
    refine ⟨ended, List.forall_mem_append.mpr ⟨?_, later⟩⟩
    simpa using proper

end Turn

theorem Controller.brings_ofDepths {hostDepth : UInt8} (divides : hostDepth.toNat ∣ 256)
    (ownDepth : UInt8) (responses : List Message) :
    Brings hostDepth.toNat [] {} { ofDepths hostDepth ownDepth with responses } where
  left :=
    { present := rfl
      hostReady := .inl rfl
      ownReady := .inl rfl
      hostSound := Ring.sound_ofDepth divides
      hostSize := Array.size_replicate }
  right := ⟨[], by simp, (List.append_nil _).trans (Ring.toList_ofDepth hostDepth), rfl⟩

def simulated (hostDepth ownDepth : UInt8) (responses : List Message) :
    World (Timed Controller) where
  hardware := ⟨{ Controller.ofDepths hostDepth ownDepth with responses }, 0⟩

/-- In any run without a reset the simulated controller receives the messages that were sent to
their end, in order, each behind the bytes that earlier sends left unfinished. What an unfinished
send leaves is cut at a frame, short of the end of its message. All that was sent to its end has
been received once the host ring is empty, and where nothing was left unfinished the requests are
the messages themselves. -/
theorem requests_gather_what_was_sent {hostDepth : UInt8} (power : hostDepth.toNat.isPowerOfTwo)
    (ownDepth : UInt8) (responses : List Message) (turns : List Turn)
    (unreset : ∀ link, .perform link .reset ∉ turns) :
    let start := simulated hostDepth ownDepth responses
    let limit := Frame.payloadLimit hostDepth.toNat
    let sendings := Turn.sendings start turns
    let controller := (Turn.runAll start turns).hardware.registers
    let requests := (sendings.foldl (Inbox.post limit) {}).received
    (∀ sending ∈ sendings, sending.Proper limit) ∧
    controller.received <+: requests ∧
    (controller.hostRing.cursors.isEmpty = true → controller.received = requests) ∧
    ((∀ sending ∈ sendings, sending.whole = false → sending.frames = 0) →
      requests = (sendings.filter Sending.whole).map Sending.message) := by
  intro start limit sendings controller requests
  have divides := dvd_of_isPowerOfTwo power
  have started : start.hardware.registers.Brings hostDepth.toNat [] {} :=
    Controller.brings_ofDepths divides ownDepth responses
  obtain ⟨brought, proper⟩ := Turn.brings_runAll divides unreset started
  obtain ⟨received, all⟩ := brought.received
  exact ⟨proper, received, all, fun clean =>
    congrArg Inbox.received (Inbox.post_whole [] clean)⟩

def hasty : Link := .ofConfig { sendMilliseconds := 0 } 0xFED1A000 8

/-- The controller leaves the ring alone while a message of 28 bytes is sent, takes what is there,
and is then sent a message of four bytes. -/
def unattended : List Turn :=
  [.setAutoConsume false, .perform hasty (.send (.ofBytes (List.replicate 28 0xAA)) ⟨0, 7⟩),
    .consumeNow, .setAutoConsume true, .perform hasty (.send (.ofBytes [1, 2, 3, 4]) ⟨0, 7⟩)]

/-- The four bytes arrive behind the first twelve of the other message. -/
theorem leftover_begins_next_request :
    (Turn.sendings (simulated 4 4 []) unattended).map Sending.whole = [false, true] ∧
    ∃ request ∈ (Turn.runAll (simulated 4 4 []) unattended).hardware.registers.received,
      request = .ofBytes (List.replicate 12 0xAA ++ [1, 2, 3, 4]) ∧
      ∀ turn ∈ unattended, turn.message? ≠ some request := by
  decide +kernel

theorem unattended_requests_are_gathered :
    (4 : UInt8).toNat.isPowerOfTwo ∧ (∀ link, .perform link .reset ∉ unattended) ∧
    (Turn.runAll (simulated 4 4 []) unattended).hardware.registers.received =
      ((Turn.sendings (simulated 4 4 []) unattended).foldl (Inbox.post 12) {}).received := by
  have power : (4 : UInt8).toNat.isPowerOfTwo := ⟨2, rfl⟩
  have unreset : ∀ link, .perform link .reset ∉ unattended := by simp [unattended]
  obtain ⟨-, -, all, -⟩ := requests_gather_what_was_sent power 4 [] unattended unreset
  exact ⟨power, unreset, all (by decide +kernel)⟩

end HeciMailbox
