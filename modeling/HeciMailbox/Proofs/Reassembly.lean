import HeciMailbox.Proofs.Backends
import HeciMailbox.Proofs.Footprint
import HeciMailbox.Proofs.Stops

/-! A read puts together exactly the frames it takes off the ring, on any hardware.

`FramesTaken` is the grammar of the accesses by which the frames of one message are read. What the
assembly holds after some frames is said by `Assembly.Holds`, which one frame preserves. -/

set_option autoImplicit false

namespace HeciMailbox

/-- An entry made while a read waits for words: a wait begins, or the controller status is looked
at. -/
@[simp] def Entry.Pending : Entry → Prop
  | .wait _ => True
  | .read offset _ => offset = Register.controllerCsr
  | .write .. | .event _ | .remark _ => False

namespace Assembly

def addFrame (capacity : Nat) (assembly : Assembly) (segment : Frame.Segment) : Assembly :=
  assembly.add capacity segment.header.length segment.payload

/-- The assembly stands for `bytes`: it holds them all, or they exceed the capacity and it says so.
In neither case does it hold more than the capacity. -/
structure Holds (capacity : Nat) (assembly : Assembly) (bytes : List UInt8) : Prop where
  total : assembly.total = bytes.length
  truncated : assembly.truncated = true ↔ capacity < bytes.length
  whole : assembly.truncated = false → assembly.bytes.toList = bytes
  bounded : assembly.bytes.size ≤ capacity

theorem Holds.start (capacity : Nat) : Holds capacity {} [] where
  total := rfl
  truncated := by simp
  whole _ := rfl
  bounded := Nat.zero_le _

variable {capacity : Nat} {assembly : Assembly} {bytes : List UInt8}

/-- Once bytes were left out the total exceeds the capacity, and so does every later one; the frames
that follow are rightly left out as well. -/
theorem Holds.addFrame (holds : Holds capacity assembly bytes) {segment : Frame.Segment}
    (counted : segment.payload.length = segment.header.words) :
    Holds capacity (assembly.addFrame capacity segment) (bytes ++ segment.content) := by
  have length : segment.content.length = segment.header.length := by
    simp only [Frame.Segment.content, List.length_take, Bytes.length_unpack, counted,
      Frame.Header.words]
    omega
  unfold Assembly.addFrame Assembly.add
  -- The frame is kept, or it does not fit, or an earlier one did not. The last two cases agree in
  -- what they show: the total is beyond the capacity.
  by_cases fits : (!assembly.truncated) = true ∧ assembly.total + segment.header.length ≤ capacity
  · obtain ⟨whole, room⟩ := fits
    have kept : assembly.truncated = false := by simpa using whole
    have bound : bytes.length + segment.header.length ≤ capacity := holds.total ▸ room
    have joined : (assembly.bytes ++ segment.content).toList = bytes ++ segment.content := by
      simp [holds.whole kept]
    rw [if_pos ⟨whole, room⟩]
    refine ⟨?_, ?_, fun _ => joined, ?_⟩
    · simp [holds.total, length]
    · simp [kept, length, bound]
    · rw [← Array.length_toList]
      calc (assembly.bytes ++ segment.content).toList.length
        _ = bytes.length + segment.header.length := by rw [joined, List.length_append, length]
        _ ≤ capacity := bound
  · have long : capacity < bytes.length + segment.header.length := by
      by_cases cut : assembly.truncated = true
      · have exceeded := holds.truncated.mp cut
        omega
      · rw [← holds.total]
        exact Nat.lt_of_not_le fun room => fits ⟨by simpa using cut, room⟩
    rw [if_neg fits]
    exact ⟨by simp [holds.total, length], by simp [length, long], by simp, holds.bounded⟩

theorem Holds.addFrames (holds : Holds capacity assembly bytes) {frames : List Frame.Segment}
    (counted : ∀ segment ∈ frames, segment.payload.length = segment.header.words) :
    Holds capacity (frames.foldl (Assembly.addFrame capacity) assembly)
      (bytes ++ frames.flatMap Frame.Segment.content) := by
  induction frames generalizing assembly bytes with
  | nil => simpa using holds
  | cons segment rest ih =>
    obtain ⟨here, others⟩ := List.forall_mem_cons.mp counted
    simpa using ih (holds.addFrame here) others

end Assembly

namespace Op

/-- One frame is read: its header, then its words once they are there, without a gap; observers are
told, the host status is read and written back with the doorbell. -/
inductive FrameTaken (segment : Frame.Segment) : List Entry → Prop where
  | taken {arrival waiting : List Entry} {csr : Csr} :
    (∀ entry ∈ arrival, entry.Pending) → (∀ entry ∈ waiting, entry.Pending) →
    segment.payload.length = segment.header.words →
    FrameTaken segment
      (arrival ++ .read Register.controllerWindow segment.header.raw ::
        (waiting ++ (segment.payload.map (.read Register.controllerWindow) ++
          [.event (.ofFrame .toHost segment.header segment.payload),
            .read Register.hostCsr csr.raw,
            .write Register.hostCsr (csr.raw ||| Csr.generateBit)])))

inductive FramesTaken : List Frame.Segment → List Entry → Prop where
  | last {segment : Frame.Segment} {entries : List Entry} : segment.header.complete = true →
    FrameTaken segment entries → FramesTaken [segment] entries
  | next {segment : Frame.Segment} {rest : List Frame.Segment} {entries tail : List Entry} :
    segment.header.complete = false → FrameTaken segment entries → FramesTaken rest tail →
    FramesTaken (segment :: rest) (entries ++ tail)

def Settled : Except Stop Message → Prop
  | .ok _ | .error (.fault (.tooSmall ..)) => True
  | .error _ => False

instance : DecidablePred Settled
  | .ok _ | .error (.fault (.tooSmall ..)) => .isTrue trivial
  | .error (.fault (.overflow ..)) | .error (.fault .notPresent) | .error (.fault (.timeout _))
  | .error (.fault (.badLength ..)) | .error (.fault .noData) | .error (.trap _)
  | .error .unfinished => .isFalse id

/-- A read that has come this far goes on with an assembly: through the frames left, or to its end
when there is none. -/
inductive GoesOn (capacity : Nat) (assembly : Assembly) (outcome : Except Stop Message) :
    List Frame.Segment → List Entry → Prop where
  | reading {deadline : Option Deadline} {segment : Frame.Segment} {rest : List Frame.Segment}
    {entries : List Entry} : MessageRead capacity deadline assembly entries outcome →
    GoesOn capacity assembly outcome (segment :: rest) entries
  | finishing {entries : List Entry} : Finished capacity assembly entries outcome →
    GoesOn capacity assembly outcome [] entries

/-- However many of the frames have been read, what the read carries on is the assembly that they
make of the one it started with. -/
def Accumulates (capacity : Nat) (assembly : Assembly) (frames : List Frame.Segment)
    (entries : List Entry) (outcome : Except Stop Message) : Prop :=
  ∀ count, ∃ taken left, entries = taken ++ left ∧
    Trace.reads Register.controllerWindow taken =
      (frames.take count).flatMap Frame.Segment.words ∧
    GoesOn capacity ((frames.take count).foldl (Assembly.addFrame capacity) assembly) outcome
      (frames.drop count) left

/-- The entries of a read half are those of the frames of one message and some that touch no
register; the outcome is the content of the frames, if it is within the capacity, and otherwise its
length. After no frame does the assembly that the read carries hold more than the capacity. -/
def Reassembles (capacity : Nat) (outcome : Except Stop Message) (half : List Entry) : Prop :=
  ∃ frames body said ending, half = body ++ (said ++ ending) ∧ FramesTaken frames body ∧
    (∀ entry ∈ said ++ ending, entry.access? = none) ∧
    Trace.reads Register.controllerWindow half = frames.flatMap Frame.Segment.words ∧
    Trace.frames .toHost half = frames.map Frame.Segment.shown ∧
    Accumulates capacity {} frames (body ++ said) outcome ∧
    (∀ count, ((frames.take count).foldl (Assembly.addFrame capacity) {}).bytes.size ≤ capacity) ∧
    outcome = let content := frames.flatMap Frame.Segment.content
      if content.length ≤ capacity then .ok (Message.ofBytes content)
      else .error (.fault (.tooSmall content.length capacity))

section

variable {segment : Frame.Segment} {segments : List Frame.Segment} {entries : List Entry}

theorem FrameTaken.counted (taken : FrameTaken segment entries) :
    segment.payload.length = segment.header.words := by
  cases taken with
  | taken _ _ counted => exact counted

theorem FramesTaken.counted (taken : FramesTaken segments entries) :
    ∀ segment ∈ segments, segment.payload.length = segment.header.words := by
  induction taken with
  | last _ taken => exact List.forall_mem_singleton.mpr taken.counted
  | next _ taken _ ih => exact List.forall_mem_cons.mpr ⟨taken.counted, ih⟩

/-! ### Views of the frames taken -/

theorem reads_eq_nil_of_pending (pending : ∀ entry ∈ entries, entry.Pending) :
    Trace.reads Register.controllerWindow entries = [] := by
  refine List.filterMap_eq_nil_iff.mpr fun entry member => ?_
  have holds := pending entry member
  cases entry with
  | read place value =>
    cases holds
    rfl
  | _ => rfl

theorem reads_eq_nil_of_untouched {offset : UInt32}
    (untouched : ∀ entry ∈ entries, entry.access? = none) : Trace.reads offset entries = [] := by
  refine List.filterMap_eq_nil_iff.mpr fun entry member => ?_
  have holds := untouched entry member
  cases entry with
  | read => simp [Entry.access?] at holds
  | _ => rfl

theorem frames_eq_nil_of_pending (pending : ∀ entry ∈ entries, entry.Pending) :
    Trace.frames .toHost entries = [] := by
  refine List.filterMap_eq_nil_iff.mpr fun entry member => ?_
  have holds := pending entry member
  cases entry with
  | event => exact holds.elim
  | _ => rfl

theorem FrameTaken.reads (taken : FrameTaken segment entries) :
    Trace.reads Register.controllerWindow entries = segment.words := by
  have apart : Register.hostCsr ≠ Register.controllerWindow := by decide
  cases taken with
  | taken arrival waiting =>
    simp [reads_eq_nil_of_pending arrival, reads_eq_nil_of_pending waiting, List.filterMap_cons,
      Function.comp_def, apart, Event.ofFrame, Frame.Segment.words]

theorem FrameTaken.frames (taken : FrameTaken segment entries) :
    Trace.frames .toHost entries = [segment.shown] := by
  cases taken with
  | taken arrival waiting =>
    simp [frames_eq_nil_of_pending arrival, frames_eq_nil_of_pending waiting, List.filterMap_cons,
      Function.comp_def, Event.ofFrame, Frame.Segment.shown]

theorem FramesTaken.reads (taken : FramesTaken segments entries) :
    Trace.reads Register.controllerWindow entries = segments.flatMap Frame.Segment.words := by
  induction taken with
  | last _ taken => simp [taken.reads]
  | next _ taken _ ih => simp [taken.reads, ih]

theorem FramesTaken.frames (taken : FramesTaken segments entries) :
    Trace.frames .toHost entries = segments.map Frame.Segment.shown := by
  induction taken with
  | last _ taken => simp [taken.frames]
  | next _ taken _ ih => simp [taken.frames, ih]

/-! ### From the frames read to the frames taken -/

theorem Awaited.pending {α : Type} {judge : Csr → Except Stop (Option α)} {deadline : Deadline}
    {outcome : Except Stop α}
    (awaited : Awaited Register.controllerCsr judge deadline entries outcome) :
    ∀ entry ∈ entries, entry.Pending := by
  obtain ⟨rounds, rfl, waited⟩ := awaited
  refine List.forall_mem_cons.mpr ⟨trivial, fun entry inside => ?_⟩
  obtain ⟨value, rfl⟩ := waited.looks entry inside
  rfl

theorem Arrived.pending {deadline : Option Deadline} {outcome : Except Stop Cursors}
    (arrived : Arrived deadline entries outcome) : ∀ entry ∈ entries, entry.Pending := by
  cases deadline with
  | some deadline => exact Awaited.pending arrived
  | none =>
    obtain ⟨csr, rfl, -⟩ := arrived
    simp

theorem BodyAwaited.pending {words : Nat} {outcome : Except Stop Unit}
    (awaited : BodyAwaited words entries outcome) : ∀ entry ∈ entries, entry.Pending := by
  cases awaited with
  | bare => simp
  | awaited _ awaited => exact awaited.pending

theorem FrameRead.frameTaken {deadline : Option Deadline} {header : Frame.Header}
    {payload : List UInt32} (read : FrameRead deadline entries (.ok (header, payload))) :
    FrameTaken ⟨header, payload⟩ entries := by
  cases read with
  | taken arrived _ awaited counted acknowledged =>
    obtain ⟨csr, rfl⟩ := acknowledged
    simpa [Csr.withDoorbell] using
      @FrameTaken.taken ⟨header, payload⟩ _ _ _ arrived.pending awaited.pending counted

theorem not_settled_of_plain {stop : Stop} (plain : stop.Plain) : ¬Settled (.error stop) := by
  cases stop with
  | fault fault =>
    cases fault with
    | tooSmall => exact absurd plain id
    | _ => exact id
  | _ => exact id

def concluded (capacity : Nat) (assembly : Assembly) : Except Stop Message :=
  if assembly.truncated then .error (.fault (.tooSmall assembly.total capacity))
  else .ok (Message.ofBytes assembly.bytes.toList)

section

variable {capacity : Nat} {deadline : Option Deadline} {assembly : Assembly}
  {outcome : Except Stop Message} {header : Frame.Header} {payload : List UInt32}
  {reading tail : List Entry} {rest : List Frame.Segment}

theorem Accumulates.last (read : FrameRead deadline reading (.ok (header, payload)))
    (complete : header.complete = true)
    (finished : Finished capacity (assembly.addFrame capacity ⟨header, payload⟩) tail outcome) :
    Accumulates capacity assembly [⟨header, payload⟩] (reading ++ tail) outcome
  | 0 => ⟨[], _, rfl, rfl, .reading (.last read complete finished)⟩
  | count + 1 => ⟨reading, tail, rfl, by simp [read.frameTaken.reads], by
      simpa using .finishing finished⟩

theorem Accumulates.next {later : Deadline}
    (read : FrameRead deadline reading (.ok (header, payload)))
    (incomplete : header.complete = false)
    (others : MessageRead capacity (some later)
      (assembly.addFrame capacity ⟨header, payload⟩) tail outcome)
    (accumulates : Accumulates capacity (assembly.addFrame capacity ⟨header, payload⟩) rest tail
      outcome) :
    Accumulates capacity assembly (⟨header, payload⟩ :: rest) (reading ++ tail) outcome
  | 0 => ⟨[], _, rfl, rfl, .reading (.next read incomplete others)⟩
  | count + 1 => by
    obtain ⟨taken, left, rfl, reads, goes⟩ := accumulates count
    exact ⟨reading ++ taken, left, by simp, by simp [read.frameTaken.reads, reads], goes⟩

end

theorem MessageRead.framesTaken {capacity : Nat} {deadline : Option Deadline} {assembly : Assembly}
    {outcome : Except Stop Message} (read : MessageRead capacity deadline assembly entries outcome)
    (settled : Settled outcome) :
    ∃ frames body after, entries = body ++ after ∧ FramesTaken frames body ∧
      (∀ entry ∈ after, entry.access? = none ∧ entry.frame? .toHost = none) ∧
      Accumulates capacity assembly frames entries outcome ∧
      outcome = concluded capacity (frames.foldl (Assembly.addFrame capacity) assembly) := by
  -- By the frames read, with the assembly of the earlier ones general: it is the start of the fold.
  induction read with
  | stopped read => exact absurd settled (not_settled_of_plain read.plain)
  | @last _ _ body after header payload _ read complete finished =>
    refine ⟨[⟨header, payload⟩], body, after, rfl, .last complete read.frameTaken, ?_,
      .last read complete finished, ?_⟩
    · cases finished <;> simp [Entry.access?]
    · cases finished with
      | oversized truncated => simp [concluded, Assembly.addFrame, truncated]
      | whole whole => simp [concluded, Assembly.addFrame, whole]
  | @next _ _ _ first _ header payload _ read incomplete others ih =>
    obtain ⟨frames, body, after, rfl, taken, quiet, accumulates, ending⟩ := ih settled
    refine ⟨⟨header, payload⟩ :: frames, first ++ body, after, by simp,
      .next incomplete read.frameTaken taken, quiet, .next read incomplete others accumulates, ?_⟩
    simpa [Assembly.addFrame] using ending
  | unfinished => exact settled.elim

theorem concluded_of_holds {capacity : Nat} {assembly : Assembly} {content : List UInt8}
    (holds : assembly.Holds capacity content) :
    concluded capacity assembly =
      if content.length ≤ capacity then .ok (Message.ofBytes content)
      else .error (.fault (.tooSmall content.length capacity)) := by
  unfold concluded
  cases truncated : assembly.truncated with
  | true =>
    have long : ¬content.length ≤ capacity := Nat.not_le.mpr (holds.truncated.mp truncated)
    simp [long, holds.total]
  | false =>
    have short : content.length ≤ capacity :=
      Nat.le_of_not_lt fun long => by simp [holds.truncated.mpr long] at truncated
    simp [short, holds.whole truncated]

theorem MessageRead.reassembles {capacity : Nat} {deadline : Option Deadline}
    {outcome : Except Stop Message} {ending : List Entry}
    (read : MessageRead capacity deadline {} entries outcome) (settled : Settled outcome)
    (quiet : ∀ entry ∈ ending, entry.access? = none ∧ entry.frame? .toHost = none) :
    Reassembles capacity outcome (entries ++ ending) := by
  obtain ⟨segments, body, after, rfl, taken, still, accumulates, concludes⟩ :=
    read.framesTaken settled
  have holds := (Assembly.Holds.start capacity).addFrames taken.counted
  have silent : ∀ entry ∈ after ++ ending, entry.access? = none ∧ entry.frame? .toHost = none :=
    List.forall_mem_append.mpr ⟨still, quiet⟩
  refine ⟨segments, body, after, ending, by simp, taken, fun entry member =>
    (silent entry member).1, ?_, ?_, accumulates, fun count => ?_, ?_⟩
  -- What follows the last frame touches no register, so the views of the half are those of its
  -- frames.
  · have unread : Trace.reads Register.controllerWindow (after ++ ending) = [] :=
      reads_eq_nil_of_untouched fun entry member => (silent entry member).1
    rw [← taken.reads, List.append_assoc, Trace.reads_append, unread, List.append_nil]
  · have unshown : Trace.frames .toHost (after ++ ending) = [] :=
      List.filterMap_eq_nil_iff.mpr fun entry member => (silent entry member).2
    rw [← taken.frames, List.append_assoc, Trace.frames_append, unshown, List.append_nil]
  · refine ((Assembly.Holds.start capacity).addFrames fun segment member => ?_).bounded
    exact taken.counted segment (List.mem_of_mem_take member)
  · rw [concludes, concluded_of_holds holds]
    rfl

theorem ReadHalf.reassembles {capacity : Nat} {deadline : Option Deadline}
    {outcome : Except Stop Message} (half : ReadHalf capacity deadline entries outcome)
    (settled : Settled outcome) : Reassembles capacity outcome entries := by
  cases half with
  | complete read => exact read.reassembles settled (by simp [Entry.access?])
  | failed read => exact read.reassembles settled (by simp [Entry.access?])
  | abandoned _ read => simpa using read.reassembles settled (List.forall_mem_nil _)

end

/-- On any hardware, a receive or an exchange that ends with a message, or with one too large for
its reader, has read whole frames and nothing else; its outcome is their content. -/
theorem read_reassembles_frames {σ : Type} [Registers σ] [Clock σ] [Registers.Answers σ]
    (link : Link) (blocking : Bool) (request : Message) (route : Route) (timeout capacity : Nat)
    (world : World σ) :
    (Settled ((receive link blocking).outcome world) → ∃ half,
      (receive link blocking).added world =
        .event (.phaseChanged .idle .awaitingResponse) :: half ∧
      Reassembles link.device.maxLength ((receive link blocking).outcome world) half) ∧
    (Settled ((sendAndAwait link request route timeout capacity).outcome world) → ∃ sending half,
      (sendAndAwait link request route timeout capacity).added world =
        sending ++ .event (.phaseChanged .sending .awaitingResponse) :: half ∧
      (∀ entry ∈ sending, Outbound entry) ∧
      Reassembles capacity ((sendAndAwait link request route timeout capacity).outcome world)
        half) := by
  constructor
  · intro settled
    obtain ⟨⟨deadline, half, read, shape⟩, -⟩ := (receive_ensures link blocking).holds world
    exact ⟨half, shape, read.reassembles settled⟩
  · intro settled
    obtain ⟨exchanged, -⟩ := (sendAndAwait_ensures link request route timeout capacity).holds world
    generalize (sendAndAwait link request route timeout capacity).added world = entries
      at exchanged ⊢
    generalize (sendAndAwait link request route timeout capacity).outcome world = outcome at *
    cases exchanged with
    | unsent half => exact absurd settled (not_settled_of_plain half.plain)
    | read half reading => exact ⟨_, _, rfl, half.outbound, reading.reassembles settled⟩

/-- A recorded controller with two frames waiting, each of them ending inside a word. -/
def twoWaiting : World (Timed Bus.Replay) where
  hardware :=
    ⟨⟨[0x08000008], [0x08040008], [0x00030007, 0xAA030201, 0x80020007, 0xBBBB0504]⟩, 0⟩

/-- A receive joins the five bytes without their padding; an exchange that can take four is told
that five are needed. -/
theorem padding_is_left_out :
    ((receive (.ofConfig {} 0xFED1A000 8) true).outcome twoWaiting).toOption.map Message.bytes =
        some [1, 2, 3, 4, 5] ∧
      (∃ half, (receive (.ofConfig {} 0xFED1A000 8) true).added twoWaiting =
          .event (.phaseChanged .idle .awaitingResponse) :: half ∧
        Reassembles 0x1000 ((receive (.ofConfig {} 0xFED1A000 8) true).outcome twoWaiting) half) ∧
      ∃ sending half,
        (sendAndAwait (.ofConfig {} 0xFED1A000 8) (.ofBytes [6]) ⟨0, 7⟩ 0 4).added twoWaiting =
          sending ++ .event (.phaseChanged .sending .awaitingResponse) :: half ∧
        (∀ entry ∈ sending, Outbound entry) ∧
        Reassembles 4
          ((sendAndAwait (.ofConfig {} 0xFED1A000 8) (.ofBytes [6]) ⟨0, 7⟩ 0 4).outcome twoWaiting)
          half :=
  ⟨by decide +kernel,
    (read_reassembles_frames (.ofConfig {} 0xFED1A000 8) true .empty ⟨0, 7⟩ 0 4 twoWaiting).1
      (by decide +kernel),
    (read_reassembles_frames (.ofConfig {} 0xFED1A000 8) true (.ofBytes [6]) ⟨0, 7⟩ 0 4
      twoWaiting).2 (by decide +kernel)⟩

end Op

end HeciMailbox
