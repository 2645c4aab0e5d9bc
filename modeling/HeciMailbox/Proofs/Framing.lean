import HeciMailbox.Proofs.Conveyance
import HeciMailbox.Proofs.Feed
import HeciMailbox.Proofs.Reassembly

/-! Where a read leaves the framing of the words it takes.

The ring gives words, not frames. A reader that starts at a header takes whole frames, and stops
between two of them or, if its deadline passes at the wrong moment, behind a header whose body it
leaves in the ring. -/

set_option autoImplicit false

namespace HeciMailbox

@[simp] def Stop.Overflows : Stop → Prop
  | .fault (.overflow ..) => True
  | .fault .notPresent | .fault (.timeout _) | .fault (.tooSmall ..) | .fault (.badLength ..)
  | .fault .noData | .trap _ | .unfinished => False

namespace Frame

/-- Words are cut into frames in one way only. -/
theorem framing_unique {taken frames : List Segment} {tail : List UInt32}
    (counted : ∀ frame ∈ taken, frame.payload.length = frame.header.words)
    (measured : ∀ frame ∈ frames, frame.payload.length = frame.header.words)
    (same : frames.flatMap Segment.words = taken.flatMap Segment.words ++ tail) :
    ∃ rest, frames = taken ++ rest ∧ tail = rest.flatMap Segment.words := by
  induction taken generalizing frames with
  | nil => exact ⟨frames, rfl, same.symm⟩
  | cons segment others ih =>
    cases frames with
    | nil => simp [Segment.words] at same
    | cons first more =>
      obtain ⟨here, further⟩ := List.forall_mem_cons.mp counted
      obtain ⟨there, onward⟩ := List.forall_mem_cons.mp measured
      simp only [List.flatMap_cons, Segment.words, List.cons_append, List.cons.injEq,
        List.append_assoc] at same
      obtain ⟨raw, bodies⟩ := same
      have header : first.header = segment.header := congrArg Header.mk raw
      have length : first.payload.length = segment.payload.length := by rw [there, here, header]
      obtain ⟨payload, bodies⟩ := List.append_inj bodies length
      obtain ⟨rest, rfl, rfl⟩ := ih further onward bodies
      obtain rfl : first = segment := by
        cases first
        cases segment
        simp_all only
      exact ⟨rest, rfl, rfl⟩

end Frame

namespace Op

theorem FramesTaken.conveys {segments : List Frame.Segment} {entries : List Entry}
    (taken : FramesTaken segments entries) :
    Frame.Conveys segments (segments.flatMap Frame.Segment.content) := by
  induction taken with
  | last complete taken => simpa using Frame.Conveys.last taken.counted complete
  | next incomplete taken _ ih => exact .next taken.counted incomplete ih

/-- A read that starts at the first of `frames` and leaves `tail` unread. -/
inductive ReadOff (capacity : Nat) (frames : List Frame.Segment) (tail : List UInt32) :
    Except Stop Message → Prop where
  | whole {taken rest : List Frame.Segment} {bytes : List UInt8} {outcome : Except Stop Message} :
    frames = taken ++ rest → Frame.Conveys taken bytes → tail = rest.flatMap Frame.Segment.words →
    outcome = (if bytes.length ≤ capacity then .ok (Message.ofBytes bytes)
      else .error (.fault (.tooSmall bytes.length capacity))) →
    ReadOff capacity frames tail outcome
  /-- Some frames of a message, but not its last. -/
  | between {taken rest : List Frame.Segment} {stop : Stop} : frames = taken ++ rest →
    (∀ frame ∈ taken, frame.header.complete = false) → tail = rest.flatMap Frame.Segment.words →
    stop.Plain → ¬stop.Overflows → ReadOff capacity frames tail (.error stop)
  /-- Some frames of a message, and the header of the next. -/
  | inside {taken rest : List Frame.Segment} {frame : Frame.Segment} {stop : Stop} :
    frames = taken ++ frame :: rest → (∀ frame ∈ taken, frame.header.complete = false) →
    0 < frame.header.words → tail = frame.payload ++ rest.flatMap Frame.Segment.words →
    stop.Plain → ¬stop.Overflows → ReadOff capacity frames tail (.error stop)

section

variable {depth : UInt8} {entries : List Entry}

/-! ### Looks at a status that makes sense -/

theorem depth_of_usable {csr : Csr} {cursors : Cursors} (usual : usable csr = .ok cursors)
    (coherent : (Entry.read Register.controllerCsr csr.raw).Coherent depth) :
    cursors.depth = depth := by
  obtain ⟨here, rfl, -⟩ := usable_eq_ok.mp usual
  exact (coherent csr.raw (by simp) here).2

theorem not_overflows_of_usable {csr : Csr} {stop : Stop} (wrong : usable csr = .error stop)
    (coherent : (Entry.read Register.controllerCsr csr.raw).Coherent depth) : ¬stop.Overflows := by
  cases absent : csr.absent with
  | true =>
    simp only [usable, absent, if_true, Except.error.injEq] at wrong
    simp [← wrong]
  | false =>
    have within := (coherent csr.raw (by simp) absent).1
    simp [usable, absent, within] at wrong

theorem Waited.not_overflows {α : Type} {accept : Cursors → Option α} {deadline : Deadline}
    {outcome : Except Stop α} {stop : Stop}
    (waited : Waited Register.controllerCsr (whenUsable accept) deadline entries outcome)
    (failed : outcome = .error stop) (coherent : ∀ entry ∈ entries, entry.Coherent depth) :
    ¬stop.Overflows := by
  induction waited with
  | found => cases failed
  | @stopped csr other judged =>
    cases failed
    obtain wrong : usable csr = .error stop := by
      unfold whenUsable at judged
      cases usual : usable csr with
      | ok => simp [usual, Except.map] at judged
      | error => simpa [usual, Except.map] using judged
    exact not_overflows_of_usable wrong (coherent _ (by simp))
  | late => cases failed; exact id
  | again _ _ ih => exact ih failed (List.forall_mem_cons.mp coherent).2
  | unfinished => cases failed; exact id

theorem Awaited.not_overflows {α : Type} {accept : Cursors → Option α} {deadline : Deadline}
    {stop : Stop}
    (awaited : Awaited Register.controllerCsr (whenUsable accept) deadline entries (.error stop))
    (coherent : ∀ entry ∈ entries, entry.Coherent depth) : ¬stop.Overflows := by
  obtain ⟨rounds, rfl, waited⟩ := awaited
  exact waited.not_overflows rfl (List.forall_mem_cons.mp coherent).2

theorem Arrived.not_overflows {deadline : Option Deadline} {stop : Stop}
    (arrived : Arrived deadline entries (.error stop))
    (coherent : ∀ entry ∈ entries, entry.Coherent depth) : ¬stop.Overflows := by
  cases deadline with
  | some deadline => exact Awaited.not_overflows arrived coherent
  | none =>
    obtain ⟨csr, rfl, judged⟩ := arrived
    unfold filledNow at judged
    split at judged
    · split at judged
      · cases judged; exact id
      · cases judged
    · next wrong =>
      cases judged
      exact not_overflows_of_usable wrong (coherent _ (by simp))

theorem BodyAwaited.not_overflows {words : Nat} {stop : Stop}
    (awaited : BodyAwaited words entries (.error stop))
    (coherent : ∀ entry ∈ entries, entry.Coherent depth) : ¬stop.Overflows := by
  cases awaited with
  | awaited _ awaited => exact awaited.not_overflows coherent

theorem BodyAwaited.pos {words : Nat} {stop : Stop}
    (awaited : BodyAwaited words entries (.error stop)) : 0 < words := by
  cases awaited with
  | awaited positive => exact positive

theorem Arrived.depth_eq {deadline : Option Deadline} {cursors : Cursors}
    (arrived : Arrived deadline entries (.ok cursors))
    (coherent : ∀ entry ∈ entries, entry.Coherent depth) : cursors.depth = depth := by
  cases deadline with
  | some deadline =>
    obtain ⟨earlier, csr, seen, rfl, -, usual, accepted⟩ := Awaited.last arrived
    unfold filledAny at accepted
    split at accepted
    · cases accepted
    · cases accepted
      exact depth_of_usable usual (coherent _ (by simp))
  | none =>
    obtain ⟨csr, rfl, judged⟩ := arrived
    unfold filledNow at judged
    split at judged
    · next seen usual =>
      split at judged
      · cases judged
      · cases judged
        exact depth_of_usable usual (coherent _ (by simp))
    · cases judged

/-! ### One frame -/

theorem reads_header (arrival rest : List Entry) (raw : UInt32)
    (pending : ∀ entry ∈ arrival, entry.Pending) :
    Trace.reads Register.controllerWindow
      (arrival ++ .read Register.controllerWindow raw :: rest) =
        raw :: Trace.reads Register.controllerWindow rest := by
  simp [reads_eq_nil_of_pending pending]

theorem head_of_reads {frames : List Frame.Segment} {header : Frame.Header}
    {later tail : List UInt32}
    (same : frames.flatMap Frame.Segment.words = header.raw :: later ++ tail) :
    ∃ frame rest, frames = frame :: rest ∧ frame.header = header ∧
      later ++ tail = frame.payload ++ rest.flatMap Frame.Segment.words := by
  cases frames with
  | nil => simp at same
  | cons frame rest =>
    simp only [List.flatMap_cons, Frame.Segment.words, List.cons_append, List.cons.injEq] at same
    exact ⟨frame, rest, rfl, congrArg Frame.Header.mk same.1, same.2.symm⟩

/-- A frame that is not read to its end is left whole, or without its header. -/
theorem FrameRead.stopped {deadline : Option Deadline} {stop : Stop}
    {frames : List Frame.Segment} {tail : List UInt32}
    (read : FrameRead deadline entries (.error stop))
    (coherent : ∀ entry ∈ entries, entry.Coherent depth)
    (fits : ∀ frame ∈ frames, frame.Fits depth)
    (same : frames.flatMap Frame.Segment.words =
      Trace.reads Register.controllerWindow entries ++ tail) :
    ¬stop.Overflows ∧ (tail = frames.flatMap Frame.Segment.words ∨
      ∃ frame rest, frames = frame :: rest ∧ 0 < frame.header.words ∧
        tail = frame.payload ++ rest.flatMap Frame.Segment.words) := by
  -- A header that claims too much is none of the feed's, so the ring is never thrown away.
  have short : ∀ {arrival later : List Entry} {cursors : Cursors} {header : Frame.Header},
      Arrived deadline arrival (.ok cursors) → cursors.depth.toNat ≤ header.words →
      entries = arrival ++ .read Register.controllerWindow header.raw :: later → False := by
    rintro arrival later cursors header arrived oversized rfl
    rw [reads_header _ _ _ arrived.pending] at same
    obtain ⟨frame, rest, rfl, rfl, -⟩ := head_of_reads same
    have fit := (fits frame (by simp)).short
    rw [arrived.depth_eq fun entry member => coherent entry (by simp [member])] at oversized
    omega
  cases read with
  | missing arrived =>
    refine ⟨arrived.not_overflows coherent, .inl ?_⟩
    simpa [reads_eq_nil_of_pending arrived.pending] using same.symm
  | oversized arrived oversized => exact (short arrived oversized rfl).elim
  | undiscarded arrived oversized => exact (short arrived oversized rfl).elim
  | cutOff arrived _ awaited =>
    rw [reads_header _ _ _ arrived.pending, reads_eq_nil_of_pending awaited.pending] at same
    obtain ⟨frame, rest, rfl, rfl, left⟩ := head_of_reads same
    refine ⟨awaited.not_overflows fun entry member => coherent entry (by simp [member]),
      .inr ⟨frame, rest, rfl, awaited.pos, left⟩⟩

/-! ### One message -/

/-- A read that does not come to the end of its message stops in the frame behind those it took. -/
theorem MessageRead.broken {capacity : Nat} {deadline : Option Deadline} {assembly : Assembly}
    {outcome : Except Stop Message} (read : MessageRead capacity deadline assembly entries outcome)
    (unsettled : ¬Settled outcome) :
    ∃ (taken : List Frame.Segment) (body rest : List Entry) (stop : Stop),
      entries = body ++ rest ∧ outcome = .error stop ∧
      (∀ frame ∈ taken, frame.payload.length = frame.header.words) ∧
      (∀ frame ∈ taken, frame.header.complete = false) ∧
      Trace.reads Register.controllerWindow body = taken.flatMap Frame.Segment.words ∧
      (rest = [] ∧ stop = .unfinished ∨ ∃ deadline, FrameRead deadline rest (.error stop)) := by
  induction read with
  | @stopped deadline _ entries stop read =>
    exact ⟨[], [], entries, stop, rfl, rfl, by simp, by simp, rfl, .inr ⟨deadline, read⟩⟩
  | last _ _ finished => cases finished <;> exact absurd trivial unsettled
  | @next _ _ _ first _ header payload _ read incomplete _ ih =>
    obtain ⟨taken, body, rest, stop, rfl, rfl, counted, marks, reads, last⟩ := ih unsettled
    have frame := read.frameTaken
    refine ⟨⟨header, payload⟩ :: taken, first ++ body, rest, stop, by simp, rfl, ?_, ?_, ?_, last⟩
    · exact List.forall_mem_cons.mpr ⟨frame.counted, counted⟩
    · exact List.forall_mem_cons.mpr ⟨incomplete, marks⟩
    · rw [Trace.reads_append, frame.reads, reads, List.flatMap_cons]
  | unfinished => exact ⟨[], [], [], .unfinished, rfl, rfl, by simp, by simp, rfl, .inl ⟨rfl, rfl⟩⟩

variable {capacity : Nat} {deadline : Option Deadline} {outcome : Except Stop Message}
  {frames : List Frame.Segment} {tail : List UInt32}

theorem MessageRead.readOff_of_settled (read : MessageRead capacity deadline {} entries outcome)
    (settled : Settled outcome) (fits : ∀ frame ∈ frames, frame.Fits depth)
    (same : frames.flatMap Frame.Segment.words =
      Trace.reads Register.controllerWindow entries ++ tail) :
    ReadOff capacity frames tail outcome := by
  obtain ⟨taken, body, after, rfl, took, quiet, -, ending⟩ := read.framesTaken settled
  have nothing : Trace.reads Register.controllerWindow after = [] :=
    reads_eq_nil_of_untouched fun entry member => (quiet entry member).1
  rw [Trace.reads_append, nothing, List.append_nil, took.reads] at same
  obtain ⟨rest, split, left⟩ := Frame.framing_unique took.counted
    (fun frame member => (fits frame member).counted) same
  refine .whole split took.conveys left ?_
  rw [ending, concluded_of_holds ((Assembly.Holds.start capacity).addFrames took.counted)]
  rfl

theorem MessageRead.readOff (read : MessageRead capacity deadline {} entries outcome)
    (coherent : ∀ entry ∈ entries, entry.Coherent depth)
    (fits : ∀ frame ∈ frames, frame.Fits depth)
    (same : frames.flatMap Frame.Segment.words =
      Trace.reads Register.controllerWindow entries ++ tail) :
    ReadOff capacity frames tail outcome := by
  by_cases settled : Settled outcome
  · exact read.readOff_of_settled settled fits same
  · obtain ⟨taken, body, rest, stop, rfl, rfl, counted, marks, reads, last⟩ := read.broken settled
    have plain : stop.Plain := by
      obtain plain | ⟨needed, rfl⟩ := read.plain rfl
      · exact plain
      · exact absurd trivial settled
    rw [Trace.reads_append, reads, List.append_assoc] at same
    obtain ⟨more, rfl, left⟩ := Frame.framing_unique counted
      (fun frame member => (fits frame member).counted) same
    obtain ⟨rfl, rfl⟩ | ⟨deadline, stopped⟩ := last
    · exact .between rfl marks left plain id
    · obtain ⟨calm, whole | ⟨frame, further, rfl, positive, cut⟩⟩ := stopped.stopped
        (fun entry member => coherent entry (by simp [member]))
        (fun frame member => fits frame (by simp [member])) left.symm
      · exact .between rfl marks whole plain calm
      · exact .inside rfl marks positive cut plain calm

theorem ReadHalf.readOff (half : ReadHalf capacity deadline entries outcome)
    (coherent : ∀ entry ∈ entries, entry.Coherent depth)
    (fits : ∀ frame ∈ frames, frame.Fits depth)
    (same : frames.flatMap Frame.Segment.words =
      Trace.reads Register.controllerWindow entries ++ tail) :
    ReadOff capacity frames tail outcome := by
  cases half with
  | complete read | failed read =>
    refine read.readOff (fun entry member => coherent entry (by simp [member])) fits ?_
    simpa [List.filterMap_cons] using same
  | abandoned _ read => exact read.readOff coherent fits same

end

end Op

end HeciMailbox
