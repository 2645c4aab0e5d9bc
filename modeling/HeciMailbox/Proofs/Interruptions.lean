import HeciMailbox.Proofs.NextMessage

/-! Runs in which calls are interrupted.

A call that stops leaves the ring where it is, and nothing is remembered of the words it has taken.
The next read starts at whatever word comes next. It reads a message of the peer as long as no call
has stopped inside a frame, and a whole one as long as none has stopped inside a message. -/

set_option autoImplicit false

namespace HeciMailbox

namespace Frame

/-- Where a reader stands: how many words of a frame it has still to take, and whether the message
goes on behind that frame. -/
structure Place where
  due : Nat := 0
  goesOn : Bool := false
  deriving DecidableEq

namespace Place

def next (place : Place) (word : UInt32) : Place :=
  if place.due = 0 then ⟨(Header.mk word).words, !(Header.mk word).complete⟩
  else { place with due := place.due - 1 }

/-- The place of a reader that has started at a header and taken these words. -/
def after (words : List UInt32) : Place := words.foldl next {}

theorem foldl_body {words : List UInt32} {due : Nat} (goesOn : Bool)
    (enough : words.length ≤ due) :
    words.foldl next ⟨due, goesOn⟩ = ⟨due - words.length, goesOn⟩ := by
  induction words generalizing due with
  | nil => rfl
  | cons word rest ih =>
    simp only [List.length_cons] at enough
    have more : due ≠ 0 := by omega
    have step : next ⟨due, goesOn⟩ word = ⟨due - 1, goesOn⟩ := by simp [next, more]
    rw [List.foldl_cons, step, ih (by omega), List.length_cons, Nat.sub_sub, Nat.add_comm]

theorem foldl_header (header : Header) (goesOn : Bool) (rest : List UInt32) :
    (header.raw :: rest).foldl next ⟨0, goesOn⟩ =
      rest.foldl next ⟨header.words, !header.complete⟩ := rfl

theorem foldl_frame {frame : Segment} (counted : frame.payload.length = frame.header.words)
    (goesOn : Bool) (rest : List UInt32) :
    (frame.words ++ rest).foldl next ⟨0, goesOn⟩ =
      rest.foldl next ⟨0, !frame.header.complete⟩ := by
  rw [Segment.words, List.cons_append, foldl_header, List.foldl_append,
    foldl_body _ (Nat.le_of_eq counted), counted, Nat.sub_self]

end Place

def Ends (frames : List Segment) : Prop := ∀ last ∈ frames.getLast?, last.header.complete = true

instance (frames : List Segment) : Decidable (Ends frames) :=
  inferInstanceAs (Decidable (∀ last ∈ frames.getLast?, _))

theorem ends_nil : Ends [] := fun _ member => nomatch member

theorem Ends.append {first second : List Segment} (ends : Ends first) (others : Ends second) :
    Ends (first ++ second) := by
  intro last member
  rw [List.getLast?_append] at member
  cases there : second.getLast? with
  | none => exact ends last (by simpa [there] using member)
  | some frame => exact others last (by simpa [there] using member)

theorem Conveys.ends {frames : List Segment} {bytes : List UInt8} (conveys : Conveys frames bytes) :
    Ends frames := by
  induction conveys with
  | last _ complete => simpa [Ends] using complete
  | next _ _ others ih =>
    intro last member
    exact ih last (by simpa [List.getLast?_cons_of_ne_nil others.ne_nil] using member)

def first? : List Segment → Option (List UInt8)
  | [] => none
  | frame :: rest =>
    if frame.header.complete then some frame.content else (first? rest).map (frame.content ++ ·)

theorem Conveys.first?_append {frames : List Segment} {bytes : List UInt8}
    (conveys : Conveys frames bytes) (after : List Segment) :
    first? (frames ++ after) = some bytes := by
  induction conveys with
  | last _ complete => simp [first?, complete]
  | next _ incomplete _ ih => simp [first?, incomplete, ih]

theorem whole_of_due {words : List UInt32} (goesOn : Bool)
    (settled : (words.foldl Place.next ⟨0, goesOn⟩).due = 0) :
    ∃ taken : List Segment, (∀ frame ∈ taken, frame.payload.length = frame.header.words) ∧
      words = taken.flatMap Segment.words := by
  induction length : words.length using Nat.strongRecOn generalizing words goesOn with
  | ind length ih =>
    subst length
    cases words with
    | nil => exact ⟨[], by simp, rfl⟩
    | cons raw rest =>
      have opened := Place.foldl_header ⟨raw⟩ goesOn rest
      by_cases enough : (Header.mk raw).words ≤ rest.length
      · have split : raw :: rest = Segment.words ⟨⟨raw⟩, rest.take (Header.mk raw).words⟩ ++
            rest.drop (Header.mk raw).words := by
          rw [Segment.words, List.cons_append, List.take_append_drop]
        have counted : (rest.take (Header.mk raw).words).length = (Header.mk raw).words :=
          List.length_take_of_le enough
        rw [split, Place.foldl_frame counted] at settled
        have shorter : (rest.drop (Header.mk raw).words).length < (raw :: rest).length := by
          rw [List.length_drop, List.length_cons]
          omega
        obtain ⟨taken, whole, others⟩ := ih _ shorter _ settled rfl
        exact ⟨_ :: taken, List.forall_mem_cons.mpr ⟨counted, whole⟩, by
          rw [List.flatMap_cons, ← others, ← split]⟩
      · have short := Place.foldl_body (!(Header.mk raw).complete) (Nat.le_of_not_le enough)
        rw [opened, short] at settled
        simp only at settled
        omega

theorem ends_of_place {taken : List Segment} (goesOn : Bool)
    (counted : ∀ frame ∈ taken, frame.payload.length = frame.header.words)
    (ended : ((taken.flatMap Segment.words).foldl Place.next ⟨0, goesOn⟩).goesOn = false) :
    Ends taken := by
  induction taken generalizing goesOn with
  | nil => simp [Ends]
  | cons frame rest ih =>
    obtain ⟨here, others⟩ := List.forall_mem_cons.mp counted
    rw [List.flatMap_cons, Place.foldl_frame here] at ended
    cases rest with
    | nil => simpa [Ends] using ended
    | cons second rest =>
      intro last member
      exact ih _ others ended last (by simpa using member)

end Frame

namespace Op

/-! ### What the calls take -/

section

variable {depth : UInt8} {entries : List Entry} {frames : List Frame.Segment} {tail : List UInt32}

theorem FrameDiscarded.whole (discarded : FrameDiscarded depth entries (.ok ()))
    (fits : ∀ frame ∈ frames, frame.Fits depth)
    (same : frames.flatMap Frame.Segment.words =
      Trace.reads Register.controllerWindow entries ++ tail) :
    ∃ frame : Frame.Segment, frame.payload.length = frame.header.words ∧
      Trace.reads Register.controllerWindow entries = frame.words := by
  cases discarded with
  | @oversized header discarding _ oversized =>
    have first := reads_header [] discarding header.raw (by simp)
    rw [List.nil_append] at first
    rw [first] at same
    obtain ⟨frame, rest, rfl, rfl, -⟩ := head_of_reads same
    have fit := (fits frame (by simp)).short
    omega
  | @taken header _ waiting acknowledgement payload _ awaited counted acknowledged =>
    have still : Trace.reads Register.controllerWindow acknowledgement = [] := by
      obtain ⟨csr, rfl⟩ := acknowledged
      rfl
    refine ⟨⟨header, payload⟩, counted, ?_⟩
    simp [reads_eq_nil_of_pending awaited.pending, still, Function.comp_def, Frame.Segment.words]

theorem FramesDiscarded.whole {count : Nat} {outcome : Except Stop Nat}
    (discarded : FramesDiscarded count entries outcome) (ended : outcome.isOk = true)
    (coherent : ∀ entry ∈ entries, entry.Coherent depth)
    (fits : ∀ frame ∈ frames, frame.Fits depth)
    (same : frames.flatMap Frame.Segment.words =
      Trace.reads Register.controllerWindow entries ++ tail) :
    ∃ taken : List Frame.Segment, (∀ frame ∈ taken, frame.payload.length = frame.header.words) ∧
      Trace.reads Register.controllerWindow entries = taken.flatMap Frame.Segment.words := by
  induction discarded generalizing frames with
  | limit => exact ⟨[], by simp, rfl⟩
  | stopped => cases ended
  | empty => exact ⟨[], by simp, rfl⟩
  | undiscarded => cases ended
  | @next _ csr cursors body rest _ usual _ discarded _ ih =>
    obtain ⟨here, others⟩ := List.forall_mem_cons.mp coherent
    obtain rfl := depth_of_usable usual here
    have reads : Trace.reads Register.controllerWindow
        (.read Register.controllerCsr csr.raw :: (body ++ rest)) =
        Trace.reads Register.controllerWindow body ++ Trace.reads Register.controllerWindow rest :=
      Trace.reads_append _ body rest
    rw [reads, List.append_assoc] at same
    obtain ⟨frame, counted, first⟩ := discarded.whole fits same
    rw [first, ← List.flatMap_singleton Frame.Segment.words frame] at same
    obtain ⟨more, rfl, left⟩ := Frame.framing_unique (List.forall_mem_singleton.mpr counted)
      (fun frame member => (fits frame member).counted) same
    obtain ⟨taken, whole, onward⟩ := ih ended
      (fun entry member => others entry (List.mem_append_right _ member))
      (fun frame member => fits frame (List.mem_cons_of_mem _ member)) left.symm
    exact ⟨frame :: taken, List.forall_mem_cons.mpr ⟨counted, whole⟩, by
      rw [reads, first, onward, List.flatMap_cons]⟩

theorem Drained.whole {outcome : Except Stop Nat} (drained : Drained entries outcome)
    (ended : outcome.isOk = true) (coherent : ∀ entry ∈ entries, entry.Coherent depth)
    (fits : ∀ frame ∈ frames, frame.Fits depth)
    (same : frames.flatMap Frame.Segment.words =
      Trace.reads Register.controllerWindow entries ++ tail) :
    ∃ taken : List Frame.Segment, (∀ frame ∈ taken, frame.payload.length = frame.header.words) ∧
      Trace.reads Register.controllerWindow entries = taken.flatMap Frame.Segment.words := by
  cases drained with
  | nothing discarded => exact discarded.whole ended coherent fits same
  | @removed body count _ discarded =>
    have reads : Trace.reads Register.controllerWindow (body ++ [.event (.drained count)]) =
        Trace.reads Register.controllerWindow body := by
      rw [Trace.reads_append]
      exact List.append_nil _
    rw [reads] at same ⊢
    exact discarded.whole ended (fun entry member => coherent entry (by simp [member])) fits same
  | stopped => cases ended

theorem ReadHalf.whole {capacity : Nat} {deadline : Option Deadline} {message : Message}
    (half : ReadHalf capacity deadline entries (.ok message)) :
    ∃ taken bytes, Frame.Conveys taken bytes ∧ message = .ofBytes bytes ∧
      Trace.reads Register.controllerWindow entries = taken.flatMap Frame.Segment.words := by
  obtain ⟨taken, _, _, _, -, took, -, reads, -, -, -, ending⟩ := half.reassembles trivial
  refine ⟨taken, _, took.conveys, ?_, reads⟩
  simp only at ending
  split at ending
  · exact Except.ok.inj ending
  · cases ending

end

/-- A call that fails does not stop inside a frame. -/
def Uncut (_ : Call) (outcome : Except Stop Unit) (entries : List Entry) : Prop :=
  outcome.isOk = false →
    (Frame.Place.after (Trace.reads Register.controllerWindow entries)).due = 0

/-- A call that fails does not stop inside a message, and neither does a drain. -/
def Unbroken (call : Call) (outcome : Except Stop Unit) (entries : List Entry) : Prop :=
  outcome.isOk = false ∨ call.isDrain = true →
    Frame.Place.after (Trace.reads Register.controllerWindow entries) = {}

instance (call : Call) (outcome : Except Stop Unit) (entries : List Entry) :
    Decidable (Uncut call outcome entries) :=
  inferInstanceAs (Decidable (_ → _))

instance (call : Call) (outcome : Except Stop Unit) (entries : List Entry) :
    Decidable (Unbroken call outcome entries) :=
  inferInstanceAs (Decidable (_ → _))

theorem ends_of_unbroken {call : Call} {outcome : Except Stop Unit} {entries : List Entry}
    {taken : List Frame.Segment} (unbroken : Unbroken call outcome entries)
    (applies : outcome.isOk = false ∨ call.isDrain = true)
    (counted : ∀ frame ∈ taken, frame.payload.length = frame.header.words)
    (reads : Trace.reads Register.controllerWindow entries = taken.flatMap Frame.Segment.words) :
    Frame.Ends taken := by
  have place := unbroken applies
  rw [reads] at place
  exact Frame.ends_of_place false counted (congrArg Frame.Place.goesOn place)

theorem Sent.unread {link : Link} {message : Message} {route : Route} {entries : List Entry}
    {outcome : Except Stop Unit} (sent : Sent link message route entries outcome) :
    Trace.reads Register.controllerWindow entries = [] := by
  cases sent with
  | complete half =>
    rw [Trace.reads_append, Trace.reads_eq_nil half.outbound (by decide)]
    rfl
  | stopped half => exact Trace.reads_eq_nil half.outbound (by decide)

section

variable {link : Link} {call : Call} {outcome : Except Stop Unit} {depth : UInt8}
  {entries : List Entry} {frames : List Frame.Segment} {tail : List UInt32}

theorem Called.whole_of_ok (called : Called link call entries outcome) (ended : outcome = .ok ())
    (coherent : ∀ entry ∈ entries, entry.Coherent depth)
    (fits : ∀ frame ∈ frames, frame.Fits depth)
    (same : frames.flatMap Frame.Segment.words =
      Trace.reads Register.controllerWindow entries ++ tail) :
    ∃ taken : List Frame.Segment, (∀ frame ∈ taken, frame.payload.length = frame.header.words) ∧
      Trace.reads Register.controllerWindow entries = taken.flatMap Frame.Segment.words ∧
      (call.isDrain = true ∨ Frame.Ends taken) := by
  cases called with
  | send sent => exact ⟨[], List.forall_mem_nil _, sent.unread, .inr Frame.ends_nil⟩
  | bringUp broughtUp =>
    exact ⟨[], List.forall_mem_nil _, Trace.reads_eq_nil broughtUp.aside (by decide),
      .inr Frame.ends_nil⟩
  | reset reset =>
    exact ⟨[], List.forall_mem_nil _, Trace.reads_eq_nil reset.aside (by decide),
      .inr Frame.ends_nil⟩
  | @sendAndAwait _ _ _ _ _ outcome exchanged =>
    cases outcome with
    | error => cases ended
    | ok message =>
      cases exchanged with
      | @read sending reading _ _ half read =>
        obtain ⟨taken, bytes, conveys, -, reads⟩ := read.whole
        refine ⟨taken, conveys.counted, ?_, .inr conveys.ends⟩
        rw [Trace.reads_append, Trace.reads_eq_nil half.outbound (by decide), ← reads]
        rfl
  | @receive _ _ outcome received =>
    cases outcome with
    | error => cases ended
    | ok message =>
      obtain ⟨deadline, half, read, rfl⟩ := received
      obtain ⟨taken, bytes, conveys, -, reads⟩ := read.whole
      exact ⟨taken, conveys.counted, reads, .inr conveys.ends⟩
  | @drain _ outcome drained =>
    cases outcome with
    | error => cases ended
    | ok count =>
      obtain ⟨taken, counted, reads⟩ := drained.whole rfl coherent fits same
      exact ⟨taken, counted, reads, .inl rfl⟩

theorem Called.whole (called : Called link call entries outcome)
    (coherent : ∀ entry ∈ entries, entry.Coherent depth)
    (fits : ∀ frame ∈ frames, frame.Fits depth)
    (same : frames.flatMap Frame.Segment.words =
      Trace.reads Register.controllerWindow entries ++ tail) (uncut : Uncut call outcome entries) :
    ∃ taken : List Frame.Segment, (∀ frame ∈ taken, frame.payload.length = frame.header.words) ∧
      Trace.reads Register.controllerWindow entries = taken.flatMap Frame.Segment.words ∧
      (Unbroken call outcome entries → Frame.Ends taken) := by
  cases outcome with
  | error stop =>
    obtain ⟨taken, counted, reads⟩ := Frame.whole_of_due false (uncut rfl)
    exact ⟨taken, counted, reads, fun unbroken =>
      ends_of_unbroken unbroken (.inl rfl) counted reads⟩
  | ok =>
    obtain ⟨taken, counted, reads, drain | ends⟩ := called.whole_of_ok rfl coherent fits same
    · exact ⟨taken, counted, reads, fun unbroken =>
        ends_of_unbroken unbroken (.inr drain) counted reads⟩
    · exact ⟨taken, counted, reads, fun _ => ends⟩

end

/-! ### What a run takes -/

section

variable {σ : Type} [Registers σ] [Clock σ]

def EachCall (holds : Call → Except Stop Unit → List Entry → Prop) :
    List (Link × Call) → World σ → Prop
  | [], _ => True
  | (link, call) :: rest, world =>
    holds call ((perform link call).outcome world) ((perform link call).added world) ∧
      EachCall holds rest ((perform link call).reached world)

instance decidableEachCall (holds : Call → Except Stop Unit → List Entry → Prop)
    [∀ call outcome entries, Decidable (holds call outcome entries)] :
    (calls : List (Link × Call)) → (world : World σ) → Decidable (EachCall holds calls world)
  | [], _ => .isTrue trivial
  | (link, call) :: rest, world =>
    have := decidableEachCall holds rest ((perform link call).reached world)
    inferInstanceAs (Decidable (_ ∧ _))

variable [Registers.Answers σ]

/-- A run that starts at a header, and in which no call is cut off inside a frame, takes whole
frames. -/
theorem EachCall.whole {calls : List (Link × Call)} {world : World σ} {depth : UInt8}
    {frames : List Frame.Segment} {tail : List UInt32} (uncut : EachCall Uncut calls world)
    (coherent : ∀ entry ∈ (performAll calls).added world, entry.Coherent depth)
    (fits : ∀ frame ∈ frames, frame.Fits depth)
    (same : frames.flatMap Frame.Segment.words =
      Trace.reads Register.controllerWindow ((performAll calls).added world) ++ tail) :
    ∃ taken rest, frames = taken ++ rest ∧ tail = rest.flatMap Frame.Segment.words ∧
      (EachCall Unbroken calls world → Frame.Ends taken) := by
  have measured : ∀ {frames : List Frame.Segment}, (∀ frame ∈ frames, frame.Fits depth) →
      ∀ frame ∈ frames, frame.payload.length = frame.header.words :=
    fun fits frame member => (fits frame member).counted
  induction calls generalizing world frames with
  | nil =>
    rw [added_performAll_nil] at same
    exact ⟨[], frames, rfl, same.symm, fun _ => Frame.ends_nil⟩
  | cons first rest ih =>
    obtain ⟨link, call⟩ := first
    obtain ⟨here, later⟩ := uncut
    obtain ⟨shape, -⟩ := performAll_cons link call rest world
    rw [shape, List.forall_mem_append] at coherent
    rw [shape, Trace.reads_append, List.append_assoc] at same
    obtain ⟨called, -⟩ := (perform_ensures link call).holds world
    obtain ⟨taken, counted, reads, ends⟩ := called.whole coherent.1 fits same here
    rw [reads] at same
    obtain ⟨more, rfl, left⟩ := Frame.framing_unique counted (measured fits) same
    obtain ⟨onward, others, rfl, gone, ended⟩ := ih later coherent.2
      (fun frame member => fits frame (List.mem_append_right _ member)) left.symm
    refine ⟨taken ++ onward, others, by simp, gone, ?_⟩
    rintro ⟨unbroken, remaining⟩
    exact (ends unbroken).append (ended remaining)

/-- The frames of the feed behind `before`, to the end of their message, make up `message`. -/
def Continues (feed : Feed) (before : List Frame.Segment) (message : Message) : Prop :=
  ∃ frames after bytes, feed.frames = before ++ (frames ++ after) ∧
    Frame.Conveys frames bytes ∧ message = .ofBytes bytes

/-- Let a peer fill the controller ring from a feed, at whatever moments, while a run of calls goes
on that starts at the first frame of a message. If no call of the run fails inside a frame, then a
receive behind it that gives a message gives the content of one message from some frame of it to its
end; if no call fails inside a message and no drain ends there, it gives the whole of one. -/
theorem receive_resumes_at_a_frame (link : Link) (blocking : Bool) (earlier : List (Link × Call))
    (world : World σ) (feed : Feed) (traffic : Traffic) (moves : List Move) (message : Message)
    (stocks : feed.Stocks traffic) (boundary : traffic.popped = feed.first)
    (run : moves.filterMap Move.entry? = (performAll earlier).added world ++
      (receive link blocking).added ((performAll earlier).reached world))
    (permits : traffic.Throughout feed.Permits moves) (uncut : EachCall Uncut earlier world)
    (received : (receive link blocking).outcome ((performAll earlier).reached world) =
      .ok message) :
    ∃ before, Continues feed before message ∧
      (EachCall Unbroken earlier world → Frame.Ends before) := by
  obtain ⟨ran, -⟩ := (performAll_ensures earlier).holds world
  obtain ⟨reads, -⟩ := (receive_ensures link blocking).holds ((performAll earlier).reached world)
  have called : Called link (.receive blocking) _ _ := .receive reads
  obtain ⟨left, spent⟩ := (ran.kept_own.append called.kept_own) 0
  obtain ⟨-, coherent, -, -, words⟩ :=
    Feed.gives_of_left (run ▸ spent) stocks stocks.popped permits
  rw [run, List.forall_mem_append] at coherent
  rw [run, Trace.reads_append, List.append_assoc, boundary, Feed.after_first] at words
  obtain ⟨before, rest, frames, remaining, ends⟩ := uncut.whole coherent.1 feed.fits words
  obtain ⟨deadline, half, read, shape⟩ := reads
  rw [received] at read
  rw [shape] at remaining
  have fits : ∀ frame ∈ rest, frame.Fits feed.depth := fun frame member =>
    feed.fits frame (frames ▸ List.mem_append_right _ member)
  obtain ⟨taken, bytes, conveys, rfl, taking⟩ := read.whole
  obtain ⟨after, rfl, -⟩ := Frame.framing_unique conveys.counted
    (fun frame member => (fits frame member).counted) (remaining.symm.trans (by rw [← taking]; rfl))
  exact ⟨before, ⟨taken, after, bytes, frames, conveys, rfl⟩, ends⟩

end

/-! ### Interruptions that matter, and one that does not -/

def impatient : Link := .ofConfig { receiveMilliseconds := 0 } 0xFED1A000 8

def untouched : Traffic := ⟨8, 8, 0, 0, 0, 0⟩

/-- The peer supplies words of the feed as `counts` says. A receive times out, and the next one
gives something that is no message of the feed. -/
def Strays (world : World (Timed Bus.Replay)) (feed : Feed) (counts : List Nat) : Prop :=
  let reached := (performAll [(impatient, .receive true)]).reached world
  (receive impatient true).outcome world = .error (.fault (.timeout 0)) ∧
  feed.Stocks untouched ∧
  untouched.Throughout feed.Permits
    (Move.weave counts ((performAll [(impatient, .receive true)]).added world ++
      (receive impatient false).added reached)) ∧
  ∃ message, (receive impatient false).outcome reached = .ok message ∧
    ∀ before, Frame.Ends before → ¬Continues feed before message

def disguised : Feed where
  depth := 8
  first := 0
  frames := [⟨⟨0x80040007⟩, [0x80000007]⟩]
  fits := by decide

/-- A recorded controller that supplies the body of that frame too late. -/
def cutFrame : World (Timed Bus.Replay) where
  hardware := ⟨⟨[0x08000008], [0x08010008, 0x08010108, 0x08020108], [0x80040007, 0x80000007]⟩, 0⟩

def parted : Feed where
  depth := 8
  first := 0
  frames := [⟨⟨0x00040007⟩, [0x00000001]⟩, ⟨⟨0x80040007⟩, [0x00000002]⟩]
  fits := by decide

/-- A recorded controller that supplies the second of these frames too late. -/
def cutMessage : World (Timed Bus.Replay) where
  hardware := ⟨⟨[0x08000008], [0x08020008, 0x08020108, 0x08020208, 0x08040208, 0x08040308],
    [0x00040007, 0x00000001, 0x80040007, 0x00000002]⟩, 0⟩

theorem Continues.first? {feed : Feed} {before : List Frame.Segment} {message : Message}
    (continues : Continues feed before message) :
    before.length ≤ feed.frames.length ∧ before = feed.frames.take before.length ∧
      Frame.first? (feed.frames.drop before.length) = some message.bytes := by
  obtain ⟨frames, after, bytes, split, conveys, rfl⟩ := continues
  rw [split, Message.bytes_ofBytes, List.take_left, List.drop_left]
  exact ⟨by simp, rfl, conveys.first?_append after⟩

theorem not_continues {feed : Feed} {message : Message}
    (other : ∀ count ≤ feed.frames.length, Frame.Ends (feed.frames.take count) →
      Frame.first? (feed.frames.drop count) ≠ some message.bytes)
    (before : List Frame.Segment) (ends : Frame.Ends before) : ¬Continues feed before message := by
  intro continues
  obtain ⟨bound, start, first⟩ := continues.first?
  exact other _ bound (start ▸ ends) first

theorem strays_of_cut_frame : Strays cutFrame disguised [0, 0, 1, 0, 0, 0, 0, 0, 1] := by
  refine ⟨by decide +kernel, ⟨?_, ?_, ?_, ?_⟩, by decide +kernel, .empty, by decide +kernel,
    not_continues ?_⟩
  all_goals decide +kernel

theorem strays_of_cut_message :
    Strays cutMessage parted [0, 0, 2, 0, 0, 0, 0, 0, 0, 0, 0, 0, 0, 0, 2] := by
  refine ⟨by decide +kernel, ⟨?_, ?_, ?_, ?_⟩, by decide +kernel, .ofBytes [2, 0, 0, 0],
    by decide +kernel, not_continues ?_⟩
  all_goals decide +kernel

/-- Behind a cut frame the word of a message is taken for a header, and behind a cut message only
its end is given. -/
theorem interrupted_reads_stray :
    (∃ counts, Strays cutFrame disguised counts) ∧ ∃ counts, Strays cutMessage parted counts :=
  ⟨⟨_, strays_of_cut_frame⟩, _, strays_of_cut_message⟩

def paired : Feed where
  depth := 8
  first := 0
  frames := [⟨⟨0x80040007⟩, [0x00000001]⟩, ⟨⟨0x80040007⟩, [0x00000002]⟩]
  fits := by decide

/-- A recorded controller whose ring is empty at first, and again between the two messages. -/
def unhurried : World (Timed Bus.Replay) where
  hardware := ⟨⟨[0x08000008],
    [0x08000008, 0x08020008, 0x08020108, 0x08020208, 0x08040208, 0x08040308],
    [0x80040007, 0x00000001, 0x80040007, 0x00000002]⟩, 0⟩

def lateThenDrained : List (Link × Call) := [(impatient, .receive true), (impatient, .drain)]

theorem empty_ring_interrupts_nothing :
    (receive impatient true).outcome unhurried = .error (.fault (.timeout 0)) ∧
    ∃ before, Continues paired before (.ofBytes [2, 0, 0, 0]) ∧ Frame.Ends before := by
  obtain ⟨before, continues, ends⟩ := receive_resumes_at_a_frame impatient false lateThenDrained
    unhurried paired untouched _ (.ofBytes [2, 0, 0, 0])
    ⟨by decide, by decide, by decide, by decide⟩ rfl
    (Move.entries_weave [0, 0, 0, 0, 2, 0, 0, 0, 0, 0, 0, 0, 0, 0, 2] _)
    (by decide +kernel) (by decide +kernel) (by decide +kernel)
  exact ⟨by decide +kernel, before, continues, ends (by decide +kernel)⟩

end Op

end HeciMailbox
