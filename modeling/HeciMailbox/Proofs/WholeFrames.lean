import HeciMailbox.Proofs.Backends
import HeciMailbox.Proofs.Footprint

/-! A message leaves in whole frames, on any hardware.

`Delivered` is the grammar of the accesses by which frames go out. Every send is found to be some
number of the planned frames in that grammar, between entries that put nothing into the host ring:
a ring without room, a controller that vanishes and a wait that ends all fall between two frames. -/

set_option autoImplicit false

namespace HeciMailbox

namespace Entry

/-- An entry made while a send waits for room: a wait begins, or the host status is looked at. -/
@[simp] def Idle : Entry → Prop
  | .wait _ => True
  | .read offset _ => offset = Register.hostCsr
  | .write .. | .event _ | .remark _ => False

def Silent (entry : Entry) : Prop :=
  entry.written? Register.hostWindow = none ∧ entry.frame? .toController = none

/-- The entry writes no register and announces no frame to the controller. -/
def Still (entry : Entry) : Prop :=
  (∀ offset, entry.written? offset = none) ∧ entry.frame? .toController = none

theorem Still.silent {entry : Entry} (still : entry.Still) : entry.Silent := ⟨still.1 _, still.2⟩

end Entry

namespace Op

/-- The host status shows room for `words` more words and, unless the frame is the first of its
message, an empty ring. -/
structure Shows (first : Bool) (words : Nat) (csr : Csr) : Prop where
  here : csr.absent = false
  room : (Cursors.ofCsr csr).checkRoom words = .ok ()
  drained : first = false → (Cursors.ofCsr csr).isEmpty = true

/-- Frames go out one after the other. The look before a frame shows room for all of it; the frame
is written and announced to observers, the host status read again, and the doorbell rung once. A
status of all ones there ends the delivery without a doorbell, and the flag is then false. -/
inductive Delivered : Bool → List Frame.Segment → Bool → List Entry → Prop where
  | done {first : Bool} {looking : List Entry} : (∀ entry ∈ looking, entry.Idle) →
    Delivered first [] true looking
  | vanished {first : Bool} {segment : Frame.Segment} {looking : List Entry} {shown csr : Csr} :
    (∀ entry ∈ looking, entry.Idle) → Shows first segment.words.length shown →
    csr.absent = true →
    Delivered first [segment] false
      (looking ++ .read Register.hostCsr shown.raw ::
        (frameWritten segment.header segment.payload (Cursors.ofCsr shown).write ++
          [.read Register.hostCsr csr.raw]))
  | next {first rung : Bool} {segment : Frame.Segment} {rest : List Frame.Segment}
    {looking tail : List Entry} {shown csr : Csr} :
    (∀ entry ∈ looking, entry.Idle) → Shows first segment.words.length shown →
    csr.absent = false → Delivered false rest rung tail →
    Delivered first (segment :: rest) rung
      (looking ++ .read Register.hostCsr shown.raw ::
        (frameWritten segment.header segment.payload (Cursors.ofCsr shown).write ++
          .read Register.hostCsr csr.raw ::
          .write Register.hostCsr ((csr.raw ||| Csr.generateBit) &&& ~~~Csr.statusBit) :: tail))

/-- The ring depth that sizes the frames of a send: that of its second look at the host status. Zero
if the send does not get that far. -/
def sizingDepth (entries : List Entry) : Nat :=
  match (Trace.reads Register.hostCsr entries)[1]? with
  | some raw => (Csr.mk raw).depth.toNat
  | none => 0

def planned (message : Message) (route : Route) (entries : List Entry) : List Frame.Segment :=
  Frame.segments route (Frame.payloadLimit (sizingDepth entries)) message.bytes

/-- Before its frames a send writes at most the marks of a ready host, once, and only if the host
status read right before shows the function and no ready host. -/
inductive Prepares : List Entry → Prop where
  | looking {entries : List Entry} : (∀ entry ∈ entries, entry.Still) → Prepares entries
  | marking {earlier later : List Entry} {csr : Csr} :
    (∀ entry ∈ earlier, entry.Still) → csr.absent = false → csr.ready = false →
    (∀ entry ∈ later, entry.Still) →
    Prepares (earlier ++ .read Register.hostCsr csr.raw :: .remark .settingHostReady ::
      .write Register.hostCsr (csr.withBits (Csr.readyBit ||| Csr.generateBit) Csr.resetBit) ::
        later)

/-- Behind its send half an exchange does nothing, or it moves on to await its response, and all
that follows is the reading of it. -/
def ReadsOn (capacity : Nat) (outcome : Except Stop Message) (reading : List Entry) : Prop :=
  reading = [] ∨ ∃ rest deadline,
    reading = .event (.phaseChanged .sending .awaitingResponse) :: rest ∧
      ReadHalf capacity deadline rest outcome

/-- The first `count` of the planned frames are written, each of them whole and with its doorbell.
Nothing else goes into the host ring, and up to `reading`, which is behind the send half, nothing
else is written but the marks of a ready host. The send succeeds when all frames are written and the
last doorbell was rung. -/
def WritesWhole (message : Message) (route : Route) (succeeds : Prop)
    (reading entries : List Entry) : Prop :=
  ∃ count rung before delivery after,
    count ≤ (planned message route entries).length ∧
    entries = before ++ (delivery ++ (after ++ reading)) ∧
    Prepares before ∧ (∀ entry ∈ after, entry.Still) ∧
    Delivered true ((planned message route entries).take count) rung delivery ∧
    Trace.writes Register.hostWindow entries =
      ((planned message route entries).take count).flatMap Frame.Segment.words ∧
    Trace.frames .toController entries =
      ((planned message route entries).take count).map Frame.Segment.shown ∧
    (succeeds ↔ 0 < (planned message route entries).length ∧
      count = (planned message route entries).length ∧ rung = true)

/-! ### Views of a delivery -/

theorem writes_frameWritten (header : Frame.Header) (words : List UInt32) (cursor : UInt8) :
    Trace.writes Register.hostWindow (frameWritten header words cursor) = header.raw :: words := by
  simp [frameWritten, List.filterMap_cons, Function.comp_def]

theorem frames_frameWritten (header : Frame.Header) (words : List UInt32) (cursor : UInt8) :
    Trace.frames .toController (frameWritten header words cursor) =
      [(header, words.take Event.shownWords)] := by
  simp [frameWritten, Event.ofFrame, List.filterMap_cons, Function.comp_def]

theorem writes_eq_nil_of_idle {entries : List Entry} (idle : ∀ entry ∈ entries, entry.Idle)
    (offset : UInt32) : Trace.writes offset entries = [] := by
  refine List.filterMap_eq_nil_iff.mpr fun entry member => ?_
  have holds := idle entry member
  cases entry with
  | write => exact holds.elim
  | _ => rfl

theorem frames_eq_nil_of_idle {entries : List Entry} (idle : ∀ entry ∈ entries, entry.Idle)
    (way : Direction) : Trace.frames way entries = [] := by
  refine List.filterMap_eq_nil_iff.mpr fun entry member => ?_
  have holds := idle entry member
  cases entry with
  | event => exact holds.elim
  | _ => rfl

theorem Delivered.writes {first rung : Bool} {segments : List Frame.Segment}
    {entries : List Entry} (delivered : Delivered first segments rung entries) :
    Trace.writes Register.hostWindow entries = segments.flatMap Frame.Segment.words := by
  have apart : Register.hostCsr ≠ Register.hostWindow := by decide
  induction delivered with
  | done idle => exact writes_eq_nil_of_idle idle _
  | vanished idle =>
    simp [writes_eq_nil_of_idle idle, writes_frameWritten, List.filterMap_cons,
      Frame.Segment.words]
  | next idle _ _ _ ih =>
    simp [writes_eq_nil_of_idle idle, writes_frameWritten, List.filterMap_cons, apart, ih,
      Frame.Segment.words]

theorem Delivered.frames {first rung : Bool} {segments : List Frame.Segment}
    {entries : List Entry} (delivered : Delivered first segments rung entries) :
    Trace.frames .toController entries = segments.map Frame.Segment.shown := by
  induction delivered with
  | done idle => exact frames_eq_nil_of_idle idle _
  | vanished idle =>
    simp [frames_eq_nil_of_idle idle, frames_frameWritten, List.filterMap_cons,
      Frame.Segment.shown]
  | next idle _ _ _ ih =>
    simp [frames_eq_nil_of_idle idle, frames_frameWritten, List.filterMap_cons, ih,
      Frame.Segment.shown]

/-! ### From the frames sent to a delivery -/

section

variable {route : Route} {deadline : Deadline} {first : Bool} {entries : List Entry}

-- Two kinds of look precede a frame, one before the first and a wait before any other. From here on
-- only what they have in common is used: idle entries, and cursors that the last of them shows.
theorem Opened.idle {outcome : Except Stop Cursors}
    (opened : Opened deadline first entries outcome) :
    ∀ entry ∈ entries, entry.Idle := by
  cases first with
  | true =>
    obtain ⟨csr, rfl, -⟩ := opened
    simp
  | false =>
    obtain ⟨rounds, rfl, waited⟩ := opened
    refine List.forall_mem_cons.mpr ⟨trivial, fun entry inside => ?_⟩
    obtain ⟨value, rfl⟩ := waited.looks entry inside
    rfl

theorem Opened.last {cursors : Cursors} (opened : Opened deadline first entries (.ok cursors)) :
    ∃ looking csr, entries = looking ++ [.read Register.hostCsr csr.raw] ∧
      (∀ entry ∈ looking, entry.Idle) ∧ csr.absent = false ∧ cursors = Cursors.ofCsr csr ∧
      (first = false → cursors.isEmpty = true) := by
  cases first with
  | true =>
    obtain ⟨csr, rfl, judged⟩ := opened
    obtain ⟨here, rfl⟩ := reported_eq_ok.mp judged.symm
    exact ⟨[], csr, rfl, by simp, here, rfl, by simp⟩
  | false =>
    have idle := Opened.idle opened
    obtain ⟨rounds, rfl, waited⟩ := opened
    obtain ⟨earlier, csr, rfl, judged, -⟩ := waited.last
    obtain ⟨seen, usable, accepted⟩ := whenUsable_eq_ok.mp judged
    obtain ⟨here, rfl, -⟩ := usable_eq_ok.mp usable
    unfold emptied at accepted
    split at accepted
    · next empty =>
      cases accepted
      refine ⟨.wait deadline :: earlier, csr, rfl, ?_, here, rfl, fun _ => empty⟩
      intro entry inside
      exact idle entry (by simpa using Or.imp_right Or.inl (List.mem_cons.mp inside))
    · cases accepted

theorem FragmentsSent.delivered {fragments : List Frame.Fragment} {outcome : Except Stop Unit}
    (sent : FragmentsSent route deadline first fragments entries outcome) :
    ∃ count rung, count ≤ fragments.length ∧
      Delivered first ((fragments.map (Frame.Segment.ofFragment route)).take count) rung entries ∧
      (outcome = .ok () ↔ count = fragments.length ∧ rung = true) := by
  -- By the frames sent. One that is refused by its ring leaves what went before a delivery; one
  -- whose status is gone afterwards is whole, but ends the delivery without a doorbell.
  induction sent with
  | done => exact ⟨0, true, Nat.le_refl _, .done (by simp), by simp⟩
  | closed opened => exact ⟨0, true, Nat.zero_le _, .done opened.idle, by simp⟩
  | stopped opened stopped =>
    obtain ⟨looking, csr, rfl, idle, here, rfl, drained⟩ := opened.last
    cases stopped with
    | noRoom | tooLong =>
      exact ⟨0, true, Nat.zero_le _, .done (by simpa using opened.idle), by simp⟩
    | vanished room made gone =>
      obtain ⟨-, rfl⟩ := Frame.Header.make?_eq_ok.mp made
      refine ⟨1, false, by simp, ?_, by simp⟩
      have shows : Shows _ (Frame.Segment.ofFragment route _).words.length _ :=
          ⟨here, room, drained⟩
      simpa [Frame.Segment.ofFragment] using Delivered.vanished idle shows gone
  | next opened sent _ ih =>
    obtain ⟨looking, csr, rfl, idle, here, rfl, drained⟩ := opened.last
    obtain ⟨count, rung, bound, delivered, succeeds⟩ := ih
    cases sent with
    | sent room made present =>
      obtain ⟨-, rfl⟩ := Frame.Header.make?_eq_ok.mp made
      refine ⟨count + 1, rung, by simpa using bound, ?_, by simpa using succeeds⟩
      have shows : Shows _ (Frame.Segment.ofFragment route _).words.length _ :=
          ⟨here, room, drained⟩
      simpa [Frame.Segment.ofFragment, Csr.withDoorbell] using
        Delivered.next idle shows present delivered

end

/-! ### The whole send -/

section

variable {link : Link} {message : Message} {route : Route} {entries reading : List Entry}

theorem writes_eq_nil_of_silent (silent : ∀ entry ∈ entries, entry.Silent) :
    Trace.writes Register.hostWindow entries = [] :=
  List.filterMap_eq_nil_iff.mpr fun entry member => (silent entry member).1

theorem frames_eq_nil_of_silent (silent : ∀ entry ∈ entries, entry.Silent) :
    Trace.frames .toController entries = [] :=
  List.filterMap_eq_nil_iff.mpr fun entry member => (silent entry member).2

theorem still_look (csr : Csr) : (Entry.read Register.hostCsr csr.raw).Still := by
  simp [Entry.Still]

theorem still_phaseChanged (source target : Phase) :
    (Entry.event (.phaseChanged source target)).Still := by
  simp [Entry.Still]

/-! ### What comes before the frames -/

namespace Prepares

theorem prepend {earlier : List Entry} (prepares : Prepares entries)
    (still : ∀ entry ∈ earlier, entry.Still) : Prepares (earlier ++ entries) := by
  cases prepares with
  | looking others => exact .looking (List.forall_mem_append.mpr ⟨still, others⟩)
  | marking before here unready later =>
    rw [← List.append_assoc]
    exact .marking (List.forall_mem_append.mpr ⟨still, before⟩) here unready later

theorem append {later : List Entry} (prepares : Prepares entries)
    (still : ∀ entry ∈ later, entry.Still) : Prepares (entries ++ later) := by
  cases prepares with
  | looking others => exact .looking (List.forall_mem_append.mpr ⟨others, still⟩)
  | marking before here unready behind =>
    rw [List.append_assoc]
    exact .marking before here unready (List.forall_mem_append.mpr ⟨behind, still⟩)

theorem silent (prepares : Prepares entries) : ∀ entry ∈ entries, entry.Silent := by
  have apart : Register.hostCsr ≠ Register.hostWindow := by decide
  cases prepares with
  | looking others => exact fun entry member => (others entry member).silent
  | marking before _ _ behind =>
    simp only [List.forall_mem_append, List.forall_mem_cons]
    exact ⟨fun entry member => (before entry member).silent, (still_look _).silent,
      by simp [Entry.Silent], by simp [Entry.Silent, apart],
      fun entry member => (behind entry member).silent⟩

end Prepares

theorem Required.still {outcome : Except Stop Unit} (required : Required entries outcome) :
    ∀ entry ∈ entries, entry.Still := by
  cases required <;> simp [Entry.Still]

theorem HostMarked.prepares {outcome : Except Stop Unit} (marked : HostMarked entries outcome) :
    Prepares entries := by
  cases marked with
  | gone | already => exact .looking (by simp [still_look])
  | marked here unready =>
    exact .marking (List.forall_mem_nil _) here unready (List.forall_mem_nil _)

/-- The preparations of a send look at the host status once, so the look that follows them is the
second. -/
theorem sizingDepth_prepared {required marked lead : List Entry} (sizing : Csr) (tail : List Entry)
    (quiet : Trace.reads Register.hostCsr lead = []) (ready : Required required (.ok ()))
    (mark : HostMarked marked (.ok ())) :
    sizingDepth (lead ++ (required ++ (marked ++ .read Register.hostCsr sizing.raw :: tail))) =
      sizing.depth.toNat := by
  have apart : Register.controllerCsr ≠ Register.hostCsr := by decide
  have asked : Trace.reads Register.hostCsr required = [] := by
    cases ready
    simp [apart]
  have once : ∃ raw, Trace.reads Register.hostCsr marked = [raw] := by
    cases mark <;> simp [List.filterMap_cons]
  obtain ⟨raw, once⟩ := once
  simp [sizingDepth, quiet, asked, once]

theorem planned_prepared {required marked lead : List Entry} (sizing : Csr) (tail : List Entry)
    (quiet : Trace.reads Register.hostCsr lead = []) (ready : Required required (.ok ()))
    (mark : HostMarked marked (.ok ())) :
    planned message route
        (lead ++ (required ++ (marked ++ .read Register.hostCsr sizing.raw :: tail))) =
      Frame.segments route (Frame.payloadLimit sizing.depth.toNat) message.bytes := by
  rw [planned, sizingDepth_prepared sizing tail quiet ready mark]

theorem length_segments_pos (route : Route) {limit : Nat} (positive : 0 < limit)
    {bytes : List UInt8} (content : 0 < bytes.length) :
    0 < (Frame.segments route limit bytes).length := by
  simp only [Frame.segments, List.length_map, List.length_range]
  exact Nat.div_pos (by omega) positive

/-! ### What comes behind them -/

section

variable {succeeds : Prop} {before after : List Entry} (prepares : Prepares before)
  (behind : ∀ entry ∈ after, entry.Still) (silent : ∀ entry ∈ reading, entry.Silent)

include prepares behind silent

/-- What a delivery between its preparations and still entries shows is what was delivered. -/
theorem Delivered.whole {segments : List Frame.Segment} {count : Nat} {rung : Bool}
    {delivery : List Entry} (delivered : Delivered true (segments.take count) rung delivery)
    (frames : planned message route (before ++ (delivery ++ (after ++ reading))) = segments)
    (bound : count ≤ segments.length)
    (succeeded : succeeds ↔ 0 < segments.length ∧ count = segments.length ∧ rung = true) :
    WritesWhole message route succeeds reading
      (before ++ (delivery ++ (after ++ reading))) := by
  subst frames
  have rest : ∀ entry ∈ after ++ reading, entry.Silent := by
    refine List.forall_mem_append.mpr ⟨fun entry member => ?_, silent⟩
    exact (behind entry member).silent
  refine ⟨count, rung, before, delivery, after, bound, rfl, prepares, behind, delivered, ?_, ?_,
    succeeded⟩
  · rw [Trace.writes_append, Trace.writes_append, writes_eq_nil_of_silent prepares.silent,
      writes_eq_nil_of_silent rest, delivered.writes, List.nil_append, List.append_nil]
  · rw [Trace.frames_append, Trace.frames_append, frames_eq_nil_of_silent prepares.silent,
      frames_eq_nil_of_silent rest, delivered.frames, List.nil_append, List.append_nil]

theorem WritesWhole.unsent (fails : ¬succeeds) :
    WritesWhole message route succeeds reading (before ++ (after ++ reading)) := by
  have delivered : Delivered true ((planned message route (before ++ (after ++ reading))).take 0)
      true [] := .done (List.forall_mem_nil _)
  refine delivered.whole prepares behind silent rfl (Nat.zero_le _) (iff_of_false fails ?_)
  rintro ⟨positive, all, -⟩
  omega

end

theorem MessageWritten.whole {outcome : Except Stop Unit} {lead after : List Entry}
    (written : MessageWritten link message route entries outcome)
    (before : ∀ entry ∈ lead, entry.Still) (quiet : Trace.reads Register.hostCsr lead = [])
    (behind : ∀ entry ∈ after, entry.Still) (silent : ∀ entry ∈ reading, entry.Silent) :
    WritesWhole message route (outcome = .ok ()) reading
      (lead ++ (entries ++ (after ++ reading))) := by
  -- A send that ends before its first frame has only prepared.
  have unsent : ∀ {body : List Entry} {stop : Stop}, Prepares (lead ++ body) →
      WritesWhole message route ((.error stop : Except Stop Unit) = .ok ()) reading
        (lead ++ (body ++ (after ++ reading))) := fun prepares => by
    rw [← List.append_assoc]
    exact .unsent prepares behind silent (by simp)
  have prepares : ∀ {required marked looks : List Entry} {ended outcome : Except Stop Unit},
      Required required ended → HostMarked marked outcome → (∀ entry ∈ looks, entry.Still) →
      Prepares (lead ++ (required ++ (marked ++ looks))) := fun required marked looks =>
    ((marked.prepares.append looks).prepend required.still).prepend before
  cases written with
  | badLength => exact unsent (.looking (by simpa using before))
  | unready _ required =>
    exact unsent (.looking (List.forall_mem_append.mpr ⟨before, required.still⟩))
  | unmarked _ required marked =>
    exact unsent (by simpa using prepares required marked (List.forall_mem_nil _))
  | unsized _ required marked => exact unsent (prepares required marked (by simp [still_look]))
  | shallow _ required marked => exact unsent (prepares required marked (by simp [Entry.Still]))
  | @sent required marked body sizing _ _ good ready mark here deep sent =>
    obtain ⟨count, rung, bound, delivered, succeeds⟩ := sent.delivered
    have shape :
        lead ++ (required ++ (marked ++ .read Register.hostCsr sizing.raw :: body) ++
            (after ++ reading)) =
          lead ++ (required ++ (marked ++ [.read Register.hostCsr sizing.raw])) ++
            (body ++ (after ++ reading)) := by
      simp
    -- The plan refers to the whole trace, in which the look that sizes the frames is found again.
    have plan : planned message route _ = _ :=
      planned_prepared sizing (body ++ (after ++ reading)) quiet ready mark
    have cut := Frame.ofMessage_eq_segments route (Frame.four_dvd_payloadLimit sizing.depth.toNat)
      (Nat.pos_of_ne_zero deep) message
    have length := congrArg List.length cut
    rw [List.length_map] at length
    rw [cut] at delivered
    have positive := length_segments_pos route (Nat.pos_of_ne_zero deep)
      (message.length_bytes ▸ Nat.pos_of_ne_zero fun empty => good (.inl empty))
    rw [shape]
    refine delivered.whole (prepares ready mark (by simp [still_look])) behind silent
      (by simpa using plan) (length ▸ bound) ?_
    rw [succeeds, length]
    exact (and_iff_right positive).symm

/-! ### Phases of the send half -/

-- An exchange reports success of its send half only by the phase it moves to next. That the event
-- stands for success needs that nothing else in the send half makes the same move.
theorem Delivered.unmoved {first rung : Bool} {segments : List Frame.Segment}
    (delivered : Delivered first segments rung entries) (source target : Phase) :
    .event (.phaseChanged source target) ∉ entries := by
  induction delivered with
  | done idle => exact fun member => idle _ member
  | vanished idle =>
    simp only [List.mem_append, List.mem_cons, not_or]
    exact ⟨fun member => idle _ member, by simp, by simp [frameWritten, Event.ofFrame], by simp⟩
  | next idle _ _ _ ih =>
    simp only [List.mem_append, List.mem_cons, not_or]
    exact ⟨fun member => idle _ member, by simp, by simp [frameWritten, Event.ofFrame], by simp,
      by simp, ih⟩

theorem MessageWritten.unmoved {outcome : Except Stop Unit}
    (written : MessageWritten link message route entries outcome) (source target : Phase) :
    .event (.phaseChanged source target) ∉ entries := by
  have required : ∀ {entries outcome}, Required entries outcome →
      .event (.phaseChanged source target) ∉ entries := by
    intro entries outcome required
    cases required <;> simp
  have marked : ∀ {entries outcome}, HostMarked entries outcome →
      .event (.phaseChanged source target) ∉ entries := by
    intro entries outcome marked
    cases marked <;> simp
  cases written with
  | badLength => simp
  | unready _ unready => exact required unready
  | unmarked _ ready unmarked => simp [required ready, marked unmarked]
  | unsized _ ready mark => simp [required ready, marked mark]
  | shallow _ ready mark => simp [required ready, marked mark]
  | sent _ ready mark _ _ sent =>
    obtain ⟨_, _, _, delivered, _⟩ := sent.delivered
    simp [required ready, marked mark, delivered.unmoved]

theorem SendHalf.whole {outcome : Except Stop Exchange} {after : List Entry}
    (half : SendHalf link message route entries outcome) (behind : ∀ entry ∈ after, entry.Still)
    (silent : ∀ entry ∈ reading, entry.Silent) :
    WritesWhole message route (outcome.isOk = true) reading (entries ++ (after ++ reading)) := by
  have begun : ∀ entry ∈ [Entry.event (.phaseChanged .idle .sending)], entry.Still := by
    simp [still_phaseChanged]
  cases half with
  | sent written => simpa [Except.isOk, Except.toBool] using written.whole begun rfl behind silent
  | @failed body fault written =>
    have closed : ∀ entry ∈ .event (.phaseChanged .sending (.ofFault fault)) :: after,
        entry.Still := List.forall_mem_cons.mpr ⟨still_phaseChanged _ _, behind⟩
    simpa [Except.isOk, Except.toBool] using written.whole begun rfl closed silent
  | abandoned _ written =>
    simpa [Except.isOk, Except.toBool] using written.whole begun rfl behind silent

theorem SendHalf.not_awaiting {stop : Stop}
    (half : SendHalf link message route entries (.error stop)) :
    .event (.phaseChanged .sending .awaitingResponse) ∉ entries := by
  cases half with
  | @failed body fault written =>
    have other : Phase.ofFault fault ≠ .awaitingResponse := by cases fault <;> simp [Phase.ofFault]
    simp [written.unmoved, other.symm]
  | abandoned _ written => simp [written.unmoved]

theorem Inbound.silent {entry : Entry} (inbound : Inbound entry) : entry.Silent := by
  match entry, inbound with
  | .write place value, written =>
    have apart : place ≠ Register.hostWindow := by
      rintro rfl
      simp [Inbound, Register.hostWindow, Register.hostCsr] at written
    simp [Entry.Silent, apart]
  | .event (.frame way header data), shown =>
    cases shown
    simp [Entry.Silent]
  | .event (.phaseChanged ..), _ | .event (.drained _), _ | .event .reset, _ | .read .., _
  | .wait _, _ | .remark _, _ => exact ⟨rfl, rfl⟩

theorem ReadsOn.silent {capacity : Nat} {outcome : Except Stop Message}
    (reads : ReadsOn capacity outcome reading) : ∀ entry ∈ reading, entry.Silent := by
  obtain rfl | ⟨rest, deadline, rfl, half⟩ := reads
  · exact List.forall_mem_nil _
  · exact List.forall_mem_cons.mpr ⟨(still_phaseChanged _ _).silent,
      fun entry member => (half.inbound entry member).silent⟩

theorem Sent.whole {outcome : Except Stop Unit} (sent : Sent link message route entries outcome) :
    WritesWhole message route (outcome = .ok ()) [] entries := by
  cases sent with
  | complete half =>
    have behind := List.forall_mem_singleton.mpr (still_phaseChanged .sending .complete)
    simpa [Except.isOk, Except.toBool] using half.whole behind (List.forall_mem_nil _)
  | stopped half =>
    simpa [Except.isOk, Except.toBool] using
      half.whole (List.forall_mem_nil _) (List.forall_mem_nil _)

theorem Exchanged.whole {capacity : Nat} {outcome : Except Stop Message}
    (exchanged : Exchanged link message route capacity entries outcome) :
    ∃ reading, ReadsOn capacity outcome reading ∧
      WritesWhole message route (.event (.phaseChanged .sending .awaitingResponse) ∈ entries)
        reading entries := by
  cases exchanged with
  | unsent half =>
    refine ⟨[], .inl rfl, ?_⟩
    simpa [Except.isOk, Except.toBool, half.not_awaiting] using
      half.whole (List.forall_mem_nil _) (List.forall_mem_nil _)
  | read half reading =>
    have readsOn : ReadsOn capacity _ (.event (.phaseChanged .sending .awaitingResponse) :: _) :=
      .inr ⟨_, _, rfl, reading⟩
    refine ⟨_, readsOn, ?_⟩
    simpa [Except.isOk, Except.toBool] using half.whole (List.forall_mem_nil _) readsOn.silent

end

/-- On any hardware a send writes whole frames of the message, in order, each with one doorbell, and
apart from them at most the marks of a ready host. So does the send half of an exchange, which has
succeeded when the exchange goes on to await its response. -/
theorem send_writes_whole_frames {σ : Type} [Registers σ] [Clock σ] [Registers.Answers σ]
    (link : Link) (message : Message) (route : Route) (timeout capacity : Nat) (world : World σ) :
    WritesWhole message route ((send link message route).outcome world = .ok ()) []
        ((send link message route).added world) ∧
      ∃ reading,
        ReadsOn capacity ((sendAndAwait link message route timeout capacity).outcome world)
          reading ∧
        WritesWhole message route
          (.event (.phaseChanged .sending .awaitingResponse) ∈
            (sendAndAwait link message route timeout capacity).added world)
          reading ((sendAndAwait link message route timeout capacity).added world) :=
  ⟨((send_ensures link message route).holds world).1.whole,
    ((sendAndAwait_ensures link message route timeout capacity).holds world).1.whole⟩

def emptyPair : World (Timed Bus.Replay) where
  hardware := ⟨⟨[0x02000008], [0x02000008], []⟩, 0⟩

/-- Six bytes leave such a ring in two frames, of four bytes and of two, with a doorbell each. -/
theorem six_bytes_leave_in_two_frames :
    Trace.writes Register.hostWindow
        ((send (.ofConfig {} 0xFED1A000 8) (.ofBytes [1, 2, 3, 4, 5, 6]) ⟨0, 7⟩).added emptyPair) =
      [0x00040007, 0x04030201, 0x80020007, 0x00000605] ∧
    Trace.writes Register.hostCsr
        ((send (.ofConfig {} 0xFED1A000 8) (.ofBytes [1, 2, 3, 4, 5, 6]) ⟨0, 7⟩).added emptyPair) =
      [0x0200000C, 0x0200000C] ∧
    WritesWhole (.ofBytes [1, 2, 3, 4, 5, 6]) ⟨0, 7⟩
      ((send (.ofConfig {} 0xFED1A000 8) (.ofBytes [1, 2, 3, 4, 5, 6]) ⟨0, 7⟩).outcome emptyPair =
        .ok ()) []
      ((send (.ofConfig {} 0xFED1A000 8) (.ofBytes [1, 2, 3, 4, 5, 6]) ⟨0, 7⟩).added emptyPair) :=
  ⟨by decide +kernel, by decide +kernel, (send_writes_whole_frames _ _ _ 0 64 _).1⟩

end Op

end HeciMailbox
