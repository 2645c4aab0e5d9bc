import HeciMailbox.Proofs.Calls
import HeciMailbox.Proofs.WholeFrames

/-! The phases of an exchange, as observers see them, on any hardware.

Observers of a call see one walk over the legal moves, from idle to the phase that fits its outcome,
and each frame in the phase of its direction. -/

set_option autoImplicit false

namespace HeciMailbox

/-- A frame that goes in `direction`. -/
@[simp] def Event.Carries (direction : Direction) : Event → Prop
  | .frame way _ _ => way = direction
  | .phaseChanged .. | .drained _ | .reset => False

@[simp] def Entry.Tells (direction : Direction) : Entry → Prop
  | .event told => told.Carries direction
  | .read .. | .write .. | .wait _ | .remark _ => True

namespace Trace

@[simp] theorem events_nil : events [] = [] := rfl

@[simp] theorem events_event (told : Event) (rest : List Entry) :
    events (.event told :: rest) = told :: events rest := rfl

theorem events_append (first second : List Entry) :
    events (first ++ second) = events first ++ events second :=
  List.filterMap_append

end Trace

namespace Phase

def direction? : Phase → Option Direction
  | .sending => some .toController
  | .awaitingResponse => some .toHost
  | .idle | .complete | .overflow | .timedOut | .failed => none

/-- The events lead from one phase to another: each change starts in the phase that the one before
it reached and is a legal move, and frames pass only in the phase of their direction. -/
inductive Leads : Phase → List Event → Phase → Prop where
  | done {phase : Phase} : Leads phase [] phase
  | frame {phase final : Phase} {direction : Direction} {header : Frame.Header}
    {data : List UInt32} {rest : List Event} : phase.direction? = some direction →
    Leads phase rest final → Leads phase (.frame direction header data :: rest) final
  | change {source target final : Phase} {rest : List Event} : source.mayPrecede target = true →
    Leads target rest final → Leads source (.phaseChanged source target :: rest) final

/-- The phase in which a call with this outcome ends; none while it is still under way. -/
def ofOutcome? {α : Type} : Except Stop α → Option Phase
  | .ok _ => some .complete
  | .error (.fault fault) => some (ofFault fault)
  | .error (.trap _) | .error .unfinished => none

end Phase

structure Phase.Fits {α : Type} (outcome : Except Stop α) (final : Phase) : Prop where
  complete : final = .complete ↔ ∃ value, outcome = .ok value
  overflow : final = .overflow ↔
    ∃ filled depth requested, outcome = .error (.fault (.overflow filled depth requested))
  timedOut : final = .timedOut ↔ ∃ milliseconds, outcome = .error (.fault (.timeout milliseconds))
  failed : final = .failed ↔ ∃ fault, outcome = .error (.fault fault) ∧
    (∀ filled depth requested, fault ≠ .overflow filled depth requested) ∧
    ∀ milliseconds, fault ≠ .timeout milliseconds

/-- What observers are told of one call, up to the phase in which it leaves the exchange. `sends`
and `awaits` say which halves of an exchange the call goes through. A call whose rounds are spent is
still under way, and then no terminal phase has been reached. -/
structure Disciplined {α : Type} (sends awaits : Prop) (outcome : Except Stop α)
    (events : List Event) (final : Phase) : Prop where
  walk : Phase.Leads .idle events final
  untrapped : ∀ trap, outcome ≠ .error (.trap trap)
  fits : final.Fits outcome
  ended : outcome ≠ .error .unfinished → final.isTerminal = true ∧
    ∃ earlier source, events = earlier ++ [.phaseChanged source final]
  once : ∀ earlier later source target, events = earlier ++ .phaseChanged source target :: later →
    target.isTerminal = true → later = []
  underWay : outcome = .error .unfinished → final.isTerminal = false
  sending : (∃ source, .phaseChanged source .sending ∈ events) ↔ sends
  awaiting : (∃ source, .phaseChanged source .awaitingResponse ∈ events) ↔ awaits

namespace Phase

/-! ### Walks -/

theorem Leads.append {first middle last : Phase} {head tail : List Event}
    (leads : Leads first head middle) (goesOn : Leads middle tail last) :
    Leads first (head ++ tail) last := by
  induction leads with
  | done => exact goesOn
  | frame passes _ ih => exact .frame passes (ih goesOn)
  | change legal _ ih => exact .change legal (ih goesOn)

theorem leads_of_carries {phase : Phase} {direction : Direction} {events : List Event}
    (passes : phase.direction? = some direction)
    (frames : ∀ event ∈ events, event.Carries direction) : Leads phase events phase := by
  induction events with
  | nil => exact .done
  | cons event rest ih =>
    obtain ⟨here, others⟩ := List.forall_mem_cons.mp frames
    match event, here with
    | .frame _ _ _, rfl => exact .frame passes (ih others)

theorem mayPrecede_eq_false_of_isTerminal {source : Phase} (terminal : source.isTerminal = true)
    (target : Phase) : source.mayPrecede target = false := by
  cases source <;> first | rfl | cases terminal

theorem direction?_eq_none_of_isTerminal {phase : Phase} (terminal : phase.isTerminal = true) :
    phase.direction? = none := by
  cases phase <;> first | rfl | cases terminal

theorem Leads.eq_nil_of_isTerminal {source final : Phase} {events : List Event}
    (leads : Leads source events final) (terminal : source.isTerminal = true) : events = [] := by
  cases leads with
  | done => rfl
  | frame passes => simp [direction?_eq_none_of_isTerminal terminal] at passes
  | change legal => simp [mayPrecede_eq_false_of_isTerminal terminal] at legal

theorem Leads.nothing_after_terminal {first final source target : Phase}
    {earlier later : List Event}
    (leads : Leads first (earlier ++ .phaseChanged source target :: later) final)
    (terminal : target.isTerminal = true) : later = [] := by
  induction earlier generalizing first with
  | nil =>
    cases leads with
    | change _ rest => exact rest.eq_nil_of_isTerminal terminal
  | cons event earlier ih =>
    cases leads with
    | frame _ rest => exact ih rest
    | change _ rest => exact ih rest

/-! ### Outcomes -/

theorem isTerminal_ofFault (fault : Fault) : (ofFault fault).isTerminal = true := by
  cases fault <;> rfl

theorem isTerminal_ofOutcome {α : Type} {outcome : Except Stop α} {final : Phase}
    (ends : ofOutcome? outcome = some final) : final.isTerminal = true := by
  match outcome, ends with
  | .ok _, rfl => rfl
  | .error (.fault fault), rfl => exact isTerminal_ofFault fault

/-- A phase in which frames pass may go on to the phase of any outcome. -/
theorem mayPrecede_ofOutcome {α : Type} {outcome : Except Stop α} {phase final : Phase}
    {direction : Direction} (passes : phase.direction? = some direction)
    (ends : ofOutcome? outcome = some final) : phase.mayPrecede final = true := by
  match outcome, ends with
  | .ok _, rfl => cases phase <;> first | rfl | cases passes
  | .error (.fault fault), rfl => cases phase <;> first | (cases fault <;> rfl) | cases passes

theorem fits_ofOutcome {α : Type} {outcome : Except Stop α} {final : Phase}
    (ends : ofOutcome? outcome = some final) : final.Fits outcome := by
  match outcome, ends with
  | .ok _, rfl => constructor <;> simp
  | .error (.fault fault), rfl => cases fault <;> constructor <;> simp [ofFault]

theorem fits_of_unfinished {α : Type} {phase : Phase} (under : phase.isTerminal = false) :
    phase.Fits (.error .unfinished : Except Stop α) := by
  constructor <;> cases phase <;> simp_all [isTerminal]

theorem isTerminal_of_direction {phase : Phase} {direction : Direction}
    (passes : phase.direction? = some direction) : phase.isTerminal = false := by
  cases terminal : phase.isTerminal with
  | false => rfl
  | true => simp [direction?_eq_none_of_isTerminal terminal] at passes

end Phase

namespace Op

/-- The end of a call: frames pass in `phase` until it ends in the phase of its outcome, unless its
rounds are spent before. -/
inductive Concluded {α : Type} (phase : Phase) (outcome : Except Stop α) : List Event → Prop where
  | ended {frames : List Event} {direction : Direction} {final : Phase} :
    phase.direction? = some direction → (∀ event ∈ frames, event.Carries direction) →
    Phase.ofOutcome? outcome = some final →
    Concluded phase outcome (frames ++ [.phaseChanged phase final])
  | underWay {frames : List Event} {direction : Direction} :
    phase.direction? = some direction → (∀ event ∈ frames, event.Carries direction) →
    outcome = .error .unfinished → Concluded phase outcome frames

theorem Concluded.disciplined {α : Type} {phase : Phase} {outcome : Except Stop α}
    {lead tail : List Event} (concluded : Concluded phase outcome tail)
    (leads : Phase.Leads .idle lead phase) :
    ∃ final, Disciplined (∃ source, .phaseChanged source .sending ∈ lead)
      (∃ source, .phaseChanged source .awaitingResponse ∈ lead) outcome (lead ++ tail) final := by
  cases concluded with
  | @ended frames direction final passes carried ends =>
    have walk : Phase.Leads .idle (lead ++ (frames ++ [.phaseChanged phase final])) final :=
      leads.append ((Phase.leads_of_carries passes carried).append
        (.change (Phase.mayPrecede_ofOutcome passes ends) .done))
    have terminal := Phase.isTerminal_ofOutcome ends
    -- What follows the lead enters no phase but the last, which is neither of the two halves.
    have enters : ∀ target, target.isTerminal = false →
        ((∃ source, Event.phaseChanged source target ∈
          lead ++ (frames ++ [.phaseChanged phase final])) ↔
          ∃ source, .phaseChanged source target ∈ lead) := by
      intro target isOpen
      have unchanged : ∀ source, .phaseChanged source target ∉ frames :=
        fun source member => carried _ member
      have other : target ≠ final := by rintro rfl; simp [terminal] at isOpen
      simp [unchanged, other]
    exact ⟨final, {
      walk
      untrapped := by rintro trap rfl; cases ends
      fits := Phase.fits_ofOutcome ends
      ended := fun _ => ⟨terminal, lead ++ frames, phase, by simp⟩
      once := fun _ _ _ _ split reached => (split ▸ walk).nothing_after_terminal reached
      underWay := by rintro rfl; cases ends
      sending := enters _ rfl
      awaiting := enters _ rfl }⟩
  | @underWay frames direction passes carried under =>
    subst under
    have walk := leads.append (Phase.leads_of_carries passes carried)
    have enters : ∀ target, ((∃ source, Event.phaseChanged source target ∈ lead ++ tail) ↔
        ∃ source, .phaseChanged source target ∈ lead) := by
      intro target
      have unchanged : ∀ source, .phaseChanged source target ∉ tail :=
        fun source member => carried _ member
      simp [unchanged]
    have isOpen := Phase.isTerminal_of_direction passes
    exact ⟨phase, {
      walk
      untrapped := by simp
      fits := Phase.fits_of_unfinished isOpen
      ended := by simp
      once := fun _ _ _ _ split reached => (split ▸ walk).nothing_after_terminal reached
      underWay := fun _ => isOpen
      sending := enters _
      awaiting := enters _ }⟩

/-! ### What the parts of a call tell -/

section

variable {entries : List Entry} {direction : Direction}

theorem Look.tells {α : Type} {offset : UInt32} {judge : Csr → Except Stop α}
    {outcome : Except Stop α} (look : Look offset judge entries outcome) :
    ∀ entry ∈ entries, entry.Tells direction := by
  obtain ⟨csr, rfl, -⟩ := look
  simp

theorem Awaited.tells {α : Type} {offset : UInt32} {judge : Csr → Except Stop (Option α)}
    {deadline : Deadline} {outcome : Except Stop α}
    (awaited : Awaited offset judge deadline entries outcome) :
    ∀ entry ∈ entries, entry.Tells direction := by
  obtain ⟨rounds, rfl, waited⟩ := awaited
  refine List.forall_mem_cons.mpr ⟨trivial, fun entry inside => ?_⟩
  obtain ⟨value, rfl⟩ := waited.looks entry inside
  trivial

theorem Required.tells {outcome : Except Stop Unit} (required : Required entries outcome) :
    ∀ entry ∈ entries, entry.Tells direction := by
  cases required <;> simp

theorem HostMarked.tells {outcome : Except Stop Unit} (marked : HostMarked entries outcome) :
    ∀ entry ∈ entries, entry.Tells direction := by
  cases marked <;> simp

theorem FragmentSent.tells {route : Route} {cursors : Cursors} {fragment : Frame.Fragment}
    {outcome : Except Stop Unit} (sent : FragmentSent route cursors fragment entries outcome) :
    ∀ entry ∈ entries, entry.Tells .toController := by
  cases sent <;> simp [frameWritten, Event.ofFrame, or_imp, forall_and]

theorem Opened.tells {deadline : Deadline} {first : Bool} {outcome : Except Stop Cursors}
    (opened : Opened deadline first entries outcome) :
    ∀ entry ∈ entries, entry.Tells direction := by
  cases first with
  | true => exact Look.tells opened
  | false => exact Awaited.tells opened

theorem FragmentsSent.tells {route : Route} {deadline : Deadline} {first : Bool}
    {fragments : List Frame.Fragment} {outcome : Except Stop Unit}
    (sent : FragmentsSent route deadline first fragments entries outcome) :
    ∀ entry ∈ entries, entry.Tells .toController := by
  induction sent with
  | done => simp
  | closed opened => exact opened.tells
  | stopped opened stopped => exact List.forall_mem_append.mpr ⟨opened.tells, stopped.tells⟩
  | next opened sent _ ih =>
    simp only [List.forall_mem_append]
    exact ⟨opened.tells, sent.tells, ih⟩

theorem MessageWritten.tells {link : Link} {message : Message} {route : Route}
    {outcome : Except Stop Unit} (written : MessageWritten link message route entries outcome) :
    ∀ entry ∈ entries, entry.Tells .toController := by
  cases written with
  | badLength => simp
  | unready _ required => exact required.tells
  | unmarked _ required marked => exact List.forall_mem_append.mpr ⟨required.tells, marked.tells⟩
  | unsized _ required marked =>
    simp only [List.forall_mem_append, List.forall_mem_singleton]
    exact ⟨required.tells, marked.tells, trivial⟩
  | shallow _ required marked =>
    simp only [List.forall_mem_append, List.forall_mem_cons]
    exact ⟨required.tells, marked.tells, trivial, trivial, by simp⟩
  | sent _ required marked _ _ sent =>
    simp only [List.forall_mem_append, List.forall_mem_cons]
    exact ⟨required.tells, marked.tells, trivial, sent.tells⟩

theorem Acknowledged.tells (acknowledged : Acknowledged entries) :
    ∀ entry ∈ entries, entry.Tells direction := by
  obtain ⟨csr, rfl⟩ := acknowledged
  simp

theorem Discarded.tells {outcome : Except Stop Unit} (discarded : Discarded entries outcome) :
    ∀ entry ∈ entries, entry.Tells direction := by
  cases discarded with
  | stopped => simp
  | taken _ _ acknowledged =>
    simp only [List.forall_mem_append, List.forall_mem_cons]
    exact ⟨trivial, by simp, acknowledged.tells⟩

theorem Arrived.tells {deadline : Option Deadline} {outcome : Except Stop Cursors}
    (arrived : Arrived deadline entries outcome) : ∀ entry ∈ entries, entry.Tells direction := by
  cases deadline with
  | some deadline => exact Awaited.tells arrived
  | none => exact Look.tells arrived

theorem BodyAwaited.tells {words : Nat} {outcome : Except Stop Unit}
    (awaited : BodyAwaited words entries outcome) :
    ∀ entry ∈ entries, entry.Tells direction := by
  cases awaited with
  | bare => simp
  | awaited _ awaited => exact awaited.tells

theorem FrameRead.tells {deadline : Option Deadline}
    {outcome : Except Stop (Frame.Header × List UInt32)}
    (read : FrameRead deadline entries outcome) : ∀ entry ∈ entries, entry.Tells .toHost := by
  cases read with
  | missing arrived => exact arrived.tells
  | oversized arrived _ discarded =>
    simp only [List.forall_mem_append, List.forall_mem_cons]
    exact ⟨arrived.tells, trivial, trivial, discarded.tells⟩
  | undiscarded arrived _ discarded =>
    simp only [List.forall_mem_append, List.forall_mem_cons]
    exact ⟨arrived.tells, trivial, trivial, discarded.tells⟩
  | cutOff arrived _ awaited =>
    simp only [List.forall_mem_append, List.forall_mem_cons]
    exact ⟨arrived.tells, trivial, awaited.tells⟩
  | taken arrived _ awaited _ acknowledged =>
    simp only [List.forall_mem_append, List.forall_mem_cons]
    exact ⟨arrived.tells, trivial, awaited.tells, by simp, rfl, acknowledged.tells⟩

theorem MessageRead.tells {capacity : Nat} {deadline : Option Deadline} {assembly : Assembly}
    {outcome : Except Stop Message}
    (read : MessageRead capacity deadline assembly entries outcome) :
    ∀ entry ∈ entries, entry.Tells .toHost := by
  induction read with
  | stopped read => exact read.tells
  | last read _ finished =>
    refine List.forall_mem_append.mpr ⟨read.tells, ?_⟩
    cases finished <;> simp
  | next read _ _ ih => exact List.forall_mem_append.mpr ⟨read.tells, ih⟩
  | unfinished => simp

theorem carries_of_tells (tells : ∀ entry ∈ entries, entry.Tells direction) :
    ∀ event ∈ Trace.events entries, event.Carries direction := by
  intro event told
  obtain ⟨entry, member, shown⟩ := List.mem_filterMap.mp told
  match entry, shown with
  | .event _, rfl => exact tells _ member

/-! ### The two halves -/

theorem eq_unfinished_of_plain {stop : Stop} (plain : stop.Plain)
    (other : ∀ fault, stop ≠ .fault fault) : stop = .unfinished := by
  cases stop with
  | fault fault => exact absurd rfl (other fault)
  | trap => exact plain.elim
  | unfinished => rfl

theorem SendHalf.events_of_ok {link : Link} {message : Message} {route : Route}
    {exchange : Exchange} (half : SendHalf link message route entries (.ok exchange)) :
    ∃ frames, Trace.events entries = .phaseChanged .idle .sending :: frames ∧
      ∀ event ∈ frames, event.Carries .toController := by
  cases half with
  | @sent body written => exact ⟨Trace.events body, rfl, carries_of_tells written.tells⟩

theorem SendHalf.events_of_error {α : Type} {link : Link} {message : Message} {route : Route}
    {stop : Stop} (half : SendHalf link message route entries (.error stop)) :
    ∃ tail, Trace.events entries = .phaseChanged .idle .sending :: tail ∧
      Concluded .sending (.error stop : Except Stop α) tail := by
  cases half with
  | @failed body fault written =>
    refine ⟨Trace.events body ++ [.phaseChanged .sending (.ofFault fault)], ?_,
      .ended rfl (carries_of_tells written.tells) rfl⟩
    simp [Trace.events_append]
  | @abandoned body stop other written =>
    exact ⟨Trace.events body, rfl, .underWay rfl (carries_of_tells written.tells)
      (congrArg _ (eq_unfinished_of_plain written.plain other))⟩

theorem ReadHalf.concluded {capacity : Nat} {deadline : Option Deadline}
    {outcome : Except Stop Message} (half : ReadHalf capacity deadline entries outcome) :
    Concluded .awaitingResponse outcome (Trace.events entries) := by
  cases half with
  | complete read =>
    rw [Trace.events_append]
    exact .ended (by rfl) (carries_of_tells read.tells) rfl
  | failed read =>
    rw [Trace.events_append]
    exact .ended (by rfl) (carries_of_tells read.tells) rfl
  | abandoned other read =>
    refine .underWay rfl (carries_of_tells read.tells) ?_
    obtain plain | ⟨needed, tooSmall⟩ := read.plain rfl
    · exact congrArg _ (eq_unfinished_of_plain plain other)
    · exact absurd tooSmall (other _)

/-! ### Whole calls -/

theorem leads_sending : Phase.Leads .idle [.phaseChanged .idle .sending] .sending :=
  .change rfl .done

theorem leads_awaiting :
    Phase.Leads .idle [.phaseChanged .idle .awaitingResponse] .awaitingResponse :=
  .change rfl .done

theorem Sent.disciplined {link : Link} {message : Message} {route : Route}
    {outcome : Except Stop Unit} (sent : Sent link message route entries outcome) :
    ∃ final, Disciplined True False outcome (Trace.events entries) final := by
  cases sent with
  | complete half =>
    obtain ⟨frames, shown, carried⟩ := half.events_of_ok
    have ended : Concluded .sending (.ok () : Except Stop Unit)
      (frames ++ [.phaseChanged .sending .complete]) := .ended rfl carried rfl
    simpa [Trace.events_append, shown] using ended.disciplined leads_sending
  | stopped half =>
    obtain ⟨tail, shown, concluded⟩ := half.events_of_error
    simpa [shown] using concluded.disciplined leads_sending

theorem Received.disciplined {link : Link} {outcome : Except Stop Message}
    (received : Received link entries outcome) :
    ∃ final, Disciplined False True outcome (Trace.events entries) final := by
  obtain ⟨deadline, half, read, rfl⟩ := received
  simpa using read.concluded.disciplined leads_awaiting

end

variable {σ : Type} [Registers σ] [Clock σ] [Registers.Answers σ]

/-- An exchange awaits a response if its send half, run alone, succeeds. -/
theorem sendAndAwait_disciplined (link : Link) (request : Message) (route : Route)
    (timeout capacity : Nat) (world : World σ) :
    ∃ final, Disciplined True
      (∃ exchange, (sendPhase link request route
        (some (.after (Clock.now world.hardware) timeout)) {}).outcome world = .ok exchange)
      ((sendAndAwait link request route timeout capacity).outcome world)
      (Trace.events ((sendAndAwait link request route timeout capacity).added world)) final := by
  obtain ⟨sending, sent, middle, sends, half⟩ := sendPhase_ensures link request route
    (some (.after (Clock.now world.hardware) timeout)) world.hardware
  rw [show world = ⟨world.hardware, world.trace⟩ from rfl, sends.outcome_eq]
  cases sent with
  | error stop =>
    have performs : (sendAndAwait link request route timeout capacity).Performs world.hardware
        _ _ _ := (Op.Performs.deadlineAfter timeout).bind sends.bind_stop
    rw [performs.outcome_eq, performs.added_eq]
    obtain ⟨tail, shown, concluded⟩ := half.events_of_error
    simpa [shown] using concluded.disciplined leads_sending
  | ok exchange =>
    obtain ⟨frames, shown, carried⟩ := half.events_of_ok
    have phase : exchange = ⟨.sending⟩ := by cases half; rfl
    subst phase
    obtain ⟨_, _, onward, moves, rfl, rfl⟩ :=
      @advance_ensures σ _ _ ⟨.sending⟩ .awaitingResponse rfl middle
    obtain ⟨reading, outcome, after, reads, read⟩ := readPhase_ensures link capacity
      (some (.after (Clock.now world.hardware) timeout)) onward
    have performs : (sendAndAwait link request route timeout capacity).Performs world.hardware
        _ _ _ := (Op.Performs.deadlineAfter timeout).bind (sends.bind (moves.bind reads))
    rw [performs.outcome_eq, performs.added_eq]
    have begun : Phase.Leads .idle (.phaseChanged .idle .sending ::
        (frames ++ [.phaseChanged .sending .awaitingResponse])) .awaitingResponse :=
      leads_sending.append ((Phase.leads_of_carries rfl carried).append (.change rfl .done))
    simpa [Trace.events_append, shown] using read.concluded.disciplined begun

/-- On any hardware a send, an exchange and a read each take one legal walk through the phases, tell
of every frame in the phase of its direction and end in the phase of their outcome. -/
theorem calls_walk_their_phases (link : Link) (message : Message) (route : Route)
    (timeout capacity : Nat) (blocking : Bool) (world : World σ) :
    (∃ final, Disciplined True False ((send link message route).outcome world)
      (Trace.events ((send link message route).added world)) final) ∧
    (∃ final, Disciplined True
      (∃ exchange, (sendPhase link message route
        (some (.after (Clock.now world.hardware) timeout)) {}).outcome world = .ok exchange)
      ((sendAndAwait link message route timeout capacity).outcome world)
      (Trace.events ((sendAndAwait link message route timeout capacity).added world)) final) ∧
    ∃ final, Disciplined False True ((receive link blocking).outcome world)
      (Trace.events ((receive link blocking).added world)) final :=
  ⟨((send_ensures link message route).holds world).1.disciplined,
    sendAndAwait_disciplined link message route timeout capacity world,
    ((receive_ensures link blocking).holds world).1.disciplined⟩

/-- An exchange that nobody answers times out once its two frames have left. -/
theorem unanswered_exchange_times_out :
    Trace.events ((sendAndAwait (.ofConfig {} 0xFED1A000 8) (.ofBytes [1, 2, 3, 4, 5, 6]) ⟨0, 7⟩ 0
      64).added emptyPair) =
      [.phaseChanged .idle .sending,
        .frame .toController ⟨0x00040007⟩ [0x04030201],
        .frame .toController ⟨0x80020007⟩ [0x00000605],
        .phaseChanged .sending .awaitingResponse,
        .phaseChanged .awaitingResponse .timedOut] ∧
    ∃ final, Disciplined True
      (∃ exchange, (sendPhase (.ofConfig {} 0xFED1A000 8) (.ofBytes [1, 2, 3, 4, 5, 6]) ⟨0, 7⟩
        (some (.after (Clock.now emptyPair.hardware) 0)) {}).outcome emptyPair = .ok exchange)
      ((sendAndAwait (.ofConfig {} 0xFED1A000 8) (.ofBytes [1, 2, 3, 4, 5, 6]) ⟨0, 7⟩ 0
        64).outcome emptyPair)
      (Trace.events ((sendAndAwait (.ofConfig {} 0xFED1A000 8) (.ofBytes [1, 2, 3, 4, 5, 6]) ⟨0, 7⟩
        0 64).added emptyPair)) final :=
  ⟨by decide +kernel, (calls_walk_their_phases _ _ _ 0 64 true _).2.1⟩

end Op

end HeciMailbox
