import HeciMailbox.Proofs.Receiving
import HeciMailbox.Proofs.Upkeep

/-! How operations stop.

No operation ever breaks a promise of the program, and only the end of a read finds a message too
large for its reader. -/

set_option autoImplicit false

namespace HeciMailbox

/-- The stop is neither a trap nor that of a message too large for its reader. -/
@[simp] def Stop.Plain : Stop → Prop
  | .fault (.tooSmall ..) | .trap _ => False
  | .fault (.overflow ..) | .fault .notPresent | .fault (.timeout _) | .fault (.badLength ..)
  | .fault .noData | .unfinished => True

namespace Op

section

variable {entries : List Entry} {stop : Stop}

theorem reported_plain {csr : Csr} (judged : reported csr = .error stop) : stop.Plain := by
  obtain ⟨-, rfl⟩ := reported_eq_error.mp judged
  trivial

theorem usable_plain {csr : Csr} (judged : usable csr = .error stop) : stop.Plain := by
  unfold usable at judged
  split at judged
  · cases judged
    trivial
  · split at judged
    · cases judged
      trivial
    · cases judged

theorem whenUsable_plain {α : Type} {accept : Cursors → Option α} {csr : Csr}
    (judged : whenUsable accept csr = .error stop) : stop.Plain := by
  unfold whenUsable at judged
  cases usual : usable csr with
  | ok cursors => simp [usual, Except.map] at judged
  | error other =>
    simp only [usual, Except.map, Except.error.injEq] at judged
    exact judged ▸ usable_plain usual

theorem checkRoom_plain {cursors : Cursors} {words : Nat} {fault : Fault}
    (noRoom : cursors.checkRoom words = .error fault) : (Stop.fault fault).Plain := by
  unfold Cursors.checkRoom at noRoom
  split at noRoom
  · split at noRoom
    · cases noRoom
    · cases noRoom
      trivial
  · cases noRoom
    trivial

theorem Waited.plain {α : Type} {offset : UInt32} {judge : Csr → Except Stop (Option α)}
    {deadline : Deadline} {outcome : Except Stop α}
    (waited : Waited offset judge deadline entries outcome) (failed : outcome = .error stop)
    (judged : ∀ csr stop, judge csr = .error stop → stop.Plain) : stop.Plain := by
  induction waited with
  | found => cases failed
  | stopped wrong =>
    cases failed
    exact judged _ _ wrong
  | late => cases failed; trivial
  | again _ _ ih => exact ih failed
  | unfinished => cases failed; trivial

theorem Awaited.plain {α : Type} {offset : UInt32} {judge : Csr → Except Stop (Option α)}
    {deadline : Deadline} (awaited : Awaited offset judge deadline entries (.error stop))
    (judged : ∀ csr stop, judge csr = .error stop → stop.Plain) : stop.Plain := by
  obtain ⟨rounds, -, waited⟩ := awaited
  exact waited.plain rfl judged

/-! ### Sends -/

theorem Required.plain (required : Required entries (.error stop)) : stop.Plain := by
  cases required
  trivial

theorem HostMarked.plain (marked : HostMarked entries (.error stop)) : stop.Plain := by
  cases marked
  trivial

theorem FragmentSent.plain {route : Route} {cursors : Cursors} {fragment : Frame.Fragment}
    (sent : FragmentSent route cursors fragment entries (.error stop)) : stop.Plain := by
  cases sent with
  | noRoom noRoom => exact checkRoom_plain noRoom
  | tooLong => trivial
  | vanished => trivial

theorem Opened.plain {deadline : Deadline} {first : Bool}
    (opened : Opened deadline first entries (.error stop)) : stop.Plain := by
  cases first with
  | true =>
    obtain ⟨csr, -, judged⟩ := opened
    exact reported_plain judged.symm
  | false => exact Awaited.plain opened fun _ _ => whenUsable_plain

theorem FragmentsSent.plain {route : Route} {deadline : Deadline} {first : Bool}
    {fragments : List Frame.Fragment} {outcome : Except Stop Unit}
    (sent : FragmentsSent route deadline first fragments entries outcome)
    (failed : outcome = .error stop) : stop.Plain := by
  induction sent with
  | done => cases failed
  | closed opened => cases failed; exact opened.plain
  | stopped _ stopped => cases failed; exact stopped.plain
  | next _ _ _ ih => exact ih failed

theorem MessageWritten.plain {link : Link} {message : Message} {route : Route}
    (written : MessageWritten link message route entries (.error stop)) : stop.Plain := by
  cases written with
  | badLength => trivial
  | unready _ required => exact required.plain
  | unmarked _ _ marked => exact marked.plain
  | unsized => trivial
  | shallow => trivial
  | sent _ _ _ _ _ sent => exact sent.plain rfl

theorem SendHalf.plain {link : Link} {message : Message} {route : Route}
    (half : SendHalf link message route entries (.error stop)) : stop.Plain := by
  cases half with
  | failed written => exact written.plain
  | abandoned _ written => exact written.plain

theorem Sent.plain {link : Link} {message : Message} {route : Route}
    (sent : Sent link message route entries (.error stop)) : stop.Plain := by
  cases sent with
  | stopped half => exact half.plain

/-! ### Reads -/

theorem Discarded.plain (discarded : Discarded entries (.error stop)) : stop.Plain := by
  cases discarded with
  | stopped judged => exact usable_plain judged

theorem Arrived.plain {deadline : Option Deadline}
    (arrived : Arrived deadline entries (.error stop)) :
    stop.Plain := by
  cases deadline with
  | some deadline => exact Awaited.plain arrived fun _ _ => whenUsable_plain
  | none =>
    obtain ⟨csr, -, judged⟩ := arrived
    unfold filledNow at judged
    split at judged
    · split at judged
      · cases judged
        trivial
      · cases judged
    · next wrong =>
      cases judged
      exact usable_plain wrong

theorem BodyAwaited.plain {words : Nat} (awaited : BodyAwaited words entries (.error stop)) :
    stop.Plain := by
  cases awaited with
  | awaited _ awaited => exact awaited.plain fun _ _ => whenUsable_plain

theorem FrameRead.plain {deadline : Option Deadline}
    (read : FrameRead deadline entries (.error stop)) : stop.Plain := by
  cases read with
  | missing arrived => exact arrived.plain
  | oversized => trivial
  | undiscarded _ _ discarded => exact discarded.plain
  | cutOff _ _ awaited => exact awaited.plain

theorem MessageRead.plain {capacity : Nat} {deadline : Option Deadline} {assembly : Assembly}
    {outcome : Except Stop Message} (read : MessageRead capacity deadline assembly entries outcome)
    (failed : outcome = .error stop) :
    stop.Plain ∨ ∃ needed, stop = .fault (.tooSmall needed capacity) := by
  induction read with
  | stopped read => cases failed; exact .inl read.plain
  | last _ _ finished =>
    cases finished with
    | oversized => cases failed; exact .inr ⟨_, rfl⟩
    | whole => cases failed
  | next _ _ _ ih => exact ih failed
  | unfinished => cases failed; exact .inl trivial

theorem ReadHalf.plain {capacity : Nat} {deadline : Option Deadline}
    (half : ReadHalf capacity deadline entries (.error stop)) :
    stop.Plain ∨ ∃ needed, stop = .fault (.tooSmall needed capacity) := by
  cases half with
  | failed read => exact read.plain rfl
  | abandoned _ read => exact read.plain rfl

/-! ### Upkeep -/

theorem FrameDiscarded.plain {depth : UInt8}
    (discarded : FrameDiscarded depth entries (.error stop)) :
    stop.Plain := by
  cases discarded with
  | oversized _ discarded => exact discarded.plain
  | cutOff _ awaited => exact awaited.plain fun _ _ => whenUsable_plain

theorem FramesDiscarded.plain {frames : Nat} {outcome : Except Stop Nat}
    (discarded : FramesDiscarded frames entries outcome) (failed : outcome = .error stop) :
    stop.Plain := by
  induction discarded with
  | limit => cases failed
  | stopped judged => cases failed; exact usable_plain judged
  | empty => cases failed
  | undiscarded _ _ undiscarded => cases failed; exact undiscarded.plain
  | next _ _ _ _ ih => exact ih failed

theorem Drained.plain (drained : Drained entries (.error stop)) : stop.Plain := by
  cases drained with
  | stopped discarded => exact discarded.plain rfl

theorem Marked.plain {set clear : UInt32} (marked : Marked set clear entries (.error stop)) :
    stop.Plain := by
  cases marked
  trivial

theorem whenUp_plain {csr : Csr} (judged : whenUp csr = .error stop) : stop.Plain := by
  cases judged

theorem whenReady_plain {ready : Bool} {csr : Csr} (judged : whenReady ready csr = .error stop) :
    stop.Plain := by
  cases judged

theorem BroughtUp.plain (broughtUp : BroughtUp entries (.error stop)) : stop.Plain := by
  cases broughtUp with
  | down => trivial
  | abandoned _ awaited => exact awaited.plain fun _ _ => whenUp_plain
  | gone _ marked => exact marked.plain

theorem HandshakeStep.plain {set clear : UInt32} {ready : Bool}
    (step : HandshakeStep set clear ready entries (.error stop)) : stop.Plain := by
  cases step with
  | gone marked => exact marked.plain
  | answered _ awaited => exact awaited.plain fun _ _ => whenReady_plain

theorem Reset.plain (reset : Reset entries (.error stop)) : stop.Plain := by
  cases reset with
  | absent => trivial
  | unasked _ step => exact step.plain
  | unreleased _ _ step => exact step.plain
  | unmarked _ _ _ marked => exact marked.plain

end

end Op

end HeciMailbox
