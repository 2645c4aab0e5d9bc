import HeciMailbox.Proofs.Behaviour
import HeciMailbox.Transport.Status

/-! Looks at a status register, and waits made of them.

A look reads one status register once and judges the value. Every wait repeats one look until the
judgement gives a value or a stop, or the deadline has passed after a look that gave neither. -/

set_option autoImplicit false

namespace HeciMailbox

namespace Deadline

variable {deadline : Deadline} {moment now : Nat}

theorem remaining?_of_passed (finite : deadline.at? = some moment) (passed : moment ≤ now) :
    deadline.remaining? now = none := by
  rw [remaining?, finite]
  exact if_pos passed

theorem remaining?_of_early (finite : deadline.at? = some moment) (early : ¬moment ≤ now) :
    deadline.remaining? now = some (moment - now) := by
  rw [remaining?, finite]
  exact if_neg early

end Deadline

namespace Op

variable {α β : Type}

/-- One read of the status register at `offset`, judged by `judge`. -/
def Look (offset : UInt32) (judge : Csr → Except Stop α) (entries : List Entry)
    (outcome : Except Stop α) : Prop :=
  ∃ csr : Csr, entries = [.read offset csr.raw] ∧ outcome = judge csr

/-- The rounds of a wait for `judge` to give a value. -/
inductive Waited (offset : UInt32) (judge : Csr → Except Stop (Option α)) (deadline : Deadline) :
    List Entry → Except Stop α → Prop where
  | found {csr : Csr} {value : α} : judge csr = .ok (some value) →
    Waited offset judge deadline [.read offset csr.raw] (.ok value)
  | stopped {csr : Csr} {stop : Stop} : judge csr = .error stop →
    Waited offset judge deadline [.read offset csr.raw] (.error stop)
  | late {csr : Csr} : judge csr = .ok none →
    Waited offset judge deadline [.read offset csr.raw]
      (.error (.fault (.timeout deadline.milliseconds)))
  | again {csr : Csr} {rest : List Entry} {outcome : Except Stop α} : judge csr = .ok none →
    Waited offset judge deadline rest outcome →
    Waited offset judge deadline (.read offset csr.raw :: rest) outcome
  | unfinished : Waited offset judge deadline [] (.error .unfinished)

def Awaited (offset : UInt32) (judge : Csr → Except Stop (Option α)) (deadline : Deadline)
    (entries : List Entry) (outcome : Except Stop α) : Prop :=
  ∃ rounds, entries = .wait deadline :: rounds ∧ Waited offset judge deadline rounds outcome

theorem Waited.looks {offset : UInt32} {judge : Csr → Except Stop (Option α)} {deadline : Deadline}
    {entries : List Entry} {outcome : Except Stop α}
    (waited : Waited offset judge deadline entries outcome) :
    ∀ entry ∈ entries, ∃ value, entry = .read offset value := by
  induction waited with
  | found judged => simp
  | stopped judged => simp
  | late judged => simp
  | again judged _ ih => simpa using ih
  | unfinished => simp

/-- A wait that gives a value ends with the look that gave it. -/
theorem Waited.last {offset : UInt32} {judge : Csr → Except Stop (Option α)} {deadline : Deadline}
    {entries : List Entry} {value : α}
    (waited : Waited offset judge deadline entries (.ok value)) :
    ∃ earlier csr, entries = earlier ++ [.read offset csr.raw] ∧ judge csr = .ok (some value) ∧
      ∀ entry ∈ earlier, ∃ value, entry = .read offset value := by
  generalize ended : Except.ok value = outcome at waited
  induction waited with
  | @found csr _ judged =>
    cases ended
    exact ⟨[], csr, rfl, judged, by simp⟩
  | stopped judged => cases ended
  | late judged => cases ended
  | @again csr rest _ judged _ ih =>
    obtain ⟨earlier, last, rfl, found, looks⟩ := ih ended
    exact ⟨.read offset csr.raw :: earlier, last, rfl, found, by simpa using looks⟩
  | unfinished => cases ended

/-! ### Judgements -/

def present (csr : Csr) : Except Stop Csr :=
  if csr.absent then .error (.fault .notPresent) else .ok csr

def reported (csr : Csr) : Except Stop Cursors :=
  if csr.absent then .error (.fault .notPresent) else .ok (Cursors.ofCsr csr)

def usable (csr : Csr) : Except Stop Cursors :=
  if csr.absent then .error (.fault .notPresent)
  else if (Cursors.ofCsr csr).overflowed then
    .error (.fault ((Cursors.ofCsr csr).overflowFault 0))
  else .ok (Cursors.ofCsr csr)

def whenUsable (accept : Cursors → Option α) (csr : Csr) : Except Stop (Option α) :=
  (usable csr).map accept

def emptied (cursors : Cursors) : Option Cursors := if cursors.isEmpty then some cursors else none

def filledAny (cursors : Cursors) : Option Cursors := if cursors.isEmpty then none else some cursors

def filledTo (words : Nat) (cursors : Cursors) : Option Unit :=
  if words ≤ cursors.filled.toNat then some () else none

theorem present_eq_ok {csr value : Csr} :
    present csr = .ok value ↔ csr.absent = false ∧ value = csr := by
  unfold present
  cases csr.absent <;> simp [eq_comm]

theorem present_eq_error {csr : Csr} {stop : Stop} :
    present csr = .error stop ↔ csr.absent = true ∧ stop = .fault .notPresent := by
  unfold present
  cases csr.absent <;> simp [eq_comm]

theorem reported_eq_ok {csr : Csr} {cursors : Cursors} :
    reported csr = .ok cursors ↔ csr.absent = false ∧ cursors = Cursors.ofCsr csr := by
  unfold reported
  cases csr.absent <;> simp [eq_comm]

theorem reported_eq_error {csr : Csr} {stop : Stop} :
    reported csr = .error stop ↔ csr.absent = true ∧ stop = .fault .notPresent := by
  unfold reported
  cases csr.absent <;> simp [eq_comm]

theorem usable_eq_ok {csr : Csr} {cursors : Cursors} :
    usable csr = .ok cursors ↔
      csr.absent = false ∧ cursors = Cursors.ofCsr csr ∧ cursors.overflowed = false := by
  unfold usable
  cases csr.absent with
  | true => simp
  | false =>
    cases spilt : (Cursors.ofCsr csr).overflowed with
    | true =>
      simp only [Bool.false_eq_true, ite_false, ite_true, reduceCtorEq, true_and, false_iff]
      rintro ⟨rfl, within⟩
      simp [spilt] at within
    | false =>
      simp only [Bool.false_eq_true, ite_false, Except.ok.injEq, true_and]
      constructor
      · rintro rfl
        exact ⟨rfl, spilt⟩
      · intro same
        exact same.1.symm

theorem whenUsable_eq_ok {accept : Cursors → Option α} {csr : Csr} {value : Option α} :
    whenUsable accept csr = .ok value ↔
      ∃ cursors, usable csr = .ok cursors ∧ accept cursors = value := by
  unfold whenUsable
  cases usable csr <;> simp [Except.map]

section Hardware

variable {σ : Type} [Registers σ] [Clock σ]

theorem Ensures.look {op : Op σ α} {next : α → Op σ β} {offset : UInt32}
    {judge : Csr → Except Stop α} {goal : List Entry → Except Stop β → Prop}
    (first : op.Ensures (Look offset judge))
    (returned : ∀ csr value, judge csr = .ok value →
      (next value).Ensures fun tail outcome => goal (.read offset csr.raw :: tail) outcome)
    (stopped : ∀ csr stop, judge csr = .error stop → goal [.read offset csr.raw] (.error stop)) :
    (op >>= next).Ensures goal := by
  refine first.andThen ?_ ?_
  · rintro value head ⟨csr, rfl, judged⟩
    exact returned csr value judged.symm
  · rintro stop entries ⟨csr, rfl, judged⟩
    exact stopped csr stop judged.symm

theorem poll_ensures {look : Op σ (Option α)} {offset : UInt32}
    {judge : Csr → Except Stop (Option α)} (looks : look.Ensures (Look offset judge))
    (interval : Nat) (deadline : Deadline) (rounds : Nat) :
    (poll interval deadline look rounds).Ensures (Waited offset judge deadline) := by
  -- Nothing is assumed of the clock, so the deadline may pass after any look, and rounds may run
  -- out.
  induction rounds with
  | zero => exact .stop .unfinished
  | succ rounds ih =>
    refine looks.look ?_ ?_
    · intro csr value judged
      cases value with
      | some value => exact .pure (.found judged)
      | none =>
        refine .now fun moment => ?_
        cases deadline.remaining? moment with
        | none => exact .fail (.late judged)
        | some left => exact .pause (ih.mono fun _ _ waited => .again judged waited)
    · intro csr stop judged
      exact .stopped judged

theorem await_ensures {look : Op σ (Option α)} {offset : UInt32}
    {judge : Csr → Except Stop (Option α)} (looks : look.Ensures (Look offset judge))
    (link : Link) (deadline : Deadline) :
    (await link deadline look).Ensures (Awaited offset judge deadline) := by
  refine .record rfl ?_
  refine (poll_ensures looks _ deadline _).mono ?_
  intro rounds outcome waited
  exact ⟨rounds, rfl, waited⟩

theorem looks_whenUsable {look : Op σ Cursors} {offset : UInt32}
    (looks : look.Ensures (Look offset usable)) (accept : Cursors → Option α) :
    (look >>= fun cursors => pure (accept cursors)).Ensures (Look offset (whenUsable accept)) := by
  refine looks.look ?_ ?_
  · intro csr cursors judged
    refine .pure ⟨csr, rfl, ?_⟩
    simp only [whenUsable, judged, Except.map]
  · intro csr stop judged
    exact ⟨csr, rfl, by simp only [whenUsable, judged, Except.map]⟩

variable [Registers.Answers σ]

theorem hostCsr_ensures : (hostCsr : Op σ Csr).Ensures (Look Register.hostCsr present) := by
  refine .readRegister (by simp [Register.readable]) fun value => ?_
  refine .ite (fun gone => ?_) fun here => ?_
  · exact .fail ⟨⟨value⟩, rfl, by simp [present, gone]⟩
  · exact .pure ⟨⟨value⟩, rfl, by simp [present, here]⟩

theorem hostCursors_ensures :
    (hostCursors : Op σ Cursors).Ensures (Look Register.hostCsr reported) := by
  refine hostCsr_ensures.look ?_ ?_
  · intro csr value judged
    obtain ⟨here, rfl⟩ := present_eq_ok.mp judged
    exact .pure ⟨value, rfl, (reported_eq_ok.mpr ⟨here, rfl⟩).symm⟩
  · intro csr stop judged
    exact ⟨csr, rfl, (reported_eq_error.mpr (present_eq_error.mp judged)).symm⟩

theorem controllerCsr_ensures :
    (controllerCsr : Op σ Csr).Ensures (Look Register.controllerCsr .ok) :=
  .readRegister (by simp [Register.readable]) fun value => .pure ⟨⟨value⟩, rfl, rfl⟩

theorem controllerCursors_ensures :
    (controllerCursors : Op σ Cursors).Ensures (Look Register.controllerCsr usable) := by
  refine controllerCsr_ensures.look ?_ (by simp)
  rintro csr _ ⟨⟩
  refine .ite (fun gone => ?_) fun here => ?_
  · exact .fail ⟨csr, rfl, by simp [usable, gone]⟩
  · cases spilt : (Cursors.ofCsr csr).overflowed with
    | true =>
      simp only [Cursors.checkOverflow, spilt]
      exact .fail ⟨csr, rfl, by simp [usable, here, spilt]⟩
    | false =>
      simp only [Cursors.checkOverflow, spilt]
      exact .pure ⟨csr, rfl, by simp [usable, here, spilt]⟩

/-! ### Window accesses and the doorbell -/

theorem writeWords_ensures (words : List UInt32) :
    (writeWords words : Op σ Unit).Ensures fun entries outcome =>
      entries = words.map (.write Register.hostWindow) ∧ outcome = .ok () := by
  induction words with
  | nil => exact .pure ⟨rfl, rfl⟩
  | cons word rest ih =>
    refine .writeRegister (by simp [Register.writable]) (ih.mono ?_)
    rintro _ _ ⟨rfl, rfl⟩
    exact ⟨rfl, rfl⟩

theorem takeWords_ensures (count : Nat) :
    (takeWords count : Op σ (List UInt32)).Ensures fun entries outcome =>
      ∃ words, words.length = count ∧ entries = words.map (.read Register.controllerWindow) ∧
        outcome = .ok words := by
  induction count with
  | zero => exact .pure ⟨[], rfl, rfl, rfl⟩
  | succ count ih =>
    refine .readRegister (by simp [Register.readable]) fun word => ih.andThen ?_ ?_
    · rintro words _ ⟨_, rfl, rfl, ⟨⟩⟩
      exact .pure ⟨word :: words, rfl, by simp, rfl⟩
    · rintro _ _ ⟨_, _, _, ⟨⟩⟩

/-- A frame is acknowledged: the host status is read and written back with the doorbell. -/
def Acknowledged (entries : List Entry) : Prop :=
  ∃ csr : Csr, entries =
    [.read Register.hostCsr csr.raw, .write Register.hostCsr (csr.withDoorbell true)]

theorem acknowledge_ensures :
    (acknowledge : Op σ Unit).Ensures fun entries outcome =>
      Acknowledged entries ∧ outcome = .ok () := by
  refine .readRegister (by simp [Register.readable]) fun value => ?_
  exact .last (.writeRegister (by simp [Register.writable]) (.pure ⟨⟨⟨value⟩, rfl⟩, rfl⟩))

/-- Everything in the ring is taken off and acknowledged once. -/
inductive Discarded : List Entry → Except Stop Unit → Prop where
  | stopped {csr : Csr} {stop : Stop} : usable csr = .error stop →
    Discarded [.read Register.controllerCsr csr.raw] (.error stop)
  | taken {csr : Csr} {cursors : Cursors} {words : List UInt32} {acknowledgement : List Entry} :
    usable csr = .ok cursors → words.length = cursors.filled.toNat →
    Acknowledged acknowledgement →
    Discarded (.read Register.controllerCsr csr.raw ::
      (words.map (.read Register.controllerWindow) ++ acknowledgement)) (.ok ())

theorem discardAvailable_ensures : (discardAvailable : Op σ Unit).Ensures Discarded := by
  refine controllerCursors_ensures.look ?_ fun csr stop judged => .stopped judged
  intro csr cursors judged
  refine (takeWords_ensures _).andThen ?_ ?_
  · rintro _ _ ⟨words, taken, rfl, ⟨⟩⟩
    refine acknowledge_ensures.mono ?_
    rintro _ _ ⟨acknowledged, rfl⟩
    exact .taken judged taken acknowledged
  · rintro _ _ ⟨_, _, _, ⟨⟩⟩

theorem awaitWords_ensures (link : Link) (deadline : Deadline) (words : Nat) :
    (awaitWords link deadline words : Op σ Unit).Ensures
      (Awaited Register.controllerCsr (whenUsable (filledTo words)) deadline) :=
  await_ensures (looks_whenUsable controllerCursors_ensures _) link deadline

omit [Registers.Answers σ] in
theorem advance_performs (before : σ) {exchange : Exchange} {target : Phase}
    (legal : exchange.phase.mayPrecede target = true) :
    (advance exchange target).Performs before [.event (.phaseChanged exchange.phase target)]
      (.ok ⟨target⟩) before := by
  unfold advance Exchange.advance?
  simp only [legal, ite_true]
  exact (Performs.record rfl).bind (.pure _)

omit [Registers.Answers σ] in
theorem advance_ensures {exchange : Exchange} {target : Phase}
    (legal : exchange.phase.mayPrecede target = true) :
    (advance exchange target : Op σ Exchange).Ensures fun entries outcome =>
      entries = [.event (.phaseChanged exchange.phase target)] ∧ outcome = .ok ⟨target⟩ :=
  fun before => ⟨_, _, _, advance_performs before legal, rfl, rfl⟩

theorem mayPrecede_ofFault_of_sending (fault : Fault) :
    Phase.sending.mayPrecede (.ofFault fault) = true := by
  cases fault <;> rfl

theorem mayPrecede_ofFault_of_awaiting (fault : Fault) :
    Phase.awaitingResponse.mayPrecede (.ofFault fault) = true := by
  cases fault <;> rfl

end Hardware

end Op

end HeciMailbox
