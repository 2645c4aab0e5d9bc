import HeciMailbox.Proofs.Calls
import HeciMailbox.Proofs.Likeness

/-! Operations on two states of the hardware that no access tells apart.

`Twins` is what a relation between states must keep at every access. Operations that `Agree` end the
same way from related states and leave related states. Every call agrees with itself, so what it
returns depends only on what the accesses can tell. -/

set_option autoImplicit false

namespace HeciMailbox

/-- A relation between states of the hardware that every access and every pause keeps. Status words
may differ in the interrupt bits. -/
class Twins {σ : Type} [Registers σ] [Clock σ] (same : σ → σ → Prop) : Prop where
  look {offset : UInt32} {one two : σ} :
    offset ∈ [Register.hostCsr, Register.controllerCsr] → same one two →
    ∃ first one' second two', Registers.read offset one = some (first, one') ∧
      Registers.read offset two = some (second, two') ∧ (Csr.mk first).Alike ⟨second⟩ ∧
      same one' two'
  take {one two : σ} : same one two →
    ∃ word one' two', Registers.read Register.controllerWindow one = some (word, one') ∧
      Registers.read Register.controllerWindow two = some (word, two') ∧ same one' two'
  put {one two : σ} (word : UInt32) : same one two →
    ∃ one' two', Registers.write Register.hostWindow word one = some one' ∧
      Registers.write Register.hostWindow word two = some two' ∧ same one' two'
  mark {one two : σ} {first second : UInt32} :
    first &&& Csr.liveBits = second &&& Csr.liveBits → same one two →
    ∃ one' two', Registers.write Register.hostCsr first one = some one' ∧
      Registers.write Register.hostCsr second two = some two' ∧ same one' two'
  now {one two : σ} : same one two → Clock.now one = Clock.now two
  pause {one two : σ} (microseconds : Nat) : same one two →
    same (Clock.pause microseconds one) (Clock.pause microseconds two)

namespace Op

variable {σ α β : Type}

inductive Reply where
  | done
  | message (message : Message)
  | frames (count : Nat)
  deriving DecidableEq

def ending (op : Op σ α) : Op σ (Except Stop α) := fun world =>
  .ok (op.outcome world) (op.reached world)

variable [Registers σ] [Clock σ]

def reply (link : Link) : Call → Op σ Reply
  | .send message route => do
    send link message route
    pure .done
  | .sendAndAwait request route timeout capacity => do
    pure (.message (← sendAndAwait link request route timeout capacity))
  | .receive blocking => do
    pure (.message (← receive link blocking))
  | .drain => do
    pure (.frames (← drain link))
  | .bringUp => do
    bringUp link
    pure .done
  | .reset => do
    reset link
    pure .done

/-- A run of calls with what each returns. A call that stops leaves the hardware as it is, and the
next one goes on from there. -/
def replies : List (Link × Call) → Op σ (List (Except Stop Reply))
  | [] => pure []
  | (link, call) :: rest => do
    let first ← ending (reply link call)
    let others ← replies rest
    pure (first :: others)

/-- From any two related states the operations end the same way, in related states. -/
def Agree (same : σ → σ → Prop) (first second : Op σ α) : Prop :=
  ∀ one two, same one two →
    ∃ outcome entries entries' one' two', first.Performs one entries outcome one' ∧
      second.Performs two entries' outcome two' ∧ same one' two'

namespace Agree

variable {same : σ → σ → Prop} {first second : Op σ α} {next other : α → Op σ β}

theorem holds {one two : World σ} (agree : Agree same first second)
    (related : same one.hardware two.hardware) :
    first.outcome one = second.outcome two ∧
      same (first.reached one).hardware (second.reached two).hardware := by
  obtain ⟨outcome, entries, entries', one', two', performs, performs', related'⟩ :=
    agree one.hardware two.hardware related
  rw [show one = ⟨one.hardware, one.trace⟩ from rfl, show two = ⟨two.hardware, two.trace⟩ from rfl,
    performs.outcome_eq, performs'.outcome_eq, performs.reached_eq, performs'.reached_eq]
  exact ⟨rfl, related'⟩

theorem pure (value : α) : Agree same (Pure.pure value : Op σ α) (Pure.pure value) :=
  fun _ _ related => ⟨_, _, _, _, _, .pure value, .pure value, related⟩

theorem stop (stop : Stop) : Agree same (throw stop : Op σ α) (throw stop) :=
  fun _ _ related => ⟨_, _, _, _, _, .stop stop, .stop stop, related⟩

theorem fail (fault : Fault) : Agree same (fail fault : Op σ α) (Op.fail fault) := stop _

theorem failing (fault : Fault) :
    Agree same (Op.fail fault >>= next) (Op.fail fault >>= other) :=
  fun _ _ related =>
    ⟨_, _, _, _, _, (Performs.stop _).bind_stop, (Performs.stop _).bind_stop, related⟩

theorem ite {condition : Prop} [Decidable condition] {first' second' : Op σ α}
    (holds : Agree same first second) (fails : Agree same first' second') :
    Agree same (if condition then first else first') (if condition then second else second') := by
  split
  · exact holds
  · exact fails

theorem andThen (head : Agree same first second)
    (tail : ∀ value, Agree same (next value) (other value)) :
    Agree same (first >>= next) (second >>= other) := by
  intro one two related
  obtain ⟨outcome, _, _, one', two', performs, performs', related'⟩ := head one two related
  cases outcome with
  | ok value =>
    obtain ⟨_, _, _, _, _, rest, rest', related''⟩ := tail value one' two' related'
    exact ⟨_, _, _, _, _, performs.bind rest, performs'.bind rest', related''⟩
  | error stop => exact ⟨_, _, _, _, _, performs.bind_stop, performs'.bind_stop, related'⟩

theorem ofExcept (value : Except Fault α) :
    Agree same (ofExcept value : Op σ α) (Op.ofExcept value) := by
  cases value with
  | ok value => exact .pure value
  | error fault => exact .fail fault

theorem record {entry entry' : Entry} (quiet : entry.access? = none)
    (quiet' : entry'.access? = none) :
    Agree same (record entry : Op σ Unit) (Op.record entry') :=
  fun _ _ related => ⟨_, _, _, _, _, .record quiet, .record quiet', related⟩

theorem attempt (agree : Agree same first second) :
    Agree same (attempt first) (Op.attempt second) := by
  intro one two related
  obtain ⟨outcome, _, _, _, _, performs, performs', related'⟩ := agree one two related
  match outcome, performs, performs' with
  | .ok value, performs, performs' =>
    exact ⟨_, _, _, _, _, performs.attempt, performs'.attempt, related'⟩
  | .error (.fault fault), performs, performs' =>
    exact ⟨_, _, _, _, _, performs.attempt_fault, performs'.attempt_fault, related'⟩
  | .error (.trap trap), performs, performs' =>
    exact ⟨_, _, _, _, _, performs.attempt_stop (by simp), performs'.attempt_stop (by simp),
      related'⟩
  | .error .unfinished, performs, performs' =>
    exact ⟨_, _, _, _, _, performs.attempt_stop (by simp), performs'.attempt_stop (by simp),
      related'⟩

theorem ending (agree : Agree same first second) :
    Agree same (ending first) (Op.ending second) := by
  intro one two related
  obtain ⟨outcome, entries, entries', one', two', performs, performs', related'⟩ :=
    agree one two related
  refine ⟨.ok outcome, entries, entries', one', two', ⟨fun trace => ?_, performs.path⟩,
    ⟨fun trace => ?_, performs'.path⟩, related'⟩
  · simp only [Op.ending, performs.outcome_eq, performs.reached_eq, result]
  · simp only [Op.ending, performs'.outcome_eq, performs'.reached_eq, result]

variable [Twins same]

theorem now : Agree same (now : Op σ Nat) Op.now := by
  intro one two related
  have performs : (Op.now : Op σ Nat).Performs two [] (.ok (Clock.now one)) two := by
    rw [Twins.now related]
    exact .now
  exact ⟨_, _, _, _, _, .now, performs, related⟩

theorem deadlineAfter (timeout : Nat) :
    Agree same (deadlineAfter timeout : Op σ Deadline) (Op.deadlineAfter timeout) :=
  now.andThen fun _ => .pure _

theorem pause (microseconds : Nat) :
    Agree same (pause microseconds : Op σ Unit) (Op.pause microseconds) :=
  fun _ _ related =>
    ⟨_, _, _, _, _, .pause microseconds, .pause microseconds, Twins.pause microseconds related⟩

/-! ### Accesses -/

/-- The two sides go on from status words that need only be alike. -/
theorem readStatus {offset : UInt32} {next other : UInt32 → Op σ β}
    (member : offset ∈ [Register.hostCsr, Register.controllerCsr])
    (rest : ∀ one two, (Csr.mk one).Alike ⟨two⟩ → Agree same (next one) (other two)) :
    Agree same (readRegister offset >>= next) (Op.readRegister offset >>= other) := by
  intro one two related
  obtain ⟨value, one', value', two', answered, answered', alike, related'⟩ :=
    Twins.look member related
  obtain ⟨_, _, _, _, _, performs, performs', related''⟩ :=
    rest value value' alike one' two' related'
  exact ⟨_, _, _, _, _, (Performs.readRegister answered).bind performs,
    (Performs.readRegister answered').bind performs', related''⟩

theorem takeWord : Agree same (readRegister Register.controllerWindow : Op σ UInt32)
    (Op.readRegister Register.controllerWindow) := by
  intro one two related
  obtain ⟨word, _, _, answered, answered', related'⟩ := Twins.take related
  exact ⟨_, _, _, _, _, .readRegister answered, .readRegister answered', related'⟩

theorem putWord (word : UInt32) :
    Agree same (writeRegister Register.hostWindow word : Op σ Unit)
      (Op.writeRegister Register.hostWindow word) := by
  intro one two related
  obtain ⟨_, _, answered, answered', related'⟩ := Twins.put word related
  exact ⟨_, _, _, _, _, .writeRegister answered, .writeRegister answered', related'⟩

theorem putStatus {value value' : UInt32}
    (live : value &&& Csr.liveBits = value' &&& Csr.liveBits) :
    Agree same (writeRegister Register.hostCsr value : Op σ Unit)
      (Op.writeRegister Register.hostCsr value') := by
  intro one two related
  obtain ⟨_, _, answered, answered', related'⟩ := Twins.mark live related
  exact ⟨_, _, _, _, _, .writeRegister answered, .writeRegister answered', related'⟩

/-! ### Waits and looks -/

theorem poll {look look' : Op σ (Option α)} (looks : Agree same look look') (interval : Nat)
    (deadline : Deadline) (rounds : Nat) :
    Agree same (poll interval deadline look rounds) (Op.poll interval deadline look' rounds) := by
  induction rounds with
  | zero => exact .stop .unfinished
  | succ rounds ih =>
    refine looks.andThen fun value => ?_
    cases value with
    | some value => exact .pure value
    | none =>
      refine now.andThen fun moment => ?_
      cases deadline.remaining? moment with
      | none => exact .fail _
      | some left => exact (Agree.pause _).andThen fun _ => ih

theorem await {look look' : Op σ (Option α)} (looks : Agree same look look') (link : Link)
    (deadline : Deadline) :
    Agree same (await link deadline look) (Op.await link deadline look') :=
  (Agree.record rfl rfl).andThen fun _ => .poll looks _ _ _

theorem hostCsr {next other : Csr → Op σ β}
    (rest : ∀ one two : Csr, one.Alike two → Agree same (next one) (other two)) :
    Agree same (hostCsr >>= next) (Op.hostCsr >>= other) := by
  unfold Op.hostCsr
  rw [bind_assoc, bind_assoc]
  refine readStatus (by simp) fun one two alike => ?_
  dsimp only
  rw [alike.absent]
  split
  · exact .failing .notPresent
  · rw [pure_bind, pure_bind]
    exact rest ⟨one⟩ ⟨two⟩ alike

theorem controllerCsr {next other : Csr → Op σ β}
    (rest : ∀ one two : Csr, one.Alike two → Agree same (next one) (other two)) :
    Agree same (controllerCsr >>= next) (Op.controllerCsr >>= other) := by
  unfold Op.controllerCsr
  rw [bind_assoc, bind_assoc]
  refine readStatus (by simp) fun one two alike => ?_
  rw [pure_bind, pure_bind]
  exact rest ⟨one⟩ ⟨two⟩ alike

end Agree

/-! ### Every operation agrees with itself -/

section

variable {same : σ → σ → Prop} [Twins same]

theorem agree_writeWords (words : List UInt32) :
    Agree same (writeWords words : Op σ Unit) (writeWords words) := by
  induction words with
  | nil => exact .pure ()
  | cons word rest ih => exact (Agree.putWord word).andThen fun _ => ih

theorem agree_takeWords (count : Nat) :
    Agree same (takeWords count : Op σ (List UInt32)) (takeWords count) := by
  induction count with
  | zero => exact .pure []
  | succ count ih => exact Agree.takeWord.andThen fun word => ih.andThen fun rest => .pure _

theorem agree_hostCursors : Agree same (hostCursors : Op σ Cursors) hostCursors := by
  refine .hostCsr fun one two alike => ?_
  rw [alike.cursors]
  exact .pure _

theorem agree_controllerCursors :
    Agree same (controllerCursors : Op σ Cursors) controllerCursors := by
  refine .controllerCsr fun one two alike => ?_
  rw [alike.absent, alike.cursors]
  exact .ite (.fail _) ((Agree.ofExcept _).andThen fun _ => .pure _)

theorem agree_acknowledge : Agree same (acknowledge : Op σ Unit) acknowledge :=
  .readStatus (by simp) fun _ _ alike => .putStatus (Csr.withDoorbell_and alike.live true)

theorem agree_discardAvailable :
    Agree same (discardAvailable : Op σ Unit) discardAvailable :=
  agree_controllerCursors.andThen fun _ => (agree_takeWords _).andThen fun _ => agree_acknowledge

theorem agree_awaitWords (link : Link) (deadline : Deadline) (words : Nat) :
    Agree same (awaitWords link deadline words : Op σ Unit) (awaitWords link deadline words) :=
  .await (agree_controllerCursors.andThen fun _ => .pure _) link deadline

omit [Twins same] in
theorem agree_advance (exchange : Exchange) (target : Phase) :
    Agree same (advance exchange target : Op σ Exchange) (advance exchange target) := by
  unfold advance
  split
  · exact (Agree.record rfl rfl).andThen fun _ => .pure _
  · exact .stop _

/-! ### Sends -/

theorem agree_requireController :
    Agree same (requireController : Op σ Unit) requireController := by
  refine .controllerCsr fun one two alike => ?_
  rw [alike.absent, alike.ready]
  exact .ite ((Agree.record rfl rfl).andThen fun _ => .fail _) (.pure ())

theorem agree_ensureHostReady : Agree same (ensureHostReady : Op σ Unit) ensureHostReady := by
  refine .hostCsr fun one two alike => ?_
  rw [alike.ready]
  refine .ite ?_ (.pure ())
  exact (Agree.record rfl rfl).andThen fun _ => .putStatus (Csr.withBits_and alike.live _ _)

theorem agree_awaitHostEmpty (link : Link) (deadline : Deadline) :
    Agree same (awaitHostEmpty link deadline : Op σ Cursors) (awaitHostEmpty link deadline) :=
  .await (agree_hostCursors.andThen fun _ => (Agree.ofExcept _).andThen fun _ => .pure _)
    link deadline

theorem agree_sendFragment (route : Route) (cursors : Cursors) (fragment : Frame.Fragment) :
    Agree same (sendFragment route cursors fragment : Op σ Unit)
      (sendFragment route cursors fragment) := by
  unfold sendFragment
  refine (Agree.ofExcept _).andThen fun _ => ?_
  split
  · exact .fail _
  · refine (Agree.putWord _).andThen fun _ => (agree_writeWords _).andThen fun _ => ?_
    refine (Agree.record rfl rfl).andThen fun _ => (Agree.record rfl rfl).andThen fun _ => ?_
    exact .hostCsr fun one two alike => .putStatus (Csr.withDoorbell_and alike.live false)

theorem agree_sendRest (link : Link) (route : Route) (deadline : Deadline)
    (fragments : List Frame.Fragment) :
    Agree same (sendRest link route deadline fragments : Op σ Unit)
      (sendRest link route deadline fragments) := by
  induction fragments with
  | nil => exact .pure ()
  | cons fragment rest ih =>
    exact (agree_awaitHostEmpty link deadline).andThen fun cursors =>
      (agree_sendFragment route cursors fragment).andThen fun _ => ih

theorem agree_sendFragments (link : Link) (route : Route) (deadline : Deadline)
    (fragments : List Frame.Fragment) :
    Agree same (sendFragments link route deadline fragments : Op σ Unit)
      (sendFragments link route deadline fragments) := by
  cases fragments with
  | nil => exact .pure ()
  | cons fragment rest =>
    exact agree_hostCursors.andThen fun cursors =>
      (agree_sendFragment route cursors fragment).andThen fun _ =>
        agree_sendRest link route deadline rest

theorem agree_writeMessage (link : Link) (message : Message) (route : Route)
    (caller : Option Deadline) :
    Agree same (writeMessage link message route caller : Op σ Unit)
      (writeMessage link message route caller) := by
  refine .ite (.fail _) (agree_requireController.andThen fun _ => ?_)
  refine agree_ensureHostReady.andThen fun _ => agree_hostCursors.andThen fun sizing => ?_
  refine .ite ((Agree.record rfl rfl).andThen fun _ => .fail _) ?_
  exact (Agree.deadlineAfter _).andThen fun own => agree_sendFragments _ _ _ _

theorem agree_sendPhase (link : Link) (message : Message) (route : Route)
    (caller : Option Deadline) (exchange : Exchange) :
    Agree same (sendPhase link message route caller exchange : Op σ Exchange)
      (sendPhase link message route caller exchange) := by
  refine (agree_advance _ _).andThen fun sending => ?_
  refine (agree_writeMessage link message route caller).attempt.andThen fun written => ?_
  cases written with
  | ok => exact .pure _
  | error fault => exact (agree_advance _ _).andThen fun _ => .fail _

theorem agree_send (link : Link) (message : Message) (route : Route) :
    Agree same (send link message route : Op σ Unit) (send link message route) :=
  (agree_sendPhase link message route none {}).andThen fun _ =>
    (agree_advance _ _).andThen fun _ => .pure ()

/-! ### Reads -/

theorem agree_awaitFrame (link : Link) (deadline : Option Deadline) :
    Agree same (awaitFrame link deadline : Op σ Cursors) (awaitFrame link deadline) := by
  cases deadline with
  | some deadline =>
    exact .await (agree_controllerCursors.andThen fun _ => .pure _) link deadline
  | none => exact agree_controllerCursors.andThen fun _ => .ite (.fail _) (.pure _)

theorem agree_readFrame (link : Link) (deadline : Option Deadline) :
    Agree same (readFrame link deadline : Op σ (Frame.Header × List UInt32))
      (readFrame link deadline) := by
  refine (agree_awaitFrame link deadline).andThen fun cursors => ?_
  refine Agree.takeWord.andThen fun word => .ite ?_ ?_
  · exact (Agree.record rfl rfl).andThen fun _ => agree_discardAvailable.andThen fun _ => .fail _
  · have taking : Agree same (takeBody ⟨word⟩ : Op σ _) (takeBody ⟨word⟩) :=
      (agree_takeWords _).andThen fun _ => (Agree.record rfl rfl).andThen fun _ =>
        agree_acknowledge.andThen fun _ => .pure _
    refine .ite ?_ taking
    cases deadline with
    | some deadline => exact (agree_awaitWords link deadline _).andThen fun _ => taking
    | none =>
      exact (Agree.deadlineAfter _).andThen fun bodyDeadline =>
        (agree_awaitWords link bodyDeadline _).andThen fun _ => taking

omit [Twins same] in
theorem agree_finishAssembly (capacity : Nat) (assembly : Assembly) :
    Agree same (finishAssembly capacity assembly : Op σ Message)
      (finishAssembly capacity assembly) :=
  .ite ((Agree.record rfl rfl).andThen fun _ => .fail _) (.pure _)

theorem agree_readFrames (link : Link) (capacity rounds : Nat) (deadline : Option Deadline)
    (assembly : Assembly) :
    Agree same (readFrames link capacity rounds deadline assembly : Op σ Message)
      (readFrames link capacity rounds deadline assembly) := by
  induction rounds generalizing deadline assembly with
  | zero => exact .stop .unfinished
  | succ rounds ih =>
    refine (agree_readFrame link deadline).andThen fun (header, payload) => ?_
    exact .ite (agree_finishAssembly _ _) ((Agree.deadlineAfter _).andThen fun _ => ih _ _)

theorem agree_readPhase (link : Link) (exchange : Exchange) (capacity : Nat)
    (deadline : Option Deadline) :
    Agree same (readPhase link exchange capacity deadline : Op σ Message)
      (readPhase link exchange capacity deadline) := by
  refine (agree_readFrames link capacity link.fuel deadline {}).attempt.andThen fun read => ?_
  cases read with
  | ok message => exact (agree_advance _ _).andThen fun _ => .pure _
  | error fault => exact (agree_advance _ _).andThen fun _ => .fail _

theorem agree_sendAndAwait (link : Link) (request : Message) (route : Route)
    (timeout capacity : Nat) :
    Agree same (sendAndAwait link request route timeout capacity : Op σ Message)
      (sendAndAwait link request route timeout capacity) :=
  (Agree.deadlineAfter _).andThen fun _ => (agree_sendPhase _ _ _ _ _).andThen fun _ =>
    (agree_advance _ _).andThen fun _ => agree_readPhase _ _ _ _

theorem agree_receive (link : Link) (blocking : Bool) :
    Agree same (receive link blocking : Op σ Message) (receive link blocking) := by
  have reading : ∀ deadline, Agree same (do
      let awaiting ← (advance {} .awaitingResponse : Op σ Exchange)
      readPhase link awaiting link.device.maxLength deadline) (do
      let awaiting ← advance {} .awaitingResponse
      readPhase link awaiting link.device.maxLength deadline) := fun deadline =>
    (agree_advance _ _).andThen fun _ => agree_readPhase _ _ _ _
  refine .ite ?_ (reading none)
  rw [map_eq_pure_bind, bind_assoc]
  exact (Agree.deadlineAfter _).andThen fun deadline => reading (some deadline)

/-! ### Upkeep -/

theorem agree_discardFrame (link : Link) (depth : UInt8) :
    Agree same (discardFrame link depth : Op σ Unit) (discardFrame link depth) := by
  refine Agree.takeWord.andThen fun word => .ite agree_discardAvailable ?_
  exact (Agree.deadlineAfter _).andThen fun _ => (agree_awaitWords _ _ _).andThen fun _ =>
    (agree_takeWords _).andThen fun _ => agree_acknowledge

theorem agree_discardFrames (link : Link) (limit frames : Nat) :
    Agree same (discardFrames link limit frames : Op σ Nat) (discardFrames link limit frames) := by
  induction limit generalizing frames with
  | zero => exact .pure _
  | succ limit ih =>
    exact agree_controllerCursors.andThen fun cursors =>
      .ite (.pure _) ((agree_discardFrame link cursors.depth).andThen fun _ => ih _)

theorem agree_drain (link : Link) : Agree same (drain link : Op σ Nat) (drain link) := by
  refine (agree_discardFrames link _ _).andThen fun frames => ?_
  exact .ite ((Agree.record rfl rfl).andThen fun _ => .pure _) (.pure _)

theorem agree_bringUp (link : Link) : Agree same (bringUp link : Op σ Unit) (bringUp link) := by
  refine (Agree.deadlineAfter _).andThen fun deadline => ?_
  have looks : Agree same (do
      let csr ← (controllerCsr : Op σ Csr)
      pure (if !csr.absent && csr.ready then some () else none)) (do
      let csr ← controllerCsr
      pure (if !csr.absent && csr.ready then some () else none)) :=
    .controllerCsr fun one two alike => by
      rw [alike.absent, alike.ready]
      exact .pure _
  refine (looks.await link deadline).attempt.andThen fun waited => ?_
  cases waited with
  | error => exact .fail _
  | ok =>
    exact .hostCsr fun one two alike =>
      (Agree.putStatus (Csr.withBits_and alike.live _ _)).andThen fun _ => .record rfl rfl

theorem agree_awaitReady (link : Link) (ready : Bool) :
    Agree same (awaitReady link ready : Op σ Unit) (awaitReady link ready) := by
  refine (Agree.deadlineAfter _).andThen fun deadline => .await ?_ link deadline
  refine .controllerCsr fun one two alike => ?_
  rw [alike.ready]
  exact .pure _

theorem agree_reset (link : Link) : Agree same (reset link : Op σ Unit) (reset link) := by
  refine .controllerCsr fun one two alike => ?_
  rw [alike.absent]
  refine .ite (.fail _) (.hostCsr fun one two alike => ?_)
  refine (Agree.putStatus (Csr.withBits_and alike.live _ _)).andThen fun _ => ?_
  refine (agree_awaitReady link false).andThen fun _ => .hostCsr fun one two alike => ?_
  refine (Agree.putStatus (Csr.withBits_and alike.live _ _)).andThen fun _ => ?_
  refine (agree_awaitReady link true).andThen fun _ => .hostCsr fun one two alike => ?_
  exact (Agree.putStatus (Csr.withBits_and alike.live _ _)).andThen fun _ => .record rfl rfl

/-! ### Calls -/

theorem agree_reply (link : Link) (call : Call) :
    Agree same (reply link call : Op σ Reply) (reply link call) := by
  cases call with
  | send message route => exact (agree_send link message route).andThen fun _ => .pure _
  | sendAndAwait request route timeout capacity =>
    exact (agree_sendAndAwait link request route timeout capacity).andThen fun _ => .pure _
  | receive blocking => exact (agree_receive link blocking).andThen fun _ => .pure _
  | drain => exact (agree_drain link).andThen fun _ => .pure _
  | bringUp => exact (agree_bringUp link).andThen fun _ => .pure _
  | reset => exact (agree_reset link).andThen fun _ => .pure _

theorem agree_replies (calls : List (Link × Call)) :
    Agree same (replies calls : Op σ (List (Except Stop Reply))) (replies calls) := by
  induction calls with
  | nil => exact .pure []
  | cons first rest ih =>
    exact (agree_reply first.1 first.2).ending.andThen fun _ => ih.andThen fun _ => .pure _

end

end Op

end HeciMailbox
