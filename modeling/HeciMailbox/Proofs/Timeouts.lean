import HeciMailbox.Proofs.Backends
import HeciMailbox.Proofs.Receiving

/-! Until when an exchange waits, on any hardware whose clock is never set back.

The caller's timeout bounds every wait of the request and of the first frame of the response. If
that frame does not end the response, the waits for each later one have the receive timeout,
counted anew, whatever is left of the caller's. -/

set_option autoImplicit false

namespace HeciMailbox

/-- A clock that neither a register access nor a pause sets back. -/
class Clock.Steady (σ : Type) [Registers σ] [Clock σ] : Prop where
  read {offset value : UInt32} {state next : σ} :
    Registers.read offset state = some (value, next) → Clock.now state ≤ Clock.now next
  write {offset value : UInt32} {state next : σ} :
    Registers.write offset value state = some next → Clock.now state ≤ Clock.now next
  pause (microseconds : Nat) (state : σ) :
    Clock.now state ≤ Clock.now (Clock.pause microseconds state)

instance {ρ : Type} [Registers ρ] : Clock.Steady (Timed ρ) where
  read answered := by
    simp only [Registers.read] at answered
    split at answered
    · cases answered
      exact Nat.le_refl _
    · cases answered
  write answered := by
    simp only [Registers.write] at answered
    split at answered
    · cases answered
      exact Nat.le_refl _
    · cases answered
  pause _ _ := Nat.le_add_right _ _

theorem Path.now_le {σ : Type} [Registers σ] [Clock σ] [Clock.Steady σ] {before after : σ}
    {entries : List Entry} (path : Path before entries after) :
    Clock.now before ≤ Clock.now after := by
  induction path with
  | done => exact Nat.le_refl _
  | read answered _ ih => exact Nat.le_trans (Clock.Steady.read answered) ih
  | write answered _ ih => exact Nat.le_trans (Clock.Steady.write answered) ih
  | refused _ _ ih => exact ih
  | note _ _ ih => exact ih
  | pause microseconds _ ih => exact Nat.le_trans (Clock.Steady.pause microseconds _) ih

namespace Deadline

/-- The deadline is no later than that of the caller, and a timeout that it reports no longer. -/
structure Inside (deadline caller : Deadline) : Prop where
  moment : ∀ limit, caller.at? = some limit → ∃ moment ≤ limit, deadline.at? = some moment
  reported : deadline.at?.isSome → deadline.milliseconds ≤ caller.milliseconds

theorem Inside.refl (deadline : Deadline) : deadline.Inside deadline :=
  ⟨fun limit known => ⟨limit, Nat.le_refl _, known⟩, fun _ => Nat.le_refl _⟩

theorem isSome_of_remaining? {deadline : Deadline} {now : Nat}
    (passed : deadline.remaining? now = none) : deadline.at?.isSome := by
  unfold remaining? at passed
  split at passed
  · next known => simp [known]
  · cases passed

theorem at?_after_eq_some {now timeout moment : Nat} :
    (after now timeout).at? = some moment ↔ now + timeout = moment ∧ moment < horizon := by
  simp only [after]
  split <;> simp <;> omega

theorem milliseconds_after_le {first second timeout longer : Nat} (shorter : timeout ≤ longer) :
    (after first timeout).milliseconds ≤ (after second longer).milliseconds := by
  simp only [after]
  omega

/-- A deadline set later than the caller's is inside it once the earlier of the two is taken. -/
theorem earliest_inside {start moment : Nat} (later : start ≤ moment) (own timeout : Nat) :
    ((after moment own).earliest (after start timeout)).Inside (after start timeout) := by
  unfold earliest
  split
  · next a b ownAt callerAt =>
    obtain ⟨rfl, ownIn⟩ := at?_after_eq_some.mp ownAt
    obtain ⟨rfl, -⟩ := at?_after_eq_some.mp callerAt
    split
    · exact .refl _
    · next sooner =>
      refine ⟨fun limit known => ⟨_, ?_, ownAt⟩, fun _ => milliseconds_after_le (by omega)⟩
      cases callerAt.symm.trans known
      omega
  · exact .refl _
  · next callerAt =>
    -- The caller waits for ever, and what the clock can still represent is shorter than that.
    refine ⟨fun limit known => by simp [callerAt] at known, fun known => ?_⟩
    obtain ⟨_, ownAt⟩ := Option.isSome_iff_exists.mp known
    obtain ⟨rfl, ownIn⟩ := at?_after_eq_some.mp ownAt
    have beyond : ¬start + timeout < horizon := fun within => by
      simpa [callerAt] using at?_after_eq_some.mpr ⟨rfl, within⟩
    exact milliseconds_after_le (by omega)

/-- The deadline was set `timeout` ahead at `start` or later. -/
def SetSince (start timeout : Nat) (deadline : Deadline) : Prop :=
  ∃ moment, start ≤ moment ∧ deadline = after moment timeout

end Deadline

@[simp] def Entry.Awaits (permitted : Deadline → Prop) : Entry → Prop
  | .wait deadline => permitted deadline
  | .read .. | .write .. | .event _ | .remark _ => True

theorem Entry.Awaits.mono {entry : Entry} {permitted weaker : Deadline → Prop}
    (awaits : entry.Awaits permitted) (imp : ∀ deadline, permitted deadline → weaker deadline) :
    entry.Awaits weaker := by
  cases entry with
  | wait deadline => exact imp deadline awaits
  | _ => trivial

@[simp] def Trace.Waitless (entries : List Entry) : Prop :=
  ∀ entry ∈ entries, ∀ permitted, entry.Awaits permitted

theorem Trace.Waitless.awaits {entries : List Entry} (waitless : Trace.Waitless entries)
    (permitted : Deadline → Prop) : ∀ entry ∈ entries, entry.Awaits permitted :=
  fun entry member => waitless entry member permitted

namespace Op

section

variable {α β : Type} {permitted : Deadline → Prop} {entries head tail : List Entry}

def Prompt (outcome : Except Stop α) : Prop :=
  ∀ milliseconds, outcome ≠ .error (.fault (.timeout milliseconds))

@[simp] theorem prompt_ok (value : α) : Prompt (.ok value : Except Stop α) := by simp [Prompt]

@[simp] theorem prompt_error {stop : Stop} :
    Prompt (.error stop : Except Stop α) ↔
      ∀ milliseconds, stop ≠ .fault (.timeout milliseconds) := by
  simp [Prompt]

theorem Prompt.stopped {stop : Stop} (prompt : Prompt (.error stop : Except Stop α)) :
    Prompt (.error stop : Except Stop β) := by
  simpa using prompt

/-- Each wait has a permitted deadline, and a timeout is that of one of these waits. -/
structure Punctual (permitted : Deadline → Prop) (entries : List Entry)
    (outcome : Except Stop α) : Prop where
  waits : ∀ entry ∈ entries, entry.Awaits permitted
  expired : ∀ milliseconds, outcome = .error (.fault (.timeout milliseconds)) →
    ∃ deadline, .wait deadline ∈ entries ∧ deadline.at?.isSome ∧
      deadline.milliseconds = milliseconds

/-- Each wait has an initial deadline until a frame has been read that does not end its message, and
a renewed one from then on. -/
inductive Extended (initial renewed : Deadline → Prop) :
    List Entry → Except Stop α → Prop where
  | never {entries : List Entry} {outcome : Except Stop α} : Punctual initial entries outcome →
    Extended initial renewed entries outcome
  | extended {begun later : List Entry} {outcome : Except Stop α} {header : Frame.Header}
    {data : List UInt32} : (∀ entry ∈ begun, entry.Awaits initial) →
    .event (.frame .toHost header data) ∈ begun → header.complete = false →
    Punctual renewed later outcome → Extended initial renewed (begun ++ later) outcome

namespace Punctual

theorem mono {weaker : Deadline → Prop} {outcome : Except Stop α}
    (punctual : Punctual permitted entries outcome)
    (imp : ∀ deadline, permitted deadline → weaker deadline) : Punctual weaker entries outcome :=
  ⟨fun entry member => (punctual.waits entry member).mono imp, punctual.expired⟩

theorem of_prompt {outcome : Except Stop α} (waits : ∀ entry ∈ entries, entry.Awaits permitted)
    (prompt : Prompt outcome) : Punctual permitted entries outcome :=
  ⟨waits, fun milliseconds timedOut => absurd timedOut (prompt milliseconds)⟩

theorem after {outcome : Except Stop α} (waits : ∀ entry ∈ head, entry.Awaits permitted)
    (punctual : Punctual permitted tail outcome) : Punctual permitted (head ++ tail) outcome where
  waits := List.forall_mem_append.mpr ⟨waits, punctual.waits⟩
  expired milliseconds timedOut := by
    obtain ⟨deadline, waited, finite, same⟩ := punctual.expired milliseconds timedOut
    exact ⟨deadline, List.mem_append_right _ waited, finite, same⟩

theorem concluded {outcome : Except Stop α} {whole : Except Stop β}
    (punctual : Punctual permitted entries outcome)
    (waitless : Trace.Waitless tail)
    (same : ∀ milliseconds, whole = .error (.fault (.timeout milliseconds)) →
      outcome = .error (.fault (.timeout milliseconds))) :
    Punctual permitted (entries ++ tail) whole where
  waits := List.forall_mem_append.mpr ⟨punctual.waits, waitless.awaits permitted⟩
  expired milliseconds timedOut := by
    obtain ⟨deadline, waited, finite, known⟩ :=
      punctual.expired milliseconds (same milliseconds timedOut)
    exact ⟨deadline, List.mem_append_left _ waited, finite, known⟩

theorem stopped {stop : Stop}
    (punctual : Punctual permitted entries (.error stop : Except Stop α)) :
    Punctual permitted entries (.error stop : Except Stop β) :=
  ⟨punctual.waits, fun milliseconds timedOut => punctual.expired milliseconds (by
    simpa using timedOut)⟩

end Punctual

namespace Extended

variable {initial renewed : Deadline → Prop} {outcome : Except Stop α}

theorem mono {weaker : Deadline → Prop} (extended : Extended initial renewed entries outcome)
    (imp : ∀ deadline, initial deadline → weaker deadline) :
    Extended weaker renewed entries outcome := by
  cases extended with
  | never punctual => exact .never (punctual.mono imp)
  | extended waits read incomplete punctual =>
    exact .extended (fun entry member => (waits entry member).mono imp) read incomplete punctual

theorem after (waits : ∀ entry ∈ head, entry.Awaits initial)
    (extended : Extended initial renewed tail outcome) :
    Extended initial renewed (head ++ tail) outcome := by
  cases extended with
  | never punctual => exact .never (punctual.after waits)
  | extended others read incomplete punctual =>
    rw [← List.append_assoc]
    exact .extended (List.forall_mem_append.mpr ⟨waits, others⟩) (List.mem_append_right _ read)
      incomplete punctual

theorem concluded {whole : Except Stop β} (extended : Extended initial renewed entries outcome)
    (waitless : Trace.Waitless tail)
    (same : ∀ milliseconds, whole = .error (.fault (.timeout milliseconds)) →
      outcome = .error (.fault (.timeout milliseconds))) :
    Extended initial renewed (entries ++ tail) whole := by
  cases extended with
  | never punctual => exact .never (punctual.concluded waitless same)
  | extended others read incomplete punctual =>
    rw [List.append_assoc]
    exact .extended others read incomplete (punctual.concluded waitless same)

theorem reported {caller : Deadline} {start timeout milliseconds : Nat}
    (extended : Extended (·.Inside caller) (·.SetSince start timeout) entries outcome)
    (timedOut : outcome = .error (.fault (.timeout milliseconds))) :
    milliseconds ≤ caller.milliseconds ∨
      milliseconds = (Deadline.after start timeout).milliseconds ∧
      ∃ header data, .event (.frame .toHost header data) ∈ entries ∧ header.complete = false := by
  cases extended with
  | never punctual =>
    obtain ⟨deadline, waited, finite, rfl⟩ := punctual.expired milliseconds timedOut
    have inside : deadline.Inside caller := punctual.waits _ waited
    exact .inl (inside.reported finite)
  | extended _ read incomplete punctual =>
    obtain ⟨deadline, waited, -, rfl⟩ := punctual.expired milliseconds timedOut
    obtain ⟨moment, -, rfl⟩ : deadline.SetSince start timeout := punctual.waits _ waited
    exact .inr ⟨rfl, _, _, List.mem_append_left _ read, incomplete⟩

end Extended

/-! ### Steps that do not wait -/

theorem prompt_reported (csr : Csr) : Prompt (reported csr) := by
  unfold reported
  split <;> simp

theorem prompt_usable (csr : Csr) : Prompt (usable csr) := by
  unfold usable
  split
  · simp
  · split <;> simp [Cursors.overflowFault]

theorem prompt_whenUsable (accept : Cursors → Option α) (csr : Csr) :
    Prompt (whenUsable accept csr) := by
  have prompt := prompt_usable csr
  unfold whenUsable
  cases usual : usable csr with
  | ok cursors => simp [Except.map]
  | error stop => simpa [usual, Except.map] using prompt

theorem Look.punctual {offset : UInt32} {judge : Csr → Except Stop α} {outcome : Except Stop α}
    (look : Look offset judge entries outcome) (prompt : ∀ csr, Prompt (judge csr)) :
    Punctual permitted entries outcome := by
  obtain ⟨csr, rfl, rfl⟩ := look
  exact .of_prompt (by simp) (prompt csr)

theorem Required.punctual {outcome : Except Stop Unit} (required : Required entries outcome) :
    Punctual permitted entries outcome := by
  cases required <;> exact .of_prompt (by simp) (by simp)

theorem HostMarked.punctual {outcome : Except Stop Unit} (marked : HostMarked entries outcome) :
    Punctual permitted entries outcome := by
  cases marked <;> exact .of_prompt (by simp) (by simp)

theorem FragmentSent.punctual {route : Route} {cursors : Cursors} {fragment : Frame.Fragment}
    {outcome : Except Stop Unit} (sent : FragmentSent route cursors fragment entries outcome) :
    Punctual permitted entries outcome := by
  cases sent with
  | noRoom noRoom =>
    refine .of_prompt (by simp) ?_
    rintro milliseconds ⟨⟩
    simp only [Cursors.checkRoom, Cursors.overflowFault] at noRoom
    split at noRoom
    · split at noRoom <;> cases noRoom
    · cases noRoom
  | tooLong => exact .of_prompt (by simp) (by simp)
  | vanished => exact .of_prompt (by simp [frameWritten, or_imp, forall_and]) (by simp)
  | sent => exact .of_prompt (by simp [frameWritten, or_imp, forall_and]) (by simp)

theorem Acknowledged.awaits (acknowledged : Acknowledged entries) :
    ∀ entry ∈ entries, entry.Awaits permitted := by
  obtain ⟨csr, rfl⟩ := acknowledged
  simp

theorem Discarded.punctual {outcome : Except Stop Unit} (discarded : Discarded entries outcome) :
    Punctual permitted entries outcome := by
  cases discarded with
  | @stopped csr stop judged =>
    exact .of_prompt (by simp) (judged ▸ prompt_usable csr).stopped
  | taken _ _ acknowledged =>
    refine .of_prompt ?_ (by simp)
    simp only [List.forall_mem_append, List.forall_mem_cons]
    exact ⟨trivial, by simp, acknowledged.awaits⟩

theorem Finished.punctual {capacity : Nat} {assembly : Assembly} {outcome : Except Stop Message}
    (finished : Finished capacity assembly entries outcome) :
    Punctual permitted entries outcome := by
  cases finished <;> exact .of_prompt (by simp) (by simp)

theorem FrameRead.told {deadline : Option Deadline} {header : Frame.Header} {payload : List UInt32}
    (read : FrameRead deadline entries (.ok (header, payload))) :
    .event (.ofFrame .toHost header payload) ∈ entries := by
  cases read
  simp

end

/-! ### Waits -/

section

variable {σ α β : Type} [Registers σ] [Clock σ]

theorem poll_punctual {look : Op σ (Option α)} {offset : UInt32}
    {judge : Csr → Except Stop (Option α)} (looks : look.Ensures (Look offset judge))
    (prompt : ∀ csr, Prompt (judge csr)) (interval : Nat) (deadline : Deadline) (rounds : Nat) :
    (poll interval deadline look rounds).Ensures fun entries outcome =>
      Trace.Waitless entries ∧
      ∀ milliseconds, outcome = .error (.fault (.timeout milliseconds)) →
        deadline.at?.isSome ∧ deadline.milliseconds = milliseconds := by
  induction rounds with
  | zero => exact .stop ⟨by simp, by simp⟩
  | succ rounds ih =>
    refine looks.look ?_ ?_
    · intro csr value judged
      cases value with
      | some value => exact .pure ⟨by simp, by simp⟩
      | none =>
        refine .now fun moment => ?_
        cases left : deadline.remaining? moment with
        | none => exact .fail ⟨by simp, by
            simpa using Deadline.isSome_of_remaining? left⟩
        | some left =>
          refine .pause (ih.mono fun entries outcome ⟨waitless, expired⟩ => ⟨?_, expired⟩)
          exact List.forall_mem_cons.mpr ⟨fun _ => trivial, waitless⟩
    · intro csr stop judged
      refine ⟨by simp, ?_⟩
      rintro milliseconds ⟨⟩
      exact absurd judged (prompt csr milliseconds)

theorem await_punctual {look : Op σ (Option α)} {offset : UInt32}
    {judge : Csr → Except Stop (Option α)} (looks : look.Ensures (Look offset judge))
    (prompt : ∀ csr, Prompt (judge csr)) (link : Link) (deadline : Deadline) :
    (await link deadline look).Ensures (Punctual (· = deadline)) := by
  refine .record rfl ((poll_punctual looks prompt _ deadline _).mono ?_)
  rintro rounds outcome ⟨waitless, expired⟩
  refine ⟨List.forall_mem_cons.mpr ⟨rfl, waitless.awaits _⟩, ?_⟩
  intro milliseconds timedOut
  exact ⟨deadline, List.mem_cons_self, expired milliseconds timedOut⟩

theorem advance_prompt (exchange : Exchange) (target : Phase) :
    (advance exchange target : Op σ Exchange).Ensures fun entries outcome =>
      Trace.Waitless entries ∧ Prompt outcome := by
  unfold advance
  cases exchange.advance? target with
  | some next => exact .emit (.pure ⟨by simp, by simp⟩)
  | none => exact .stop ⟨by simp, by simp⟩

theorem failure_ensures (exchange : Exchange) (target : Phase) (fault : Fault) :
    Ensures (σ := σ) (α := α) (do
      let _ ← advance exchange target
      fail fault) fun entries outcome => Trace.Waitless entries ∧
        ∀ milliseconds, outcome = .error (.fault (.timeout milliseconds)) →
          fault = .timeout milliseconds := by
  refine (advance_prompt exchange target).andThen ?_ ?_
  · rintro _ head ⟨waitless, -⟩
    exact .fail ⟨by simpa using waitless, by simp⟩
  · rintro stop entries ⟨waitless, prompt⟩
    exact ⟨waitless, fun milliseconds timedOut => absurd timedOut (prompt.stopped milliseconds)⟩

/-! ### Runs that start at a given moment or later -/

/-- From every state of the hardware whose clock shows `start` or later, the operation adds entries
and ends as `spec` allows. -/
def Since (op : Op σ α) (start : Nat) (spec : List Entry → Except Stop α → Prop) : Prop :=
  ∀ before, start ≤ Clock.now before →
    ∃ entries outcome after, op.Performs before entries outcome after ∧ spec entries outcome

theorem Ensures.since {op : Op σ α} {spec : List Entry → Except Stop α → Prop}
    (ensures : op.Ensures spec) (start : Nat) : op.Since start spec :=
  fun before _ => ensures before

namespace Since

variable {op : Op σ α} {start : Nat} {spec : List Entry → Except Stop α → Prop}
  {goal : List Entry → Except Stop β → Prop}

theorem mono {weaker : List Entry → Except Stop α → Prop} (since : op.Since start spec)
    (imp : ∀ entries outcome, spec entries outcome → weaker entries outcome) :
    op.Since start weaker := by
  intro before later
  obtain ⟨entries, outcome, after, performs, holds⟩ := since before later
  exact ⟨entries, outcome, after, performs, imp entries outcome holds⟩

theorem ite {condition : Prop} [Decidable condition] {first second : Op σ α}
    (holds : condition → first.Since start spec) (fails : ¬condition → second.Since start spec) :
    (if condition then first else second).Since start spec := by
  split
  · next is => exact holds is
  · next isNot => exact fails isNot

theorem deadlineAfter {timeout : Nat} {next : Deadline → Op σ β}
    (rest : ∀ deadline, Deadline.SetSince start timeout deadline →
      (next deadline).Since start goal) :
    (deadlineAfter timeout >>= next).Since start goal := by
  intro before later
  obtain ⟨tail, outcome, after, performs, holds⟩ := rest _ ⟨_, later, rfl⟩ before later
  exact ⟨_, _, _, (Performs.deadlineAfter timeout).bind performs, holds⟩

variable [Clock.Steady σ]

theorem andThen {next : α → Op σ β} (first : op.Since start spec)
    (returned : ∀ value head, spec head (.ok value) →
      (next value).Since start fun tail outcome => goal (head ++ tail) outcome)
    (stopped : ∀ stop entries, spec entries (.error stop) → goal entries (.error stop)) :
    (op >>= next).Since start goal := by
  intro before later
  obtain ⟨head, outcome, middle, performs, holds⟩ := first before later
  cases outcome with
  | ok value =>
    obtain ⟨tail, outcome, after, rest, reached⟩ :=
      returned value head holds middle (Nat.le_trans later performs.path.now_le)
    exact ⟨_, _, _, performs.bind rest, reached⟩
  | error stop => exact ⟨_, _, _, performs.bind_stop, stopped stop head holds⟩

theorem attempt {next : Except Fault α → Op σ β} (first : op.Since start spec)
    (returned : ∀ value head, spec head (.ok value) →
      (next (.ok value)).Since start fun tail outcome => goal (head ++ tail) outcome)
    (failed : ∀ fault head, spec head (.error (.fault fault)) →
      (next (.error fault)).Since start fun tail outcome => goal (head ++ tail) outcome)
    (stopped : ∀ stop entries, spec entries (.error stop) → goal entries (.error stop)) :
    (Op.attempt op >>= next).Since start goal := by
  intro before later
  obtain ⟨head, outcome, middle, performs, holds⟩ := first before later
  have since : start ≤ Clock.now middle := Nat.le_trans later performs.path.now_le
  refine performs.attempt_bind ?_ ?_ ?_
  · rintro value rfl
    exact returned value head holds middle since
  · rintro fault rfl
    exact failed fault head holds middle since
  · rintro stop - rfl
    exact stopped stop head holds

theorem bind {permitted : Deadline → Prop} {next : α → Op σ β}
    (first : op.Since start (Punctual permitted))
    (rest : ∀ value, (next value).Since start (Punctual permitted)) :
    (op >>= next).Since start (Punctual permitted) := by
  refine first.andThen ?_ fun stop entries stopped => stopped.stopped
  intro value head punctual
  exact (rest value).mono fun tail outcome others => others.after punctual.waits

theorem following {permitted : Deadline → Prop} {next : α → Op σ β} (first : op.Ensures spec)
    (punctual : ∀ entries outcome, spec entries outcome → Punctual permitted entries outcome)
    (rest : ∀ value, (next value).Since start (Punctual permitted)) :
    (op >>= next).Since start (Punctual permitted) :=
  ((first.mono punctual).since start).bind rest

omit [Clock.Steady σ] in
theorem pure {permitted : Deadline → Prop} (value : α) :
    (Pure.pure value : Op σ α).Since start (Punctual permitted) :=
  (Ensures.pure (.of_prompt (by simp) (by simp))).since start

end Since

variable [Clock.Steady σ] [Registers.Answers σ]

/-! ### The request -/

theorem sendRest_punctual (link : Link) (route : Route) (deadline : Deadline)
    (fragments : List Frame.Fragment) (start : Nat) :
    (sendRest link route deadline fragments : Op σ Unit).Since start
      (Punctual (· = deadline)) := by
  induction fragments with
  | nil => exact .pure ()
  | cons fragment rest ih =>
    have waiting := await_punctual (σ := σ) lookEmptied_ensures (prompt_whenUsable _) link deadline
    refine (waiting.since start).bind fun cursors => ?_
    exact .following (sendFragment_ensures route cursors fragment) (fun _ _ sent => sent.punctual)
      fun _ => ih

theorem sendFragments_punctual (link : Link) (route : Route) (deadline : Deadline)
    (fragments : List Frame.Fragment) (start : Nat) :
    (sendFragments link route deadline fragments : Op σ Unit).Since start
      (Punctual (· = deadline)) := by
  cases fragments with
  | nil => exact .pure ()
  | cons fragment rest =>
    refine .following hostCursors_ensures (fun _ _ look => look.punctual prompt_reported)
      fun cursors => ?_
    exact .following (sendFragment_ensures route cursors fragment) (fun _ _ sent => sent.punctual)
      fun _ => sendRest_punctual link route deadline rest start

theorem writeMessage_punctual (link : Link) (message : Message) (route : Route)
    (start timeout : Nat) :
    (writeMessage link message route (some (.after start timeout)) : Op σ Unit).Since start
      (Punctual (·.Inside (.after start timeout))) := by
  have failing : ∀ {fault : Fault}, Prompt (.error (.fault fault) : Except Stop Unit) →
      (fail fault : Op σ Unit).Since start (Punctual (·.Inside (.after start timeout))) :=
    fun prompt => (Ensures.fail (.of_prompt (by simp) prompt)).since start
  refine .ite (fun _ => failing (by simp)) fun _ => ?_
  refine .following requireController_ensures (fun _ _ required => required.punctual) fun _ => ?_
  refine .following ensureHostReady_ensures (fun _ _ marked => marked.punctual) fun _ => ?_
  refine .following hostCursors_ensures (fun _ _ look => look.punctual prompt_reported)
    fun cursors => ?_
  refine .ite (fun _ => ?_) fun _ => ?_
  · exact (Ensures.remark (.fail (.of_prompt (by simp) (by simp)))).since start
  · refine .deadlineAfter fun own later => ?_
    obtain ⟨moment, later, rfl⟩ := later
    refine (sendFragments_punctual link route _ _ start).mono fun _ _ punctual => ?_
    exact punctual.mono fun _ same => same ▸ Deadline.earliest_inside later _ timeout

theorem sendPhase_punctual (link : Link) (message : Message) (route : Route)
    (start timeout : Nat) :
    (sendPhase link message route (some (.after start timeout)) {} : Op σ Exchange).Since start
      (Punctual (·.Inside (.after start timeout))) := by
  refine .following (advance_prompt _ _)
    (fun _ _ ⟨waitless, prompt⟩ => .of_prompt (waitless.awaits _) prompt) fun sending => ?_
  refine (writeMessage_punctual link message route start timeout).attempt ?_ ?_ ?_
  · intro _ entries punctual
    exact (Ensures.pure (punctual.concluded (by simp) (by simp))).since start
  · intro fault entries punctual
    refine ((failure_ensures sending _ fault).mono ?_).since start
    rintro tail outcome ⟨waitless, same⟩
    exact punctual.concluded waitless fun milliseconds timedOut => by rw [same _ timedOut]
  · intro stop entries stopped
    exact stopped.stopped

/-! ### The response -/

theorem readFrame_punctual (link : Link) (deadline : Deadline) (start : Nat) :
    (readFrame link (some deadline) : Op σ (Frame.Header × List UInt32)).Since start
      (Punctual (· = deadline)) := by
  have arriving := await_punctual (σ := σ)
    (looks_whenUsable controllerCursors_ensures filledAny) (prompt_whenUsable _) link deadline
  refine (arriving.since start).bind fun cursors => ?_
  have reading : (readRegister Register.controllerWindow : Op σ UInt32).Ensures
      (Punctual (· = deadline)) :=
    .last (.readRegister (by decide) fun _ => .pure (.of_prompt (by simp) (by simp)))
  refine (reading.since start).bind fun word => .ite (fun _ => ?_) fun _ => ?_
  · have saying : (remark (.oversizedFrame ⟨word⟩ cursors.depth) : Op σ Unit).Ensures
        (Punctual (· = deadline)) :=
      .last (.remark (.pure (.of_prompt (by simp) (by simp))))
    refine (saying.since start).bind fun _ => ?_
    refine .following discardAvailable_ensures (fun _ _ discarded => discarded.punctual)
      fun _ => ?_
    refine Ensures.since (.fail (.of_prompt (by simp) ?_)) start
    simp [Cursors.overflowFault]
  · have taking : (takeBody ⟨word⟩ : Op σ _).Since start (Punctual (· = deadline)) := by
      refine ((takeBody_ensures ⟨word⟩).mono ?_).since start
      rintro _ _ ⟨payload, acknowledgement, -, acknowledged, rfl, rfl⟩
      refine .of_prompt ?_ (by simp)
      simp only [List.forall_mem_append, List.forall_mem_cons]
      exact ⟨by simp, trivial, acknowledged.awaits⟩
    refine .ite (fun _ => ?_) fun _ => taking
    have waiting := await_punctual (σ := σ)
      (looks_whenUsable controllerCursors_ensures (filledTo (Frame.Header.mk word).words))
      (prompt_whenUsable _) link deadline
    exact (waiting.since start).bind fun _ => taking

/-- The frames of a response are read, the first until `deadline` and each later one until the
receive timeout after the frame before it had been read. -/
inductive Renewing (link : Link) : Deadline → σ → List Entry → Except Stop Message → Prop where
  | stopped {deadline : Deadline} {before after : σ} {entries : List Entry} {stop : Stop} :
    (readFrame link (some deadline)).Performs before entries (.error stop) after →
    Punctual (· = deadline) entries (.error stop : Except Stop Message) →
    Renewing link deadline before entries (.error stop)
  | last {deadline : Deadline} {before middle : σ} {reading ending : List Entry}
    {header : Frame.Header} {payload : List UInt32} {outcome : Except Stop Message} :
    (readFrame link (some deadline)).Performs before reading (.ok (header, payload)) middle →
    header.complete = true → Punctual (· = deadline) (reading ++ ending) outcome →
    Renewing link deadline before (reading ++ ending) outcome
  | next {deadline : Deadline} {before middle : σ} {reading later : List Entry}
    {header : Frame.Header} {payload : List UInt32} {outcome : Except Stop Message} :
    (readFrame link (some deadline)).Performs before reading (.ok (header, payload)) middle →
    header.complete = false → (∀ entry ∈ reading, entry.Awaits (· = deadline)) →
    Renewing link (.after (Clock.now middle) link.config.receiveTimeout) middle later outcome →
    Renewing link deadline before (reading ++ later) outcome
  | unfinished {deadline : Deadline} {before : σ} :
    Renewing link deadline before [] (.error .unfinished)

theorem readFrames_renewing (link : Link) (capacity rounds : Nat) (deadline : Deadline)
    (assembly : Assembly) (before : σ) :
    ∃ entries outcome after,
      (readFrames link capacity rounds (some deadline) assembly).Performs before entries outcome
        after ∧
      Renewing link deadline before entries outcome := by
  induction rounds generalizing deadline assembly before with
  | zero => exact ⟨_, _, _, .stop _, .unfinished⟩
  | succ rounds ih =>
    obtain ⟨reading, read, middle, performs, punctual⟩ :=
      readFrame_punctual link deadline 0 before (Nat.zero_le _)
    cases read with
    | error stop => exact ⟨_, _, _, performs.bind_stop, .stopped performs punctual.stopped⟩
    | ok frame =>
      obtain ⟨header, payload⟩ := frame
      cases complete : header.complete with
      | true =>
        obtain ⟨ending, outcome, after, finishing, finished⟩ := finishAssembly_ensures capacity
          (assembly.add capacity header.length payload) middle
        refine ⟨_, _, after, performs.bind (by simpa [complete] using finishing), ?_⟩
        exact .last performs complete (finished.punctual.after punctual.waits)
      | false =>
        obtain ⟨later, outcome, after, rest, renewing⟩ :=
          ih (.after (Clock.now middle) link.config.receiveTimeout)
            (assembly.add capacity header.length payload) middle
        refine ⟨_, _, after, performs.bind ?_, .next performs complete punctual.waits renewing⟩
        simpa [complete] using (Performs.deadlineAfter _).bind rest

theorem readPhase_renewing (link : Link) (capacity : Nat) (deadline : Deadline) (before : σ) :
    ∃ entries outcome after,
      (readPhase link ⟨.awaitingResponse⟩ capacity (some deadline)).Performs before entries outcome
        after ∧
      ∃ reading ending, entries = reading ++ ending ∧ Trace.Waitless ending ∧
        Renewing link deadline before reading outcome := by
  obtain ⟨reading, outcome, middle, performs, renewing⟩ :=
    readFrames_renewing link capacity link.fuel deadline {} before
  refine performs.attempt_bind ?_ ?_ ?_
  · rintro message rfl
    exact ⟨_, _, _, (advance_performs middle rfl).bind (.pure message), _, _, rfl, by simp,
      renewing⟩
  · rintro fault rfl
    have ending := advance_performs middle (mayPrecede_ofFault_of_awaiting fault)
    exact ⟨_, _, _, ending.bind (.stop _), _, _, rfl, by simp, renewing⟩
  · rintro stop - rfl
    exact ⟨_, [], by simp, by simp, renewing⟩

/-- The waits of an exchange. Those of the request are inside the caller's deadline, and this
deadline itself is that of the first frame of the response. -/
inductive ExchangeWaits (link : Link) (request : Message) (route : Route) (caller : Deadline)
    (before : σ) : List Entry → Except Stop Message → Prop where
  | unsent {entries : List Entry} {stop : Stop} {after : σ} :
    (sendPhase link request route (some caller) {}).Performs before entries (.error stop) after →
    Punctual (·.Inside caller) entries (.error stop : Except Stop Message) →
    ExchangeWaits link request route caller before entries (.error stop)
  | answered {sending reading ending : List Entry} {middle : σ} {outcome : Except Stop Message} :
    (sendPhase link request route (some caller) {}).Performs before sending (.ok ⟨.sending⟩)
      middle →
    (∀ entry ∈ sending, entry.Awaits (·.Inside caller)) →
    Renewing link caller middle reading outcome → Trace.Waitless ending →
    ExchangeWaits link request route caller before
      (sending ++ .event (.phaseChanged .sending .awaitingResponse) :: (reading ++ ending)) outcome

theorem sendAndAwait_waits (link : Link) (request : Message) (route : Route)
    (timeout capacity : Nat) (before : σ) :
    ∃ entries outcome after,
      (sendAndAwait link request route timeout capacity).Performs before entries outcome after ∧
      ExchangeWaits link request route (.after (Clock.now before) timeout) before entries
        outcome := by
  have setting := @Performs.deadlineAfter _ _ _ before timeout
  obtain ⟨sending, sent, middle, performs, punctual⟩ :=
    sendPhase_punctual link request route (Clock.now before) timeout before (Nat.le_refl _)
  cases sent with
  | error stop =>
    exact ⟨_, _, _, setting.bind performs.bind_stop, .unsent performs punctual.stopped⟩
  | ok exchange =>
    obtain rfl : exchange = ⟨.sending⟩ := by
      cases (sendPhase_ensures link request route _).told performs
      rfl
    obtain ⟨_, outcome, after, reads, reading, ending, rfl, waitless, renewing⟩ :=
      readPhase_renewing link capacity (.after (Clock.now before) timeout) middle
    have waits : ExchangeWaits link request route (.after (Clock.now before) timeout) before
        (sending ++ .event (.phaseChanged .sending .awaitingResponse) :: (reading ++ ending))
        outcome := .answered performs punctual.waits renewing waitless
    have moving := advance_performs middle
      (show Phase.mayPrecede .sending .awaitingResponse = true from rfl)
    exact ⟨_, _, _, setting.bind (performs.bind (moving.bind reads)), waits⟩

namespace Renewing

variable {link : Link} {deadline : Deadline} {before : σ} {start : Nat} {entries : List Entry}
  {outcome : Except Stop Message}

omit [Registers.Answers σ] in
theorem since (renewing : Renewing link deadline before entries outcome)
    (later : start ≤ Clock.now before)
    (set : deadline.SetSince start link.config.receiveTimeout) :
    Punctual (·.SetSince start link.config.receiveTimeout) entries outcome := by
  induction renewing with
  | stopped _ punctual => exact punctual.mono fun _ same => same ▸ set
  | last _ _ punctual => exact punctual.mono fun _ same => same ▸ set
  | next performs _ waits _ ih =>
    have since := Nat.le_trans later performs.path.now_le
    exact (ih since ⟨_, since, rfl⟩).after fun entry member =>
      (waits entry member).mono fun _ same => same ▸ set
  | unfinished => exact .of_prompt (by simp) (by simp)

theorem extended (renewing : Renewing link deadline before entries outcome)
    (later : start ≤ Clock.now before) :
    Extended (· = deadline) (·.SetSince start link.config.receiveTimeout) entries outcome := by
  cases renewing with
  | stopped _ punctual => exact .never punctual
  | last _ _ punctual => exact .never punctual
  | next performs incomplete waits renewing =>
    have since := Nat.le_trans later performs.path.now_le
    have read := (readFrame_ensures link _).told performs
    exact .extended waits read.told incomplete (renewing.since since ⟨_, since, rfl⟩)
  | unfinished => exact .never (.of_prompt (by simp) (by simp))

end Renewing

theorem ExchangeWaits.extended {link : Link} {request : Message} {route : Route}
    {caller : Deadline} {before : σ} {entries : List Entry} {outcome : Except Stop Message}
    (waits : ExchangeWaits link request route caller before entries outcome) :
    Extended (·.Inside caller) (·.SetSince (Clock.now before) link.config.receiveTimeout) entries
      outcome := by
  cases waits with
  | unsent _ punctual => exact .never punctual
  | answered performs sending renewing waitless =>
    have reading := renewing.extended performs.path.now_le
    have inside : ∀ deadline, deadline = caller → deadline.Inside caller := by
      rintro _ rfl
      exact .refl _
    have moving : ∀ entry ∈ [Entry.event (.phaseChanged .sending .awaitingResponse)],
        entry.Awaits (·.Inside caller) := by simp
    have concluded := (reading.mono inside).concluded waitless fun _ timedOut => timedOut
    exact .after sending (.after moving concluded)

/-- Every wait of an exchange is over when the caller's timeout is, up to and including the waits
for the first frame of the response. Each later frame has the receive timeout, counted from when
the frame before it had been read. So a timeout longer than the caller's is reported only after a
frame that does not end the response, and then it is the receive timeout. -/
theorem exchange_waits_as_long_as_its_caller (link : Link) (request : Message) (route : Route)
    (timeout capacity : Nat) (world : World σ) :
    let start := Clock.now world.hardware
    let caller := Deadline.after start timeout
    let entries := (sendAndAwait link request route timeout capacity).added world
    let outcome := (sendAndAwait link request route timeout capacity).outcome world
    ExchangeWaits link request route caller world.hardware entries outcome ∧
      Extended (·.Inside caller) (·.SetSince start link.config.receiveTimeout) entries outcome ∧
      ∀ milliseconds, outcome = .error (.fault (.timeout milliseconds)) →
        milliseconds ≤ caller.milliseconds ∨
          milliseconds = (Deadline.after start link.config.receiveTimeout).milliseconds ∧
          ∃ header data, .event (.frame .toHost header data) ∈ entries ∧
            header.complete = false := by
  intro start caller entries outcome
  obtain ⟨added, ended, after, performs, waits⟩ :=
    sendAndAwait_waits link request route timeout capacity world.hardware
  rw [← performs.added_eq world.trace, ← performs.outcome_eq world.trace] at waits
  exact ⟨waits, waits.extended, fun milliseconds timedOut => waits.extended.reported timedOut⟩

end

/-- The controller answers with a frame that has no content and does not end the response, and then
falls silent. -/
def stalling : World (Timed Bus.Replay) :=
  ⟨⟨⟨[0x08000008], [0x08000008, 0x08010008, 0x08010108], [0x00000007]⟩, 0⟩, #[]⟩

/-- An exchange that may take no time at all waits three milliseconds and reports them. -/
theorem later_frame_outlasts_the_timeout :
    .wait ⟨some 3000, 3⟩ ∈ (sendAndAwait (.ofConfig { receiveMilliseconds := 3 } 0xFED1A000 8)
      (.ofBytes [1, 2, 3, 4]) ⟨0, 7⟩ 0 64).added stalling ∧
    (sendAndAwait (.ofConfig { receiveMilliseconds := 3 } 0xFED1A000 8)
      (.ofBytes [1, 2, 3, 4]) ⟨0, 7⟩ 0 64).outcome stalling = .error (.fault (.timeout 3)) := by
  decide +kernel

theorem stalling_response_had_begun :
    ∃ header data, .event (.frame .toHost header data) ∈
      (sendAndAwait (.ofConfig { receiveMilliseconds := 3 } 0xFED1A000 8)
        (.ofBytes [1, 2, 3, 4]) ⟨0, 7⟩ 0 64).added stalling ∧ header.complete = false := by
  obtain ⟨-, -, reported⟩ := exchange_waits_as_long_as_its_caller
    (.ofConfig { receiveMilliseconds := 3 } 0xFED1A000 8) (.ofBytes [1, 2, 3, 4]) ⟨0, 7⟩ 0 64
    stalling
  obtain within | ⟨-, begun⟩ := reported 3 (by decide +kernel)
  · exact absurd within (by decide)
  · exact begun

end Op

end HeciMailbox
