import HeciMailbox.Transport.Op

/-! What an operation does, apart from the trace it is appended to.

`Performs` is the judgement about one run: from a state of the hardware the operation adds entries,
ends with an outcome and leaves the hardware in another state. `Path` says that every access among
the entries was answered by the hardware as it stood then. `Ensures` is the judgement about all
runs: from every state of the hardware the entries and the outcome are as a specification allows. -/

set_option autoImplicit false

namespace HeciMailbox

namespace Register

def readable : List UInt32 := [hostCsr, controllerWindow, controllerCsr]

def writable : List UInt32 := [hostWindow, hostCsr]

end Register

/-- A backend that answers at the registers of the window; it may refuse any other offset. -/
class Registers.Answers (σ : Type) [Registers σ] : Prop where
  read {offset : UInt32} (member : offset ∈ Register.readable) (state : σ) :
    ∃ value next, Registers.read offset state = some (value, next)
  write {offset : UInt32} (member : offset ∈ Register.writable) (value : UInt32) (state : σ) :
    ∃ next, Registers.write offset value state = some next

instance {ρ : Type} [Registers ρ] [Registers.Answers ρ] : Registers.Answers (Timed ρ) where
  read member state := by
    obtain ⟨value, next, answered⟩ := Registers.Answers.read member state.registers
    exact ⟨value, { state with registers := next }, by simp only [Registers.read, answered]⟩
  write member value state := by
    obtain ⟨next, answered⟩ := Registers.Answers.write member value state.registers
    exact ⟨{ state with registers := next }, by simp only [Registers.write, answered]⟩

section Hardware

variable {σ : Type} [Registers σ] [Clock σ]

/-- The hardware goes from one state to another while these entries are made. Pauses leave no entry,
and a refused write changes nothing. -/
inductive Path : σ → List Entry → σ → Prop where
  | done {state : σ} : Path state [] state
  | read {state next after : σ} {offset value : UInt32} {rest : List Entry} :
    Registers.read offset state = some (value, next) → Path next rest after →
    Path state (.read offset value :: rest) after
  | write {state next after : σ} {offset value : UInt32} {rest : List Entry} :
    Registers.write offset value state = some next → Path next rest after →
    Path state (.write offset value :: rest) after
  | refused {state after : σ} {offset value : UInt32} {rest : List Entry} :
    Registers.write offset value state = none → Path state rest after →
    Path state (.write offset value :: rest) after
  | note {state after : σ} {entry : Entry} {rest : List Entry} :
    entry.access? = none → Path state rest after → Path state (entry :: rest) after
  | pause {state after : σ} {rest : List Entry} (microseconds : Nat) :
    Path (Clock.pause microseconds state) rest after → Path state rest after

theorem Path.append {state middle after : σ} {head tail : List Entry}
    (first : Path state head middle) (second : Path middle tail after) :
    Path state (head ++ tail) after := by
  induction first with
  | done => exact second
  | read answered _ ih => exact .read answered (ih second)
  | write answered _ ih => exact .write answered (ih second)
  | refused answered _ ih => exact .refused answered (ih second)
  | note quiet _ ih => exact .note quiet (ih second)
  | pause microseconds _ ih => exact .pause microseconds (ih second)

theorem Path.first {before after : σ} {entry : Entry} {rest : List Entry}
    (path : Path before (entry :: rest) after) :
    ∃ middle, Path before [entry] middle ∧ Path middle rest after := by
  generalize shape : entry :: rest = entries at path
  induction path with
  | done => cases shape
  | read answered path => cases shape; exact ⟨_, .read answered .done, path⟩
  | write answered path => cases shape; exact ⟨_, .write answered .done, path⟩
  | refused answered path => cases shape; exact ⟨_, .refused answered .done, path⟩
  | note quiet path => cases shape; exact ⟨_, .note quiet .done, path⟩
  | pause microseconds _ ih =>
    obtain ⟨middle, first, others⟩ := ih shape
    exact ⟨middle, .pause microseconds first, others⟩

theorem Path.split {before after : σ} {head tail : List Entry}
    (path : Path before (head ++ tail) after) :
    ∃ middle, Path before head middle ∧ Path middle tail after := by
  induction head generalizing before with
  | nil => exact ⟨before, .done, path⟩
  | cons entry head ih =>
    obtain ⟨next, made, others⟩ := path.first
    obtain ⟨middle, first, second⟩ := ih others
    exact ⟨middle, made.append first, second⟩

end Hardware

namespace Op

instance {ε α : Type} [DecidableEq ε] [DecidableEq α] : DecidableEq (Except ε α)
  | .ok value, .ok other => decidable_of_iff (value = other) (by simp)
  | .error why, .error other => decidable_of_iff (why = other) (by simp)
  | .ok _, .error _ | .error _, .ok _ => .isFalse nofun

def result {σ α : Type} (outcome : Except Stop α) (world : World σ) :
    EStateM.Result Stop (World σ) α :=
  match outcome with
  | .ok value => .ok value world
  | .error stop => .error stop world

variable {σ α β : Type}

/-- How a run of `op` from `world` ends. -/
def outcome (op : Op σ α) (world : World σ) : Except Stop α :=
  match op world with
  | .ok value _ => .ok value
  | .error stop _ => .error stop

/-- The world that a run of `op` from `world` leaves. -/
def reached (op : Op σ α) (world : World σ) : World σ :=
  match op world with
  | .ok _ after => after
  | .error _ after => after

/-- What a run of `op` from `world` adds to the trace. -/
def added (op : Op σ α) (world : World σ) : List Entry :=
  (op.reached world).trace.toList.drop world.trace.size

/-! ### Effects of the primitives on a world -/

theorem modifyGet_apply (step : World σ → β × World σ) (world : World σ) :
    (modifyGet step : Op σ β) world = .ok (step world).1 (step world).2 := rfl

theorem modify_apply (step : World σ → World σ) (world : World σ) :
    (modify step : Op σ PUnit) world = .ok () (step world) := rfl

theorem get_apply (world : World σ) : (get : Op σ (World σ)) world = .ok world world := rfl

theorem throw_apply (stop : Stop) (world : World σ) :
    (throw stop : Op σ α) world = .error stop world := rfl

section Judgements

variable [Registers σ] [Clock σ]

/-- Run from hardware in state `before`, the operation makes `entries`, ends with `outcome` and
leaves the hardware in state `after`, whatever was recorded earlier. -/
structure Performs (op : Op σ α) (before : σ) (entries : List Entry) (outcome : Except Stop α)
    (after : σ) : Prop where
  run (trace : Array Entry) :
    op ⟨before, trace⟩ = result outcome ⟨after, trace ++ entries.toArray⟩
  path : Path before entries after

namespace Performs

variable {op : Op σ α} {before middle after : σ} {head tail entries : List Entry}

theorem outcome_eq {outcome : Except Stop α} (performs : op.Performs before entries outcome after)
    (trace : Array Entry) : op.outcome ⟨before, trace⟩ = outcome := by
  cases outcome <;> simp only [Op.outcome, performs.run, result]

theorem reached_eq {outcome : Except Stop α} (performs : op.Performs before entries outcome after)
    (trace : Array Entry) : op.reached ⟨before, trace⟩ = ⟨after, trace ++ entries.toArray⟩ := by
  cases outcome <;> simp only [Op.reached, performs.run, result]

theorem added_eq {outcome : Except Stop α} (performs : op.Performs before entries outcome after)
    (trace : Array Entry) : op.added ⟨before, trace⟩ = entries := by
  simp [added, performs.reached_eq]

theorem unique {after' : σ} {entries' : List Entry} {outcome outcome' : Except Stop α}
    (first : op.Performs before entries outcome after)
    (second : op.Performs before entries' outcome' after') :
    entries = entries' ∧ outcome = outcome' :=
  ⟨(first.added_eq #[]).symm.trans (second.added_eq #[]),
    (first.outcome_eq #[]).symm.trans (second.outcome_eq #[])⟩

theorem pure (value : α) : (Pure.pure value : Op σ α).Performs before [] (.ok value) before :=
  ⟨fun trace => by simp [Pure.pure, EStateM.pure, result], .done⟩

theorem stop (stop : Stop) : (throw stop : Op σ α).Performs before [] (.error stop) before :=
  ⟨fun trace => by simp [throw_apply, result], .done⟩

theorem bind {next : α → Op σ β} {value : α} {outcome : Except Stop β}
    (first : op.Performs before head (.ok value) middle)
    (second : (next value).Performs middle tail outcome after) :
    (op >>= next).Performs before (head ++ tail) outcome after :=
  ⟨fun trace => by
    simp only [Bind.bind, EStateM.bind, first.run, result, second.run, Array.append_assoc,
      List.append_toArray], first.path.append second.path⟩

theorem bind_stop {next : α → Op σ β} {stop : Stop}
    (first : op.Performs before entries (.error stop) after) :
    (op >>= next).Performs before entries (.error stop) after :=
  ⟨fun trace => by simp only [Bind.bind, EStateM.bind, first.run, result], first.path⟩

theorem record {entry : Entry} (quiet : entry.access? = none) :
    (record entry : Op σ Unit).Performs before [entry] (.ok ()) before :=
  ⟨fun trace => by simp [Op.record, modify_apply, result], .note quiet .done⟩

theorem now : (now : Op σ Nat).Performs before [] (.ok (Clock.now before)) before :=
  ⟨fun trace => by
    simp [Op.now, get_apply, Bind.bind, EStateM.bind, Pure.pure, EStateM.pure, result], .done⟩

theorem deadlineAfter (timeout : Nat) :
    (deadlineAfter timeout : Op σ Deadline).Performs before []
      (.ok (Deadline.after (Clock.now before) timeout)) before :=
  bind now (pure _)

theorem pause (microseconds : Nat) :
    (pause microseconds : Op σ Unit).Performs before [] (.ok ())
      (Clock.pause microseconds before) :=
  ⟨fun trace => by simp [Op.pause, modify_apply, result], .pause microseconds .done⟩

theorem readRegister {offset value : UInt32}
    (answered : Registers.read offset before = some (value, after)) :
    (readRegister offset : Op σ UInt32).Performs before [.read offset value] (.ok value) after :=
  ⟨fun trace => by
    simp [Op.readRegister, modifyGet_apply, Bind.bind, EStateM.bind, answered, Pure.pure,
      EStateM.pure, result], .read answered .done⟩

theorem writeRegister {offset value : UInt32}
    (answered : Registers.write offset value before = some after) :
    (writeRegister offset value : Op σ Unit).Performs before [.write offset value] (.ok ()) after :=
  ⟨fun trace => by
    simp [Op.writeRegister, Op.record, modify_apply, modifyGet_apply, Bind.bind, EStateM.bind,
      answered, Pure.pure, EStateM.pure, result], .write answered .done⟩

theorem attempt {value : α} (performs : op.Performs before entries (.ok value) after) :
    (attempt op).Performs before entries (.ok (.ok value)) after :=
  ⟨fun trace => by simp only [Op.attempt, performs.run, result], performs.path⟩

theorem attempt_stop {stop : Stop} (performs : op.Performs before entries (.error stop) after)
    (other : ∀ fault, stop ≠ .fault fault) :
    (Op.attempt op).Performs before entries (.error stop) after :=
  ⟨fun trace => by
    cases stop with
    | fault fault => exact absurd rfl (other fault)
    | trap trap => simp only [Op.attempt, performs.run, result]
    | unfinished => simp only [Op.attempt, performs.run, result], performs.path⟩

theorem attempt_fault {fault : Fault}
    (performs : op.Performs before entries (.error (.fault fault)) after) :
    (Op.attempt op).Performs before entries (.ok (.error fault)) after :=
  ⟨fun trace => by simp only [Op.attempt, performs.run, result], performs.path⟩

-- Only faults become values: a trap and the end of the rounds pass through `attempt`.
theorem attempt_bind {next : Except Fault α → Op σ β} {outcome : Except Stop α}
    {goal : List Entry → Except Stop β → σ → Prop}
    (performs : op.Performs before head outcome middle)
    (returned : ∀ value, outcome = .ok value → ∃ tail ended after,
      (next (.ok value)).Performs middle tail ended after ∧ goal (head ++ tail) ended after)
    (failed : ∀ fault, outcome = .error (.fault fault) → ∃ tail ended after,
      (next (.error fault)).Performs middle tail ended after ∧ goal (head ++ tail) ended after)
    (stopped : ∀ stop, (∀ fault, stop ≠ .fault fault) → outcome = .error stop →
      goal head (.error stop) middle) :
    ∃ entries ended after,
      (Op.attempt op >>= next).Performs before entries ended after ∧ goal entries ended after := by
  match outcome, performs with
  | .ok value, performs =>
    obtain ⟨tail, ended, after, rest, reached⟩ := returned value rfl
    exact ⟨_, _, _, performs.attempt.bind rest, reached⟩
  | .error (.fault fault), performs =>
    obtain ⟨tail, ended, after, rest, reached⟩ := failed fault rfl
    exact ⟨_, _, _, performs.attempt_fault.bind rest, reached⟩
  | .error (.trap trap), performs =>
    have other : ∀ fault, Stop.trap trap ≠ .fault fault := by simp
    exact ⟨_, _, _, (performs.attempt_stop other).bind_stop, stopped _ other rfl⟩
  | .error .unfinished, performs =>
    have other : ∀ fault, Stop.unfinished ≠ .fault fault := by simp
    exact ⟨_, _, _, (performs.attempt_stop other).bind_stop, stopped _ other rfl⟩

end Performs

/-- From every state of the hardware the operation adds entries and ends as `spec` allows. -/
def Ensures (op : Op σ α) (spec : List Entry → Except Stop α → Prop) : Prop :=
  ∀ before, ∃ entries outcome after, op.Performs before entries outcome after ∧ spec entries outcome

namespace Ensures

variable {op : Op σ α} {spec : List Entry → Except Stop α → Prop}
  {goal : List Entry → Except Stop β → Prop}

theorem mono {weaker : List Entry → Except Stop α → Prop} (ensures : op.Ensures spec)
    (imp : ∀ entries outcome, spec entries outcome → weaker entries outcome) :
    op.Ensures weaker := by
  intro before
  obtain ⟨entries, outcome, after, performs, holds⟩ := ensures before
  exact ⟨entries, outcome, after, performs, imp entries outcome holds⟩

theorem told {before after : σ} {entries : List Entry} {outcome : Except Stop α}
    (ensures : op.Ensures spec) (performs : op.Performs before entries outcome after) :
    spec entries outcome := by
  obtain ⟨_, _, _, performs', holds⟩ := ensures before
  obtain ⟨rfl, rfl⟩ := performs.unique performs'
  exact holds

theorem holds (ensures : op.Ensures spec) (world : World σ) :
    spec (op.added world) (op.outcome world) ∧
      (op.reached world).trace = world.trace ++ (op.added world).toArray ∧
      Path world.hardware (op.added world) (op.reached world).hardware := by
  obtain ⟨entries, outcome, after, performs, spec⟩ := ensures world.hardware
  rw [show world = ⟨world.hardware, world.trace⟩ from rfl, performs.added_eq, performs.outcome_eq,
    performs.reached_eq]
  exact ⟨spec, rfl, performs.path⟩

theorem pure {value : α} (here : spec [] (.ok value)) : (Pure.pure value : Op σ α).Ensures spec :=
  fun _ => ⟨_, _, _, .pure value, here⟩

theorem stop {stop : Stop} (here : spec [] (.error stop)) :
    (throw stop : Op σ α).Ensures spec :=
  fun _ => ⟨_, _, _, .stop stop, here⟩

theorem fail {fault : Fault} (here : spec [] (.error (.fault fault))) :
    (fail fault : Op σ α).Ensures spec :=
  stop here

theorem ite {condition : Prop} [Decidable condition] {first second : Op σ α}
    (holds : condition → first.Ensures spec) (fails : ¬condition → second.Ensures spec) :
    (if condition then first else second).Ensures spec := by
  split
  · next is => exact holds is
  · next isNot => exact fails isNot

theorem andThen {next : α → Op σ β} (first : op.Ensures spec)
    (returned : ∀ value head, spec head (.ok value) →
      (next value).Ensures fun tail outcome => goal (head ++ tail) outcome)
    (stopped : ∀ stop entries, spec entries (.error stop) → goal entries (.error stop)) :
    (op >>= next).Ensures goal := by
  intro before
  obtain ⟨head, outcome, middle, performs, holds⟩ := first before
  cases outcome with
  | ok value =>
    obtain ⟨tail, outcome, after, rest, reached⟩ := returned value head holds middle
    exact ⟨_, _, _, performs.bind rest, reached⟩
  | error stop => exact ⟨_, _, _, performs.bind_stop, stopped stop head holds⟩

theorem last (ensures : (op >>= Pure.pure).Ensures spec) : op.Ensures spec := by
  rwa [bind_pure] at ensures

theorem attempt {next : Except Fault α → Op σ β} (first : op.Ensures spec)
    (returned : ∀ value head, spec head (.ok value) →
      (next (.ok value)).Ensures fun tail outcome => goal (head ++ tail) outcome)
    (failed : ∀ fault head, spec head (.error (.fault fault)) →
      (next (.error fault)).Ensures fun tail outcome => goal (head ++ tail) outcome)
    (stopped : ∀ stop entries, (∀ fault, stop ≠ .fault fault) → spec entries (.error stop) →
      goal entries (.error stop)) :
    (attempt op >>= next).Ensures goal := by
  intro before
  obtain ⟨head, outcome, middle, performs, holds⟩ := first before
  refine performs.attempt_bind ?_ ?_ ?_
  · rintro value rfl
    exact returned value head holds middle
  · rintro fault rfl
    exact failed fault head holds middle
  · rintro stop other rfl
    exact stopped stop head other holds

theorem ofExcept {value : Except Fault α} {next : α → Op σ β}
    (returned : ∀ given, value = .ok given → (next given).Ensures goal)
    (failed : ∀ fault, value = .error fault → goal [] (.error (.fault fault))) :
    (ofExcept value >>= next).Ensures goal := by
  cases value with
  | ok given =>
    intro before
    obtain ⟨tail, outcome, after, performs, holds⟩ := returned given rfl before
    exact ⟨_, _, _, (Performs.pure given).bind performs, holds⟩
  | error fault => exact fun _ => ⟨_, _, _, (Performs.stop _).bind_stop, failed fault rfl⟩

theorem record {entry : Entry} {next : Unit → Op σ β} (quiet : entry.access? = none)
    (rest : (next ()).Ensures fun tail outcome => goal (entry :: tail) outcome) :
    (record entry >>= next).Ensures goal := by
  intro before
  obtain ⟨tail, outcome, after, performs, holds⟩ := rest before
  exact ⟨_, _, _, (Performs.record quiet).bind performs, holds⟩

theorem emit {event : Event} {next : Unit → Op σ β}
    (rest : (next ()).Ensures fun tail outcome => goal (.event event :: tail) outcome) :
    (emit event >>= next).Ensures goal :=
  record rfl rest

theorem remark {said : Remark} {next : Unit → Op σ β}
    (rest : (next ()).Ensures fun tail outcome => goal (.remark said :: tail) outcome) :
    (remark said >>= next).Ensures goal :=
  record rfl rest

theorem now {next : Nat → Op σ β} (rest : ∀ moment, (next moment).Ensures goal) :
    (now >>= next).Ensures goal := by
  intro before
  obtain ⟨tail, outcome, after, performs, holds⟩ := rest (Clock.now before) before
  exact ⟨_, _, _, Performs.now.bind performs, holds⟩

theorem deadlineAfter {timeout : Nat} {next : Deadline → Op σ β}
    (rest : ∀ deadline, (next deadline).Ensures goal) :
    (deadlineAfter timeout >>= next).Ensures goal := by
  intro before
  obtain ⟨tail, outcome, after, performs, holds⟩ := rest _ before
  exact ⟨_, _, _, (Performs.deadlineAfter timeout).bind performs, holds⟩

theorem pause {microseconds : Nat} {next : Unit → Op σ β} (rest : (next ()).Ensures goal) :
    (pause microseconds >>= next).Ensures goal := by
  intro before
  obtain ⟨tail, outcome, after, performs, holds⟩ := rest (Clock.pause microseconds before)
  exact ⟨_, _, _, (Performs.pause microseconds).bind performs, holds⟩

theorem readRegister [Registers.Answers σ] {offset : UInt32} {next : UInt32 → Op σ β}
    (member : offset ∈ Register.readable)
    (rest : ∀ value,
      (next value).Ensures fun tail outcome => goal (.read offset value :: tail) outcome) :
    (readRegister offset >>= next).Ensures goal := by
  intro before
  obtain ⟨value, middle, answered⟩ := Registers.Answers.read member before
  obtain ⟨tail, outcome, after, performs, holds⟩ := rest value middle
  exact ⟨_, _, _, (Performs.readRegister answered).bind performs, holds⟩

theorem writeRegister [Registers.Answers σ] {offset value : UInt32} {next : Unit → Op σ β}
    (member : offset ∈ Register.writable)
    (rest : (next ()).Ensures fun tail outcome => goal (.write offset value :: tail) outcome) :
    (writeRegister offset value >>= next).Ensures goal := by
  intro before
  obtain ⟨middle, answered⟩ := Registers.Answers.write member value before
  obtain ⟨tail, outcome, after, performs, holds⟩ := rest middle
  exact ⟨_, _, _, (Performs.writeRegister answered).bind performs, holds⟩

end Ensures

end Judgements

end Op

end HeciMailbox
