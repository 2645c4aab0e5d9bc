import HeciMailbox.Proofs.Looks

/-! How a run from one known state of the hardware ends.

`Ensures` speaks of every state and of what is recorded; `Reaches` speaks of one state and of what
is left of it, so that a run can be followed access by access. -/

set_option autoImplicit false

namespace HeciMailbox.Op

variable {σ α β : Type} [Registers σ] [Clock σ]

/-- From hardware in state `before`, the operation ends with an outcome and in a state as `goal`
allows. -/
def Reaches (op : Op σ α) (before : σ) (goal : Except Stop α → σ → Prop) : Prop :=
  ∃ entries outcome after, op.Performs before entries outcome after ∧ goal outcome after

/-- From hardware in state `before`, the operation returns `value` and leaves state `after`. -/
def Returns (op : Op σ α) (before : σ) (value : α) (after : σ) : Prop :=
  op.Reaches before fun outcome state => outcome = .ok value ∧ state = after

/-- From hardware in state `before`, the operation stops and leaves state `after`. -/
def Stops (op : Op σ α) (before : σ) (stop : Stop) (after : σ) : Prop :=
  op.Reaches before fun outcome state => outcome = .error stop ∧ state = after

namespace Reaches

variable {op : Op σ α} {before middle : σ} {spec : Except Stop α → σ → Prop}
  {goal : Except Stop β → σ → Prop}

theorem mono {weaker : Except Stop α → σ → Prop} (reaches : op.Reaches before spec)
    (imp : ∀ outcome after, spec outcome after → weaker outcome after) :
    op.Reaches before weaker := by
  obtain ⟨entries, outcome, after, performs, holds⟩ := reaches
  exact ⟨entries, outcome, after, performs, imp outcome after holds⟩

theorem holds {world : World σ} (reaches : op.Reaches world.hardware spec) :
    spec (op.outcome world) (op.reached world).hardware := by
  obtain ⟨entries, outcome, after, performs, holds⟩ := reaches
  rw [show world = ⟨world.hardware, world.trace⟩ from rfl, performs.outcome_eq, performs.reached_eq]
  exact holds

theorem ensured {told : List Entry → Except Stop α → Prop} (reaches : op.Reaches before spec)
    (ensures : op.Ensures told) :
    ∃ entries outcome after, op.Performs before entries outcome after ∧ told entries outcome ∧
      spec outcome after := by
  obtain ⟨entries, outcome, after, performs, holds⟩ := reaches
  exact ⟨_, _, _, performs, ensures.told performs, holds⟩

theorem pure {value : α} (here : spec (.ok value) before) :
    (Pure.pure value : Op σ α).Reaches before spec :=
  ⟨_, _, _, .pure value, here⟩

theorem stop {stop : Stop} (here : spec (.error stop) before) :
    (throw stop : Op σ α).Reaches before spec :=
  ⟨_, _, _, .stop stop, here⟩

theorem fail {fault : Fault} (here : spec (.error (.fault fault)) before) :
    (fail fault : Op σ α).Reaches before spec :=
  stop here

theorem ite_pos {condition : Prop} [Decidable condition] {first second : Op σ α}
    (is : condition) (holds : first.Reaches before spec) :
    (if condition then first else second).Reaches before spec := by
  rwa [if_pos is]

theorem ite_neg {condition : Prop} [Decidable condition] {first second : Op σ α}
    (isNot : ¬condition) (holds : second.Reaches before spec) :
    (if condition then first else second).Reaches before spec := by
  rwa [if_neg isNot]

theorem andThen {next : α → Op σ β} (first : op.Reaches before spec)
    (returned : ∀ value middle, spec (.ok value) middle → (next value).Reaches middle goal)
    (stopped : ∀ stop after, spec (.error stop) after → goal (.error stop) after) :
    (op >>= next).Reaches before goal := by
  obtain ⟨head, outcome, middle, performs, holds⟩ := first
  cases outcome with
  | ok value =>
    obtain ⟨tail, outcome, after, rest, reached⟩ := returned value middle holds
    exact ⟨_, _, _, performs.bind rest, reached⟩
  | error stop => exact ⟨_, _, _, performs.bind_stop, stopped stop middle holds⟩

theorem returning {next : α → Op σ β} {mid : α → σ → Prop}
    (first : op.Reaches before fun outcome middle =>
      ∃ value, outcome = .ok value ∧ mid value middle)
    (returned : ∀ value middle, mid value middle → (next value).Reaches middle goal) :
    (op >>= next).Reaches before goal := by
  refine first.andThen ?_ ?_
  · rintro value middle ⟨_, ⟨⟩, holds⟩
    exact returned value middle holds
  · rintro stop after ⟨_, ⟨⟩, _⟩

theorem following {next : α → Op σ β} {value : α} (first : op.Returns before value middle)
    (rest : (next value).Reaches middle goal) : (op >>= next).Reaches before goal := by
  refine first.andThen ?_ ?_
  · rintro _ _ ⟨⟨⟩, rfl⟩
    exact rest
  · rintro _ _ ⟨⟨⟩, _⟩

theorem stopping {next : α → Op σ β} {stop : Stop} {after : σ}
    (first : op.Stops before stop after) : (op >>= next).Stops before stop after := by
  refine first.andThen ?_ ?_
  · rintro _ _ ⟨⟨⟩, _⟩
  · rintro _ _ ⟨⟨⟩, rfl⟩
    exact ⟨rfl, rfl⟩

theorem last (reaches : (op >>= Pure.pure).Reaches before spec) : op.Reaches before spec := by
  rwa [bind_pure] at reaches

theorem attempt {next : Except Fault α → Op σ β} (first : op.Reaches before spec)
    (returned : ∀ value middle, spec (.ok value) middle →
      (next (.ok value)).Reaches middle goal)
    (failed : ∀ fault middle, spec (.error (.fault fault)) middle →
      (next (.error fault)).Reaches middle goal)
    (stopped : ∀ stop after, (∀ fault, stop ≠ .fault fault) → spec (.error stop) after →
      goal (.error stop) after) :
    (attempt op >>= next).Reaches before goal := by
  obtain ⟨head, outcome, middle, performs, holds⟩ := first
  refine performs.attempt_bind ?_ ?_ ?_
  · rintro value rfl
    exact returned value middle holds
  · rintro fault rfl
    exact failed fault middle holds
  · rintro stop other rfl
    exact stopped stop middle other holds

theorem ofExcept {given : α} {next : α → Op σ β} (rest : (next given).Reaches before goal) :
    (ofExcept (.ok given) >>= next).Reaches before goal := by
  obtain ⟨tail, outcome, after, performs, holds⟩ := rest
  exact ⟨_, _, _, (Performs.pure given).bind performs, holds⟩

theorem record {entry : Entry} {next : Unit → Op σ β} (quiet : entry.access? = none)
    (rest : (next ()).Reaches before goal) : (record entry >>= next).Reaches before goal := by
  obtain ⟨tail, outcome, after, performs, holds⟩ := rest
  exact ⟨_, _, _, (Performs.record quiet).bind performs, holds⟩

theorem emit {event : Event} {next : Unit → Op σ β} (rest : (next ()).Reaches before goal) :
    (emit event >>= next).Reaches before goal :=
  record rfl rest

theorem remark {said : Remark} {next : Unit → Op σ β} (rest : (next ()).Reaches before goal) :
    (remark said >>= next).Reaches before goal :=
  record rfl rest

theorem now {next : Nat → Op σ β} (rest : (next (Clock.now before)).Reaches before goal) :
    (now >>= next).Reaches before goal := by
  obtain ⟨tail, outcome, after, performs, holds⟩ := rest
  exact ⟨_, _, _, Performs.now.bind performs, holds⟩

theorem deadlineAfter {timeout : Nat} {next : Deadline → Op σ β}
    (rest : (next (.after (Clock.now before) timeout)).Reaches before goal) :
    (deadlineAfter timeout >>= next).Reaches before goal := by
  obtain ⟨tail, outcome, after, performs, holds⟩ := rest
  exact ⟨_, _, _, (Performs.deadlineAfter timeout).bind performs, holds⟩

theorem pause {microseconds : Nat} {next : Unit → Op σ β}
    (rest : (next ()).Reaches (Clock.pause microseconds before) goal) :
    (pause microseconds >>= next).Reaches before goal := by
  obtain ⟨tail, outcome, after, performs, holds⟩ := rest
  exact ⟨_, _, _, (Performs.pause microseconds).bind performs, holds⟩

theorem readRegister {offset value : UInt32} {next : UInt32 → Op σ β}
    (answered : Registers.read offset before = some (value, middle))
    (rest : (next value).Reaches middle goal) :
    (readRegister offset >>= next).Reaches before goal := by
  obtain ⟨tail, outcome, after, performs, holds⟩ := rest
  exact ⟨_, _, _, (Performs.readRegister answered).bind performs, holds⟩

theorem writeRegister {offset value : UInt32} {next : Unit → Op σ β}
    (answered : Registers.write offset value before = some middle)
    (rest : (next ()).Reaches middle goal) :
    (writeRegister offset value >>= next).Reaches before goal := by
  obtain ⟨tail, outcome, after, performs, holds⟩ := rest
  exact ⟨_, _, _, (Performs.writeRegister answered).bind performs, holds⟩

theorem advance {exchange : Exchange} {target : Phase} {next : Exchange → Op σ β}
    (legal : exchange.phase.mayPrecede target = true) (rest : (next ⟨target⟩).Reaches before goal) :
    (advance exchange target >>= next).Reaches before goal := by
  obtain ⟨tail, outcome, after, performs, holds⟩ := rest
  exact ⟨_, _, _, (advance_performs before legal).bind performs, holds⟩

end Reaches

end HeciMailbox.Op
