import HeciMailbox.Proofs.Calls
import HeciMailbox.Proofs.Timeouts

/-! How long an operation lasts beside a logical clock.

A run is priced by the waits it may come to and by the other entries it may make. No wait looks more
often than there are microseconds to its deadline, since a pause takes at least one; so a bound on
the waits and on the other entries bounds the whole run. What is not bounded is a wait for a moment
that the clock cannot represent: it never gives up. -/

set_option autoImplicit false

namespace HeciMailbox

namespace Deadline

/-- The deadline passes by `limit`, or the clock does not reach that far. -/
def Due (limit : Nat) (deadline : Deadline) : Prop :=
  match deadline.at? with
  | some moment => moment ≤ limit
  | none => horizon ≤ limit

theorem Due.mono {limit later : Nat} {deadline : Deadline} (due : deadline.Due limit)
    (le : limit ≤ later) : deadline.Due later := by
  unfold Due at due ⊢
  split at due <;> exact Nat.le_trans due le

theorem Due.later {now moment patience : Nat} {deadline : Deadline}
    (due : deadline.Due (now + patience)) (later : now ≤ moment) :
    deadline.Due (moment + patience) :=
  due.mono (Nat.add_le_add_right later patience)

theorem due_after {timeout patience : Nat} (short : timeout ≤ patience) (now : Nat) :
    (after now timeout).Due (now + patience) := by
  unfold Due after
  dsimp only
  split <;> next known =>
    split at known
    · next within => cases known <;> omega
    · next beyond => cases known <;> omega

theorem Due.earliest {limit : Nat} {first second : Deadline} (due : first.Due limit)
    (other : second.Due limit) : (first.earliest second).Due limit := by
  unfold Deadline.earliest
  split
  · split
    · exact other
    · exact due
  · exact other
  · exact due

end Deadline

/-- One of the entries is a wait that never gives up. -/
def Trace.Endless (entries : List Entry) : Prop :=
  ∃ deadline, .wait deadline ∈ entries ∧ deadline.at? = none

theorem Trace.Endless.append_right {entries : List Entry} (endless : Trace.Endless entries)
    (more : List Entry) : Trace.Endless (entries ++ more) := by
  obtain ⟨deadline, waited, never⟩ := endless
  exact ⟨deadline, List.mem_append_left _ waited, never⟩

theorem Trace.Endless.append_left {entries : List Entry} (endless : Trace.Endless entries)
    (earlier : List Entry) : Trace.Endless (earlier ++ entries) := by
  obtain ⟨deadline, waited, never⟩ := endless
  exact ⟨deadline, List.mem_append_right _ waited, never⟩

namespace Op

/-- A run from moment `start` to moment `finish` comes to at most `waits` waits, none longer than
`patience`, and makes at most `others` other entries. It is not cut off, unless one of the waits
never gives up; that happens only where the waits may last beyond the clock's range. -/
inductive Lasts {α : Type} (patience waits others start : Nat) (entries : List Entry)
    (outcome : Except Stop α) (finish : Nat) : Prop where
  | ended : outcome ≠ .error .unfinished → entries.length ≤ others + waits * (patience + 2) →
    finish ≤ start + waits * patience → Lasts patience waits others start entries outcome finish
  | endless : Trace.Endless entries → 0 < waits → Deadline.horizon ≤ start + waits * patience →
    Lasts patience waits others start entries outcome finish

section

variable {ρ α β : Type} [Registers ρ] {patience waits others : Nat} {state : Timed ρ}

/-- From hardware in state `before`, the operation lasts no longer than so many waits and other
entries. -/
def Ends (patience waits others : Nat) (op : Op (Timed ρ) α) (before : Timed ρ) : Prop :=
  ∃ entries outcome after, op.Performs before entries outcome after ∧
    Lasts patience waits others before.elapsed entries outcome after.elapsed

theorem Performs.later {op : Op (Timed ρ) α} {entries : List Entry} {outcome : Except Stop α}
    {after : Timed ρ} (performs : op.Performs state entries outcome after) :
    state.elapsed ≤ after.elapsed :=
  performs.path.now_le

namespace Ends

variable {op : Op (Timed ρ) α}

theorem mono {fewer less : Nat} (ends : op.Ends patience fewer less state) (le : fewer ≤ waits)
    (fits : less ≤ others) : op.Ends patience waits others state := by
  obtain ⟨entries, outcome, after, performs, lasts⟩ := ends
  refine ⟨entries, outcome, after, performs, ?_⟩
  have looks := Nat.mul_le_mul_right (patience + 2) le
  have time := Nat.mul_le_mul_right patience le
  cases lasts with
  | ended finished short early => exact .ended finished (by omega) (by omega)
  | endless endless positive beyond => exact .endless endless (by omega) (by omega)

theorem pure {value : α} : (Pure.pure value : Op (Timed ρ) α).Ends patience waits others state :=
  ⟨_, _, _, .pure value, .ended (by simp) (by simp) (Nat.le_add_right _ _)⟩

theorem stop {stop : Stop} (other : stop ≠ .unfinished) :
    (throw stop : Op (Timed ρ) α).Ends patience waits others state :=
  ⟨_, _, _, .stop stop, .ended (by simpa using other) (by simp) (Nat.le_add_right _ _)⟩

theorem fail {fault : Fault} :
    (fail fault : Op (Timed ρ) α).Ends patience waits others state :=
  stop (by simp)

theorem ite {condition : Prop} [Decidable condition] {first second : Op (Timed ρ) α}
    (holds : condition → first.Ends patience waits others state)
    (fails : ¬condition → second.Ends patience waits others state) :
    (if condition then first else second).Ends patience waits others state := by
  split
  · next is => exact holds is
  · next isNot => exact fails isNot

/-- An operation spends a part of what the whole may take, and what follows it the rest. -/
theorem andThen {fewer less : Nat} {next : α → Op (Timed ρ) β}
    (first : op.Ends patience fewer less state) (le : fewer ≤ waits) (fits : less ≤ others)
    (rest : ∀ value head middle, op.Performs state head (.ok value) middle →
      (next value).Ends patience (waits - fewer) (others - less) middle) :
    (op >>= next).Ends patience waits others state := by
  obtain ⟨head, outcome, middle, performs, lasts⟩ := first
  obtain ⟨later, rfl⟩ := Nat.exists_eq_add_of_le le
  obtain ⟨more, rfl⟩ := Nat.exists_eq_add_of_le fits
  have looks := Nat.add_mul fewer later (patience + 2)
  have time := Nat.add_mul fewer later patience
  cases outcome with
  | error stop =>
    refine ⟨_, _, _, performs.bind_stop, ?_⟩
    cases lasts with
    | ended finished short early =>
      exact .ended (by simpa using finished) (by omega) (by omega)
    | endless endless positive beyond => exact .endless endless (by omega) (by omega)
  | ok value =>
    obtain ⟨tail, ended, after, continues, further⟩ := rest value head middle performs
    rw [Nat.add_sub_cancel_left, Nat.add_sub_cancel_left] at further
    refine ⟨_, _, _, performs.bind continues, ?_⟩
    cases lasts with
    | endless endless positive beyond =>
      exact .endless (endless.append_right tail) (by omega) (by omega)
    | ended _ short early =>
      cases further with
      | ended finished shortly soon =>
        exact .ended finished (by rw [List.length_append]; omega) (by omega)
      | endless endless positive beyond =>
        exact .endless (endless.append_left head) (by omega) (by omega)

theorem step {less : Nat} {next : α → Op (Timed ρ) β} (first : op.Ends patience 0 less state)
    (fits : less ≤ others)
    (rest : ∀ value middle, state.elapsed ≤ middle.elapsed →
      (next value).Ends patience waits (others - less) middle) :
    (op >>= next).Ends patience waits others state :=
  first.andThen (Nat.zero_le waits) fits fun value _ middle performs =>
    rest value middle performs.later

theorem attempt (ends : op.Ends patience waits others state) :
    (Op.attempt op).Ends patience waits others state := by
  obtain ⟨entries, outcome, after, performs, lasts⟩ := ends
  have moved : ∀ {given : Except Stop (Except Fault α)},
      (outcome ≠ .error .unfinished → given ≠ .error .unfinished) →
      Lasts patience waits others state.elapsed entries given after.elapsed := by
    intro given same
    cases lasts with
    | ended finished short early => exact .ended (same finished) short early
    | endless endless positive beyond => exact .endless endless positive beyond
  match outcome, performs with
  | .ok value, performs => exact ⟨_, _, _, performs.attempt, moved (by simp)⟩
  | .error (.fault fault), performs => exact ⟨_, _, _, performs.attempt_fault, moved (by simp)⟩
  | .error (.trap trap), performs =>
    exact ⟨_, _, _, performs.attempt_stop (by simp), moved (by simp)⟩
  | .error .unfinished, performs =>
    exact ⟨_, _, _, performs.attempt_stop (by simp), moved (by simp)⟩

/-- An operation that does not wait takes no time. -/
theorem atOnce (ends : op.Ends patience 0 others state) :
    ∃ entries outcome after, op.Performs state entries outcome after ∧
      outcome ≠ .error .unfinished ∧ entries.length ≤ others ∧ after.elapsed = state.elapsed := by
  obtain ⟨entries, outcome, after, performs, lasts⟩ := ends
  cases lasts with
  | endless _ impossible => exact absurd impossible (Nat.lt_irrefl 0)
  | ended finished short early =>
    rw [Nat.zero_mul, Nat.add_zero] at short early
    exact ⟨entries, outcome, after, performs, finished, short,
      Nat.le_antisymm early performs.later⟩

theorem ofExcept {value : Except Fault α} {next : α → Op (Timed ρ) β}
    (returned : ∀ given, value = .ok given → (next given).Ends patience waits others state) :
    (ofExcept value >>= next).Ends patience waits others state := by
  cases value with
  | ok given => exact returned given rfl
  | error fault => exact ⟨_, _, _, (Performs.stop _).bind_stop,
      .ended (by simp) (by simp) (Nat.le_add_right _ _)⟩

theorem record {entry : Entry} (quiet : entry.access? = none) :
    (record entry : Op (Timed ρ) Unit).Ends patience 0 1 state :=
  ⟨_, _, _, .record quiet, .ended (by simp) (by simp) (by simp)⟩

theorem deadlineAfter {timeout : Nat} {next : Deadline → Op (Timed ρ) β}
    (rest : (next (.after state.elapsed timeout)).Ends patience waits others state) :
    (deadlineAfter timeout >>= next).Ends patience waits others state := by
  obtain ⟨tail, outcome, after, performs, lasts⟩ := rest
  exact ⟨_, _, _, (Performs.deadlineAfter timeout).bind performs, lasts⟩

theorem total (ends : ∀ state, op.Ends patience waits others state) :
    op.Ensures fun _ _ => True := by
  intro state
  obtain ⟨entries, outcome, after, performs, -⟩ := ends state
  exact ⟨entries, outcome, after, performs, trivial⟩

variable [Registers.Answers ρ]

theorem readRegister {offset : UInt32} (member : offset ∈ Register.readable) :
    (readRegister offset : Op (Timed ρ) UInt32).Ends patience 0 1 state := by
  obtain ⟨value, registers, answered⟩ := Registers.Answers.read member state.registers
  have moved : Registers.read offset state = some (value, { state with registers }) := by
    simp only [Registers.read, answered]
  exact ⟨_, _, _, .readRegister moved, .ended (by simp) (by simp) (by simp)⟩

theorem writeRegister {offset value : UInt32} (member : offset ∈ Register.writable) :
    (writeRegister offset value : Op (Timed ρ) Unit).Ends patience 0 1 state := by
  obtain ⟨registers, answered⟩ := Registers.Answers.write member value state.registers
  have moved : Registers.write offset value state = some { state with registers } := by
    simp only [Registers.write, answered]
  exact ⟨_, _, _, .writeRegister moved, .ended (by simp) (by simp) (by simp)⟩

end Ends

/-! ### Waits -/

/-- The rounds of a wait with an end: no more than microseconds are left, and one. -/
theorem poll_ends {look : Op (Timed ρ) (Option α)} {deadline : Deadline} {moment : Nat}
    (finite : deadline.at? = some moment) (looks : ∀ state, look.Ends patience 0 1 state)
    (interval : Nat) {rounds : Nat} (enough : moment - state.elapsed < rounds) :
    ∃ entries outcome after,
      (poll interval deadline look rounds).Performs state entries outcome after ∧
      outcome ≠ .error .unfinished ∧ entries.length ≤ moment - state.elapsed + 1 ∧
      after.elapsed ≤ max state.elapsed moment := by
  -- By the rounds, which stay above the microseconds left.
  induction rounds generalizing state with
  | zero => omega
  | succ rounds ih =>
    obtain ⟨seen, outcome, middle, performs, finished, short, still⟩ := (looks state).atOnce
    match outcome, performs with
    | .error stop, performs =>
      refine ⟨_, _, _, performs.bind_stop, by simpa using finished, ?_, ?_⟩ <;> omega
    | .ok (some value), performs =>
      refine ⟨_, _, _, performs.bind (Performs.pure value), by simp, ?_, ?_⟩
      · rw [List.append_nil]; omega
      · omega
    | .ok none, performs =>
      by_cases passed : moment ≤ middle.elapsed
      · refine ⟨seen ++ ([] ++ []), .error (.fault (.timeout deadline.milliseconds)), middle,
          performs.bind (Performs.now.bind ?_), by simp, ?_, ?_⟩
        · rw [@Deadline.remaining?_of_passed _ _ (Clock.now middle) finite passed]
          exact .stop _
        · rw [List.append_nil, List.append_nil]; omega
        · omega
      · -- The pause takes at least a microsecond, and at most what is left.
        let paused : Timed ρ := Clock.pause (min interval (moment - middle.elapsed)) middle
        have moved : paused.elapsed =
            middle.elapsed + max 1 (min interval (moment - middle.elapsed)) := rfl
        obtain ⟨tail, ended, after, continues, more, shortly, soon⟩ :=
          @ih paused (by omega)
        refine ⟨seen ++ ([] ++ ([] ++ tail)), ended, after,
          performs.bind (Performs.now.bind ?_), more, ?_, ?_⟩
        · rw [@Deadline.remaining?_of_early _ _ (Clock.now middle) finite passed]
          exact (Performs.pause _).bind continues
        · rw [List.nil_append, List.nil_append, List.length_append]; omega
        · omega

theorem poll_total {look : Op (Timed ρ) (Option α)} (looks : look.Ensures fun _ _ => True)
    (interval : Nat) (deadline : Deadline) (rounds : Nat) :
    (poll interval deadline look rounds).Ensures fun _ _ => True := by
  induction rounds with
  | zero => exact .stop trivial
  | succ rounds ih =>
    refine looks.andThen ?_ fun _ _ _ => trivial
    intro value _ _
    cases value with
    | some value => exact .pure trivial
    | none =>
      refine .now fun moment => ?_
      cases deadline.remaining? moment with
      | none => exact .fail trivial
      | some left => exact .pause ih

theorem await_ends {look : Op (Timed ρ) (Option α)} {deadline : Deadline} {link : Link}
    (looks : ∀ state, look.Ends patience 0 1 state)
    (due : deadline.Due (state.elapsed + patience)) (enough : patience < link.fuel) :
    (await link deadline look).Ends patience 1 0 state := by
  unfold Deadline.Due at due
  split at due
  · next moment finite =>
    obtain ⟨entries, outcome, after, performs, finished, short, early⟩ :=
      @poll_ends _ _ _ patience state look deadline moment finite looks link.config.pollInterval
        link.fuel (by omega)
    refine ⟨_, _, _, (Performs.record rfl).bind performs, .ended finished ?_ ?_⟩
    · rw [List.length_append, List.length_singleton]; omega
    · omega
  · next never =>
    obtain ⟨entries, outcome, after, performs, -⟩ :=
      poll_total (Ends.total looks) link.config.pollInterval deadline link.fuel state
    exact ⟨_, _, _, (Performs.record rfl).bind performs,
      .endless ⟨deadline, List.mem_cons_self, never⟩ Nat.one_pos (by omega)⟩

end

end Op

end HeciMailbox
