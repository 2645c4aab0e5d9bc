import HeciMailbox.Proofs.Calls

/-! What a bound on the rounds decides, on any hardware.

The rounds of a link only cut a run off. A run that is not cut off goes the same way with any more
of them, so what it does is what the loops would do without a bound. -/

set_option autoImplicit false

namespace HeciMailbox.Op

variable {σ α β : Type}

/-- Wherever `op` is not cut off, `longer` does the same. -/
def Prolonged (op longer : Op σ α) : Prop :=
  ∀ world, op.outcome world = .error .unfinished ∨ longer world = op world

namespace Prolonged

variable {op longer : Op σ α}

theorem refl (op : Op σ α) : op.Prolonged op := fun _ => .inr rfl

theorem cutOff (longer : Op σ α) : (throw .unfinished : Op σ α).Prolonged longer :=
  fun _ => .inl rfl

theorem bind {next further : α → Op σ β} (first : op.Prolonged longer)
    (rest : ∀ value, (next value).Prolonged (further value)) :
    (op >>= next).Prolonged (longer >>= further) := by
  intro world
  have same := first world
  unfold outcome at same ⊢
  simp only [Bind.bind, EStateM.bind]
  cases ran : op world with
  | ok value after =>
    rw [ran] at same
    obtain impossible | same := same
    · cases impossible
    · rw [same]
      exact rest value after
  | error stop after =>
    rw [ran] at same
    obtain unfinished | same := same
    · cases unfinished
      exact .inl rfl
    · rw [same]
      exact .inr rfl

theorem after {next further : α → Op σ β} (rest : ∀ value, (next value).Prolonged (further value)) :
    (op >>= next).Prolonged (op >>= further) :=
  (refl op).bind rest

theorem attempt (prolonged : op.Prolonged longer) :
    (Op.attempt op).Prolonged (Op.attempt longer) := by
  intro world
  have same := prolonged world
  unfold outcome at same ⊢
  unfold Op.attempt
  cases ran : op world with
  | ok value after =>
    rw [ran] at same
    obtain impossible | same := same
    · cases impossible
    · exact .inr (by rw [same])
  | error stop after =>
    rw [ran] at same
    obtain unfinished | same := same
    · cases unfinished
      exact .inl rfl
    · exact .inr (by rw [same])

theorem ite {condition : Prop} [Decidable condition] {first second other third : Op σ α}
    (holds : first.Prolonged other) (fails : second.Prolonged third) :
    (if condition then first else second).Prolonged (if condition then other else third) := by
  split
  · exact holds
  · exact fails

end Prolonged

section

variable [Clock σ]

theorem poll_prolonged (interval : Nat) (deadline : Deadline) (look : Op σ (Option α))
    {rounds more : Nat} (le : rounds ≤ more) :
    (poll interval deadline look rounds).Prolonged (poll interval deadline look more) := by
  induction rounds generalizing more with
  | zero => exact .cutOff _
  | succ rounds ih =>
    obtain ⟨more, rfl⟩ := Nat.exists_eq_add_of_le' (Nat.le_trans (Nat.le_add_left 1 rounds) le)
    refine .after fun value => ?_
    cases value with
    | some value => exact .refl _
    | none =>
      refine .after fun moment => ?_
      cases deadline.remaining? moment with
      | none => exact .refl _
      | some left => exact .after fun _ => ih (Nat.le_of_succ_le_succ le)

variable {link : Link} {more : Nat} (le : link.fuel ≤ more)

include le

theorem await_prolonged (deadline : Deadline) (look : Op σ (Option α)) :
    (await link deadline look).Prolonged (await { link with fuel := more } deadline look) :=
  .after fun _ => poll_prolonged _ _ _ le

variable [Registers σ]

theorem sendRest_prolonged (route : Route) (deadline : Deadline)
    (fragments : List Frame.Fragment) :
    (sendRest link route deadline fragments : Op σ Unit).Prolonged
      (sendRest { link with fuel := more } route deadline fragments) := by
  induction fragments with
  | nil => exact .refl _
  | cons fragment rest ih => exact (await_prolonged le _ _).bind fun _ => .after fun _ => ih

theorem sendFragments_prolonged (route : Route) (deadline : Deadline)
    (fragments : List Frame.Fragment) :
    (sendFragments link route deadline fragments : Op σ Unit).Prolonged
      (sendFragments { link with fuel := more } route deadline fragments) := by
  cases fragments with
  | nil => exact .refl _
  | cons fragment rest => exact .after fun _ => .after fun _ => sendRest_prolonged le _ _ _

theorem writeMessage_prolonged (message : Message) (route : Route) (caller : Option Deadline) :
    (writeMessage link message route caller : Op σ Unit).Prolonged
      (writeMessage { link with fuel := more } message route caller) := by
  refine .ite (.refl _) (.after fun _ => .after fun _ => .after fun _ => .ite (.refl _) ?_)
  exact .after fun _ => sendFragments_prolonged le _ _ _

theorem sendPhase_prolonged (message : Message) (route : Route) (caller : Option Deadline)
    (exchange : Exchange) :
    (sendPhase link message route caller exchange : Op σ Exchange).Prolonged
      (sendPhase { link with fuel := more } message route caller exchange) :=
  .after fun _ => (writeMessage_prolonged le _ _ _).attempt.bind fun _ => .refl _

theorem awaitFrame_prolonged (deadline : Option Deadline) :
    (awaitFrame link deadline : Op σ Cursors).Prolonged
      (awaitFrame { link with fuel := more } deadline) := by
  cases deadline with
  | some deadline => exact await_prolonged le _ _
  | none => exact .refl _

theorem readFrame_prolonged (deadline : Option Deadline) :
    (readFrame link deadline : Op σ (Frame.Header × List UInt32)).Prolonged
      (readFrame { link with fuel := more } deadline) := by
  refine (awaitFrame_prolonged le deadline).bind fun _ => .after fun _ => ?_
  refine .ite (.refl _) (.ite ?_ (.refl _))
  cases deadline with
  | some deadline => exact (await_prolonged le _ _).bind fun _ => .refl _
  | none => exact .after fun _ => (await_prolonged le _ _).bind fun _ => .refl _

theorem readFrames_prolonged (capacity : Nat) {rounds later : Nat} (fewer : rounds ≤ later)
    (deadline : Option Deadline) (assembly : Assembly) :
    (readFrames link capacity rounds deadline assembly : Op σ Message).Prolonged
      (readFrames { link with fuel := more } capacity later deadline assembly) := by
  induction rounds generalizing later deadline assembly with
  | zero => exact .cutOff _
  | succ rounds ih =>
    obtain ⟨later, rfl⟩ :=
      Nat.exists_eq_add_of_le' (Nat.le_trans (Nat.le_add_left 1 rounds) fewer)
    refine (readFrame_prolonged le deadline).bind fun _ => .ite (.refl _) ?_
    exact .after fun _ => ih (Nat.le_of_succ_le_succ fewer) _ _

theorem readPhase_prolonged (exchange : Exchange) (capacity : Nat) (deadline : Option Deadline) :
    (readPhase link exchange capacity deadline : Op σ Message).Prolonged
      (readPhase { link with fuel := more } exchange capacity deadline) :=
  (readFrames_prolonged le capacity le deadline {}).attempt.bind fun _ => .refl _

theorem discardFrames_prolonged (limit frames : Nat) :
    (discardFrames link limit frames : Op σ Nat).Prolonged
      (discardFrames { link with fuel := more } limit frames) := by
  induction limit generalizing frames with
  | zero => exact .refl _
  | succ limit ih =>
    refine .after fun cursors => .ite (.refl _) ?_
    refine Prolonged.bind ?_ fun _ => ih _
    exact .after fun _ => .ite (.refl _)
      (.after fun _ => (await_prolonged le _ _).bind fun _ => .refl _)

/-- A call that is not cut off goes the same way with any more rounds. -/
theorem perform_prolonged (call : Call) :
    (perform link call : Op σ Unit).Prolonged (perform { link with fuel := more } call) := by
  cases call with
  | send message route => exact (sendPhase_prolonged le _ _ _ _).bind fun _ => .refl _
  | sendAndAwait request route timeout capacity =>
    refine Prolonged.bind (.after fun _ => ?_) fun _ => .refl _
    exact (sendPhase_prolonged le _ _ _ _).bind fun _ => .after fun _ =>
      readPhase_prolonged le _ _ _
  | receive blocking =>
    have reading : ∀ deadline, Prolonged (σ := σ) (do
        let awaiting ← advance {} .awaitingResponse
        readPhase link awaiting link.device.maxLength deadline) (do
        let awaiting ← advance {} .awaitingResponse
        readPhase { link with fuel := more } awaiting link.device.maxLength deadline) :=
      fun _ => .after fun _ => readPhase_prolonged le _ _ _
    exact Prolonged.bind (.ite (.after fun _ => reading _) (reading none)) fun _ => .refl _
  | drain => exact ((discardFrames_prolonged le _ _).bind fun _ => .refl _).bind fun _ => .refl _
  | bringUp => exact .after fun _ => (await_prolonged le _ _).attempt.bind fun _ => .refl _
  | reset =>
    have waiting : ∀ ready, (awaitReady link ready : Op σ Unit).Prolonged
        (awaitReady { link with fuel := more } ready) :=
      fun _ => .after fun _ => await_prolonged le _ _
    refine .after fun _ => .ite (.refl _) (.after fun _ => .after fun _ => ?_)
    refine (waiting false).bind fun _ => .after fun _ => .after fun _ => ?_
    exact (waiting true).bind fun _ => .refl _

end

end HeciMailbox.Op
