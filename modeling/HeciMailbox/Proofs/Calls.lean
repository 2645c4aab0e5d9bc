import HeciMailbox.Proofs.Footprint
import HeciMailbox.Proofs.Stops

/-! Runs of calls on one mailbox, in any order and of any length.

A call that stops leaves the hardware as it is, and the next one goes on from there. -/

set_option autoImplicit false

namespace HeciMailbox

inductive Call where
  | send (message : Message) (route : Route)
  | sendAndAwait (request : Message) (route : Route) (timeout capacity : Nat)
  | receive (blocking : Bool)
  | drain
  | bringUp
  | reset

def Call.isDrain : Call → Bool
  | .drain => true
  | .send .. | .sendAndAwait .. | .receive _ | .bringUp | .reset => false

@[simp] def Entry.Inside : Entry → Prop
  | .read offset _ => offset ∈ Register.readable
  | .write offset _ => offset ∈ Register.writable
  | .wait _ | .event _ | .remark _ => True

theorem Entry.Within.inside {entry : Entry} {reads writes : List UInt32}
    {direction : Option Direction} (within : entry.Within reads writes direction)
    (readable : reads ⊆ Register.readable) (writable : writes ⊆ Register.writable) :
    entry.Inside := by
  match entry, within with
  | .read _ _, member => exact readable member
  | .write _ _, member => exact writable member
  | .wait _, _ | .event _, _ | .remark _, _ => trivial

namespace Op

section

variable {σ : Type}

/-- Run an operation and go on whether or not it stops. -/
def settle {α : Type} (op : Op σ α) : Op σ Unit := fun world => .ok () (op.reached world)

variable [Registers σ] [Clock σ]

def perform (link : Link) : Call → Op σ Unit
  | .send message route => send link message route
  | .sendAndAwait request route timeout capacity => do
    let _ ← sendAndAwait link request route timeout capacity
  | .receive blocking => do
    let _ ← receive link blocking
  | .drain => do
    let _ ← drain link
  | .bringUp => bringUp link
  | .reset => reset link

def performAll : List (Link × Call) → Op σ Unit
  | [] => pure ()
  | (link, call) :: rest => do
    settle (perform link call)
    performAll rest

end

inductive Called (link : Link) : Call → List Entry → Except Stop Unit → Prop where
  | send {message : Message} {route : Route} {entries : List Entry} {outcome : Except Stop Unit} :
    Sent link message route entries outcome → Called link (.send message route) entries outcome
  | sendAndAwait {request : Message} {route : Route} {timeout capacity : Nat}
    {entries : List Entry} {outcome : Except Stop Message} :
    Exchanged link request route capacity entries outcome →
    Called link (.sendAndAwait request route timeout capacity) entries (outcome.map fun _ => ())
  | receive {blocking : Bool} {entries : List Entry} {outcome : Except Stop Message} :
    Received link entries outcome →
    Called link (.receive blocking) entries (outcome.map fun _ => ())
  | drain {entries : List Entry} {outcome : Except Stop Nat} : Drained entries outcome →
    Called link .drain entries (outcome.map fun _ => ())
  | bringUp {entries : List Entry} {outcome : Except Stop Unit} : BroughtUp entries outcome →
    Called link .bringUp entries outcome
  | reset {entries : List Entry} {outcome : Except Stop Unit} : Reset entries outcome →
    Called link .reset entries outcome

/-- What a run of calls does: the entries of each call, one after the other. -/
inductive AllCalled : List (Link × Call) → List Entry → Prop where
  | nil : AllCalled [] []
  | cons {link : Link} {call : Call} {rest : List (Link × Call)} {entries tail : List Entry}
    {outcome : Except Stop Unit} : Called link call entries outcome → AllCalled rest tail →
    AllCalled ((link, call) :: rest) (entries ++ tail)

section

variable {σ : Type} [Registers σ] [Clock σ]

theorem Performs.settle {α : Type} {op : Op σ α} {before after : σ} {entries : List Entry}
    {outcome : Except Stop α} (performs : op.Performs before entries outcome after) :
    (Op.settle op).Performs before entries (.ok ()) after :=
  ⟨fun trace => by simp only [Op.settle, performs.reached_eq, result], performs.path⟩

theorem Ensures.settle {α β : Type} {op : Op σ α} {next : Unit → Op σ β}
    {spec : List Entry → Except Stop α → Prop} {goal : List Entry → Except Stop β → Prop}
    (first : op.Ensures spec)
    (rest : ∀ entries outcome, spec entries outcome →
      (next ()).Ensures fun tail outcome => goal (entries ++ tail) outcome) :
    (settle op >>= next).Ensures goal := by
  intro before
  obtain ⟨entries, outcome, middle, performs, holds⟩ := first before
  obtain ⟨tail, ended, after, continues, reached⟩ := rest entries outcome holds middle
  exact ⟨_, _, _, performs.settle.bind continues, reached⟩

theorem Ensures.forget {α : Type} {op : Op σ α} {spec : List Entry → Except Stop α → Prop}
    {goal : List Entry → Except Stop Unit → Prop} (first : op.Ensures spec)
    (rest : ∀ entries outcome, spec entries outcome → goal entries (outcome.map fun _ => ())) :
    Ensures (do let _ ← op) goal := by
  refine first.andThen ?_ fun stop entries stopped => rest entries _ stopped
  intro value entries returned
  exact .pure (by simpa [Except.map] using rest entries _ returned)

variable [Registers.Answers σ]

theorem perform_ensures (link : Link) (call : Call) :
    (perform link call : Op σ Unit).Ensures (Called link call) := by
  cases call with
  | send message route => exact (send_ensures link message route).mono fun _ _ => .send
  | sendAndAwait request route timeout capacity =>
    exact (sendAndAwait_ensures link request route timeout capacity).forget fun _ _ =>
      .sendAndAwait
  | receive blocking => exact (receive_ensures link blocking).forget fun _ _ => .receive
  | drain => exact (drain_ensures link).forget fun _ _ => .drain
  | bringUp => exact (bringUp_ensures link).mono fun _ _ => .bringUp
  | reset => exact (reset_ensures link).mono fun _ _ => .reset

theorem performAll_ensures (calls : List (Link × Call)) :
    (performAll calls : Op σ Unit).Ensures fun entries _ => AllCalled calls entries := by
  induction calls with
  | nil => exact .pure .nil
  | cons first rest ih =>
    refine (perform_ensures first.1 first.2).settle fun entries outcome called => ?_
    exact ih.mono fun tail _ others => .cons called others

omit [Registers.Answers σ] in
theorem added_performAll_nil (world : World σ) : (performAll []).added world = [] :=
  (Performs.pure ()).added_eq world.trace

/-- A run does what its first call does, and then what the others do where that one stopped. -/
theorem performAll_cons (link : Link) (call : Call) (rest : List (Link × Call)) (world : World σ) :
    (performAll ((link, call) :: rest)).added world =
        (perform link call).added world ++
          (performAll rest).added ((perform link call).reached world) ∧
      (performAll ((link, call) :: rest)).reached world =
        (performAll rest).reached ((perform link call).reached world) := by
  obtain ⟨entries, outcome, middle, performs, -⟩ := perform_ensures link call world.hardware
  obtain ⟨tail, ended, after, continues, -⟩ := performAll_ensures rest middle
  have whole : (performAll ((link, call) :: rest)).Performs world.hardware (entries ++ tail) ended
      after := performs.settle.bind continues
  rw [show world = ⟨world.hardware, world.trace⟩ from rfl, performs.added_eq, performs.reached_eq,
    continues.added_eq, continues.reached_eq, whole.added_eq, whole.reached_eq]
  simp

end

/-! ### What every call keeps to -/

theorem Received.plain {link : Link} {entries : List Entry} {stop : Stop}
    (received : Received link entries (.error stop)) :
    stop.Plain ∨ ∃ needed capacity, stop = .fault (.tooSmall needed capacity) := by
  obtain ⟨_, _, half, _⟩ := received
  exact half.plain.imp_right fun ⟨needed, tooSmall⟩ => ⟨needed, _, tooSmall⟩

theorem Exchanged.plain {link : Link} {request : Message} {route : Route} {capacity : Nat}
    {entries : List Entry} {stop : Stop}
    (exchanged : Exchanged link request route capacity entries (.error stop)) :
    stop.Plain ∨ ∃ needed capacity, stop = .fault (.tooSmall needed capacity) := by
  cases exchanged with
  | unsent half => exact .inl half.plain
  | read _ half => exact half.plain.imp_right fun ⟨needed, tooSmall⟩ => ⟨needed, _, tooSmall⟩

section

variable {link : Link} {call : Call} {entries : List Entry}

/-- No call breaks a promise of the program. -/
theorem Called.not_trap {outcome : Except Stop Unit} (called : Called link call entries outcome)
    (trap : Trap) : outcome ≠ .error (.trap trap) := by
  cases called with
  | send sent => rintro rfl; exact sent.plain
  | @sendAndAwait _ _ _ _ _ outcome exchanged =>
    cases outcome with
    | ok => simp [Except.map]
    | error stop =>
      obtain plain | ⟨_, _, rfl⟩ := exchanged.plain
      · rintro ⟨⟩; exact plain
      · simp [Except.map]
  | @receive _ _ outcome received =>
    cases outcome with
    | ok => simp [Except.map]
    | error stop =>
      obtain plain | ⟨_, _, rfl⟩ := received.plain
      · rintro ⟨⟩; exact plain
      · simp [Except.map]
  | @drain _ outcome drained =>
    cases outcome with
    | ok => simp [Except.map]
    | error stop => rintro ⟨⟩; exact drained.plain
  | bringUp broughtUp => rintro rfl; exact broughtUp.plain
  | reset reset => rintro rfl; exact reset.plain

theorem Outbound.inside {entry : Entry} (outbound : Outbound entry) : entry.Inside :=
  Entry.Within.inside outbound (by decide) (by decide)

theorem Inbound.inside {entry : Entry} (inbound : Inbound entry) : entry.Inside :=
  Entry.Within.inside inbound (by decide) (by decide)

theorem Draining.inside {entry : Entry} (draining : Draining entry) : entry.Inside :=
  Entry.Within.inside draining (by decide) (by decide)

theorem Aside.inside {entry : Entry} (aside : Aside entry) : entry.Inside :=
  Entry.Within.inside aside (by decide) (by decide)

theorem Called.inside {outcome : Except Stop Unit} (called : Called link call entries outcome) :
    ∀ entry ∈ entries, entry.Inside := by
  cases called with
  | send sent =>
    cases sent with
    | complete half =>
      exact List.forall_mem_append.mpr ⟨fun _ inside => (half.outbound _ inside).inside, by simp⟩
    | stopped half => exact fun _ inside => (half.outbound _ inside).inside
  | sendAndAwait exchanged =>
    cases exchanged with
    | unsent half => exact fun _ inside => (half.outbound _ inside).inside
    | read half reading =>
      simp only [List.forall_mem_append, List.forall_mem_cons]
      exact ⟨fun _ inside => (half.outbound _ inside).inside, trivial,
        fun _ inside => (reading.inbound _ inside).inside⟩
  | receive received =>
    obtain ⟨_, half, reading, rfl⟩ := received
    exact List.forall_mem_cons.mpr ⟨trivial, fun _ inside => (reading.inbound _ inside).inside⟩
  | drain drained => exact fun _ inside => (drained.draining _ inside).inside
  | bringUp broughtUp => exact fun _ inside => (broughtUp.aside _ inside).inside
  | reset reset => exact fun _ inside => (reset.aside _ inside).inside

end

theorem AllCalled.inside {calls : List (Link × Call)} {entries : List Entry}
    (called : AllCalled calls entries) : ∀ entry ∈ entries, entry.Inside := by
  induction called with
  | nil => simp
  | cons called _ ih => exact List.forall_mem_append.mpr ⟨called.inside, ih⟩

end Op

end HeciMailbox
