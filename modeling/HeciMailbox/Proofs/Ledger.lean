import HeciMailbox.Controller.Basic
import HeciMailbox.Proofs.Behaviour
import HeciMailbox.Transport.Receive

/-! A ledger of the messages exchanged with a simulated controller.

It knows no rings, frames or registers: messages to the host form one queue, and each read that
finds one takes the next. -/

set_option autoImplicit false

namespace HeciMailbox

/-- One step of a run: a call on a link, or something done to the controller from outside. -/
inductive Step where
  | send (link : Link) (message : Message) (route : Route)
  | exchange (link : Link) (request : Message) (route : Route) (timeout capacity : Nat)
  | receive (link : Link) (blocking : Bool)
  | queueResponse (response : Message)
  | inject (message : Message) (client host : UInt8)

inductive Ending where
  | done (outcome : Except Stop Unit)
  | read (outcome : Except Stop Message)

def Link.Refuses (link : Link) (message : Message) : Prop :=
  message.length = 0 ∨ link.device.maxLength < message.length

instance (link : Link) (message : Message) : Decidable (link.Refuses message) :=
  inferInstanceAs (Decidable (_ ∨ _))

def Link.refusal (link : Link) (message : Message) : Stop :=
  .fault (.badLength message.length link.device.maxLength)

namespace Step

def request? : Step → Option Message
  | .send link message _ | .exchange link message _ _ _ =>
    if link.Refuses message then none else some message
  | .receive .. | .queueResponse _ | .inject .. => none

def capacity? : Step → Option Nat
  | .exchange link request _ _ capacity => if link.Refuses request then none else some capacity
  | .receive link _ => some link.device.maxLength
  | .send .. | .queueResponse _ | .inject .. => none

/-- The clock can tell when the wait of a step that begins at `moment` is over. -/
def Finite (moment : Nat) : Step → Prop
  | .exchange _ _ _ timeout _ => moment + timeout < Deadline.horizon
  | .receive link true => moment + link.config.receiveTimeout < Deadline.horizon
  | .receive _ false | .send .. | .queueResponse _ | .inject .. => True

instance (moment : Nat) : DecidablePred (Finite moment)
  | .exchange .. | .receive _ true => inferInstanceAs (Decidable (_ < _))
  | .receive _ false | .send .. | .queueResponse _ | .inject .. => .isTrue trivial

end Step

/-- What a reader with room for `capacity` bytes is given of a message. -/
def Message.fitted (capacity : Nat) (message : Message) : Except Stop Message :=
  if message.length ≤ capacity then .ok message
  else .error (.fault (.tooSmall message.length capacity))

structure Ledger where
  enqueued : List Message := []
  delivered : Nat := 0
  responses : List Message := []
  received : List Message := []
  moment : Nat := 0

namespace Ledger

/-- An empty message takes no frame and is not sent. -/
def enqueue (ledger : Ledger) (message : Message) : Ledger :=
  if message.length = 0 then ledger else { ledger with enqueued := ledger.enqueued ++ [message] }

section

variable (ledger : Ledger) (message : Message)

@[simp] theorem enqueue_delivered : (ledger.enqueue message).delivered = ledger.delivered := by
  unfold enqueue
  split <;> rfl

@[simp] theorem enqueue_responses : (ledger.enqueue message).responses = ledger.responses := by
  unfold enqueue
  split <;> rfl

@[simp] theorem enqueue_received : (ledger.enqueue message).received = ledger.received := by
  unfold enqueue
  split <;> rfl

@[simp] theorem enqueue_moment : (ledger.enqueue message).moment = ledger.moment := by
  unfold enqueue
  split <;> rfl

end

/-- A complete request is answered with the next prepared response, if there is one. -/
def serve (ledger : Ledger) (request : Message) : Ledger :=
  let received := ledger.received ++ [request]
  match ledger.responses with
  | [] => { ledger with received }
  | response :: responses => enqueue { ledger with received, responses } response

@[simp] theorem serve_moment (ledger : Ledger) (request : Message) :
    (ledger.serve request).moment = ledger.moment := by
  unfold serve
  cases ledger.responses <;> simp

/-- A read is given the next message; if there is none it ends at once, or when its time is over. -/
def read (ledger : Ledger) (capacity : Nat) (timeout : Option Nat) : Except Stop Message × Ledger :=
  match ledger.enqueued[ledger.delivered]? with
  | some message => (message.fitted capacity, { ledger with delivered := ledger.delivered + 1 })
  | none =>
    match timeout with
    | none => (.error (.fault .noData), ledger)
    | some timeout =>
      (.error (.fault (.timeout (min (timeout / 1000) Deadline.maxMilliseconds))),
        { ledger with moment := ledger.moment + timeout })

def step (ledger : Ledger) : Step → Ending × Ledger
  | .send link message _ =>
    if link.Refuses message then (.done (.error (link.refusal message)), ledger)
    else (.done (.ok ()), ledger.serve message)
  | .exchange link request _ timeout capacity =>
    if link.Refuses request then (.read (.error (link.refusal request)), ledger)
    else
      let answered := (ledger.serve request).read capacity (some timeout)
      (.read answered.1, answered.2)
  | .receive link blocking =>
    let answered := ledger.read link.device.maxLength
      (if blocking then some link.config.receiveTimeout else none)
    (.read answered.1, answered.2)
  | .queueResponse response =>
    (.done (.ok ()), { ledger with responses := ledger.responses ++ [response] })
  | .inject message _ _ => (.done (.ok ()), ledger.enqueue message)

section

variable {ledger : Ledger} {link : Link} {message : Message} {route : Route}
  {timeout capacity : Nat}

theorem step_send_refused (refused : link.Refuses message) :
    ledger.step (.send link message route) = (.done (.error (link.refusal message)), ledger) :=
  if_pos refused

theorem step_send_accepted (accepted : ¬link.Refuses message) :
    ledger.step (.send link message route) = (.done (.ok ()), ledger.serve message) :=
  if_neg accepted

theorem step_exchange_refused (refused : link.Refuses message) :
    ledger.step (.exchange link message route timeout capacity) =
      (.read (.error (link.refusal message)), ledger) :=
  if_pos refused

theorem step_exchange_accepted (accepted : ¬link.Refuses message) :
    ledger.step (.exchange link message route timeout capacity) =
      (.read ((ledger.serve message).read capacity (some timeout)).1,
        ((ledger.serve message).read capacity (some timeout)).2) :=
  if_neg accepted

end

def run (ledger : Ledger) : List Step → List Ending × Ledger
  | [] => ([], ledger)
  | step :: rest =>
    let stepped := ledger.step step
    let ended := stepped.2.run rest
    (stepped.1 :: ended.1, ended.2)

def Timely (ledger : Ledger) : List Step → Prop
  | [] => True
  | step :: rest => step.Finite ledger.moment ∧ (ledger.step step).2.Timely rest

instance decidableTimely : (ledger : Ledger) → (steps : List Step) → Decidable (ledger.Timely steps)
  | _, [] => .isTrue trivial
  | ledger, step :: rest =>
    have := decidableTimely (ledger.step step).2 rest
    inferInstanceAs (Decidable (_ ∧ _))

end Ledger

/-! ### Reads that found a message -/

def Missed : Except Stop Message → Prop
  | .error (.fault .noData) | .error (.fault (.timeout _)) => True
  | .ok _ | .error _ => False

instance : DecidablePred Missed
  | .error (.fault .noData) | .error (.fault (.timeout _)) => .isTrue trivial
  | .error (.fault (.overflow ..)) | .error (.fault .notPresent) | .error (.fault (.tooSmall ..))
  | .error (.fault (.badLength ..)) | .error (.trap _) | .error .unfinished | .ok _ => .isFalse id

/-- The capacity and the outcome of the read that a step made, if it found a message. -/
def Step.found? (step : Step) : Ending → Option (Nat × Except Stop Message)
  | .done _ => none
  | .read outcome => if Missed outcome then none else step.capacity?.map (·, outcome)

def found (steps : List Step) (endings : List Ending) : List (Nat × Except Stop Message) :=
  (steps.zip endings).flatMap fun pair => (pair.1.found? pair.2).toList

theorem found_cons (step : Step) (rest : List Step) (ending : Ending) (endings : List Ending) :
    found (step :: rest) (ending :: endings) =
      (step.found? ending).toList ++ found rest endings := by
  simp [found]

theorem Message.not_missed_fitted (capacity : Nat) (message : Message) :
    ¬Missed (message.fitted capacity) := by
  unfold fitted
  split <;> exact id

namespace Ledger

variable (ledger : Ledger)

theorem enqueue_prefix (message : Message) :
    ledger.enqueued <+: (ledger.enqueue message).enqueued := by
  unfold enqueue
  split
  · exact List.prefix_rfl
  · exact List.prefix_append _ _

theorem serve_prefix (request : Message) :
    ledger.enqueued <+: (ledger.serve request).enqueued := by
  unfold serve
  cases ledger.responses with
  | nil => exact List.prefix_rfl
  | cons response responses =>
    exact enqueue_prefix { ledger with received := _, responses } response

@[simp] theorem serve_delivered (request : Message) :
    (ledger.serve request).delivered = ledger.delivered := by
  unfold serve
  cases ledger.responses <;> simp

@[simp] theorem serve_received (request : Message) :
    (ledger.serve request).received = ledger.received ++ [request] := by
  unfold serve
  cases ledger.responses <;> simp

inductive Taken (capacity : Nat) : Except Stop Message × Ledger → Prop where
  | next {message : Message} : ledger.enqueued[ledger.delivered]? = some message →
    Taken capacity
      (message.fitted capacity, { ledger with delivered := ledger.delivered + 1 })
  | exhausted {outcome : Except Stop Message} {moment : Nat} :
    ledger.enqueued.length ≤ ledger.delivered → Missed outcome →
    Taken capacity (outcome, { ledger with moment })

theorem read_taken (capacity : Nat) (timeout : Option Nat) :
    ledger.Taken capacity (ledger.read capacity timeout) := by
  unfold read
  cases next : ledger.enqueued[ledger.delivered]? with
  | some message => exact .next next
  | none =>
    have all := List.getElem?_eq_none_iff.mp next
    cases timeout with
    | none => exact .exhausted all trivial
    | some time => exact .exhausted all trivial

structure Advances (step : Step) (ending : Ending) (after : Ledger) : Prop where
  grows : ledger.enqueued <+: after.enqueued
  received : after.received = ledger.received ++ step.request?.toList
  delivered : after.delivered = ledger.delivered + (step.found? ending).toList.length
  found : ∀ read, step.found? ending = some read → ∃ message,
    after.enqueued[ledger.delivered]? = some message ∧ read.2 = message.fitted read.1
  missed : ∀ outcome, ending = .read outcome → Missed outcome →
    after.enqueued.length ≤ ledger.delivered

variable {ledger}

theorem Taken.advances {served : Ledger} {capacity : Nat} {answer : Except Stop Message × Ledger}
    (taken : served.Taken capacity answer) {step : Step} (reads : step.capacity? = some capacity)
    (grows : ledger.enqueued <+: served.enqueued) (same : served.delivered = ledger.delivered)
    (received : served.received = ledger.received ++ step.request?.toList) :
    ledger.Advances step (.read answer.1) answer.2 := by
  cases taken with
  | @next message front =>
    have found : step.found? (.read (message.fitted capacity)) =
        some (capacity, message.fitted capacity) := by
      simp [Step.found?, message.not_missed_fitted, reads]
    refine ⟨grows, received, by simp [found, same], ?_, ?_⟩
    · intro read is
      obtain rfl := Option.some.inj (found.symm.trans is)
      exact ⟨message, same ▸ front, rfl⟩
    · rintro _ ⟨⟩ missed
      exact absurd missed (message.not_missed_fitted capacity)
  | exhausted all missed =>
    have found : ∀ outcome, Missed outcome → step.found? (.read outcome) = none :=
      fun outcome missed => if_pos missed
    exact ⟨grows, received, by simp [found _ missed, same], by simp [found _ missed],
      fun _ _ _ => same ▸ all⟩

-- All later facts about a run come from these five about one step, by induction over the steps.
theorem step_advances (ledger : Ledger) (step : Step) :
    ledger.Advances step (ledger.step step).1 (ledger.step step).2 := by
  cases step with
  | send link message route =>
    by_cases refused : link.Refuses message
    · rw [step_send_refused refused]
      exact ⟨List.prefix_rfl, by simp [Step.request?, refused], rfl, by simp [Step.found?], by simp⟩
    · rw [step_send_accepted refused]
      exact ⟨ledger.serve_prefix message, by simp [Step.request?, refused],
        ledger.serve_delivered message, by simp [Step.found?], by simp⟩
  | exchange link request route timeout capacity =>
    by_cases refused : link.Refuses request
    · rw [step_exchange_refused refused]
      have unread : Step.found? (.exchange link request route timeout capacity)
          (.read (.error (link.refusal request))) = none := by
        simp [Step.found?, Step.capacity?, refused]
      exact ⟨List.prefix_rfl, by simp [Step.request?, refused], by simp [unread],
        by simp [unread], by rintro _ ⟨⟩ missed; exact missed.elim⟩
    · rw [step_exchange_accepted refused]
      exact (read_taken _ capacity _).advances (by simp [Step.capacity?, refused])
        (ledger.serve_prefix request) (ledger.serve_delivered request)
        (by simp [Step.request?, refused])
  | receive link blocking =>
    exact (read_taken ledger _ _).advances rfl List.prefix_rfl rfl (by simp [Step.request?])
  | queueResponse response =>
    exact ⟨List.prefix_rfl, by simp [step, Step.request?], rfl, by simp [step, Step.found?],
      by simp [step]⟩
  | inject message client host =>
    exact ⟨ledger.enqueue_prefix message, by simp [step, Step.request?],
      by simp [step, Step.found?], by simp [step, Step.found?], by simp [step]⟩

theorem run_grows (ledger : Ledger) (steps : List Step) :
    ledger.enqueued <+: (ledger.run steps).2.enqueued := by
  induction steps generalizing ledger with
  | nil => exact List.prefix_rfl
  | cons step rest ih => exact (step_advances ledger step).grows.trans (ih _)

theorem run_received (ledger : Ledger) (steps : List Step) :
    (ledger.run steps).2.received = ledger.received ++ steps.filterMap Step.request? := by
  induction steps generalizing ledger with
  | nil => simp [run]
  | cons step rest ih =>
    have later := ih (ledger.step step).2
    rw [(step_advances ledger step).received] at later
    cases asked : step.request? <;> simpa [asked, run] using later

/-- The reads that find something are given the messages in the order of their enqueueing. -/
theorem run_found (ledger : Ledger) (steps : List Step) {place : Nat}
    {read : Nat × Except Stop Message}
    (here : (HeciMailbox.found steps (ledger.run steps).1)[place]? = some read) :
    ∃ message, (ledger.run steps).2.enqueued[ledger.delivered + place]? = some message ∧
      read.2 = message.fitted read.1 := by
  induction steps generalizing ledger place with
  | nil => simp [HeciMailbox.found] at here
  | cons step rest ih =>
    have advances := step_advances ledger step
    have delivered := advances.delivered
    rw [run, found_cons] at here
    cases first : step.found? (ledger.step step).1 with
    | none =>
      rw [first] at here delivered
      obtain ⟨message, inside, given⟩ := ih _ (by simpa using here)
      rw [delivered] at inside
      exact ⟨message, inside, given⟩
    | some taken =>
      rw [first] at here delivered
      cases place with
      -- The read made by the first step. Later steps only add to the queue, so its place keeps the
      -- message.
      | zero =>
        obtain rfl : taken = read := by simpa using here
        obtain ⟨message, inside, given⟩ := advances.found _ first
        obtain ⟨later, whole⟩ := run_grows (ledger.step step).2 rest
        obtain ⟨bound, -⟩ := List.getElem?_eq_some_iff.mp inside
        refine ⟨message, ?_, given⟩
        rw [run, ← whole, Nat.add_zero, List.getElem?_append_left bound, inside]
      | succ place =>
        obtain ⟨message, inside, given⟩ := ih _ (by simpa using here)
        rw [delivered] at inside
        refine ⟨message, ?_, given⟩
        rw [run, ← inside]
        congr 1
        simp
        omega

/-- A read finds nothing only when all messages enqueued by then have been read. -/
theorem run_missed (ledger : Ledger) (earlier : List Step) (step : Step) (later : List Step)
    {outcome : Except Stop Message} (missed : Missed outcome)
    (here : (ledger.run (earlier ++ step :: later)).1[earlier.length]? = some (.read outcome)) :
    (ledger.run (earlier ++ [step])).2.enqueued.length ≤
      ledger.delivered +
        (HeciMailbox.found earlier (ledger.run (earlier ++ step :: later)).1).length := by
  induction earlier generalizing ledger with
  | nil => exact (step_advances ledger step).missed outcome (by simpa [run] using here) missed
  | cons first earlier ih =>
    have others := ih (ledger.step first).2 (by simpa [run] using here)
    rw [(step_advances ledger first).delivered] at others
    simp only [List.cons_append, run, found_cons, List.length_append]
    omega

end Ledger

/-! ### A run on the hardware -/

namespace Step

/-- The step on a clocked controller, each call with `fuel` rounds for every wait and every read. -/
def run (fuel : Nat) (world : World (Timed Controller)) :
    Step → Ending × World (Timed Controller)
  | .send link message route =>
    let op : Op (Timed Controller) Unit := Op.send { link with fuel } message route
    (.done (op.outcome world), op.reached world)
  | .exchange link request route timeout capacity =>
    let op : Op (Timed Controller) Message :=
      Op.sendAndAwait { link with fuel } request route timeout capacity
    (.read (op.outcome world), op.reached world)
  | .receive link blocking =>
    let op : Op (Timed Controller) Message := Op.receive { link with fuel } blocking
    (.read (op.outcome world), op.reached world)
  | .queueResponse response =>
    let registers := world.hardware.registers.queueResponse response
    (.done (.ok ()), { world with hardware := { world.hardware with registers } })
  | .inject message client host =>
    let registers := world.hardware.registers.enqueue message client host
    (.done (.ok ()), { world with hardware := { world.hardware with registers } })

def runAll (fuel : Nat) (world : World (Timed Controller)) :
    List Step → List Ending × World (Timed Controller)
  | [] => ([], world)
  | step :: rest =>
    let stepped := step.run fuel world
    let ended := runAll fuel stepped.2 rest
    (stepped.1 :: ended.1, ended.2)

end Step

end HeciMailbox
