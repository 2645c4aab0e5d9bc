import HeciMailbox.Proofs.Ledger
import HeciMailbox.Proofs.Retrieval

/-! Messages reach the host whole and in order.

A ledger describes a controller in service: the frames under way are those of the messages that it
counts as not yet read. Each step keeps the description true and ends alike on both sides, and so
does a run. -/

set_option autoImplicit false

namespace HeciMailbox

open Controller (responseFrames)

/-- The frames of the messages that wait to be read, one message behind the other. -/
inductive Queued (ownDepth : Nat) : List Message → List Frame.Segment → Prop where
  | nil : Queued ownDepth [] []
  | cons {message : Message} {rest : List Message} {frames : List Frame.Segment} (route : Route) :
    message.length ≠ 0 → Queued ownDepth rest frames →
    Queued ownDepth (message :: rest) (responseFrames ownDepth message route ++ frames)

namespace Queued

variable {ownDepth : Nat} {messages : List Message} {frames : List Frame.Segment}

theorem append (queued : Queued ownDepth messages frames) {message : Message}
    (nonempty : message.length ≠ 0) (route : Route) :
    Queued ownDepth (messages ++ [message]) (frames ++ responseFrames ownDepth message route) := by
  induction queued with
  | nil => simpa using cons route nonempty nil
  | cons first here _ ih => simpa using cons first here ih

end Queued

namespace Ledger

/-- What the ledger says is true of a clocked controller with rings of these sizes. -/
def Describes (hostDepth ownDepth : Nat) (ledger : Ledger) (state : Timed Controller) : Prop :=
  ledger.delivered ≤ ledger.enqueued.length ∧
    ∃ frames, Queued ownDepth (ledger.enqueued.drop ledger.delivered) frames ∧
      Op.Serving hostDepth ownDepth [] ⟨frames, [], ledger.responses, ledger.received⟩ ledger.moment
        state

variable {hostDepth ownDepth : Nat} {ledger : Ledger} {state : Timed Controller}

theorem queued_enqueue (ledger : Ledger) {frames : List Frame.Segment}
    (within : ledger.delivered ≤ ledger.enqueued.length)
    (queued : Queued ownDepth (ledger.enqueued.drop ledger.delivered) frames) (message : Message)
    (route : Route) :
    ledger.delivered ≤ (ledger.enqueue message).enqueued.length ∧
      Queued ownDepth ((ledger.enqueue message).enqueued.drop ledger.delivered)
        (frames ++ responseFrames ownDepth message route) := by
  unfold enqueue
  by_cases empty : message.length = 0
  · rw [if_pos empty, Controller.responseFrames_empty empty, List.append_nil]
    exact ⟨within, queued⟩
  · rw [if_neg empty]
    dsimp only
    rw [List.drop_append_of_le_length within]
    exact ⟨by simp; omega, queued.append empty route⟩

theorem Describes.enqueue (deep : 2 ≤ ownDepth)
    (describes : ledger.Describes hostDepth ownDepth state) (message : Message)
    (client host : UInt8) :
    (ledger.enqueue message).Describes hostDepth ownDepth
      { state with registers := state.registers.enqueue message client host } := by
  obtain ⟨within, frames, queued, keeps, moment⟩ := describes
  obtain ⟨within, queued⟩ := queued_enqueue ledger within queued message ⟨host, client⟩
  refine ⟨by simpa using within, _, by simpa using queued, ?_, by simpa using moment⟩
  simpa using keeps.enqueue deep message client host

theorem Describes.queueResponse (describes : ledger.Describes hostDepth ownDepth state)
    (response : Message) :
    Describes hostDepth ownDepth { ledger with responses := ledger.responses ++ [response] }
      { state with registers := state.registers.queueResponse response } := by
  obtain ⟨within, frames, queued, ⟨placed, waiting, shape, busy, fits, holds⟩, moment⟩ := describes
  exact ⟨within, frames, queued, ⟨placed, waiting, shape, busy, fits,
    { holds with responses := by simp [Controller.queueResponse, holds.responses] }⟩, moment⟩

theorem describes_serve {frames : List Frame.Segment} {request : Message} {reply : Route}
    (within : ledger.delivered ≤ ledger.enqueued.length)
    (queued : Queued ownDepth (ledger.enqueued.drop ledger.delivered) frames)
    (serving : Op.Serving hostDepth ownDepth []
      (Controller.Post.complete ownDepth ⟨frames, [], ledger.responses, ledger.received⟩ reply
        request.bytes) ledger.moment state) :
    (ledger.serve request).Describes hostDepth ownDepth state := by
  unfold Controller.Post.complete at serving
  unfold serve
  cases prepared : ledger.responses with
  | nil =>
    rw [prepared] at serving
    exact ⟨within, frames, queued, by simpa using serving⟩
  | cons response responses =>
    rw [prepared] at serving
    obtain ⟨within, queued⟩ := queued_enqueue
      { ledger with received := ledger.received ++ [request], responses } within queued response
      reply
    exact ⟨by simpa using within, _, by simpa using queued, by simpa using serving⟩

/-- Rounds enough for a read: one for each frame of the next message, or for each microsecond that
it waits. -/
def rounds (ledger : Ledger) (timeout : Option Nat) : Nat :=
  ledger.enqueued[ledger.delivered]?.elim 0 Message.length + timeout.getD 0 + 1

/-- The messages that the ledger counts as not yet read are those that a clocked controller has for
the host. -/
structure Lists (offers : List Frame.Segment → Controller → Prop) (ownDepth : Nat)
    (ledger : Ledger) (state : Timed Controller) : Prop where
  within : ledger.delivered ≤ ledger.enqueued.length
  queued : ∃ frames, Queued ownDepth (ledger.enqueued.drop ledger.delivered) frames ∧
    offers frames state.registers
  moment : state.elapsed = ledger.moment

/-- Reading takes the next message of the queue, with all its frames, or finds the queue empty. -/
theorem Lists.read {offers : List Frame.Segment → Controller → Prop}
    (streams : Controller.Streams offers) (lists : ledger.Lists offers ownDepth state)
    (capacity : Nat) {timeout : Option Nat} {link : Link}
    (fuel : ledger.rounds timeout ≤ link.fuel)
    (finite : ∀ time, timeout = some time → ledger.enqueued.length ≤ ledger.delivered →
      ledger.moment + time < Deadline.horizon) :
    (Op.readMessage link capacity (timeout.map (.after ledger.moment))).Reaches state
      fun outcome after => outcome = (ledger.read capacity timeout).1 ∧
        (ledger.read capacity timeout).2.Lists offers ownDepth after := by
  obtain ⟨within, ⟨frames, queued, offered⟩, moment⟩ := lists
  unfold rounds at fuel
  unfold Ledger.read
  cases next : ledger.enqueued[ledger.delivered]? with
  | some message =>
    -- The frames in front are those of the next message: they are read, and those of the rest
    -- remain.
    rw [next, Option.elim_some] at fuel
    obtain ⟨inside, here⟩ := List.getElem?_eq_some_iff.mp next
    rw [List.drop_eq_getElem_cons inside, here] at queued
    cases queued with
    | cons route nonempty queued =>
      obtain ⟨conveys, count⟩ := @Controller.responseFrames_convey ownDepth message
        (Nat.pos_of_ne_zero nonempty) route
      refine (Op.readMessage_takes streams (by omega) capacity _ conveys
        (Nat.le_trans count (by omega)) offered).mono ?_
      rintro _ after ⟨rfl, offered, elapsed⟩
      exact ⟨rfl, inside, ⟨_, queued, offered⟩, elapsed.trans moment⟩
  | none =>
    have all : ledger.enqueued.length ≤ ledger.delivered := List.getElem?_eq_none_iff.mp next
    -- No message waits, so no frame is under way, neither in the ring nor outside it.
    rw [List.drop_eq_nil_of_le all] at queued
    cases queued
    have unread : ∃ frames, Queued ownDepth (ledger.enqueued.drop ledger.delivered) frames ∧
        offers frames state.registers := by
      rw [List.drop_eq_nil_of_le all]
      exact ⟨[], .nil, offered⟩
    obtain ⟨registers, elapsed⟩ := state
    obtain rfl : elapsed = ledger.moment := moment
    cases timeout with
    | none =>
      have ends : Op.GivesUp link.fuel ledger.moment ledger.moment none := rfl
      refine (Op.readMessage_missed streams (by omega) capacity ends offered).mono ?_
      rintro _ _ ⟨rfl, rfl⟩
      exact ⟨rfl, within, unread, rfl⟩
    | some time =>
      have ends : Op.GivesUp link.fuel ledger.moment (ledger.moment + time)
          (some (.after ledger.moment time)) := by
        refine ⟨?_, by omega, ?_⟩
        · simp [Deadline.after, finite time rfl all]
        · simp only [Option.getD_some] at fuel
          omega
      refine (Op.readMessage_missed streams (by omega) capacity ends offered).mono ?_
      rintro _ _ ⟨rfl, rfl⟩
      exact ⟨rfl, within, unread, rfl⟩

theorem Lists.receive {offers : List Frame.Segment → Controller → Prop}
    (streams : Controller.Streams offers) (lists : ledger.Lists offers ownDepth state) (link : Link)
    {blocking : Bool}
    (fuel : ledger.rounds (if blocking then some link.config.receiveTimeout else none) ≤ link.fuel)
    (finite : ledger.enqueued.length ≤ ledger.delivered →
      Step.Finite ledger.moment (.receive link blocking)) :
    (Op.receive link blocking).Reaches state fun outcome after =>
      .read outcome = (ledger.step (.receive link blocking)).1 ∧
        (ledger.step (.receive link blocking)).2.Lists offers ownDepth after := by
  have reading : ∀ timeout,
      timeout = (if blocking then some link.config.receiveTimeout else none) →
      Op.Reaches (do
        let awaiting ← Op.advance {} .awaitingResponse
        Op.readPhase link awaiting link.device.maxLength (timeout.map (.after ledger.moment))) state
        fun outcome after =>
          .read outcome = (ledger.step (.receive link blocking)).1 ∧
            (ledger.step (.receive link blocking)).2.Lists offers ownDepth after := by
    rintro _ rfl
    refine .following (Op.advance_served rfl) (Op.readPhase_served ?_)
    refine (lists.read streams link.device.maxLength fuel ?_).mono ?_
    · intro time waits all
      cases blocking with
      | true =>
        cases waits
        exact finite all
      | false => cases waits
    · rintro _ after ⟨rfl, listed⟩
      exact ⟨rfl, listed⟩
  unfold Op.receive
  cases blocking with
  | true =>
    simp only [if_true, map_eq_pure_bind, bind_assoc, pure_bind]
    refine .deadlineAfter ?_
    rw [show Clock.now state = ledger.moment from lists.moment]
    exact reading _ rfl
  | false =>
    simp only [Bool.false_eq_true, if_false, pure_bind]
    exact reading _ rfl

theorem read_same (ledger : Ledger) (capacity : Nat) (timeout : Option Nat) :
    (ledger.read capacity timeout).2.enqueued = ledger.enqueued ∧
      (ledger.read capacity timeout).2.responses = ledger.responses ∧
      (ledger.read capacity timeout).2.received = ledger.received := by
  unfold Ledger.read
  repeat' split
  all_goals exact ⟨rfl, rfl, rfl⟩

def keeping (hostDepth ownDepth : Nat) (ledger : Ledger) (frames : List Frame.Segment)
    (controller : Controller) : Prop :=
  controller.Keeps hostDepth ownDepth [] ⟨frames, [], ledger.responses, ledger.received⟩

theorem streams_keeping (hostDepth ownDepth : Nat) (ledger : Ledger) :
    Controller.Streams (ledger.keeping hostDepth ownDepth) :=
  Controller.Keeps.streams hostDepth ownDepth ⟨[], [], ledger.responses, ledger.received⟩

theorem describes_iff :
    ledger.Describes hostDepth ownDepth state ↔
      ledger.Lists (ledger.keeping hostDepth ownDepth) ownDepth state := by
  constructor
  · rintro ⟨within, frames, queued, keeps, moment⟩
    exact ⟨within, ⟨frames, queued, keeps⟩, moment⟩
  · rintro ⟨within, ⟨frames, queued, keeps⟩, moment⟩
    exact ⟨within, frames, queued, keeps, moment⟩

theorem Lists.describes {capacity : Nat} {timeout : Option Nat} {after : Timed Controller}
    (lists : (ledger.read capacity timeout).2.Lists (ledger.keeping hostDepth ownDepth) ownDepth
      after) : (ledger.read capacity timeout).2.Describes hostDepth ownDepth after := by
  obtain ⟨-, responses, received⟩ := ledger.read_same capacity timeout
  rw [describes_iff]
  unfold keeping at lists ⊢
  rw [responses, received]
  exact lists

theorem Describes.read (describes : ledger.Describes hostDepth ownDepth state) (capacity : Nat)
    {timeout : Option Nat} {link : Link} (fuel : ledger.rounds timeout ≤ link.fuel)
    (finite : ∀ time, timeout = some time → ledger.moment + time < Deadline.horizon) :
    (Op.readMessage link capacity (timeout.map (.after ledger.moment))).Reaches state
      fun outcome after => outcome = (ledger.read capacity timeout).1 ∧
        (ledger.read capacity timeout).2.Describes hostDepth ownDepth after := by
  have lists := describes_iff.mp describes
  refine (lists.read (streams_keeping ..) capacity fuel fun time is _ => finite time is).mono ?_
  rintro _ after ⟨rfl, listed⟩
  exact ⟨rfl, listed.describes⟩

/-! ### Steps -/

def Follows (hostDepth ownDepth : Nat) (ledger : Ledger) (step : Step) (ending : Ending)
    (after : Timed Controller) : Prop :=
  ending = (ledger.step step).1 ∧ (ledger.step step).2.Describes hostDepth ownDepth after

theorem Describes.send (wide : 2 ≤ hostDepth) (deep : 2 ≤ ownDepth)
    (describes : ledger.Describes hostDepth ownDepth state) {link : Link} (fuel : 0 < link.fuel)
    (message : Message) (route : Route) :
    (Op.send link message route).Reaches state fun outcome after =>
      ledger.Follows hostDepth ownDepth (.send link message route) (.done outcome) after := by
  obtain ⟨within, frames, queued, keeps, moment⟩ := id describes
  refine (Op.send_served wide deep fuel message route keeps rfl).mono ?_
  unfold Follows
  rintro _ after (refused | ⟨accepted, serving⟩)
  · rw [step_send_refused refused]
    exact ⟨rfl, describes⟩
  · rw [step_send_accepted accepted]
    rw [moment] at serving
    exact ⟨rfl, describes_serve within queued serving⟩

theorem Describes.receive (describes : ledger.Describes hostDepth ownDepth state) (link : Link)
    {blocking : Bool}
    (fuel : ledger.rounds (if blocking then some link.config.receiveTimeout else none) ≤ link.fuel)
    (finite : Step.Finite ledger.moment (.receive link blocking)) :
    (Op.receive link blocking).Reaches state fun outcome after =>
      ledger.Follows hostDepth ownDepth (.receive link blocking) (.read outcome) after := by
  have lists := describes_iff.mp describes
  refine (lists.receive (streams_keeping ..) link fuel fun _ => finite).mono ?_
  rintro outcome after ⟨ended, listed⟩
  exact ⟨ended, listed.describes⟩

theorem Describes.exchange (wide : 2 ≤ hostDepth) (deep : 2 ≤ ownDepth)
    (describes : ledger.Describes hostDepth ownDepth state) {link : Link} {request : Message}
    {timeout : Nat} (fuel : (ledger.serve request).rounds (some timeout) ≤ link.fuel)
    (finite : ledger.moment + timeout < Deadline.horizon) (route : Route) (capacity : Nat) :
    (Op.sendAndAwait link request route timeout capacity).Reaches state fun outcome after =>
      ledger.Follows hostDepth ownDepth (.exchange link request route timeout capacity)
        (.read outcome) after := by
  obtain ⟨within, frames, queued, keeps, moment⟩ := id describes
  have positive : 0 < link.fuel := Nat.lt_of_lt_of_le (Nat.succ_pos _) fuel
  unfold Op.sendAndAwait Follows
  refine .deadlineAfter ?_
  rw [show Clock.now state = ledger.moment from moment]
  refine (Op.sendPhase_served wide deep positive request route _ keeps rfl).andThen ?_ ?_
  · rintro _ middle (_ | ⟨accepted, serving⟩)
    rw [moment] at serving
    have served := describes_serve within queued serving
    refine .following (Op.advance_served rfl) (Op.readPhase_served ?_)
    have reads := served.read capacity fuel (by
      rintro _ ⟨⟩
      simpa using finite)
    rw [serve_moment] at reads
    refine reads.mono ?_
    rintro _ after ⟨rfl, described⟩
    rw [step_exchange_accepted accepted]
    exact ⟨rfl, described⟩
  · rintro _ after (refused | _)
    rw [step_exchange_refused refused]
    exact ⟨rfl, describes⟩

theorem follows_step (wide : 2 ≤ hostDepth) (deep : 2 ≤ ownDepth) (ledger : Ledger) (step : Step)
    (finite : step.Finite ledger.moment) :
    ∃ enough, ∀ fuel, enough ≤ fuel → ∀ world : World (Timed Controller),
      ledger.Describes hostDepth ownDepth world.hardware →
      ledger.Follows hostDepth ownDepth step (step.run fuel world).1
        (step.run fuel world).2.hardware := by
  cases step with
  | send link message route =>
    refine ⟨1, fun fuel enough world describes => ?_⟩
    have fits : 0 < ({ link with fuel } : Link).fuel := enough
    exact (describes.send wide deep fits message route).holds
  | exchange link request route timeout capacity =>
    refine ⟨(ledger.serve request).rounds (some timeout), fun fuel enough world describes => ?_⟩
    have fits : _ ≤ ({ link with fuel } : Link).fuel := enough
    exact (describes.exchange wide deep fits finite route capacity).holds
  | receive link blocking =>
    refine ⟨ledger.rounds (if blocking then some link.config.receiveTimeout else none),
      fun fuel enough world describes => ?_⟩
    exact (describes.receive { link with fuel } enough (by cases blocking <;> exact finite)).holds
  | queueResponse response =>
    exact ⟨0, fun fuel _ world describes => ⟨rfl, describes.queueResponse response⟩⟩
  | inject message client host =>
    exact ⟨0, fun fuel _ world describes => ⟨rfl, describes.enqueue deep message client host⟩⟩

theorem describes_run (wide : 2 ≤ hostDepth) (deep : 2 ≤ ownDepth) (ledger : Ledger)
    (steps : List Step) (timely : ledger.Timely steps) :
    ∃ enough, ∀ fuel, enough ≤ fuel → ∀ world : World (Timed Controller),
      ledger.Describes hostDepth ownDepth world.hardware →
      (Step.runAll fuel world steps).1 = (ledger.run steps).1 ∧
        (ledger.run steps).2.Describes hostDepth ownDepth
          (Step.runAll fuel world steps).2.hardware := by
  -- By the steps. Each has its own number of rounds that suffice, and the largest does for all.
  induction steps generalizing ledger with
  | nil => exact ⟨0, fun _ _ world describes => ⟨rfl, describes⟩⟩
  | cons step rest ih =>
    obtain ⟨finite, later⟩ := timely
    obtain ⟨first, follows⟩ := follows_step wide deep ledger step finite
    obtain ⟨others, runs⟩ := ih (ledger.step step).2 later
    refine ⟨max first others, fun fuel enough world describes => ?_⟩
    obtain ⟨ending, described⟩ := follows fuel (by omega) world describes
    obtain ⟨endings, ended⟩ := runs fuel (by omega) _ described
    exact ⟨by simp only [Step.runAll, Ledger.run, ending, endings], ended⟩

theorem describes_ofDepths {hostDepth ownDepth : UInt8} (host : hostDepth.toNat ∣ 256)
    (own : ownDepth.toNat ∣ 256) :
    Describes hostDepth.toNat ownDepth.toNat {} ⟨.ofDepths hostDepth ownDepth, 0⟩ where
  left := Nat.le_refl _
  right := ⟨[], .nil, Controller.keeps_ofDepths host own [], rfl⟩

end Ledger

/-- Whatever is sent to a simulated controller, prepared or injected there and read from it, with
rounds enough for the waits to end: every step ends as on the ledger; the controller has received
the requests of an accepted length, whole and in order, and lost no word; the reads that find a
message are given the messages in the order in which they were enqueued; and a read finds none only
when all enqueued by then have been read. -/
theorem messages_arrive_in_order {hostDepth ownDepth : UInt8}
    (host : hostDepth.toNat.isPowerOfTwo ∧ 2 ≤ hostDepth.toNat)
    (own : ownDepth.toNat.isPowerOfTwo ∧ 2 ≤ ownDepth.toNat) (steps : List Step)
    (timely : Ledger.Timely {} steps) :
    ∃ enough, ∀ fuel, enough ≤ fuel →
      let ended := Step.runAll fuel ⟨⟨.ofDepths hostDepth ownDepth, 0⟩, #[]⟩ steps
      ended.1 = (Ledger.run {} steps).1 ∧
      ended.2.hardware.registers.received = steps.filterMap Step.request? ∧
      ended.2.hardware.registers.dropped = 0 ∧
      (∀ (place capacity : Nat) (outcome : Except Stop Message),
        (found steps ended.1)[place]? = some (capacity, outcome) →
        ∃ message, (Ledger.run {} steps).2.enqueued[place]? = some message ∧
          outcome = message.fitted capacity) ∧
      ∀ (earlier later : List Step) (step : Step) (outcome : Except Stop Message),
        steps = earlier ++ step :: later → ended.1[earlier.length]? = some (.read outcome) →
        Missed outcome →
        (Ledger.run {} (earlier ++ [step])).2.enqueued.length ≤ (found earlier ended.1).length := by
  obtain ⟨hostPower, wide⟩ := host
  obtain ⟨ownPower, deep⟩ := own
  obtain ⟨enough, runs⟩ := Ledger.describes_run wide deep {} steps timely
  refine ⟨enough, fun fuel sufficient => ?_⟩
  obtain ⟨endings, described⟩ := runs fuel sufficient ⟨⟨.ofDepths hostDepth ownDepth, 0⟩, #[]⟩
    (Ledger.describes_ofDepths (dvd_of_isPowerOfTwo hostPower) (dvd_of_isPowerOfTwo ownPower))
  obtain ⟨-, _, -, ⟨_, _, _, _, _, holds⟩, -⟩ := described
  refine ⟨endings, ?_, holds.lossless, ?_, ?_⟩
  · rw [holds.received, Ledger.run_received, List.nil_append]
  · intro place capacity outcome here
    rw [endings] at here
    simpa using Ledger.run_found {} steps here
  · rintro earlier later step outcome rfl here missed
    rw [endings] at here ⊢
    simpa using Ledger.run_missed {} earlier step later missed here

/-- Two reads come too late or with too little room, and a message from outside comes in between. -/
def lateReads : List Step :=
  let link := Link.ofConfig {} 0xFED1A000 0
  [.queueResponse (.ofBytes (List.replicate 21 0x5A)), .send link (.ofBytes [1, 2, 3]) ⟨0, 7⟩,
    .send link .empty ⟨0, 7⟩, .inject (.ofBytes [4, 5]) 7 0,
    .exchange link (.ofBytes [6]) ⟨0, 7⟩ 0 20, .receive link false, .receive link true]

set_option maxRecDepth 4000 in
/-- On rings of four slots the response does not fit the ring, nor its late reader; the message from
outside waits its turn. -/
theorem late_reads_keep_the_order :
    ((4 : UInt8).toNat.isPowerOfTwo ∧ 2 ≤ (4 : UInt8).toNat) ∧ Ledger.Timely {} lateReads ∧
      ∃ enough, ∀ fuel, enough ≤ fuel →
        (Step.runAll fuel ⟨⟨.ofDepths 4 4, 0⟩, #[]⟩ lateReads).1 =
          [.done (.ok ()), .done (.ok ()), .done (.error (.fault (.badLength 0 0x1000))),
            .done (.ok ()), .read (.error (.fault (.tooSmall 21 20))),
            .read (.ok (.ofBytes [4, 5])), .read (.error (.fault (.timeout 5000)))] := by
  have depth : (4 : UInt8).toNat.isPowerOfTwo ∧ 2 ≤ (4 : UInt8).toNat := ⟨⟨2, rfl⟩, by decide⟩
  have timely : Ledger.Timely {} lateReads := by decide
  obtain ⟨enough, runs⟩ := messages_arrive_in_order depth depth lateReads timely
  exact ⟨depth, timely, enough, fun fuel sufficient => (runs fuel sufficient).1.trans rfl⟩

end HeciMailbox
