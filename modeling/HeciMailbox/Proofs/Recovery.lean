import HeciMailbox.Proofs.Draining

/-! Getting back in step after a header that cannot be framed.

A header that claims as many words as the ring has slots, or more, does not tell where its frame
ends. The call that meets it takes everything off the ring and rings the doorbell once. The frames
that have waited for room move up only then, so what the next call finds in front is the first of
them. -/

set_option autoImplicit false

namespace HeciMailbox

open Controller (responseFrames)

namespace Queued

variable {ownDepth : Nat} {messages : List Message} {frames : List Frame.Segment}

theorem fits (deep : 2 ≤ ownDepth) (queued : Queued ownDepth messages frames) :
    ∀ segment ∈ frames, segment.words.length ≤ ownDepth := by
  induction queued with
  | nil => exact List.forall_mem_nil _
  | cons route _ _ ih =>
    exact List.forall_mem_append.mpr ⟨Controller.responseFrames_fit deep _ route, ih⟩

theorem counted (queued : Queued ownDepth messages frames) :
    ∀ segment ∈ frames, segment.payload.length = segment.header.words := by
  induction queued with
  | nil => exact List.forall_mem_nil _
  | cons route nonempty _ ih =>
    have positive := Nat.pos_of_ne_zero nonempty
    have conveys := (@Controller.responseFrames_convey ownDepth _ positive route).1
    exact List.forall_mem_append.mpr ⟨conveys.counted, ih⟩

end Queued

namespace Controller

variable {controller : Controller} {ownDepth : Nat} {frames : List Frame.Segment}

/-- An attentive controller with nothing to take from the host. Its ring begins with a word that
claims as many words as there are slots, or more, and the frames of these messages wait for room. -/
structure Clogged (raw : UInt32) (rest : List UInt32) (messages : List Message)
    (waiting : List Frame.Segment) (controller : Controller) : Prop where
  attentive : controller.Attentive
  empty : controller.hostRing.cursors.isEmpty = true
  power : controller.ownRing.slots.size.isPowerOfTwo
  deep : 2 ≤ controller.ownRing.slots.size
  within : controller.ownRing.cursors.filled.toNat ≤ controller.ownRing.slots.size
  front : controller.ownRing.toList = raw :: rest
  oversized : controller.ownRing.slots.size ≤ (Frame.Header.mk raw).words
  pending : controller.pending = waiting.map Frame.Segment.words
  queued : Queued controller.ownRing.slots.size messages waiting

def overflow (controller : Controller) (raw : UInt32) : Fault :=
  controller.ownRing.cursors.overflowFault (Frame.Header.mk raw).words

theorem Forwards.enqueue (deep : 2 ≤ ownDepth) (forwards : controller.Forwards ownDepth frames)
    (message : Message) (client host : UInt8) :
    (controller.enqueue message client host).Forwards ownDepth
      (frames ++ responseFrames ownDepth message ⟨host, client⟩) := by
  obtain ⟨attentive, empty, size, placed, waiting, rfl, offers⟩ := forwards
  let joined := { controller with
    pending := controller.pending ++ framesOf controller.ownRing.slots.size message client host }
  have pending : joined.pending =
      (waiting ++ responseFrames ownDepth message ⟨host, client⟩).map Frame.Segment.words := by
    dsimp only [joined]
    rw [offers.pending, size, framesOf_eq, List.map_append]
    rfl
  have fits : ∀ segment ∈ waiting ++ responseFrames ownDepth message ⟨host, client⟩,
      segment.words.length ≤ joined.ownRing.slots.size :=
    List.forall_mem_append.mpr ⟨offers.fits, size.symm ▸ responseFrames_fit deep message _⟩
  have attends : joined.Attentive :=
    .of_flags attentive.present attentive.ownFlags_ready attentive.hostFlags_released
  obtain ⟨rung, offering, kept⟩ :=
    @fill_offers joined placed _ offers.sound offers.supplied pending fits
  rw [List.append_assoc]
  exact ⟨attends.rung rung, rung.empty empty, kept.trans size, offering⟩

theorem Forwards.queueResponse (forwards : controller.Forwards ownDepth frames)
    (response : Message) : (controller.queueResponse response).Forwards ownDepth frames := by
  obtain ⟨attentive, empty, size, placed, waiting, shape, offers⟩ := forwards
  have attends : (controller.queueResponse response).Attentive :=
    .of_flags attentive.present attentive.ownFlags_ready attentive.hostFlags_released
  exact ⟨attends, empty, size, placed, waiting, shape, { offers with }⟩

end Controller

/-! ### Runs that send nothing -/

namespace Step

def sends : Step → Bool
  | .send .. | .exchange .. => true
  | .receive .. | .queueResponse _ | .inject .. => false

def injected? : Step → Option Message
  | .inject message _ _ => if message.length = 0 then none else some message
  | .send .. | .exchange .. | .receive .. | .queueResponse _ => none

end Step

namespace Ledger

/-- Every step of the run ends: where it waits for a message, one is there or the wait has an
end. -/
def Concludes (ledger : Ledger) : List Step → Prop
  | [] => True
  | step :: rest =>
    (ledger.delivered < ledger.enqueued.length ∨ step.Finite ledger.moment) ∧
      (ledger.step step).2.Concludes rest

instance decidableConcludes :
    (ledger : Ledger) → (steps : List Step) → Decidable (ledger.Concludes steps)
  | _, [] => .isTrue trivial
  | ledger, step :: rest =>
    have := decidableConcludes (ledger.step step).2 rest
    inferInstanceAs (Decidable (_ ∧ _))

theorem step_enqueued (ledger : Ledger) {step : Step} (silent : step.sends = false) :
    (ledger.step step).2.enqueued = ledger.enqueued ++ step.injected?.toList := by
  cases step with
  | send | exchange => cases silent
  | receive link blocking =>
    have same := (ledger.read_same link.device.maxLength
      (if blocking then some link.config.receiveTimeout else none)).1
    rw [Step.injected?, Option.toList_none, List.append_nil]
    exact same
  | queueResponse response => simp [step, Step.injected?]
  | inject message client host =>
    simp only [step, Step.injected?, enqueue]
    split <;> simp

theorem run_enqueued (ledger : Ledger) {steps : List Step}
    (silent : ∀ step ∈ steps, step.sends = false) :
    (ledger.run steps).2.enqueued = ledger.enqueued ++ steps.filterMap Step.injected? := by
  induction steps generalizing ledger with
  | nil => exact (List.append_nil _).symm
  | cons step rest ih =>
    obtain ⟨here, others⟩ := List.forall_mem_cons.mp silent
    have later := ih (ledger.step step).2 others
    rw [ledger.step_enqueued here] at later
    cases joined : step.injected? <;> simpa [joined, run] using later

variable {ownDepth : Nat}

theorem lists_step (deep : 2 ≤ ownDepth) (ledger : Ledger) {step : Step}
    (silent : step.sends = false)
    (ends : ledger.delivered < ledger.enqueued.length ∨ step.Finite ledger.moment) :
    ∃ enough, ∀ fuel, enough ≤ fuel → ∀ world : World (Timed Controller),
      ledger.Lists (Controller.Forwards ownDepth) ownDepth world.hardware →
      (step.run fuel world).1 = (ledger.step step).1 ∧
        (ledger.step step).2.Lists (Controller.Forwards ownDepth) ownDepth
          (step.run fuel world).2.hardware := by
  cases step with
  | send | exchange => cases silent
  | receive link blocking =>
    refine ⟨ledger.rounds (if blocking then some link.config.receiveTimeout else none),
      fun fuel enough world lists => ?_⟩
    refine (lists.receive (Controller.Forwards.streams ownDepth) { link with fuel } enough
      fun all => ?_).holds
    have finite := ends.resolve_left (Nat.not_lt.mpr all)
    cases blocking <;> exact finite
  | queueResponse response =>
    refine ⟨0, fun fuel _ world lists => ⟨rfl, ?_⟩⟩
    obtain ⟨within, ⟨frames, queued, forwards⟩, moment⟩ := lists
    exact ⟨within, ⟨frames, queued, forwards.queueResponse response⟩, moment⟩
  | inject message client host =>
    refine ⟨0, fun fuel _ world lists => ⟨rfl, ?_⟩⟩
    obtain ⟨within, ⟨frames, queued, forwards⟩, moment⟩ := lists
    obtain ⟨within, queued⟩ := queued_enqueue ledger within queued message ⟨host, client⟩
    refine ⟨?_, ⟨_, ?_, forwards.enqueue deep message client host⟩, ?_⟩
    · simpa [step] using within
    · simpa [step] using queued
    · simpa [step, Step.run] using moment

theorem lists_run (deep : 2 ≤ ownDepth) (ledger : Ledger) {steps : List Step}
    (silent : ∀ step ∈ steps, step.sends = false) (concludes : ledger.Concludes steps) :
    ∃ enough, ∀ fuel, enough ≤ fuel → ∀ world : World (Timed Controller),
      ledger.Lists (Controller.Forwards ownDepth) ownDepth world.hardware →
      (Step.runAll fuel world steps).1 = (ledger.run steps).1 := by
  induction steps generalizing ledger with
  | nil => exact ⟨0, fun _ _ _ _ => rfl⟩
  | cons step rest ih =>
    obtain ⟨here, others⟩ := List.forall_mem_cons.mp silent
    obtain ⟨ends, later⟩ := concludes
    obtain ⟨first, steps⟩ := lists_step deep ledger here ends
    obtain ⟨second, runs⟩ := ih (ledger.step step).2 others later
    refine ⟨max first second, fun fuel enough world lists => ?_⟩
    obtain ⟨ending, listed⟩ := steps fuel (by omega) world lists
    simp only [Step.runAll, Ledger.run, ending, runs fuel (by omega) _ listed]

end Ledger

/-- Whatever is injected and read from here on, each read that finds a message is given the next of
these and of those injected, and a read finds none only when all there by then have been read. -/
def Delivers (messages : List Message) (world : World (Timed Controller)) : Prop :=
  let ledger : Ledger := { enqueued := messages, moment := world.hardware.elapsed }
  ∀ steps : List Step, (∀ step ∈ steps, step.sends = false) → ledger.Concludes steps →
    ∃ enough, ∀ fuel, enough ≤ fuel →
      let endings := (Step.runAll fuel world steps).1
      endings = (ledger.run steps).1 ∧
      (∀ (place capacity : Nat) (outcome : Except Stop Message),
        (found steps endings)[place]? = some (capacity, outcome) →
        ∃ message, (messages ++ steps.filterMap Step.injected?)[place]? = some message ∧
          outcome = message.fitted capacity) ∧
      ∀ (earlier later : List Step) (step : Step) (outcome : Except Stop Message),
        steps = earlier ++ step :: later → endings[earlier.length]? = some (.read outcome) →
        Missed outcome →
        (messages ++ (earlier ++ [step]).filterMap Step.injected?).length ≤
          (found earlier endings).length

theorem Controller.Forwards.delivers {ownDepth : Nat} {messages : List Message}
    {frames : List Frame.Segment} {world : World (Timed Controller)}
    (forwards : world.hardware.registers.Forwards ownDepth frames) (deep : 2 ≤ ownDepth)
    (queued : Queued ownDepth messages frames) : Delivers messages world := by
  intro steps silent concludes
  let ledger : Ledger := { enqueued := messages, moment := world.hardware.elapsed }
  obtain ⟨enough, runs⟩ := Ledger.lists_run deep ledger silent concludes
  have lists : ledger.Lists (Controller.Forwards ownDepth) ownDepth world.hardware :=
    ⟨Nat.zero_le _, ⟨frames, queued, forwards⟩, rfl⟩
  refine ⟨enough, fun fuel sufficient => ?_⟩
  have same := runs fuel sufficient world lists
  refine ⟨same, ?_, ?_⟩
  · intro place capacity outcome here
    rw [same] at here
    obtain ⟨message, there, given⟩ := ledger.run_found steps here
    rw [ledger.run_enqueued silent, Nat.zero_add] at there
    exact ⟨message, there, given⟩
  · rintro earlier later step outcome rfl here missed
    rw [same] at here ⊢
    have all := ledger.run_missed earlier step later missed here
    rw [List.append_cons] at silent
    rwa [ledger.run_enqueued (List.forall_mem_append.mp silent).1, Nat.zero_add] at all

/-! ### Everything taken at once -/

namespace Op

/-- No word is taken off the controller ring and the host status is not written. -/
def Still (entries : List Entry) : Prop :=
  Trace.reads Register.controllerWindow entries = [] ∧
    Trace.writes Register.hostCsr entries = []

/-- These words are taken off the controller ring, in order, and acknowledged once, behind the last
of them. -/
def TakenAtOnce (words : List UInt32) (entries : List Entry) : Prop :=
  ∃ (taking others : List Entry) (csr : Csr),
    entries = taking ++ .read Register.hostCsr csr.raw ::
      .write Register.hostCsr (csr.withDoorbell true) :: others ∧
    Trace.reads Register.controllerWindow taking = words ∧
    Trace.writes Register.hostCsr taking = [] ∧ Still others

section

variable {words : List UInt32} {entries others : List Entry}

theorem still_of_looks {direction : Option Direction}
    (looks : ∀ entry ∈ entries, entry.Within [Register.controllerCsr] [] direction) :
    Still entries :=
  ⟨Trace.reads_eq_nil looks (by decide), Trace.writes_eq_nil looks (by simp)⟩

theorem TakenAtOnce.behind (taken : TakenAtOnce words entries) (still : Still others) :
    TakenAtOnce words (others ++ entries) := by
  obtain ⟨taking, later, csr, rfl, reads, writes, quiet⟩ := taken
  refine ⟨others ++ taking, later, csr, (List.append_assoc ..).symm, ?_, ?_, quiet⟩
  · rw [Trace.reads_append, still.1, reads, List.nil_append]
  · rw [Trace.writes_append, still.2, writes, List.nil_append]

theorem TakenAtOnce.before (taken : TakenAtOnce words entries) (still : Still others) :
    TakenAtOnce words (entries ++ others) := by
  obtain ⟨taking, later, csr, rfl, reads, writes, quiet⟩ := taken
  refine ⟨taking, later ++ others, csr, by simp, reads, writes, ?_, ?_⟩
  · rw [Trace.reads_append, quiet.1, still.1, List.nil_append]
  · rw [Trace.writes_append, quiet.2, still.2, List.nil_append]

theorem TakenAtOnce.writes (taken : TakenAtOnce words entries) :
    (Trace.writes Register.hostCsr entries).length = 1 := by
  obtain ⟨taking, later, csr, rfl, -, writes, quiet⟩ := taken
  rw [Trace.writes_append, writes, List.nil_append]
  exact congrArg (·.length + 1) quiet.2

theorem TakenAtOnce.word (taken : TakenAtOnce words entries) (word : UInt32) :
    TakenAtOnce (word :: words) (.read Register.controllerWindow word :: entries) := by
  obtain ⟨taking, later, csr, rfl, reads, writes, quiet⟩ := taken
  refine ⟨.read Register.controllerWindow word :: taking, later, csr, rfl, ?_, writes, quiet⟩
  rw [← reads]
  rfl

end

variable {α β : Type} {state : Timed Controller} {words : List UInt32}
  {frames : List Frame.Segment}

/-- From `state` the operation ends with `outcome`. It takes these words off the ring at once and
leaves these frames for the host, one doorbell later. -/
def Clears (op : Op (Timed Controller) α) (state : Timed Controller) (words : List UInt32)
    (frames : List Frame.Segment) (outcome : Except Stop α) : Prop :=
  ∃ entries after, op.Performs state entries outcome after ∧ TakenAtOnce words entries ∧
    state.registers.Rung 1 after.registers ∧
    after.registers.Forwards state.registers.ownRing.slots.size frames ∧
    after.elapsed = state.elapsed

namespace Clears

variable {op : Op (Timed Controller) α} {next : α → Op (Timed Controller) β} {value : α}
  {outcome : Except Stop β}

theorem after {head : List Entry} (first : op.Performs state head (.ok value) state)
    (still : Still head) (rest : (next value).Clears state words frames outcome) :
    (op >>= next).Clears state words frames outcome := by
  obtain ⟨entries, after, performs, taken, left⟩ := rest
  exact ⟨_, after, first.bind performs, taken.behind still, left⟩

theorem ending {tail : List Entry} (first : op.Clears state words frames (.ok value))
    (still : Still tail) (last : ∀ middle, (next value).Performs middle tail outcome middle) :
    (op >>= next).Clears state words frames outcome := by
  obtain ⟨entries, after, performs, taken, left⟩ := first
  exact ⟨_, after, performs.bind (last after), taken.before still, left⟩

theorem stopping {stop : Stop} (first : op.Clears state words frames (.error stop)) :
    (op >>= next).Clears state words frames (.error stop) := by
  obtain ⟨entries, after, performs, left⟩ := first
  exact ⟨entries, after, performs.bind_stop, left⟩

theorem attempt {fault : Fault} (first : op.Clears state words frames (.error (.fault fault))) :
    (Op.attempt op).Clears state words frames (.ok (.error fault)) := by
  obtain ⟨entries, after, performs, left⟩ := first
  exact ⟨entries, after, performs.attempt_fault, left⟩

theorem readWord {next : UInt32 → Op (Timed Controller) β} {word : UInt32}
    (present : state.registers.present = true) (sound : state.registers.ownRing.Sound)
    (front : state.registers.ownRing.toList = word :: words)
    (rest : ∀ ring : Controller.Ring, ring.Sound → ring.toList = words →
      ring.slots.size = state.registers.ownRing.slots.size →
      (next word).Clears { state with registers := { state.registers with ownRing := ring } } words
        frames outcome) :
    (readRegister Register.controllerWindow >>= next).Clears state (word :: words) frames
      outcome := by
  obtain ⟨ring, answered, sound, queue, size⟩ := Controller.readWindow_front present sound front
  obtain ⟨entries, after, performs, taken, rung, forwards, elapsed⟩ := rest ring sound queue size
  let begun : Timed Controller :=
    { state with registers := { state.registers with ownRing := ring } }
  have read : Registers.read Register.controllerWindow state = some (word, begun) := by
    simp only [Registers.read, answered, begun]
  refine ⟨_, after, (Performs.readRegister read).bind performs, taken.word word, rung.of_taken, ?_,
    elapsed⟩
  rwa [size] at forwards

end Clears

theorem discardAvailable_clears (attentive : state.registers.Attentive)
    (empty : state.registers.hostRing.cursors.isEmpty = true)
    (sound : state.registers.ownRing.Sound)
    (pending : state.registers.pending = frames.map Frame.Segment.words)
    (fits : ∀ segment ∈ frames, segment.words.length ≤ state.registers.ownRing.slots.size) :
    (discardAvailable : Op (Timed Controller) Unit).Clears state state.registers.ownRing.toList
      frames (.ok ()) := by
  obtain ⟨_, _, state, looks, ⟨csr, rfl, -⟩, rfl, rfl⟩ :=
    (controllerCursors_returns attentive.present sound).ensured controllerCursors_ensures
  obtain ⟨_, _, after, takes, ⟨words, -, rfl, ⟨⟩⟩,
      ⟨_, ⟨⟩, rfl, ring, rfl, sound', emptied, size⟩⟩ :=
    (@takeWords_front state _ [] attentive.present sound (List.append_nil _).symm).ensured
      (takeWords_ensures _)
  obtain ⟨_, _, _, acknowledges, ⟨⟨csr', rfl⟩, -⟩, rfl, rfl⟩ :=
    (@acknowledge_returns
      { state with registers := { state.registers with ownRing := ring } }).ensured
      acknowledge_ensures
  rw [sound.length_toList] at takes
  have taken : ({ state.registers with ownRing := ring } : Controller).Attentive :=
    .of_flags attentive.present attentive.ownFlags_ready attentive.hostFlags_released
  obtain ⟨rung, offering, kept⟩ :=
    @Controller.Attentive.acknowledge _ taken empty [] frames sound' emptied pending
      (size.symm ▸ fits) true
  have rung := rung.of_taken
  refine ⟨_, _, looks.bind (takes.bind acknowledges), ?_, rung,
    ⟨attentive.rung rung, rung.empty empty, kept.trans size, offering⟩, rfl⟩
  have reads : Trace.reads Register.controllerWindow
      (state.registers.ownRing.toList.map (.read Register.controllerWindow)) =
        state.registers.ownRing.toList := by
    simp [Function.comp_def]
  have writes := List.length_eq_zero_iff.mp
    (rings_reads Register.controllerWindow state.registers.ownRing.toList).1
  have at_once : TakenAtOnce state.registers.ownRing.toList _ :=
    ⟨_, [], csr', rfl, reads, writes, rfl, rfl⟩
  exact at_once.behind ⟨rfl, rfl⟩

/-! ### The calls that meet such a header -/

section

variable {raw : UInt32} {rest : List UInt32} {messages : List Message} {link : Link}

theorem header_clears {next : UInt32 → Op (Timed Controller) α} {outcome : Except Stop α}
    (clogged : state.registers.Clogged raw rest messages frames)
    (discards : ∀ begun : Timed Controller,
      (discardAvailable : Op (Timed Controller) Unit).Clears begun rest frames (.ok ()) →
      (next raw).Clears begun rest frames outcome) :
    (readRegister Register.controllerWindow >>= next).Clears state (raw :: rest) frames
      outcome := by
  have sound := Controller.Ring.sound_of_power clogged.power clogged.within
  refine .readWord clogged.attentive.present sound clogged.front fun ring sound queue size => ?_
  have taken : ({ state.registers with ownRing := ring } : Controller).Attentive :=
    .of_flags clogged.attentive.present clogged.attentive.ownFlags_ready
      clogged.attentive.hostFlags_released
  have clears := @discardAvailable_clears
    { state with registers := { state.registers with ownRing := ring } } frames taken clogged.empty
    sound clogged.pending (size.symm ▸ clogged.queued.fits clogged.deep)
  exact discards _ (queue ▸ clears)

theorem readFrame_clears (fuel : 0 < link.fuel) (deadline : Option Deadline)
    (clogged : state.registers.Clogged raw rest messages frames) :
    (readFrame link deadline).Clears state (raw :: rest) frames
      (.error (.fault (state.registers.overflow raw))) := by
  have sound := Controller.Ring.sound_of_power clogged.power clogged.within
  have filled : state.registers.ownRing.toList ≠ [] := by simp [clogged.front]
  have oversized : state.registers.ownRing.cursors.depth.toNat ≤ (Frame.Header.mk raw).words :=
    Nat.le_trans (Nat.le_of_eq state.registers.ownRing.toNat_cursors_depth) clogged.oversized
  obtain ⟨arrival, _, state, arrives, arrived, rfl, rfl⟩ :=
    (awaitFrame_returns fuel deadline clogged.attentive.present sound filled).ensured
      (awaitFrame_ensures link deadline)
  have looks : ∀ entry ∈ arrival, entry.Within [Register.controllerCsr] [] none :=
    arrived.within (by simp)
  refine .after arrives (still_of_looks looks) ?_
  refine header_clears clogged fun begun clears => ?_
  rw [if_pos oversized]
  exact .after (.record rfl) ⟨rfl, rfl⟩ (clears.ending ⟨rfl, rfl⟩ fun _ => .stop _)

theorem readPhase_clears (fuel : 0 < link.fuel) (capacity : Nat) (deadline : Option Deadline)
    (clogged : state.registers.Clogged raw rest messages frames) :
    (readPhase link ⟨.awaitingResponse⟩ capacity deadline).Clears state (raw :: rest) frames
      (.error (.fault (state.registers.overflow raw))) := by
  have reads : (readMessage link capacity deadline).Clears state (raw :: rest) frames
      (.error (.fault (state.registers.overflow raw))) := by
    obtain ⟨rounds, same⟩ := Nat.exists_eq_add_one.mpr fuel
    unfold readMessage
    rw [same]
    exact (readFrame_clears fuel deadline clogged).stopping
  refine reads.attempt.ending ?_ fun middle =>
    (advance_performs middle (mayPrecede_ofFault_of_awaiting _)).bind (.stop _)
  exact ⟨rfl, rfl⟩

theorem receive_clears (fuel : 0 < link.fuel) (blocking : Bool)
    (clogged : state.registers.Clogged raw rest messages frames) :
    (receive link blocking).Clears state (raw :: rest) frames
      (.error (.fault (state.registers.overflow raw))) := by
  have reading : ∀ deadline, Clears (do
      let awaiting ← advance {} .awaitingResponse
      readPhase link awaiting link.device.maxLength deadline) state (raw :: rest) frames
        (.error (.fault (state.registers.overflow raw))) := fun deadline =>
    .after (advance_performs state rfl) ⟨rfl, rfl⟩ (readPhase_clears fuel _ deadline clogged)
  unfold receive
  cases blocking with
  | true =>
    simp only [if_true, map_eq_pure_bind, bind_assoc, pure_bind]
    exact .after (.deadlineAfter _) ⟨rfl, rfl⟩ (reading _)
  | false =>
    simp only [Bool.false_eq_true, if_false, pure_bind]
    exact reading _

theorem discardFrame_clears (clogged : state.registers.Clogged raw rest messages frames) :
    (discardFrame link state.registers.ownRing.cursors.depth).Clears state (raw :: rest) frames
      (.ok ()) := by
  refine header_clears clogged fun begun clears => ?_
  have oversized : state.registers.ownRing.cursors.depth.toNat ≤ (Frame.Header.mk raw).words :=
    Nat.le_trans (Nat.le_of_eq state.registers.ownRing.toNat_cursors_depth) clogged.oversized
  rwa [if_pos oversized]

theorem drain_clears (fuel : 0 < link.fuel)
    (clogged : state.registers.Clogged raw rest messages frames) :
    ∃ front back after,
      (drain link).Performs state (front ++ back) (.ok (1 + min frames.length 255)) after ∧
      TakenAtOnce (raw :: rest) front ∧
      state.registers.Rung (1 + min frames.length 255) after.registers ∧
      after.registers.Forwards state.registers.ownRing.slots.size
        (frames.drop (min frames.length 255)) := by
  have sound := Controller.Ring.sound_of_power clogged.power clogged.within
  obtain ⟨_, _, state, looks, ⟨csr, rfl, -⟩, rfl, rfl⟩ :=
    (controllerCursors_returns clogged.attentive.present sound).ensured controllerCursors_ensures
  obtain ⟨first, middle, discards, taken, rung, forwards, -⟩ := @discardFrame_clears _ _ _ _ _ link
    clogged
  obtain ⟨others, _, after, goes, _, rfl, rfl, rung', forwards'⟩ :=
    discardFrames_forward fuel 255 1 forwards clogged.queued.counted
  have filled : ¬state.registers.ownRing.cursors.isEmpty = true := by
    rw [sound.isEmpty_eq, clogged.front]
    simp
  have counts : (discardFrames link drainLimit 0).Performs state
      ([.read Register.controllerCsr csr.raw] ++ (first ++ others))
      (.ok (1 + min frames.length 255)) after := by
    refine looks.bind ?_
    rw [if_neg filled]
    exact discards.bind goes
  refine ⟨[.read Register.controllerCsr csr.raw] ++ first,
    others ++ [.event (.drained (1 + min frames.length 255))], after, ?_,
    taken.behind ⟨rfl, rfl⟩, rung.trans rung', forwards.size ▸ forwards'⟩
  rw [← List.append_assoc, List.append_assoc _ first]
  refine counts.bind ?_
  rw [if_pos (by omega)]
  exact (Performs.record rfl).bind (.pure _)

end

/-- A read of a clogged controller takes what is in the ring, no more, with one doorbell behind it,
and tells what did not fit; then the messages that were waiting are delivered, and those injected
later behind them. A drain throws the same words away as one frame, and goes on with the frames that
were waiting. -/
theorem clogged_rings_are_cleared {controller : Controller} {raw : UInt32} {rest : List UInt32}
    {messages : List Message} {waiting : List Frame.Segment}
    (clogged : controller.Clogged raw rest messages waiting) (elapsed : Nat) (trace : Array Entry)
    {link : Link} (fuel : 0 < link.fuel) :
    let before : World (Timed Controller) := ⟨⟨controller, elapsed⟩, trace⟩
    let ring := controller.ownRing
    let frames := min waiting.length 255
    (∀ blocking,
      let reading : Op (Timed Controller) Message := receive link blocking
      let after := reading.reached before
      reading.outcome before =
        .error (.fault (.overflow ring.cursors.filled ring.depth (Frame.Header.mk raw).words)) ∧
      TakenAtOnce (raw :: rest) (reading.added before) ∧
      controller.Rung 1 after.hardware.registers ∧
      after.hardware.registers.Offering waiting ∧ Delivers messages after) ∧
    let draining : Op (Timed Controller) Nat := drain link
    let after := draining.reached before
    draining.outcome before = .ok (1 + frames) ∧
    (∃ front back, draining.added before = front ++ back ∧ TakenAtOnce (raw :: rest) front ∧
      (Trace.writes Register.hostCsr back).length = frames) ∧
    controller.Rung (1 + frames) after.hardware.registers ∧
    after.hardware.registers.Offering (waiting.drop frames) ∧
    (waiting.length ≤ 255 → Delivers [] after) := by
  intro before ring frames
  refine ⟨fun blocking => ?_, ?_⟩
  · obtain ⟨entries, after, performs, taken, rung, forwards, -⟩ :=
      @receive_clears ⟨controller, elapsed⟩ _ _ _ _ _ fuel blocking clogged
    dsimp only
    rw [performs.outcome_eq, performs.added_eq, performs.reached_eq]
    exact ⟨rfl, taken, rung, forwards.offering, forwards.delivers clogged.deep clogged.queued⟩
  · obtain ⟨front, back, after, performs, taken, rung, forwards⟩ :=
      @drain_clears ⟨controller, elapsed⟩ _ _ _ _ _ fuel clogged
    have told := ((drain_ensures link).holds before).1
    rw [performs.outcome_eq, performs.added_eq] at told
    have rings : (Trace.writes Register.hostCsr back).length = frames := by
      have all := told.acknowledged.1
      rw [Trace.writes_append, List.length_append, taken.writes] at all
      omega
    dsimp only
    rw [performs.outcome_eq, performs.added_eq, performs.reached_eq]
    refine ⟨rfl, ⟨front, back, rfl, taken, rings⟩, rung, forwards.offering, fun few => ?_⟩
    rw [Nat.min_eq_left few, List.drop_length] at forwards
    exact forwards.delivers clogged.deep .nil

/-- A header that claims as many words as the ring of four slots has, and a word behind it, where
the cursors wrap. -/
def jam : List Steering := [.setOwnCursors 254 254, .injectWords [0x80100007, 0xDEADBEEF]]

def jamBefore (message : Message) : List Steering := jam ++ [.enqueue message 7 0]

theorem stale_message_outlives_the_jam :
    let answer : Message := .ofBytes (List.replicate 20 0xAA)
    let controller := (Controller.ofDepths 8 4).steerAll (jamBefore answer)
    let before : World (Timed Controller) := ⟨⟨controller, 0⟩, #[]⟩
    let after := (receive hasty true).reached before
    controller.Clogged 0x80100007 [0xDEADBEEF] [answer] belated ∧ 0 < hasty.fuel ∧
      (receive hasty true).outcome before = .error (.fault (.overflow 2 4 4)) ∧
      (∃ enough, ∀ fuel, enough ≤ fuel →
        (Step.runAll fuel after [.inject (.ofBytes [1, 2, 3]) 7 0, .receive hasty false,
            .receive hasty true, .receive hasty false]).1 =
          [.done (.ok ()), .read (.ok answer), .read (.ok (.ofBytes [1, 2, 3])),
            .read (.error (.fault .noData))]) ∧
      (drain hasty).outcome before = .ok 3 := by
  intro answer controller before after
  have frames : responseFrames 4 answer ⟨0, 7⟩ ++ [] = belated := by decide +kernel
  have queued : Queued 4 [answer] belated := frames ▸ .cons ⟨0, 7⟩ (by decide) .nil
  have clogged : controller.Clogged 0x80100007 [0xDEADBEEF] [answer] belated :=
    { attentive := ⟨by decide +kernel, by decide +kernel, by decide +kernel⟩
      empty := by decide +kernel
      power := ⟨2, by decide +kernel⟩
      deep := by decide +kernel
      within := by decide +kernel
      front := by decide +kernel
      oversized := by decide +kernel
      pending := by decide +kernel
      queued := by
        rw [show controller.ownRing.slots.size = 4 by decide +kernel]
        exact queued }
  have fuel : 0 < hasty.fuel := by decide
  obtain ⟨reads, drained, -⟩ := clogged_rings_are_cleared clogged 0 #[] fuel
  obtain ⟨failed, -, -, -, delivers⟩ := reads true
  obtain ⟨enough, runs⟩ := delivers [.inject (.ofBytes [1, 2, 3]) 7 0, .receive hasty false,
    .receive hasty true, .receive hasty false] (by decide) (by decide +kernel)
  refine ⟨clogged, fuel, failed.trans (by decide +kernel), ⟨enough, fun fuel sufficient => ?_⟩,
    drained⟩
  exact (runs fuel sufficient).1.trans rfl

/-- An empty message is put into no frame, so there is nothing of it to deliver. -/
theorem empty_message_is_not_delivered :
    let controller := (Controller.ofDepths 8 4).steerAll jam
    let before : World (Timed Controller) := ⟨⟨controller, 0⟩, #[]⟩
    let injected := ((Step.inject .empty 7 0).run 1 ((receive hasty true).reached before)).2
    controller.Clogged 0x80100007 [0xDEADBEEF] [] [] ∧
      (receive hasty true).outcome before = .error (.fault (.overflow 2 4 4)) ∧
      (receive hasty false).outcome injected = .error (.fault .noData) := by
  intro controller before injected
  have clogged : controller.Clogged 0x80100007 [0xDEADBEEF] [] [] :=
    { attentive := ⟨by decide +kernel, by decide +kernel, by decide +kernel⟩
      empty := by decide +kernel
      power := ⟨2, by decide +kernel⟩
      deep := by decide +kernel
      within := by decide +kernel
      front := by decide +kernel
      oversized := by decide +kernel
      pending := by decide +kernel
      queued := .nil }
  exact ⟨clogged, by decide +kernel, by decide +kernel⟩

end Op

end HeciMailbox
