import HeciMailbox.Proofs.Backends
import HeciMailbox.Proofs.Calls
import HeciMailbox.Proofs.StatusBits
import HeciMailbox.Proofs.WholeFrames

/-! What a call writes to the host status is what the access before has read there, on any hardware.

It adds the doorbell or the marks of a handshake. A status that shows an absent function is written
back in one place only, the acknowledgement of a frame, which does not look at what it has read. -/

set_option autoImplicit false

namespace HeciMailbox

inductive Csr.Returns (csr : Csr) : UInt32 → Prop where
  | rung (clearStatus : Bool) : Returns csr (csr.withDoorbell clearStatus)
  | marked : Returns csr (csr.withBits (readyBit ||| generateBit) resetBit)

/-- The value is what a reset makes of a status with its first, its second or its last write. -/
inductive Csr.Handshake (csr : Csr) : Nat → UInt32 → Prop where
  | asked : Handshake csr 0 (csr.withBits (resetBit ||| generateBit) 0)
  | released : Handshake csr 1 (csr.withBits generateBit resetBit)
  | marked : Handshake csr 2 (csr.withBits (readyBit ||| generateBit) 0)

namespace Trace

@[simp] def held (before : Option Csr) : Entry → Option Csr
  | .read offset value => if offset = Register.hostCsr then some ⟨value⟩ else none
  | .write .. => none
  | .wait _ | .event _ | .remark _ => before

/-- Each write of the host status is allowed for what the access before it has read there. How many
such writes came before it counts too. -/
def Rewrites (allowed : Nat → Csr → UInt32 → Prop) : Nat → Option Csr → List Entry → Prop
  | _, _, [] => True
  | count, before, entry :: rest =>
    (∀ value, entry.written? Register.hostCsr = some value →
      ∃ csr, before = some csr ∧ allowed count csr value) ∧
    Rewrites allowed (count + (entry.written? Register.hostCsr).toList.length)
      (held before entry) rest

def Rewriting (allowed : Nat → Csr → UInt32 → Prop) (entries : List Entry) : Prop :=
  ∀ count before, Rewrites allowed count before entries

variable {allowed : Nat → Csr → UInt32 → Prop} {first second entries : List Entry}

theorem length_writes_cons (offset : UInt32) (entry : Entry) (rest : List Entry) :
    (writes offset (entry :: rest)).length =
      (entry.written? offset).toList.length + (writes offset rest).length := by
  cases written : entry.written? offset with
  | none => rw [writes, List.filterMap_cons_none written, Option.toList_none, List.length_nil,
      Nat.zero_add]
  | some value => rw [writes, List.filterMap_cons_some written, Option.toList_some,
      List.length_singleton, List.length_cons, Nat.add_comm]

/-- What follows is judged by the writes that came before it. -/
theorem Rewrites.append {count : Nat} {before : Option Csr}
    (start : Rewrites allowed count before first)
    (others : ∀ last,
      Rewrites allowed (count + (writes Register.hostCsr first).length) last second) :
    Rewrites allowed count before (first ++ second) := by
  induction first generalizing count before with
  | nil => exact others before
  | cons entry rest ih =>
    refine ⟨start.1, ih start.2 fun last => ?_⟩
    rw [Nat.add_assoc, ← length_writes_cons]
    exact others last

theorem Rewrites.mono {wider : Nat → Csr → UInt32 → Prop} {count : Nat} {before : Option Csr}
    (rewrites : Rewrites allowed count before entries)
    (imp : ∀ later, count ≤ later → ∀ csr value, allowed later csr value → wider later csr value) :
    Rewrites wider count before entries := by
  induction entries generalizing count before with
  | nil => trivial
  | cons entry rest ih =>
    refine ⟨fun value written => ?_, ih rewrites.2 fun later past =>
      imp later (Nat.le_trans (Nat.le_add_right _ _) past)⟩
    obtain ⟨csr, read, permitted⟩ := rewrites.1 value written
    exact ⟨csr, read, imp count (Nat.le_refl _) csr value permitted⟩

namespace Rewriting

theorem append (rewriting : Rewriting allowed first) (others : Rewriting allowed second) :
    Rewriting allowed (first ++ second) :=
  fun count before => (rewriting count before).append fun last => others _ last

theorem mono {wider : Nat → Csr → UInt32 → Prop} (rewriting : Rewriting allowed entries)
    (imp : ∀ count csr value, allowed count csr value → wider count csr value) :
    Rewriting wider entries :=
  fun count before => (rewriting count before).mono fun later _ => imp later

theorem of_unwritten (unwritten : writes Register.hostCsr entries = []) :
    Rewriting allowed entries := by
  intro count before
  induction entries generalizing count before with
  | nil => trivial
  | cons entry rest ih =>
    obtain ⟨still, others⟩ := List.forall_mem_cons.mp (List.filterMap_eq_nil_iff.mp unwritten)
    refine ⟨fun value written => ?_, ih (List.filterMap_eq_nil_iff.mpr others) _ _⟩
    cases still.symm.trans written

theorem of_within {reads writes : List UInt32} {direction : Option Direction}
    (within : ∀ entry ∈ entries, entry.Within reads writes direction)
    (other : Register.hostCsr ∉ writes) : Rewriting allowed entries :=
  of_unwritten (writes_eq_nil within other)

theorem returned {csr : Csr} {value : UInt32} (permitted : ∀ count, allowed count csr value) :
    Rewriting allowed [.read Register.hostCsr csr.raw, .write Register.hostCsr value] := by
  intro count before
  simpa [Rewrites] using permitted count

theorem event (told : Event) : Rewriting allowed [.event told] := .of_unwritten rfl

theorem remark (said : Remark) : Rewriting allowed [.remark said] := .of_unwritten rfl

theorem read (offset value : UInt32) : Rewriting allowed [.read offset value] := .of_unwritten rfl

end Rewriting

end Trace

namespace Op

open Trace (Rewriting)

def Returned (_ : Nat) (csr : Csr) (value : UInt32) : Prop :=
  csr.absent = false ∧ csr.Returns value

def Rung (_ : Nat) (csr : Csr) (value : UInt32) : Prop := value = csr.withDoorbell true

def Readied (_ : Nat) (csr : Csr) (value : UInt32) : Prop :=
  csr.absent = false ∧ value = csr.withBits (Csr.readyBit ||| Csr.generateBit) Csr.resetBit

section

variable {allowed : Nat → Csr → UInt32 → Prop} {entries : List Entry}

/-! ### Sends -/

theorem Required.rewriting {outcome : Except Stop Unit} (required : Required entries outcome) :
    Rewriting allowed entries := by
  cases required <;> exact .of_unwritten rfl

theorem HostMarked.rewriting {outcome : Except Stop Unit} (marked : HostMarked entries outcome) :
    Rewriting Returned entries := by
  cases marked with
  | gone | already => exact .of_unwritten rfl
  | marked here =>
    intro count before
    simpa [Trace.Rewrites] using ⟨here, .marked⟩

theorem rewriting_of_idle (idle : ∀ entry ∈ entries, entry.Idle) : Rewriting allowed entries :=
  .of_unwritten (writes_eq_nil_of_idle idle _)

theorem rewriting_frameWritten (header : Frame.Header) (words : List UInt32) (cursor : UInt8) :
    Rewriting allowed (frameWritten header words cursor) := by
  have apart : Register.hostWindow ≠ Register.hostCsr := by decide
  refine .of_unwritten (List.filterMap_eq_nil_iff.mpr fun entry member => ?_)
  obtain ⟨word, -, rfl⟩ | rfl | rfl :
      (∃ word ∈ header.raw :: words, Entry.write Register.hostWindow word = entry) ∨
        entry = .remark (.frameWritten header cursor) ∨
        entry = .event (.ofFrame .toController header words) := by
    simpa only [frameWritten, List.mem_append, List.mem_map, List.mem_cons, List.not_mem_nil,
      or_false] using member
  · simp [apart]
  · rfl
  · rfl

theorem Delivered.rewriting {first rung : Bool} {segments : List Frame.Segment}
    (delivered : Delivered first segments rung entries) : Rewriting Returned entries := by
  induction delivered with
  | done idle => exact rewriting_of_idle idle
  | vanished idle _ _ =>
    exact (rewriting_of_idle idle).append
      ((Rewriting.read _ _).append ((rewriting_frameWritten _ _ _).append (.read _ _)))
  | next idle _ here _ ih =>
    exact (rewriting_of_idle idle).append
      ((Rewriting.read _ _).append ((rewriting_frameWritten _ _ _).append
        ((Rewriting.returned fun _ => ⟨here, .rung false⟩).append ih)))

theorem MessageWritten.rewriting {link : Link} {message : Message} {route : Route}
    {outcome : Except Stop Unit} (written : MessageWritten link message route entries outcome) :
    Rewriting Returned entries := by
  cases written with
  | badLength => exact .of_unwritten rfl
  | unready _ required => exact required.rewriting
  | unmarked _ required marked => exact required.rewriting.append marked.rewriting
  | unsized _ required marked =>
    exact required.rewriting.append (marked.rewriting.append (.read _ _))
  | shallow _ required marked =>
    exact required.rewriting.append (marked.rewriting.append (.of_unwritten rfl))
  | sent _ required marked _ _ sent =>
    obtain ⟨_, _, _, delivered, _⟩ := sent.delivered
    exact required.rewriting.append
      (marked.rewriting.append ((Rewriting.read _ _).append delivered.rewriting))

theorem SendHalf.rewriting {link : Link} {message : Message} {route : Route}
    {outcome : Except Stop Exchange} (half : SendHalf link message route entries outcome) :
    Rewriting Returned entries := by
  cases half with
  | sent written => exact (Rewriting.event _).append written.rewriting
  | failed written => exact (Rewriting.event _).append (written.rewriting.append (.event _))
  | abandoned _ written => exact (Rewriting.event _).append written.rewriting

/-! ### Reads -/

theorem Acknowledged.rewriting (acknowledged : Acknowledged entries) : Rewriting Rung entries := by
  obtain ⟨csr, rfl⟩ := acknowledged
  exact .returned fun _ => rfl

theorem rewriting_taking (words : List UInt32) :
    Rewriting allowed (words.map (.read Register.controllerWindow)) :=
  .of_unwritten (by simp)

theorem Discarded.rewriting {outcome : Except Stop Unit} (discarded : Discarded entries outcome) :
    Rewriting Rung entries := by
  cases discarded with
  | stopped => exact .read _ _
  | taken _ _ acknowledged =>
    exact (Rewriting.read _ _).append ((rewriting_taking _).append acknowledged.rewriting)

theorem Awaited.unwritten {α : Type} {offset : UInt32} {judge : Csr → Except Stop (Option α)}
    {deadline : Deadline} {outcome : Except Stop α}
    (awaited : Awaited offset judge deadline entries outcome) :
    Trace.writes Register.hostCsr entries = [] := by
  have within : ∀ entry ∈ entries, entry.Within [offset] [] none := awaited.within (by simp)
  exact Trace.writes_eq_nil within (by simp)

theorem Awaited.rewriting {α : Type} {offset : UInt32} {judge : Csr → Except Stop (Option α)}
    {deadline : Deadline} {outcome : Except Stop α}
    (awaited : Awaited offset judge deadline entries outcome) : Rewriting allowed entries := by
  exact .of_unwritten awaited.unwritten

theorem Arrived.rewriting {deadline : Option Deadline} {outcome : Except Stop Cursors}
    (arrived : Arrived deadline entries outcome) : Rewriting allowed entries := by
  have within : ∀ entry ∈ entries, entry.Within [Register.controllerCsr] [] none :=
    arrived.within (by simp)
  exact .of_within within (by simp)

theorem BodyAwaited.rewriting {words : Nat} {outcome : Except Stop Unit}
    (awaited : BodyAwaited words entries outcome) : Rewriting allowed entries := by
  cases awaited with
  | bare => exact .of_unwritten rfl
  | awaited _ awaited => exact awaited.rewriting

theorem FrameRead.rewriting {deadline : Option Deadline}
    {outcome : Except Stop (Frame.Header × List UInt32)}
    (read : FrameRead deadline entries outcome) : Rewriting Rung entries := by
  cases read with
  | missing arrived => exact arrived.rewriting
  | oversized arrived _ discarded | undiscarded arrived _ discarded =>
    exact arrived.rewriting.append
      ((Rewriting.read _ _).append ((Rewriting.remark _).append discarded.rewriting))
  | cutOff arrived _ awaited =>
    exact arrived.rewriting.append ((Rewriting.read _ _).append awaited.rewriting)
  | taken arrived _ awaited _ acknowledged =>
    exact arrived.rewriting.append ((Rewriting.read _ _).append (awaited.rewriting.append
      ((rewriting_taking _).append ((Rewriting.event _).append acknowledged.rewriting))))

theorem MessageRead.rewriting {capacity : Nat} {deadline : Option Deadline} {assembly : Assembly}
    {outcome : Except Stop Message}
    (read : MessageRead capacity deadline assembly entries outcome) : Rewriting Rung entries := by
  induction read with
  | stopped read => exact read.rewriting
  | last read _ finished =>
    refine read.rewriting.append ?_
    cases finished with
    | oversized => exact .remark _
    | whole => exact .of_unwritten rfl
  | next read _ _ ih => exact read.rewriting.append ih
  | unfinished => exact .of_unwritten rfl

theorem ReadHalf.rewriting {capacity : Nat} {deadline : Option Deadline}
    {outcome : Except Stop Message} (half : ReadHalf capacity deadline entries outcome) :
    Rewriting Rung entries := by
  cases half with
  | complete read | failed read => exact read.rewriting.append (.event _)
  | abandoned _ read => exact read.rewriting

/-! ### Upkeep -/

theorem FrameDiscarded.rewriting {depth : UInt8} {outcome : Except Stop Unit}
    (discarded : FrameDiscarded depth entries outcome) : Rewriting Rung entries := by
  cases discarded with
  | oversized _ discarded => exact (Rewriting.read _ _).append discarded.rewriting
  | cutOff _ awaited => exact (Rewriting.read _ _).append awaited.rewriting
  | taken _ awaited _ acknowledged =>
    exact (Rewriting.read _ _).append
      (awaited.rewriting.append ((rewriting_taking _).append acknowledged.rewriting))

theorem FramesDiscarded.rewriting {frames : Nat} {outcome : Except Stop Nat}
    (discarded : FramesDiscarded frames entries outcome) : Rewriting Rung entries := by
  induction discarded with
  | limit => exact .of_unwritten rfl
  | stopped | empty => exact .read _ _
  | undiscarded _ _ undiscarded => exact (Rewriting.read _ _).append undiscarded.rewriting
  | next _ _ discarded _ ih =>
    exact (Rewriting.read _ _).append (discarded.rewriting.append ih)

theorem Drained.rewriting {outcome : Except Stop Nat} (drained : Drained entries outcome) :
    Rewriting Rung entries := by
  cases drained with
  | nothing discarded | stopped discarded => exact discarded.rewriting
  | removed _ discarded => exact discarded.rewriting.append (.event _)

theorem Marked.rewrites {set clear : UInt32} {outcome : Except Stop Unit} {count : Nat}
    (marked : Marked set clear entries outcome)
    (permitted : ∀ csr, csr.absent = false → allowed count csr (csr.withBits set clear))
    (before : Option Csr) : Trace.Rewrites allowed count before entries := by
  cases marked with
  | gone => exact Rewriting.read _ _ count before
  | marked here => simpa [Trace.Rewrites] using permitted _ here

theorem Marked.written {set clear : UInt32} (marked : Marked set clear entries (.ok ())) :
    (Trace.writes Register.hostCsr entries).length = 1 := by
  cases marked with
  | marked => rfl

theorem BroughtUp.rewriting {outcome : Except Stop Unit} (broughtUp : BroughtUp entries outcome) :
    Rewriting Readied entries := by
  have marking : ∀ {entries outcome},
      Marked (Csr.readyBit ||| Csr.generateBit) Csr.resetBit entries outcome →
      Rewriting Readied entries := fun marked _ => marked.rewrites fun _ here => ⟨here, rfl⟩
  cases broughtUp with
  | down awaited => exact awaited.rewriting
  | abandoned _ awaited => exact awaited.rewriting
  | gone awaited marked => exact awaited.rewriting.append (marking marked)
  | up awaited marked =>
    exact awaited.rewriting.append ((marking marked).append (.remark _))

theorem HandshakeStep.rewrites {set clear : UInt32} {ready : Bool} {outcome : Except Stop Unit}
    {count : Nat} (step : HandshakeStep set clear ready entries outcome)
    (permitted : ∀ csr, csr.absent = false → allowed count csr (csr.withBits set clear))
    (before : Option Csr) : Trace.Rewrites allowed count before entries := by
  cases step with
  | gone marked => exact marked.rewrites permitted before
  | answered marked awaited =>
    exact (marked.rewrites permitted before).append fun last => awaited.rewriting _ last

theorem HandshakeStep.written {set clear : UInt32} {ready : Bool}
    (step : HandshakeStep set clear ready entries (.ok ())) :
    (Trace.writes Register.hostCsr entries).length = 1 := by
  cases step with
  | answered marked awaited =>
    rw [Trace.writes_append, awaited.unwritten, List.append_nil, marked.written]

theorem HandshakeStep.followed {set clear : UInt32} {ready : Bool} {count : Nat}
    {rest : List Entry} (step : HandshakeStep set clear ready entries (.ok ()))
    (permitted : ∀ csr, csr.absent = false → allowed count csr (csr.withBits set clear))
    (others : ∀ last, Trace.Rewrites allowed (count + 1) last rest) (before : Option Csr) :
    Trace.Rewrites allowed count before (entries ++ rest) := by
  refine (step.rewrites permitted before).append fun last => ?_
  rw [step.written]
  exact others last

/-- A reset asks for it with its first write, takes that back with its second and marks the host
ready with its third. -/
theorem Reset.rewrites {outcome : Except Stop Unit} (reset : Reset entries outcome)
    (before : Option Csr)
    (permitted : ∀ count csr value, csr.absent = false → csr.Handshake count value →
      allowed count csr value) :
    Trace.Rewrites allowed 0 before entries := by
  have look : ∀ {value : UInt32} {rest : List Entry}, Trace.Rewrites allowed 0 none rest →
      Trace.Rewrites allowed 0 before (.read Register.controllerCsr value :: rest) := by
    intro value rest rewrites
    exact ⟨by simp, rewrites⟩
  have asks : ∀ csr : Csr, csr.absent = false → allowed 0 csr _ := fun csr here =>
    permitted 0 csr _ here .asked
  have releases : ∀ csr : Csr, csr.absent = false → allowed 1 csr _ := fun csr here =>
    permitted 1 csr _ here .released
  have marks : ∀ csr : Csr, csr.absent = false → allowed 2 csr _ := fun csr here =>
    permitted 2 csr _ here .marked
  cases reset with
  | absent => exact look trivial
  | unasked _ asked => exact look (asked.rewrites asks none)
  | unreleased _ asked released =>
    exact look (asked.followed asks (released.rewrites releases) none)
  | unmarked _ asked released marked =>
    have others := released.followed releases (marked.rewrites marks)
    exact look (asked.followed asks others none)
  | reset _ asked released marked =>
    have others := released.followed releases fun last =>
      (marked.rewrites marks last).append fun last => Rewriting.event .reset _ last
    exact look (asked.followed asks others none)

end

/-! ### Calls -/

end Op

def Call.takesFrames : Call → Bool
  | .sendAndAwait .. | .receive _ | .drain => true
  | .send .. | .bringUp | .reset => false

/-- What a call makes of `csr` with a write to the host status when it has made `count` of them
before. -/
def Call.Computes : Call → Nat → Csr → UInt32 → Prop
  | .send .., _, csr, value | .sendAndAwait .., _, csr, value => csr.Returns value
  | .receive _, _, csr, value | .drain, _, csr, value => value = csr.withDoorbell true
  | .bringUp, _, csr, value =>
    value = csr.withBits (Csr.readyBit ||| Csr.generateBit) Csr.resetBit
  | .reset, count, csr, value => csr.Handshake count value

/-- What a call may write to the host status when the access before has read `csr` there and the
call has made `count` such writes already. -/
structure Call.MayWrite (call : Call) (count : Nat) (csr : Csr) (value : UInt32) : Prop where
  computed : call.Computes count csr value
  absent : csr.absent = true → call.takesFrames = true ∧ value = csr.withDoorbell true
  asks : csr.reset = false → (Csr.mk value).reset = true → call = .reset ∧ count = 0

namespace Csr

theorem Returns.unreset {csr : Csr} {value : UInt32} (returns : csr.Returns value)
    (unset : csr.reset = false) : (Csr.mk value).reset = false := by
  have quiet : Quiet resetBit csr.raw := quiet_of_has unset
  refine has_of_quiet ?_
  cases returns with
  | rung clearStatus =>
    cases clearStatus with
    | true => exact quiet.or (by decide)
    | false => exact (quiet.or (by decide)).and _
  | marked => exact ((quiet.or (by decide)).and _).and _

end Csr

namespace Op

open Trace (Rewriting)

section

variable {link : Link} {call : Call} {entries : List Entry}

theorem Returned.mayWrite {count : Nat} {csr : Csr} {value : UInt32}
    (returned : Returned count csr value) (computed : call.Computes count csr value) :
    call.MayWrite count csr value where
  computed := computed
  absent gone := by simp [returned.1] at gone
  asks unset set := by simp [returned.2.unreset unset] at set

theorem Rung.returns {count : Nat} {csr : Csr} {value : UInt32} (rung : Rung count csr value) :
    csr.Returns value := rung ▸ .rung true

theorem Readied.returned {count : Nat} {csr : Csr} {value : UInt32}
    (readied : Readied count csr value) : Returned count csr value :=
  ⟨readied.1, readied.2 ▸ .marked⟩

theorem Rung.mayWrite {count : Nat} {csr : Csr} {value : UInt32} (rung : Rung count csr value)
    (takes : call.takesFrames = true) : call.MayWrite count csr value where
  computed := by
    cases call with
    | sendAndAwait => exact rung.returns
    | receive | drain => exact rung
    | send | bringUp | reset => cases takes
  absent _ := ⟨takes, rung⟩
  asks unset set := by simp [rung.returns.unreset unset] at set

theorem SendHalf.mayWrite {message : Message} {route : Route} {outcome : Except Stop Exchange}
    (half : SendHalf link message route entries outcome)
    (sends : ∀ count csr value, csr.Returns value → call.Computes count csr value) :
    Rewriting call.MayWrite entries :=
  half.rewriting.mono fun _ _ _ returned => returned.mayWrite (sends _ _ _ returned.2)

theorem ReadHalf.mayWrite {capacity : Nat} {deadline : Option Deadline}
    {outcome : Except Stop Message} (half : ReadHalf capacity deadline entries outcome)
    (takes : call.takesFrames = true) : Rewriting call.MayWrite entries :=
  half.rewriting.mono fun _ _ _ rung => rung.mayWrite takes

theorem Reset.mayWrite {outcome : Except Stop Unit} (reset : Reset entries outcome)
    (before : Option Csr) : Trace.Rewrites (Call.MayWrite .reset) 0 before entries := by
  refine reset.rewrites before fun count csr value here handshake => ?_
  refine ⟨handshake, fun gone => by simp [here] at gone, fun unset asks => ?_⟩
  -- Neither of the later writes sets the reset bit, whatever was read.
  have later : ∀ {set clear : UInt32}, Csr.Quiet Csr.resetBit set →
      (Csr.mk (csr.withBits set clear)).reset = false := fun apart =>
    Csr.has_of_quiet ((((Csr.quiet_of_has unset).or apart).and _).and _)
  cases handshake with
  | asked => exact ⟨rfl, rfl⟩
  | released => cases asks.symm.trans (later (by decide))
  | marked => cases asks.symm.trans (later (by decide))

theorem Called.mayWrite {outcome : Except Stop Unit} (called : Called link call entries outcome) :
    Trace.Rewrites call.MayWrite 0 none entries := by
  cases called with
  | send sent =>
    cases sent with
    | complete half => exact (half.mayWrite fun _ _ _ => id).append (.event _) 0 none
    | stopped half => exact half.mayWrite (fun _ _ _ => id) 0 none
  | sendAndAwait exchanged =>
    cases exchanged with
    | unsent half => exact half.mayWrite (fun _ _ _ => id) 0 none
    | read half reading =>
      exact (half.mayWrite fun _ _ _ => id).append
        ((Rewriting.event _).append (reading.mayWrite rfl)) 0 none
  | receive received =>
    obtain ⟨_, half, reading, rfl⟩ := received
    exact (Rewriting.event _).append (reading.mayWrite rfl) 0 none
  | drain drained => exact drained.rewriting.mono (fun _ _ _ rung => rung.mayWrite rfl) 0 none
  | bringUp broughtUp =>
    refine broughtUp.rewriting.mono (fun _ _ _ readied => ?_) 0 none
    exact readied.returned.mayWrite readied.2
  | reset reset => exact reset.mayWrite none

end

/-- Every value that a call writes to the host status is made from what the access before it has
read there: it returns that with the doorbell or the marks of a ready host, or is due in the
handshake of a reset. Where the read shows an absent function, the write acknowledges a frame;
otherwise only the first write of a reset sets the reset bit. -/
theorem host_status_is_written_as_read {σ : Type} [Registers σ] [Clock σ] [Registers.Answers σ]
    (link : Link) (call : Call) (world : World σ) :
    Trace.Rewrites call.MayWrite 0 none ((perform link call).added world) :=
  ((perform_ensures link call).holds world).1.mayWrite

/-- A message without content is in the ring, and the function leaves the bus before the host status
is read to acknowledge it. -/
def leaving : World (Timed Bus.Replay) :=
  ⟨⟨⟨[0xFFFFFFFF], [0x08010008], [0x80000007]⟩, 0⟩, #[]⟩

/-- The receive succeeds, and what it writes back would ask for a reset. -/
theorem absent_status_is_written_back :
    (perform (.ofConfig {} 0xFED1A000 8) (.receive false)).outcome leaving = .ok () ∧
    (∀ csr ∈ (Trace.reads Register.hostCsr ((perform (.ofConfig {} 0xFED1A000 8)
      (.receive false)).added leaving)).map Csr.mk, csr.absent = true) ∧
    (Trace.writes Register.hostCsr ((perform (.ofConfig {} 0xFED1A000 8)
      (.receive false)).added leaving)).map (fun value => (Csr.mk value).reset) = [true] := by
  decide +kernel

/-- A controller that goes through a reset as it should, while the host status stays as it is. -/
def obliging : World (Timed Bus.Replay) :=
  ⟨⟨⟨[0x08000008], [0x08000008, 0x08000000, 0x08000008], []⟩, 0⟩, #[]⟩

theorem reset_writes_as_read :
    Trace.writes Register.hostCsr ((perform (.ofConfig {} 0xFED1A000 8) .reset).added obliging) =
      [0x0800001C, 0x0800000C, 0x0800000C] ∧
    Trace.Rewrites (Call.MayWrite .reset) 0 none
      ((perform (.ofConfig {} 0xFED1A000 8) .reset).added obliging) :=
  ⟨by decide +kernel, host_status_is_written_as_read _ .reset obliging⟩

end Op

end HeciMailbox
