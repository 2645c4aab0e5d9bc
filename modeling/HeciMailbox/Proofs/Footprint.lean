import HeciMailbox.Proofs.Receiving
import HeciMailbox.Proofs.Upkeep
import HeciMailbox.Proofs.Views

/-! Which registers each kind of operation touches.

A send reads the two status registers and writes the host window and the host status; a read and a
drain never write the host window; bringing up and resetting touch neither window. -/

set_option autoImplicit false

namespace HeciMailbox.Op

def Outbound : Entry → Prop :=
  Entry.Within [Register.controllerCsr, Register.hostCsr] [Register.hostWindow, Register.hostCsr]
    (some .toController)

def Inbound : Entry → Prop :=
  Entry.Within [Register.controllerCsr, Register.controllerWindow, Register.hostCsr]
    [Register.hostCsr] (some .toHost)

def Draining : Entry → Prop :=
  Entry.Within [Register.controllerCsr, Register.controllerWindow, Register.hostCsr]
    [Register.hostCsr] none

/-- An entry that touches neither window. -/
def Aside : Entry → Prop :=
  Entry.Within [Register.controllerCsr, Register.hostCsr] [Register.hostCsr] none

section

variable {entries : List Entry}

theorem Awaited.within {α : Type} {offset : UInt32} {judge : Csr → Except Stop (Option α)}
    {deadline : Deadline} {outcome : Except Stop α}
    (awaited : Awaited offset judge deadline entries outcome) {reads writes : List UInt32}
    {direction : Option Direction} (member : offset ∈ reads) :
    ∀ entry ∈ entries, entry.Within reads writes direction := by
  obtain ⟨rounds, rfl, waited⟩ := awaited
  refine List.forall_mem_cons.mpr ⟨trivial, fun entry inside => ?_⟩
  obtain ⟨value, rfl⟩ := waited.looks entry inside
  exact member

theorem Look.within {α : Type} {offset : UInt32} {judge : Csr → Except Stop α}
    {outcome : Except Stop α} (look : Look offset judge entries outcome)
    {reads writes : List UInt32} {direction : Option Direction} (member : offset ∈ reads) :
    ∀ entry ∈ entries, entry.Within reads writes direction := by
  obtain ⟨csr, rfl, -⟩ := look
  simpa using member

/-! ### Sends -/

theorem Required.outbound {outcome : Except Stop Unit} (required : Required entries outcome) :
    ∀ entry ∈ entries, Outbound entry := by
  cases required <;> simp [Outbound]

theorem HostMarked.outbound {outcome : Except Stop Unit} (marked : HostMarked entries outcome) :
    ∀ entry ∈ entries, Outbound entry := by
  cases marked <;> simp [Outbound]

theorem FragmentSent.outbound {route : Route} {cursors : Cursors} {fragment : Frame.Fragment}
    {outcome : Except Stop Unit} (sent : FragmentSent route cursors fragment entries outcome) :
    ∀ entry ∈ entries, Outbound entry := by
  cases sent <;>
    simp [Outbound, frameWritten, Event.ofFrame, or_imp, forall_and]

theorem Opened.outbound {deadline : Deadline} {first : Bool} {outcome : Except Stop Cursors}
    (opened : Opened deadline first entries outcome) : ∀ entry ∈ entries, Outbound entry := by
  cases first with
  | true => exact Look.within opened (by simp)
  | false => exact Awaited.within opened (by simp)

theorem FragmentsSent.outbound {route : Route} {deadline : Deadline} {first : Bool}
    {fragments : List Frame.Fragment} {outcome : Except Stop Unit}
    (sent : FragmentsSent route deadline first fragments entries outcome) :
    ∀ entry ∈ entries, Outbound entry := by
  induction sent with
  | done => simp
  | closed opened => exact opened.outbound
  | stopped opened stopped => exact List.forall_mem_append.mpr ⟨opened.outbound, stopped.outbound⟩
  | next opened sent _ ih =>
    exact List.forall_mem_append.mpr
      ⟨opened.outbound, List.forall_mem_append.mpr ⟨sent.outbound, ih⟩⟩

theorem MessageWritten.outbound {link : Link} {message : Message} {route : Route}
    {outcome : Except Stop Unit} (written : MessageWritten link message route entries outcome) :
    ∀ entry ∈ entries, Outbound entry := by
  have sized : ∀ sizing : Csr, Outbound (.read Register.hostCsr sizing.raw) := by simp [Outbound]
  cases written with
  | badLength => simp
  | unready _ required => exact required.outbound
  | unmarked _ required marked =>
    exact List.forall_mem_append.mpr ⟨required.outbound, marked.outbound⟩
  | unsized _ required marked =>
    simp only [List.forall_mem_append, List.forall_mem_singleton]
    exact ⟨required.outbound, marked.outbound, sized _⟩
  | shallow _ required marked =>
    simp only [List.forall_mem_append, List.forall_mem_cons]
    exact ⟨required.outbound, marked.outbound, sized _, trivial, by simp⟩
  | sent _ required marked _ _ sent =>
    simp only [List.forall_mem_append, List.forall_mem_cons]
    exact ⟨required.outbound, marked.outbound, sized _, sent.outbound⟩

theorem SendHalf.outbound {link : Link} {message : Message} {route : Route}
    {outcome : Except Stop Exchange} (half : SendHalf link message route entries outcome) :
    ∀ entry ∈ entries, Outbound entry := by
  cases half with
  | sent written => exact List.forall_mem_cons.mpr ⟨trivial, written.outbound⟩
  | failed written =>
    simp only [List.forall_mem_append, List.forall_mem_cons]
    exact ⟨trivial, written.outbound, trivial, by simp⟩
  | abandoned _ written => exact List.forall_mem_cons.mpr ⟨trivial, written.outbound⟩

/-! ### Reads -/

theorem Acknowledged.within (acknowledged : Acknowledged entries) {reads writes : List UInt32}
    {direction : Option Direction} (read : Register.hostCsr ∈ reads)
    (written : Register.hostCsr ∈ writes) :
    ∀ entry ∈ entries, entry.Within reads writes direction := by
  obtain ⟨csr, rfl⟩ := acknowledged
  simp [read, written]

theorem Discarded.within {outcome : Except Stop Unit} (discarded : Discarded entries outcome)
    (direction : Option Direction) :
    ∀ entry ∈ entries, entry.Within
      [Register.controllerCsr, Register.controllerWindow, Register.hostCsr] [Register.hostCsr]
      direction := by
  cases discarded with
  | stopped => simp
  | taken _ _ acknowledged =>
    simp only [List.forall_mem_append, List.forall_mem_cons]
    exact ⟨by simp, by simp, acknowledged.within (by simp) (by simp)⟩

theorem Arrived.within {deadline : Option Deadline} {outcome : Except Stop Cursors}
    (arrived : Arrived deadline entries outcome) {reads writes : List UInt32}
    {direction : Option Direction} (member : Register.controllerCsr ∈ reads) :
    ∀ entry ∈ entries, entry.Within reads writes direction := by
  cases deadline with
  | some deadline => exact Awaited.within arrived member
  | none => exact Look.within arrived member

theorem BodyAwaited.within {words : Nat} {outcome : Except Stop Unit}
    (awaited : BodyAwaited words entries outcome) {reads writes : List UInt32}
    {direction : Option Direction} (member : Register.controllerCsr ∈ reads) :
    ∀ entry ∈ entries, entry.Within reads writes direction := by
  cases awaited with
  | bare => simp
  | awaited _ awaited => exact awaited.within member

theorem FrameRead.inbound {deadline : Option Deadline}
    {outcome : Except Stop (Frame.Header × List UInt32)}
    (read : FrameRead deadline entries outcome) : ∀ entry ∈ entries, Inbound entry := by
  have word : ∀ value, Inbound (.read Register.controllerWindow value) := by simp [Inbound]
  cases read with
  | missing arrived => exact arrived.within (by simp)
  | oversized arrived _ discarded =>
    simp only [List.forall_mem_append, List.forall_mem_cons]
    exact ⟨arrived.within (by simp), word _, trivial, discarded.within _⟩
  | undiscarded arrived _ discarded =>
    simp only [List.forall_mem_append, List.forall_mem_cons]
    exact ⟨arrived.within (by simp), word _, trivial, discarded.within _⟩
  | cutOff arrived _ awaited =>
    simp only [List.forall_mem_append, List.forall_mem_cons]
    exact ⟨arrived.within (by simp), word _, awaited.within (by simp)⟩
  | taken arrived _ awaited _ acknowledged =>
    simp only [List.forall_mem_append, List.forall_mem_cons]
    exact ⟨arrived.within (by simp), word _, awaited.within (by simp), by simp [word], rfl,
      acknowledged.within (by simp) (by simp)⟩

theorem MessageRead.inbound {capacity : Nat} {deadline : Option Deadline} {assembly : Assembly}
    {outcome : Except Stop Message}
    (read : MessageRead capacity deadline assembly entries outcome) :
    ∀ entry ∈ entries, Inbound entry := by
  induction read with
  | stopped read => exact read.inbound
  | last read _ finished =>
    refine List.forall_mem_append.mpr ⟨read.inbound, ?_⟩
    cases finished <;> simp [Inbound]
  | next read _ _ ih => exact List.forall_mem_append.mpr ⟨read.inbound, ih⟩
  | unfinished => simp

theorem ReadHalf.inbound {capacity : Nat} {deadline : Option Deadline}
    {outcome : Except Stop Message} (half : ReadHalf capacity deadline entries outcome) :
    ∀ entry ∈ entries, Inbound entry := by
  cases half with
  | complete read => exact List.forall_mem_append.mpr ⟨read.inbound, by simp [Inbound]⟩
  | failed read => exact List.forall_mem_append.mpr ⟨read.inbound, by simp [Inbound]⟩
  | abandoned _ read => exact read.inbound

/-! ### Upkeep -/

theorem FrameDiscarded.draining {depth : UInt8} {outcome : Except Stop Unit}
    (discarded : FrameDiscarded depth entries outcome) : ∀ entry ∈ entries, Draining entry := by
  have word : ∀ value, Draining (.read Register.controllerWindow value) := by simp [Draining]
  cases discarded with
  | oversized _ discarded => exact List.forall_mem_cons.mpr ⟨word _, discarded.within _⟩
  | cutOff _ awaited => exact List.forall_mem_cons.mpr ⟨word _, awaited.within (by simp)⟩
  | taken _ awaited _ acknowledged =>
    simp only [List.forall_mem_append, List.forall_mem_cons]
    exact ⟨word _, awaited.within (by simp), by simp [word],
      acknowledged.within (by simp) (by simp)⟩

theorem FramesDiscarded.draining {frames : Nat} {outcome : Except Stop Nat}
    (discarded : FramesDiscarded frames entries outcome) : ∀ entry ∈ entries, Draining entry := by
  have look : ∀ value, Draining (.read Register.controllerCsr value) := by simp [Draining]
  induction discarded with
  | limit => simp
  | stopped => simp [look]
  | empty => simp [look]
  | undiscarded _ _ undiscarded => exact List.forall_mem_cons.mpr ⟨look _, undiscarded.draining⟩
  | next _ _ discarded _ ih =>
    exact List.forall_mem_cons.mpr
      ⟨look _, List.forall_mem_append.mpr ⟨discarded.draining, ih⟩⟩

theorem Drained.draining {outcome : Except Stop Nat} (drained : Drained entries outcome) :
    ∀ entry ∈ entries, Draining entry := by
  cases drained with
  | nothing discarded => exact discarded.draining
  | removed _ discarded =>
    exact List.forall_mem_append.mpr ⟨discarded.draining, by simp [Draining]⟩
  | stopped discarded => exact discarded.draining

theorem Marked.aside {set clear : UInt32} {outcome : Except Stop Unit}
    (marked : Marked set clear entries outcome) : ∀ entry ∈ entries, Aside entry := by
  cases marked <;> simp [Aside]

theorem BroughtUp.aside {outcome : Except Stop Unit} (broughtUp : BroughtUp entries outcome) :
    ∀ entry ∈ entries, Aside entry := by
  cases broughtUp with
  | down awaited => exact awaited.within (by simp)
  | abandoned _ awaited => exact awaited.within (by simp)
  | gone awaited marked =>
    exact List.forall_mem_append.mpr ⟨awaited.within (by simp), marked.aside⟩
  | up awaited marked =>
    simp only [List.forall_mem_append]
    exact ⟨awaited.within (by simp), marked.aside, by simp [Aside]⟩

theorem HandshakeStep.aside {set clear : UInt32} {ready : Bool} {outcome : Except Stop Unit}
    (step : HandshakeStep set clear ready entries outcome) : ∀ entry ∈ entries, Aside entry := by
  cases step with
  | gone marked => exact marked.aside
  | answered marked awaited =>
    exact List.forall_mem_append.mpr ⟨marked.aside, awaited.within (by simp)⟩

theorem Reset.aside {outcome : Except Stop Unit} (reset : Reset entries outcome) :
    ∀ entry ∈ entries, Aside entry := by
  have look : ∀ value, Aside (.read Register.controllerCsr value) := by simp [Aside]
  cases reset with
  | absent => simp [look]
  | unasked _ asked => exact List.forall_mem_cons.mpr ⟨look _, asked.aside⟩
  | unreleased _ asked released =>
    simp only [List.forall_mem_append, List.forall_mem_cons]
    exact ⟨look _, asked.aside, released.aside⟩
  | unmarked _ asked released marked =>
    simp only [List.forall_mem_append, List.forall_mem_cons]
    exact ⟨look _, asked.aside, released.aside, marked.aside⟩
  | reset _ asked released marked =>
    simp only [List.forall_mem_append, List.forall_mem_cons]
    exact ⟨look _, asked.aside, released.aside, marked.aside,
      by simp [Aside]⟩

end

end HeciMailbox.Op
