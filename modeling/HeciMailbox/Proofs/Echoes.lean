import HeciMailbox.Proofs.Rewrites

/-! What a call writes to the host status is what it has read there, on any hardware.

It adds the doorbell, or the marks of a ready host, and leaves the other bits as they were. A call
other than a reset therefore asks for a reset only if the host status has shown one. -/

set_option autoImplicit false

namespace HeciMailbox

namespace Trace

/-- Each write of the host status returns a word that was read there earlier or is one of `seen`. -/
def Echoes : List UInt32 → List Entry → Prop
  | _, [] => True
  | seen, entry :: rest =>
    (∀ value, entry.written? Register.hostCsr = some value →
      ∃ raw ∈ seen, (Csr.mk raw).Returns value) ∧
    Echoes ((entry.taken? Register.hostCsr).toList ++ seen) rest

def Echoing (entries : List Entry) : Prop := ∀ seen, Echoes seen entries

/-- What the last access has read is among what was read at all. -/
theorem Rewrites.echoes {count : Nat} {before : Option Csr} {seen : List UInt32}
    {entries : List Entry}
    (rewrites : Rewrites (fun _ csr value => csr.Returns value) count before entries)
    (known : ∀ csr, before = some csr → csr.raw ∈ seen) : Echoes seen entries := by
  induction entries generalizing count before seen with
  | nil => trivial
  | cons entry rest ih =>
    refine ⟨fun value written => ?_, ih rewrites.2 fun csr read => ?_⟩
    · obtain ⟨csr, read, returns⟩ := rewrites.1 value written
      exact ⟨csr.raw, known csr read, returns⟩
    · cases entry with
      | read offset value =>
        by_cases status : offset = Register.hostCsr
        · obtain rfl : Csr.mk value = csr := by simpa [status] using read
          simp [status]
        · simp [status] at read
      | write => cases read
      | wait | event | remark => exact known csr read

theorem Rewriting.echoing {entries : List Entry}
    (rewriting : Rewriting (fun _ csr value => csr.Returns value) entries) : Echoing entries :=
  fun _ => (rewriting 0 none).echoes nofun

end Trace

namespace Op

open Trace (Rewriting)

theorem Called.echoing {link : Link} {call : Call} {entries : List Entry}
    {outcome : Except Stop Unit} (called : Called link call entries outcome)
    (unreset : call ≠ .reset) : Trace.Echoing entries := by
  have returned : ∀ {entries}, Rewriting Returned entries →
      Rewriting (fun _ csr value => csr.Returns value) entries :=
    fun rewriting => rewriting.mono fun _ _ _ returned => returned.2
  have rung : ∀ {entries}, Rewriting Rung entries →
      Rewriting (fun _ csr value => csr.Returns value) entries :=
    fun rewriting => rewriting.mono fun _ _ _ rung => rung.returns
  refine Rewriting.echoing ?_
  cases called with
  | send sent =>
    cases sent with
    | complete half => exact (returned half.rewriting).append (.event _)
    | stopped half => exact returned half.rewriting
  | sendAndAwait exchanged =>
    cases exchanged with
    | unsent half => exact returned half.rewriting
    | read half reading =>
      exact (returned half.rewriting).append
        ((Rewriting.event _).append (rung reading.rewriting))
  | receive received =>
    obtain ⟨_, half, reading, rfl⟩ := received
    exact (Rewriting.event _).append (rung reading.rewriting)
  | drain drained => exact rung drained.rewriting
  | bringUp broughtUp =>
    exact returned (broughtUp.rewriting.mono fun _ _ _ readied => readied.returned)
  | reset => exact absurd rfl unreset

end Op

end HeciMailbox
