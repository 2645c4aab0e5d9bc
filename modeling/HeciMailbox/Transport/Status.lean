import HeciMailbox.Cursors
import HeciMailbox.Transport.Op

/-! Looks at the two status registers, and the doorbell that acknowledges a frame.

Cursors are read afresh for every decision: the controller owns them, and nothing is kept from one
look to the next. -/

set_option autoImplicit false

namespace HeciMailbox.Op

variable {σ : Type} [Registers σ] [Clock σ]

def hostCsr : Op σ Csr := do
  let csr : Csr := ⟨← readRegister Register.hostCsr⟩
  if csr.absent then fail .notPresent else pure csr

/-- The controller status as it reads, present or not. -/
def controllerCsr : Op σ Csr := do
  pure ⟨← readRegister Register.controllerCsr⟩

def hostCursors : Op σ Cursors := do
  pure (Cursors.ofCsr (← hostCsr))

def controllerCursors : Op σ Cursors := do
  let csr ← controllerCsr
  if csr.absent then fail .notPresent
  else
    let cursors := Cursors.ofCsr csr
    ofExcept (cursors.checkOverflow)
    pure cursors

/-- Clear a pending interrupt and tell the controller that a frame was taken. -/
def acknowledge : Op σ Unit := do
  let csr : Csr := ⟨← readRegister Register.hostCsr⟩
  writeRegister Register.hostCsr (csr.withDoorbell true)

def discardAvailable : Op σ Unit := do
  let cursors ← controllerCursors
  let _ ← takeWords cursors.filled.toNat
  acknowledge

def awaitWords (link : Link) (deadline : Deadline) (words : Nat) : Op σ Unit :=
  await link deadline do
    let cursors ← controllerCursors
    pure (if words ≤ cursors.filled.toNat then some () else none)

def advance (exchange : Exchange) (target : Phase) : Op σ Exchange :=
  match exchange.advance? target with
  | some next => do
    emit (.phaseChanged exchange.phase target)
    pure next
  | none => trap (.illegalMove exchange.phase target)

end HeciMailbox.Op
