import HeciMailbox.Transport.Send

/-! Bringing the channel up, and resetting it. -/

set_option autoImplicit false

namespace HeciMailbox.Op

variable {σ : Type} [Registers σ] [Clock σ]

def bringUp (link : Link) : Op σ Unit := do
  let deadline ← deadlineAfter link.config.resetTimeout
  let waited ← attempt <| await link deadline do
    let csr ← controllerCsr
    pure (if !csr.absent && csr.ready then some () else none)
  match waited with
  | .error _ => fail .notPresent
  | .ok () =>
    let csr ← hostCsr
    writeRegister Register.hostCsr (csr.withBits (Csr.readyBit ||| Csr.generateBit) Csr.resetBit)
    remark .broughtUp

def awaitReady (link : Link) (ready : Bool) : Op σ Unit := do
  let deadline ← deadlineAfter link.config.resetTimeout
  await link deadline do
    let csr ← controllerCsr
    pure (if csr.ready == ready then some () else none)

/-- The reset handshake of the host: ask for a reset, wait until the controller is no longer ready,
release it, wait until it is ready again, mark the host side ready. Both rings come out empty and
anything under way is lost. -/
def reset (link : Link) : Op σ Unit := do
  let controller ← controllerCsr
  if controller.absent then fail .notPresent
  else
    let csr ← hostCsr
    writeRegister Register.hostCsr (csr.withBits (Csr.resetBit ||| Csr.generateBit) 0)
    awaitReady link false
    let csr ← hostCsr
    writeRegister Register.hostCsr (csr.withBits Csr.generateBit Csr.resetBit)
    awaitReady link true
    let csr ← hostCsr
    writeRegister Register.hostCsr (csr.withBits (Csr.readyBit ||| Csr.generateBit) 0)
    emit .reset

end HeciMailbox.Op
