import HeciMailbox.Transport.Receive

/-! Throwing stale frames away. -/

set_option autoImplicit false

namespace HeciMailbox.Op

variable {σ : Type} [Registers σ] [Clock σ]

def drainLimit : Nat := 256

def discardFrame (link : Link) (depth : UInt8) : Op σ Unit := do
  let header : Frame.Header := ⟨← readRegister Register.controllerWindow⟩
  if depth.toNat ≤ header.words then discardAvailable
  else
    let deadline ← deadlineAfter link.config.receiveTimeout
    awaitWords link deadline header.words
    let _ ← takeWords header.words
    acknowledge

def discardFrames (link : Link) : Nat → Nat → Op σ Nat
  | 0, frames => pure frames
  | limit + 1, frames => do
    let cursors ← controllerCursors
    if cursors.isEmpty then pure frames
    else
      discardFrame link cursors.depth
      discardFrames link limit (frames + 1)

/-- Discard the frames now in the controller ring and return their number. New frames are not waited
for, but one whose body is still being written is read to its end. -/
def drain (link : Link) : Op σ Nat := do
  let frames ← discardFrames link drainLimit 0
  if 0 < frames then emit (.drained frames)
  pure frames

end HeciMailbox.Op
