import HeciMailbox.Csr
import HeciMailbox.Register

/-! A backend that plays back recorded register values.

Each status register gives the next value of its list at every read, the last one for ever. The read
window gives the next word, and all ones when there is none left. Any other offset reads as zero,
and writes change nothing. -/

set_option autoImplicit false

namespace HeciMailbox.Bus

structure Replay where
  hostCsr : List UInt32
  controllerCsr : List UInt32
  controllerWindow : List UInt32

namespace Replay

/-- The next value of a list whose last value never runs out. -/
def next : List UInt32 → UInt32 × List UInt32
  | [] => (Csr.absentWord, [])
  | [value] => (value, [value])
  | value :: rest => (value, rest)

def read (replay : Replay) (offset : UInt32) : UInt32 × Replay :=
  if offset = Register.hostCsr then
    let (value, hostCsr) := next replay.hostCsr
    (value, { replay with hostCsr })
  else if offset = Register.controllerCsr then
    let (value, controllerCsr) := next replay.controllerCsr
    (value, { replay with controllerCsr })
  else if offset = Register.controllerWindow then
    match replay.controllerWindow with
    | [] => (Csr.absentWord, replay)
    | value :: controllerWindow => (value, { replay with controllerWindow })
  else (0, replay)

instance : Registers Replay where
  read offset replay := some (replay.read offset)
  write _ _ replay := some replay

def unread (replay : Replay) : Nat := replay.controllerWindow.length

end Replay

end HeciMailbox.Bus
