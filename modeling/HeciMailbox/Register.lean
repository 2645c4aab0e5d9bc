/-! The register window of one mailbox function, as offsets from its base address, and the two
abilities an operation asks of the hardware: register access and a clock in microseconds.

Each side has a status word with the cursors of its ring. A write to the window of the host ring
appends a word, a read from that of the controller ring takes one off. -/

set_option autoImplicit false

namespace HeciMailbox

namespace Register

def hostWindow : UInt32 := 0x00

def hostCsr : UInt32 := 0x04

def controllerWindow : UInt32 := 0x08

def controllerCsr : UInt32 := 0x0C

end Register

/-- A register backend. Reads may change it, so none may be repeated or left out. A backend that
refuses an offset gives `none`. -/
class Registers (σ : Type) where
  read (offset : UInt32) (state : σ) : Option (UInt32 × σ)
  write (offset value : UInt32) (state : σ) : Option σ

class Clock (σ : Type) where
  now (state : σ) : Nat
  pause (microseconds : Nat) (state : σ) : σ

structure Timed (ρ : Type) where
  registers : ρ
  elapsed : Nat := 0

instance {ρ : Type} [Registers ρ] : Registers (Timed ρ) where
  read offset state :=
    match Registers.read offset state.registers with
    | some (value, registers) => some (value, { state with registers })
    | none => none
  write offset value state :=
    match Registers.write offset value state.registers with
    | some registers => some { state with registers }
    | none => none

/-- A pause takes at least one microsecond, so that every wait with a deadline ends. -/
instance {ρ : Type} : Clock (Timed ρ) where
  now state := state.elapsed
  pause microseconds state := { state with elapsed := state.elapsed + max 1 microseconds }

end HeciMailbox
