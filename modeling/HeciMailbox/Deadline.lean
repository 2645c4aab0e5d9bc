/-! Deadlines of waits. -/

set_option autoImplicit false

namespace HeciMailbox

structure Deadline where
  /-- The moment in microseconds; none if it lies beyond the clock's range, so that the wait never
  gives up. -/
  at? : Option Nat
  milliseconds : Nat
  deriving DecidableEq, Repr

namespace Deadline

/-- First microsecond that the clock cannot represent: its seconds are a signed 64-bit count. -/
def horizon : Nat := 0x8000000000000000 * 1000000

def maxMilliseconds : Nat := 0xFFFFFFFFFFFFFFFF

def after (now timeout : Nat) : Deadline where
  at? := if now + timeout < horizon then some (now + timeout) else none
  milliseconds := min (timeout / 1000) maxMilliseconds

def earliest (first second : Deadline) : Deadline :=
  match first.at?, second.at? with
  | some a, some b => if b < a then second else first
  | none, some _ => second
  | _, none => first

def remaining? (deadline : Deadline) (now : Nat) : Option Nat :=
  match deadline.at? with
  | some moment => if moment ≤ now then none else some (moment - now)
  | none => some horizon

end Deadline

end HeciMailbox
