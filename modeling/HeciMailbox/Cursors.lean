import HeciMailbox.Csr
import HeciMailbox.Fault

/-! Cursor arithmetic of one ring.

A ring has an 8-bit read cursor, an 8-bit write cursor and a depth in word slots. The cursors wrap
freely at 256; the slot of a cursor is its remainder by the depth. -/

set_option autoImplicit false

namespace HeciMailbox

structure Cursors where
  read : UInt8
  write : UInt8
  depth : UInt8
  deriving DecidableEq, Repr

namespace Cursors

def ofCsr (csr : Csr) : Cursors := ⟨csr.readCursor, csr.writeCursor, csr.depth⟩

/-- Slots written and not yet read. A read cursor ahead of the write cursor gives a count above 127,
which no usable depth reaches, and so counts as overflow. -/
def filled (cursors : Cursors) : UInt8 := cursors.write - cursors.read

def overflowed (cursors : Cursors) : Bool := cursors.depth < cursors.filled

def isEmpty (cursors : Cursors) : Bool := cursors.filled == 0

/-- Slots left to write; none in overflow. -/
def free? (cursors : Cursors) : Option UInt8 :=
  if cursors.overflowed then none else some (cursors.depth - cursors.filled)

def overflowFault (cursors : Cursors) (requested : Nat) : Fault :=
  .overflow cursors.filled cursors.depth requested

def checkRoom (cursors : Cursors) (words : Nat) : Except Fault Unit :=
  match cursors.free? with
  | some free => if words ≤ free.toNat then .ok () else .error (cursors.overflowFault words)
  | none => .error (cursors.overflowFault words)

def checkOverflow (cursors : Cursors) : Except Fault Unit :=
  if cursors.overflowed then .error (cursors.overflowFault 0) else .ok ()

def slot (cursors : Cursors) (cursor : UInt8) : Nat :=
  if cursors.depth = 0 then 0 else cursor.toNat % cursors.depth.toNat

def advanceWrite (cursors : Cursors) (words : Nat) : Cursors :=
  { cursors with write := cursors.write + UInt8.ofNat words }

def advanceRead (cursors : Cursors) (words : Nat) : Cursors :=
  { cursors with read := cursors.read + UInt8.ofNat words }

theorem depth_pos_of_lt_filled {cursors : Cursors} {offset : Nat}
    (within : cursors.overflowed = false) (filled : offset < cursors.filled.toNat) :
    0 < cursors.depth.toNat := by
  have notOver : ¬ cursors.depth < cursors.filled := by simpa [overflowed] using within
  have := Nat.not_lt.mp (fun h => notOver (UInt8.lt_iff_toNat_lt.mpr h))
  omega

theorem depth_pos_of_checkRoom {cursors : Cursors} {words : Nat} (positive : 0 < words)
    (room : cursors.checkRoom words = .ok ()) : 0 < cursors.depth.toNat := by
  unfold checkRoom free? at room
  by_cases spilt : cursors.overflowed
  · simp [spilt] at room
  · simp only [spilt] at room
    have notOver : ¬ cursors.depth < cursors.filled := by simpa [overflowed] using spilt
    have le := Nat.not_lt.mp (fun h => notOver (UInt8.lt_iff_toNat_lt.mpr h))
    by_cases fits : words ≤ (cursors.depth - cursors.filled).toNat
    · have sub := UInt8.toNat_sub_of_le _ _ (UInt8.le_iff_toNat_le.mpr le)
      omega
    · simp [fits] at room

theorem slot_lt {cursors : Cursors} (positive : 0 < cursors.depth.toNat) (cursor : UInt8) :
    cursors.slot cursor < cursors.depth.toNat := by
  unfold slot
  split
  · exact positive
  · exact Nat.mod_lt _ positive

end Cursors

end HeciMailbox
