import HeciMailbox.Cursors

/-! A word ring with storage.

`push?` and `pop?` refuse rather than go out of bounds: a slot is touched only when the cursors show
that it is there. Cursors keep counting up, so a ring whose depth does not divide 256 jumps to
another slot where they wrap. -/

set_option autoImplicit false

namespace HeciMailbox.Controller

structure Ring where
  slots : Array UInt32
  read : UInt8 := 0
  write : UInt8 := 0
  size_lt : slots.size < 256

namespace Ring

def ofDepth (depth : UInt8) : Ring where
  slots := Array.replicate depth.toNat 0
  size_lt := by simpa using depth.toNat_lt

def depth (ring : Ring) : UInt8 := UInt8.ofNat ring.slots.size

theorem toNat_depth (ring : Ring) : ring.depth.toNat = ring.slots.size := by
  simp only [depth, UInt8.toNat_ofNat']
  exact Nat.mod_eq_of_lt ring.size_lt

def cursors (ring : Ring) : Cursors := ⟨ring.read, ring.write, ring.depth⟩

theorem slot_lt_size {ring : Ring} (positive : 0 < ring.cursors.depth.toNat) (cursor : UInt8) :
    ring.cursors.slot cursor < ring.slots.size :=
  ring.toNat_depth ▸ Cursors.slot_lt positive cursor

def push? (ring : Ring) (word : UInt32) : Option Ring :=
  match room : ring.cursors.checkRoom 1 with
  | .error _ => none
  | .ok () =>
    have bound := slot_lt_size (Cursors.depth_pos_of_checkRoom Nat.one_pos room) ring.write
    some
      { ring with
        slots := ring.slots.set (ring.cursors.slot ring.write) word bound
        write := (ring.cursors.advanceWrite 1).write
        size_lt := by simpa using ring.size_lt }

def peek? (ring : Ring) (offset : Nat) : Option UInt32 :=
  if present : ring.cursors.overflowed = false ∧ offset < ring.cursors.filled.toNat then
    have bound := slot_lt_size (Cursors.depth_pos_of_lt_filled present.1 present.2)
      (ring.read + UInt8.ofNat offset)
    some ring.slots[ring.cursors.slot (ring.read + UInt8.ofNat offset)]
  else none

def pop? (ring : Ring) : Option (UInt32 × Ring) :=
  match ring.peek? 0 with
  | some word => some (word, { ring with read := (ring.cursors.advanceRead 1).read })
  | none => none

/-- Take `count` words off; zero stands for each that is missing. -/
def popMany : Nat → Ring → List UInt32 × Ring
  | 0, ring => ([], ring)
  | count + 1, ring =>
    match ring.pop? with
    | some (word, next) => let (words, last) := popMany count next; (word :: words, last)
    | none => let (words, last) := popMany count ring; (0 :: words, last)

def pushAll (ring : Ring) (words : List UInt32) : Ring :=
  words.foldl (fun ring word => (ring.push? word).getD ring) ring

/-- Append words up to the first that finds no room. -/
def pushWhile (ring : Ring) : List UInt32 → Ring
  | [] => ring
  | word :: rest =>
    match ring.push? word with
    | some next => pushWhile next rest
    | none => ring

def room (ring : Ring) : Nat :=
  match ring.cursors.free? with
  | some free => free.toNat
  | none => 0

/-- Both cursors back at zero. The words stay in their slots. -/
def reset (ring : Ring) : Ring := { ring with read := 0, write := 0 }

def withCursors (ring : Ring) (read write : UInt8) : Ring := { ring with read, write }

/-- The words in the ring, oldest first; none in overflow. -/
def toList (ring : Ring) : List UInt32 :=
  (List.range ring.cursors.filled.toNat).filterMap ring.peek?

end Ring

end HeciMailbox.Controller
