import HeciMailbox.Proofs.Segments
import HeciMailbox.Transport.Trace

/-! Views of a trace: the words that went through one register, the frames announced. -/

set_option autoImplicit false

namespace HeciMailbox

/-- What observers are told of a frame. -/
def Frame.Segment.shown (segment : Frame.Segment) : Frame.Header × List UInt32 :=
  (segment.header, segment.payload.take Event.shownWords)

namespace Entry

@[simp] def written? (offset : UInt32) : Entry → Option UInt32
  | .write place value => if place = offset then some value else none
  | .read .. | .wait _ | .event _ | .remark _ => none

@[simp] def taken? (offset : UInt32) : Entry → Option UInt32
  | .read place value => if place = offset then some value else none
  | .write .. | .wait _ | .event _ | .remark _ => none

@[simp] def frame? (direction : Direction) : Entry → Option (Frame.Header × List UInt32)
  | .event (.frame way header data) => if way = direction then some (header, data) else none
  | .event (.phaseChanged ..) | .event (.drained _) | .event .reset => none
  | .read .. | .write .. | .wait _ | .remark _ => none

/-- The entry reads and writes these registers only and announces frames that go in `direction`
only. -/
@[simp] def Within (reads writes : List UInt32) (direction : Option Direction) : Entry → Prop
  | .read offset _ => offset ∈ reads
  | .write offset _ => offset ∈ writes
  | .event (.frame way _ _) => some way = direction
  | .event (.phaseChanged ..) | .event (.drained _) | .event .reset | .wait _ | .remark _ => True

end Entry

namespace Trace

/-- What was written to the register at `offset`, oldest first. -/
abbrev writes (offset : UInt32) (trace : List Entry) : List UInt32 :=
  trace.filterMap (Entry.written? offset)

abbrev reads (offset : UInt32) (trace : List Entry) : List UInt32 :=
  trace.filterMap (Entry.taken? offset)

/-- The frames that observers were told of in one direction, oldest first. -/
abbrev frames (direction : Direction) (trace : List Entry) : List (Frame.Header × List UInt32) :=
  trace.filterMap (Entry.frame? direction)

theorem reads_append (offset : UInt32) (first second : List Entry) :
    reads offset (first ++ second) = reads offset first ++ reads offset second :=
  List.filterMap_append

theorem writes_append (offset : UInt32) (first second : List Entry) :
    writes offset (first ++ second) = writes offset first ++ writes offset second :=
  List.filterMap_append

theorem frames_append (direction : Direction) (first second : List Entry) :
    frames direction (first ++ second) = frames direction first ++ frames direction second :=
  List.filterMap_append

section

variable {reads writes : List UInt32} {direction : Option Direction} {trace : List Entry}
  (within : ∀ entry ∈ trace, entry.Within reads writes direction)

include within

theorem writes_eq_nil {offset : UInt32} (other : offset ∉ writes) :
    Trace.writes offset trace = [] := by
  refine List.filterMap_eq_nil_iff.mpr fun entry member => ?_
  have holds := within entry member
  cases entry with
  | write place value =>
    have apart : place ≠ offset := fun same => other (same ▸ holds)
    simp [apart]
  | _ => rfl

theorem reads_eq_nil {offset : UInt32} (other : offset ∉ reads) :
    Trace.reads offset trace = [] := by
  refine List.filterMap_eq_nil_iff.mpr fun entry member => ?_
  have holds := within entry member
  cases entry with
  | read place value =>
    have apart : place ≠ offset := fun same => other (same ▸ holds)
    simp [apart]
  | _ => rfl

end

end Trace

end HeciMailbox
