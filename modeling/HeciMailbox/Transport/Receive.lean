import HeciMailbox.Message
import HeciMailbox.Transport.Send

/-! Reading a message.

Frames are taken off the controller ring one by one, each acknowledged when its last word has been
read, until one ends the message. A message that exceeds the caller's capacity is still read to its
end, so that the ring stays on a frame boundary. -/

set_option autoImplicit false

namespace HeciMailbox

structure Assembly where
  bytes : Array UInt8 := #[]
  total : Nat := 0
  truncated : Bool := false
  deriving DecidableEq

/-- Add the `length` bytes that `payload` carries. Once a frame has not fitted, no later one is
kept. -/
def Assembly.add (assembly : Assembly) (capacity length : Nat) (payload : List UInt32) : Assembly :=
  if !assembly.truncated ∧ assembly.total + length ≤ capacity then
    { assembly with
      bytes := assembly.bytes ++ (Bytes.unpack payload).take length
      total := assembly.total + length }
  else { assembly with total := assembly.total + length, truncated := true }

namespace Op

variable {σ : Type} [Registers σ] [Clock σ]

def awaitFrame (link : Link) : Option Deadline → Op σ Cursors
  | some deadline =>
    await link deadline do
      let cursors ← controllerCursors
      pure (if cursors.isEmpty then none else some cursors)
  | none => do
    let cursors ← controllerCursors
    if cursors.isEmpty then fail .noData else pure cursors

/-- Read one frame and acknowledge it. A header that claims more words than the ring can hold beside
it cannot be framed: everything in the ring is thrown away. -/
def readFrame (link : Link) (deadline : Option Deadline) :
    Op σ (Frame.Header × List UInt32) := do
  let cursors ← awaitFrame link deadline
  let header : Frame.Header := ⟨← readRegister Register.controllerWindow⟩
  if cursors.depth.toNat ≤ header.words then
    remark (.oversizedFrame header cursors.depth)
    discardAvailable
    fail (cursors.overflowFault header.words)
  else
    if 0 < header.words then
      let bodyDeadline ← match deadline with
        | some deadline => pure deadline
        | none => deadlineAfter link.config.receiveTimeout
      awaitWords link bodyDeadline header.words
    let payload ← takeWords header.words
    emit (.ofFrame .toHost header payload)
    acknowledge
    pure (header, payload)

def finishAssembly (capacity : Nat) (assembly : Assembly) : Op σ Message :=
  if assembly.truncated then do
    remark (.oversizedResponse assembly.total capacity)
    fail (.tooSmall assembly.total capacity)
  else pure (Message.ofBytes assembly.bytes.toList)

def readFrames (link : Link) (capacity : Nat) :
    Nat → Option Deadline → Assembly → Op σ Message
  | 0, _, _ => throw .unfinished
  | rounds + 1, deadline, assembly => do
    let (header, payload) ← readFrame link deadline
    let assembly := assembly.add capacity header.length payload
    if header.complete then finishAssembly capacity assembly
    else
      let next ← deadlineAfter link.config.receiveTimeout
      readFrames link capacity rounds (some next) assembly

def readMessage (link : Link) (capacity : Nat) (deadline : Option Deadline) : Op σ Message :=
  readFrames link capacity link.fuel deadline {}

def readPhase (link : Link) (exchange : Exchange) (capacity : Nat) (deadline : Option Deadline) :
    Op σ Message := do
  match ← attempt (readMessage link capacity deadline) with
  | .ok message =>
    let _ ← advance exchange .complete
    pure message
  | .error fault =>
    let _ ← advance exchange (.ofFault fault)
    fail fault

/-- Send `request` and read one message. `timeout` is in microseconds and bounds the waits between
the fragments of the request and the wait for the response. Whether the response belongs to the
request is for the caller to judge. -/
def sendAndAwait (link : Link) (request : Message) (route : Route) (timeout capacity : Nat) :
    Op σ Message := do
  let deadline ← deadlineAfter timeout
  let sent ← sendPhase link request route (some deadline) {}
  let awaiting ← advance sent .awaitingResponse
  readPhase link awaiting capacity (some deadline)

def receive (link : Link) (blocking : Bool) : Op σ Message := do
  let deadline ← if blocking then some <$> deadlineAfter link.config.receiveTimeout else pure none
  let awaiting ← advance {} .awaitingResponse
  readPhase link awaiting link.device.maxLength deadline

end Op

end HeciMailbox
