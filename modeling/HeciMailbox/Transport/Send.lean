import HeciMailbox.Frame.Fragment
import HeciMailbox.Transport.Status

/-! Sending a message.

A message leaves as one or more frames. The ring's depth, read once, fixes how large a frame may be;
each frame is written whole, after a look at the cursors has shown room for all of it, and announced
by one doorbell. The second and later frames go out once the controller has emptied the ring. -/

set_option autoImplicit false

namespace HeciMailbox.Op

variable {σ : Type} [Registers σ] [Clock σ]

def requireController : Op σ Unit := do
  let csr ← controllerCsr
  if csr.absent || !csr.ready then
    remark (.controllerNotReady csr)
    fail .notPresent

def ensureHostReady : Op σ Unit := do
  let csr ← hostCsr
  if !csr.ready then
    remark .settingHostReady
    writeRegister Register.hostCsr (csr.withBits (Csr.readyBit ||| Csr.generateBit) Csr.resetBit)

def awaitHostEmpty (link : Link) (deadline : Deadline) : Op σ Cursors :=
  await link deadline do
    let cursors ← hostCursors
    ofExcept cursors.checkOverflow
    pure (if cursors.isEmpty then some cursors else none)

def sendFragment (route : Route) (cursors : Cursors) (fragment : Frame.Fragment) : Op σ Unit := do
  ofExcept (cursors.checkRoom (fragment.words.length + 1))
  match Frame.Header.make? route.controller route.host fragment.length fragment.last with
  | .error _ => fail (.badLength fragment.length Frame.maxLength)
  | .ok header =>
    writeRegister Register.hostWindow header.raw
    writeWords fragment.words
    remark (.frameWritten header cursors.write)
    emit (.ofFrame .toController header fragment.words)
    let csr ← hostCsr
    writeRegister Register.hostCsr (csr.withDoorbell false)

def sendRest (link : Link) (route : Route) (deadline : Deadline) :
    List Frame.Fragment → Op σ Unit
  | [] => pure ()
  | fragment :: rest => do
    let cursors ← awaitHostEmpty link deadline
    sendFragment route cursors fragment
    sendRest link route deadline rest

def sendFragments (link : Link) (route : Route) (deadline : Deadline) :
    List Frame.Fragment → Op σ Unit
  | [] => pure ()
  | fragment :: rest => do
    let cursors ← hostCursors
    sendFragment route cursors fragment
    sendRest link route deadline rest

/-- Write `message` into the host ring. A wait between frames ends with the send timeout, or with
the caller's deadline if that passes first. -/
def writeMessage (link : Link) (message : Message) (route : Route) (caller : Option Deadline) :
    Op σ Unit := do
  if message.length = 0 ∨ link.device.maxLength < message.length then
    fail (.badLength message.length link.device.maxLength)
  else
    requireController
    ensureHostReady
    let limit := Frame.payloadLimit (← hostCursors).depth.toNat
    if limit = 0 then
      remark .unusableDepth
      fail .notPresent
    else
      let own ← deadlineAfter link.config.sendTimeout
      let deadline := match caller with
        | some caller => own.earliest caller
        | none => own
      sendFragments link route deadline (Frame.Fragment.ofMessage limit message)

def sendPhase (link : Link) (message : Message) (route : Route) (caller : Option Deadline)
    (exchange : Exchange) : Op σ Exchange := do
  let sending ← advance exchange .sending
  match ← attempt (writeMessage link message route caller) with
  | .ok () => pure sending
  | .error fault =>
    let _ ← advance sending (.ofFault fault)
    fail fault

def send (link : Link) (message : Message) (route : Route) : Op σ Unit := do
  let sending ← sendPhase link message route none {}
  let _ ← advance sending .complete

end HeciMailbox.Op
