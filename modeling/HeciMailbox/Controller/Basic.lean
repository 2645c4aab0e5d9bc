import HeciMailbox.Controller.Ring
import HeciMailbox.Frame.Header
import HeciMailbox.Message
import HeciMailbox.Register

/-! A simulated controller.

It has the register window of one function and the peer's side of the protocol: it takes frames out
of the host ring when the doorbell rings, answers each complete request with the next of its
prepared responses, and puts response frames into its own ring, whole, as room allows. -/

set_option autoImplicit false

namespace HeciMailbox

structure Controller where
  present : Bool := true
  hostRing : Controller.Ring
  ownRing : Controller.Ring
  hostFlags : UInt32 := Csr.readyBit
  ownFlags : UInt32 := Csr.readyBit
  /-- Whether every doorbell makes the peer empty the host ring. -/
  autoConsume : Bool := true
  responses : List Message := []
  pending : List (List UInt32) := []
  assembly : List UInt8 := []
  received : List Message := []
  frameLog : List Frame.Header := []
  doorbells : Nat := 0
  dropped : Nat := 0

namespace Controller

def ofDepths (hostDepth ownDepth : UInt8) : Controller where
  hostRing := Ring.ofDepth hostDepth
  ownRing := Ring.ofDepth ownDepth

def ofDepth (depth : UInt8) : Controller := ofDepths depth depth

/-! ### Responses -/

def chunks (limit : Nat) : Nat → List UInt8 → List (List UInt8)
  | 0, _ => []
  | count + 1, bytes => bytes.take limit :: chunks limit count (bytes.drop limit)

def frame (client host : UInt8) (chunk : List UInt8) (last : Bool) : List UInt32 :=
  (client.toUInt32 ||| host.toUInt32 <<< 8 ||| UInt32.ofNat chunk.length <<< 16 |||
    (if last then (1 : UInt32) <<< 31 else 0)) :: Bytes.pack chunk

def framesOfChunks (client host : UInt8) : List (List UInt8) → List (List UInt32)
  | [] => []
  | [chunk] => [frame client host chunk true]
  | chunk :: rest => frame client host chunk false :: framesOfChunks client host rest

/-- The frames of `message` for a ring of `depth` slots; none for an empty message. -/
def framesOf (depth : Nat) (message : Message) (client host : UInt8) : List (List UInt32) :=
  let limit := max (Frame.payloadLimit depth) 4
  framesOfChunks client host
    (chunks limit ((message.length + limit - 1) / limit) message.bytes)

/-- Put frames into the ring while the next one fits as a whole. The frames left, the ring, and
whether any frame went in. -/
def placeFrames : List (List UInt32) → Ring → List (List UInt32) × Ring × Bool
  | [], ring => ([], ring, false)
  | frame :: rest, ring =>
    if frame.length ≤ ring.room then
      let (left, ring, _) := placeFrames rest (ring.pushAll frame)
      (left, ring, true)
    else (frame :: rest, ring, false)

def fill (controller : Controller) : Controller :=
  let (pending, ownRing, placed) := placeFrames controller.pending controller.ownRing
  { controller with
    pending, ownRing
    hostFlags :=
      if placed then controller.hostFlags ||| Csr.statusBit else controller.hostFlags }

def enqueue (controller : Controller) (message : Message) (client host : UInt8) : Controller :=
  fill { controller with
    pending := controller.pending ++
      framesOf controller.ownRing.slots.size message client host }

/-! ### Requests -/

/-- Take the frame at the front of a ring, if it is there as a whole: its header, its bytes, the
ring behind it. -/
def takeFrame? (ring : Ring) : Option (Frame.Header × List UInt8 × Ring) :=
  match ring.peek? 0 with
  | none => none
  | some raw =>
    let header : Frame.Header := ⟨raw⟩
    if ring.cursors.filled.toNat < header.words + 1 then none
    else
      let (words, ring) := Ring.popMany (header.words + 1) ring
      some (header, (Bytes.unpack words.tail).take header.length, ring)

def accept (controller : Controller) (header : Frame.Header) (payload : List UInt8) : Controller :=
  let assembly := controller.assembly ++ payload
  let frameLog := controller.frameLog ++ [header]
  if header.complete then
    let received := controller.received ++ [Message.ofBytes assembly]
    let controller := { controller with assembly := [], frameLog, received }
    match controller.responses with
    | [] => controller
    | response :: responses =>
      enqueue { controller with responses } response header.controllerAddress header.hostAddress
  else { controller with assembly, frameLog }

def takeFrames : Nat → Controller → Controller
  | 0, controller => controller
  | count + 1, controller =>
    match takeFrame? controller.hostRing with
    | none => controller
    | some (header, payload, hostRing) =>
      takeFrames count (accept { controller with hostRing } header payload)

theorem takeFrames_keeps {kept : Controller → Prop} {controller : Controller}
    (start : kept controller)
    (take : ∀ {controller : Controller} {header : Frame.Header} {payload : List UInt8}
      {hostRing : Ring}, takeFrame? controller.hostRing = some (header, payload, hostRing) →
      kept controller → kept (accept { controller with hostRing } header payload))
    (count : Nat) : kept (takeFrames count controller) := by
  induction count generalizing controller with
  | zero => exact start
  | succ count ih =>
    unfold takeFrames
    split
    · exact start
    · next taken => exact ih (take taken start)

/-- Take every whole frame out of the host ring. A frame fills at least one slot, so there are no
more frames than filled slots. -/
def consume (controller : Controller) : Controller :=
  let controller := takeFrames controller.hostRing.cursors.filled.toNat controller
  { controller with ownFlags := controller.ownFlags ||| Csr.statusBit }

/-! ### The register window -/

def controlBits : UInt32 := Csr.enableBit ||| Csr.readyBit ||| Csr.resetBit

/-- The part of a status write that acts on the flags: interrupt status is cleared where a one is
written, the control bits are taken over, and on entering reset both rings and everything under way
are cleared and both sides stop being ready. -/
def writeFlags (controller : Controller) (value : UInt32) : Controller :=
  let held :=
    if value &&& Csr.statusBit != 0 then controller.hostFlags &&& ~~~Csr.statusBit
    else controller.hostFlags
  let hostFlags := held &&& Csr.statusBit ||| value &&& controlBits
  if value &&& Csr.resetBit != 0 && held &&& Csr.resetBit == 0 then
    { controller with
      hostRing := controller.hostRing.reset
      ownRing := controller.ownRing.reset
      pending := []
      assembly := []
      hostFlags := hostFlags &&& ~~~Csr.readyBit
      ownFlags := controller.ownFlags &&& ~~~Csr.readyBit }
  else { controller with hostFlags }

/-- The doorbell. In reset it is only counted; a controller that is not ready becomes so; any other
looks at the host ring and refills its own. -/
def ringDoorbell (controller : Controller) (inReset : Bool) : Controller :=
  let controller := { controller with doorbells := controller.doorbells + 1 }
  if inReset then controller
  else if controller.ownFlags &&& Csr.readyBit == 0 then
    { controller with ownFlags := controller.ownFlags ||| Csr.readyBit }
  else if controller.autoConsume then fill (consume controller)
  else fill controller

def writeHostCsr (controller : Controller) (value : UInt32) : Controller :=
  let controller := controller.writeFlags value
  if value &&& Csr.generateBit == 0 then controller
  else controller.ringDoorbell (value &&& Csr.resetBit != 0)

def statusWord (flags : UInt32) (ring : Ring) : UInt32 :=
  (Csr.compose flags ring.read ring.write ring.depth).raw

def hostStatus (controller : Controller) : UInt32 :=
  if controller.present then statusWord controller.hostFlags controller.hostRing
  else Csr.absentWord

def ownStatus (controller : Controller) : UInt32 :=
  if controller.present then statusWord controller.ownFlags controller.ownRing
  else Csr.absentWord

/-- A register read. An absent function reads as all ones; the read window takes a word off the
controller ring and gives zero when there is none. -/
def readRegister (controller : Controller) (offset : UInt32) : UInt32 × Controller :=
  if !controller.present then (Csr.absentWord, controller)
  else if offset = Register.hostCsr then (controller.hostStatus, controller)
  else if offset = Register.controllerCsr then (controller.ownStatus, controller)
  else if offset = Register.controllerWindow then
    match controller.ownRing.pop? with
    | some (word, ownRing) => (word, { controller with ownRing })
    | none => (0, controller)
  else (0, controller)

/-- A register write. An absent function ignores it, and so does any register but the write window
and the host status. -/
def writeRegister (controller : Controller) (offset value : UInt32) : Controller :=
  if !controller.present then controller
  else if offset = Register.hostWindow then
    match controller.hostRing.push? value with
    | some hostRing => { controller with hostRing }
    | none => { controller with dropped := controller.dropped + 1 }
  else if offset = Register.hostCsr then controller.writeHostCsr value
  else controller

instance : Registers Controller where
  read offset controller := some (controller.readRegister offset)
  write offset value controller := some (controller.writeRegister offset value)

/-! ### Steering from outside -/

def queueResponse (controller : Controller) (response : Message) : Controller :=
  { controller with responses := controller.responses ++ [response] }

/-- Put words into the controller ring as they are, up to the first that finds no room. -/
def injectWords (controller : Controller) (words : List UInt32) : Controller :=
  { controller with
    ownRing := controller.ownRing.pushWhile words
    hostFlags := controller.hostFlags ||| Csr.statusBit }

def setPresent (controller : Controller) (present : Bool) : Controller :=
  { controller with present }

def withReady (flags : UInt32) (ready : Bool) : UInt32 :=
  if ready then flags ||| Csr.readyBit else flags &&& ~~~Csr.readyBit

def setOwnReady (controller : Controller) (ready : Bool) : Controller :=
  { controller with ownFlags := withReady controller.ownFlags ready }

def setHostReady (controller : Controller) (ready : Bool) : Controller :=
  { controller with hostFlags := withReady controller.hostFlags ready }

def setAutoConsume (controller : Controller) (autoConsume : Bool) : Controller :=
  { controller with autoConsume }

def consumeNow (controller : Controller) : Controller := fill (consume controller)

def setHostCursors (controller : Controller) (read write : UInt8) : Controller :=
  { controller with hostRing := controller.hostRing.withCursors read write }

def setOwnCursors (controller : Controller) (read write : UInt8) : Controller :=
  { controller with ownRing := controller.ownRing.withCursors read write }

def wordsToHost (controller : Controller) : Nat :=
  controller.ownRing.cursors.filled.toNat + controller.pending.flatten.length

end Controller

end HeciMailbox
