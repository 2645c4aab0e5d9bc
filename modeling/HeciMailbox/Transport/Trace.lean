import HeciMailbox.Csr
import HeciMailbox.Deadline
import HeciMailbox.Device
import HeciMailbox.Exchange
import HeciMailbox.Frame.Header
import HeciMailbox.Log
import HeciMailbox.Mkhi.Header
import HeciMailbox.Mkhi.Reply
import HeciMailbox.Register

/-! What an operation does, in order: register accesses, waits, events for observers and remarks for
the log. Log lines and access lists are views of this one sequence. -/

set_option autoImplicit false

namespace HeciMailbox

inductive Direction where
  | toController
  | toHost
  deriving DecidableEq, Repr

def Direction.name : Direction → String
  | .toController => "TX"
  | .toHost => "RX"

inductive Event where
  | phaseChanged (source target : Phase)
  /-- A frame was written or read; `data` holds the first words of its payload. -/
  | frame (direction : Direction) (header : Frame.Header) (data : List UInt32)
  | drained (frames : Nat)
  | reset
  deriving DecidableEq, Repr

def Event.shownWords : Nat := 4

def Event.ofFrame (direction : Direction) (header : Frame.Header) (payload : List UInt32) : Event :=
  .frame direction header (payload.take shownWords)

inductive Remark where
  | controllerNotReady (csr : Csr)
  | settingHostReady
  | broughtUp
  | unusableDepth
  | frameWritten (header : Frame.Header) (writeCursor : UInt8)
  | oversizedFrame (header : Frame.Header) (depth : UInt8)
  | oversizedResponse (needed capacity : Nat)
  | unrelatedReply (request actual : Mkhi.Header)
  | firmwareVersion (code recovery : Mkhi.Version)
  | otherRule (asked echoed : UInt32)
  deriving DecidableEq, Repr

inductive Entry where
  | read (offset value : UInt32)
  | write (offset value : UInt32)
  | wait (deadline : Deadline)
  | event (event : Event)
  | remark (remark : Remark)
  deriving DecidableEq, Repr

def Event.line (device : DeviceId) : Event → LogLine
  | .phaseChanged source target =>
    let moved :=
      " device=" ++ device.name ++ " from=" ++ source.name ++ " to=" ++ target.name
    if target.isFailure then ⟨.debug, "Exchange failed" ++ moved⟩
    else ⟨.trace, "Exchange state" ++ moved⟩
  | .frame direction header data =>
    ⟨.trace, "HECI frame device=" ++ device.name ++ " dir=" ++ direction.name ++
      " me=" ++ toString header.controllerAddress.toNat ++
      " host=" ++ toString header.hostAddress.toNat ++ " len=" ++ toString header.length ++
      " complete=" ++ Text.flag header.complete ++ " data=" ++ Text.wordList data⟩
  | .drained frames =>
    ⟨.debug, "Discarded stale frames device=" ++ device.name ++ " frames=" ++ toString frames⟩
  | .reset => ⟨.info, "HECI reset complete device=" ++ device.name⟩

def Remark.line (device : DeviceId) : Remark → LogLine
  | .controllerNotReady csr =>
    ⟨.debug, "ME not ready device=" ++ device.name ++ " csr=" ++ csr.describe⟩
  | .settingHostReady => ⟨.debug, "Setting host ready device=" ++ device.name⟩
  | .broughtUp => ⟨.debug, "HECI initialized device=" ++ device.name⟩
  | .unusableDepth => ⟨.debug, "Host ring has no usable depth device=" ++ device.name⟩
  | .frameWritten header writeCursor =>
    ⟨.trace, "Frame written header=" ++ header.describe ++
      " write_pointer=" ++ toString writeCursor.toNat⟩
  | .oversizedFrame header depth =>
    ⟨.debug, "Frame larger than ME ring header=" ++ header.describe ++
      " depth=" ++ toString depth.toNat⟩
  | .oversizedResponse needed capacity =>
    ⟨.debug, "Response larger than receive buffer needed=" ++ toString needed ++
      " capacity=" ++ toString capacity⟩
  | .unrelatedReply request actual =>
    ⟨.debug, "MKHI reply does not match request request=" ++ request.describe ++
      " actual=" ++ actual.describe⟩
  | .firmwareVersion code recovery =>
    ⟨.debug, "Firmware version code=" ++ code.describe ++ " recovery=" ++ recovery.describe⟩
  | .otherRule asked echoed =>
    ⟨.debug, "Rule id mismatch in reply rule_id=" ++ toString asked.toNat ++
      " echoed=" ++ toString echoed.toNat⟩

namespace Entry

def event? : Entry → Option Event
  | .event told => some told
  | _ => none

/-- The log line of an entry on `device`; accesses and waits have none. -/
def line? (device : DeviceId) : Entry → Option LogLine
  | .event told => some (told.line device)
  | .remark said => some (said.line device)
  | _ => none

def access? : Entry → Option String
  | .read offset value => some ("R" ++ Text.hex 2 offset.toNat ++ "=" ++ Text.hexWord value)
  | .write offset value => some ("W" ++ Text.hex 2 offset.toNat ++ "=" ++ Text.hexWord value)
  | _ => none

def isStatusRead : Entry → Bool
  | .read offset _ => offset == Register.hostCsr || offset == Register.controllerCsr
  | _ => false

end Entry

namespace Trace

def events (trace : List Entry) : List Event := trace.filterMap Entry.event?

def lines (device : DeviceId) (trace : List Entry) : List LogLine :=
  trace.filterMap (Entry.line? device)

def dropRepeats : Entry → List Entry → List Entry
  | _, [] => []
  | before, entry :: rest =>
    if entry.isStatusRead && entry == before then dropRepeats before rest
    else entry :: dropRepeats entry rest

/-- The register accesses in short. A status read that repeats the access before it is left out, so
that the length of a wait does not show. -/
def accesses (trace : List Entry) : List String :=
  match trace.filter (fun entry => entry.access?.isSome) with
  | [] => []
  | first :: rest => (first :: dropRepeats first rest).filterMap Entry.access?

end Trace

end HeciMailbox
