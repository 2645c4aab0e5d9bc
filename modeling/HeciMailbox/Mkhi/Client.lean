import HeciMailbox.Mkhi.Status
import HeciMailbox.Transport.Receive

/-! Firmware queries over MKHI.

The transport returns whatever message comes next. A query accepts it as its reply if it has a
header with the response bit, the query's group and command, and result zero, in that order of
checks, and only then looks at its length. -/

set_option autoImplicit false

namespace HeciMailbox.Mkhi

inductive Failure where
  | transport (fault : Fault)
  | unexpected (request actual : Header)
  | status (code : Status)
  | truncated (expected actual : Nat)
  deriving DecidableEq, Repr

def Failure.message : Failure → String
  | .transport fault => fault.message
  | .unexpected request actual =>
    "Unexpected response " ++ actual.describe ++ " to request " ++ request.describe
  | .status code => "MKHI command failed: " ++ code.describe
  | .truncated expected actual =>
    "Response truncated: expected " ++ toString expected ++ " bytes, got " ++ toString actual

def generalGroup : UInt8 := 0xFF

def versionCommand : UInt8 := 0x02

def rulesGroup : UInt8 := 0x03

def ruleCommand : UInt8 := 0x02

def capabilitiesRule : UInt32 := 0x00

def platformRule : UInt32 := 0x1D

variable {σ : Type} [Registers σ] [Clock σ]

/-- Send one request and return the bytes of a reply whose header answers it with result zero. -/
def query (link : Link) (request : Header) (body : List UInt32) :
    Op σ (Except Failure (List UInt8)) := do
  let message := Message.ofHeader request.raw body
  match ← Op.attempt (Op.sendAndAwait link message link.config.mkhiRoute
      link.config.receiveTimeout link.device.maxLength) with
  | .error fault => pure (.error (.transport fault))
  | .ok reply =>
    match Header.ofBytes? reply.bytes with
    | .error _ => pure (.error (.truncated Header.size reply.length))
    | .ok actual =>
      if !actual.answers request then
        Op.remark (.unrelatedReply request actual)
        pure (.error (.unexpected request actual))
      else if actual.result ≠ 0 then pure (.error (.status (Status.ofCode actual.result)))
      else pure (.ok reply.bytes)

def versionReplySize : Nat := Header.size + 2 * Version.size

def firmwareVersions (link : Link) : Op σ (Except Failure Versions) := do
  match ← query link (Header.request generalGroup versionCommand) [] with
  | .error failure => pure (.error failure)
  | .ok bytes =>
    if bytes.length < versionReplySize then
      pure (.error (.truncated versionReplySize bytes.length))
    else
      match Version.ofBytes? (bytes.drop Header.size),
          Version.ofBytes? (bytes.drop (Header.size + Version.size)) with
      | some code, some recovery =>
        Op.remark (.firmwareVersion code recovery)
        pure (.ok ⟨code, recovery, Version.ofBytes? (bytes.drop versionReplySize)⟩)
      | _, _ => Op.trap .shortPayload

structure RuleReply where
  rule : UInt32
  data : UInt32
  deriving DecidableEq, Repr

/-- A rule reply: header, rule, one byte for the length of the data, data. The data so starts inside
a word. -/
def RuleReply.ofBytes? : List UInt8 → Option RuleReply
  | _ :: _ :: _ :: _ :: r0 :: r1 :: r2 :: r3 :: _ :: d0 :: d1 :: d2 :: d3 :: _ =>
    some ⟨Bytes.word r0 r1 r2 r3, Bytes.word d0 d1 d2 d3⟩
  | _ => none

def ruleReplySize : Nat := Header.size + 4 + 1 + 4

/-- The data of one rule. A reply that names another rule is remarked on and taken all the same. -/
def ruleData (link : Link) (rule : UInt32) : Op σ (Except Failure UInt32) := do
  match ← query link (Header.request rulesGroup ruleCommand) [rule] with
  | .error failure => pure (.error failure)
  | .ok bytes =>
    if bytes.length < ruleReplySize then
      pure (.error (.truncated ruleReplySize bytes.length))
    else
      match RuleReply.ofBytes? bytes with
      | some reply =>
        if reply.rule ≠ rule then Op.remark (.otherRule rule reply.rule)
        pure (.ok reply.data)
      | none => Op.trap .shortPayload

def capabilities (link : Link) : Op σ (Except Failure Capabilities) := do
  pure ((← ruleData link capabilitiesRule).map Capabilities.mk)

def platformType (link : Link) : Op σ (Except Failure PlatformType) := do
  pure ((← ruleData link platformRule).map PlatformType.mk)

end HeciMailbox.Mkhi
