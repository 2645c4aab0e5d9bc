import HeciMailbox.Fault

/-! The phases of one exchange.

An exchange runs from idle over sending and awaiting a response to complete. A failure ends it in
one of three terminal phases, and no terminal phase has a way out. -/

set_option autoImplicit false

namespace HeciMailbox

inductive Phase where
  | idle
  | sending
  | awaitingResponse
  | complete
  /-- The ring was full or its cursors corrupt. -/
  | overflow
  | timedOut
  | failed
  deriving DecidableEq, Repr

namespace Phase

def name : Phase → String
  | .idle => "IDLE"
  | .sending => "SENDING"
  | .awaitingResponse => "AWAITING_RESPONSE"
  | .complete => "COMPLETE"
  | .overflow => "OVERFLOW"
  | .timedOut => "TIMED_OUT"
  | .failed => "FAILED"

def isTerminal : Phase → Bool
  | .complete | .overflow | .timedOut | .failed => true
  | .idle | .sending | .awaitingResponse => false

def isFailure (phase : Phase) : Bool := phase.isTerminal && phase != .complete

def ofFault : Fault → Phase
  | .overflow .. => .overflow
  | .timeout .. => .timedOut
  | .notPresent | .tooSmall .. | .badLength .. | .noData => .failed

def mayPrecede : Phase → Phase → Bool
  | .idle, .sending | .idle, .awaitingResponse => true
  | .idle, .overflow | .idle, .failed => true
  | .sending, .awaitingResponse | .sending, .complete => true
  | .sending, .overflow | .sending, .timedOut | .sending, .failed => true
  | .awaitingResponse, .complete => true
  | .awaitingResponse, .overflow | .awaitingResponse, .timedOut | .awaitingResponse, .failed => true
  | _, _ => false

def illegalMove (source target : Phase) : String :=
  "illegal exchange transition " ++ source.name ++ " -> " ++ target.name

end Phase

structure Exchange where
  phase : Phase := .idle
  deriving DecidableEq, Repr

namespace Exchange

def advance? (exchange : Exchange) (target : Phase) : Option Exchange :=
  if exchange.phase.mayPrecede target then some ⟨target⟩ else none

end Exchange

end HeciMailbox
