import HeciMailbox.Text.Numeral

/-! The host firmware status register of a mailbox function. -/

set_option autoImplicit false

namespace HeciMailbox

structure FirmwareStatus where
  raw : UInt32
  deriving DecidableEq, Repr

namespace FirmwareStatus

/-- The field of `width` bits that starts at bit `low`. -/
def field (status : FirmwareStatus) (low width : Nat) : Nat :=
  (status.raw.toNat >>> low) % (1 <<< width)

def currentState (status : FirmwareStatus) : Nat := status.field 0 4
def manufacturingMode (status : FirmwareStatus) : Bool := status.field 4 1 == 1
def partitionTableBad (status : FirmwareStatus) : Bool := status.field 5 1 == 1
def operationState (status : FirmwareStatus) : Nat := status.field 6 3
def initComplete (status : FirmwareStatus) : Bool := status.field 9 1 == 1
def errorCode (status : FirmwareStatus) : Nat := status.field 12 4
def operationMode (status : FirmwareStatus) : Nat := status.field 16 4

def describe (status : FirmwareStatus) : String :=
  "FirmwareStatus \x7b raw: " ++ Text.hexWord status.raw ++
    ", current_state: " ++ toString status.currentState ++
    ", manufacturing_mode: " ++ Text.flag status.manufacturingMode ++
    ", fpt_bad: " ++ Text.flag status.partitionTableBad ++
    ", init_complete: " ++ Text.flag status.initComplete ++
    ", error_code: " ++ toString status.errorCode ++
    ", operation_mode: " ++ toString status.operationMode ++ " \x7d"

end FirmwareStatus

end HeciMailbox
