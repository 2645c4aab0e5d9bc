import HeciMailbox.Device

/-! Transport configuration. Operations take timeouts and pauses in microseconds. -/

set_option autoImplicit false

namespace HeciMailbox

structure Config where
  device : DeviceId := .heci1
  /-- Explicit base address of the registers; found through PCI when none is given. -/
  baseAddress : Option UInt64 := none
  maxLength : UInt64 := 0x1000
  /-- How long to wait for the host ring to empty between the fragments of a message. -/
  sendMilliseconds : UInt64 := 5000
  /-- How long a blocking receive waits, and any frame after the first. -/
  receiveMilliseconds : UInt64 := 5000
  resetMilliseconds : UInt64 := 2000
  pollMicroseconds : UInt64 := 1000
  hostAddress : UInt8 := 0
  mkhiAddress : UInt8 := 7
  deriving DecidableEq, Repr

namespace Config

instance : Inhabited Config := ⟨{}⟩

def sendTimeout (config : Config) : Nat := config.sendMilliseconds.toNat * 1000
def receiveTimeout (config : Config) : Nat := config.receiveMilliseconds.toNat * 1000
def resetTimeout (config : Config) : Nat := config.resetMilliseconds.toNat * 1000
def pollInterval (config : Config) : Nat := config.pollMicroseconds.toNat

end Config

structure Route where
  host : UInt8
  controller : UInt8
  deriving DecidableEq, Repr

def Config.mkhiRoute (config : Config) : Route := ⟨config.hostAddress, config.mkhiAddress⟩

end HeciMailbox
