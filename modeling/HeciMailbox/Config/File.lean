import HeciMailbox.Config.Basic
import HeciMailbox.Config.Codec

/-! Configuration files.

A file is the text of a record with one field for each setting. Settings it leaves out keep their
defaults; a base address that is not set is left out. -/

set_option autoImplicit false

namespace HeciMailbox.Config

open Codec (Kind Value)

inductive Setting where
  | device
  | baseAddress
  | maxLength
  | sendMilliseconds
  | receiveMilliseconds
  | resetMilliseconds
  | pollMicroseconds
  | hostAddress
  | mkhiAddress
  deriving DecidableEq, Repr

namespace Setting

def all : List Setting :=
  [.device, .baseAddress, .maxLength, .sendMilliseconds, .receiveMilliseconds, .resetMilliseconds,
    .pollMicroseconds, .hostAddress, .mkhiAddress]

def key : Setting → String
  | .device => "device"
  | .baseAddress => "base_address"
  | .maxLength => "max_message_len"
  | .sendMilliseconds => "send_timeout_ms"
  | .receiveMilliseconds => "receive_timeout_ms"
  | .resetMilliseconds => "reset_timeout_ms"
  | .pollMicroseconds => "poll_interval_us"
  | .hostAddress => "host_address"
  | .mkhiAddress => "mkhi_address"

def kind : Setting → Kind
  | .device => .choice (DeviceId.all.map DeviceId.key)
  | .hostAddress | .mkhiAddress => .number UInt8.size
  | .baseAddress | .maxLength | .sendMilliseconds | .receiveMilliseconds | .resetMilliseconds
  | .pollMicroseconds => .number UInt64.size

end Setting

def value? (config : Config) : Setting → Option Value
  | .device => some (.name config.device.key)
  | .baseAddress => config.baseAddress.map fun base => .number base.toNat
  | .maxLength => some (.number config.maxLength.toNat)
  | .sendMilliseconds => some (.number config.sendMilliseconds.toNat)
  | .receiveMilliseconds => some (.number config.receiveMilliseconds.toNat)
  | .resetMilliseconds => some (.number config.resetMilliseconds.toNat)
  | .pollMicroseconds => some (.number config.pollMicroseconds.toNat)
  | .hostAddress => some (.number config.hostAddress.toNat)
  | .mkhiAddress => some (.number config.mkhiAddress.toNat)

def wide (given : Option Value) (fallback : UInt64) : UInt64 :=
  ((given.bind Value.number?).map UInt64.ofNat).getD fallback

def byte (given : Option Value) (fallback : UInt8) : UInt8 :=
  ((given.bind Value.number?).map UInt8.ofNat).getD fallback

/-- The configuration with these settings; the others have their defaults. -/
def ofValues (given : Setting → Option Value) : Config :=
  let plain : Config := {}
  { device := (((given .device).bind Value.name?).bind DeviceId.ofKey?).getD plain.device
    baseAddress := ((given .baseAddress).bind Value.number?).map UInt64.ofNat
    maxLength := wide (given .maxLength) plain.maxLength
    sendMilliseconds := wide (given .sendMilliseconds) plain.sendMilliseconds
    receiveMilliseconds := wide (given .receiveMilliseconds) plain.receiveMilliseconds
    resetMilliseconds := wide (given .resetMilliseconds) plain.resetMilliseconds
    pollMicroseconds := wide (given .pollMicroseconds) plain.pollMicroseconds
    hostAddress := byte (given .hostAddress) plain.hostAddress
    mkhiAddress := byte (given .mkhiAddress) plain.mkhiAddress }

section

variable [Codec]

def ofText (text : String) : Except Refusal Config := do
  let values ← Codec.read (Setting.all.map fun setting => (setting.key, setting.kind)) text
  pure (ofValues fun setting => values.lookup setting.key)

def ofBytes (bytes : ByteArray) : Except Refusal Config :=
  match String.fromUTF8? bytes with
  | none => .error .notText
  | some text => ofText text

/-- The text of a configuration file; none if it has a setting that no file can hold. -/
def toText? (config : Config) : Option String :=
  Codec.write (Setting.all.map fun setting => (setting.key, config.value? setting))

end

end HeciMailbox.Config
