import HeciMailbox.Frame.Header
import HeciMailbox.Message

/-! Cutting a message into frame payloads. -/

set_option autoImplicit false

namespace HeciMailbox.Frame

structure Fragment where
  length : Nat
  words : List UInt32
  last : Bool
  deriving DecidableEq, Repr

namespace Fragment

def cut (limit : Nat) : Nat → List UInt32 → Nat → List Fragment
  | 0, _, _ => []
  | 1, words, length => [⟨length, words, true⟩]
  | count + 2, words, length =>
    ⟨limit, words.take (limit / 4), false⟩ ::
      cut limit (count + 1) (words.drop (limit / 4)) (length - limit)

/-- The fragments of `message` for frames of at most `limit` bytes. The limit is a whole number of
words, so each fragment starts at a word of the message. -/
def ofMessage (limit : Nat) (message : Message) : List Fragment :=
  cut limit ((message.length + limit - 1) / limit) message.words message.length

end Fragment

end HeciMailbox.Frame
