import HeciMailbox.Bytes

/-! Messages exchanged over the mailbox.

A message is a run of words and the exact number of bytes they carry, since many replies end inside
a word. The bytes beyond the length are zero, so a message is determined by its bytes. -/

set_option autoImplicit false

namespace HeciMailbox

structure Message where
  words : List UInt32
  length : Nat
  length_le : length ≤ 4 * words.length
  /-- No word stands behind the last byte, and the bytes that pad the last word are zero. -/
  padded : Bytes.pack ((Bytes.unpack words).take length) = words
  deriving DecidableEq

namespace Message

def bytes (message : Message) : List UInt8 := (Bytes.unpack message.words).take message.length

def ofWords (words : List UInt32) : Message where
  words := words
  length := 4 * words.length
  length_le := Nat.le_refl _
  padded := by rw [← Bytes.length_unpack, List.take_length, Bytes.pack_unpack]

def ofHeader (header : UInt32) (body : List UInt32) : Message := ofWords (header :: body)

def ofBytes (bytes : List UInt8) : Message where
  words := Bytes.pack bytes
  length := bytes.length
  length_le := by rw [Bytes.length_pack]; omega
  padded := by rw [Bytes.take_unpack_pack]

def empty : Message := ofWords []

instance : Inhabited Message := ⟨empty⟩

def isEmpty (message : Message) : Bool := message.length == 0

/-- The first word; zero for an empty message. -/
def header (message : Message) : UInt32 := message.words.headD 0

def body (message : Message) : List UInt32 := message.words.tail

@[simp] theorem bytes_ofBytes (bytes : List UInt8) : (ofBytes bytes).bytes = bytes :=
  Bytes.take_unpack_pack bytes

@[simp] theorem length_bytes (message : Message) : message.bytes.length = message.length := by
  simp [bytes, Nat.min_eq_left message.length_le]

theorem pack_bytes (message : Message) : Bytes.pack message.bytes = message.words := message.padded

@[simp] theorem ofBytes_bytes (message : Message) : ofBytes message.bytes = message := by
  obtain ⟨words, length, fits, padded⟩ := message
  have counted : ((Bytes.unpack words).take length).length = length := by
    simp [Nat.min_eq_left fits]
  simp only [ofBytes, bytes, padded, counted]

end Message

end HeciMailbox
