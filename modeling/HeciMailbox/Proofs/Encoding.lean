import HeciMailbox.Proofs.Segments
import Mathlib.Algebra.Group.Nat.Defs
import Mathlib.Data.List.GetD

/-! A message is its bytes.

Which words and which length a message can have is said here byte by byte: no more words than the
bytes fill, and zeros behind the last byte. Then the bytes determine the message, and cutting it at
a word loses none of them. -/

set_option autoImplicit false

namespace HeciMailbox

namespace Bytes

/-- Byte number `place` of a run of words, each with its least significant byte first. -/
def byteAt (words : List UInt32) (place : Nat) : UInt8 :=
  UInt8.ofNat ((words.getD (place / 4) 0).toNat / 256 ^ (place % 4))

theorem getD_ofWord (w : UInt32) {place : Nat} (within : place < 4) :
    (ofWord w).getD place 0 = UInt8.ofNat (w.toNat / 256 ^ place) := by
  apply UInt8.toNat_inj.mp
  obtain rfl | rfl | rfl | rfl : place = 0 ∨ place = 1 ∨ place = 2 ∨ place = 3 := by omega
  all_goals simp [ofWord, Nat.shiftRight_eq_div_pow]

theorem getD_unpack (words : List UInt32) (place : Nat) :
    (unpack words).getD place 0 = byteAt words place := by
  induction words generalizing place with
  | nil => simp [unpack, byteAt]
  | cons w rest ih =>
    by_cases first : place < 4
    · have here : place / 4 = 0 ∧ place % 4 = place := by omega
      rw [byteAt, here.1, here.2, List.getD_cons_zero, ← getD_ofWord w first, unpack,
        List.getD_append _ _ _ _ (by simpa using first)]
    · have later : place / 4 = (place - 4) / 4 + 1 ∧ place % 4 = (place - 4) % 4 := by omega
      rw [byteAt, later.1, later.2, List.getD_cons_succ, ← byteAt, ← ih, unpack,
        List.getD_append_right _ _ _ _ (by simpa using first), length_ofWord]

theorem unpack_pack (bytes : List UInt8) :
    unpack (pack bytes) =
      bytes ++ List.replicate (4 * ((bytes.length + 3) / 4) - bytes.length) 0 := by
  fun_induction pack bytes with
  | case1 => rfl
  | case2 a => simp [unpack, ofWord_word, List.replicate]
  | case3 a b => simp [unpack, ofWord_word, List.replicate]
  | case4 a b c => simp [unpack, ofWord_word]
  | case5 a b c d rest ih =>
    have same : 4 * ((rest.length + 3) / 4) - rest.length =
        4 * ((rest.length + 1 + 1 + 1 + 1 + 3) / 4) - (rest.length + 1 + 1 + 1 + 1) := by omega
    simp [unpack, ofWord_word, ih, same]

theorem byteAt_pack (bytes : List UInt8) (place : Nat) :
    byteAt (pack bytes) place = bytes.getD place 0 := by
  rw [← getD_unpack, unpack_pack]
  by_cases within : place < bytes.length
  · rw [List.getD_append _ _ _ _ within]
  · have beyond := Nat.le_of_not_lt within
    rw [List.getD_append_right _ _ _ _ beyond, List.getD_eq_default _ _ beyond]
    exact List.getElem?_getD_replicate_default_eq _ _ _

/-- The words hold `length` bytes and nothing else: no more words than these fill, and zeros in what
they leave of the last one. -/
structure Tight (words : List UInt32) (length : Nat) : Prop where
  count : words.length = (length + 3) / 4
  padding : ∀ place, length ≤ place → place < 4 * words.length → byteAt words place = 0

theorem tight_pack (bytes : List UInt8) : Tight (pack bytes) bytes.length where
  count := length_pack bytes
  padding place beyond _ := by rw [byteAt_pack, List.getD_eq_default _ _ beyond]

theorem Tight.pack_take {words : List UInt32} {length : Nat} (tight : Tight words length) :
    pack ((unpack words).take length) = words := by
  have count := tight.count
  have short : ((unpack words).take length).length = length := by
    rw [List.length_take, length_unpack]
    omega
  have zeros : (unpack words).drop length =
      List.replicate (4 * ((length + 3) / 4) - length) 0 := by
    refine List.eq_replicate_iff.mpr ⟨by rw [List.length_drop, length_unpack, count], ?_⟩
    intro byte member
    obtain ⟨place, within, rfl⟩ := List.getElem_of_mem member
    rw [List.length_drop, length_unpack] at within
    have zero := tight.padding (length + place) (Nat.le_add_right _ _) (by omega)
    rwa [← getD_unpack, List.getD_eq_getElem _ _ (by rw [length_unpack]; omega),
      ← List.getElem_drop] at zero
  have same : unpack (pack ((unpack words).take length)) = unpack words := by
    rw [unpack_pack, short, ← zeros, List.take_append_drop]
  rw [← pack_unpack (pack _), same, pack_unpack]

theorem tight_iff {words : List UInt32} {length : Nat} :
    Tight words length ↔ length ≤ 4 * words.length ∧ pack ((unpack words).take length) = words := by
  constructor
  · intro tight
    have count := tight.count
    exact ⟨by omega, tight.pack_take⟩
  · rintro ⟨fits, packed⟩
    have tight := tight_pack ((unpack words).take length)
    rwa [packed, List.length_take, length_unpack, Nat.min_eq_left fits] at tight

theorem unpack_append (front back : List UInt32) :
    unpack (front ++ back) = unpack front ++ unpack back := by
  induction front with
  | nil => rfl
  | cons w rest ih => simp [unpack, ih]

theorem take_unpack_cut (words : List UInt32) (cut length : Nat) :
    (unpack (words.take cut)).take length ++ (unpack (words.drop cut)).take (length - 4 * cut) =
      (unpack words).take length := by
  conv => rhs; rw [← List.take_append_drop cut words, unpack_append, List.take_append]
  by_cases inside : cut ≤ words.length
  · rw [length_unpack, List.length_take, Nat.min_eq_left inside]
  · simp [List.drop_eq_nil_of_le (Nat.le_of_not_le inside), unpack]

end Bytes

namespace Frame.Fragment

/-- The bytes that a fragment carries, without the padding of its last word. -/
def bytes (fragment : Fragment) : List UInt8 := (Bytes.unpack fragment.words).take fragment.length

theorem flatMap_cut {limit words : Nat} (whole : limit = 4 * words) (positive : 0 < limit)
    (count : Nat) (all : List UInt32) (length : Nat)
    (enough : count = (length + limit - 1) / limit) :
    (cut limit count all length).flatMap bytes = (Bytes.unpack all).take length := by
  -- By the number of fragments. Each but the last takes its words off the front.
  induction count generalizing all length with
  | zero =>
    have empty : length = 0 := by
      have low := (Nat.div_eq_zero_iff_lt positive).mp enough.symm
      omega
    simp [cut, empty]
  | succ count ih =>
    cases count with
    | zero => simp [cut, bytes]
    | succ count =>
      obtain ⟨long, rest⟩ := count_pred positive enough
      have quarter : limit / 4 = words := by omega
      have front : (Bytes.unpack (all.take words)).length ≤ limit := by
        rw [Bytes.length_unpack, List.length_take]
        omega
      have within : (Bytes.unpack (all.take words)).take length = Bytes.unpack (all.take words) :=
        List.take_of_length_le (Nat.le_trans front (Nat.le_of_lt long))
      rw [cut, List.flatMap_cons, quarter, ih _ _ rest, bytes, List.take_of_length_le front,
        ← Bytes.take_unpack_cut all words length, within, whole]

theorem flatMap_ofMessage {limit : Nat} (whole : 4 ∣ limit) (positive : 0 < limit)
    (message : Message) : (ofMessage limit message).flatMap bytes = message.bytes := by
  obtain ⟨words, whole⟩ := whole
  exact flatMap_cut whole positive _ _ _ rfl

end Frame.Fragment

namespace Message

inductive Origin where
  | whole (words : List UInt32)
  | headed (header : UInt32) (body : List UInt32)
  | carrying (bytes : List UInt8)
  | nothing

def Origin.message : Origin → Message
  | .whole words => ofWords words
  | .headed header body => ofHeader header body
  | .carrying bytes => ofBytes bytes
  | .nothing => empty

theorem exists_origin {words : List UInt32} {length : Nat} :
    (∃ origin : Origin, origin.message.words = words ∧ origin.message.length = length) ↔
      Bytes.Tight words length := by
  rw [Bytes.tight_iff]
  constructor
  · rintro ⟨origin, rfl, rfl⟩
    exact ⟨origin.message.length_le, origin.message.padded⟩
  · rintro ⟨fits, packed⟩
    refine ⟨.carrying ((Bytes.unpack words).take length), packed, ?_⟩
    simp [Origin.message, ofBytes, Nat.min_eq_left fits]

/-- Messages and byte strings are the same thing: either is read back from the other, byte by byte
and with the padding. Whatever way a message was made, its words are as many as its bytes fill, with
zeros behind the last; so equal bytes are equal messages, and words cut at any place, into two parts
or into fragments of one size, carry the bytes of the message one after the other. -/
theorem messages_are_their_bytes :
    (∀ bytes : List UInt8, (ofBytes bytes).bytes = bytes ∧
        ∀ place, Bytes.byteAt (ofBytes bytes).words place = bytes.getD place 0) ∧
      (∀ origin : Origin, ofBytes origin.message.bytes = origin.message) ∧
      (∀ (words : List UInt32) (length : Nat),
        (∃ origin : Origin, origin.message.words = words ∧ origin.message.length = length) ↔
          Bytes.Tight words length) ∧
      (∀ first second : Origin,
        first.message = second.message ↔ first.message.bytes = second.message.bytes) ∧
      ∀ (origin : Origin) (words : Nat),
        let message := origin.message
        let front := (Bytes.unpack (message.words.take words)).take message.length
        let back := (Bytes.unpack (message.words.drop words)).take (message.length - 4 * words)
        ofBytes (front ++ back) = message ∧
          ofBytes ((Frame.Fragment.ofMessage (4 * (words + 1)) message).flatMap
            Frame.Fragment.bytes) = message := by
  refine ⟨fun bytes => ⟨bytes_ofBytes bytes, Bytes.byteAt_pack bytes⟩,
    fun origin => origin.message.ofBytes_bytes, fun _ _ => exists_origin, fun first second => ?_,
    fun origin words => ?_⟩
  · refine ⟨congrArg bytes, fun same => ?_⟩
    rw [← first.message.ofBytes_bytes, same, ofBytes_bytes]
  · intro message front back
    have joined : front ++ back = message.bytes := Bytes.take_unpack_cut _ _ _
    rw [joined, Frame.Fragment.flatMap_ofMessage (Nat.dvd_mul_right _ _) (by omega),
      ofBytes_bytes]
    exact ⟨rfl, rfl⟩

end Message

end HeciMailbox
