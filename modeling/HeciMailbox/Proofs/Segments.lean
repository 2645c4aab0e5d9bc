import HeciMailbox.Frame.Fragment
import HeciMailbox.Config.Basic

/-! The frames of a message, cut from its bytes.

`segments` cuts a byte string into chunks of at most `limit` bytes and puts a header before each.
`ofMessage_eq_segments` says that the fragments of a message are these, although they are cut from
its words: the limit is a whole number of words. -/

set_option autoImplicit false

namespace HeciMailbox

namespace Bytes

theorem pack_take (words : Nat) (bytes : List UInt8) :
    (pack bytes).take words = pack (bytes.take (4 * words)) := by
  induction words generalizing bytes with
  | zero => simp [pack]
  | succ words ih =>
    have step : 4 * (words + 1) = 4 * words + 1 + 1 + 1 + 1 := by omega
    fun_cases pack bytes with
    | case1 => simp [pack]
    | case2 => simp [step, pack]
    | case3 => simp [step, pack]
    | case4 => simp [step, pack]
    | case5 a b c d rest => simp only [step, pack, List.take_succ_cons, ih]

theorem pack_drop (words : Nat) (bytes : List UInt8) :
    (pack bytes).drop words = pack (bytes.drop (4 * words)) := by
  induction words generalizing bytes with
  | zero => simp
  | succ words ih =>
    have step : 4 * (words + 1) = 4 * words + 1 + 1 + 1 + 1 := by omega
    fun_cases pack bytes with
    | case1 => simp [pack]
    | case2 => simp [step, pack]
    | case3 => simp [step, pack]
    | case4 => simp [step, pack]
    | case5 a b c d rest => simp only [step, List.drop_succ_cons, ih]

end Bytes

namespace Frame

namespace Header

def ofFields (controller host : UInt8) (length : Nat) (complete : Bool) : Header :=
  ⟨controller.toUInt32 ||| host.toUInt32 <<< 8 ||| UInt32.ofNat length <<< 16 |||
    (if complete then completeBit else 0)⟩

theorem make?_eq_ok {controller host : UInt8} {length : Nat} {complete : Bool} {header : Header} :
    make? controller host length complete = .ok header ↔
      length ≤ maxLength ∧ header = ofFields controller host length complete := by
  unfold make? ofFields
  by_cases long : maxLength < length
  · simp [long, Nat.not_le.mpr long]
  · cases complete <;> simp [long, Nat.le_of_not_lt long, eq_comm]

/-- The word of a header is the sum of its fields, each at its place. -/
theorem toNat_ofFields (controller host : UInt8) {length : Nat} (complete : Bool)
    (fits : length ≤ maxLength) :
    (ofFields controller host length complete).raw.toNat =
      (if complete then 0x80000000 else 0) + length * 0x10000 + host.toNat * 0x100 +
        controller.toNat := by
  have hc := controller.toNat_lt
  have hh := host.toNat_lt
  unfold maxLength at fits
  have placed : host.toNat <<< ((8 : UInt32).toNat % 32) % 2 ^ 32 = host.toNat <<< 8 := by
    rw [show (8 : UInt32).toNat % 32 = 8 from rfl, Nat.shiftLeft_eq]; omega
  have count : (UInt32.ofNat length).toNat <<< ((16 : UInt32).toNat % 32) % 2 ^ 32 =
      length <<< 16 := by
    rw [show (16 : UInt32).toNat % 32 = 16 from rfl, Nat.shiftLeft_eq, UInt32.toNat_ofNat']
    omega
  have mark : (if complete then completeBit else 0 : UInt32).toNat =
      (if complete then 1 else 0) <<< 31 := by
    cases complete <;> rfl
  -- Disjoint fields: each `or` is a sum.
  have addresses : controller.toNat ||| host.toNat <<< 8 = host.toNat <<< 8 + controller.toNat := by
    rw [Nat.or_comm]; exact (Nat.shiftLeft_add_eq_or_of_lt hc _).symm
  have counted : host.toNat <<< 8 + controller.toNat ||| length <<< 16 =
      length <<< 16 + (host.toNat <<< 8 + controller.toNat) := by
    rw [Nat.or_comm]
    exact (Nat.shiftLeft_add_eq_or_of_lt (by rw [Nat.shiftLeft_eq]; omega) _).symm
  simp only [ofFields, UInt32.toNat_or, UInt32.toNat_shiftLeft, UInt8.toNat_toUInt32, placed, count,
    mark, addresses, counted]
  rw [Nat.or_comm, ← Nat.shiftLeft_add_eq_or_of_lt (by simp only [Nat.shiftLeft_eq]; omega)]
  simp only [Nat.shiftLeft_eq]
  cases complete <;> simp <;> omega

theorem toNat_controllerAddress (header : Header) :
    header.controllerAddress.toNat = header.raw.toNat % 0x100 :=
  UInt32.toNat_toUInt8 header.raw

theorem toNat_hostAddress (header : Header) :
    header.hostAddress.toNat = header.raw.toNat / 0x100 % 0x100 := by
  rw [hostAddress, UInt32.toNat_toUInt8, UInt32.toNat_shiftRight,
    show (8 : UInt32).toNat % 32 = 8 from rfl, Nat.shiftRight_eq_div_pow]

theorem length_eq (header : Header) : header.length = header.raw.toNat / 0x10000 % 0x200 := by
  rw [Header.length, UInt32.toNat_and, UInt32.toNat_shiftRight,
    show (16 : UInt32).toNat % 32 = 16 from rfl, Nat.shiftRight_eq_div_pow,
    show (0x1FF : UInt32).toNat = 2 ^ 9 - 1 from rfl, Nat.and_two_pow_sub_one_eq_mod]

theorem controllerAddress_ofFields (controller host : UInt8) {length : Nat} (complete : Bool)
    (fits : length ≤ maxLength) :
    (ofFields controller host length complete).controllerAddress = controller := by
  have hc := controller.toNat_lt
  have hh := host.toNat_lt
  apply UInt8.toNat_inj.mp
  rw [toNat_controllerAddress, toNat_ofFields _ _ _ fits]
  split <;> omega

theorem hostAddress_ofFields (controller host : UInt8) {length : Nat} (complete : Bool)
    (fits : length ≤ maxLength) :
    (ofFields controller host length complete).hostAddress = host := by
  have hc := controller.toNat_lt
  have hh := host.toNat_lt
  apply UInt8.toNat_inj.mp
  rw [toNat_hostAddress, toNat_ofFields _ _ _ fits]
  split <;> omega

theorem length_ofFields (controller host : UInt8) {length : Nat} (complete : Bool)
    (fits : length ≤ maxLength) :
    (ofFields controller host length complete).length = length := by
  have hc := controller.toNat_lt
  have hh := host.toNat_lt
  rw [length_eq, toNat_ofFields _ _ _ fits]
  unfold maxLength at fits
  split <;> omega

theorem and_one_shiftLeft (value place : Nat) :
    value &&& 1 <<< place = if value.testBit place then 1 <<< place else 0 := by
  rw [Nat.one_shiftLeft]
  apply Nat.eq_of_testBit_eq
  intro index
  rw [Nat.testBit_and, Nat.testBit_two_pow]
  by_cases same : place = index
  · subst same
    cases value.testBit place <;> simp
  · cases value.testBit place <;> simp [same]

theorem and_bit_bne_zero (raw : UInt32) {bit : UInt32} {place : Nat}
    (single : bit.toNat = 1 <<< place) : (raw &&& bit != 0) = raw.toNat.testBit place := by
  have clear : raw &&& bit = 0 ↔ raw.toNat.testBit place = false := by
    rw [← UInt32.toNat_inj, UInt32.toNat_and, single, and_one_shiftLeft]
    cases raw.toNat.testBit place <;> simp [Nat.shiftLeft_eq]
  rw [Bool.eq_iff_iff, bne_iff_ne, ne_eq, clear, Bool.not_eq_false]

/-- The mark of the last frame is bit 31. -/
theorem complete_eq_testBit (header : Header) : header.complete = header.raw.toNat.testBit 31 :=
  and_bit_bne_zero header.raw rfl

theorem complete_ofFields (controller host : UInt8) {length : Nat} (complete : Bool)
    (fits : length ≤ maxLength) :
    (ofFields controller host length complete).complete = complete := by
  have hc := controller.toNat_lt
  have hh := host.toNat_lt
  rw [complete_eq_testBit, toNat_ofFields _ _ _ fits, Nat.testBit_eq_decide_div_mod_eq]
  unfold maxLength at fits
  cases complete <;> simp <;> omega

end Header

structure Segment where
  header : Header
  payload : List UInt32
  deriving DecidableEq

namespace Segment

/-- The words that the frame takes on a ring. -/
def words (segment : Segment) : List UInt32 := segment.header.raw :: segment.payload

/-- The bytes that the frame carries, without the padding of its last word. -/
def content (segment : Segment) : List UInt8 :=
  (Bytes.unpack segment.payload).take segment.header.length

def ofFragment (route : Route) (fragment : Fragment) : Segment :=
  ⟨.ofFields route.controller route.host fragment.length fragment.last, fragment.words⟩

end Segment

/-- Frame number `index` of a byte string: chunk number `index` of `limit` bytes, and whether the
string ends with it. -/
def segment (route : Route) (limit : Nat) (bytes : List UInt8) (index : Nat) : Segment :=
  let chunk := (bytes.drop (index * limit)).take limit
  ⟨.ofFields route.controller route.host chunk.length (decide (bytes.length ≤ (index + 1) * limit)),
    Bytes.pack chunk⟩

def segments (route : Route) (limit : Nat) (bytes : List UInt8) : List Segment :=
  (List.range ((bytes.length + limit - 1) / limit)).map (segment route limit bytes)

theorem segment_succ (route : Route) (limit : Nat) (bytes : List UInt8) (index : Nat) :
    segment route limit bytes (index + 1) = segment route limit (bytes.drop limit) index := by
  have start : limit + index * limit = (index + 1) * limit := by rw [Nat.succ_mul, Nat.add_comm]
  have ending : (index + 1 + 1) * limit = (index + 1) * limit + limit := Nat.succ_mul _ _
  have last : bytes.length ≤ (index + 1 + 1) * limit ↔
      bytes.length - limit ≤ (index + 1) * limit := by
    omega
  simp only [segment, List.drop_drop, List.length_drop, start, last]

/-- Frames of one byte string and the number of them that its length gives. -/
theorem count_pred {limit length count : Nat} (positive : 0 < limit)
    (enough : count + 2 = (length + limit - 1) / limit) :
    limit < length ∧ count + 1 = (length - limit + limit - 1) / limit := by
  have low : (count + 2) * limit ≤ length + limit - 1 := by
    rw [enough]; exact Nat.div_mul_le_self _ _
  have long : limit < length := by
    have : (count + 2) * limit = count * limit + 2 * limit := Nat.add_mul _ _ _
    omega
  have shift : length + limit - 1 = length - limit + limit - 1 + limit := by omega
  rw [shift, Nat.add_div_right _ positive] at enough
  exact ⟨long, by omega⟩

theorem cut_eq (route : Route) {limit words : Nat} (whole : limit = 4 * words)
    (positive : 0 < limit) (count : Nat) (bytes : List UInt8)
    (enough : count = (bytes.length + limit - 1) / limit) :
    (Fragment.cut limit count (Bytes.pack bytes) bytes.length).map (Segment.ofFragment route) =
      (List.range count).map (segment route limit bytes) := by
  induction count generalizing bytes with
  | zero => rfl
  | succ count ih =>
    cases count with
    | zero =>
      have short : bytes.length ≤ limit := by
        have high : bytes.length + limit - 1 < 2 * limit :=
          (Nat.div_lt_iff_lt_mul positive).mp (by omega)
        omega
      have all : bytes.take limit = bytes := List.take_of_length_le short
      simp [Fragment.cut, segment, Segment.ofFragment, all, short]
    | succ count =>
      obtain ⟨long, rest⟩ := count_pred positive enough
      have head : (bytes.take limit).length = limit := by simp; omega
      have notLast : ¬ bytes.length ≤ limit := by omega
      have first : Segment.ofFragment route
          ⟨limit, (Bytes.pack bytes).take (limit / 4), false⟩ = segment route limit bytes 0 := by
        have quarter : limit / 4 = words := by omega
        simp only [segment, Segment.ofFragment, Nat.zero_mul, List.drop_zero, head, Nat.zero_add,
          Nat.one_mul, notLast, decide_false, Bytes.pack_take, quarter, ← whole]
      have others : (Bytes.pack bytes).drop (limit / 4) = Bytes.pack (bytes.drop limit) := by
        rw [Bytes.pack_drop, show 4 * (limit / 4) = limit by omega]
      rw [List.range_succ_eq_map, List.map_cons, List.map_map, Fragment.cut, List.map_cons, first,
        others, ← List.length_drop, ih (bytes.drop limit) (by rw [List.length_drop]; exact rest)]
      simp [Function.comp_def, segment_succ]

theorem ofMessage_eq_segments (route : Route) {limit : Nat} (whole : 4 ∣ limit)
    (positive : 0 < limit) (message : Message) :
    (Fragment.ofMessage limit message).map (Segment.ofFragment route) =
      segments route limit message.bytes := by
  obtain ⟨words, whole⟩ := whole
  rw [Fragment.ofMessage, segments, ← message.pack_bytes, ← message.length_bytes]
  exact cut_eq route whole positive _ message.bytes rfl

theorem four_dvd_payloadLimit (depth : Nat) : 4 ∣ payloadLimit depth := by
  unfold payloadLimit maxLength
  omega

theorem payloadLimit_le (depth : Nat) : payloadLimit depth ≤ 508 := by
  unfold payloadLimit maxLength
  omega

theorem payloadLimit_le_maxLength (depth : Nat) : payloadLimit depth ≤ maxLength :=
  Nat.le_trans (payloadLimit_le depth) (by decide)

theorem payloadLimit_pos {depth : Nat} (deep : 2 ≤ depth) : 0 < payloadLimit depth := by
  unfold payloadLimit maxLength
  omega

end Frame

end HeciMailbox
