import Mathlib.Algebra.Order.Floor.Div
import HeciMailbox.Proofs.Conservation
import HeciMailbox.Proofs.Replies

/-! The two header words, from the side that writes them and from the side that reads them.

A framing header gives back the fields it was made from, and is made again from the fields it gives,
but for the bits that no field uses. The controller packs its headers by hand; they are the ones
that the checked way makes. A command header answers another on the strength of its low fifteen bits
and the response bit alone. -/

set_option autoImplicit false

namespace HeciMailbox

namespace Frame.Header

/-! ### Framing headers -/

/-- The bits of the fields; bits 25 to 30 belong to none. -/
def fieldBits : UInt32 := 0x81FFFFFF

theorem toNat_and_fieldBits (raw : UInt32) :
    (raw &&& fieldBits).toNat =
      (if raw.toNat.testBit 31 then 0x80000000 else 0) + raw.toNat % 2 ^ 25 := by
  have low : raw.toNat % 2 ^ 25 < 2 ^ 31 :=
    Nat.lt_of_lt_of_le (Nat.mod_lt _ (by decide)) (by decide)
  -- A lone bit above a run of low ones: each half is taken by itself, and they do not overlap.
  rw [UInt32.toNat_and, show fieldBits.toNat = 1 <<< 31 ||| 2 ^ 25 - 1 from rfl,
    Nat.and_or_distrib_left, and_one_shiftLeft, Nat.and_two_pow_sub_one_eq_mod]
  split
  · exact (Nat.shiftLeft_add_eq_or_of_lt low 1).symm
  · rw [Nat.zero_or, Nat.zero_add]

theorem length_le_maxLength (header : Header) : header.length ≤ maxLength := by
  rw [length_eq]
  exact Nat.le_of_lt_succ (Nat.mod_lt _ (by decide))

theorem ofFields_of_fields (header : Header) :
    ofFields header.controllerAddress header.hostAddress header.length header.complete =
      ⟨header.raw &&& fieldBits⟩ := by
  have same : (ofFields header.controllerAddress header.hostAddress header.length
      header.complete).raw = header.raw &&& fieldBits := by
    apply UInt32.toNat_inj.mp
    rw [toNat_ofFields _ _ _ header.length_le_maxLength, toNat_and_fieldBits, complete_eq_testBit,
      toNat_controllerAddress, toNat_hostAddress, length_eq]
    omega
  exact congrArg Header.mk same

structure Shows (controller host : UInt8) (bytes : Nat) (last : Bool) (header : Header) :
    Prop where
  controllerAddress : header.controllerAddress = controller
  hostAddress : header.hostAddress = host
  length : header.length = bytes
  words : header.words = bytes ⌈/⌉ 4
  complete : header.complete = last

theorem shows_ofFields (controller host : UInt8) {length : Nat} (complete : Bool)
    (fits : length ≤ maxLength) :
    (ofFields controller host length complete).Shows controller host length complete where
  controllerAddress := controllerAddress_ofFields controller host complete fits
  hostAddress := hostAddress_ofFields controller host complete fits
  length := length_ofFields controller host complete fits
  words := by
    rw [words, length_ofFields controller host complete fits, Nat.ceilDiv_eq_add_pred_div]
    rfl
  complete := complete_ofFields controller host complete fits

theorem make?_eq (controller host : UInt8) (length : Nat) (complete : Bool) :
    if length ≤ maxLength then
      ∃ header, make? controller host length complete = .ok header ∧
        header.Shows controller host length complete
    else make? controller host length complete = .error (.longFrame length) := by
  split
  · next fits =>
    exact ⟨_, make?_eq_ok.mpr ⟨fits, rfl⟩, shows_ofFields controller host complete fits⟩
  · next long => exact if_pos (Nat.lt_of_not_le long)

end Frame.Header

namespace Controller

/-! ### Headers packed by the controller -/

/-- These frames are the bytes in chunks of `limit`, each behind the header that is made of the two
addresses, the length of the chunk and whether it is the last one. -/
structure Packed (client host : UInt8) (limit : Nat) (bytes : List UInt8)
    (frames : List (List UInt32)) : Prop where
  count : frames.length = bytes.length ⌈/⌉ limit
  frame : ∀ index < frames.length,
    let chunk := (bytes.drop (index * limit)).take limit
    chunk ≠ [] ∧
      ∃ header, Frame.Header.make? client host chunk.length
          (decide (index + 1 = frames.length)) = .ok header ∧
        frames[index]? = some (header.raw :: Bytes.pack chunk)

theorem framesOf_packed (depth : Nat) (message : Message) (client host : UInt8) :
    Packed client host (max (Frame.payloadLimit depth) 4) message.bytes
      (framesOf depth message client host) := by
  rw [framesOf_eq]
  generalize found : max (Frame.payloadLimit depth) 4 = limit
  have fits : limit ≤ Frame.maxLength := found ▸ responseLimit_le depth
  have positive : 0 < limit := by omega
  have chunked := Frame.segments_chunked ⟨host, client⟩ positive fits message.bytes
  refine ⟨?_, fun index inside => ?_⟩
  · rw [List.length_map, chunked.count, Nat.ceilDiv_eq_add_pred_div]
  intro chunk
  rw [List.length_map] at inside ⊢
  have here := List.getElem?_eq_getElem inside
  obtain ⟨content, -, -, -, -, last⟩ := chunked.chunk index _ here
  have nonempty := Frame.content_ne_nil _ fits (List.getElem_mem inside)
  have shape : (Frame.segments ⟨host, client⟩ limit message.bytes)[index] =
      Frame.segment ⟨host, client⟩ limit message.bytes index := by
    simp [Frame.segments]
  have short : chunk.length ≤ Frame.maxLength := Frame.length_chunk_le _ fits
  -- The controller marks the last chunk by counting them, a frame by where the bytes end.
  rw [shape, Frame.segment, Frame.Header.complete_ofFields _ _ _ short] at last
  refine ⟨fun empty => nonempty (content.trans empty), _,
    Frame.Header.make?_eq_ok.mpr ⟨short, rfl⟩, ?_⟩
  rw [List.getElem?_map, here, Option.map_some, shape, Frame.Segment.words, Frame.segment, last]

end Controller

namespace Mkhi.Header

/-! ### Command headers -/

theorem answers_iff (header request : Header) :
    header.answers request = true ↔
      header.raw.toNat.testBit 15 = true ∧
        header.raw.toNat % 2 ^ 15 = request.raw.toNat % 2 ^ 15 := by
  simp only [answers, isResponse_eq_testBit, Bool.and_eq_true, beq_iff_eq, ← UInt8.toNat_inj,
    toNat_group, toNat_command, and_assoc]
  -- Group and command lie side by side in the low fifteen bits.
  refine and_congr_right fun _ => ?_
  omega

theorem toNat_or_mod (low high : UInt32) (above : high.toNat % 2 ^ 15 = 0) :
    (low ||| high).toNat % 2 ^ 15 = low.toNat % 2 ^ 15 := by
  rw [UInt32.toNat_or, Nat.or_mod_two_pow, above, Nat.or_zero]

theorem request_mod (group command : UInt8) :
    (request group command).raw.toNat % 2 ^ 15 = command.toNat % 2 ^ 7 * 0x100 + group.toNat := by
  have := group.toNat_lt
  rw [toNat_request]
  omega

theorem shiftLeft_mod (value : UInt32) {places : UInt32} (far : 15 ≤ places.toNat % 32) :
    (value <<< places).toNat % 2 ^ 15 = 0 := by
  rw [UInt32.toNat_shiftLeft, Nat.mod_mod_of_dvd _ (by decide : 2 ^ 15 ∣ 2 ^ 32), Nat.shiftLeft_eq]
  exact Nat.mod_eq_zero_of_dvd (Dvd.dvd.mul_left (Nat.pow_dvd_pow 2 far) _)

theorem response_mod (group command result : UInt8) :
    (response group command result).raw.toNat % 2 ^ 15 =
      command.toNat % 2 ^ 7 * 0x100 + group.toNat := by
  rw [response, toNat_or_mod _ _ (shiftLeft_mod _ (by decide)), toNat_or_mod _ _ (by decide),
    request_mod]

/-- A response answers the requests of its group and command, whatever stands in the bits that
neither looks at. -/
theorem response_answers (group command result reserved group' command' : UInt8) (extra : UInt16) :
    (Header.mk ((response group command result).raw ||| reserved.toUInt32 <<< 16)).answers
        ⟨(request group' command').raw ||| extra.toUInt32 <<< 16⟩ = true ↔
      group = group' ∧ command.toNat % 2 ^ 7 = command'.toNat % 2 ^ 7 := by
  have bit : responseBit.toNat.testBit 15 = true := by decide
  have marked :
      ((response group command result).raw ||| reserved.toUInt32 <<< 16).toNat.testBit 15 =
        true := by
    simp only [response, UInt32.toNat_or, Nat.testBit_or, bit, Bool.or_true, Bool.true_or]
  have low := group.toNat_lt
  have low' := group'.toNat_lt
  rw [answers_iff, toNat_or_mod _ _ (shiftLeft_mod _ (by decide)),
    toNat_or_mod _ _ (shiftLeft_mod _ (by decide)), response_mod, request_mod, ← UInt8.toNat_inj,
    and_iff_right marked]
  omega

theorem unmarked_answers_nothing (header request : Header)
    (unmarked : header.raw.toNat.testBit 15 = false) : header.answers request = false := by
  rw [Bool.eq_false_iff]
  intro answers
  have marked := ((answers_iff header request).mp answers).1
  rw [unmarked] at marked
  cases marked

end Mkhi.Header

/-- A framing header is made just if its length has nine bits, and then shows what it was made from;
what any word shows as a header makes that word again, less the bits of no field. The headers that
the controller packs itself are those that are made of the same fields, in every frame of every
message. And a command header answers another just if it is a response and both have one group and
one command of seven bits, whatever the other bits are. -/
theorem header_codecs_agree :
    (∀ (controller host : UInt8) (length : Nat) (complete : Bool),
      if length ≤ 0x1FF then
        ∃ header, Frame.Header.make? controller host length complete = .ok header ∧
          header.Shows controller host length complete
      else Frame.Header.make? controller host length complete = .error (.longFrame length)) ∧
    (∀ header : Frame.Header,
      Frame.Header.make? header.controllerAddress header.hostAddress header.length
        header.complete = .ok ⟨header.raw &&& 0x81FFFFFF⟩) ∧
    (∀ (depth : Nat) (message : Message) (client host : UInt8),
      Controller.Packed client host (max (Frame.payloadLimit depth) 4) message.bytes
        (Controller.framesOf depth message client host)) ∧
    (∀ (group command result reserved group' command' : UInt8) (extra : UInt16),
      (Mkhi.Header.mk ((Mkhi.Header.response group command result).raw |||
            reserved.toUInt32 <<< 16)).answers
          ⟨(Mkhi.Header.request group' command').raw ||| extra.toUInt32 <<< 16⟩ = true ↔
        group = group' ∧ command.toNat % 2 ^ 7 = command'.toNat % 2 ^ 7) ∧
    (∀ header request : Mkhi.Header, header.raw.toNat.testBit 15 = false →
      header.answers request = false) := by
  refine ⟨Frame.Header.make?_eq, fun header => ?_, Controller.framesOf_packed,
    Mkhi.Header.response_answers, Mkhi.Header.unmarked_answers_nothing⟩
  have fits := header.length_le_maxLength
  exact Frame.Header.make?_eq_ok.mpr ⟨fits, header.ofFields_of_fields.symm⟩

theorem last_of_three_headers_is_made :
    let bytes : List UInt8 := List.replicate 1021 0xFF
    let frames := Controller.framesOf 255 (.ofBytes bytes) 0x07 0x20
    (2 < frames.length ∧ (0x000002FF : UInt32).toNat.testBit 15 = false) ∧
    (∃ header, Frame.Header.make? 0x07 0x20 5 true = .ok header ∧
      frames[2]? = some [header.raw, 0xFFFFFFFF, 0x000000FF]) ∧
    (Mkhi.Header.mk 0x000002FF).answers (.request 0xFF 0x02) = false := by
  intro bytes frames
  obtain ⟨-, -, packed, -, unanswered⟩ := header_codecs_agree
  have count : frames.length = 3 := by decide +kernel
  have inside : 2 < frames.length := by omega
  have unmarked : (0x000002FF : UInt32).toNat.testBit 15 = false := by decide
  have chunk : ((Message.ofBytes bytes).bytes.drop (2 * max (Frame.payloadLimit 255) 4)).take
      (max (Frame.payloadLimit 255) 4) = List.replicate 5 0xFF := by decide +kernel
  obtain ⟨-, header, made, there⟩ := (packed 255 (.ofBytes bytes) 0x07 0x20).frame 2 inside
  rw [chunk] at made there
  rw [show (Controller.framesOf 255 (.ofBytes bytes) 0x07 0x20).length = 3 from count] at made
  exact ⟨⟨inside, unmarked⟩, ⟨header, made, there⟩, unanswered _ _ unmarked⟩

end HeciMailbox
