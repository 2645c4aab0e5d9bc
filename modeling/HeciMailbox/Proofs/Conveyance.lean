import HeciMailbox.Controller.Basic
import HeciMailbox.Proofs.Segments

/-! Frames that convey a message.

The frames that either side cuts a message into carry its bytes, whatever size they are cut to, and
only the last is marked as such. -/

set_option autoImplicit false

namespace HeciMailbox

namespace Frame

/-- These are the frames of one message, and these its bytes. -/
inductive Conveys : List Segment → List UInt8 → Prop where
  | last {segment : Segment} : segment.payload.length = segment.header.words →
    segment.header.complete = true → Conveys [segment] segment.content
  | next {segment : Segment} {rest : List Segment} {bytes : List UInt8} :
    segment.payload.length = segment.header.words → segment.header.complete = false →
    Conveys rest bytes → Conveys (segment :: rest) (segment.content ++ bytes)

theorem Conveys.ne_nil {segments : List Segment} {bytes : List UInt8}
    (conveys : Conveys segments bytes) : segments ≠ [] := by
  cases conveys <;> simp

theorem Conveys.counted {segments : List Segment} {bytes : List UInt8}
    (conveys : Conveys segments bytes) :
    ∀ segment ∈ segments, segment.payload.length = segment.header.words := by
  induction conveys with
  | last counted _ => exact List.forall_mem_singleton.mpr counted
  | next counted _ _ ih => exact List.forall_mem_cons.mpr ⟨counted, ih⟩

theorem Conveys.content {segments : List Segment} {bytes : List UInt8}
    (conveys : Conveys segments bytes) : segments.flatMap Segment.content = bytes := by
  induction conveys with
  | last => simp
  | next _ _ _ ih => rw [List.flatMap_cons, ih]

theorem Fragment.cut_fits {limit : Nat} (whole : 4 ∣ limit) (positive : 0 < limit) (count : Nat)
    {words : List UInt32} {length : Nat} (counted : words.length = (length + 3) / 4)
    (enough : count = (length + limit - 1) / limit) :
    ∀ fragment ∈ cut limit count words length,
      fragment.length ≤ limit ∧ fragment.words.length = (fragment.length + 3) / 4 := by
  induction count generalizing words length with
  | zero => exact List.forall_mem_nil _
  | succ count ih =>
    cases count with
    | zero =>
      have high : length + limit - 1 < 2 * limit := (Nat.div_lt_iff_lt_mul positive).mp (by omega)
      exact List.forall_mem_singleton.mpr ⟨by simp only; omega, counted⟩
    | succ count =>
      obtain ⟨long, rest⟩ := count_pred positive enough
      obtain ⟨slots, rfl⟩ := whole
      refine List.forall_mem_cons.mpr ⟨⟨Nat.le_refl _, ?_⟩, ih ?_ rest⟩
      · simp only [List.length_take, counted]
        omega
      · rw [List.length_drop, counted]
        omega

theorem Fragment.ofMessage_fits {limit : Nat} (whole : 4 ∣ limit) (positive : 0 < limit)
    (message : Message) :
    ∀ fragment ∈ ofMessage limit message,
      fragment.length ≤ limit ∧ fragment.words.length = (fragment.length + 3) / 4 := by
  refine cut_fits whole positive _ ?_ rfl
  rw [← message.pack_bytes, Bytes.length_pack, message.length_bytes]

section

variable (route : Route) {limit : Nat} (bytes : List UInt8)

/-- No frame is empty, so there are no more frames than bytes. -/
theorem length_segments_le (positive : 0 < limit) :
    (segments route limit bytes).length ≤ bytes.length := by
  rw [segments, List.length_map, List.length_range]
  refine Nat.le_of_lt_succ ((Nat.div_lt_iff_lt_mul positive).mpr ?_)
  have scaled : bytes.length ≤ bytes.length * limit := Nat.le_mul_of_pos_right _ positive
  rw [Nat.succ_mul]
  omega

theorem segment_zero : segment route limit bytes 0 =
    ⟨.ofFields route.controller route.host (bytes.take limit).length
        (decide (bytes.length ≤ limit)), Bytes.pack (bytes.take limit)⟩ := by
  simp [segment]

theorem segments_of_short (nonempty : 0 < bytes.length) (short : bytes.length ≤ limit) :
    segments route limit bytes = [segment route limit bytes 0] := by
  have count : (bytes.length + limit - 1) / limit = 1 :=
    Nat.div_eq_of_lt_le (by omega) (by omega)
  rw [segments, count]
  rfl

theorem segments_of_long (positive : 0 < limit) (long : limit < bytes.length) :
    segments route limit bytes =
      segment route limit bytes 0 :: segments route limit (bytes.drop limit) := by
  have count : (bytes.length + limit - 1) / limit =
      ((bytes.drop limit).length + limit - 1) / limit + 1 := by
    rw [← Nat.add_div_right _ positive, List.length_drop]
    congr 1
    omega
  rw [segments, count, List.range_succ_eq_map, List.map_cons, List.map_map, segments]
  simp [Function.comp_def, segment_succ]

theorem length_chunk_le (fits : limit ≤ maxLength) : (bytes.take limit).length ≤ maxLength := by
  rw [List.length_take]
  omega

/-- A frame carries its chunk of the byte string. -/
theorem content_segment (index : Nat) (fits : limit ≤ maxLength) :
    (segment route limit bytes index).content = (bytes.drop (index * limit)).take limit := by
  have length := length_chunk_le (bytes.drop (index * limit)) fits
  rw [segment, Segment.content, Header.length_ofFields _ _ _ length]
  exact Bytes.take_unpack_pack _

theorem content_segment_zero (fits : limit ≤ maxLength) :
    (segment route limit bytes 0).content = bytes.take limit := by
  rw [content_segment route bytes 0 fits, Nat.zero_mul, List.drop_zero]

theorem counted_segment_zero (fits : limit ≤ maxLength) :
    (segment route limit bytes 0).payload.length = (segment route limit bytes 0).header.words := by
  have length := length_chunk_le bytes fits
  rw [segment_zero, Header.words, Header.length_ofFields _ _ _ length, Bytes.length_pack]

theorem complete_segment_zero (fits : limit ≤ maxLength) :
    (segment route limit bytes 0).header.complete = decide (bytes.length ≤ limit) := by
  have length := length_chunk_le bytes fits
  rw [segment_zero, Header.complete_ofFields _ _ _ length]

variable {bytes}

theorem segments_convey (positive : 0 < limit) (fits : limit ≤ maxLength)
    (nonempty : 0 < bytes.length) :
    Conveys (segments route limit bytes) bytes := by
  -- By the length of what remains, which the first frame makes shorter because the limit is
  -- positive.
  induction length : bytes.length using Nat.strongRecOn generalizing bytes with
  | ind length ih =>
    subst length
    have counted := counted_segment_zero route bytes fits
    have content := content_segment_zero route bytes fits
    have complete := complete_segment_zero route bytes fits
    by_cases short : bytes.length ≤ limit
    · rw [segments_of_short route bytes nonempty short]
      have all : (segment route limit bytes 0).content = bytes := by
        rw [content, List.take_of_length_le short]
      have conveys := Conveys.last counted (by rw [complete, decide_eq_true short])
      rwa [all] at conveys
    · have long : limit < bytes.length := Nat.lt_of_not_le short
      have shorter : (bytes.drop limit).length < bytes.length := by
        rw [List.length_drop]
        omega
      have rest := ih _ shorter (by rw [List.length_drop]; omega) rfl
      rw [segments_of_long route bytes positive long]
      have all : (segment route limit bytes 0).content ++ bytes.drop limit = bytes := by
        rw [content, List.take_append_drop]
      have conveys := Conveys.next counted (by rw [complete, decide_eq_false short]) rest
      rwa [all] at conveys

/-- A frame takes one slot more than the words of its chunk. -/
theorem length_words_le (whole : 4 ∣ limit) {segment : Segment}
    (member : segment ∈ segments route limit bytes) : 4 * segment.words.length ≤ limit + 4 := by
  obtain ⟨index, -, rfl⟩ := List.mem_map.mp member
  obtain ⟨words, rfl⟩ := whole
  simp only [Frame.segment, Segment.words, List.length_cons, Bytes.length_pack, List.length_take]
  omega

end

theorem take_segments (route : Route) {limit : Nat} (positive : 0 < limit)
    (fits : limit ≤ maxLength) {bytes : List UInt8} {count : Nat}
    (short : count < (segments route limit bytes).length) :
    (∀ frame ∈ (segments route limit bytes).take count, frame.header.complete = false) ∧
      ((segments route limit bytes).take count).flatMap Segment.content =
        bytes.take (count * limit) ∧
      count * limit < bytes.length := by
  induction count generalizing bytes with
  | zero =>
    have bound := length_segments_le route bytes positive
    exact ⟨by simp, by simp, by omega⟩
  | succ count ih =>
    have long : limit < bytes.length := by
      have bound := length_segments_le route bytes positive
      refine Nat.lt_of_not_le fun small => ?_
      rw [segments_of_short route bytes (by omega) small, List.length_singleton] at short
      omega
    have first := content_segment_zero route bytes fits
    have unended := complete_segment_zero route bytes fits
    rw [decide_eq_false (Nat.not_le.mpr long)] at unended
    rw [segments_of_long route bytes positive long] at short ⊢
    obtain ⟨others, content, within⟩ := ih (Nat.lt_of_succ_lt_succ short)
    rw [List.length_drop] at within
    have next : (count + 1) * limit = limit + count * limit := by
      rw [Nat.succ_mul, Nat.add_comm]
    refine ⟨?_, ?_, by omega⟩
    · rw [List.take_succ_cons]
      exact List.forall_mem_cons.mpr ⟨unended, others⟩
    · rw [List.take_succ_cons, List.flatMap_cons, first, content, next, List.take_add]

theorem segments_zero (route : Route) (bytes : List UInt8) : segments route 0 bytes = [] := by
  simp [segments]

theorem counted_segments (route : Route) {limit : Nat} (fits : limit ≤ maxLength)
    (bytes : List UInt8) :
    ∀ frame ∈ segments route limit bytes, frame.payload.length = frame.header.words := by
  intro frame member
  obtain rfl | positive := Nat.eq_zero_or_pos limit
  · simp [segments_zero] at member
  · have bound := length_segments_le route bytes positive
    have nonempty := List.length_pos_of_mem member
    exact (segments_convey route positive fits (by omega)).counted frame member

theorem content_ne_nil (route : Route) {limit : Nat} (fits : limit ≤ maxLength)
    {bytes : List UInt8} {frame : Segment} (member : frame ∈ segments route limit bytes) :
    frame.content ≠ [] := by
  obtain ⟨index, within, rfl⟩ := List.mem_map.mp member
  have positive : 0 < limit := by
    refine Nat.pos_of_ne_zero fun zero => ?_
    rw [zero, segments_zero] at member
    cases member
  have start : index * limit < bytes.length := by
    have whole := (Nat.le_div_iff_mul_le positive).mp (List.mem_range.mp within)
    rw [Nat.succ_mul] at whole
    omega
  rw [content_segment route bytes index fits]
  intro empty
  have counted := congrArg List.length empty
  rw [List.length_take, List.length_drop, List.length_nil] at counted
  omega

end Frame

namespace Controller

theorem frame_eq (client host : UInt8) (chunk : List UInt8) (last : Bool) :
    frame client host chunk last =
      (Frame.Header.ofFields client host chunk.length last).raw :: Bytes.pack chunk := by
  cases last <;> rfl

theorem framesOfChunks_eq (client host : UInt8) {limit : Nat} (positive : 0 < limit) (count : Nat)
    (bytes : List UInt8) (enough : count = (bytes.length + limit - 1) / limit) :
    framesOfChunks client host (chunks limit count bytes) =
      ((List.range count).map (Frame.segment ⟨host, client⟩ limit bytes)).map
        Frame.Segment.words := by
  -- The simulated controller counts its chunks beforehand; the count is that of the frames at each
  -- step, and marks the last.
  induction count generalizing bytes with
  | zero => rfl
  | succ count ih =>
    have first : ∀ last, last = decide (bytes.length ≤ limit) →
        frame client host (bytes.take limit) last =
          (Frame.segment ⟨host, client⟩ limit bytes 0).words := by
      rintro _ rfl
      rw [frame_eq, Frame.segment_zero, Frame.Segment.words]
    cases count with
    | zero =>
      have short : bytes.length ≤ limit := by
        have high : bytes.length + limit - 1 < 2 * limit :=
          (Nat.div_lt_iff_lt_mul positive).mp (by omega)
        omega
      exact congrArg (· :: []) (first true (decide_eq_true short).symm)
    | succ count =>
      obtain ⟨long, rest⟩ := Frame.count_pred positive enough
      have others := ih (bytes.drop limit) (by rw [List.length_drop]; exact rest)
      rw [List.range_succ_eq_map, List.map_cons, List.map_cons,
        ← first false (decide_eq_false (Nat.not_le.mpr long)).symm]
      have shape : framesOfChunks client host (chunks limit (count + 1 + 1) bytes) =
          frame client host (bytes.take limit) false ::
            framesOfChunks client host (chunks limit (count + 1) (bytes.drop limit)) := rfl
      rw [shape, others]
      simp [Function.comp_def, Frame.segment_succ]

theorem framesOf_eq (depth : Nat) (message : Message) (client host : UInt8) :
    framesOf depth message client host =
      (Frame.segments ⟨host, client⟩ (max (Frame.payloadLimit depth) 4) message.bytes).map
        Frame.Segment.words := by
  have positive : 0 < max (Frame.payloadLimit depth) 4 := by omega
  unfold framesOf Frame.segments
  rw [← message.length_bytes]
  exact framesOfChunks_eq client host positive _ message.bytes rfl

end Controller

end HeciMailbox
