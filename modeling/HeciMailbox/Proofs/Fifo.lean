import HeciMailbox.Proofs.Rings

/-! A ring whose depth divides 256 is a queue of words.

The cursors then name the same slot before and after they wrap, so a word written at the end stays
where it is until it is read. -/

set_option autoImplicit false

namespace HeciMailbox

theorem dvd_of_isPowerOfTwo {depth : UInt8} (is : depth.toNat.isPowerOfTwo) :
    depth.toNat ∣ 256 := by
  obtain ⟨power, is⟩ := is
  have small : power < 8 := (Nat.pow_lt_pow_iff_right (by decide)).mp (is ▸ depth.toNat_lt)
  rw [is]
  exact Nat.pow_dvd_pow 2 (Nat.le_of_lt small)

namespace Controller

namespace Ring

/-- The cursors wrap at a whole number of rounds and show no more words than there are slots. -/
structure Sound (ring : Ring) : Prop where
  divides : ring.slots.size ∣ 256
  within : ring.cursors.filled.toNat ≤ ring.slots.size

def word (ring : Ring) (place : Nat) : UInt32 :=
  ring.slots.getD ((ring.read.toNat + place) % ring.slots.size) 0

variable {ring : Ring}

namespace Sound

theorem size_pos (sound : ring.Sound) : 0 < ring.slots.size :=
  Nat.pos_of_dvd_of_pos sound.divides (by decide)

theorem not_overflowed (sound : ring.Sound) : ring.cursors.overflowed = false :=
  Cursors.overflowed_eq_false.mpr (ring.toNat_cursors_depth ▸ sound.within)

theorem slot_eq (sound : ring.Sound) (place : Nat) :
    ring.cursors.slot (ring.read + UInt8.ofNat place) =
      (ring.read.toNat + place) % ring.slots.size := by
  have depth := ring.toNat_cursors_depth
  have used : ring.cursors.depth ≠ 0 := fun flat => by
    have zero := congrArg UInt8.toNat flat
    rw [depth] at zero
    exact absurd zero (Nat.ne_of_gt sound.size_pos)
  have wrapped : (ring.read + UInt8.ofNat place).toNat = (ring.read.toNat + place) % 256 := by
    rw [UInt8.toNat_add, UInt8.toNat_ofNat']
    omega
  rw [Cursors.slot, if_neg used, depth, wrapped, Nat.mod_mod_of_dvd _ sound.divides]

theorem slot_write (sound : ring.Sound) :
    ring.cursors.slot ring.write =
      (ring.read.toNat + ring.cursors.filled.toNat) % ring.slots.size := by
  rw [← sound.slot_eq]
  have stand : ring.read + UInt8.ofNat ring.cursors.filled.toNat = ring.write := by
    rw [UInt8.ofNat_toNat, UInt8.add_comm]
    exact UInt8.sub_add_cancel _ _
  rw [stand]

theorem peek?_eq (sound : ring.Sound) (place : Nat) :
    ring.peek? place =
      if place < ring.cursors.filled.toNat then some (ring.word place) else none := by
  unfold peek?
  by_cases inside : place < ring.cursors.filled.toNat
  · have bound := Nat.mod_lt (ring.read.toNat + place) sound.size_pos
    rw [dif_pos ⟨sound.not_overflowed, inside⟩, if_pos inside]
    simp [word, sound.slot_eq, Array.getD, bound]
  · rw [dif_neg (fun present => inside present.2), if_neg inside]

theorem toList_eq (sound : ring.Sound) :
    ring.toList = (List.range ring.cursors.filled.toNat).map ring.word := by
  -- No place below the filled count is left out, so the filter keeps them all.
  have upTo : ∀ count ≤ ring.cursors.filled.toNat,
      (List.range count).filterMap ring.peek? = (List.range count).map ring.word := by
    intro count
    induction count with
    | zero => simp
    | succ count ih =>
      intro inside
      rw [List.range_succ, List.filterMap_append, List.map_append, ih (by omega)]
      simp [sound.peek?_eq, show count < ring.cursors.filled.toNat by omega]
  exact upTo _ (Nat.le_refl _)

theorem length_toList (sound : ring.Sound) : ring.toList.length = ring.cursors.filled.toNat := by
  rw [sound.toList_eq, List.length_map, List.length_range]

theorem peek?_front (sound : ring.Sound) {word : UInt32} {rest : List UInt32}
    (queue : ring.toList = word :: rest) : ring.peek? 0 = some word := by
  have length := sound.length_toList
  rw [queue, List.length_cons] at length
  rw [sound.peek?_eq, if_pos (by omega)]
  have front := sound.toList_eq
  rw [queue, show ring.cursors.filled.toNat = ring.cursors.filled.toNat - 1 + 1 by omega,
    List.range_succ_eq_map] at front
  simpa using (List.cons.inj front).1.symm

theorem isEmpty_eq (sound : ring.Sound) : ring.cursors.isEmpty = ring.toList.isEmpty := by
  rw [Bool.eq_iff_iff, Cursors.isEmpty, beq_iff_eq, List.isEmpty_iff, ← List.length_eq_zero_iff,
    sound.length_toList, ← UInt8.toNat_inj]
  rfl

theorem room_eq (sound : ring.Sound) : ring.room = ring.slots.size - ring.toList.length := by
  rw [Ring.room_eq, sound.length_toList]

/-- Where there is room, a word joins the end of the queue. -/
theorem push? (sound : ring.Sound) (room : ring.toList.length < ring.slots.size) (word : UInt32) :
    ∃ next, ring.push? word = some next ∧ next.Sound ∧ next.toList = ring.toList ++ [word] ∧
      next.slots.size = ring.slots.size := by
  have roomy : 0 < ring.room := by
    rw [sound.room_eq]
    omega
  rw [sound.length_toList] at room
  obtain ⟨next, pushed, moved, slots⟩ := push?_of_room roomy word
  have filled := Cursors.toNat_filled_advanceWrite (filled_lt_of_room roomy)
  have size : next.slots.size = ring.slots.size := by
    rw [← Array.length_toList, slots, List.length_set, Array.length_toList]
  have read : next.read = ring.read := congrArg Cursors.read moved
  have sound' : next.Sound := ⟨size ▸ sound.divides, by rw [moved, filled, size]; exact room⟩
  -- The slots between the cursors are all different, so only the new word is in the one written.
  have words : ∀ place ≤ ring.cursors.filled.toNat,
      next.word place = if place = ring.cursors.filled.toNat then word else ring.word place := by
    intro place inside
    have here := Nat.mod_lt (ring.read.toNat + place) sound.size_pos
    rw [Ring.word, Ring.word, size, read, Array.getD_eq_getD_getElem?, Array.getD_eq_getD_getElem?,
      ← Array.getElem?_toList, ← Array.getElem?_toList, slots, sound.slot_write]
    by_cases last : place = ring.cursors.filled.toNat
    · subst last
      simp [here]
    · have apart : (ring.read.toNat + ring.cursors.filled.toNat) % ring.slots.size ≠
          (ring.read.toNat + place) % ring.slots.size := by
        intro same
        have multiple := Nat.sub_mod_eq_zero_of_mod_eq same
        rw [Nat.mod_eq_of_lt (by omega)] at multiple
        omega
      rw [List.getElem?_set_ne apart, if_neg last]
  refine ⟨next, pushed, sound', ?_, size⟩
  rw [sound.toList_eq, sound'.toList_eq, moved, filled, List.range_succ, List.map_append]
  congr 1
  · refine List.map_congr_left fun place member => ?_
    have inside := List.mem_range.mp member
    rw [words place (Nat.le_of_lt inside), if_neg (Nat.ne_of_lt inside)]
  · simp [words]

theorem pop? (sound : ring.Sound) {word : UInt32} {rest : List UInt32}
    (front : ring.toList = word :: rest) :
    ∃ next, ring.pop? = some (word, next) ∧ next.Sound ∧ next.toList = rest ∧
      next.slots.size = ring.slots.size := by
  have length := sound.length_toList
  rw [front, List.length_cons] at length
  have nonempty : 0 < ring.cursors.filled.toNat := by omega
  have filled := Cursors.toNat_filled_advanceRead nonempty
  let next : Ring := { ring with read := (ring.cursors.advanceRead 1).read }
  have moved : next.cursors = ring.cursors.advanceRead 1 := rfl
  have sound' : next.Sound := ⟨sound.divides, by
    rw [moved, filled]; exact Nat.le_trans (Nat.sub_le _ _) sound.within⟩
  -- Taking a word moves the read cursor one on, so every other word is one place nearer to it, also
  -- where the cursor wraps.
  have shifted : ∀ place, next.word place = ring.word (place + 1) := by
    intro place
    have read : next.read.toNat = (ring.read.toNat + 1) % 256 := by
      simp [next, Cursors.advanceRead, cursors, UInt8.toNat_add]
    have slot : (next.read.toNat + place) % next.slots.size =
        (ring.read.toNat + (place + 1)) % ring.slots.size := by
      have size : next.slots.size = ring.slots.size := rfl
      rw [read, size, Nat.add_mod, Nat.mod_mod_of_dvd _ sound.divides, ← Nat.add_mod]
      congr 1
      omega
    rw [Ring.word, slot, Ring.word]
  have split : ring.toList = ring.word 0 :: next.toList := by
    rw [sound.toList_eq, sound'.toList_eq, moved, filled,
      show ring.cursors.filled.toNat = ring.cursors.filled.toNat - 1 + 1 by omega,
      List.range_succ_eq_map]
    simp [shifted]
  obtain ⟨rfl, rfl⟩ : word = ring.word 0 ∧ rest = next.toList := by
    simpa [front] using split
  refine ⟨next, ?_, sound', rfl, rfl⟩
  simp [Ring.pop?, sound.peek?_eq, nonempty, next]

theorem of_pop? (sound : ring.Sound) {word : UInt32} {next : Ring}
    (popped : ring.pop? = some (word, next)) :
    next.Sound ∧ ring.toList = word :: next.toList ∧ next.slots.size = ring.slots.size := by
  obtain ⟨-, nonempty⟩ := filled_of_peek? (pop?_eq_some popped).1
  rw [← sound.length_toList] at nonempty
  obtain ⟨oldest, rest, queue⟩ := List.exists_cons_of_length_pos nonempty
  obtain ⟨_, again, sound', rfl, size⟩ := sound.pop? queue
  cases again.symm.trans popped
  exact ⟨sound', queue, size⟩

theorem popMany (sound : ring.Sound) {front rest : List UInt32}
    (queue : ring.toList = front ++ rest) :
    ∃ next, Ring.popMany front.length ring = (front, next) ∧ next.Sound ∧ next.toList = rest ∧
      next.slots.size = ring.slots.size := by
  induction front generalizing ring with
  | nil => exact ⟨ring, rfl, sound, queue, rfl⟩
  | cons word front ih =>
    obtain ⟨middle, popped, sound', queue', size⟩ := sound.pop? queue
    obtain ⟨next, others, sound'', queue'', size'⟩ := ih sound' queue'
    refine ⟨next, ?_, sound'', queue'', size'.trans size⟩
    simp only [List.length_cons, Ring.popMany, popped, others]

theorem pushAll (sound : ring.Sound) {words : List UInt32}
    (room : ring.toList.length + words.length ≤ ring.slots.size) :
    (ring.pushAll words).Sound ∧ (ring.pushAll words).toList = ring.toList ++ words ∧
      (ring.pushAll words).slots.size = ring.slots.size := by
  induction words generalizing ring with
  | nil => exact ⟨sound, by simp [Ring.pushAll], rfl⟩
  | cons word rest ih =>
    rw [List.length_cons] at room
    obtain ⟨middle, pushed, sound', queue, size⟩ := sound.push? (by omega) word
    have step : ring.pushAll (word :: rest) = middle.pushAll rest := by
      simp [Ring.pushAll, pushed]
    have next := ih sound' (by rw [queue, size, List.length_append, List.length_singleton]; omega)
    rw [step, next.2.1, next.2.2, queue, size]
    exact ⟨next.1, by simp, rfl⟩

end Sound

theorem sound_ofDepth {depth : UInt8} (divides : depth.toNat ∣ 256) : (ofDepth depth).Sound where
  divides := by simpa [ofDepth] using divides
  within := by simp [ofDepth, cursors, Cursors.filled]

theorem sound_of_power (power : ring.slots.size.isPowerOfTwo)
    (within : ring.cursors.filled.toNat ≤ ring.slots.size) : ring.Sound where
  divides := ring.toNat_depth ▸ dvd_of_isPowerOfTwo (ring.toNat_depth.symm ▸ power)
  within := within

theorem sound_of_isEmpty (power : ring.slots.size.isPowerOfTwo)
    (empty : ring.cursors.isEmpty = true) : ring.Sound ∧ ring.toList = [] := by
  have zero : ring.cursors.filled.toNat = 0 := by
    simpa [Cursors.isEmpty, ← UInt8.toNat_inj] using empty
  have sound := sound_of_power power (zero ▸ Nat.zero_le _)
  exact ⟨sound, List.isEmpty_iff.mp (sound.isEmpty_eq.symm.trans empty)⟩

theorem toList_ofDepth (depth : UInt8) : (ofDepth depth).toList = [] := by
  simp [toList, ofDepth, cursors, Cursors.filled]

end Ring

/-- The frames that go into a ring are the first ones, and the next does not fit. -/
theorem placeFrames_spec {ring : Ring} (sound : ring.Sound) (frames : List (List UInt32)) :
    ∃ taken left next placed, placeFrames frames ring = (left, next, placed) ∧
      frames = taken ++ left ∧ next.Sound ∧ next.toList = ring.toList ++ taken.flatten ∧
      next.slots.size = ring.slots.size ∧
      ∀ frame rest, left = frame :: rest → next.slots.size < next.toList.length + frame.length := by
  -- By the frames. The first that does not fit ends the loop, even if a later one would.
  induction frames generalizing ring with
  | nil => exact ⟨[], [], ring, false, rfl, rfl, sound, by simp, rfl, by simp⟩
  | cons frame rest ih =>
    have within := sound.within
    rw [← sound.length_toList] at within
    unfold placeFrames
    rw [sound.room_eq]
    by_cases fits : frame.length ≤ ring.slots.size - ring.toList.length
    · have room : ring.toList.length + frame.length ≤ ring.slots.size := by omega
      obtain ⟨sound', queue, size⟩ := sound.pushAll room
      obtain ⟨taken, left, next, placed, others, shape, sound'', queue', size', full⟩ := ih sound'
      refine ⟨frame :: taken, left, next, true, ?_, by rw [shape]; rfl, sound'', ?_,
        size'.trans size, full⟩
      · rw [if_pos fits, others]
      · rw [queue', queue]
        simp
    · refine ⟨[], frame :: rest, ring, false, by rw [if_neg fits], rfl, sound, by simp, rfl, ?_⟩
      rintro _ _ ⟨rfl, rfl⟩
      omega

theorem takeFrame?_spec {ring : Ring} (sound : ring.Sound) {header : Frame.Header}
    {payload rest : List UInt32} (queue : ring.toList = header.raw :: (payload ++ rest))
    (counted : payload.length = header.words) :
    ∃ next, takeFrame? ring = some (header, (Bytes.unpack payload).take header.length, next) ∧
      next.Sound ∧ next.toList = rest ∧ next.slots.size = ring.slots.size := by
  have length := sound.length_toList
  rw [queue, List.length_cons, List.length_append] at length
  have first := sound.peek?_front queue
  have here : ring.toList = (header.raw :: payload) ++ rest := by rw [queue]; rfl
  obtain ⟨next, popped, sound', queue', size⟩ := sound.popMany here
  rw [List.length_cons, counted] at popped
  refine ⟨next, ?_, sound', queue', size⟩
  unfold takeFrame?
  simp only [first]
  rw [if_neg (show ¬ring.cursors.filled.toNat < header.words + 1 by omega)]
  simp only [popped, List.tail_cons]

theorem takeFrame?_nil {ring : Ring} (sound : ring.Sound) (queue : ring.toList = []) :
    takeFrame? ring = none := by
  have length := sound.length_toList
  rw [queue, List.length_nil] at length
  simp [takeFrame?, sound.peek?_eq, ← length]

/-- A frame that is not there as a whole stays where it is. -/
theorem takeFrame?_of_short {ring : Ring} (sound : ring.Sound) {header : Frame.Header}
    {payload rest coming : List UInt32}
    (queue : ring.toList ++ coming = header.raw :: (payload ++ rest))
    (short : ring.toList.length ≤ header.words) : takeFrame? ring = none := by
  cases there : ring.toList with
  | nil => exact takeFrame?_nil sound there
  | cons word others =>
    obtain rfl : word = header.raw := by
      rw [there, List.cons_append] at queue
      exact (List.cons.inj queue).1
    rw [sound.length_toList] at short
    unfold takeFrame?
    simp only [sound.peek?_front there]
    rw [if_pos (show ring.cursors.filled.toNat < header.words + 1 by omega)]

end Controller

end HeciMailbox
