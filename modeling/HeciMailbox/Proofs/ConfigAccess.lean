import HeciMailbox.Pci.Memory

/-! What operations on a configuration space read and write.

`Does` says of an operation all that its callers need: its answer, the writes it makes and the space
behind them. An access to half a word is a matter of that half only, which the laws of `halfOf` and
`withHalf` say. -/

set_option autoImplicit false

namespace HeciMailbox.Pci

variable {π α β : Type}

def Entry.write? : Entry → Option (Address × UInt16 × UInt32)
  | .write address offset value => some (address, offset, value)
  | _ => none

def World.writes (world : World π) : List (Address × UInt16 × UInt32) :=
  world.trace.toList.filterMap Entry.write?

theorem World.writes_push (before after : π) (trace : Array Entry) (entry : Entry) :
    writes ⟨after, trace.push entry⟩ = writes ⟨before, trace⟩ ++ entry.write?.toList := by
  rw [writes, writes, Array.toList_push, List.filterMap_append]
  cases entry <;> rfl

namespace Op

/-- From `before`, the operation gives `answer`, makes `writes` and leaves `after`. -/
structure Does (op : Op π α) (before : π) (answer : α) (writes : List (Address × UInt16 × UInt32))
    (after : π) : Prop where
  answer (world : World π) : world.space = before → (op.run world).1 = answer
  space (world : World π) : world.space = before → (op.run world).2.space = after
  writes (world : World π) : world.space = before → (op.run world).2.writes = world.writes ++ writes

namespace Does

variable {before middle after : π} {answer : α} {outcome : β}
  {writes more : List (Address × UInt16 × UInt32)}

theorem pure (before : π) (answer : α) : Does (Pure.pure answer) before answer [] before :=
  ⟨fun _ _ => rfl, fun _ same => same, fun _ _ => (List.append_nil _).symm⟩

theorem bind {op : Op π α} {next : α → Op π β} (first : op.Does before answer writes middle)
    (second : (next answer).Does middle outcome more after) :
    (op >>= next).Does before outcome (writes ++ more) after := by
  have step : ∀ world : World π, world.space = before →
      (op >>= next).run world = (next answer).run (op.run world).2 := fun world same => by
    rw [← first.answer world same]
    rfl
  refine ⟨fun world same => ?_, fun world same => ?_, fun world same => ?_⟩
  · rw [step world same, second.answer _ (first.space world same)]
  · rw [step world same, second.space _ (first.space world same)]
  · rw [step world same, second.writes _ (first.space world same), first.writes world same,
      List.append_assoc]

theorem look {op : Op π α} {next : α → Op π β} (first : op.Does before answer [] before)
    (second : (next answer).Does before outcome more after) :
    (op >>= next).Does before outcome more after :=
  first.bind second

theorem remark (before : π) (said : Remark) : (Op.remark said).Does before () [] before :=
  ⟨fun _ _ => rfl, fun _ same => same, fun world _ =>
    World.writes_push world.space world.space world.trace (.remark said)⟩

variable [ConfigSpace π]

theorem read32 (before : π) (address : Address) (offset : UInt16) :
    (Op.read32 address offset).Does before (ConfigSpace.read before address offset) [] before := by
  refine ⟨?_, fun _ same => same, fun world _ => ?_⟩
  · rintro world rfl
    rfl
  · exact World.writes_push world.space world.space world.trace _

theorem write32 (before : π) (address : Address) (offset : UInt16) (value : UInt32) :
    (Op.write32 address offset value).Does before () [(address, offset, value)]
      (ConfigSpace.write before address offset value) := by
  refine ⟨fun _ _ => rfl, ?_, fun world _ => ?_⟩
  · rintro world rfl
    rfl
  · exact World.writes_push world.space _ world.trace (.write address offset value)

theorem read16 (before : π) (address : Address) (offset : UInt16) :
    (Op.read16 address offset).Does before
      (halfOf (ConfigSpace.read before address (aligned offset)) offset) [] before :=
  (read32 before address _).look (pure before _)

theorem read8 (before : π) (address : Address) (offset : UInt16) :
    (Op.read8 address offset).Does before
      (byteOf (ConfigSpace.read before address (aligned offset)) offset) [] before :=
  (read32 before address _).look (pure before _)

theorem write16 (before : π) (address : Address) (offset value : UInt16) :
    let word := withHalf (ConfigSpace.read before address (aligned offset)) offset value
    (Op.write16 address offset value).Does before () [(address, aligned offset, word)]
      (ConfigSpace.write before address (aligned offset) word) :=
  (read32 before address _).look (write32 before address _ _)

end Does

end Op

/-! ### Half words -/

theorem and_or_distrib (a b c : UInt32) : a &&& (b ||| c) = a &&& b ||| a &&& c :=
  UInt32.toBitVec_inj.mp (by simp [BitVec.and_or_distrib_left])

theorem toUInt32_half (word : UInt32) : word.toUInt16.toUInt32 = word &&& (0xFFFF : UInt32) := by
  apply UInt32.toNat_inj.mp
  rw [UInt16.toNat_toUInt32, UInt32.toNat_toUInt16, UInt32.toNat_and,
    show (0xFFFF : UInt32).toNat = 2 ^ 16 - 1 from rfl, Nat.and_two_pow_sub_one_eq_mod]

theorem halves (word : UInt32) :
    word &&& (0xFFFF0000 : UInt32) ||| word &&& (0xFFFF : UInt32) = word := by
  rw [← and_or_distrib]
  exact UInt32.toBitVec_inj.mp BitVec.and_allOnes

section

variable {offset : UInt16} (even : offset &&& (2 : UInt16) = 0)

include even

theorem halfOf_even (word : UInt32) : halfOf word offset = word.toUInt16 := by
  rw [halfOf, if_pos even]

theorem withHalf_even (word : UInt32) (value : UInt16) :
    withHalf word offset value = word &&& (0xFFFF0000 : UInt32) ||| value.toUInt32 := by
  rw [withHalf, if_pos even]

theorem halfOf_withHalf (word : UInt32) (value : UInt16) :
    halfOf (withHalf word offset value) offset = value := by
  rw [halfOf_even even, withHalf_even even, UInt32.toUInt16_or, UInt32.toUInt16_and,
    show (0xFFFF0000 : UInt32).toUInt16 = 0 from rfl, UInt16.and_zero, UInt16.zero_or,
    UInt16.toUInt16_toUInt32]

theorem withHalf_halfOf (word : UInt32) : withHalf word offset (halfOf word offset) = word := by
  rw [halfOf_even even, withHalf_even even, toUInt32_half, halves]

/-- Writing a half back changes the word just if it changes the half. -/
theorem withHalf_eq_self {word : UInt32} {value : UInt16} :
    withHalf word offset value = word ↔ value = halfOf word offset := by
  constructor
  · intro same
    rw [← halfOf_withHalf even word value, same]
  · rintro rfl
    exact withHalf_halfOf even word

theorem withHalf_or (word : UInt32) (set : UInt16) :
    withHalf word offset (halfOf word offset ||| set) = word ||| set.toUInt32 := by
  rw [halfOf_even even, withHalf_even even, UInt16.toUInt32_or, toUInt32_half, ← UInt32.or_assoc,
    halves]

theorem withHalf_and (word : UInt32) (keep : UInt16) :
    withHalf word offset (halfOf word offset &&& keep) =
      word &&& ((0xFFFF0000 : UInt32) ||| keep.toUInt32) := by
  have narrow : (0xFFFF : UInt32) &&& keep.toUInt32 = keep.toUInt32 := by
    rw [UInt32.and_comm, ← toUInt32_half, UInt16.toUInt16_toUInt32]
  rw [halfOf_even even, withHalf_even even, UInt16.toUInt32_and, toUInt32_half, UInt32.and_assoc,
    narrow, and_or_distrib]

end

theorem and_eq_zero_iff {value mask : UInt16} : value &&& mask = 0 ↔ value &&& ~~~mask = value := by
  simp only [← UInt16.toBitVec_inj, UInt16.toBitVec_and, UInt16.toBitVec_not, UInt16.toBitVec_ofNat,
    BitVec.eq_of_getLsbD_eq_iff, BitVec.getLsbD_and, BitVec.getLsbD_not, BitVec.getLsbD_zero]
  exact forall_congr' fun place => forall_congr' fun within => by
    cases value.toBitVec.getLsbD place <;> simp [within]

theorem and_eq_mask_iff {value mask : UInt16} : value &&& mask = mask ↔ value ||| mask = value := by
  simp only [← UInt16.toBitVec_inj, UInt16.toBitVec_and, UInt16.toBitVec_or,
    BitVec.eq_of_getLsbD_eq_iff, BitVec.getLsbD_and, BitVec.getLsbD_or]
  exact forall_congr' fun place => forall_congr' fun within => by
    cases value.toBitVec.getLsbD place <;> simp

end HeciMailbox.Pci
