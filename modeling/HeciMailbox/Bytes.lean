/-! Little-endian words and the byte strings they carry.

`unpack` lists the bytes of words; `pack` groups bytes by four, the last group padded with zeros.
The two are inverse up to that padding (`pack_unpack`, `take_unpack_pack`). -/

set_option autoImplicit false

namespace HeciMailbox.Bytes

/-- The word with these bytes, least significant first. -/
def word (a b c d : UInt8) : UInt32 :=
  a.toUInt32 + b.toUInt32 * 0x100 + c.toUInt32 * 0x10000 + d.toUInt32 * 0x1000000

def half (a b : UInt8) : UInt16 := a.toUInt16 + b.toUInt16 * 0x100

def ofWord (word : UInt32) : List UInt8 :=
  [word.toUInt8, (word >>> 8).toUInt8, (word >>> 16).toUInt8, (word >>> 24).toUInt8]

def ofHalf (half : UInt16) : List UInt8 := [half.toUInt8, (half >>> 8).toUInt8]

def unpack : List UInt32 → List UInt8
  | [] => []
  | w :: rest => ofWord w ++ unpack rest

def pack : List UInt8 → List UInt32
  | [] => []
  | [a] => [word a 0 0 0]
  | [a, b] => [word a b 0 0]
  | [a, b, c] => [word a b c 0]
  | a :: b :: c :: d :: rest => word a b c d :: pack rest

theorem word_ofWord (w : UInt32) :
    word w.toUInt8 (w >>> 8).toUInt8 (w >>> 16).toUInt8 (w >>> 24).toUInt8 = w := by
  apply UInt32.toNat_inj.mp
  have bound := w.toNat_lt
  simp only [word, UInt32.toNat_add, UInt32.toNat_mul, UInt8.toNat_toUInt32, UInt32.toNat_toUInt8,
    UInt32.toNat_shiftRight, UInt32.toNat_ofNat, Nat.shiftRight_eq_div_pow]
  simp only [Nat.reduceMod, Nat.reducePow] at *
  omega

theorem ofWord_word (a b c d : UInt8) : ofWord (word a b c d) = [a, b, c, d] := by
  have ha := a.toNat_lt
  have hb := b.toNat_lt
  have hc := c.toNat_lt
  have hd := d.toNat_lt
  simp only [ofWord, List.cons.injEq, and_true]
  refine ⟨?_, ?_, ?_, ?_⟩ <;> apply UInt8.toNat_inj.mp <;>
    simp only [word, UInt32.toNat_add, UInt32.toNat_mul, UInt8.toNat_toUInt32, UInt32.toNat_toUInt8,
      UInt32.toNat_shiftRight, UInt32.toNat_ofNat, Nat.shiftRight_eq_div_pow] <;>
    simp only [Nat.reduceMod, Nat.reducePow] at * <;>
    omega

@[simp] theorem length_ofWord (w : UInt32) : (ofWord w).length = 4 := rfl

@[simp] theorem length_unpack (words : List UInt32) : (unpack words).length = 4 * words.length := by
  induction words with
  | nil => rfl
  | cons w rest ih => simp [unpack, ih]; omega

theorem length_pack (bytes : List UInt8) : (pack bytes).length = (bytes.length + 3) / 4 := by
  fun_induction pack bytes with
  | case1 => rfl
  | case2 => simp
  | case3 => simp
  | case4 => simp
  | case5 a b c d rest ih => simp [ih]; omega

theorem pack_unpack (words : List UInt32) : pack (unpack words) = words := by
  induction words with
  | nil => rfl
  | cons w rest ih => simp [unpack, ofWord, pack, ih, word_ofWord]

theorem take_unpack_pack (bytes : List UInt8) :
    (unpack (pack bytes)).take bytes.length = bytes := by
  fun_induction pack bytes with
  | case1 => rfl
  | case2 a => simp [unpack, ofWord_word]
  | case3 a b => simp [unpack, ofWord_word]
  | case4 a b c => simp [unpack, ofWord_word]
  | case5 a b c d rest ih => simp [unpack, ofWord_word, ih]

end HeciMailbox.Bytes
