import HeciMailbox.Proofs.Rings

/-! Status words seen through a mask.

A write of the host status is made from what was read there, so what it does to some bits follows
from what these bits were. -/

set_option autoImplicit false

namespace HeciMailbox

namespace Csr

/-- Masks of the low byte see the flags that a status word was made from. -/
theorem compose_and (flags : UInt32) (read write depth : UInt8) {mask : UInt32}
    (low : mask.toNat < 0x100) :
    (compose flags read write depth).raw &&& mask = flags &&& mask := by
  have lowByte : ∀ value : Nat, value &&& mask.toNat = value % 2 ^ 8 &&& mask.toNat := by
    intro value
    have small : value &&& mask.toNat < 2 ^ 8 := Nat.lt_of_le_of_lt Nat.and_le_right low
    rw [← Nat.mod_eq_of_lt small, Nat.and_mod_two_pow, Nat.mod_eq_of_lt low]
  -- The cursors and the depth are multiples of 0x100 in the word, and so beyond the mask.
  apply UInt32.toNat_inj.mp
  rw [UInt32.toNat_and, UInt32.toNat_and, lowByte, lowByte flags.toNat, toNat_compose]
  congr 1
  omega

section

variable {raw flags mask : UInt32} (same : raw &&& mask = flags &&& mask)

include same

theorem or_and_of_same (set : UInt32) : (raw ||| set) &&& mask = (flags ||| set) &&& mask := by
  have bits := congrArg UInt32.toBitVec same
  simp only [UInt32.toBitVec_and] at bits
  apply UInt32.toBitVec_inj.mp
  simp only [UInt32.toBitVec_and, UInt32.toBitVec_or, BitVec.and_or_distrib_right, bits]

theorem and_and_of_same (keep : UInt32) : raw &&& keep &&& mask = flags &&& keep &&& mask := by
  rw [UInt32.and_assoc, UInt32.and_comm keep, ← UInt32.and_assoc, same, UInt32.and_assoc,
    UInt32.and_comm mask, ← UInt32.and_assoc]

/-- Ringing the doorbell commutes with looking at some bits only. -/
theorem withDoorbell_and (clearStatus : Bool) :
    (Csr.mk raw).withDoorbell clearStatus &&& mask =
      (Csr.mk flags).withDoorbell clearStatus &&& mask := by
  cases clearStatus with
  | true => exact or_and_of_same same _
  | false => exact and_and_of_same (or_and_of_same same _) _

theorem withBits_and (set clear : UInt32) :
    (Csr.mk raw).withBits set clear &&& mask = (Csr.mk flags).withBits set clear &&& mask :=
  and_and_of_same (and_and_of_same (or_and_of_same same _) _) _

end

theorem and_eq_of_and_eq {first second wide : UInt32} (narrow : UInt32)
    (same : first &&& wide = second &&& wide) (fewer : wide &&& narrow = narrow) :
    first &&& narrow = second &&& narrow := by
  rw [← fewer, ← UInt32.and_assoc, ← UInt32.and_assoc, same]

/-- No bit of the mask is set. -/
def Quiet (mask flags : UInt32) : Prop := flags &&& mask = 0

instance {mask flags : UInt32} : Decidable (Quiet mask flags) :=
  inferInstanceAs (Decidable (_ = _))

theorem Quiet.or {mask flags bits : UInt32} (quiet : Quiet mask flags) (apart : Quiet mask bits) :
    Quiet mask (flags ||| bits) := by
  unfold Quiet at *
  rw [or_and_of_same (quiet.trans UInt32.zero_and.symm), UInt32.zero_or, apart]

theorem Quiet.and {mask flags : UInt32} (quiet : Quiet mask flags) (bits : UInt32) :
    Quiet mask (flags &&& bits) := by
  unfold Quiet at *
  rw [and_and_of_same (quiet.trans UInt32.zero_and.symm), UInt32.zero_and, UInt32.zero_and]

theorem Quiet.mono {wide narrow flags : UInt32} (quiet : Quiet wide flags)
    (fewer : wide &&& narrow = narrow) : Quiet narrow flags := by
  rw [Quiet, ← fewer, ← UInt32.and_assoc, show flags &&& wide = 0 from quiet, UInt32.zero_and]

theorem Quiet.or_and {mask bits : UInt32} (quiet : Quiet mask bits) (flags : UInt32) :
    (flags ||| bits) &&& mask = flags &&& mask := by
  rw [UInt32.or_comm, or_and_of_same (quiet.trans UInt32.zero_and.symm), UInt32.zero_or]

theorem present_of_quiet {mask raw : UInt32} (quiet : Quiet mask raw)
    (marked : ¬Quiet mask absentWord) : (Csr.mk raw).absent = false := by
  cases absent : (Csr.mk raw).absent with
  | false => rfl
  | true =>
    obtain rfl : raw = absentWord := by simpa [Csr.absent] using absent
    exact absurd quiet marked

theorem quiet_of_has {mask raw : UInt32} (unset : (Csr.mk raw).has mask = false) :
    Quiet mask raw := by
  simpa [has, Quiet] using unset

theorem has_of_quiet {mask raw : UInt32} (quiet : Quiet mask raw) :
    (Csr.mk raw).has mask = false := by
  simpa [has, Quiet] using quiet

end Csr

end HeciMailbox
