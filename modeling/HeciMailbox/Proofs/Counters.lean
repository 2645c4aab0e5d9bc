import HeciMailbox.Proofs.Rings
import Mathlib.Data.List.Nodup

/-! Cursors as the low bytes of two counters that are never reset.

The counters stand for the words ever read from a ring and ever written to it, so they outgrow a
byte without bound. What is said of the cursors here is said through the counters. -/

set_option autoImplicit false

namespace HeciMailbox.Cursors

def ofCounts (read write : Nat) (depth : UInt8) : Cursors :=
  ⟨UInt8.ofNat read, UInt8.ofNat write, depth⟩

/-- The difference of the cursors as signed bytes, reread as a byte without sign. -/
theorem filled_eq_signed (cursors : Cursors) :
    cursors.filled = (cursors.write.toInt8 - cursors.read.toInt8).toUInt8 := by
  rw [Int8.toUInt8_sub, UInt8.toUInt8_toInt8, UInt8.toUInt8_toInt8]
  rfl

/-! ### The filled slots -/

section

variable {read write : Nat} (depth : UInt8) (ordered : read ≤ write) (near : write - read ≤ 255)

include ordered

theorem filled_ofCounts : (ofCounts read write depth).filled = UInt8.ofNat (write - read) := by
  apply UInt8.toNat_inj.mp
  simp only [ofCounts, filled, UInt8.toNat_sub, UInt8.toNat_ofNat']
  omega

include near

theorem toNat_filled_ofCounts : (ofCounts read write depth).filled.toNat = write - read := by
  rw [filled_ofCounts depth ordered, UInt8.toNat_ofNat']
  omega

theorem overflowed_ofCounts :
    (ofCounts read write depth).overflowed = true ↔ depth.toNat < write - read := by
  rw [overflowed_eq_true, toNat_filled_ofCounts depth ordered near]
  rfl

theorem checkOverflow_ofCounts :
    (ofCounts read write depth).checkOverflow =
      if depth.toNat < write - read then .error (.overflow (UInt8.ofNat (write - read)) depth 0)
      else .ok () := by
  simp only [checkOverflow, overflowed_ofCounts depth ordered near, overflowFault,
    filled_ofCounts depth ordered]
  rfl

theorem free?_ofCounts :
    (ofCounts read write depth).free? =
      if depth.toNat < write - read then none
      else some (UInt8.ofNat (depth.toNat - (write - read))) := by
  simp only [free?, overflowed_ofCounts depth ordered near, filled_ofCounts depth ordered]
  split
  · rfl
  · next fits =>
    congr 1
    apply UInt8.toNat_inj.mp
    have bound := depth.toNat_lt
    simp only [ofCounts, UInt8.toNat_sub, UInt8.toNat_ofNat']
    omega

theorem checkRoom_ofCounts (words : Nat) :
    (ofCounts read write depth).checkRoom words =
      if write - read + words ≤ depth.toNat then .ok ()
      else .error (.overflow (UInt8.ofNat (write - read)) depth words) := by
  have filled := toNat_filled_ofCounts depth ordered near
  split
  · next room =>
    rw [checkRoom_eq_ok, filled]
    exact room
  · next full =>
    have beyond : depth.toNat < (ofCounts read write depth).filled.toNat + words := by omega
    rw [checkRoom_eq_error beyond, overflowFault, filled_ofCounts depth ordered]
    rfl

end

theorem advanceWrite_ofCounts (read write : Nat) (depth : UInt8) (words : Nat) :
    (ofCounts read write depth).advanceWrite words = ofCounts read (write + words) depth := by
  simp only [advanceWrite, ofCounts, UInt8.ofNat_add]

theorem advanceRead_ofCounts (read write : Nat) (depth : UInt8) (words : Nat) :
    (ofCounts read write depth).advanceRead words = ofCounts (read + words) write depth := by
  simp only [advanceRead, ofCounts, UInt8.ofNat_add]

/-- A reader that has run past the writer leaves a count above every usable depth. -/
theorem overflowed_of_read_ahead {depth : UInt8} (usable : depth.toNat ≤ 128) (write : Nat)
    {ahead : Nat} (beyond : 1 ≤ ahead) (near : ahead ≤ 127) :
    (ofCounts (write + ahead) write depth).overflowed = true := by
  rw [overflowed_eq_true]
  simp only [ofCounts, filled, UInt8.toNat_sub, UInt8.toNat_ofNat']
  omega

/-! ### The slots -/

section

variable {cursors : Cursors}

theorem slot_ofNat (positive : 1 ≤ cursors.depth.toNat) (counter : Nat) :
    cursors.slot (UInt8.ofNat counter) = counter % 256 % cursors.depth.toNat := by
  have used : cursors.depth ≠ 0 := fun zero => by
    rw [zero] at positive
    exact absurd positive (by decide)
  rw [slot, if_neg used, UInt8.toNat_ofNat']

/-- The slots follow the counter through every wrap of its byte only if a wrap is a whole number of
rounds of the ring. -/
theorem slot_ofNat_eq_mod_iff (positive : 1 ≤ cursors.depth.toNat) :
    (∀ counter, cursors.slot (UInt8.ofNat counter) = counter % cursors.depth.toNat) ↔
      cursors.depth.toNat ∣ 256 := by
  constructor
  · intro follows
    have wrapped := follows 256
    rw [slot_ofNat positive, Nat.mod_self, Nat.zero_mod] at wrapped
    exact Nat.dvd_of_mod_eq_zero wrapped.symm
  · intro divides counter
    rw [slot_ofNat positive, Nat.mod_mod_of_dvd counter divides]

theorem eq_of_mod_eq {first second depth : Nat} (ordered : first ≤ second)
    (near : second - first < depth) (same : first % depth = second % depth) : first = second := by
  have whole : depth ∣ second - first :=
    Nat.dvd_of_mod_eq_zero (Nat.sub_mod_eq_zero_of_mod_eq same.symm)
  have zero := Nat.eq_zero_of_dvd_of_lt whole near
  omega

theorem nodup_slots (positive : 1 ≤ cursors.depth.toNat) (divides : cursors.depth.toNat ∣ 256)
    (first : Nat) {count : Nat} (few : count ≤ cursors.depth.toNat) :
    ((List.range' first count).map fun counter => cursors.slot (UInt8.ofNat counter)).Nodup := by
  apply List.Nodup.map_on
  · intro left leftWithin right rightWithin same
    rw [(slot_ofNat_eq_mod_iff positive).mpr divides,
      (slot_ofNat_eq_mod_iff positive).mpr divides] at same
    rw [List.mem_range'_1] at leftWithin rightWithin
    rcases Nat.le_total left right with before | after
    · exact eq_of_mod_eq before (by omega) same
    · exact (eq_of_mod_eq after (by omega) same.symm).symm
  · exact List.nodup_range'

end

/-- Every question put to the cursors is answered as the counters would answer it, as long as no
more than 255 words are under way. -/
theorem unbounded_counters (depth : UInt8) :
    (∀ read write : Nat, read ≤ write → write - read ≤ 255 →
      let cursors := ofCounts read write depth
      cursors.filled = (cursors.write.toInt8 - cursors.read.toInt8).toUInt8 ∧
      cursors.filled.toNat = write - read ∧
      (cursors.overflowed = true ↔ depth.toNat < write - read) ∧
      cursors.checkOverflow =
        (if depth.toNat < write - read then
          .error (.overflow (UInt8.ofNat (write - read)) depth 0) else .ok ()) ∧
      cursors.free? =
        (if depth.toNat < write - read then none
          else some (UInt8.ofNat (depth.toNat - (write - read)))) ∧
      ∀ words : Nat,
        cursors.checkRoom words =
          (if write - read + words ≤ depth.toNat then .ok ()
            else .error (.overflow (UInt8.ofNat (write - read)) depth words)) ∧
        cursors.advanceWrite words = ofCounts read (write + words) depth ∧
        cursors.advanceRead words = ofCounts (read + words) write depth) ∧
    (1 ≤ depth.toNat → ∀ cursors : Cursors, cursors.depth = depth →
      ((∀ counter, cursors.slot (UInt8.ofNat counter) = counter % depth.toNat) ↔
        depth.toNat ∣ 256) ∧
      (depth.toNat ∣ 256 → ∀ first count, count ≤ depth.toNat →
        ((List.range' first count).map fun counter =>
          cursors.slot (UInt8.ofNat counter)).Nodup)) ∧
    (depth.toNat ≤ 128 → ∀ write ahead, 1 ≤ ahead → ahead ≤ 127 →
      let cursors := ofCounts (write + ahead) write depth
      cursors.overflowed = true ∧
      cursors.checkOverflow = .error (.overflow cursors.filled depth 0)) := by
  refine ⟨?counters, ?slots, ?ahead⟩
  case counters =>
    intro read write ordered near
    refine ⟨filled_eq_signed _, toNat_filled_ofCounts depth ordered near,
      overflowed_ofCounts depth ordered near, checkOverflow_ofCounts depth ordered near,
      free?_ofCounts depth ordered near, fun words => ?_⟩
    exact ⟨checkRoom_ofCounts depth ordered near words,
      advanceWrite_ofCounts read write depth words, advanceRead_ofCounts read write depth words⟩
  case slots =>
    rintro positive cursors rfl
    constructor
    · exact slot_ofNat_eq_mod_iff positive
    · intro divides first count few
      exact nodup_slots positive divides first few
  case ahead =>
    intro usable write ahead beyond near
    have spilt := overflowed_of_read_ahead usable write beyond near
    constructor
    · exact spilt
    · rw [checkOverflow, if_pos spilt]
      rfl

/-- A ring of eight slots, three words under way, after the cursors have wrapped three times. -/
theorem unbounded_counters_wrapped :
    let cursors := ofCounts 1000 1003 8
    cursors.filled.toNat = 3 ∧
    cursors.checkRoom 5 = .ok () ∧
    cursors.advanceWrite 300 = ofCounts 1000 1303 8 ∧
    cursors.slot (UInt8.ofNat 1003) = 3 ∧
    ((List.range' 1000 8).map fun counter => cursors.slot (UInt8.ofNat counter)).Nodup ∧
    (ofCounts 1127 1000 8).overflowed = true := by
  obtain ⟨counters, slots, ahead⟩ := unbounded_counters 8
  obtain ⟨-, filled, -, -, -, words⟩ := counters 1000 1003 (by decide) (by decide)
  obtain ⟨follows, distinct⟩ := slots (by decide) (ofCounts 1000 1003 8) rfl
  have divides : (8 : UInt8).toNat ∣ 256 := by decide
  exact ⟨filled, (words 5).1, (words 300).2.1, follows.mpr divides 1003,
    distinct divides 1000 8 (by decide), (ahead (by decide) 1000 127 (by decide) (by decide)).1⟩

end HeciMailbox.Cursors
