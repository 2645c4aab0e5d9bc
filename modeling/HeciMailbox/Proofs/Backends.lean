import HeciMailbox.Bus.Replay
import HeciMailbox.Bus.Window
import HeciMailbox.Controller.Basic
import HeciMailbox.Proofs.Behaviour

/-! Which backends answer at the registers of the window: all of them. -/

set_option autoImplicit false

namespace HeciMailbox

instance : Registers.Answers Bus.Replay where
  read _ _ := ⟨_, _, rfl⟩
  write _ _ _ := ⟨_, rfl⟩

instance : Registers.Answers Controller where
  read _ _ := ⟨_, _, rfl⟩
  write _ _ _ := ⟨_, rfl⟩

theorem Bus.Window.index?_eq_some {offset : UInt32}
    (inside : offset ∈ Register.readable ++ Register.writable) :
    ∃ index, Bus.Window.index? offset = some index := by
  simp only [Register.readable, Register.writable, List.cons_append, List.nil_append, List.mem_cons,
    List.not_mem_nil, or_false] at inside
  rcases inside with rfl | rfl | rfl | rfl | rfl
  all_goals exact ⟨_, rfl⟩

/-- A window in memory refuses an offset outside it, but none of these is. -/
instance : Registers.Answers Bus.Window where
  read {offset} member window := by
    obtain ⟨index, inside⟩ := Bus.Window.index?_eq_some (List.mem_append_left _ member)
    exact ⟨window.words.get index, window, by simp [Registers.read, inside]⟩
  write {offset} member value window := by
    obtain ⟨index, inside⟩ := Bus.Window.index?_eq_some (List.mem_append_right _ member)
    exact ⟨⟨window.words.set index.val value index.isLt⟩, by simp [Registers.write, inside]⟩

end HeciMailbox
