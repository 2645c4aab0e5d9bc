import HeciMailbox.Cli.Files

/-! What is written to a file is read back from it.

Whether a file can be written depends on the path and on what is there, not on the text. -/

set_option autoImplicit false

namespace HeciMailbox.Cli

theorem fromUTF8?_toUTF8 (text : String) : String.fromUTF8? text.toUTF8 = some text := by
  rw [String.fromUTF8?, String.toUTF8_eq_toByteArray, dif_pos text.isValidUTF8]
  rfl

namespace Tree

variable {tree : Tree} {place last : List String}

/-- What there is at a place where a file may be put. -/
def Target.Open : Target → Prop
  | .missing | .file _ => True
  | .directory | .unnameable => False

theorem target_put_self (text : String) (allowed : (tree.target place).Open) :
    (tree.put place text).target place = .file text := by
  have gone : (tree.files.filter fun file => file.1 != place).lookup place = none := by
    rw [List.lookup_eq_none_iff]
    intro file member
    have other := (List.mem_filter.mp member).2
    simp only [bne_iff_ne, ne_eq] at other
    exact bne_iff_ne.mpr (Ne.symm other)
  have found : (tree.put place text).files.lookup place = some text := by
    rw [put, List.lookup_append, gone]
    simp
  unfold target at allowed ⊢
  split at allowed
  · exact absurd allowed id
  · next nameable =>
    split at allowed
    · exact absurd allowed id
    · next fileLike =>
      have fileLike : ¬ (tree.put place text).isDirectory place = true := fileLike
      rw [if_neg nameable, if_neg fileLike, found]

/-- Directories stay what they are. -/
theorem target_put_directory (text : String) (directory : tree.target last = .directory) :
    (tree.put place text).target last = .directory := by
  unfold target at directory ⊢
  split at directory
  · cases directory
  · next nameable =>
    split at directory
    · next is =>
      have is : (tree.put place text).isDirectory last = true := is
      rw [if_neg nameable, if_pos is]
    · split at directory <;> cases directory

theorem follow_put {start : List String} {names : List String} {found : Target} (text : String)
    (led : tree.follow start names = .ok (place, found)) (allowed : found.Open) :
    (tree.put place text).follow start names = .ok (place, .file text) := by
  induction names generalizing start with
  | nil =>
    obtain ⟨rfl, rfl⟩ := Prod.mk.inj (Except.ok.inj led)
    rw [follow, target_put_self text allowed]
  | cons name names ih =>
    rw [follow] at led ⊢
    cases way : tree.target start with
    | directory =>
      rw [way] at led
      rw [target_put_directory text way]
      exact ih led
    | missing => rw [way] at led; cases led
    | file inner => rw [way] at led; cases led
    | unnameable => rw [way] at led; cases led

theorem locate_put {path : String} {found : Target} (text : String)
    (located : tree.locate path = .ok (place, found)) (allowed : found.Open) :
    (tree.put place text).locate path = .ok (place, .file text) := by
  unfold locate at located ⊢
  cases parts : names path with
  | error fault => rw [parts] at located; cases located
  | ok names =>
    rw [parts] at located
    exact follow_put text located allowed

def Takes (tree : Tree) (path : String) : Prop :=
  ∃ place found, tree.locate path = .ok (place, found) ∧ found.Open ∧ endsOpen path = false

theorem write_of_takes {path : String} (takes : tree.Takes path) (text : String) :
    ∃ next, tree.write path text = .ok next ∧ next.read path = .ok text.toUTF8 := by
  obtain ⟨place, found, located, allowed, whole⟩ := takes
  refine ⟨tree.put place text, ?_, ?_⟩
  · rw [write, located]
    cases found with
    | directory => exact absurd allowed id
    | unnameable => exact absurd allowed id
    | missing => simp [whole]
    | file old => simp [whole]
  · rw [read, locate_put text located allowed]
    simp [whole]

theorem write_of_not_takes {path : String} (refused : ¬ tree.Takes path) :
    ∃ fault, ∀ text, tree.write path text = .error fault := by
  cases located : tree.locate path with
  | error fault => exact ⟨fault, fun text => by rw [write, located]⟩
  | ok led =>
    obtain ⟨place, found⟩ := led
    cases slash : endsOpen path with
    | true =>
      refine ⟨.isDirectory, fun text => ?_⟩
      rw [write, located]
      cases found <;> simp [slash]
    | false =>
      cases found with
      | directory => exact ⟨.isDirectory, fun text => by rw [write, located]⟩
      | unnameable => exact ⟨.tooLong, fun text => by simp [write, located, slash]⟩
      | missing => exact absurd ⟨place, .missing, located, trivial, slash⟩ refused
      | file old => exact absurd ⟨place, .file old, located, trivial, slash⟩ refused

end Tree

end HeciMailbox.Cli
