import HeciMailbox.Proofs.Backends
import HeciMailbox.Proofs.Footprint
import HeciMailbox.Proofs.StatusBits
import HeciMailbox.Proofs.Upkeep
import HeciMailbox.Proofs.Views

/-! What a handshake that succeeds has seen of the controller, on any hardware.

Bringing the channel up waits for a controller that is present and ready. A reset waits for the
ready bit alone, which an absent function shows as well: it rules absence out before that wait and
behind it, but not at the look that ends it. -/

set_option autoImplicit false

namespace HeciMailbox

def Trace.lastStatus? (entries : List Entry) : Option Csr :=
  (reads Register.controllerCsr entries).getLast?.map Csr.mk

theorem Trace.lastStatus?_append (earlier : List Entry) (last : Csr) {later : List Entry}
    (unread : reads Register.controllerCsr later = []) :
    lastStatus? (earlier ++ .read Register.controllerCsr last.raw :: later) = some last := by
  simp [lastStatus?, reads, unread]

namespace Op

theorem ready_of_whenReady {ready : Bool} {csr : Csr} {value : Option Unit}
    (judged : whenReady ready csr = .ok value) :
    csr.ready = if value.isSome then ready else !ready := by
  obtain rfl := Except.ok.inj judged
  cases csr.ready <;> cases ready <;> rfl

theorem Waited.passed {ready : Bool} {deadline : Deadline} {entries : List Entry}
    (waited : Waited Register.controllerCsr (whenReady ready) deadline entries (.ok ())) :
    ∃ (earlier : List Entry) (csr : Csr),
      entries = earlier ++ [.read Register.controllerCsr csr.raw] ∧ csr.ready = ready ∧
      ∀ value ∈ Trace.reads Register.controllerCsr earlier, (Csr.mk value).ready = !ready := by
  generalize ended : Except.ok () = outcome at waited
  induction waited with
  | @found csr _ judged => exact ⟨[], csr, rfl, ready_of_whenReady judged, by simp⟩
  | stopped judged => cases ended
  | late judged => cases ended
  | @again csr rest _ judged _ ih =>
    obtain ⟨earlier, last, rfl, found, passed⟩ := ih ended
    refine ⟨.read Register.controllerCsr csr.raw :: earlier, last, rfl, found, ?_⟩
    simpa [show csr.ready = !ready from ready_of_whenReady judged] using passed
  | unfinished => cases ended

/-- A handshake is concluded right behind a look at the controller status: the host status is read
and written back with its marks, and word of it goes out. -/
def conclusion (last host : Csr) (clear : UInt32) (word : Entry) : List Entry :=
  [.read Register.controllerCsr last.raw, .read Register.hostCsr host.raw,
    .write Register.hostCsr (host.withBits (Csr.readyBit ||| Csr.generateBit) clear), word]

theorem lastStatus?_conclusion (earlier : List Entry) (last host : Csr) (clear : UInt32)
    {word : Entry} (unread : word.taken? Register.controllerCsr = none) :
    Trace.lastStatus? (earlier ++ conclusion last host clear word) = some last := by
  have apart : Register.hostCsr ≠ Register.controllerCsr := by decide
  exact Trace.lastStatus?_append earlier last (by simpa [Trace.reads, apart] using unread)

theorem BroughtUp.concluded {entries : List Entry} (broughtUp : BroughtUp entries (.ok ())) :
    ∃ (earlier : List Entry) (last host : Csr),
      entries = earlier ++ conclusion last host Csr.resetBit (.remark .broughtUp) ∧
      last.absent = false ∧ last.ready = true ∧ host.absent = false := by
  cases broughtUp with
  | @up deadline _ _ waiting marked =>
    obtain ⟨_, rfl, waited⟩ := waiting
    obtain ⟨earlier, last, rfl, judged, -⟩ := waited.last
    cases marked with
    | @marked host here =>
      have up : last.absent = false ∧ last.ready = true := by
        simpa [whenUp] using judged
      exact ⟨.wait deadline :: earlier, last, host, by simp [conclusion], up.1, up.2, here⟩

theorem Reset.concluded {entries : List Entry} (reset : Reset entries (.ok ())) :
    ∃ (earlier waiting : List Entry) (unready last host : Csr),
      entries = earlier ++ .read Register.controllerCsr unready.raw ::
        (waiting ++ conclusion last host 0 (.event .reset)) ∧
      unready.ready = false ∧
      (∀ value ∈ Trace.reads Register.controllerCsr waiting, (Csr.mk value).ready = false) ∧
      last.ready = true ∧ host.absent = false := by
  have apart : Register.hostCsr ≠ Register.controllerCsr := by decide
  cases reset with
  | @reset csr _ _ _ present asked released marked =>
    cases asked with
    | @answered _ _ falls _ asking falling =>
      cases released with
      | @answered _ _ rises _ releasing rising =>
        obtain ⟨_, rfl, fell⟩ := falling
        obtain ⟨before, unready, rfl, low, -⟩ := fell.passed
        obtain ⟨_, rfl, rose⟩ := rising
        obtain ⟨waiting, last, rfl, high, passed⟩ := rose.passed
        cases asking with
        | @marked asked here =>
          cases releasing with
          | @marked freed here =>
            cases marked with
            | @marked host here =>
              refine ⟨.read Register.controllerCsr csr.raw :: .read Register.hostCsr asked.raw ::
                  .write Register.hostCsr (asked.withBits (Csr.resetBit ||| Csr.generateBit) 0) ::
                  .wait falls :: before,
                .read Register.hostCsr freed.raw ::
                  .write Register.hostCsr (freed.withBits Csr.generateBit Csr.resetBit) ::
                  .wait rises :: waiting,
                unready, last, host, by simp [conclusion], low, ?_, high, here⟩
              simpa [Trace.reads, apart] using passed

section

variable {σ : Type} [Registers σ] [Clock σ] [Registers.Answers σ]

/-- A handshake that succeeds ends right behind a look at a controller status with the ready bit, at
a host status that shows the function. Where the channel was brought up that look has seen the
function too. In a reset it need not have; the looks before it, from the one that saw the controller
give up its ready bit, have all seen the function, without that bit. -/
theorem handshakes_end_at_a_ready_bit (link : Link) (world : World σ) :
    ((bringUp link).outcome world = .ok () →
      ∃ (earlier : List Entry) (last host : Csr),
        (bringUp link).added world =
          earlier ++ conclusion last host Csr.resetBit (.remark .broughtUp) ∧
        Trace.lastStatus? ((bringUp link).added world) = some last ∧
        last.absent = false ∧ last.ready = true ∧ host.absent = false) ∧
    ((reset link).outcome world = .ok () →
      ∃ (earlier waiting : List Entry) (unready last host : Csr),
        (reset link).added world =
          earlier ++ .read Register.controllerCsr unready.raw ::
            (waiting ++ conclusion last host 0 (.event .reset)) ∧
        Trace.lastStatus? ((reset link).added world) = some last ∧
        unready.absent = false ∧ unready.ready = false ∧
        (∀ value ∈ Trace.reads Register.controllerCsr waiting,
          (Csr.mk value).absent = false ∧ (Csr.mk value).ready = false) ∧
        last.ready = true ∧ host.absent = false) := by
  constructor
  · intro returned
    have called := ((bringUp_ensures link).holds world).1
    rw [returned] at called
    obtain ⟨earlier, last, host, shape, seen, ready, here⟩ := called.concluded
    refine ⟨earlier, last, host, shape, ?_, seen, ready, here⟩
    rw [shape, lastStatus?_conclusion _ _ _ _ rfl]
  · intro returned
    have called := ((reset_ensures link).holds world).1
    rw [returned] at called
    obtain ⟨earlier, waiting, unready, last, host, shape, low, passed, ready, here⟩ :=
      called.concluded
    have present : ∀ csr : Csr, csr.ready = false → csr.absent = false := fun csr unready =>
      Csr.present_of_quiet (Csr.quiet_of_has unready) (by decide)
    refine ⟨earlier, waiting, unready, last, host, shape, ?_, present unready low, low,
      fun value member => ⟨present ⟨value⟩ (passed value member), passed value member⟩, ready, here⟩
    rw [shape, ← List.cons_append, ← List.append_assoc, lastStatus?_conclusion _ _ _ _ rfl]

end

/-- The controller gives up its ready bit, and at the next look the function is gone. The host
status shows it throughout. -/
def vanishing : World (Timed Bus.Replay) :=
  ⟨⟨⟨[0x08000008], [0x08000008, 0x08000000, 0xFFFFFFFF], []⟩, 0⟩, #[]⟩

/-- The reset succeeds, though the last that it saw of the controller was an absent function. -/
theorem reset_takes_absence_for_readiness :
    (reset (.ofConfig {} 0xFED1A000 8)).outcome vanishing = .ok () ∧
    (Trace.lastStatus? ((reset (.ofConfig {} 0xFED1A000 8)).added vanishing)).map Csr.absent =
      some true := by
  decide +kernel

theorem vanishing_handshakes_end_at_a_ready_bit :
    (bringUp (.ofConfig {} 0xFED1A000 8)).outcome vanishing = .ok () ∧
    (∃ last, Trace.lastStatus? ((bringUp (.ofConfig {} 0xFED1A000 8)).added vanishing) =
      some last ∧ last.absent = false ∧ last.ready = true) ∧
    (reset (.ofConfig {} 0xFED1A000 8)).outcome vanishing = .ok () ∧
    ∃ last, Trace.lastStatus? ((reset (.ofConfig {} 0xFED1A000 8)).added vanishing) = some last ∧
      last.ready = true := by
  have up : (bringUp (.ofConfig {} 0xFED1A000 8)).outcome vanishing = .ok () := by decide +kernel
  have renewed : (reset (.ofConfig {} 0xFED1A000 8)).outcome vanishing = .ok () := by
    decide +kernel
  obtain ⟨raised, restored⟩ := handshakes_end_at_a_ready_bit (.ofConfig {} 0xFED1A000 8) vanishing
  obtain ⟨_, last, _, _, seen, here, ready, _⟩ := raised up
  obtain ⟨_, _, _, last', _, _, seen', _, _, _, ready', _⟩ := restored renewed
  exact ⟨up, ⟨last, seen, here, ready⟩, renewed, last', seen', ready'⟩

end Op

end HeciMailbox
