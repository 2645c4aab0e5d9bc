import HeciMailbox.Proofs.Echoes
import HeciMailbox.Proofs.HostRing
import HeciMailbox.Proofs.Service

/-! What the simulated controller makes of the words that go into its host ring.

It takes whole frames, whenever it looks, and otherwise leaves the ring alone. So the words in the
ring and those still to come bring its inbox to the same end whether it looks early or late, and
whether or not it looks at all in between. -/

set_option autoImplicit false

namespace HeciMailbox

/-- The bytes of the request under way and the complete requests, oldest first. -/
structure Inbox where
  assembly : List UInt8 := []
  received : List Message := []

namespace Inbox

def accept (inbox : Inbox) (frame : Frame.Segment) : Inbox :=
  if frame.header.complete then
    ⟨[], inbox.received ++ [.ofBytes (inbox.assembly ++ frame.content)]⟩
  else { inbox with assembly := inbox.assembly ++ frame.content }

theorem received_prefix (inbox : Inbox) (frames : List Frame.Segment) :
    inbox.received <+: (frames.foldl accept inbox).received := by
  induction frames generalizing inbox with
  | nil => exact List.prefix_rfl
  | cons frame rest ih =>
    refine List.IsPrefix.trans ?_ (ih _)
    unfold accept
    split
    · exact List.prefix_append _ _
    · exact List.prefix_rfl

end Inbox

/-- The status of a side that is ready and not in reset. -/
def Csr.Calm (csr : Csr) : Prop :=
  ∃ flags, Ready flags ∧ ∀ mask : UInt32, mask.toNat < 0x100 → csr.raw &&& mask = flags &&& mask

theorem Csr.Calm.returns {csr : Csr} {value : UInt32} (calm : csr.Calm)
    (returns : csr.Returns value) :
    ∃ shown, Ready shown ∧ ∀ mask : UInt32, mask.toNat < 0x100 →
      value &&& mask = (shown ||| generateBit) &&& mask := by
  obtain ⟨flags, ready, same⟩ := calm
  cases returns with
  | rung clearStatus =>
    obtain ⟨shown, given, rung⟩ := ready.withDoorbell clearStatus
    exact ⟨shown, given, fun mask low => rung ▸ Csr.withDoorbell_and (same mask low) clearStatus⟩
  | marked =>
    have marks : (Csr.mk flags).withBits (readyBit ||| generateBit) resetBit =
        readyBit ||| generateBit := by
      obtain rfl | rfl := ready <;> decide
    exact ⟨readyBit, .inl rfl, fun mask low =>
      (Csr.withBits_and (same mask low) _ _).trans (by rw [marks])⟩

namespace Controller

def inbox (controller : Controller) : Inbox := ⟨controller.assembly, controller.received⟩

/-! ### Accepting a frame -/

section

variable (controller : Controller) (header : Frame.Header) (payload : List UInt8)

theorem hostRing_accept : (controller.accept header payload).hostRing = controller.hostRing := by
  unfold accept
  split
  · dsimp only
    split <;> rfl
  · rfl

theorem frameLog_accept :
    (controller.accept header payload).frameLog = controller.frameLog ++ [header] := by
  unfold accept
  split
  · dsimp only
    split <;> rfl
  · rfl

theorem inbox_accept (frame : Frame.Segment) :
    (controller.accept frame.header frame.content).inbox = controller.inbox.accept frame := by
  unfold accept Inbox.accept
  split
  · dsimp only
    split <;> rfl
  · rfl

end

/-! ### A controller at work -/

/-- A present controller, ready on both sides, whose host ring has so many slots. -/
structure Up (hostDepth : Nat) (controller : Controller) : Prop where
  present : controller.present = true
  hostReady : Ready controller.hostFlags
  ownReady : Ready controller.ownFlags
  hostSound : controller.hostRing.Sound
  hostSize : controller.hostRing.slots.size = hostDepth

/-- Once the controller has taken the frames in its host ring, and those that the words to come make
of it, its inbox will be `inbox`. -/
def Brings (hostDepth : Nat) (coming : List UInt32) (inbox : Inbox) (controller : Controller) :
    Prop :=
  controller.Up hostDepth ∧ ∃ frames : List Frame.Segment,
    (∀ frame ∈ frames, frame.payload.length = frame.header.words) ∧
    controller.hostRing.toList ++ coming = frames.flatMap Frame.Segment.words ∧
    frames.foldl Inbox.accept controller.inbox = inbox

section

variable {hostDepth : Nat} {coming : List UInt32} {inbox : Inbox} {controller : Controller}

theorem Brings.received (brings : controller.Brings hostDepth [] inbox) :
    controller.received <+: inbox.received ∧
      (controller.hostRing.cursors.isEmpty = true → controller.received = inbox.received) := by
  obtain ⟨up, frames, -, words, rfl⟩ := brings
  refine ⟨Inbox.received_prefix controller.inbox frames, fun empty => ?_⟩
  rw [up.hostSound.isEmpty_eq, List.isEmpty_iff] at empty
  rw [empty, List.append_nil, eq_comm, List.flatMap_eq_nil_iff] at words
  cases frames with
  | nil => rfl
  | cons frame rest => simpa [Frame.Segment.words] using words frame

theorem Brings.extend (brings : controller.Brings hostDepth [] inbox)
    {frames : List Frame.Segment}
    (counted : ∀ frame ∈ frames, frame.payload.length = frame.header.words) :
    controller.Brings hostDepth (frames.flatMap Frame.Segment.words)
      (frames.foldl Inbox.accept inbox) := by
  obtain ⟨up, lodged, whole, words, rfl⟩ := brings
  rw [List.append_nil] at words
  exact ⟨up, lodged ++ frames, List.forall_mem_append.mpr ⟨whole, counted⟩,
    by rw [words, List.flatMap_append], List.foldl_append⟩

/-! ### Taking frames -/

theorem Up.fill (up : controller.Up hostDepth) : controller.fill.Up hostDepth where
  present := up.present
  hostReady := by
    unfold Controller.fill
    dsimp only
    split
    · exact up.hostReady.or_status
    · exact up.hostReady
  ownReady := up.ownReady
  hostSound := up.hostSound
  hostSize := up.hostSize

theorem Brings.of_same {after : Controller} (brings : controller.Brings hostDepth coming inbox)
    (up : after.Up hostDepth) (hostRing : after.hostRing = controller.hostRing)
    (same : after.inbox = controller.inbox) : after.Brings hostDepth coming inbox := by
  obtain ⟨-, frames, counted, words, brought⟩ := brings
  exact ⟨up, frames, counted, hostRing ▸ words, same ▸ brought⟩

theorem Brings.fill (brings : controller.Brings hostDepth coming inbox) :
    controller.fill.Brings hostDepth coming inbox :=
  brings.of_same brings.1.fill rfl rfl

theorem Up.accept (up : controller.Up hostDepth) (header : Frame.Header) (payload : List UInt8) :
    (controller.accept header payload).Up hostDepth := by
  unfold Controller.accept
  split
  · dsimp only
    split
    · exact { up with }
    · exact Up.fill { up with }
  · exact { up with }

theorem Brings.takeFrames (brings : controller.Brings hostDepth coming inbox) (count : Nat) :
    (controller.takeFrames count).Brings hostDepth coming inbox := by
  -- By the rounds of the loop. It stops at the first frame that is not there as a whole, so only
  -- the front of the ring matters.
  induction count generalizing controller with
  | zero => exact brings
  | succ count ih =>
    obtain ⟨up, frames, counted, words, brought⟩ := id brings
    have stopped : takeFrame? controller.hostRing = none →
        (controller.takeFrames (count + 1)).Brings hostDepth coming inbox := by
      intro stops
      simpa only [Controller.takeFrames, stops] using brings
    cases frames with
    | nil =>
      rw [List.flatMap_nil, List.append_eq_nil_iff] at words
      exact stopped (takeFrame?_nil up.hostSound words.1)
    | cons frame rest =>
      obtain ⟨here, others⟩ := List.forall_mem_cons.mp counted
      rw [List.flatMap_cons] at words
      by_cases whole : frame.words.length ≤ controller.hostRing.toList.length
      · obtain ⟨left, queue⟩ : frame.words <+: controller.hostRing.toList :=
          List.prefix_of_prefix_length_le ⟨_, words.symm⟩ (List.prefix_append _ _) whole
        obtain ⟨hostRing, taken, sound, emptied, size⟩ :=
          takeFrame?_spec up.hostSound (by rw [← queue]; rfl) here
        have popped : Up hostDepth { controller with hostRing } :=
          { up with hostSound := sound, hostSize := size.trans up.hostSize }
        rw [← queue, List.append_assoc] at words
        have accepted : Brings hostDepth coming inbox
            (Controller.accept { controller with hostRing } frame.header frame.content) := by
          refine ⟨popped.accept _ _, rest, others, ?_, ?_⟩
          · rw [hostRing_accept]
            exact emptied ▸ List.append_cancel_left words
          · rw [inbox_accept]
            exact brought
        simp only [Controller.takeFrames, taken]
        exact ih accepted
      · exact stopped (takeFrame?_of_short up.hostSound words (by
          rw [Frame.Segment.words, List.length_cons, here] at whole
          omega))

theorem Brings.consume (brings : controller.Brings hostDepth coming inbox) :
    controller.consume.Brings hostDepth coming inbox := by
  have taken := brings.takeFrames controller.hostRing.cursors.filled.toNat
  exact taken.of_same { taken.1 with ownReady := taken.1.ownReady.or_status } rfl rfl

/-! ### Register accesses -/

theorem Up.hostStatus (up : controller.Up hostDepth) :
    controller.hostStatus = statusWord controller.hostFlags controller.hostRing := by
  rw [Controller.hostStatus, up.present, if_pos rfl]

theorem Up.calm (up : controller.Up hostDepth) : (Csr.mk controller.hostStatus).Calm := by
  rw [up.hostStatus]
  exact ⟨_, up.hostReady, fun mask low => Csr.compose_and _ _ _ _ low⟩

theorem Up.depth (up : controller.Up hostDepth) :
    (Csr.mk controller.hostStatus).depth.toNat = hostDepth := by
  have shown := Cursors.ofCsr_compose controller.hostFlags controller.hostRing.read
    controller.hostRing.write controller.hostRing.depth
  rw [up.hostStatus]
  exact (congrArg (UInt8.toNat ∘ Cursors.depth) shown).trans
    (controller.hostRing.toNat_depth.trans up.hostSize)

theorem Brings.readRegister (brings : controller.Brings hostDepth coming inbox) (offset : UInt32) :
    (controller.readRegister offset).2.Brings hostDepth coming inbox := by
  unfold Controller.readRegister
  repeat' split
  all_goals exact brings.of_same { brings.1 with } rfl rfl

/-- The host status is written as it was read, with the doorbell. -/
theorem Brings.ring (brings : controller.Brings hostDepth coming inbox) {csr : Csr}
    {value : UInt32} (calm : csr.Calm) (returns : csr.Returns value) :
    (controller.writeRegister Register.hostCsr value).Brings hostDepth coming inbox := by
  obtain ⟨shown, given, seen⟩ := calm.returns returns
  obtain ⟨hostFlags, ready, written⟩ :=
    writeRegister_of_rung brings.1.present brings.1.ownReady given seen
  rw [written]
  have rung : Brings hostDepth coming inbox
      { controller with hostFlags, doorbells := controller.doorbells + 1 } :=
    brings.of_same { brings.1 with hostReady := ready } rfl rfl
  refine Brings.fill ?_
  split
  · exact rung.consume
  · exact rung

theorem Brings.writeWindow {word : UInt32}
    (brings : controller.Brings hostDepth (word :: coming) inbox)
    (room : 0 < controller.hostRing.room) :
    (controller.writeRegister Register.hostWindow word).Brings hostDepth coming inbox := by
  obtain ⟨up, frames, counted, words, brought⟩ := brings
  rw [up.hostSound.room_eq] at room
  obtain ⟨hostRing, pushed, sound, queue, size⟩ := up.hostSound.push? (by omega) word
  have stored : controller.writeRegister Register.hostWindow word =
      { controller with hostRing } := by
    simp [Controller.writeRegister, up.present, pushed]
  rw [stored]
  refine ⟨{ up with hostSound := sound, hostSize := size.trans up.hostSize }, frames, counted, ?_,
    brought⟩
  rw [← words, queue, List.append_assoc, List.singleton_append]

end

end Controller

namespace Controller

/-- Accesses that find room for their words and give the host status back as it was read bring the
inbox to where their words lead. -/
theorem Brings.follow {before after : Controller} {entries : List Entry}
    (houses : before.Houses entries after) {seen : List UInt32}
    (echoes : Trace.Echoes seen entries) (calm : ∀ raw ∈ seen, (Csr.mk raw).Calm) {hostDepth : Nat}
    {inbox : Inbox}
    (brings : before.Brings hostDepth (Trace.writes Register.hostWindow entries) inbox) :
    after.Brings hostDepth [] inbox ∧
      ∀ raw ∈ Trace.reads Register.hostCsr entries, (Csr.mk raw).depth.toNat = hostDepth := by
  -- Along the way the words written so far move from those to come into the ring, and every status
  -- read joins those that may be given back.
  induction houses generalizing seen with
  | done => exact ⟨brings, by simp⟩
  | @read controller _ rest offset _ ih =>
    have kept := Brings.readRegister brings offset
    by_cases status : offset = Register.hostCsr
    · subst status
      rw [congrArg Prod.fst (readRegister_hostCsr controller)] at echoes ⊢
      obtain ⟨brought, depths⟩ := ih echoes.2 (by simpa using ⟨brings.1.calm, calm⟩) kept
      have reads : Trace.reads Register.hostCsr
          (.read Register.hostCsr controller.hostStatus :: rest) =
            controller.hostStatus :: Trace.reads Register.hostCsr rest := by simp
      exact ⟨brought, reads ▸ List.forall_mem_cons.mpr ⟨brings.1.depth, depths⟩⟩
    · simpa [List.filterMap_cons, status] using ih echoes.2 (by simpa [status] using calm) kept
  | @write controller _ offset value rest room _ ih =>
    by_cases window : offset = Register.hostWindow
    · subst window
      exact ih echoes.2 calm (brings.writeWindow (room rfl brings.1.present))
    · have words : Trace.writes Register.hostWindow (.write offset value :: rest) =
          Trace.writes Register.hostWindow rest := by simp [window]
      rw [words] at brings
      refine ih echoes.2 calm ?_
      by_cases status : offset = Register.hostCsr
      · subst status
        obtain ⟨raw, member, returns⟩ := echoes.1 value (by simp)
        exact brings.ring (calm raw member) returns
      · simpa [Controller.writeRegister, window, status] using brings
  | @note _ _ entry _ quiet _ ih =>
    cases entry with
    | read => simp [Entry.access?] at quiet
    | write => simp [Entry.access?] at quiet
    | _ => exact ih echoes.2 calm brings

end Controller

end HeciMailbox
