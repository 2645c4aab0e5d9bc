import HeciMailbox.Proofs.Backends
import HeciMailbox.Proofs.HostRing

/-! Flow control of both rings over a whole run of calls.

The budgets say what a run may do between two looks at the cursors. From them follow that nothing is
written over a word that the peer has not taken and nothing taken that the peer has not supplied,
whatever the peer does in between, and that the simulated controller drops no word. -/

set_option autoImplicit false

namespace HeciMailbox

/-! ### A peer at work between the accesses -/

structure Traffic where
  hostDepth : UInt8
  ownDepth : UInt8
  written : Nat
  taken : Nat
  supplied : Nat
  popped : Nat

inductive Move where
  | take (words : Nat)
  | supply (words : Nat)
  | host (entry : Entry)

def Move.entry? : Move → Option Entry
  | .host entry => some entry
  | .take _ | .supply _ => none

/-- The status shows these counts as 8-bit cursors, or nothing at all. -/
def Csr.Shows (csr : Csr) (read write : Nat) (depth : UInt8) : Prop :=
  csr.absent = true ∨ Cursors.ofCsr csr = ⟨.ofNat read, .ofNat write, depth⟩

namespace Traffic

def after (traffic : Traffic) : Move → Traffic
  | .take words => { traffic with taken := traffic.taken + words }
  | .supply words => { traffic with supplied := traffic.supplied + words }
  | .host entry =>
    { traffic with
      written := traffic.written + if (entry.written? Register.hostWindow).isSome then 1 else 0
      popped := traffic.popped + if (entry.taken? Register.controllerWindow).isSome then 1 else 0 }

/-- The peer takes only what has been written, supplies only what fits, and shows its cursors as
they are. -/
def Permits (traffic : Traffic) : Move → Prop
  | .take words => traffic.taken + words ≤ traffic.written
  | .supply words => traffic.supplied + words ≤ traffic.popped + traffic.ownDepth.toNat
  | .host (.read offset value) =>
    (offset = Register.hostCsr →
      (Csr.mk value).Shows traffic.taken traffic.written traffic.hostDepth) ∧
    (offset = Register.controllerCsr →
      (Csr.mk value).Shows traffic.popped traffic.supplied traffic.ownDepth)
  | .host (.write ..) | .host (.wait _) | .host (.event _) | .host (.remark _) => True

/-- A write goes to a slot that holds no unread word, and a pop to one that has been supplied. Word
number `index` of a ring lies in slot `index % depth`. -/
def Safe (traffic : Traffic) : Move → Prop
  | .host (.write offset _) => offset = Register.hostWindow →
    traffic.written < traffic.taken + traffic.hostDepth.toNat ∧
      ∀ index, traffic.taken ≤ index → index < traffic.written →
        index % traffic.hostDepth.toNat ≠ traffic.written % traffic.hostDepth.toNat
  | .host (.read offset _) => offset = Register.controllerWindow →
    traffic.popped < traffic.supplied
  | .host (.wait _) | .host (.event _) | .host (.remark _) | .take _ | .supply _ => True

structure Sound (traffic : Traffic) : Prop where
  taken : traffic.taken ≤ traffic.written
  written : traffic.written ≤ traffic.taken + traffic.hostDepth.toNat
  popped : traffic.popped ≤ traffic.supplied
  supplied : traffic.supplied ≤ traffic.popped + traffic.ownDepth.toNat

def Throughout (holds : Traffic → Move → Prop) : Traffic → List Move → Prop
  | _, [] => True
  | traffic, move :: rest => holds traffic move ∧ Throughout holds (traffic.after move) rest

instance (csr : Csr) (read write : Nat) (depth : UInt8) : Decidable (csr.Shows read write depth) :=
  inferInstanceAs (Decidable (_ ∨ _))

instance (traffic : Traffic) : DecidablePred traffic.Permits
  | .take _ | .supply _ => inferInstanceAs (Decidable (_ ≤ _))
  | .host (.read ..) => inferInstanceAs (Decidable (_ ∧ _))
  | .host (.write ..) | .host (.wait _) | .host (.event _) | .host (.remark _) => .isTrue trivial

instance decidableThroughout (holds : Traffic → Move → Prop)
    [∀ traffic, DecidablePred (holds traffic)] (traffic : Traffic) :
    (moves : List Move) → Decidable (traffic.Throughout holds moves)
  | [] => .isTrue trivial
  | move :: rest =>
    have := decidableThroughout holds (traffic.after move) rest
    inferInstanceAs (Decidable (holds traffic move ∧ _))

theorem filled_of_shown {read write : Nat} {depth : UInt8} (below : read ≤ write)
    (within : write ≤ read + depth.toNat) :
    (Cursors.mk (.ofNat read) (.ofNat write) depth).filled.toNat = write - read := by
  have bound := depth.toNat_lt
  simp only [Cursors.filled, UInt8.toNat_sub, UInt8.toNat_ofNat']
  omega

theorem room_of_shows {csr : Csr} {read write : Nat} {depth : UInt8}
    (shows : csr.Shows read write depth) (below : read ≤ write)
    (within : write ≤ read + depth.toNat) : write + csr.room ≤ read + depth.toNat := by
  unfold Csr.room
  obtain absent | shown := shows
  · simpa [absent] using within
  · rw [shown, filled_of_shown below within]
    split
    · exact within
    · simp only
      omega

theorem stock_of_shows {csr : Csr} {read write : Nat} {depth : UInt8}
    (shows : csr.Shows read write depth) (below : read ≤ write)
    (within : write ≤ read + depth.toNat) : read + csr.stock ≤ write := by
  unfold Csr.stock
  obtain absent | shown := shows
  · simpa [absent] using below
  · rw [shown, filled_of_shown below within]
    split <;> omega

theorem shows_of_permits {traffic : Traffic} {entry : Entry}
    (permits : traffic.Permits (.host entry)) :
    (∀ raw, entry.taken? Register.hostCsr = some raw →
      (Csr.mk raw).Shows traffic.taken traffic.written traffic.hostDepth) ∧
    ∀ raw, entry.taken? Register.controllerCsr = some raw →
      (Csr.mk raw).Shows traffic.popped traffic.supplied traffic.ownDepth := by
  cases entry with
  | read offset value =>
    refine ⟨fun raw looked => ?_, fun raw looked => ?_⟩
    · obtain ⟨status, rfl⟩ : offset = Register.hostCsr ∧ value = raw := by simpa using looked
      exact permits.1 status
    · obtain ⟨status, rfl⟩ : offset = Register.controllerCsr ∧ value = raw := by simpa using looked
      exact permits.2 status
  | _ => simp

theorem written?_of_taken? {entry : Entry} {offset value : UInt32}
    (taken : entry.taken? offset = some value) (place : UInt32) : entry.written? place = none := by
  cases entry with
  | write => simp at taken
  | _ => rfl

theorem taken?_of_taken? {entry : Entry} {offset value place : UInt32}
    (taken : entry.taken? offset = some value) (apart : offset ≠ place) :
    entry.taken? place = none := by
  cases entry with
  | read =>
    obtain ⟨rfl, -⟩ := by simpa using taken
    simp [apart]
  | _ => rfl

/-- One entry keeps what is left of the host budget within the slots that are free. -/
theorem host_step {traffic : Traffic} {entry : Entry} {allowance rest : Nat}
    (steps : Budget.host.Steps entry allowance rest) (permits : traffic.Permits (.host entry))
    (sound : traffic.Sound)
    (covered : traffic.written + allowance ≤ traffic.taken + traffic.hostDepth.toNat) :
    ((entry.written? Register.hostWindow).isSome →
        traffic.written < traffic.taken + traffic.hostDepth.toNat) ∧
      (traffic.after (.host entry)).written + rest ≤ traffic.taken + traffic.hostDepth.toNat := by
  refine steps.covered (fun raw looked => ?_) covered
  have apart := written?_of_taken? looked Register.hostWindow
  have shows := (shows_of_permits permits).1 raw looked
  exact ⟨apart, room_of_shows shows sound.taken sound.written⟩

theorem own_step {traffic : Traffic} {entry : Entry} {depth : UInt8} {allowance rest : Nat}
    (steps : Budget.own.Steps entry allowance rest)
    (shown : ∀ raw, entry.taken? Register.controllerCsr = some raw →
      (Csr.mk raw).Shows traffic.popped traffic.supplied depth)
    (below : traffic.popped ≤ traffic.supplied)
    (within : traffic.supplied ≤ traffic.popped + depth.toNat)
    (covered : traffic.popped + allowance ≤ traffic.supplied) :
    ((entry.taken? Register.controllerWindow).isSome → traffic.popped < traffic.supplied) ∧
      (traffic.after (.host entry)).popped + rest ≤ traffic.supplied := by
  have apart : Register.controllerCsr ≠ Register.controllerWindow := by decide
  refine steps.covered (fun raw looked => ?_) covered
  exact ⟨taken?_of_taken? looked apart, stock_of_shows (shown raw looked) below within⟩

theorem slots_apart {first second depth : Nat} (below : first < second)
    (close : second < first + depth) : first % depth ≠ second % depth := by
  intro same
  have multiple := Nat.sub_mod_eq_zero_of_mod_eq same.symm
  rw [Nat.mod_eq_of_lt (by omega)] at multiple
  omega

theorem safe_of_steps {traffic : Traffic} {entry : Entry}
    (free : (entry.written? Register.hostWindow).isSome →
      traffic.written < traffic.taken + traffic.hostDepth.toNat)
    (there : (entry.taken? Register.controllerWindow).isSome → traffic.popped < traffic.supplied) :
    traffic.Safe (.host entry) := by
  cases entry with
  | write offset value =>
    intro window
    have close := free (by simp [window])
    exact ⟨close, fun index unread written => slots_apart written (by omega)⟩
  | read offset value =>
    intro window
    exact there (by simp [window])
  | _ => trivial

theorem safe_throughout {traffic : Traffic} {moves : List Move} {host own hostLeft ownLeft : Nat}
    (hostSpent : Budget.host.left host (moves.filterMap Move.entry?) = some hostLeft)
    (ownSpent : Budget.own.left own (moves.filterMap Move.entry?) = some ownLeft)
    (sound : traffic.Sound)
    (room : traffic.written + host ≤ traffic.taken + traffic.hostDepth.toNat)
    (stock : traffic.popped + own ≤ traffic.supplied)
    (permits : traffic.Throughout Permits moves) : traffic.Throughout Safe moves := by
  -- The invariant: what is left of each budget is room in the ring, or words in it. A move of the
  -- peer only adds to both, so a look that was made before it still covers what the host does after
  -- it.
  induction moves generalizing traffic host own with
  | nil => trivial
  | cons move rest ih =>
    obtain ⟨permitted, others⟩ := permits
    cases move with
    | take words =>
      simp only [Permits] at permitted
      obtain ⟨taken, written, popped, supplied⟩ := sound
      refine ⟨trivial, ih hostSpent ownSpent ⟨?_, ?_, ?_, ?_⟩ ?_ ?_ others⟩ <;>
        simp only [after] <;> omega
    | supply words =>
      simp only [Permits] at permitted
      obtain ⟨taken, written, popped, supplied⟩ := sound
      refine ⟨trivial, ih hostSpent ownSpent ⟨?_, ?_, ?_, ?_⟩ ?_ ?_ others⟩ <;>
        simp only [after] <;> omega
    | host entry =>
      obtain ⟨host', steps, hostSpent⟩ := Budget.steps_of_left hostSpent
      obtain ⟨own', draws, ownSpent⟩ := Budget.steps_of_left ownSpent
      obtain ⟨safe, free⟩ := host_step steps permitted sound room
      obtain ⟨present, there⟩ :=
        own_step draws (shows_of_permits permitted).2 sound.popped sound.supplied stock
      refine ⟨safe_of_steps safe present, ih hostSpent ownSpent ?_ free there others⟩
      obtain ⟨taken, written, popped, supplied⟩ := sound
      refine ⟨?_, ?_, ?_, ?_⟩ <;> simp only [after] at free there ⊢ <;> omega

end Traffic

/-! ### A run of calls -/

/-- What the entries of a run show of flow control. -/
structure FlowControlled (entries : List Entry) : Prop where
  inside : ∀ entry ∈ entries, entry.Inside
  mapped : ∀ offset value, .read offset value ∈ entries ∨ .write offset value ∈ entries →
    (Bus.Window.index? offset).isSome
  host : Budget.host.Respected entries
  own : Budget.own.Respected entries
  /-- Whatever a peer does between the entries. -/
  safe : ∀ (traffic : Traffic) (moves : List Move), traffic.Sound →
    moves.filterMap Move.entry? = entries → traffic.Throughout Traffic.Permits moves →
    traffic.Throughout Traffic.Safe moves

namespace Op

theorem AllCalled.flowControlled {calls : List (Link × Call)} {entries : List Entry}
    (called : AllCalled calls entries) : FlowControlled entries where
  inside := called.inside
  mapped := by
    rintro offset value (read | written)
    · have member := List.mem_append_left Register.writable (called.inside _ read)
      exact Option.isSome_iff_exists.mpr (Bus.Window.index?_eq_some member)
    · have member := List.mem_append_right Register.readable (called.inside _ written)
      exact Option.isSome_iff_exists.mpr (Bus.Window.index?_eq_some member)
  host := called.kept_host.respected
  own := called.kept_own.respected
  safe := by
    intro traffic moves sound run permits
    obtain ⟨_, hostSpent⟩ := called.kept_host 0
    obtain ⟨_, ownSpent⟩ := called.kept_own 0
    subst run
    exact Traffic.safe_throughout hostSpent ownSpent sound sound.written sound.popped permits

/-- On any hardware every run of calls is flow-controlled and no call breaks a promise of the
program; on the simulated controller it drops no word. -/
theorem calls_are_flow_controlled {σ : Type} [Registers σ] [Clock σ] [Registers.Answers σ]
    (calls : List (Link × Call)) (world : World σ) (simulated : World (Timed Controller)) :
    FlowControlled ((performAll calls).added world) ∧
    (∀ link call (state : World σ) trap, (perform link call).outcome state ≠ .error (.trap trap)) ∧
    ((performAll calls).reached simulated).hardware.registers.dropped =
      simulated.hardware.registers.dropped := by
  refine ⟨?_, ?_, ?_⟩
  · exact ((performAll_ensures calls).holds world).1.flowControlled
  · intro link call state
    exact ((perform_ensures link call).holds state).1.not_trap
  · obtain ⟨called, -, path⟩ := (performAll_ensures calls).holds simulated
    obtain ⟨_, spent⟩ := called.kept_host 0
    exact dropped_of_path path spent fun _ => Nat.zero_le _

def answering : World (Timed Controller) where
  hardware := ⟨(Controller.ofDepth 4).queueResponse (.ofBytes [9]), 0⟩

def sendThenDrain : List (Link × Call) :=
  [(.ofConfig {} 0xFED1A000 8, .send (.ofBytes [1, 2, 3, 4]) ⟨0, 7⟩),
    (.ofConfig {} 0xFED1A000 8, .drain)]

def answeredRun : List Move :=
  (((performAll sendThenDrain).added answering).take 11).map .host ++
    ([.take 2, .supply 2] ++ (((performAll sendThenDrain).added answering).drop 11).map .host)

theorem answered_run_is_flow_controlled :
    FlowControlled ((performAll sendThenDrain).added answering) ∧
    Traffic.Throughout Traffic.Safe ⟨4, 4, 0, 0, 0, 0⟩ answeredRun ∧
    ((performAll sendThenDrain).reached answering).hardware.registers.dropped = 0 := by
  obtain ⟨controlled, -, dropped⟩ :=
    calls_are_flow_controlled sendThenDrain answering answering
  refine ⟨controlled, controlled.safe _ answeredRun ⟨?_, ?_, ?_, ?_⟩ ?_ ?_, dropped⟩
  all_goals decide +kernel

end Op

end HeciMailbox
