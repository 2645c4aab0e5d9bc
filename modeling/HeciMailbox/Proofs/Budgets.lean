import HeciMailbox.Proofs.Calls
import HeciMailbox.Proofs.WholeFrames

/-! Window accesses are covered by the latest look at the cursors, on any hardware.

A budget is granted by a status read and spent by accesses to a window; the next status read
replaces whatever is left. Every call keeps to the budget of the host window and to that of the
controller window. -/

set_option autoImplicit false

namespace HeciMailbox

namespace Csr

/-- Words that may be written after this look at the host status. The difference is zero when the
ring is in overflow. -/
def room (csr : Csr) : Nat :=
  if csr.absent then 0
  else (Cursors.ofCsr csr).depth.toNat - (Cursors.ofCsr csr).filled.toNat

/-- Words that may be taken after this look at the controller status. -/
def stock (csr : Csr) : Nat :=
  if csr.absent || (Cursors.ofCsr csr).overflowed then 0 else (Cursors.ofCsr csr).filled.toNat

end Csr

/-- Accesses to a window that reads of a status register grant. -/
structure Budget where
  status : UInt32
  grant : Csr → Nat
  access? : Entry → Option UInt32

namespace Budget

/-- Writes to the host window, as the host status grants them. -/
def host : Budget := ⟨Register.hostCsr, Csr.room, Entry.written? Register.hostWindow⟩

/-- Reads of the controller window, as the controller status grants them. -/
def own : Budget := ⟨Register.controllerCsr, Csr.stock, Entry.taken? Register.controllerWindow⟩

variable (budget : Budget)

/-- What is left of an allowance after some entries; none once it has been overdrawn. -/
def left : Nat → List Entry → Option Nat
  | allowance, [] => some allowance
  | allowance, entry :: rest =>
    match entry.taken? budget.status with
    | some raw => left (budget.grant ⟨raw⟩) rest
    | none =>
      match budget.access? entry, allowance with
      | none, allowance => left allowance rest
      | some _, 0 => none
      | some _, allowance + 1 => left allowance rest

/-- The entries overdraw no allowance, however little they start with. -/
def Kept (entries : List Entry) : Prop :=
  ∀ allowance, ∃ rest, budget.left allowance entries = some rest

/-- Between two status reads there are at most as many accesses as the first one grants, and none
before the first. -/
def Respected (entries : List Entry) : Prop :=
  (∀ before between after csr,
    entries = before ++ .read budget.status csr.raw :: (between ++ after) →
    Trace.reads budget.status between = [] →
    (between.filterMap budget.access?).length ≤ budget.grant csr) ∧
  ∀ between after, entries = between ++ after → Trace.reads budget.status between = [] →
    between.filterMap budget.access? = []

variable {budget} {first second entries : List Entry}

theorem left_skip {entry : Entry} (blind : entry.taken? budget.status = none)
    (still : budget.access? entry = none) (allowance : Nat) (rest : List Entry) :
    budget.left allowance (entry :: rest) = budget.left allowance rest := by
  simp only [left, blind, still]

theorem left_grant (csr : Csr) (allowance : Nat) (rest : List Entry) :
    budget.left allowance (.read budget.status csr.raw :: rest) =
      budget.left (budget.grant csr) rest := by
  simp only [left, Entry.taken?, if_pos]

-- What follows starts with what is left, so a run keeps to a budget as soon as its parts do.
theorem left_append (allowance : Nat) :
    budget.left allowance (first ++ second) =
      (budget.left allowance first).bind fun rest => budget.left rest second := by
  fun_induction budget.left allowance first with
  | case1 => rfl
  | case2 _ _ _ _ granted ih => simp only [List.cons_append, left, granted, ih]
  | case3 _ _ blind _ quiet ih => simp only [List.cons_append, left, blind, quiet, ih]
  | case4 _ _ blind _ spent => simp only [List.cons_append, left, blind, spent, Option.bind_none]
  | case5 _ _ blind _ _ spent ih => simp only [List.cons_append, left, blind, spent, ih]

theorem Kept.append (kept : budget.Kept first) (others : budget.Kept second) :
    budget.Kept (first ++ second) := by
  intro allowance
  obtain ⟨middle, spent⟩ := kept allowance
  obtain ⟨rest, reached⟩ := others middle
  exact ⟨rest, by simp [left_append, spent, reached]⟩

theorem Kept.of_untouched (untouched : ∀ entry ∈ entries, budget.access? entry = none) :
    budget.Kept entries := by
  intro allowance
  induction entries generalizing allowance with
  | nil => exact ⟨allowance, rfl⟩
  | cons entry rest ih =>
    obtain ⟨quiet, others⟩ := List.forall_mem_cons.mp untouched
    unfold left
    split
    · exact ih others _
    · simpa only [quiet] using ih others allowance

theorem left_of_granted {accesses : List Entry} {allowance : Nat}
    (spends : ∀ entry ∈ accesses, (budget.access? entry).isSome)
    (blind : ∀ entry ∈ accesses, entry.taken? budget.status = none)
    (covered : accesses.length ≤ allowance) :
    budget.left allowance accesses = some (allowance - accesses.length) := by
  induction accesses generalizing allowance with
  | nil => rfl
  | cons entry rest ih =>
    obtain ⟨spent, others⟩ := List.forall_mem_cons.mp spends
    obtain ⟨quiet, silent⟩ := List.forall_mem_cons.mp blind
    obtain ⟨word, spent⟩ := Option.isSome_iff_exists.mp spent
    obtain ⟨allowance, rfl⟩ : ∃ less, allowance = less + 1 := by
      exact ⟨allowance - 1, by simp only [List.length_cons] at covered; omega⟩
    simp only [left, quiet, spent]
    rw [ih others silent (by simpa using covered)]
    simp

theorem Kept.of_granted {accesses : List Entry} {csr : Csr}
    (spends : ∀ entry ∈ accesses, (budget.access? entry).isSome)
    (blind : ∀ entry ∈ accesses, entry.taken? budget.status = none)
    (covered : accesses.length ≤ budget.grant csr) :
    budget.Kept (.read budget.status csr.raw :: accesses) := by
  intro allowance
  exact ⟨_, by rw [left_grant]; exact left_of_granted spends blind covered⟩

inductive Steps (budget : Budget) (entry : Entry) : Nat → Nat → Prop where
  | granted {raw : UInt32} {allowance : Nat} : entry.taken? budget.status = some raw →
    Steps budget entry allowance (budget.grant ⟨raw⟩)
  | idle {allowance : Nat} : entry.taken? budget.status = none → budget.access? entry = none →
    Steps budget entry allowance allowance
  | spent {word : UInt32} {allowance : Nat} : entry.taken? budget.status = none →
    budget.access? entry = some word → Steps budget entry (allowance + 1) allowance

theorem steps_of_left {entry : Entry} {rest : List Entry} {allowance unspent : Nat}
    (spent : budget.left allowance (entry :: rest) = some unspent) :
    ∃ middle, budget.Steps entry allowance middle ∧ budget.left middle rest = some unspent := by
  cases looked : entry.taken? budget.status with
  | some raw =>
    simp only [left, looked] at spent
    exact ⟨_, .granted looked, spent⟩
  | none =>
    cases moved : budget.access? entry with
    | none =>
      simp only [left, looked, moved] at spent
      exact ⟨_, .idle looked moved, spent⟩
    | some word =>
      cases allowance with
      | zero => simp only [left, looked, moved, reduceCtorEq] at spent
      | succ allowance =>
        simp only [left, looked, moved] at spent
        exact ⟨_, .spent looked moved, spent⟩

/-- What is left stays within a limit, if each access moves on by one and each status read grants no
more than there is up to the limit. -/
theorem Steps.covered {entry : Entry} {allowance rest position limit : Nat}
    (steps : budget.Steps entry allowance rest)
    (shown : ∀ raw, entry.taken? budget.status = some raw →
      budget.access? entry = none ∧ position + budget.grant ⟨raw⟩ ≤ limit)
    (covered : position + allowance ≤ limit) :
    ((budget.access? entry).isSome → position < limit) ∧
      position + (if (budget.access? entry).isSome then 1 else 0) + rest ≤ limit := by
  cases steps with
  | granted looked =>
    obtain ⟨still, within⟩ := shown _ looked
    simp [still, within]
  | idle _ still => simp [still, covered]
  | spent _ moved =>
    simp only [moved, Option.isSome_some, if_true, forall_const]
    omega

theorem length_of_left {allowance rest : Nat} {between : List Entry}
    (spent : budget.left allowance between = some rest)
    (blind : Trace.reads budget.status between = []) :
    (between.filterMap budget.access?).length + rest = allowance := by
  induction between generalizing allowance with
  | nil => simpa [left] using spent.symm
  | cons entry others ih =>
    obtain ⟨quiet, silent⟩ : entry.taken? budget.status = none ∧
        Trace.reads budget.status others = [] := by
      simpa only [Trace.reads, List.filterMap_eq_nil_iff, List.forall_mem_cons] using blind
    obtain ⟨middle, steps, spent⟩ := steps_of_left spent
    have counted := ih spent silent
    cases steps with
    | granted looked => cases quiet.symm.trans looked
    | idle _ still => simpa [List.filterMap_cons, still] using counted
    | spent _ moved =>
      simp only [List.filterMap_cons, moved, List.length_cons]
      omega

-- An allowance of zero is the worst start: it forbids any access before the first look.
theorem Kept.respected (kept : budget.Kept entries) : budget.Respected entries := by
  refine ⟨fun before between after csr shape blind => ?_, fun between after shape blind => ?_⟩
  · obtain ⟨rest, spent⟩ := kept 0
    rw [shape, left_append] at spent
    obtain ⟨_, -, spent⟩ := Option.bind_eq_some_iff.mp spent
    rw [left_grant, left_append] at spent
    obtain ⟨_, spent, -⟩ := Option.bind_eq_some_iff.mp spent
    have counted := length_of_left spent blind
    omega
  · obtain ⟨rest, spent⟩ := kept 0
    rw [shape, left_append] at spent
    obtain ⟨_, spent, -⟩ := Option.bind_eq_some_iff.mp spent
    have counted := length_of_left spent blind
    exact List.eq_nil_of_length_eq_zero (by omega)

end Budget

namespace Op

section

variable {entries : List Entry}

/-! ### The host window -/

theorem room_of_checkRoom {csr : Csr} {words : Nat} (here : csr.absent = false)
    (room : (Cursors.ofCsr csr).checkRoom words = .ok ()) : words ≤ csr.room := by
  unfold Cursors.checkRoom Cursors.free? at room
  unfold Csr.room
  cases spilt : (Cursors.ofCsr csr).overflowed with
  | true => simp [spilt] at room
  | false =>
    have within : (Cursors.ofCsr csr).filled ≤ (Cursors.ofCsr csr).depth := by
      simpa [Cursors.overflowed, UInt8.not_lt] using spilt
    simp only [spilt, Bool.false_eq_true, if_false] at room
    split at room
    · next fits =>
      rw [UInt8.toNat_sub_of_le _ _ within] at fits
      simpa [here] using fits
    · cases room

theorem kept_frameWritten {first : Bool} {segment : Frame.Segment} {csr : Csr} {cursor : UInt8}
    (shows : Shows first segment.words.length csr) :
    Budget.host.Kept (.read Register.hostCsr csr.raw ::
      frameWritten segment.header segment.payload cursor) := by
  have granted : Budget.host.Kept (.read Register.hostCsr csr.raw ::
      segment.words.map (.write Register.hostWindow)) :=
    .of_granted (by simp [Budget.host]) (by simp)
      (by rw [List.length_map]; exact room_of_checkRoom shows.here shows.room)
  exact granted.append (.of_untouched (by simp [Budget.host]))

theorem Delivered.kept {first rung : Bool} {segments : List Frame.Segment}
    (delivered : Delivered first segments rung entries) : Budget.host.Kept entries := by
  have idle : ∀ {looking : List Entry}, (∀ entry ∈ looking, entry.Idle) →
      Budget.host.Kept looking := by
    intro looking idle
    refine .of_untouched fun entry member => ?_
    have holds := idle entry member
    cases entry with
    | write => exact holds.elim
    | _ => rfl
  have apart : Register.hostCsr ≠ Register.hostWindow := by decide
  induction delivered with
  | done looking => exact idle looking
  | vanished looking shows =>
    rw [← List.cons_append]
    exact (idle looking).append
      ((kept_frameWritten shows).append (.of_untouched (by simp [Budget.host])))
  | @next _ _ _ _ _ tail _ csr looking shows _ _ ih =>
    rw [← List.cons_append]
    have announced : Budget.host.Kept [.read Register.hostCsr csr.raw,
        .write Register.hostCsr ((csr.raw ||| Csr.generateBit) &&& ~~~Csr.statusBit)] :=
      .of_untouched (by simp [Budget.host, apart])
    exact (idle looking).append ((kept_frameWritten shows).append (announced.append ih))

theorem WritesWhole.kept {message : Message} {route : Route} {succeeds : Prop}
    {reading : List Entry} (whole : WritesWhole message route succeeds reading entries)
    (reads : ∀ entry ∈ reading, entry.Silent) : Budget.host.Kept entries := by
  obtain ⟨_, _, before, delivery, after, _, rfl, prepares, behind, delivered, _⟩ := whole
  have quiet : ∀ {quiet : List Entry}, (∀ entry ∈ quiet, entry.Silent) →
      Budget.host.Kept quiet := fun silent =>
        .of_untouched fun entry member => (silent entry member).1
  have still : ∀ entry ∈ after, entry.Silent := fun entry member => (behind entry member).silent
  exact (quiet prepares.silent).append
    (delivered.kept.append ((quiet still).append (quiet reads)))

theorem kept_of_within {reads : List UInt32} {direction : Option Direction}
    (within : ∀ entry ∈ entries, entry.Within reads [Register.hostCsr] direction) :
    Budget.host.Kept entries :=
  .of_untouched (List.filterMap_eq_nil_iff.mp (Trace.writes_eq_nil within (by decide)))

/-! ### The controller window -/

theorem kept_of_unread {writes : List UInt32} {direction : Option Direction}
    (within : ∀ entry ∈ entries,
      entry.Within [Register.controllerCsr, Register.hostCsr] writes direction) :
    Budget.own.Kept entries :=
  .of_untouched (List.filterMap_eq_nil_iff.mp (Trace.reads_eq_nil within (by decide)))

theorem kept_taking {csr : Csr} {cursors : Cursors} (usual : usable csr = .ok cursors)
    (words : List UInt32) (found : words.length ≤ cursors.filled.toNat) :
    Budget.own.Kept (.read Register.controllerCsr csr.raw ::
      words.map (.read Register.controllerWindow)) := by
  have apart : Register.controllerWindow ≠ Register.controllerCsr := by decide
  obtain ⟨here, rfl, within⟩ := usable_eq_ok.mp usual
  refine .of_granted (by simp [Budget.own]) (by simp [Budget.own, apart]) ?_
  rw [List.length_map]
  simpa [Budget.own, Csr.stock, here, within] using found

theorem Acknowledged.kept (acknowledged : Acknowledged entries) : Budget.own.Kept entries := by
  have aside : ∀ entry ∈ entries, Aside entry := acknowledged.within (by simp) (by simp)
  exact kept_of_unread aside

/-- A wait for usable cursors ends with a look at the cursors that it gives. -/
theorem Awaited.last {α : Type} {accept : Cursors → Option α} {deadline : Deadline} {value : α}
    (awaited : Awaited Register.controllerCsr (whenUsable accept) deadline entries (.ok value)) :
    ∃ earlier csr cursors, entries = earlier ++ [.read Register.controllerCsr csr.raw] ∧
      Budget.own.Kept earlier ∧ usable csr = .ok cursors ∧ accept cursors = some value := by
  have aside : ∀ entry ∈ entries, Aside entry := awaited.within (by simp)
  obtain ⟨rounds, rfl, waited⟩ := awaited
  obtain ⟨earlier, csr, rfl, judged, -⟩ := waited.last
  obtain ⟨cursors, usual, accepted⟩ := whenUsable_eq_ok.mp judged
  rw [← List.cons_append, List.forall_mem_append] at aside
  exact ⟨.wait deadline :: earlier, csr, cursors, rfl, kept_of_unread aside.1, usual, accepted⟩

theorem Discarded.kept {outcome : Except Stop Unit} (discarded : Discarded entries outcome) :
    Budget.own.Kept entries := by
  cases discarded with
  | stopped =>
    have apart : Register.controllerCsr ≠ Register.controllerWindow := by decide
    exact .of_untouched (by simp [Budget.own, apart])
  | taken usual counted acknowledged =>
    exact (kept_taking usual _ (Nat.le_of_eq counted)).append acknowledged.kept

theorem filled_pos {cursors : Cursors} (filled : ¬cursors.isEmpty = true) :
    0 < cursors.filled.toNat := by
  have other : cursors.filled ≠ 0 := by simpa [Cursors.isEmpty] using filled
  exact Nat.pos_of_ne_zero fun zero => other (UInt8.toNat_inj.mp zero)

theorem Arrived.last {deadline : Option Deadline} {cursors : Cursors}
    (arrived : Arrived deadline entries (.ok cursors)) :
    ∃ earlier csr, entries = earlier ++ [.read Register.controllerCsr csr.raw] ∧
      Budget.own.Kept earlier ∧ usable csr = .ok cursors ∧ 0 < cursors.filled.toNat := by
  cases deadline with
  | some deadline =>
    obtain ⟨earlier, csr, seen, rfl, kept, usual, accepted⟩ := Awaited.last arrived
    unfold filledAny at accepted
    split at accepted
    · cases accepted
    · next filled =>
      cases accepted
      exact ⟨earlier, csr, rfl, kept, usual, filled_pos filled⟩
  | none =>
    obtain ⟨csr, rfl, judged⟩ := arrived
    unfold filledNow at judged
    split at judged
    · next seen usual =>
      split at judged
      · cases judged
      · next filled =>
        cases judged
        exact ⟨[], csr, rfl, .of_untouched (by simp), usual, filled_pos filled⟩
    · cases judged

theorem Arrived.kept {deadline : Option Deadline} {cursors : Cursors}
    (arrived : Arrived deadline entries (.ok cursors)) (word : UInt32) :
    Budget.own.Kept (entries ++ [.read Register.controllerWindow word]) := by
  obtain ⟨earlier, csr, rfl, kept, usual, filled⟩ := arrived.last
  simpa using kept.append (kept_taking usual [word] filled)

/-- What a wait for the rest of a frame has found covers taking it. -/
theorem Awaited.kept_taking {words : Nat} {deadline : Deadline} {payload : List UInt32}
    (awaited : Awaited Register.controllerCsr (whenUsable (filledTo words)) deadline entries
      (.ok ()))
    (counted : payload.length = words) :
    Budget.own.Kept (entries ++ payload.map (.read Register.controllerWindow)) := by
  obtain ⟨earlier, csr, cursors, rfl, kept, usual, accepted⟩ := awaited.last
  unfold filledTo at accepted
  split at accepted
  · next found => simpa using kept.append (Op.kept_taking usual payload (counted ▸ found))
  · cases accepted

theorem BodyAwaited.kept_taking {words : Nat} {payload : List UInt32}
    (awaited : BodyAwaited words entries (.ok ())) (counted : payload.length = words) :
    Budget.own.Kept (entries ++ payload.map (.read Register.controllerWindow)) := by
  cases awaited with
  | bare zero =>
    obtain rfl : payload = [] := List.eq_nil_of_length_eq_zero (counted.trans zero)
    exact .of_untouched (by simp)
  | awaited _ awaited => exact awaited.kept_taking counted

theorem kept_of_told {told : Event} : Budget.own.Kept [.event told] :=
  .of_untouched (by simp [Budget.own])

theorem kept_of_said {said : Remark} : Budget.own.Kept [.remark said] :=
  .of_untouched (by simp [Budget.own])

-- Each window access is put behind the look that covers it: the header behind the wait that found
-- the ring filled, the rest behind the wait for so many words. What stands between needs no look.
theorem FrameRead.kept {deadline : Option Deadline}
    {outcome : Except Stop (Frame.Header × List UInt32)}
    (read : FrameRead deadline entries outcome) : Budget.own.Kept entries := by
  cases read with
  | missing arrived =>
    have aside : ∀ entry ∈ entries, Aside entry := arrived.within (by simp)
    exact kept_of_unread aside
  | oversized arrived _ discarded =>
    simpa using (arrived.kept _).append (kept_of_said.append discarded.kept)
  | undiscarded arrived _ discarded =>
    simpa using (arrived.kept _).append (kept_of_said.append discarded.kept)
  | @cutOff _ waiting _ _ _ arrived _ awaited =>
    have aside : ∀ entry ∈ waiting, Aside entry := awaited.within (by simp)
    simpa using (arrived.kept _).append (kept_of_unread aside)
  | taken arrived _ awaited counted acknowledged =>
    simpa using (arrived.kept _).append
      ((awaited.kept_taking counted).append (kept_of_told.append acknowledged.kept))

theorem MessageRead.kept {capacity : Nat} {deadline : Option Deadline} {assembly : Assembly}
    {outcome : Except Stop Message}
    (read : MessageRead capacity deadline assembly entries outcome) :
    Budget.own.Kept entries := by
  induction read with
  | stopped read => exact read.kept
  | last read _ finished =>
    refine read.kept.append ?_
    cases finished with
    | oversized => exact kept_of_said
    | whole => exact .of_untouched (by simp)
  | next read _ _ ih => exact read.kept.append ih
  | unfinished => exact .of_untouched (by simp)

theorem ReadHalf.kept {capacity : Nat} {deadline : Option Deadline}
    {outcome : Except Stop Message} (half : ReadHalf capacity deadline entries outcome) :
    Budget.own.Kept entries := by
  cases half with
  | complete read => exact read.kept.append kept_of_told
  | failed read => exact read.kept.append kept_of_told
  | abandoned _ read => exact read.kept

theorem FrameDiscarded.kept {depth : UInt8} {csr : Csr} {cursors : Cursors}
    {outcome : Except Stop Unit} (discarded : FrameDiscarded depth entries outcome)
    (usual : usable csr = .ok cursors) (filled : ¬cursors.isEmpty = true) :
    Budget.own.Kept (.read Register.controllerCsr csr.raw :: entries) := by
  have header := fun word => kept_taking usual [word] (filled_pos filled)
  cases discarded with
  | oversized _ discarded => exact (header _).append discarded.kept
  | @cutOff _ _ waiting _ _ awaited =>
    have aside : ∀ entry ∈ waiting, Aside entry := awaited.within (by simp)
    exact (header _).append (kept_of_unread aside)
  | taken _ awaited counted acknowledged =>
    simpa using (header _).append ((awaited.kept_taking counted).append acknowledged.kept)

theorem FramesDiscarded.kept {frames : Nat} {outcome : Except Stop Nat}
    (discarded : FramesDiscarded frames entries outcome) : Budget.own.Kept entries := by
  have look : ∀ csr : Csr, Budget.own.Kept [.read Register.controllerCsr csr.raw] := by
    intro csr
    have aside : ∀ entry ∈ [Entry.read Register.controllerCsr csr.raw], Aside entry := by
      simp [Aside]
    exact kept_of_unread aside
  -- The look that finds a frame covers its header too, so each frame is counted together with it.
  induction discarded with
  | limit => exact .of_untouched (by simp)
  | stopped => exact look _
  | empty => exact look _
  | undiscarded usual filled undiscarded => exact undiscarded.kept usual (by simp [filled])
  | next usual filled discarded _ ih =>
    exact (discarded.kept usual (by simp [filled])).append ih

theorem Drained.kept {outcome : Except Stop Nat} (drained : Drained entries outcome) :
    Budget.own.Kept entries := by
  cases drained with
  | nothing discarded => exact discarded.kept
  | removed _ discarded => exact discarded.kept.append kept_of_told
  | stopped discarded => exact discarded.kept

/-! ### Calls -/

theorem Called.kept_host {link : Link} {call : Call} {outcome : Except Stop Unit}
    (called : Called link call entries outcome) : Budget.host.Kept entries := by
  cases called with
  | send sent => exact sent.whole.kept (List.forall_mem_nil _)
  | sendAndAwait exchanged =>
    obtain ⟨_, reads, whole⟩ := exchanged.whole
    exact whole.kept reads.silent
  | receive received =>
    obtain ⟨_, half, reading, rfl⟩ := received
    exact kept_of_within (List.forall_mem_cons.mpr ⟨trivial, reading.inbound⟩)
  | drain drained => exact kept_of_within drained.draining
  | bringUp broughtUp => exact kept_of_within broughtUp.aside
  | reset reset => exact kept_of_within reset.aside

theorem Called.kept_own {link : Link} {call : Call} {outcome : Except Stop Unit}
    (called : Called link call entries outcome) : Budget.own.Kept entries := by
  cases called with
  | send sent =>
    cases sent with
    | complete half => exact (kept_of_unread half.outbound).append kept_of_told
    | stopped half => exact kept_of_unread half.outbound
  | sendAndAwait exchanged =>
    cases exchanged with
    | unsent half => exact kept_of_unread half.outbound
    | read half reading =>
      exact (kept_of_unread half.outbound).append (kept_of_told.append reading.kept)
  | receive received =>
    obtain ⟨_, half, reading, rfl⟩ := received
    exact kept_of_told.append reading.kept
  | drain drained => exact drained.kept
  | bringUp broughtUp => exact kept_of_unread broughtUp.aside
  | reset reset => exact kept_of_unread reset.aside

theorem AllCalled.kept_host {calls : List (Link × Call)} (called : AllCalled calls entries) :
    Budget.host.Kept entries := by
  induction called with
  | nil => exact .of_untouched (by simp)
  | cons called _ ih => exact called.kept_host.append ih

theorem AllCalled.kept_own {calls : List (Link × Call)} (called : AllCalled calls entries) :
    Budget.own.Kept entries := by
  induction called with
  | nil => exact .of_untouched (by simp)
  | cons called _ ih => exact called.kept_own.append ih

end

end Op

end HeciMailbox
