import HeciMailbox.Proofs.FlowControl

/-! A peer that supplies a stream of frames while it is read.

The peer adds words to the controller ring whenever it likes, in the middle of a frame and in the
middle of a wait. Whatever it does, the words that a flow-controlled run pops are the next words of
the stream. -/

set_option autoImplicit false

namespace HeciMailbox

structure Frame.Segment.Fits (depth : UInt8) (segment : Frame.Segment) : Prop where
  counted : segment.payload.length = segment.header.words
  short : segment.header.words < depth.toNat

instance (depth : UInt8) (segment : Frame.Segment) : Decidable (segment.Fits depth) :=
  decidable_of_iff (segment.payload.length = segment.header.words ∧
    segment.header.words < depth.toNat) ⟨fun ⟨counted, short⟩ => ⟨counted, short⟩,
      fun ⟨counted, short⟩ => ⟨counted, short⟩⟩

/-- The frames that a peer means to supply. The first word has the number `first`, of which its
cursor shows the last eight bits. -/
structure Feed where
  depth : UInt8
  first : Nat
  frames : List Frame.Segment
  fits : ∀ frame ∈ frames, frame.Fits depth

namespace Feed

variable (feed : Feed)

def words : List UInt32 := feed.frames.flatMap Frame.Segment.words

def after (number : Nat) : List UInt32 := feed.words.drop (number - feed.first)

theorem after_first : feed.after feed.first = feed.words := by
  rw [after, Nat.sub_self, List.drop_zero]

/-- The words of the feed up to `supplied` have gone into the ring and those up to `popped` out of
it. -/
structure Stocks (traffic : Traffic) : Prop where
  first : feed.first ≤ traffic.popped
  popped : traffic.popped ≤ traffic.supplied
  depth : traffic.supplied ≤ traffic.popped + feed.depth.toNat
  supplied : traffic.supplied ≤ feed.first + feed.words.length

/-- The peer supplies the words of the feed in order and no more than fit, and shows its cursors as
they are. Of the other ring nothing is assumed. -/
def Permits (traffic : Traffic) : Move → Prop
  | .supply words => traffic.supplied + words ≤ traffic.popped + feed.depth.toNat ∧
    traffic.supplied + words ≤ feed.first + feed.words.length
  | .host (.read offset value) =>
    (offset = Register.controllerCsr →
      (Csr.mk value).Shows traffic.popped traffic.supplied feed.depth) ∧
    (offset = Register.controllerWindow → traffic.popped < traffic.supplied →
      (feed.after traffic.popped).head? = some value)
  | .host (.write ..) | .host (.wait _) | .host (.event _) | .host (.remark _) | .take _ => True

instance (traffic : Traffic) : DecidablePred (feed.Permits traffic)
  | .supply _ => inferInstanceAs (Decidable (_ ∧ _))
  | .host (.read ..) => inferInstanceAs (Decidable (_ ∧ _))
  | .host (.write ..) | .host (.wait _) | .host (.event _) | .host (.remark _) | .take _ =>
    .isTrue trivial

end Feed

/-- The entries of a run, with a peer that supplies so many words before each of them. -/
def Move.weave : List Nat → List Entry → List Move
  | words :: counts, entry :: rest => .supply words :: .host entry :: weave counts rest
  | _, rest => rest.map .host

theorem Move.entries_weave (counts : List Nat) (entries : List Entry) :
    (Move.weave counts entries).filterMap Move.entry? = entries := by
  induction counts generalizing entries with
  | nil => simp [weave, Function.comp_def, Move.entry?]
  | cons words counts ih =>
    cases entries with
    | nil => rfl
    | cons entry rest => exact congrArg (entry :: ·) (ih rest)

def Traffic.Supplied (traffic : Traffic) : Move → Prop
  | .host (.read offset _) => offset = Register.controllerWindow → traffic.popped < traffic.supplied
  | .host (.write ..) | .host (.wait _) | .host (.event _) | .host (.remark _)
  | .take _ | .supply _ => True

/-- A look at the controller status shows no overflow of its ring, and the depth that the ring
has. -/
def Entry.Coherent (depth : UInt8) (entry : Entry) : Prop :=
  ∀ raw, entry.taken? Register.controllerCsr = some raw → (Csr.mk raw).absent = false →
    (Cursors.ofCsr ⟨raw⟩).overflowed = false ∧ (Cursors.ofCsr ⟨raw⟩).depth = depth

namespace Feed

variable {feed : Feed} {traffic : Traffic}

theorem shows_of_permits {entry : Entry} (permits : feed.Permits traffic (.host entry))
    (raw : UInt32) (looked : entry.taken? Register.controllerCsr = some raw) :
    (Csr.mk raw).Shows traffic.popped traffic.supplied feed.depth := by
  cases entry with
  | read offset value =>
    obtain ⟨status, rfl⟩ : offset = Register.controllerCsr ∧ value = raw := by simpa using looked
    exact permits.1 status
  | _ => simp at looked

theorem coherent_of_permits {entry : Entry} (stocks : feed.Stocks traffic)
    (permits : feed.Permits traffic (.host entry)) : entry.Coherent feed.depth := by
  intro raw looked here
  obtain absent | shown := shows_of_permits permits raw looked
  · simp [absent] at here
  · rw [shown]
    refine ⟨?_, rfl⟩
    have filled := Traffic.filled_of_shown stocks.popped stocks.depth
    have within := stocks.depth
    simp only [Cursors.overflowed, decide_eq_false_iff_not, UInt8.lt_iff_toNat_lt, filled]
    omega

theorem after_popped {entry : Entry} {value : UInt32} (stocks : feed.Stocks traffic)
    (permits : feed.Permits traffic (.host entry))
    (popped : entry.taken? Register.controllerWindow = some value)
    (there : traffic.popped < traffic.supplied) :
    feed.after traffic.popped = value :: feed.after (traffic.popped + 1) := by
  cases entry with
  | read offset word =>
    obtain ⟨window, rfl⟩ : offset = Register.controllerWindow ∧ word = value := by
      simpa using popped
    obtain ⟨rest, next⟩ := List.head?_eq_some_iff.mp (permits.2 window there)
    have first := stocks.first
    have later : feed.after (traffic.popped + 1) = (feed.after traffic.popped).drop 1 := by
      rw [after, after, List.drop_drop]
      congr 1
      omega
    rw [later, next, List.drop_one, List.tail_cons]
  | _ => simp at popped

/-- What a run takes from a feed. -/
structure Gives (feed : Feed) (traffic : Traffic) (moves : List Move) : Prop where
  supplied : traffic.Throughout Traffic.Supplied moves
  coherent : ∀ entry ∈ moves.filterMap Move.entry?, entry.Coherent feed.depth
  stocks : feed.Stocks (moves.foldl Traffic.after traffic)
  popped : (moves.foldl Traffic.after traffic).popped = traffic.popped +
    (Trace.reads Register.controllerWindow (moves.filterMap Move.entry?)).length
  words : feed.after traffic.popped =
    Trace.reads Register.controllerWindow (moves.filterMap Move.entry?) ++
      feed.after (moves.foldl Traffic.after traffic).popped

theorem supplied_of_popped {entry : Entry}
    (there : (entry.taken? Register.controllerWindow).isSome → traffic.popped < traffic.supplied) :
    traffic.Supplied (.host entry) := by
  cases entry with
  | read offset value =>
    intro window
    exact there (by simp [window])
  | _ => trivial

theorem Stocks.after_host {entry : Entry} {rest : Nat} (stocks : feed.Stocks traffic)
    (covered : (traffic.after (.host entry)).popped + rest ≤ traffic.supplied) :
    feed.Stocks (traffic.after (.host entry)) := by
  obtain ⟨first, popped, depth, supplied⟩ := stocks
  refine ⟨?_, ?_, ?_, supplied⟩ <;> simp only [Traffic.after] at covered ⊢ <;> omega

theorem reads_cons (offset : UInt32) (entry : Entry) (rest : List Entry) :
    Trace.reads offset (entry :: rest) = Trace.reads offset [entry] ++ Trace.reads offset rest :=
  Trace.reads_append offset [entry] rest

theorem popped_after_host (traffic : Traffic) (entry : Entry) :
    (traffic.after (.host entry)).popped =
      traffic.popped + (Trace.reads Register.controllerWindow [entry]).length := by
  cases popped : entry.taken? Register.controllerWindow <;>
    simp only [Traffic.after, Trace.reads, List.filterMap_cons, List.filterMap_nil, popped] <;> rfl

theorem after_host {entry : Entry} (stocks : feed.Stocks traffic)
    (permits : feed.Permits traffic (.host entry))
    (there : (entry.taken? Register.controllerWindow).isSome → traffic.popped < traffic.supplied) :
    feed.after traffic.popped = Trace.reads Register.controllerWindow [entry] ++
      feed.after (traffic.after (.host entry)).popped := by
  rw [popped_after_host]
  cases popped : entry.taken? Register.controllerWindow with
  | none => simp only [Trace.reads, List.filterMap_cons, List.filterMap_nil, popped]; rfl
  | some value =>
    have next := after_popped stocks permits popped (there (by rw [popped]; rfl))
    simp only [Trace.reads, List.filterMap_cons, List.filterMap_nil, popped]
    exact next

theorem entries_host (entry : Entry) (rest : List Move) :
    (Move.host entry :: rest).filterMap Move.entry? = entry :: rest.filterMap Move.entry? := rfl

theorem gives_of_left {moves : List Move} {allowance left : Nat}
    (spent : Budget.own.left allowance (moves.filterMap Move.entry?) = some left)
    (stocks : feed.Stocks traffic) (covered : traffic.popped + allowance ≤ traffic.supplied)
    (permits : traffic.Throughout feed.Permits moves) : feed.Gives traffic moves := by
  -- The invariant: what is left of the budget is in the ring, so each word popped has been supplied
  -- and is the one that the feed says comes next.
  induction moves generalizing traffic allowance with
  | nil => exact ⟨trivial, by simp, stocks, rfl, rfl⟩
  | cons move rest ih =>
    obtain ⟨permitted, others⟩ := permits
    cases move with
    | take words =>
      obtain ⟨first, popped, depth, supplied⟩ := stocks
      have stocks : feed.Stocks (traffic.after (.take words)) := ⟨first, popped, depth, supplied⟩
      obtain ⟨goesOn, coherent, stocked, count, next⟩ := ih spent stocks covered others
      exact ⟨⟨trivial, goesOn⟩, coherent, stocked, count, next⟩
    | supply words =>
      obtain ⟨first, popped, depth, supplied⟩ := stocks
      obtain ⟨room, bounded⟩ := permitted
      have stocks : feed.Stocks (traffic.after (.supply words)) :=
        ⟨first, Nat.le_add_right_of_le popped, room, bounded⟩
      have covered : traffic.popped + allowance ≤ (traffic.after (.supply words)).supplied :=
        Nat.le_add_right_of_le covered
      obtain ⟨goesOn, coherent, stocked, count, next⟩ := ih spent stocks covered others
      exact ⟨⟨trivial, goesOn⟩, coherent, stocked, count, next⟩
    | host entry =>
      obtain ⟨middle, steps, spent⟩ := Budget.steps_of_left spent
      obtain ⟨there, covered⟩ := Traffic.own_step steps (shows_of_permits permitted) stocks.popped
        stocks.depth covered
      obtain ⟨goesOn, coherent, stocked, count, next⟩ :=
        ih spent (stocks.after_host covered) covered others
      refine ⟨⟨supplied_of_popped there, goesOn⟩, ?_, stocked, ?_, ?_⟩
      · exact List.forall_mem_cons.mpr ⟨coherent_of_permits stocks permitted, coherent⟩
      · have one := popped_after_host traffic entry
        rw [entries_host, reads_cons, List.length_append, List.foldl_cons, count]
        omega
      · rw [entries_host, reads_cons, List.foldl_cons, List.append_assoc, ← next]
        exact after_host stocks permitted there

end Feed

end HeciMailbox
