import HeciMailbox.Proofs.Framing

/-! A read takes the next message, however the peer supplies it.

The peer adds the words of its frames one at a time between the accesses of the host, so a look may
find any part of a frame in the ring. A read that starts at the first frame of a message either
takes that message to its last word or ends without a message. -/

set_option autoImplicit false

namespace HeciMailbox

/-- These are the frames of the first message of the feed, and these its bytes. -/
def Feed.Next (feed : Feed) (frames : List Frame.Segment) (bytes : List UInt8) : Prop :=
  frames <+: feed.frames ∧ Frame.Conveys frames bytes

/-- How a read ends that starts at the first word of the feed and leaves the rings as `reached`
says: with the next message, with its length if it is too large, or without either. The ring is
never found in overflow. -/
structure ReadsNext (feed : Feed) (capacity : Nat) (reached : Traffic)
    (outcome : Except Stop Message) : Prop where
  message : ∀ message, outcome = .ok message → ∃ frames bytes, feed.Next frames bytes ∧
    message = .ofBytes bytes ∧ bytes.length ≤ capacity ∧
    reached.popped = feed.first + (frames.flatMap Frame.Segment.words).length
  tooSmall : ∀ needed limit, outcome = .error (.fault (.tooSmall needed limit)) →
    ∃ frames bytes, feed.Next frames bytes ∧ needed = bytes.length ∧ limit = capacity ∧
      capacity < bytes.length ∧
      reached.popped = feed.first + (frames.flatMap Frame.Segment.words).length
  calm : ∀ filled depth requested,
    outcome ≠ .error (.fault (.overflow filled depth requested))

namespace Op

variable {feed : Feed} {traffic : Traffic} {moves : List Move} {entries : List Entry}
  {capacity : Nat} {outcome : Except Stop Message}

theorem ReadOff.readsNext {read tail : List UInt32} {reached : Traffic}
    (readOff : ReadOff capacity feed.frames tail outcome) (split : feed.words = read ++ tail)
    (popped : reached.popped = feed.first + read.length) :
    ReadsNext feed capacity reached outcome := by
  cases readOff with
  | @whole taken rest bytes _ frames conveys left ending =>
    have next : feed.Next taken bytes := ⟨⟨rest, frames.symm⟩, conveys⟩
    have all : read = taken.flatMap Frame.Segment.words := by
      rw [Feed.words, frames, List.flatMap_append, left] at split
      exact (List.append_cancel_right split).symm
    subst ending
    rw [all] at popped
    by_cases small : bytes.length ≤ capacity
    · rw [if_pos small]
      refine ⟨?_, by simp, by simp⟩
      rintro _ ⟨⟩
      exact ⟨taken, bytes, next, rfl, small, popped⟩
    · rw [if_neg small]
      refine ⟨by simp, ?_, by simp⟩
      rintro _ _ ⟨⟩
      exact ⟨taken, bytes, next, rfl, rfl, Nat.lt_of_not_le small, popped⟩
  | between _ _ _ plain calm | inside _ _ _ _ plain calm =>
    refine ⟨by simp, ?_, ?_⟩
    · rintro _ _ ⟨⟩
      exact plain.elim
    · rintro _ _ _ ⟨⟩
      exact calm trivial

theorem ReadHalf.readsNext {deadline : Option Deadline} {lead half : List Entry}
    (read : ReadHalf capacity deadline half outcome)
    (gives : feed.Gives traffic moves) (boundary : traffic.popped = feed.first)
    (run : moves.filterMap Move.entry? = lead ++ half)
    (untaken : Trace.reads Register.controllerWindow lead = []) :
    ReadsNext feed capacity (moves.foldl Traffic.after traffic) outcome := by
  obtain ⟨-, coherent, -, popped, words⟩ := gives
  rw [run, Trace.reads_append, untaken, List.nil_append, boundary] at popped words
  rw [Feed.after_first] at words
  refine ReadOff.readsNext (read.readOff ?_ feed.fits words) words popped
  exact fun entry member => coherent entry (by rw [run]; exact List.mem_append_right _ member)

theorem gives_of_called {link : Link} {call : Call} {ended : Except Stop Unit}
    (called : Called link call entries ended) (run : moves.filterMap Move.entry? = entries)
    (stocks : feed.Stocks traffic) (permits : traffic.Throughout feed.Permits moves) :
    feed.Gives traffic moves := by
  obtain ⟨left, spent⟩ := called.kept_own 0
  exact Feed.gives_of_left (run ▸ spent) stocks stocks.popped permits

/-- On any hardware whose controller ring a peer fills from a feed, at whatever moments, a receive
and the read half of an exchange that start at the first frame of a message take that message or
none, and no word before it has been supplied. -/
theorem reads_take_the_next_message {σ : Type} [Registers σ] [Clock σ] [Registers.Answers σ]
    (link : Link) (blocking : Bool) (request : Message) (route : Route) (timeout capacity : Nat)
    (world : World σ) (feed : Feed) (traffic : Traffic) (moves : List Move)
    (stocks : feed.Stocks traffic) (boundary : traffic.popped = feed.first)
    (permits : traffic.Throughout feed.Permits moves) :
    (moves.filterMap Move.entry? = (receive link blocking).added world →
      traffic.Throughout Traffic.Supplied moves ∧
      ReadsNext feed link.device.maxLength (moves.foldl Traffic.after traffic)
        ((receive link blocking).outcome world)) ∧
    (moves.filterMap Move.entry? =
        (sendAndAwait link request route timeout capacity).added world →
      traffic.Throughout Traffic.Supplied moves ∧
      (.event (.phaseChanged .sending .awaitingResponse) ∈
          (sendAndAwait link request route timeout capacity).added world →
        ReadsNext feed capacity (moves.foldl Traffic.after traffic)
          ((sendAndAwait link request route timeout capacity).outcome world))) := by
  constructor
  · intro run
    obtain ⟨received, -⟩ := (receive_ensures link blocking).holds world
    have called : Called link (.receive blocking) _ _ := .receive received
    have gives := gives_of_called called run stocks permits
    obtain ⟨deadline, half, read, shape⟩ := received
    have run : moves.filterMap Move.entry? =
      [.event (.phaseChanged .idle .awaitingResponse)] ++ half := run.trans shape
    exact ⟨gives.supplied, read.readsNext gives boundary run rfl⟩
  · intro run
    obtain ⟨exchanged, -⟩ := (sendAndAwait_ensures link request route timeout capacity).holds world
    have called : Called link (.sendAndAwait request route timeout capacity) _ _ :=
      .sendAndAwait exchanged
    have gives := gives_of_called called run stocks permits
    refine ⟨gives.supplied, fun awaits => ?_⟩
    generalize (sendAndAwait link request route timeout capacity).added world = entries at *
    generalize (sendAndAwait link request route timeout capacity).outcome world = outcome at *
    cases exchanged with
    | unsent half => exact absurd awaits half.not_awaiting
    | @read sending reading deadline _ half read =>
      have untaken : Trace.reads Register.controllerWindow
          (sending ++ [.event (.phaseChanged .sending .awaitingResponse)]) = [] := by
        rw [Trace.reads_append, Trace.reads_eq_nil half.outbound (by decide)]
        rfl
      exact read.readsNext gives boundary (run.trans (by simp)) untaken

/-- A message of seven bytes in two frames, and one of a single byte behind it. The cursors wrap
inside the first frame. -/
def trickle : Feed where
  depth := 8
  first := 254
  frames := [⟨⟨0x00050007⟩, [0x04030201, 0xAAAAAA05]⟩, ⟨⟨0x80020007⟩, [0xBBBB0706]⟩,
    ⟨⟨0x80010007⟩, [0x000000FF]⟩]
  fits := by decide

def trickling : World (Timed Bus.Replay) where
  hardware := ⟨⟨[0x08000008],
    [0x08FEFE08, 0x08FFFE08, 0x08FFFF08, 0x0800FF08, 0x0801FF08, 0x08040108, 0x08040208],
    [0x00050007, 0x04030201, 0xAAAAAA05, 0x80020007, 0xBBBB0706, 0x80010007]⟩, 0⟩

def trickledRun : List Move :=
  Move.weave [0, 0, 0, 1, 0, 0, 0, 1, 1, 0, 0, 0, 0, 0, 0, 3]
    ((receive (.ofConfig {} 0xFED1A000 8) true).added trickling)

theorem trickling_message_is_read_whole :
    ((receive (.ofConfig {} 0xFED1A000 8) true).outcome trickling).toOption.map Message.bytes =
      some [1, 2, 3, 4, 5, 6, 7] ∧
    Traffic.Throughout Traffic.Supplied ⟨8, 8, 0, 0, 254, 254⟩ trickledRun ∧
    ReadsNext trickle 0x1000 (trickledRun.foldl Traffic.after ⟨8, 8, 0, 0, 254, 254⟩)
      ((receive (.ofConfig {} 0xFED1A000 8) true).outcome trickling) := by
  refine ⟨by decide +kernel, ?_⟩
  exact (reads_take_the_next_message (.ofConfig {} 0xFED1A000 8) true .empty ⟨0, 7⟩ 0 0 trickling
    trickle ⟨8, 8, 0, 0, 254, 254⟩ trickledRun ⟨by decide, by decide, by decide, by decide⟩ rfl
    (by decide +kernel)).1 (Move.entries_weave _ _)

end Op

end HeciMailbox
