import HeciMailbox.Proofs.Fifo

/-! A ring is a bounded queue to its users.

What a ring of a depth that divides 256 answers is told by the words in it alone, wherever its
cursors stand and however often they have wrapped. Cursors in overflow make any ring refuse all that
is asked of it up to the next reset. -/

set_option autoImplicit false

namespace HeciMailbox.Controller.Ring

inductive Request where
  | push (word : UInt32)
  | pop
  | peek (place : Nat)
  | reset
  deriving DecidableEq, Repr

inductive Answer where
  /-- Whether the word was accepted. -/
  | accepted (yes : Bool)
  | word (word? : Option UInt32)
  | cleared
  deriving DecidableEq, Repr

def Answer.refuses : Answer → Bool
  | .accepted yes => !yes
  | .word word? => word?.isNone
  | .cleared => false

/-! ### The queue -/

/-- What is in a ring: words, oldest first, or nothing that could be told in overflow. -/
inductive Stock where
  | queue (words : List UInt32)
  | jammed
  deriving DecidableEq, Repr

namespace Stock

/-- A queue of at most `capacity` words. -/
def ask (capacity : Nat) : Stock → Request → Answer × Stock
  | _, .reset => (.cleared, .queue [])
  | .queue words, .push word =>
    if words.length < capacity then (.accepted true, .queue (words ++ [word]))
    else (.accepted false, .queue words)
  | .queue [], .pop => (.word none, .queue [])
  | .queue (word :: rest), .pop => (.word (some word), .queue rest)
  | .queue words, .peek place => (.word words[place]?, .queue words)
  | .jammed, .push _ => (.accepted false, .jammed)
  | .jammed, .pop | .jammed, .peek _ => (.word none, .jammed)

def askAll (capacity : Nat) (stock : Stock) : List Request → List Answer × Stock
  | [] => ([], stock)
  | request :: rest =>
    let (answer, next) := stock.ask capacity request
    let (answers, last) := next.askAll capacity rest
    (answer :: answers, last)

end Stock

/-! ### The ring -/

/-- A request to a ring, which stays as it is where it refuses. -/
def ask (ring : Ring) : Request → Answer × Ring
  | .push word =>
    match ring.push? word with
    | some next => (.accepted true, next)
    | none => (.accepted false, ring)
  | .pop =>
    match ring.pop? with
    | some (word, next) => (.word (some word), next)
    | none => (.word none, ring)
  | .peek place => (.word (ring.peek? place), ring)
  | .reset => (.cleared, ring.reset)

def askAll (ring : Ring) : List Request → List Answer × Ring
  | [] => ([], ring)
  | request :: rest =>
    let (answer, next) := ring.ask request
    let (answers, last) := next.askAll rest
    (answer :: answers, last)

def stock (ring : Ring) : Stock :=
  if ring.cursors.overflowed then .jammed else .queue ring.toList

variable {ring next : Ring}

/-! ### Refusals -/

theorem push?_of_overflowed (spilt : ring.cursors.overflowed = true) (word : UInt32) :
    ring.push? word = none := by
  have beyond := Cursors.overflowed_eq_true.mp spilt
  rw [toNat_cursors_depth] at beyond
  exact push?_of_no_room (room_eq.trans (Nat.sub_eq_zero_of_le (Nat.le_of_lt beyond))) word

theorem peek?_of_overflowed (spilt : ring.cursors.overflowed = true) (place : Nat) :
    ring.peek? place = none := by
  simp [peek?, spilt]

theorem pop?_of_peek? (missing : ring.peek? 0 = none) : ring.pop? = none := by
  simp [pop?, missing]

theorem ask_of_overflowed (spilt : ring.cursors.overflowed = true) {request : Request}
    (other : request ≠ .reset) :
    (ring.ask request).1.refuses = true ∧ (ring.ask request).2 = ring ∧
      ((ring.ask request).1, Stock.jammed) = Stock.jammed.ask ring.slots.size request := by
  have unseen := peek?_of_overflowed spilt
  cases request with
  | push word =>
    simp [ask, push?_of_overflowed spilt, Answer.refuses, Stock.ask]
  | pop => simp [ask, pop?_of_peek? (unseen 0), Answer.refuses, Stock.ask]
  | peek place => simp [ask, unseen, Answer.refuses, Stock.ask]
  | reset => exact absurd rfl other

theorem askAll_of_overflowed (spilt : ring.cursors.overflowed = true) {requests : List Request}
    (others : Request.reset ∉ requests) :
    (∀ answer ∈ (ring.askAll requests).1, answer.refuses = true) ∧
      (ring.askAll requests).2 = ring := by
  induction requests with
  | nil => exact ⟨by simp [askAll], rfl⟩
  | cons request rest ih =>
    obtain ⟨other, others⟩ := not_or.mp (mt List.mem_cons.mpr others)
    obtain ⟨refused, same, -⟩ := ask_of_overflowed spilt (Ne.symm other)
    obtain ⟨answers, last⟩ := ih others
    simp only [askAll, same]
    exact ⟨List.forall_mem_cons.mpr ⟨refused, answers⟩, last⟩

/-- A refusal leaves the slots and the cursors alone. -/
theorem ask_of_refuses {request : Request} (refused : (ring.ask request).1.refuses = true) :
    (ring.ask request).2 = ring := by
  cases request with
  | push word =>
    cases pushed : ring.push? word with
    | some next => simp [ask, pushed, Answer.refuses] at refused
    | none => simp [ask, pushed]
  | pop =>
    cases popped : ring.pop? with
    | some taken => simp [ask, popped, Answer.refuses] at refused
    | none => simp [ask, popped]
  | peek place => rfl
  | reset => simp [ask, Answer.refuses] at refused

/-! ### One request -/

theorem stock_reset (ring : Ring) : ring.reset.stock = .queue [] := by
  simp [stock, toList, reset, cursors, Cursors.overflowed, Cursors.filled]

theorem stock_of_same (same : ring.read = ring.write) : ring.stock = .queue [] := by
  simp [stock, toList, cursors, Cursors.overflowed, Cursors.filled, same]

theorem Sound.stock (sound : ring.Sound) : ring.stock = .queue ring.toList := by
  simp [Ring.stock, sound.not_overflowed]

theorem Sound.peek?_toList (sound : ring.Sound) (place : Nat) :
    ring.peek? place = ring.toList[place]? := by
  rw [sound.peek?_eq, sound.toList_eq, List.getElem?_map]
  by_cases inside : place < ring.cursors.filled.toNat
  · simp [inside]
  · simp [inside]

theorem size_ask (ring : Ring) (request : Request) :
    (ring.ask request).2.slots.size = ring.slots.size := by
  unfold ask
  split
  · split
    · next pushed => exact size_of_push? pushed
    · rfl
  · split
    · next popped => exact size_pop? popped
    · rfl
  · rfl
  · rfl

theorem Sound.ask (sound : ring.Sound) (request : Request) :
    ((ring.ask request).1, (ring.ask request).2.stock) =
      (Stock.queue ring.toList).ask ring.slots.size request := by
  cases request with
  | push word =>
    by_cases room : ring.toList.length < ring.slots.size
    · obtain ⟨next, pushed, sound', queue, -⟩ := sound.push? room word
      simp [Ring.ask, pushed, Stock.ask, room, sound'.stock, queue]
    · have full : ring.room = 0 :=
        sound.room_eq.trans (Nat.sub_eq_zero_of_le (Nat.le_of_not_lt room))
      simp [Ring.ask, push?_of_no_room full, Stock.ask, room, sound.stock]
  | pop =>
    cases queue : ring.toList with
    | nil =>
      have missing : ring.peek? 0 = none := by rw [sound.peek?_toList, queue]; rfl
      simp [Ring.ask, pop?_of_peek? missing, Stock.ask, sound.stock, queue]
    | cons word rest =>
      obtain ⟨next, popped, sound', queue', -⟩ := sound.pop? queue
      simp [Ring.ask, popped, Stock.ask, sound'.stock, queue']
  | peek place => simp [Ring.ask, Stock.ask, sound.stock, sound.peek?_toList]
  | reset => simp [Ring.ask, Stock.ask, stock_reset]

theorem ask_eq (power : ring.slots.size.isPowerOfTwo) (request : Request) :
    ((ring.ask request).1, (ring.ask request).2.stock) =
      ring.stock.ask ring.slots.size request := by
  cases spilt : ring.cursors.overflowed with
  | false =>
    have within := Cursors.overflowed_eq_false.mp spilt
    rw [toNat_cursors_depth] at within
    have sound := sound_of_power power within
    rw [sound.stock]
    exact sound.ask request
  | true =>
    have jammed : ring.stock = .jammed := by simp [stock, spilt]
    by_cases clears : request = .reset
    · subst clears
      simp [ask, Stock.ask, stock_reset]
    · obtain ⟨-, same, answer⟩ := ask_of_overflowed spilt clears
      rw [same, jammed]
      exact answer

/-! ### Any number of requests -/

theorem askAll_eq (power : ring.slots.size.isPowerOfTwo) (requests : List Request) :
    ((ring.askAll requests).1, (ring.askAll requests).2.stock) =
      ring.stock.askAll ring.slots.size requests := by
  induction requests generalizing ring with
  | nil => rfl
  | cons request rest ih =>
    have step := ask_eq power request
    have size := size_ask ring request
    have power' : (ring.ask request).2.slots.size.isPowerOfTwo := by rwa [size]
    have others := ih power'
    rw [size] at others
    simp only [askAll, Stock.askAll, ← step, ← others]

/-- A ring whose depth is a power of two answers any run of requests as a queue of that capacity
does, which starts empty where the cursors are equal; a refusal changes nothing; and cursors that
were forced into overflow make all requests be refused, and change nothing, up to a reset, which
empties the ring. -/
theorem ring_is_a_bounded_queue {ring : Ring} (power : ring.slots.size.isPowerOfTwo) :
    (ring.read = ring.write → ring.stock = .queue []) ∧
      (∀ requests : List Request,
        ((ring.askAll requests).1, (ring.askAll requests).2.stock) =
            ring.stock.askAll ring.slots.size requests ∧
          ∀ request, ((ring.askAll requests).2.ask request).1.refuses = true →
            ((ring.askAll requests).2.ask request).2 = (ring.askAll requests).2) ∧
      ∀ (controller : Controller) (read write : UInt8),
        ∀ forced ∈ [(controller.setHostCursors read write).hostRing,
            (controller.setOwnCursors read write).ownRing],
          forced.cursors.overflowed = true →
          ∀ requests : List Request, .reset ∉ requests →
            (∀ answer ∈ (forced.askAll requests).1, answer.refuses = true) ∧
              (forced.askAll requests).2 = forced ∧ forced.reset.stock = .queue [] := by
  refine ⟨stock_of_same, fun requests => ⟨askAll_eq power requests, fun _ => ask_of_refuses⟩, ?_⟩
  intro controller read write forced _ spilt requests others
  obtain ⟨refused, same⟩ := askAll_of_overflowed spilt others
  exact ⟨refused, same, stock_reset forced⟩

/-- Five words for four slots, and more pops than words. -/
def crowding : List Request :=
  [.push 1, .push 2, .push 3, .push 4, .push 5, .peek 3, .peek 4, .pop, .push 6, .pop, .pop, .pop,
    .pop, .pop]

theorem crowding_is_answered_across_the_wrap :
    let ring := (ofDepth 4).withCursors 254 254
    let forced := ((Controller.ofDepth 4).setOwnCursors 5 3).ownRing
    (ring.slots.size.isPowerOfTwo ∧ ring.read = ring.write) ∧
      (ring.askAll crowding).1 =
        [.accepted true, .accepted true, .accepted true, .accepted true, .accepted false,
          .word (some 4), .word none, .word (some 1), .accepted true, .word (some 2),
          .word (some 3), .word (some 4), .word (some 6), .word none] ∧
      (forced.cursors.overflowed = true ∧ Request.reset ∉ [Request.push 1, .pop, .peek 0]) ∧
      (forced.askAll [.push 1, .pop, .peek 0]).2 = forced := by
  intro ring forced
  have power : ring.slots.size.isPowerOfTwo := ⟨2, rfl⟩
  obtain ⟨empty, answered, jammed⟩ := ring_is_a_bounded_queue power
  have spilt : forced.cursors.overflowed = true := by decide
  have others : Request.reset ∉ [Request.push 1, .pop, .peek 0] := by decide
  have same := (jammed (.ofDepth 4) 5 3 forced (.tail _ (.head _)) spilt _ others).2.1
  have answers := congrArg Prod.fst (answered crowding).1
  simp only [empty rfl] at answers
  exact ⟨⟨power, rfl⟩, answers.trans (by decide +kernel), ⟨spilt, others⟩, same⟩

end HeciMailbox.Controller.Ring
