import HeciMailbox.Mkhi.Client
import HeciMailbox.Proofs.Renewal

/-! What the queries make of the reply that the transport hands them.

A query adds nothing to the run of its exchange but remarks, and its answer is a function of the
bytes of the reply. The function is given here by the places of bytes in the reply, apart from the
words and headers that the program reads them through. -/

set_option autoImplicit false

namespace HeciMailbox

namespace Bytes

theorem bytes_word (a b c d : UInt8) :
    (word a b c d).toUInt8 = a ∧ (word a b c d >>> 8).toUInt8 = b ∧
      (word a b c d >>> 16).toUInt8 = c ∧ (word a b c d >>> 24).toUInt8 = d := by
  simpa [ofWord] using ofWord_word a b c d

def wordAt (bytes : List UInt8) (place : Nat) : UInt32 :=
  word (bytes.getD place 0) (bytes.getD (place + 1) 0) (bytes.getD (place + 2) 0)
    (bytes.getD (place + 3) 0)

def halfAt (bytes : List UInt8) (place : Nat) : UInt16 :=
  half (bytes.getD place 0) (bytes.getD (place + 1) 0)

theorem drop_eq_cons {bytes : List UInt8} {place : Nat} (within : place < bytes.length) :
    bytes.drop place = bytes.getD place 0 :: bytes.drop (place + 1) := by
  rw [List.drop_eq_getElem_cons within, List.getD_eq_getElem?_getD, List.getElem?_eq_getElem within,
    Option.getD_some]

end Bytes

/-! ### Headers -/

namespace Mkhi.Header

theorem toNat_request (group command : UInt8) :
    (request group command).raw.toNat = command.toNat % 0x80 * 0x100 + group.toNat := by
  have low := group.toNat_lt
  have seven : (command.toUInt32 &&& 0x7F).toNat = command.toNat % 0x80 := by
    rw [UInt32.toNat_and, show (0x7F : UInt32).toNat = 2 ^ 7 - 1 from rfl,
      Nat.and_two_pow_sub_one_eq_mod, UInt8.toNat_toUInt32]
  have placed : (command.toNat % 0x80) <<< ((8 : UInt32).toNat % 32) % 2 ^ 32 =
      (command.toNat % 0x80) <<< 8 := by
    rw [show (8 : UInt32).toNat % 32 = 8 from rfl, Nat.shiftLeft_eq]; omega
  rw [request, UInt32.toNat_or, UInt32.toNat_shiftLeft, UInt8.toNat_toUInt32, seven, placed,
    Nat.or_comm, ← Nat.shiftLeft_add_eq_or_of_lt low, Nat.shiftLeft_eq]

theorem toNat_group (header : Header) : header.group.toNat = header.raw.toNat % 0x100 :=
  UInt32.toNat_toUInt8 header.raw

theorem toNat_command (header : Header) :
    header.command.toNat = header.raw.toNat / 0x100 % 0x80 := by
  rw [Header.command, UInt32.toNat_toUInt8, UInt32.toNat_and, UInt32.toNat_shiftRight,
    show (8 : UInt32).toNat % 32 = 8 from rfl, Nat.shiftRight_eq_div_pow,
    show (0x7F : UInt32).toNat = 2 ^ 7 - 1 from rfl, Nat.and_two_pow_sub_one_eq_mod]
  omega

theorem group_request (group command : UInt8) : (request group command).group = group := by
  have := group.toNat_lt
  apply UInt8.toNat_inj.mp
  rw [toNat_group, toNat_request]
  omega

theorem command_request (group command : UInt8) :
    (request group command).command = command &&& 0x7F := by
  have := group.toNat_lt
  apply UInt8.toNat_inj.mp
  rw [toNat_command, toNat_request, UInt8.toNat_and, show (0x7F : UInt8).toNat = 2 ^ 7 - 1 from rfl,
    Nat.and_two_pow_sub_one_eq_mod]
  omega

theorem isResponse_eq_testBit (header : Header) :
    header.isResponse = header.raw.toNat.testBit 15 :=
  Frame.Header.and_bit_bne_zero header.raw rfl

theorem isResponse_word (a b c d : UInt8) :
    (Header.mk (Bytes.word a b c d)).isResponse = (b &&& 0x80 != 0) := by
  obtain ⟨-, second, -⟩ := Bytes.bytes_word a b c d
  rw [isResponse_eq_testBit]
  generalize Bytes.word a b c d = raw at second
  subst second
  have same : (raw >>> 8).toUInt8.toNat.testBit 7 = raw.toNat.testBit 15 := by
    rw [UInt32.toNat_toUInt8, UInt32.toNat_shiftRight, Nat.testBit_mod_two_pow,
      Nat.testBit_shiftRight, show (8 : UInt32).toNat % 32 + 7 = 15 from rfl]
    simp
  have byte : (raw >>> 8).toUInt8 &&& 0x80 = 0 ↔ raw.toNat.testBit 15 = false := by
    rw [← UInt8.toNat_inj, UInt8.toNat_and, show (0x80 : UInt8).toNat = 1 <<< 7 from rfl,
      Frame.Header.and_one_shiftLeft, same]
    cases raw.toNat.testBit 15 <;> simp
  rw [Bool.eq_iff_iff, bne_iff_ne, ne_eq, byte, Bool.not_eq_false]

theorem command_word (a b c d : UInt8) :
    (Header.mk (Bytes.word a b c d)).command = b &&& 0x7F := by
  rw [Header.command, UInt32.toUInt8_and, (Bytes.bytes_word a b c d).2.1]
  rfl

/-- The second byte of a response is its command with the top bit set. -/
theorem marked_iff (b command : UInt8) (seven : command &&& 0x7F = command) :
    (b &&& 0x80 ≠ 0 ∧ b &&& 0x7F = command) ↔ b = 0x80 ||| command := by
  have parts : ∀ byte : BitVec 8, byte &&& 0x80 ≠ 0 → byte = 0x80 ||| (byte &&& 0x7F) := by
    decide +kernel
  have joined : ∀ byte : BitVec 8,
      (0x80 ||| byte) &&& 0x80 ≠ 0 ∧ (0x80 ||| byte) &&& 0x7F = byte &&& 0x7F := by
    decide +kernel
  constructor
  · rintro ⟨high, rfl⟩
    apply UInt8.toBitVec_inj.mp
    exact parts b.toBitVec fun zero => high (UInt8.toBitVec_inj.mp zero)
  · rintro rfl
    refine ⟨fun zero => (joined command.toBitVec).1 (congrArg UInt8.toBitVec zero), ?_⟩
    exact (UInt8.toBitVec_inj.mp (joined command.toBitVec).2).trans seven

theorem answers_request {a b c d group command : UInt8} (seven : command &&& 0x7F = command) :
    (Header.mk (Bytes.word a b c d)).answers (request group command) = true ↔
      a = group ∧ b = 0x80 ||| command := by
  rw [answers, isResponse_word, group_request, command_request, command_word, seven, Header.group,
    (Bytes.bytes_word a b c d).1, ← marked_iff b command seven]
  simp only [Bool.and_eq_true, bne_iff_ne, beq_iff_eq]
  rw [and_right_comm, and_comm]

end Mkhi.Header

open Bytes (wordAt halfAt)

namespace Mkhi

/-! ### What stands where in a reply -/

/-- The version at `place`, as replies carry it: minor, major, build, hotfix. -/
def versionAt (bytes : List UInt8) (place : Nat) : Version where
  minor := halfAt bytes place
  major := halfAt bytes (place + 2)
  build := halfAt bytes (place + 4)
  hotfix := halfAt bytes (place + 6)

theorem Header.ofBytes?_eq (bytes : List UInt8) :
    Header.ofBytes? bytes =
      if bytes.length < 4 then .error (.shortBuffer 4 bytes.length) else .ok ⟨wordAt bytes 0⟩ := by
  by_cases short : bytes.length < 4
  · rw [if_pos short]
    unfold Header.ofBytes?
    split
    · simp only [List.length_cons] at short
      omega
    · rfl
  · have front : Header.ofBytes? bytes = Header.ofBytes? (bytes.drop 0) := by rw [List.drop_zero]
    rw [if_neg short, front]
    simp (disch := omega) only [Bytes.drop_eq_cons]
    rfl

theorem Header.answers_at (bytes : List UInt8) (group : UInt8) {command : UInt8}
    (seven : command &&& 0x7F = command) :
    (Header.mk (wordAt bytes 0)).answers (.request group command) = true ↔
      bytes.getD 0 0 = group ∧ bytes.getD 1 0 = 0x80 ||| command :=
  Header.answers_request seven

theorem Header.result_at (bytes : List UInt8) :
    (Header.mk (wordAt bytes 0)).result = bytes.getD 3 0 :=
  (Bytes.bytes_word _ _ _ _).2.2.2

theorem Version.ofBytes?_drop (bytes : List UInt8) (place : Nat) :
    Version.ofBytes? (bytes.drop place) =
      if place + Version.size ≤ bytes.length then some (versionAt bytes place) else none := by
  unfold Version.size
  by_cases long : place + 8 ≤ bytes.length
  · rw [if_pos long]
    simp (disch := omega) only [Bytes.drop_eq_cons]
    rfl
  · have counted : (bytes.drop place).length = bytes.length - place := List.length_drop
    rw [if_neg long]
    unfold Version.ofBytes?
    split
    · next same =>
      simp only [same, List.length_cons] at counted
      omega
    · rfl

theorem RuleReply.ofBytes?_eq (bytes : List UInt8) :
    RuleReply.ofBytes? bytes =
      if ruleReplySize ≤ bytes.length then some ⟨wordAt bytes 4, wordAt bytes 9⟩ else none := by
  unfold ruleReplySize Header.size
  by_cases long : 13 ≤ bytes.length
  · have front : RuleReply.ofBytes? bytes = RuleReply.ofBytes? (bytes.drop 0) := by
      rw [List.drop_zero]
    rw [if_pos long, front]
    simp (disch := omega) only [Bytes.drop_eq_cons]
    rfl
  · rw [if_neg long]
    unfold RuleReply.ofBytes?
    split
    · simp only [List.length_cons] at long
      omega
    · rfl

/-! ### Judging a reply -/

variable {α : Type}

/-- What a query for `command` of `group` makes of the reply with these bytes; `read` takes the
answer out of a reply of at least `size` bytes. -/
def judged (group command : UInt8) (size : Nat) (read : List UInt8 → α) (reply : List UInt8) :
    Except Failure α :=
  if reply.length < 4 then .error (.truncated 4 reply.length)
  else if ¬(reply.getD 0 0 = group ∧ reply.getD 1 0 = 0x80 ||| command) then
    .error (.unexpected (.request group command) ⟨wordAt reply 0⟩)
  else if reply.getD 3 0 ≠ 0 then .error (.status (.ofCode (reply.getD 3 0)))
  else if reply.length < size then .error (.truncated size reply.length)
  else .ok (read reply)

theorem judged_eq_bind (group command : UInt8) (size : Nat) (read : List UInt8 → α)
    (reply : List UInt8) :
    judged group command size read reply =
      (judged group command 0 id reply).bind fun bytes =>
        if bytes.length < size then .error (.truncated size bytes.length)
        else .ok (read bytes) := by
  unfold judged
  split
  · rfl
  split
  · rfl
  split <;> rfl

/-- How a query ends whose exchange has ended with `ended`. -/
def settled (judge : List UInt8 → Except Failure α) :
    Except Stop Message → Except Stop (Except Failure α)
  | .ok reply => .ok (judge reply.bytes)
  | .error (.fault fault) => .ok (.error (.transport fault))
  | .error stop => .error stop

section Queries

variable {σ : Type} [Registers σ] [Clock σ]

def exchange (link : Link) (request : Header) (body : List UInt32) : Op σ Message :=
  Op.sendAndAwait link (Message.ofHeader request.raw body) link.config.mkhiRoute
    link.config.receiveTimeout link.device.maxLength

variable {link : Link} {before after : σ} {entries : List Entry} {ended : Except Stop Message}

theorem query_performs {group command : UInt8} (seven : command &&& 0x7F = command)
    {body : List UInt32}
    (performs : (exchange link (.request group command) body).Performs before entries ended after) :
    ∃ told : List Entry,
      (query link (.request group command) body).Performs before (entries ++ told)
        (settled (judged group command 0 id) ended) after ∧
      ∀ bytes, settled (judged group command 0 id) ended = .ok (.ok bytes) → told = [] := by
  unfold query
  rcases ended with (fault | trap | _) | reply
  · exact ⟨[], performs.attempt_fault.bind (.pure _), fun _ _ => rfl⟩
  · refine ⟨[], ?_, fun _ _ => rfl⟩
    rw [List.append_nil]
    exact (performs.attempt_stop (by simp)).bind_stop
  · refine ⟨[], ?_, fun _ _ => rfl⟩
    rw [List.append_nil]
    exact (performs.attempt_stop (by simp)).bind_stop
  -- The checks in the order in which they are made.
  simp only [settled, judged, Header.ofBytes?_eq]
  by_cases short : reply.bytes.length < 4
  · refine ⟨[], performs.attempt.bind ?_, fun _ _ => rfl⟩
    simp only [if_pos short, ← reply.length_bytes]
    exact .pure _
  have heard := Header.answers_at reply.bytes group seven
  have code := Header.result_at reply.bytes
  simp only [if_neg short]
  by_cases answers : reply.bytes.getD 0 0 = group ∧ reply.bytes.getD 1 0 = 0x80 ||| command
  · refine ⟨[], performs.attempt.bind ?_, fun _ _ => rfl⟩
    simp only [if_neg short, if_neg (not_not_intro answers), heard.mpr answers, code]
    by_cases result : reply.bytes.getD 3 0 = 0
    · simp only [if_neg (not_not_intro result), if_neg (Nat.not_lt_zero _)]
      exact .pure _
    · simp only [if_pos result]
      exact .pure _
  · refine ⟨[.remark (.unrelatedReply (.request group command) ⟨wordAt reply.bytes 0⟩)],
      performs.attempt.bind ?_, ?_⟩
    · simp only [if_neg short, if_pos answers, Bool.eq_false_iff.mpr (mt heard.mp answers)]
      exact (Op.Performs.record rfl).bind (.pure _)
    · simp only [if_pos answers]
      nofun

theorem settled_bind {group command : UInt8} (seven : command &&& 0x7F = command)
    {body : List UInt32} {size : Nat} {read : List UInt8 → α}
    {next : Except Failure (List UInt8) → Op σ (Except Failure α)}
    {notes : List UInt8 → List Entry}
    (performs : (exchange link (.request group command) body).Performs before entries ended after)
    (refused : ∀ failure, next (.error failure) = pure (.error failure))
    (short : ∀ bytes : List UInt8, bytes.length < size →
      next (.ok bytes) = pure (.error (.truncated size bytes.length)))
    (answered : ∀ bytes : List UInt8, size ≤ bytes.length →
      (next (.ok bytes)).Performs after (notes bytes) (.ok (.ok (read bytes))) after) :
    ∃ told : List Entry,
      (query link (.request group command) body >>= next).Performs before (entries ++ told)
        (settled (judged group command size read) ended) after ∧
      ∀ reply answer, ended = .ok reply → judged group command size read reply.bytes = .ok answer →
        told = notes reply.bytes := by
  obtain ⟨told, performed, silent⟩ := query_performs seven performs
  rcases ended with (fault | trap | _) | reply
  · refine ⟨told ++ [], ?_, nofun⟩
    rw [← List.append_assoc]
    exact performed.bind (refused _ ▸ .pure _)
  · exact ⟨told, performed.bind_stop, nofun⟩
  · exact ⟨told, performed.bind_stop, nofun⟩
  rw [settled, judged_eq_bind]
  cases screened : judged group command 0 id reply.bytes with
  | error failure =>
    rw [settled, screened] at performed
    refine ⟨told ++ [], ?_, ?_⟩
    · rw [← List.append_assoc]
      exact performed.bind (refused _ ▸ .pure _)
    · rintro _ answer ⟨⟩ judged
      rw [judged_eq_bind, screened] at judged
      cases judged
  | ok bytes =>
    obtain rfl : told = [] := silent bytes (by rw [settled, screened])
    obtain rfl : reply.bytes = bytes := by
      unfold judged at screened
      grind
    rw [settled, screened, List.append_nil] at performed
    simp only [Except.bind]
    by_cases few : reply.bytes.length < size
    · refine ⟨[], performed.bind (short _ few ▸ if_pos few ▸ .pure _), ?_⟩
      rintro _ answer ⟨⟩ judged
      rw [judged_eq_bind, screened] at judged
      simp only [Except.bind, if_pos few] at judged
      cases judged
    · have rest := answered reply.bytes (Nat.le_of_not_lt few)
      refine ⟨notes reply.bytes, if_neg few ▸ performed.bind rest, ?_⟩
      rintro _ answer ⟨⟩ judged
      rfl

def otherRule (rule : UInt32) (reply : List UInt8) : List Entry :=
  if wordAt reply 4 = rule then [] else [.remark (.otherRule rule (wordAt reply 4))]

theorem rule_performs {rule : UInt32} {make : UInt32 → α}
    (performs : (exchange link (.request rulesGroup ruleCommand) [rule]).Performs before entries
      ended after) :
    ∃ told : List Entry,
      (do pure ((← ruleData link rule).map make) : Op σ (Except Failure α)).Performs before
        (entries ++ told)
        (settled (judged rulesGroup ruleCommand ruleReplySize fun reply => make (wordAt reply 9))
          ended) after ∧
      ∀ reply answer, ended = .ok reply →
        judged rulesGroup ruleCommand ruleReplySize (fun reply => make (wordAt reply 9))
          reply.bytes = .ok answer →
        told = otherRule rule reply.bytes := by
  unfold ruleData
  simp only [bind_assoc]
  refine settled_bind (by decide) performs (fun _ => rfl) (fun _ few => ?_) fun bytes long => ?_
  · simp only [if_pos few]
    rfl
  · simp only [if_neg (Nat.not_lt.mpr long), RuleReply.ofBytes?_eq, if_pos long]
    unfold otherRule
    by_cases same : wordAt bytes 4 = rule
    · rw [if_pos same, if_neg (not_not_intro same)]
      exact (Op.Performs.pure _).bind (.pure _)
    · rw [if_neg same, if_pos same]
      rw [bind_assoc]
      exact (Op.Performs.record rfl).bind ((Op.Performs.pure _).bind (.pure _))

/-- The versions in a reply; that of the image tool is there if the reply is long enough. -/
def versionsIn (reply : List UInt8) : Versions where
  code := versionAt reply 4
  recovery := versionAt reply 12
  fitc := if 28 ≤ reply.length then some (versionAt reply 20) else none

def versionsRead (reply : List UInt8) : List Entry :=
  [.remark (.firmwareVersion (versionAt reply 4) (versionAt reply 12))]

theorem firmwareVersions_performs
    (performs : (exchange link (.request generalGroup versionCommand) []).Performs before entries
      ended after) :
    ∃ told : List Entry,
      (firmwareVersions link).Performs before (entries ++ told)
        (settled (judged generalGroup versionCommand versionReplySize versionsIn) ended) after ∧
      ∀ reply versions, ended = .ok reply →
        judged generalGroup versionCommand versionReplySize versionsIn reply.bytes = .ok versions →
        told = versionsRead reply.bytes := by
  refine settled_bind (by decide) performs (fun _ => rfl) (fun _ few => ?_) fun bytes long => ?_
  · simp only [if_pos few]
  · have code : Header.size + Version.size ≤ bytes.length := Nat.le_trans (by decide) long
    have recovery : Header.size + Version.size + Version.size ≤ bytes.length :=
      Nat.le_trans (by decide) long
    simp only [if_neg (Nat.not_lt.mpr long), Version.ofBytes?_drop, if_pos code, if_pos recovery]
    exact (Op.Performs.record rfl).bind (.pure _)

theorem rule_runs [Registers.Answers σ] (link : Link) (rule : UInt32) (make : UInt32 → α)
    (world : World σ) :
    let exchanged := exchange link (.request rulesGroup ruleCommand) [rule]
    let query : Op σ (Except Failure α) := do pure ((← ruleData link rule).map make)
    let judge := judged rulesGroup ruleCommand ruleReplySize fun reply => make (wordAt reply 9)
    query.outcome world = settled judge (exchanged.outcome world) ∧
      ∃ told, query.added world = exchanged.added world ++ told ∧
        ∀ reply answer, exchanged.outcome world = .ok reply → judge reply.bytes = .ok answer →
          told = otherRule rule reply.bytes := by
  intro exchanged query judge
  obtain ⟨entries, ended, after, performs, -⟩ := Op.sendAndAwait_ensures link
    (Message.ofHeader (Header.request rulesGroup ruleCommand).raw [rule]) link.config.mkhiRoute
    link.config.receiveTimeout link.device.maxLength world.hardware
  obtain ⟨told, performed, said⟩ := rule_performs performs
  obtain rfl : exchanged.outcome world = ended := performs.outcome_eq world.trace
  obtain rfl : exchanged.added world = entries := performs.added_eq world.trace
  exact ⟨performed.outcome_eq world.trace, told, performed.added_eq world.trace, said⟩

/-- The exchange of a query for `rule` has ended with this reply, which answers it with result zero
and is long enough for data. -/
structure Answered (link : Link) (rule : UInt32) (world : World σ) (reply : Message) : Prop where
  received : (exchange link (.request rulesGroup ruleCommand) [rule]).outcome world = .ok reply
  answers : reply.bytes.getD 0 0 = rulesGroup ∧ reply.bytes.getD 1 0 = 0x80 ||| ruleCommand
  succeeded : reply.bytes.getD 3 0 = 0
  long : ruleReplySize ≤ reply.length

namespace Answered

variable {world : World σ} {rule : UInt32} {reply : Message} {read : List UInt8 → α}

theorem judged_eq (answered : Answered link rule world reply) :
    judged rulesGroup ruleCommand ruleReplySize read reply.bytes = .ok (read reply.bytes) := by
  have long := reply.length_bytes ▸ answered.long
  have enough : 4 ≤ reply.bytes.length := Nat.le_trans (by decide) long
  rw [judged, if_neg (Nat.not_lt.mpr enough), if_neg (not_not_intro answered.answers),
    if_neg (not_not_intro answered.succeeded), if_neg (Nat.not_lt.mpr long)]

theorem of_judged {answer : α}
    (received : (exchange link (.request rulesGroup ruleCommand) [rule]).outcome world = .ok reply)
    (judged : judged rulesGroup ruleCommand ruleReplySize read reply.bytes = .ok answer) :
    Answered link rule world reply ∧ answer = read reply.bytes := by
  unfold Mkhi.judged at judged
  split at judged
  · cases judged
  split at judged
  · cases judged
  split at judged
  · cases judged
  split at judged
  · cases judged
  next answers succeeded long =>
  cases judged
  exact ⟨⟨received, Decidable.not_not.mp answers, Decidable.not_not.mp succeeded,
    reply.length_bytes ▸ Nat.not_lt.mp long⟩, rfl⟩

end Answered

/-- The data that a query returns is that of the reply which has ended its exchange. Which rule the
reply names does not matter, except that another one than `rule` is remarked on. -/
structure ReadsReply (link : Link) (rule : UInt32) (make : UInt32 → α)
    (query : Op σ (Except Failure α)) : Prop where
  data (world : World σ) (answer : α) :
    query.outcome world = .ok (.ok answer) ↔
      ∃ reply, Answered link rule world reply ∧ answer = make (wordAt reply.bytes 9)
  told (world : World σ) (reply : Message) : Answered link rule world reply →
    query.added world =
      (exchange link (.request rulesGroup ruleCommand) [rule]).added world ++
        otherRule rule reply.bytes

theorem readsReply [Registers.Answers σ] (link : Link) (rule : UInt32) (make : UInt32 → α) :
    ReadsReply link rule make
      (do pure ((← ruleData link rule).map make) : Op σ (Except Failure α)) := by
  constructor
  · intro world answer
    obtain ⟨returned, -⟩ := rule_runs link rule make world
    rw [returned]
    constructor
    · intro settled
      rcases ended : (exchange link (.request rulesGroup ruleCommand) [rule]).outcome world
        with (_ | _ | _) | reply
      · rw [ended] at settled
        cases settled
      · rw [ended] at settled
        cases settled
      · rw [ended] at settled
        cases settled
      rw [ended] at settled
      obtain ⟨answered, rfl⟩ := Answered.of_judged ended (Except.ok.inj settled)
      exact ⟨reply, answered, rfl⟩
    · rintro ⟨reply, answered, rfl⟩
      rw [answered.received, settled, answered.judged_eq]
  · intro world reply answered
    obtain ⟨-, told, added, said⟩ := rule_runs link rule make world
    rw [added, said reply _ answered.received answered.judged_eq]

/-- A query for the capabilities or the platform type returns data just if the reply read in its own
exchange answers a rule query with result zero and is long enough, and the data is then that of the
reply, whichever rule it names. Where it names another rule, the last that is said is a remark on
it. -/
theorem rule_queries_read_the_reply [Registers.Answers σ] (link : Link) :
    ReadsReply link capabilitiesRule Capabilities.mk (capabilities link : Op σ _) ∧
      ReadsReply link platformRule PlatformType.mk (platformType link : Op σ _) :=
  ⟨readsReply link capabilitiesRule Capabilities.mk, readsReply link platformRule PlatformType.mk⟩

end Queries

def impatient : Link := .ofConfig { receiveMilliseconds := 0 } 0xFED1A000 8

def platformReply : Message :=
  .ofBytes [0x03, 0x82, 0, 0, 0x1D, 0, 0, 0, 4, 0x78, 0x56, 0x34, 0x12]

/-- The platform type has been asked for in vain, and its reply comes after all. -/
def overtaken : World (Timed Controller) :=
  Happening.run ((platformType impatient).reached (simulated 8 8 []))
    (.steered (.enqueue platformReply 7 0))

theorem overtaken_answered : Answered impatient capabilitiesRule overtaken platformReply where
  received := by decide +kernel
  answers := by decide +kernel
  succeeded := by decide +kernel
  long := by decide +kernel

/-- The next query returns it as the capabilities. -/
theorem platform_type_is_taken_for_capabilities :
    (platformType impatient).outcome (simulated 8 8 []) = .ok (.error (.transport (.timeout 0))) ∧
    (capabilities impatient).outcome overtaken = .ok (.ok ⟨0x12345678⟩) ∧
    Answered impatient capabilitiesRule overtaken platformReply ∧
    wordAt platformReply.bytes 4 = platformRule ∧ platformRule ≠ capabilitiesRule := by
  refine ⟨?_, ?_, overtaken_answered, ?_, by decide⟩
  · decide +kernel
  · decide +kernel
  · decide +kernel

theorem platform_type_taken_is_remarked_on :
    (capabilities impatient).added overtaken =
      (exchange impatient (.request rulesGroup ruleCommand) [capabilitiesRule]).added overtaken ++
        [.remark (.otherRule capabilitiesRule platformRule)] := by
  have named : otherRule capabilitiesRule platformReply.bytes =
      [.remark (.otherRule capabilitiesRule platformRule)] := by decide +kernel
  rw [(rule_queries_read_the_reply impatient).1.told overtaken platformReply overtaken_answered,
    named]

end Mkhi

end HeciMailbox
