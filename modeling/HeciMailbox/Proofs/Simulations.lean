import HeciMailbox.Cli.Run
import HeciMailbox.Proofs.Accounts
import HeciMailbox.Proofs.AddedFunctions
import HeciMailbox.Proofs.Replies

/-! The queries of a simulated run, from the configuration to the lines that are printed.

Each query is one exchange with a controller that has its answer ready, so no wait of a run lasts
longer than one look. What a run comes to depends on four settings: the depth of the rings, the
device, where its registers are and how long a message may be. -/

set_option autoImplicit false

namespace HeciMailbox

open Bytes (wordAt)

/-! ### Queries with an answer in store -/

namespace Mkhi

variable {σ α : Type} [Registers σ] [Clock σ] {link : Link} {state : σ} {goal : σ → Prop}
  {ended : Except Stop Message}

theorem firmwareVersions_reaches
    (reaches : (exchange link (.request generalGroup versionCommand) []).Reaches state
      fun outcome after => outcome = ended ∧ goal after) :
    (firmwareVersions link).Reaches state fun outcome after =>
      outcome = settled (judged generalGroup versionCommand versionReplySize versionsIn) ended ∧
        goal after := by
  obtain ⟨entries, _, after, performs, rfl, holds⟩ := reaches
  obtain ⟨told, performed, -⟩ := firmwareVersions_performs performs
  exact ⟨_, _, after, performed, rfl, holds⟩

theorem rule_reaches {rule : UInt32} (make : UInt32 → α)
    (reaches : (exchange link (.request rulesGroup ruleCommand) [rule]).Reaches state
      fun outcome after => outcome = ended ∧ goal after) :
    (do pure ((← ruleData link rule).map make) : Op σ (Except Failure α)).Reaches state
      fun outcome after =>
        outcome = settled (judged rulesGroup ruleCommand ruleReplySize
          fun reply => make (wordAt reply 9)) ended ∧ goal after := by
  obtain ⟨entries, _, after, performs, rfl, holds⟩ := reaches
  obtain ⟨told, performed, -⟩ := rule_performs performs
  exact ⟨_, _, after, performed, rfl, holds⟩

end Mkhi

namespace Cli

theorem usableDepth_iff (depth : UInt8) :
    usableDepth depth = true ↔ depth.toNat.isPowerOfTwo ∧ 2 ≤ depth.toNat := by
  have powers : ∀ depth : UInt8, usableDepth depth = true ↔
      ∃ power < 8, 0 < power ∧ depth.toNat = 2 ^ power :=
    Pci.forall_byte (by decide +kernel)
  rw [powers]
  constructor
  · rintro ⟨power, -, positive, same⟩
    exact ⟨⟨power, same⟩, same ▸ Nat.le_self_pow (Nat.ne_of_gt positive) 2⟩
  · rintro ⟨⟨power, same⟩, deep⟩
    have small : power < 8 := (Nat.pow_lt_pow_iff_right (by decide)).mp (same ▸ depth.toNat_lt)
    refine ⟨power, small, Nat.pos_of_ne_zero ?_, same⟩
    rintro rfl
    rw [same] at deep
    exact absurd deep (by decide)

namespace Simulation

/-! ### The replies -/

theorem length_ruleReply (rule data : UInt32) : (ruleReply rule data).length = 13 := rfl

theorem judged_ruleReply {α : Type} (rule data : UInt32) (make : UInt32 → α) :
    Mkhi.judged Mkhi.rulesGroup Mkhi.ruleCommand Mkhi.ruleReplySize
      (fun reply => make (wordAt reply 9)) (ruleReply rule data).bytes = .ok (make data) := by
  have shape : (ruleReply rule data).bytes =
      [0x03, 0x82, 0, 0] ++ Bytes.ofWord rule ++ [4] ++ Bytes.ofWord data :=
    Message.bytes_ofBytes _
  have carried : wordAt ([0x03, 0x82, 0, 0] ++ Bytes.ofWord rule ++ [4] ++ Bytes.ofWord data) 9 =
      data :=
    Bytes.word_ofWord data
  rw [shape, Mkhi.judged, carried]
  rfl

def versions : Mkhi.Versions := ⟨version, version, none⟩

theorem judged_versionReply :
    Mkhi.judged Mkhi.generalGroup Mkhi.versionCommand Mkhi.versionReplySize Mkhi.versionsIn
      versionReply.bytes = .ok versions := by
  decide

/-! ### The queries -/

def answers : Answers := ⟨versions, ⟨0x801⟩, ⟨0x1102⟩⟩

/-- How the queries end where messages may have so many bytes: the first request has four, the first
reply twenty, and nothing that follows has more. -/
def verdict (longest : Nat) : Except Mkhi.Failure Answers :=
  if longest < 4 then .error (.transport (.badLength 4 longest))
  else if longest < 20 then .error (.transport (.tooSmall 20 longest))
  else .ok answers

theorem verdict_eq_ok {longest : Nat} {found : Answers} :
    verdict longest = .ok found ↔ 20 ≤ longest ∧ found = answers := by
  unfold verdict
  grind

/-- The doorbells of a run: one to bring the channel up, and one for each frame of the requests and
the replies. -/
def doorbells (depth : Nat) : Nat :=
  let frames := Frame.needed depth
  1 + (frames 4 + 2 * frames 8) + (frames 20 + 2 * frames 13)

theorem stocked_controller {depth : UInt8} (power : depth.toNat.isPowerOfTwo) :
    (controller depth).Stocked depth.toNat depth.toNat
      [versionReply, ruleReply Mkhi.capabilitiesRule 0x801, ruleReply Mkhi.platformRule 0x1102]
      0 where
  keeps :=
    have divides := dvd_of_isPowerOfTwo power
    ⟨[], Controller.keeps_ofDepths divides divides _⟩
  counted := rfl

section Queries

variable {depth : Nat} {link : Link} {state : Timed Controller} {others : List Message}
  {rung : Nat}

theorem versions_refused (short : link.device.maxLength < 4) :
    (Mkhi.firmwareVersions link).Reaches state fun outcome _ =>
      outcome = .ok (.error (.transport (.badLength 4 link.device.maxLength))) := by
  have stops := @Op.sendAndAwait_refused state link
    (Message.ofHeader (Mkhi.Header.request Mkhi.generalGroup Mkhi.versionCommand).raw [])
    (.inr short) link.config.mkhiRoute link.config.receiveTimeout link.device.maxLength
  refine (Mkhi.firmwareVersions_reaches stops).mono ?_
  rintro _ _ ⟨rfl, -⟩
  rfl

theorem versions_answered (deep : 2 ≤ depth) (enough : 20 ≤ link.fuel)
    (long : 4 ≤ link.device.maxLength)
    (stocked : state.registers.Stocked depth depth (versionReply :: others) rung) :
    (Mkhi.firmwareVersions link).Reaches state fun outcome after =>
      outcome = .ok (if link.device.maxLength < 20 then
          .error (.transport (.tooSmall 20 link.device.maxLength))
        else .ok versions) ∧
        after.registers.Stocked depth depth others
          (rung + Frame.needed depth 4 + Frame.needed depth 20) := by
  have good : ¬link.Refuses (Message.ofHeader
      (Mkhi.Header.request Mkhi.generalGroup Mkhi.versionCommand).raw []) := by
    rintro (missing | above)
    · cases missing
    · exact absurd above (Nat.not_lt.mpr long)
  have answered := Op.sendAndAwait_answered deep deep stocked good (by decide) enough
    link.config.mkhiRoute link.config.receiveTimeout link.device.maxLength
  refine (Mkhi.firmwareVersions_reaches answered).mono ?_
  rintro _ after ⟨rfl, left⟩
  refine ⟨?_, left⟩
  have length : versionReply.length = 20 := rfl
  unfold Message.fitted
  by_cases short : link.device.maxLength < 20
  · rw [if_neg (by omega), if_pos short, length]
    rfl
  · rw [if_pos (by omega), if_neg short, Mkhi.settled, judged_versionReply]

theorem rule_answered {α : Type} {rule data : UInt32} (make : UInt32 → α) (deep : 2 ≤ depth)
    (enough : 20 ≤ link.fuel) (long : 20 ≤ link.device.maxLength)
    (stocked : state.registers.Stocked depth depth (ruleReply rule data :: others) rung) :
    (do pure ((← Mkhi.ruleData link rule).map make) :
        Op (Timed Controller) (Except Mkhi.Failure α)).Reaches state
      fun outcome after => outcome = .ok (.ok (make data)) ∧
        after.registers.Stocked depth depth others
          (rung + Frame.needed depth 8 + Frame.needed depth 13) := by
  have length := length_ruleReply rule data
  have asked : (Message.ofHeader
      (Mkhi.Header.request Mkhi.rulesGroup Mkhi.ruleCommand).raw [rule]).length = 8 := rfl
  have good : ¬link.Refuses (Message.ofHeader
      (Mkhi.Header.request Mkhi.rulesGroup Mkhi.ruleCommand).raw [rule]) := by
    rintro (missing | above)
    · cases missing
    · rw [asked] at above
      omega
  have answered := Op.sendAndAwait_answered deep deep stocked good (by rw [length]; decide)
    (by omega) link.config.mkhiRoute link.config.receiveTimeout link.device.maxLength
  refine (Mkhi.rule_reaches make answered).mono ?_
  rintro _ after ⟨rfl, left⟩
  refine ⟨?_, left⟩
  rw [Message.fitted, if_pos (by omega), Mkhi.settled, judged_ruleReply]

theorem queries_answered (deep : 2 ≤ depth) (enough : 20 ≤ link.fuel)
    (stocked : state.registers.Stocked depth depth
      [versionReply, ruleReply Mkhi.capabilitiesRule 0x801, ruleReply Mkhi.platformRule 0x1102]
      0) :
    (queries link).Reaches state fun outcome after =>
      outcome = .ok (verdict link.device.maxLength) ∧
        (20 ≤ link.device.maxLength → after.registers.doorbells = doorbells depth) := by
  have fuel : 0 < link.fuel := by omega
  refine .returning (Op.bringUp_counted fuel stocked) ?_
  rintro _ up stocked
  unfold verdict
  -- A refused query leaves the controller anywhere; its doorbells matter only if all are answered.
  by_cases short : link.device.maxLength < 4
  · rw [if_pos short]
    refine (versions_refused short).andThen ?_ ?_
    · rintro _ _ ⟨⟩
      exact .pure ⟨rfl, fun long => absurd short (by omega)⟩
    · rintro _ _ ⟨⟩
  rw [if_neg short]
  refine (versions_answered deep enough (Nat.le_of_not_lt short) stocked).andThen ?_ ?_
  · rintro _ asked ⟨⟨⟩, stocked⟩
    by_cases small : link.device.maxLength < 20
    · rw [if_pos small, if_pos small]
      exact .pure ⟨rfl, fun long => absurd small (by omega)⟩
    rw [if_neg small, if_neg small]
    have long := Nat.le_of_not_lt small
    refine (rule_answered Mkhi.Capabilities.mk deep enough long stocked).andThen ?_ ?_
    · rintro _ capable ⟨⟨⟩, stocked⟩
      refine (rule_answered Mkhi.PlatformType.mk deep enough long stocked).andThen ?_ ?_
      · rintro _ done ⟨⟨⟩, stocked⟩
        refine .pure ⟨rfl, fun _ => ?_⟩
        rw [stocked.counted, doorbells]
        omega
      · rintro _ _ ⟨⟨⟩, _⟩
    · rintro _ _ ⟨⟨⟩, _⟩
  · rintro _ _ ⟨⟨⟩, _⟩

end Queries

/-! ### Reports -/

def transcript (depth : UInt8) (config : Config) : List String :=
  ["Device:        " ++ config.device.name ++ " at " ++
      Text.hexWithMark 1 ((baseOf config).toNat / 16 * 16),
    "Code version:  3.0.40.1392",
    "Recovery:      3.0.40.1392",
    "FW caps SKU:   0x00000801",
    "Platform:      usage 2 image 1 brand 1",
    "Doorbells:     " ++ toString (doorbells depth.toNat)]

/-- How a run ends: what is checked first decides. The first request has four bytes and the first
reply twenty. -/
def conclusion (depth : UInt8) (config : Config) : Except Failure Unit :=
  let longest := config.maxLength.toNat
  if usableDepth depth = false then .error (.badDepth depth)
  else if config.device = .ftpm then .error (.notSimulated .ftpm)
  else if (baseOf config).toNat < 16 then .error (.fault .notPresent)
  else if longest < 4 then .error (.query (.transport (.badLength 4 longest)))
  else if longest < 20 then .error (.query (.transport (.tooSmall 20 longest)))
  else .ok ()

/-- What the report on a run must say. Of the configuration it depends on the device, the base
address and the longest message. -/
structure Reports (depth : UInt8) (config : Config) (report : Report) : Prop where
  succeeds : report.ending = .ok () ↔
    (depth.toNat.isPowerOfTwo ∧ 2 ≤ depth.toNat) ∧ config.device ≠ .ftpm ∧
      16 ≤ (config.baseAddress.getD 0xFED1A000).toNat ∧ 20 ≤ config.maxLength.toNat
  prints : report.ending = .ok () → report.printed = transcript depth config
  ends : report.ending = conclusion depth config
  silent : report.ending ≠ .ok () → report.printed = []

variable {depth : UInt8} {config : Config}

theorem conclusion_eq_ok :
    conclusion depth config = .ok () ↔
      (depth.toNat.isPowerOfTwo ∧ 2 ≤ depth.toNat) ∧ config.device ≠ .ftpm ∧
        16 ≤ (config.baseAddress.getD 0xFED1A000).toNat ∧ 20 ≤ config.maxLength.toNat := by
  rw [← usableDepth_iff]
  unfold conclusion baseOf defaultBase
  grind

theorem conclusion_of_verdict (usable : ¬usableDepth depth = false)
    (present : config.device ≠ .ftpm) (sited : ¬(baseOf config).toNat < 16) :
    conclusion depth config =
      match verdict config.maxLength.toNat with
      | .error failure => .error (.query failure)
      | .ok _ => .ok () := by
  rw [conclusion, if_neg usable, if_neg present, if_neg sited, verdict]
  grind

theorem summary_answers (base : UInt64) (rung : Nat) :
    summary (Link.ofConfig config base fuel).device answers rung =
      ["Device:        " ++ config.device.name ++ " at " ++ Text.hexWithMark 1 base.toNat,
        "Code version:  3.0.40.1392",
        "Recovery:      3.0.40.1392",
        "FW caps SKU:   0x00000801",
        "Platform:      usage 2 image 1 brand 1",
        "Doorbells:     " ++ toString rung] := by
  rfl

theorem runQueries_reports (power : depth.toNat.isPowerOfTwo) (deep : 2 ≤ depth.toNat)
    (base : UInt64) :
    let report := runQueries depth config base
    match verdict config.maxLength.toNat with
    | .error failure => report.ending = .error (.query failure) ∧ report.printed = []
    | .ok found => report.ending = .ok () ∧ report.printed =
        summary (Link.ofConfig config base fuel).device found (doorbells depth.toNat) := by
  intro report
  let link := Link.ofConfig config base fuel
  -- The report reads its doorbells off the world in which the queries end.
  obtain ⟨entries, _, after, performs, rfl, counted⟩ :=
    @queries_answered depth.toNat link ⟨controller depth, 0⟩ deep
      (show 20 ≤ fuel by decide) (stocked_controller power)
  have ran := performs.run #[]
  have longest : link.device.maxLength = config.maxLength.toNat := rfl
  rw [longest] at ran counted
  cases judged : verdict config.maxLength.toNat with
  | error failure =>
    rw [judged] at ran
    simp only [report, runQueries, link] at ran ⊢
    rw [ran]
    exact ⟨rfl, rfl⟩
  | ok found =>
    obtain ⟨long, -⟩ := verdict_eq_ok.mp judged
    rw [judged] at ran
    simp only [report, runQueries, link] at ran ⊢
    rw [ran, ← counted long]
    exact ⟨rfl, rfl⟩

/-- What a run makes of its queries when the device has a function: none are made if the function
cannot be opened. -/
theorem run_of_sited {address : Pci.Address} (sited : config.device.pciAddress? = some address) :
    let report := run depth config
    let queried := runQueries depth config (baseOf config &&& ~~~(0xF : UInt64))
    ((baseOf config).toNat < 16 →
      report.ending = .error (.fault .notPresent) ∧ report.printed = []) ∧
    (16 ≤ (baseOf config).toNat →
      report.ending = queried.ending ∧ report.printed = queried.printed) := by
  have opened := (openFunction_does sited).answer { space := memory config address } rfl
  unfold run
  rw [sited]
  dsimp only
  -- Opening is known by its answer alone, so what it did to the space is left open.
  generalize (openFunction config.device).run { space := memory config address } = ran at opened ⊢
  obtain ⟨found, world⟩ := ran
  constructor
  · intro small
    rw [if_pos small] at opened
    cases opened
    exact ⟨rfl, rfl⟩
  · intro large
    rw [if_neg (Nat.not_lt.mpr large)] at opened
    cases opened
    exact ⟨rfl, rfl⟩

theorem pciAddress?_eq_none {device : DeviceId} : device.pciAddress? = none ↔ device = .ftpm := by
  cases device with
  | ftpm => exact iff_of_true rfl rfl
  | heci1 | heci2 | heci3 => exact iff_of_false nofun nofun

theorem Reports.of_conclusion {report : Report} (ends : report.ending = conclusion depth config)
    (prints : conclusion depth config = .ok () → report.printed = transcript depth config)
    (silent : conclusion depth config ≠ .ok () → report.printed = []) :
    Reports depth config report where
  succeeds := by rw [ends, conclusion_eq_ok]
  prints := by rwa [ends]
  ends := ends
  silent := by rwa [ends]

theorem Reports.of_failure {report : Report} {failure : Failure}
    (fails : conclusion depth config = .error failure)
    (report_fails : report.ending = .error failure ∧ report.printed = []) :
    Reports depth config report := by
  refine .of_conclusion (report_fails.1.trans fails.symm) ?_ fun _ => report_fails.2
  rw [fails]
  nofun

theorem run_reports (usable : usableDepth depth = true) :
    Reports depth config (run depth config) := by
  obtain ⟨power, deep⟩ := (usableDepth_iff depth).mp usable
  have passed : ¬usableDepth depth = false := by simp [usable]
  cases sited : config.device.pciAddress? with
  | none =>
    have tpm := pciAddress?_eq_none.mp sited
    refine @Reports.of_failure depth config _ (.notSimulated .ftpm) ?_ ?_
    · rw [conclusion, if_neg passed, if_pos tpm]
    · rw [run, sited, tpm]
      exact ⟨rfl, rfl⟩
  | some address =>
    have present : config.device ≠ .ftpm := fun tpm => by
      rw [pciAddress?_eq_none.mpr tpm] at sited
      cases sited
    obtain ⟨closed, opened⟩ := @run_of_sited depth config address sited
    by_cases small : (baseOf config).toNat < 16
    · refine .of_failure ?_ (closed small)
      rw [conclusion, if_neg passed, if_neg present, if_pos small]
    have queried := @runQueries_reports depth config power deep
      (baseOf config &&& ~~~(0xF : UInt64))
    obtain ⟨ends, prints⟩ := opened (Nat.le_of_not_lt small)
    have concluded := conclusion_of_verdict passed present small
    cases judged : verdict config.maxLength.toNat with
    | error failure =>
      simp only [judged] at queried concluded
      exact .of_failure concluded ⟨ends.trans queried.1, prints.trans queried.2⟩
    | ok found =>
      obtain ⟨-, rfl⟩ := verdict_eq_ok.mp judged
      simp only [judged] at queried concluded
      refine .of_conclusion (ends.trans (queried.1.trans concluded.symm)) (fun _ => ?_) ?_
      · rw [prints, queried.2, summary_answers, Pci.toNat_without_attributes]
        rfl
      · exact fun failed => absurd concluded failed

end Simulation

/-! ### The command -/

/-- The configuration that a command finds: that of the file it is given, or the default one. -/
def Configures [Codec] (tree : Tree) : Option String → Config → Prop
  | none, config => config = {}
  | some path, config => (loadConfig path : StateM Tree _).run tree = (.ok config, tree)

theorem simulate_of_configures [Codec] {depth : UInt8} {config : Config} {tree : Tree}
    {configPath : Option String} (configures : Configures tree configPath config) :
    (simulate depth configPath : StateM Tree Report).run tree =
      (if usableDepth depth then Simulation.run depth config
        else { ending := .error (.badDepth depth) }, tree) := by
  unfold simulate
  cases usable : usableDepth depth with
  | false => rfl
  | true =>
    cases configPath with
    | none =>
      rw [show config = {} from configures]
      rfl
    | some path =>
      have loaded : (loadConfig path : StateM Tree _) tree = (.ok config, tree) := configures
      simp only [Bool.not_true, Bool.false_eq_true, if_false, if_true, StateT.run, bind,
        StateT.bind, loaded]
      rfl

open Simulation (Reports)

/-- A simulation succeeds just when the depth is a power of two and at least two, the device has a
function, its registers are not below 16 and messages may be as long as the longest reply; timeouts,
pauses and client addresses do not matter. It then prints the address of the registers without its
low four bits, what the replies say, and a doorbell for each frame and the first. -/
theorem simulations_report [Codec] (depth : UInt8) (config : Config) :
    (usableDepth depth = true → Reports depth config (Simulation.run depth config)) ∧
    ∀ (tree : Tree) (configPath : Option String), Configures tree configPath config →
      let ran := (simulate depth configPath : StateM Tree Report).run tree
      Reports depth config ran.1 ∧ ran.2 = tree := by
  refine ⟨Simulation.run_reports, fun tree configPath configures => ?_⟩
  intro ran
  have shape : ran = _ := simulate_of_configures configures
  rw [shape]
  refine ⟨?_, rfl⟩
  cases usable : usableDepth depth with
  | true => exact Simulation.run_reports usable
  | false =>
    refine .of_failure ?_ ⟨rfl, rfl⟩
    rw [Simulation.conclusion, if_pos usable]

/-- Rings of two slots, messages as short as may be, no time for any wait, and registers above the
first 4 GiB whose address has a small lower half. -/
def narrowest : Config where
  device := .heci2
  baseAddress := some 0x10000001F
  maxLength := 20
  sendMilliseconds := 0
  receiveMilliseconds := 0
  resetMilliseconds := 0
  pollMicroseconds := 0
  hostAddress := 0xFF
  mkhiAddress := 0

theorem narrowest_simulation_succeeds :
    let narrow := Simulation.run 2 narrowest
    let tree : Tree := { directories := [], files := [] }
    let usual := ((simulate 16 none : StateM Tree Report).run tree).1
    usableDepth 2 = true ∧ Configures tree none {} ∧
    narrow.ending = .ok () ∧ usual.ending = .ok () ∧
    narrow.printed =
      ["Device:        HECI2 at 0x100000010",
        "Code version:  3.0.40.1392",
        "Recovery:      3.0.40.1392",
        "FW caps SKU:   0x00000801",
        "Platform:      usage 2 image 1 brand 1",
        "Doorbells:     19"] ∧
    usual.printed =
      ["Device:        HECI1 at 0xFED1A000",
        "Code version:  3.0.40.1392",
        "Recovery:      3.0.40.1392",
        "FW caps SKU:   0x00000801",
        "Platform:      usage 2 image 1 brand 1",
        "Doorbells:     7"] := by
  intro narrow tree usual
  have usable : usableDepth 2 = true := by decide
  have found : Configures tree none {} := rfl
  have narrowly := (simulations_report 2 narrowest).1 usable
  obtain ⟨usually, -⟩ := (simulations_report 16 {}).2 tree none found
  have narrowEnds : narrow.ending = .ok () :=
    narrowly.succeeds.mpr ⟨⟨⟨1, rfl⟩, by decide⟩, by decide, by decide, by decide⟩
  have usualEnds : usual.ending = .ok () :=
    usually.succeeds.mpr ⟨⟨⟨4, rfl⟩, by decide⟩, by decide, by decide, by decide⟩
  refine ⟨usable, found, narrowEnds, usualEnds, ?_, ?_⟩
  · rw [narrowly.prints narrowEnds]
    rfl
  · rw [usually.prints usualEnds]
    rfl

end Cli

end HeciMailbox
