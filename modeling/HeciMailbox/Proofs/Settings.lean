import HeciMailbox.Cli.Run
import HeciMailbox.Proofs.FileTrees
import HeciMailbox.Proofs.FlatCodec
import Mathlib.Data.String.Basic

/-! Configurations come back from the files they are written to.

Each setting has a line of its own, and what is read is decided setting by setting: by its line if
the file has it, by its default if not. How a line is spelt does not matter; what does is stated of
the codec by `Codec.Lawful`. -/

set_option autoImplicit false

namespace HeciMailbox

namespace Config

open Codec (Flat IsWord Kind Value)

/-! ### Settings and their values -/

namespace Setting

theorem mem_all (setting : Setting) : setting ∈ all := by
  cases setting <;> decide

theorem nodup_keys : (all.map key).Nodup := by decide

theorem key_inj {first second : Setting} : first.key = second.key ↔ first = second :=
  ⟨List.inj_on_of_nodup_map nodup_keys (mem_all first) (mem_all second), congrArg key⟩

theorem isWord_key (setting : Setting) : IsWord setting.key := by
  cases setting <;> exact ⟨by decide, rfl⟩

end Setting

/-- Whether every setting fits the integers of a file. -/
def Expressible (config : Config) : Prop :=
  (∀ base, config.baseAddress = some base → base.toNat < 2 ^ 63) ∧ config.maxLength.toNat < 2 ^ 63 ∧
  config.sendMilliseconds.toNat < 2 ^ 63 ∧ config.receiveMilliseconds.toNat < 2 ^ 63 ∧
  config.resetMilliseconds.toNat < 2 ^ 63 ∧ config.pollMicroseconds.toNat < 2 ^ 63

/-- `config` with every setting outside `kept` at its default. -/
def keeping (kept : Setting → Bool) (config : Config) : Config :=
  let plain : Config := {}
  { device := if kept .device then config.device else plain.device
    baseAddress := if kept .baseAddress then config.baseAddress else plain.baseAddress
    maxLength := if kept .maxLength then config.maxLength else plain.maxLength
    sendMilliseconds :=
      if kept .sendMilliseconds then config.sendMilliseconds else plain.sendMilliseconds
    receiveMilliseconds :=
      if kept .receiveMilliseconds then config.receiveMilliseconds else plain.receiveMilliseconds
    resetMilliseconds :=
      if kept .resetMilliseconds then config.resetMilliseconds else plain.resetMilliseconds
    pollMicroseconds :=
      if kept .pollMicroseconds then config.pollMicroseconds else plain.pollMicroseconds
    hostAddress := if kept .hostAddress then config.hostAddress else plain.hostAddress
    mkhiAddress := if kept .mkhiAddress then config.mkhiAddress else plain.mkhiAddress }

theorem device_ofKey (id : DeviceId) : DeviceId.ofKey? id.key = some id := by
  cases id <;> decide

theorem isWord_deviceKey (id : DeviceId) : IsWord id.key := by
  cases id <;> exact ⟨by decide, rfl⟩

section

variable {config : Config}

theorem plain_of_value? {setting : Setting} {value : Value}
    (has : config.value? setting = some value) : value.Plain := by
  cases setting with
  | device => exact Option.some.inj has ▸ isWord_deviceKey config.device
  | baseAddress =>
    obtain ⟨base, -, rfl⟩ := Option.map_eq_some_iff.mp has
    trivial
  | _ => exact Option.some.inj has ▸ trivial

theorem admits_of_value? {setting : Setting} {value : Value}
    (has : config.value? setting = some value) : setting.kind.Admits value := by
  cases setting with
  | device =>
    have listed : config.device.key ∈ DeviceId.all.map DeviceId.key :=
      List.mem_map_of_mem (by cases config.device <;> decide)
    exact Option.some.inj has ▸ listed
  | baseAddress =>
    obtain ⟨base, -, rfl⟩ := Option.map_eq_some_iff.mp has
    exact base.toNat_lt
  | hostAddress | mkhiAddress => exact Option.some.inj has ▸ UInt8.toNat_lt _
  | _ => exact Option.some.inj has ▸ UInt64.toNat_lt _

theorem expressible_iff :
    config.Expressible ↔ ∀ setting value, config.value? setting = some value → value.Fits := by
  constructor
  · rintro ⟨base, length, send, receive, reset, poll⟩ setting value has
    have small (byte : UInt8) : byte.toNat < 2 ^ 63 := Nat.lt_trans byte.toNat_lt (by decide)
    cases setting with
    | device => exact Option.some.inj has ▸ trivial
    | baseAddress =>
      obtain ⟨address, set, rfl⟩ := Option.map_eq_some_iff.mp has
      exact base address set
    | maxLength => exact Option.some.inj has ▸ length
    | sendMilliseconds => exact Option.some.inj has ▸ send
    | receiveMilliseconds => exact Option.some.inj has ▸ receive
    | resetMilliseconds => exact Option.some.inj has ▸ reset
    | pollMicroseconds => exact Option.some.inj has ▸ poll
    | hostAddress => exact Option.some.inj has ▸ small config.hostAddress
    | mkhiAddress => exact Option.some.inj has ▸ small config.mkhiAddress
  · intro fits
    refine ⟨fun base set => fits .baseAddress (.number base.toNat) ?_, fits .maxLength _ rfl,
      fits .sendMilliseconds _ rfl, fits .receiveMilliseconds _ rfl, fits .resetMilliseconds _ rfl,
      fits .pollMicroseconds _ rfl⟩
    rw [value?, set, Option.map_some]

theorem wide_of_kept (kept : Bool) (value fallback : UInt64) :
    wide (if kept then some (.number value.toNat) else none) fallback =
      if kept then value else fallback := by
  cases kept <;> simp [wide, Value.number?]

theorem byte_of_kept (kept : Bool) (value fallback : UInt8) :
    byte (if kept then some (.number value.toNat) else none) fallback =
      if kept then value else fallback := by
  cases kept <;> simp [byte, Value.number?]

theorem ofValues_of_kept (kept : Setting → Bool) :
    ofValues (fun setting => if kept setting then config.value? setting else none) =
      config.keeping kept := by
  have device : ((if kept .device then config.value? .device else none).bind
      Value.name?).bind DeviceId.ofKey? = if kept .device then some config.device else none := by
    cases kept .device <;> simp [value?, Value.name?, device_ofKey]
  have base : ((if kept .baseAddress then config.value? .baseAddress else none).bind
      Value.number?).map UInt64.ofNat =
        if kept .baseAddress then config.baseAddress else none := by
    cases kept .baseAddress <;> cases set : config.baseAddress <;> simp [value?, Value.number?, set]
  unfold ofValues keeping
  simp only [device, base]
  simp only [value?, wide_of_kept, byte_of_kept]
  cases kept .device <;> rfl

end

/-! ### The settings that a file keeps -/

def keptItem? (kept : Setting → Bool) (config : Config) (setting : Setting) :
    Option (String × Value) :=
  if kept setting then (config.value? setting).map (setting.key, ·) else none

def keptEntries (kept : Setting → Bool) (config : Config) : List (String × Value) :=
  Setting.all.filterMap (config.keptItem? kept)

/-- The lines of a file that are left when those of all other settings are deleted. -/
def keptLines (line : String → Value → String) (kept : Setting → Bool) (config : Config) :
    List String :=
  (config.keptEntries kept).map fun entry => line entry.1 entry.2

section

variable {config : Config} {kept : Setting → Bool}

theorem keptItem?_eq_some {setting : Setting} {entry : String × Value} :
    config.keptItem? kept setting = some entry ↔
      kept setting = true ∧ ∃ value, config.value? setting = some value ∧
        (setting.key, value) = entry := by
  rw [keptItem?, Option.ite_none_right_eq_some, Option.map_eq_some_iff]

theorem mem_keptEntries {entry : String × Value} :
    entry ∈ config.keptEntries kept ↔ ∃ setting, kept setting = true ∧
      ∃ value, config.value? setting = some value ∧ (setting.key, value) = entry := by
  simp only [keptEntries, List.mem_filterMap, Setting.mem_all, true_and, keptItem?_eq_some]

theorem entries_fields :
    Codec.entries (Setting.all.map fun setting => (setting.key, config.value? setting)) =
      config.keptEntries fun _ => true := by
  rw [Codec.entries, List.filterMap_map]
  rfl

theorem sublist_keys (settings : List Setting) :
    ((settings.filterMap (config.keptItem? kept)).map Prod.fst).Sublist
      (settings.map Setting.key) := by
  induction settings with
  | nil => exact .slnil
  | cons setting rest ih =>
    cases picked : config.keptItem? kept setting with
    | none =>
      rw [List.filterMap_cons_none picked]
      exact ih.cons _
    | some entry =>
      obtain ⟨-, value, -, rfl⟩ := keptItem?_eq_some.mp picked
      rw [List.filterMap_cons_some picked]
      exact ih.cons_cons _

theorem flat_keptEntries : Flat (config.keptEntries kept) where
  distinct := (sublist_keys Setting.all).nodup Setting.nodup_keys
  keys entry member := by
    obtain ⟨setting, -, value, -, rfl⟩ := mem_keptEntries.mp member
    exact setting.isWord_key
  plain entry member := by
    obtain ⟨setting, -, value, has, rfl⟩ := mem_keptEntries.mp member
    exact plain_of_value? has

theorem lookup_keptEntries (setting : Setting) :
    (config.keptEntries kept).lookup setting.key =
      if kept setting then config.value? setting else none := by
  cases held : (config.keptEntries kept).lookup setting.key with
  | none =>
    rw [List.lookup_eq_none_iff] at held
    split
    · next keeps =>
      cases has : config.value? setting with
      | none => rfl
      | some value =>
        have member := mem_keptEntries.mpr ⟨setting, keeps, value, has, rfl⟩
        simpa using held _ member
    · rfl
  | some value =>
    obtain ⟨before, behind, shape, -⟩ := List.lookup_eq_some_iff.mp held
    have member : (setting.key, value) ∈ config.keptEntries kept := by simp [shape]
    obtain ⟨other, keeps, given, has, same⟩ := mem_keptEntries.mp member
    obtain ⟨key, rfl⟩ := Prod.mk.inj same
    obtain rfl := Setting.key_inj.mp key
    rw [if_pos keeps, has]

section

variable [Codec] {line : String → Value → String} (lawful : Codec.Lawful line)

include lawful

theorem toText?_of_expressible (expressible : config.Expressible) :
    config.toText? = some (String.join (config.keptLines line fun _ => true)) := by
  rw [keptLines, ← Codec.spelt, ← entries_fields]
  refine lawful.writes ?_ fun entry member => ?_
  · rw [entries_fields]
    exact flat_keptEntries
  · rw [entries_fields] at member
    obtain ⟨setting, -, value, has, rfl⟩ := mem_keptEntries.mp member
    exact expressible_iff.mp expressible setting value has

theorem toText?_of_not_expressible (large : ¬config.Expressible) : config.toText? = none := by
  simp only [expressible_iff, not_forall] at large
  obtain ⟨setting, value, has, large⟩ := large
  refine lawful.refuses ?_ ⟨(setting.key, value), ?_, large⟩
  · rw [entries_fields]
    exact flat_keptEntries
  · rw [entries_fields]
    exact mem_keptEntries.mpr ⟨setting, rfl, value, has, rfl⟩

/-- A text with some of the lines sets the settings of these lines and no others. -/
theorem ofText_keptLines (expressible : config.Expressible) (kept : Setting → Bool) :
    ofText (String.join (config.keptLines line kept)) = .ok (config.keeping kept) := by
  let fields := Setting.all.map fun setting => (setting.key, setting.kind)
  have distinct : (fields.map Prod.fst).Nodup := by
    rw [List.map_map]
    exact Setting.nodup_keys
  have asked : ∀ entry ∈ config.keptEntries kept, entry.2.Fits ∧
      ∃ kind, (entry.1, kind) ∈ fields ∧ kind.Admits entry.2 := by
    intro entry member
    obtain ⟨setting, -, value, has, rfl⟩ := mem_keptEntries.mp member
    exact ⟨expressible_iff.mp expressible setting value has, setting.kind,
      List.mem_map.mpr ⟨setting, setting.mem_all, rfl⟩, admits_of_value? has⟩
  obtain ⟨values, read, found⟩ := lawful.reads distinct flat_keptEntries
    (fun entry member => (asked entry member).1) fun entry member => (asked entry member).2
  have given : (fun setting : Setting => values.lookup setting.key) =
      fun setting => if kept setting then config.value? setting else none := by
    funext setting
    have here := found (setting.key, setting.kind)
      (List.mem_map.mpr ⟨setting, setting.mem_all, rfl⟩)
    rw [here, lookup_keptEntries]
  rw [← ofValues_of_kept, ← given, ofText, keptLines, ← Codec.spelt, read]
  rfl

theorem single_of_mem_keptLines (expressible : config.Expressible) {text : String}
    (member : text ∈ config.keptLines line kept) :
    ∃ body, text = body ++ "\n" ∧ '\n' ∉ body.toList := by
  obtain ⟨entry, inside, rfl⟩ := List.mem_map.mp member
  obtain ⟨setting, -, value, has, rfl⟩ := mem_keptEntries.mp inside
  exact lawful.single setting.isWord_key (plain_of_value? has)
    (expressible_iff.mp expressible setting value has)

end

end

end Config

/-! ### Files -/

namespace Cli

section

variable [Codec] {tree : Tree} {path text : String} {config : Config}

theorem loadConfig_of_read (read : tree.read path = .ok text.toUTF8)
    (means : Config.ofText text = .ok config) :
    (loadConfig path : StateM Tree _).run tree = (.ok config, tree) := by
  have bytes : Config.ofBytes text.toUTF8 = .ok config := by
    rw [Config.ofBytes, fromUTF8?_toUTF8]
    exact means
  have done : (Files.read path : StateM Tree _).run tree = pure (.ok text.toUTF8, tree) :=
    congrArg (·, tree) read
  simp only [loadConfig, StateT.run_bind, done, pure_bind, bytes]
  rfl

theorem saveConfig_of_none (refused : config.toText? = none) :
    (saveConfig path config : StateM Tree _).run tree = (.error (.inexpressible path), tree) := by
  simp only [saveConfig, refused]
  rfl

theorem saveConfig_of_text (given : config.toText? = some text) :
    (saveConfig path config : StateM Tree _).run tree =
      match tree.write path text with
      | .ok next => (.ok (), next)
      | .error fault => (.error (.unwritable path fault), tree) := by
  cases written : tree.write path text with
  | ok next =>
    have done : (Files.write path text : StateM Tree _).run tree = pure (.ok (), next) := by
      simp only [Files.write, StateT.run_bind, StateT.run_get, pure_bind, written]
      rfl
    simp only [saveConfig, given, StateT.run_bind, done, pure_bind]
    rfl
  | error fault =>
    have done : (Files.write path text : StateM Tree _).run tree = pure (.error fault, tree) := by
      simp only [Files.write, StateT.run_bind, StateT.run_get, pure_bind, written]
      rfl
    simp only [saveConfig, given, StateT.run_bind, done, pure_bind]
    rfl

end

/-- With a codec that can be relied on, a configuration is saved exactly if its settings fit and the
path takes a file. What was saved has a line for each setting that has a value and is loaded again,
and a file from which lines were deleted gives the settings of these lines their defaults. -/
theorem saved_settings_are_loaded [Codec] {line : String → Codec.Value → String}
    (lawful : Codec.Lawful line) (tree : Tree) (path : String) (config : Config) :
    let saved := (saveConfig path config : StateM Tree _).run tree
    (saved.1 = .error (.inexpressible path) ↔ ¬ config.Expressible) ∧
    ((∃ failure, saved.1 = .error failure) ↔ ¬ config.Expressible ∨ ¬ tree.Takes path) ∧
    (∀ failure, saved.1 = .error failure → saved.2 = tree) ∧
    (saved.1 = .ok () →
      (loadConfig path : StateM Tree _).run saved.2 = (.ok config, saved.2) ∧
      saved.2.read path = .ok (String.join (config.keptLines line fun _ => true)).toUTF8 ∧
      (∀ text ∈ config.keptLines line fun _ => true,
        ∃ body, text = body ++ "\n" ∧ '\n' ∉ body.toList) ∧
      ∀ kept (next : Tree),
        next.read path = .ok (String.join (config.keptLines line kept)).toUTF8 →
        (loadConfig path : StateM Tree _).run next = (.ok (config.keeping kept), next)) := by
  intro saved
  rcases Classical.em config.Expressible with expressible | large
  · have outcome := @saveConfig_of_text _ tree path _ _
      (Config.toText?_of_expressible lawful expressible)
    have loads (kept : Config.Setting → Bool) (next : Tree)
        (read : next.read path = .ok (String.join (config.keptLines line kept)).toUTF8) :
        (loadConfig path : StateM Tree _).run next = (.ok (config.keeping kept), next) :=
      loadConfig_of_read read (Config.ofText_keptLines lawful expressible kept)
    rcases Classical.em (tree.Takes path) with takes | refused
    · obtain ⟨next, wrote, read⟩ :=
        Tree.write_of_takes takes (String.join (config.keptLines line fun _ => true))
      rw [wrote] at outcome
      have outcome : saved = (.ok (), next) := outcome
      rw [outcome]
      refine ⟨by simp [expressible], by simp [expressible, takes], by simp, fun _ =>
        ⟨loads _ next read, read, fun text => ?_, loads⟩⟩
      exact Config.single_of_mem_keptLines lawful expressible
    · obtain ⟨fault, failed⟩ := Tree.write_of_not_takes refused
      rw [failed] at outcome
      have outcome : saved = (.error (.unwritable path fault), tree) := outcome
      rw [outcome]
      simp [expressible, refused]
  · have outcome : saved = (.error (.inexpressible path), tree) :=
      saveConfig_of_none (Config.toText?_of_not_expressible lawful large)
    rw [outcome]
    simp [large]

/-- The controller `heci2` and a timeout are saved as TOML, loaded, and fall back to their defaults
when their lines are deleted. -/
theorem two_settings_are_saved :
    let config : Config := { device := .heci2, receiveMilliseconds := 250 }
    let tree : Tree := { directories := [], files := [] }
    let saved := (saveConfig "me" config : StateM Tree _).run tree
    let rest : Tree := { directories := [], files := [(["me"], "receive_timeout_ms = 250\n")] }
    saved.1 = .ok () ∧
    (loadConfig "me" : StateM Tree _).run saved.2 = (.ok config, saved.2) ∧
    (loadConfig "me" : StateM Tree _).run rest = (.ok { receiveMilliseconds := 250 }, rest) := by
  intro config tree saved rest
  have expressible : config.Expressible := by
    refine ⟨?_, by decide, by decide, by decide, by decide, by decide⟩
    intro base set
    cases set
  have named : Tree.names "me" = .ok ["me"] := by
    have clean : "me".contains '\x00' = false := by simp
    rw [Tree.names, clean, String.splitToList_of_valid]
    decide +kernel
  have relative : "me".startsWith "/" = false := by decide +kernel
  have whole : Tree.endsOpen "me" = false := by decide +kernel
  have located : tree.locate "me" = .ok (["me"], .missing) := by
    rw [Tree.locate, named, Tree.start, relative]
    rfl
  have takes : tree.Takes "me" := ⟨["me"], .missing, located, trivial, whole⟩
  obtain ⟨-, failing, -, succeeding⟩ :=
    saved_settings_are_loaded Toml.lawful tree "me" config
  have done : saved.1 = .ok () := by
    cases ended : saved.1 with
    | ok value => rfl
    | error failure =>
      rcases failing.mp ⟨failure, ended⟩ with large | refused
      · exact absurd expressible large
      · exact absurd takes refused
  obtain ⟨loaded, -, -, deleted⟩ := succeeding done
  refine ⟨done, loaded, ?_⟩
  have left : config.keptLines Toml.entryLine (fun setting => setting == .receiveMilliseconds) =
      ["receive_timeout_ms = 250\n"] := by decide
  have there : rest.read "me" = .ok (String.join ["receive_timeout_ms = 250\n"]).toUTF8 := by
    rw [Tree.read, Tree.locate, named, Tree.start, relative, whole]
    rfl
  rw [← left] at there
  exact deleted _ rest there

end Cli

end HeciMailbox
