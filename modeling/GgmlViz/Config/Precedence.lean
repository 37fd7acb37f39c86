import GgmlViz.Config.Loading

/-! # Precedence

For each setting the published value is compared with the one of the highest layer that
gives it: the file of the command line, then the environment variables, then the file that
the environment names, then the default file, then the defaults.
-/
namespace GgmlViz
open LittleEndian Layers

section Given
variable (lib : JsonLibrary) (host : Host)

/-- What a file gives for a setting, if it can be loaded. -/
def fileGiven (path : Bytes) (f : ConfigField) : Option f.Value :=
  if path = [] then none
  else
    (host.files path).bind fun text =>
      match Config.fromJson lib text with
      | .ok _ => (lib.parse text).toOption.bind (fun j => lib.given j f)
      | .error _ => none

/-- The layers of a setting, from the highest. -/
def settingLayers (cliConfigPath envConfigPath defaultConfigPath : Bytes) (f : ConfigField) :
    List (Layer f.Value) :=
  [{ given := fileGiven lib host cliConfigPath f, forced := false },
    { given := host.getenv.given f, forced := true },
    { given := fileGiven lib host envConfigPath f, forced := false },
    { given := fileGiven lib host defaultConfigPath f, forced := false }]

variable {lib host} {path : Bytes} {f : ConfigField}

theorem fileGiven_of_empty : fileGiven lib host [] f = none := if_pos rfl

theorem fileGiven_of_error (hpath : path ≠ []) {what : Bytes}
    (h : Config.fromFile lib host path = .error what) : fileGiven lib host path f = none := by
  rw [fileGiven,if_neg hpath]
  unfold Config.fromFile at h
  cases htext : host.files path with
  | none => rfl
  | some text =>
    rw [htext] at h
    dsimp only at h
    rw [Option.bind_some,h]

/-- A loaded file has what it gives, and the defaults elsewhere. -/
theorem get_of_fromFile (hpath : path ≠ []) {c : Config}
    (h : Config.fromFile lib host path = .ok c) :
    c.get f = (fileGiven lib host path f).getD (Config.defaultConfig.get f) := by
  rw [fileGiven,if_neg hpath]
  unfold Config.fromFile at h
  cases htext : host.files path with
  | none =>
    rw [htext] at h
    cases h
  | some text =>
    rw [htext] at h
    dsimp only at h
    obtain ⟨-,j,hj,hget⟩ := Config.fromJson_eq_ok h
    rw [Option.bind_some,h,hj]
    exact hget f

theorem get_mergeOptionalFile (c : Config) :
    (c.mergeOptionalFile lib host path).get f = overlay (Config.defaultConfig.get f)
      ((fileGiven lib host path f).getD (Config.defaultConfig.get f)) (c.get f) := by
  unfold Config.mergeOptionalFile
  split
  · next hpath => rw [hpath,fileGiven_of_empty,Option.getD_none,overlay_default]
  · next hpath =>
    split
    · next other hfile =>
      have hversion := Config.isValid_iff.mp (Config.isValid_of_fromFile hfile) .schemaVersion
      rw [Config.get_mergeFrom c hversion,get_of_fromFile hpath hfile]
    · next hfile => rw [fileGiven_of_error hpath hfile,Option.getD_none,overlay_default]

/-- A load merges the layers of every setting. -/
theorem get_finalConfig (cliConfigPath envConfigPath defaultConfigPath : Bytes) :
    (ConfigManager.finalConfig lib host cliConfigPath envConfigPath defaultConfigPath).get f =
      merged (Config.defaultConfig.get f)
        (settingLayers lib host cliConfigPath envConfigPath defaultConfigPath f) := by
  rw [ConfigManager.finalConfig,get_mergeOptionalFile,Config.beforeCli,
    Config.get_applyEnvOverrides,get_mergeOptionalFile,get_mergeOptionalFile]
  rfl

end Given

namespace ConfigManager

/-- The published value of a setting is the one of the highest layer that gives it, if and only
if no layer that gives the default has to undo another value from below. -/
theorem published_eq_highest_iff (lib : JsonLibrary) (host : Host)
    (cliConfigPath envConfigPath defaultConfigPath : Bytes) (m : ConfigManager)
    (h : ((loadWithPrecedence lib host cliConfigPath envConfigPath defaultConfigPath).call m).1 =
      .ok ()) (f : ConfigField) :
    ((loadWithPrecedence lib host cliConfigPath envConfigPath defaultConfigPath).call
        m).2.get.get f = highest (Config.defaultConfig.get f)
          (settingLayers lib host cliConfigPath envConfigPath defaultConfigPath f) ↔
      Respected (Config.defaultConfig.get f)
        (settingLayers lib host cliConfigPath envConfigPath defaultConfigPath f) := by
  rcases load_cases lib host cliConfigPath envConfigPath defaultConfigPath m with
    ⟨-,what,hcall⟩ | ⟨-,-,hcall⟩
  · cases (congrArg Prod.fst hcall).symm.trans h
  · rw [hcall]
    show Config.get (finalConfig lib host cliConfigPath envConfigPath defaultConfigPath) f = _ ↔ _
    rw [get_finalConfig,merged_eq_highest_iff]

section Run

/-- The text and the value of a file that sets `max_events` only. -/
def maxEventsText (digits : String) : Bytes :=
  ascii ("\x7b\"instrumentation\": \x7b\"max_events\": " ++ digits ++ "\x7d\x7d")

def maxEventsDocument (n : UInt64) : Json :=
  .object [(ascii "instrumentation",.object [(ascii "max_events",.unsigned n)])]

def sampleLibrary : JsonLibrary :=
  .ofTexts [(maxEventsText "100000",maxEventsDocument 100000),
    (maxEventsText "200000",maxEventsDocument 200000),
    (maxEventsText "1000000",maxEventsDocument 1000000)]

/-- A default file with 100000 events, and two files for the command line. -/
def sampleHost : Host where
  files path := [(ascii "default_config.json",maxEventsText "100000"),
    (ascii "cli_config.json",maxEventsText "200000"),
    (ascii "cli_default.json",maxEventsText "1000000")].lookup path
  getenv _ := none

/-- The load of a file of the command line over the default file. -/
def sampleLoad (cliConfigPath : Bytes) : Except Bytes Unit × ConfigManager :=
  (loadWithPrecedence sampleLibrary sampleHost cliConfigPath []
    (ascii "default_config.json")).call {}

def sampleLayers (cliConfigPath : Bytes) : List (Layer UInt64) :=
  settingLayers sampleLibrary sampleHost cliConfigPath [] (ascii "default_config.json") .maxEvents

theorem published_eq_highest_iff_cliWins :
    (sampleLoad (ascii "cli_config.json")).2.get.instrumentation.maxEvents =
        highest 1000000 (sampleLayers (ascii "cli_config.json")) ↔
      Respected 1000000 (sampleLayers (ascii "cli_config.json")) :=
  published_eq_highest_iff sampleLibrary sampleHost (ascii "cli_config.json") []
    (ascii "default_config.json") {} (by decide +kernel) .maxEvents

/-- A file of the command line cannot set the maximum back to the default. -/
theorem not_published_highest_cliDefault :
    (sampleLoad (ascii "cli_default.json")).1 = .ok () ∧
    (sampleLoad (ascii "cli_default.json")).2.get.instrumentation.maxEvents = 100000 ∧
    (sampleLoad (ascii "cli_default.json")).2.get.instrumentation.maxEvents ≠
      highest 1000000 (sampleLayers (ascii "cli_default.json")) := by
  decide +kernel

end Run
end ConfigManager
end GgmlViz
