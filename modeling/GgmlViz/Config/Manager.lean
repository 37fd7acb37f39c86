import GgmlViz.Foundation.Layers
import GgmlViz.Foundation.Transition
import GgmlViz.Config.Document
import GgmlViz.Config.Environment

/-! # Loading the configuration

The manager merges the defaults, the files and the environment, validates the result, and
publishes it. Loading may throw at two places, both before the first store to the manager.
-/
namespace GgmlViz
open LittleEndian Layers Transition

/-- What a process reads of its surroundings. -/
structure Host where
  /-- The contents of the files that can be opened. -/
  files : Bytes → Option Bytes
  getenv : Environ

namespace Config

def fromFile (lib : JsonLibrary) (host : Host) (filepath : Bytes) : Except Bytes Config :=
  match host.files filepath with
  | none => .error (ascii "Cannot open config file: " ++ filepath)
  | some text => fromJson lib text

/-- Only values other than the defaults are merged. -/
def mergeFrom (c other : Config) : Config where
  schemaVersion := c.schemaVersion
  instrumentation :=
    let defaults := defaultConfig.instrumentation
    let other := other.instrumentation
    let c := c.instrumentation
    { enableOpTiming := overlay defaults.enableOpTiming other.enableOpTiming c.enableOpTiming
      enableMemoryTracking :=
        overlay defaults.enableMemoryTracking other.enableMemoryTracking c.enableMemoryTracking
      recordTensorNames :=
        overlay defaults.recordTensorNames other.recordTensorNames c.recordTensorNames
      maxEvents := overlay defaults.maxEvents other.maxEvents c.maxEvents
      opTypesToTrace :=
        if other.opTypesToTrace ≠ [] then other.opTypesToTrace else c.opTypesToTrace
      backendsToTrace :=
        overlay defaults.backendsToTrace other.backendsToTrace c.backendsToTrace }
  output :=
    let defaults := defaultConfig.output
    let other := other.output
    let c := c.output
    { filename := overlay defaults.filename other.filename c.filename
      writeToFile := overlay defaults.writeToFile other.writeToFile c.writeToFile
      flushInterval := overlay defaults.flushInterval other.flushInterval c.flushInterval }
  logging :=
    let defaults := defaultConfig.logging
    let other := other.logging
    let c := c.logging
    { level := overlay defaults.level other.level c.level
      timestamp := overlay defaults.timestamp other.timestamp c.timestamp
      threadId := overlay defaults.threadId other.threadId c.threadId
      logPrefix := overlay defaults.logPrefix other.logPrefix c.logPrefix }
  ui :=
    let defaults := defaultConfig.ui
    let other := other.ui
    let c := c.ui
    { liveMode := overlay defaults.liveMode other.liveMode c.liveMode
      pollIntervalMs := overlay defaults.pollIntervalMs other.pollIntervalMs c.pollIntervalMs
      maxLiveEvents := overlay defaults.maxLiveEvents other.maxLiveEvents c.maxLiveEvents }

theorem get_mergeFrom (c : Config) {other : Config} (hother : other.schemaVersion = 1)
    (f : ConfigField) :
    (c.mergeFrom other).get f = overlay (defaultConfig.get f) (other.get f) (c.get f) := by
  cases f with
  | schemaVersion =>
    show c.schemaVersion = overlay 1 other.schemaVersion c.schemaVersion
    rw [hother,overlay_default]
  | _ => rfl

/-- A file at the defaults adds nothing. -/
theorem mergeFrom_defaultConfig (c : Config) : c.mergeFrom defaultConfig = c := by
  apply ext_get
  intro f
  rw [get_mergeFrom c rfl,overlay_default]

/-- The first file is taken as it is. -/
theorem defaultConfig_mergeFrom {other : Config} (hother : other.schemaVersion = 1) :
    defaultConfig.mergeFrom other = other := by
  apply ext_get
  intro f
  rw [get_mergeFrom defaultConfig hother,overlay_self]

/-- Merging two files one after the other merges the second into the first. -/
theorem mergeFrom_assoc (a : Config) {b c : Config} (hb : b.schemaVersion = 1)
    (hc : c.schemaVersion = 1) : (a.mergeFrom b).mergeFrom c = a.mergeFrom (b.mergeFrom c) := by
  apply ext_get
  intro f
  have hbc : (b.mergeFrom c).schemaVersion = 1 := hb
  rw [get_mergeFrom _ hc,get_mergeFrom a hb,get_mergeFrom a hbc,get_mergeFrom b hc,overlay_assoc]

section Merge
variable (lib : JsonLibrary) (host : Host)

/-- The default file and the one that the environment names are optional. -/
def mergeOptionalFile (path : Bytes) (config : Config) : Config :=
  if path = [] then config
  else
    match fromFile lib host path with
    | .ok fileConfig => config.mergeFrom fileConfig
    | .error _ => config

/-- All that is merged before the file of the command line. -/
def beforeCli (envConfigPath defaultConfigPath : Bytes) : Config :=
  (mergeOptionalFile lib host envConfigPath
    (mergeOptionalFile lib host defaultConfigPath defaultConfig)).applyEnvOverrides host.getenv

end Merge
end Config

structure ConfigManager where
  config : Config := Config.defaultConfig
  loaded : Bool := false

/-- Calls that may throw; what was stored before stays stored. -/
abbrev ManagerM := ExceptT Bytes (StateM ConfigManager)

def ManagerM.call {α : Type} (x : ManagerM α) (m : ConfigManager) :
    Except Bytes α × ConfigManager :=
  StateT.run (ExceptT.run x) m

namespace ConfigManager
section Load
variable (lib : JsonLibrary) (host : Host)

/-- The file of the command line has to be there and to be valid. -/
def mergeCliFile (path : Bytes) (config : Config) : ManagerM Config := do
  if path = [] then
    return config
  match Config.fromFile lib host path with
  | .ok cliConfig => return config.mergeFrom cliConfig
  | .error what => throw (ascii "Failed to load CLI config " ++ path ++ ascii ": " ++ what)

/-- The final validation and the atomic update. -/
def publish (config : Config) : ManagerM Unit := do
  if !config.isValid then
    throw (ascii "Final configuration is invalid: " ++ config.validationError)
  modify (fun m => { m with config })
  modify (fun m => { m with loaded := true })

def loadWithPrecedence (cliConfigPath envConfigPath defaultConfigPath : Bytes) :
    ManagerM Unit := do
  let config := Config.defaultConfig
  let config := config.mergeOptionalFile lib host defaultConfigPath
  let config := config.mergeOptionalFile lib host envConfigPath
  let config := config.applyEnvOverrides host.getenv
  let config ← mergeCliFile lib host cliConfigPath config
  publish config

end Load

def get (m : ConfigManager) : Config := m.config

def isLoaded (m : ConfigManager) : Bool := m.loaded

def reset : ManagerM Unit := do
  modify (fun m => { m with config := Config.defaultConfig })
  modify (fun m => { m with loaded := false })

end ConfigManager

section Call
variable {α β : Type} (m : ConfigManager)

@[simp] theorem ManagerM.call_pure (a : α) : (pure a : ManagerM α).call m = (.ok a,m) := rfl

@[simp] theorem ManagerM.call_throw (what : Bytes) :
    (throw what : ManagerM α).call m = (.error what,m) :=
  rfl

@[simp] theorem ManagerM.call_get : (MonadState.get : ManagerM ConfigManager).call m = (.ok m,m) :=
  rfl

theorem ManagerM.call_bind (x : ManagerM α) (f : α → ManagerM β) : (x >>= f).call m =
    match x.call m with
    | (.ok a,m') => (f a).call m'
    | (.error what,m') => (.error what,m') := by
  rw [call,ExceptT.run_bind,StateT.run_bind]
  show _ = match StateT.run (ExceptT.run x) m with
    | (.ok a,m') => (f a).call m'
    | (.error what,m') => (.error what,m')
  rcases StateT.run (ExceptT.run x) m with ⟨_ | a,m'⟩ <;> rfl

end Call
end GgmlViz
