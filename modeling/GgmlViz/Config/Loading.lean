import GgmlViz.Config.Manager

/-! # What loading promises

A load either publishes the merged configuration, which is then valid, or throws and leaves
the manager alone. Files that are optional cannot make it throw; the environment can.
-/
namespace GgmlViz
open LittleEndian Layers Transition

namespace Config
variable {lib : JsonLibrary} {host : Host} {c other : Config} {path : Bytes}

theorem isValid_of_fromFile (h : fromFile lib host path = .ok c) : c.isValid = true := by
  unfold fromFile at h
  split at h
  · cases h
  · exact (fromJson_eq_ok h).1

theorem isValid_mergeFrom (hc : c.isValid = true) (hother : other.isValid = true) :
    (c.mergeFrom other).isValid = true := by
  rw [isValid_iff] at *
  intro f
  rw [get_mergeFrom c (hother .schemaVersion)]
  exact overlay_cases (hother f) (hc f)

theorem mergeOptionalFile_of_error {what : Bytes} (h : fromFile lib host path = .error what)
    (c : Config) : c.mergeOptionalFile lib host path = c := by
  simp [mergeOptionalFile,h]

theorem isValid_mergeOptionalFile (hc : c.isValid = true) :
    (c.mergeOptionalFile lib host path).isValid = true := by
  unfold mergeOptionalFile
  split
  · exact hc
  · split
    · next hfile => exact isValid_mergeFrom hc (isValid_of_fromFile hfile)
    · exact hc

/-- The environment is the only layer that may make a valid configuration invalid. -/
theorem isValid_applyEnvOverrides_iff {getenv : Environ} (hc : c.isValid = true) :
    (c.applyEnvOverrides getenv).isValid = true ↔ getenv.Usable := by
  rw [isValid_iff,Environ.usable_iff]
  constructor
  · intro h f v hv
    have := h f
    rwa [get_applyEnvOverrides,hv] at this
  · intro h f
    rw [get_applyEnvOverrides]
    cases hv : getenv.given f with
    | none => exact isValid_iff.mp hc f
    | some v => exact h f v hv

end Config

/-- The same files, without the values of variables that cannot be used. -/
def Host.dropUnusable (host : Host) : Host := { host with getenv := host.getenv.dropUnusable }

namespace ConfigManager
section Load
variable (lib : JsonLibrary) (host : Host) (cliConfigPath envConfigPath defaultConfigPath : Bytes)

/-- The file of the command line is asked for and cannot be loaded. -/
def CliFails : Prop :=
  cliConfigPath ≠ [] ∧ ∃ what, Config.fromFile lib host cliConfigPath = .error what

/-- What a load merges. -/
def finalConfig : Config :=
  (Config.beforeCli lib host envConfigPath defaultConfigPath).mergeOptionalFile lib host
    cliConfigPath

variable {lib host cliConfigPath}

theorem call_mergeCliFile_of_fails (h : CliFails lib host cliConfigPath) (c : Config)
    (m : ConfigManager) :
    ∃ what, (mergeCliFile lib host cliConfigPath c).call m = (.error what,m) := by
  obtain ⟨hpath,what,hfile⟩ := h
  refine ⟨ascii "Failed to load CLI config " ++ cliConfigPath ++ ascii ": " ++ what,?_⟩
  rw [mergeCliFile,if_neg hpath,hfile,ManagerM.call_throw]

theorem call_mergeCliFile (h : ¬CliFails lib host cliConfigPath) (c : Config)
    (m : ConfigManager) : (mergeCliFile lib host cliConfigPath c).call m =
      (.ok (c.mergeOptionalFile lib host cliConfigPath),m) := by
  unfold mergeCliFile Config.mergeOptionalFile
  split
  · exact ManagerM.call_pure m c
  · next hpath =>
    cases hfile : Config.fromFile lib host cliConfigPath with
    | ok cliConfig => exact ManagerM.call_pure m _
    | error what => exact absurd ⟨hpath,what,hfile⟩ h

theorem call_publish_of_invalid {c : Config} (h : c.isValid = false) (m : ConfigManager) :
    (publish c).call m =
      (.error (ascii "Final configuration is invalid: " ++ c.validationError),m) := by
  rw [publish,h]
  rfl

theorem call_publish {c : Config} (h : c.isValid = true) (m : ConfigManager) :
    (publish c).call m = (.ok (),{ config := c, loaded := true }) := by
  rw [publish,h]
  rfl

variable (lib host cliConfigPath)

/-- Everything that a load can do. -/
theorem load_cases (m : ConfigManager) :
    let final := finalConfig lib host cliConfigPath envConfigPath defaultConfigPath
    let load := loadWithPrecedence lib host cliConfigPath envConfigPath defaultConfigPath
    ((CliFails lib host cliConfigPath ∨ final.isValid = false) ∧
      ∃ what, load.call m = (.error what,m)) ∨
    (¬CliFails lib host cliConfigPath ∧ final.isValid = true ∧
      load.call m = (.ok (),{ config := final, loaded := true })) := by
  intro final load
  have hload : load = mergeCliFile lib host cliConfigPath
      (Config.beforeCli lib host envConfigPath defaultConfigPath) >>= publish := rfl
  rw [hload,ManagerM.call_bind]
  by_cases hcli : CliFails lib host cliConfigPath
  · obtain ⟨what,hwhat⟩ := call_mergeCliFile_of_fails hcli
      (Config.beforeCli lib host envConfigPath defaultConfigPath) m
    rw [hwhat]
    exact .inl ⟨.inl hcli,what,rfl⟩
  · rw [call_mergeCliFile hcli]
    cases hvalid : final.isValid with
    | false => exact .inl ⟨.inr rfl,_,call_publish_of_invalid hvalid m⟩
    | true => exact .inr ⟨hcli,rfl,call_publish hvalid m⟩

/-- A load that throws has not touched the manager. -/
theorem load_throws_unchanged {m m' : ConfigManager} {what : Bytes}
    (h : (loadWithPrecedence lib host cliConfigPath envConfigPath defaultConfigPath).call m =
      (.error what,m')) : m' = m := by
  rcases load_cases lib host cliConfigPath envConfigPath defaultConfigPath m with
    ⟨-,what',hcall⟩ | ⟨-,-,hcall⟩
  · cases hcall.symm.trans h
    rfl
  · cases hcall.symm.trans h

theorem load_throws_iff (m : ConfigManager) :
    (∃ what, ((loadWithPrecedence lib host cliConfigPath envConfigPath defaultConfigPath).call
      m).1 = .error what) ↔ CliFails lib host cliConfigPath ∨
        (finalConfig lib host cliConfigPath envConfigPath defaultConfigPath).isValid = false := by
  rcases load_cases lib host cliConfigPath envConfigPath defaultConfigPath m with
    ⟨h,what,hcall⟩ | ⟨hcli,hvalid,hcall⟩
  · exact iff_of_true ⟨what,congrArg Prod.fst hcall⟩ h
  · apply iff_of_false
    · rintro ⟨what,herror⟩
      cases (congrArg Prod.fst hcall).symm.trans herror
    · rintro (h | h)
      · exact hcli h
      · exact absurd hvalid (Bool.eq_false_iff.mp h)

theorem load_ignores_defaultFile {what : Bytes}
    (h : Config.fromFile lib host defaultConfigPath = .error what) :
    loadWithPrecedence lib host cliConfigPath envConfigPath defaultConfigPath =
      loadWithPrecedence lib host cliConfigPath envConfigPath [] := by
  simp only [loadWithPrecedence,Config.mergeOptionalFile_of_error h]
  rfl

theorem load_ignores_envFile {what : Bytes}
    (h : Config.fromFile lib host envConfigPath = .error what) :
    loadWithPrecedence lib host cliConfigPath envConfigPath defaultConfigPath =
      loadWithPrecedence lib host cliConfigPath [] defaultConfigPath := by
  simp only [loadWithPrecedence,Config.mergeOptionalFile_of_error h]
  rfl

/-- Without a file of the command line only the environment can make a load throw. -/
theorem load_withoutCli_cases (m : ConfigManager) :
    let final := Config.beforeCli lib host envConfigPath defaultConfigPath
    let load := loadWithPrecedence lib host [] envConfigPath defaultConfigPath
    (¬host.getenv.Usable ∧ ∃ what, load.call m = (.error what,m)) ∨
    (host.getenv.Usable ∧ load.call m = (.ok (),{ config := final, loaded := true })) := by
  intro final load
  have hvalid : final.isValid = true ↔ host.getenv.Usable := by
    apply Config.isValid_applyEnvOverrides_iff
    apply Config.isValid_mergeOptionalFile
    exact Config.isValid_mergeOptionalFile Config.isValid_defaultConfig
  have hcli : ¬CliFails lib host [] := fun h => h.1 rfl
  rcases load_cases lib host [] envConfigPath defaultConfigPath m with ⟨h,hcall⟩ | ⟨-,h,hcall⟩
  · refine .inl ⟨?_,hcall⟩
    intro husable
    rcases h with h | h
    · exact hcli h
    · exact absurd (hvalid.mpr husable) (Bool.eq_false_iff.mp h)
  · exact .inr ⟨hvalid.mp h,hcall⟩

end Load

section Runs
variable (lib : JsonLibrary)

inductive ManagerCall
  | load (host : Host) (cliConfigPath envConfigPath defaultConfigPath : Bytes)
  | reset

def ManagerCall.run : ManagerCall → ManagerM Unit
  | .load host cliConfigPath envConfigPath defaultConfigPath =>
    loadWithPrecedence lib host cliConfigPath envConfigPath defaultConfigPath
  | .reset => ConfigManager.reset

/-- Any sequence of calls, each with its own files and environment. -/
def managerSystem : System ConfigManager ManagerCall where
  init m := m = {}
  may _ _ := True
  act call m := some ((call.run lib).call m).2

theorem isValid_get_call (call : ManagerCall) {m : ConfigManager} (h : m.get.isValid = true) :
    ((call.run lib).call m).2.get.isValid = true := by
  cases call with
  | load host cliConfigPath envConfigPath defaultConfigPath =>
    rcases load_cases lib host cliConfigPath envConfigPath defaultConfigPath m with
      ⟨-,what,hcall⟩ | ⟨-,hvalid,hcall⟩
    · rw [ManagerCall.run,hcall]
      exact h
    · rw [ManagerCall.run,hcall]
      exact hvalid
  | reset => exact Config.isValid_defaultConfig

theorem isValid_reachable {m : ConfigManager} (h : (managerSystem lib).Reachable m) :
    m.get.isValid = true := by
  refine h.invariant (P := fun m => m.get.isValid = true) ?_ ?_
  · rintro m rfl
    exact Config.isValid_defaultConfig
  · rintro m call m' hvalid - hact
    cases hact
    exact isValid_get_call lib call hvalid

/-- Only valid configurations are published; a load that throws changes nothing, and throws
for the file of the command line or for the result; an optional file that cannot be loaded is
as good as none. -/
theorem load_publishesOnlyValid :
    (∀ m, (managerSystem lib).Reachable m → m.get.isValid = true) ∧
    ∀ (host : Host) (cliConfigPath envConfigPath defaultConfigPath : Bytes) (m : ConfigManager),
      let load := fun envConfigPath defaultConfigPath =>
        (loadWithPrecedence lib host cliConfigPath envConfigPath defaultConfigPath).call m
      (∀ what m', load envConfigPath defaultConfigPath = (.error what,m') →
        m'.get = m.get ∧ m'.isLoaded = m.isLoaded) ∧
      ((∃ what, (load envConfigPath defaultConfigPath).1 = .error what) ↔
        CliFails lib host cliConfigPath ∨
        (finalConfig lib host cliConfigPath envConfigPath defaultConfigPath).isValid = false) ∧
      (∀ what, Config.fromFile lib host defaultConfigPath = .error what →
        load envConfigPath defaultConfigPath = load envConfigPath []) ∧
      (∀ what, Config.fromFile lib host envConfigPath = .error what →
        load envConfigPath defaultConfigPath = load [] defaultConfigPath) := by
  refine ⟨fun m hm => isValid_reachable lib hm,?_⟩
  intro host cliConfigPath envConfigPath defaultConfigPath m load
  refine ⟨?_,load_throws_iff lib host cliConfigPath envConfigPath defaultConfigPath m,?_,?_⟩
  · intro what m' herror
    rw [load_throws_unchanged lib host cliConfigPath envConfigPath defaultConfigPath herror]
    exact ⟨rfl,rfl⟩
  · intro what hfile
    simp only [load,load_ignores_defaultFile lib host cliConfigPath envConfigPath _ hfile]
  · intro what hfile
    simp only [load,load_ignores_envFile lib host cliConfigPath _ defaultConfigPath hfile]

end Runs

section WithoutCli
variable (lib : JsonLibrary)

/-- A load without a file of the command line returns, and ignores values that cannot be
used. -/
def LoadsWithoutCli (host : Host) (envConfigPath defaultConfigPath : Bytes) (m : ConfigManager) :
    Prop :=
  let load := fun host =>
    (loadWithPrecedence lib host [] envConfigPath defaultConfigPath).call m
  (load host).1 = .ok () ∧ load host = load host.dropUnusable

/-- It does so exactly in an environment without such values; a maximum that cannot be parsed
is ignored. -/
theorem loadsWithoutCli_iff (host : Host) (envConfigPath defaultConfigPath : Bytes)
    (m : ConfigManager) :
    LoadsWithoutCli lib host envConfigPath defaultConfigPath m ↔ host.getenv.Usable := by
  rcases load_withoutCli_cases lib host envConfigPath defaultConfigPath m with
    ⟨husable,what,hcall⟩ | ⟨husable,hcall⟩
  · refine iff_of_false ?_ husable
    rintro ⟨hok,-⟩
    cases (congrArg Prod.fst hcall).symm.trans hok
  · refine iff_of_true ⟨congrArg Prod.fst hcall,?_⟩ husable
    have hsame : Config.beforeCli lib host.dropUnusable envConfigPath defaultConfigPath =
        Config.beforeCli lib host envConfigPath defaultConfigPath :=
      husable.applyEnvOverrides_dropUnusable _
    rcases load_withoutCli_cases lib host.dropUnusable envConfigPath defaultConfigPath m with
      ⟨hnot,-⟩ | ⟨-,hcall'⟩
    · exact absurd Environ.usable_dropUnusable hnot
    · exact hcall.trans (hsame ▸ hcall'.symm)

/-- No files, and `GGML_VIZ_MAX_EVENTS=0`. -/
def zeroMaxEvents : Host where
  files _ := none
  getenv name := if name = ascii "GGML_VIZ_MAX_EVENTS" then some (ascii "0") else none

theorem not_loadsWithoutCli_zero :
    ¬LoadsWithoutCli (.ofTexts []) zeroMaxEvents [] (ascii "ggml-viz.json") {} := by
  have hcall : ((loadWithPrecedence (.ofTexts []) zeroMaxEvents [] [] (ascii "ggml-viz.json")).call
      {}).1 = .error (ascii
        "Final configuration is invalid: instrumentation.max_events must be greater than 0") := by
    decide +kernel
  rintro ⟨hok,-⟩
  cases hcall.symm.trans hok

/-- How `GGMLHook::start` gets its configuration. -/
def configForStart (host : Host) : ManagerM Config := do
  if !(← MonadState.get).isLoaded then
    loadWithPrecedence lib host [] ((host.getenv (ascii "GGML_VIZ_CONFIG")).getD [])
      (ascii "ggml-viz.json")
  return (← MonadState.get).get

/-- Everything that getting the configuration can do. -/
theorem configForStart_cases (host : Host) (m : ConfigManager) :
    let final := Config.beforeCli lib host ((host.getenv (ascii "GGML_VIZ_CONFIG")).getD [])
      (ascii "ggml-viz.json")
    (m.isLoaded = true ∧ (configForStart lib host).call m = (.ok m.get,m)) ∨
    (m.isLoaded = false ∧ ¬host.getenv.Usable ∧
      ∃ what, (configForStart lib host).call m = (.error what,m)) ∨
    (m.isLoaded = false ∧ host.getenv.Usable ∧
      (configForStart lib host).call m = (.ok final,{ config := final, loaded := true })) := by
  intro final
  rw [configForStart,ManagerM.call_bind,ManagerM.call_get]
  dsimp only
  cases hloaded : m.isLoaded with
  | true =>
    rw [if_neg (by decide)]
    exact .inl ⟨rfl,rfl⟩
  | false =>
    rw [if_pos (by decide),ManagerM.call_bind]
    rcases load_withoutCli_cases lib host ((host.getenv (ascii "GGML_VIZ_CONFIG")).getD [])
      (ascii "ggml-viz.json") m with ⟨hnot,what,hcall⟩ | ⟨husable,hcall⟩
    · rw [hcall]
      exact .inr (.inl ⟨rfl,hnot,what,rfl⟩)
    · rw [hcall]
      exact .inr (.inr ⟨rfl,husable,rfl⟩)

end WithoutCli
end ConfigManager
end GgmlViz
