import GgmlViz.Startup.CommandLine
import GgmlViz.Startup.Logger
import GgmlViz.Config.Precedence
import GgmlViz.Frontend.App
import GgmlViz.Hook.DisableSwitch

/-! # The start of the viewer

`main`, from the arguments to the web server or the first frame. The configuration is loaded
once, with the variable that `--verbose` sets, and then decides about the logger and about
the hook of the live mode.
-/
namespace GgmlViz
open LittleEndian Layers

def Host.setenv (name value : Bytes) (host : Host) : Host :=
  { host with getenv := Function.update host.getenv name (some value) }

theorem Host.getenv_setenv (name value : Bytes) (host : Host) :
    (host.setenv name value).getenv name = some value := by
  simp [setenv]

/-- What the viewer finds outside. -/
structure Surroundings where
  host : Host
  stamps : ℕ → LogStamp
  /-- `fopen` succeeds for the file of the hook. -/
  opens : Bool
  /-- What `load_trace_file` finds. -/
  access : FileAccess

/-- What is left of a bad line of arguments. -/
def ArgumentError.printed (v : Surroundings) (e : ArgumentError) : Printed :=
  match e with
  | .invalidPort _ => (Logger.create v.host.getenv).logAll v.stamps .errorLevel e.messages
  | _ => e.messages.map (fun text => (.cerr,text))

namespace MainConfig

/-- `validate_config`, with the text of the error. -/
def validateConfig (host : Host) (config : MainConfig) : Option (List Bytes) :=
  if config.traceFile ≠ [] ∧ (host.files config.traceFile).isNone then
    some [ascii "Error: Cannot open trace file: " ++ config.traceFile]
  else if config.configFile ≠ [] ∧ (host.files config.configFile).isNone then
    some [ascii "Error: Cannot open config file: " ++ config.configFile]
  else if config.liveMode ∧ config.traceFile ≠ [] ∧ config.noHook = false then
    some [ascii "Error: Cannot specify trace file in live mode without --no-hook.",
      ascii "       Live mode captures data in real-time.",
      ascii "       Use --no-hook to monitor an external trace file."]
  else none

def switchText (on : Bool) : Bytes := if on then ascii "enabled" else ascii "disabled"

/-- What `setup_environment` prints of the configurations. -/
def summary (config : MainConfig) (appConfig : Config) : List Bytes :=
  let orNone (name : Bytes) := if name = [] then ascii "(none)" else name
  [ascii "CLI Configuration:",ascii "  Trace file: " ++ orNone config.traceFile,
    ascii "  Config file: " ++ orNone config.configFile,
    ascii "  Live mode: " ++ switchText config.liveMode,
    ascii "  Port: " ++ ascii (toString config.port),
    ascii "  Verbose: " ++ switchText config.verbose,
    ascii "\nLoaded GGML Configuration:",
    -- the name ends where `c_str()` does
    ascii "  Output file: " ++ appConfig.output.filename.takeWhile (fun b => b ≠ 0),
    ascii "  Max events: " ++ Config.decimal appConfig.instrumentation.maxEvents.toNat,
    ascii "  Op timing: " ++ switchText appConfig.instrumentation.enableOpTiming]

/-- The surroundings in which the configuration is loaded. -/
def verboseHost (host : Host) (config : MainConfig) : Host :=
  if config.verbose then host.setenv (ascii "GGML_VIZ_VERBOSE") (ascii "1") else host

end MainConfig

/-- `GGML_VIZ_CONFIG` -/
def Host.envConfigFile (host : Host) : Bytes := (host.getenv (ascii "GGML_VIZ_CONFIG")).getD []

structure SetUp where
  manager : ConfigManager
  logger : Logger
  printed : Printed

/-- `setup_environment`, which throws what the loading throws. -/
def setupEnvironment (lib : JsonLibrary) (v : Surroundings) (config : MainConfig) :
    Except Bytes SetUp :=
  let host := config.verboseHost v.host
  let load := ConfigManager.loadWithPrecedence lib host config.configFile host.envConfigFile
    (ascii "ggml-viz.json")
  match load.call {} with
  | (.error what,_) => .error what
  | (.ok (),manager) =>
    let logger := (Logger.create host.getenv).configureFromConfig manager.get
    .ok
      { manager, logger
        printed :=
          if config.verbose then logger.logAll v.stamps .info (config.summary manager.get)
          else [] }

/-- What `main` runs in the end. -/
inductive ViewerMode
  | webServer (port : ℤ)
  | gui (app : ImGuiApp)

structure Launched where
  config : MainConfig
  process : HookedProcess
  logger : Logger
  printed : Printed
  mode : ViewerMode

inductive Outcome
  | exited (code : ℤ) (printed : Printed)
  | launched (l : Launched)

def Outcome.get : Outcome → Option Launched
  | .exited _ _ => none
  | .launched l => some l

theorem Outcome.exists_launched {o : Outcome} {P : Launched → Bool}
    (h : o.get.any P = true) : ∃ l, o = .launched l ∧ P l = true := by
  cases o with
  | exited code printed => cases h
  | launched l => exact ⟨l,rfl,h⟩

/-- `enable_live_mode`, what it does to the hook: `configure` only prints a warning, and what
`start` throws is caught. -/
def enableHook (lib : JsonLibrary) (host : Host) (opens noHook : Bool) (p : HookedProcess) :
    HookedProcess :=
  if noHook then p else (p.start lib host opens).2

/-- The modes at the end of `main`. -/
def SetUp.launch (lib : JsonLibrary) (v : Surroundings) (config : MainConfig) (s : SetUp) :
    Launched :=
  let process : HookedProcess :=
    { manager := s.manager, hook := HookState.initial v.host.files, autoInitialized := false }
  let host := config.verboseHost v.host
  let (process,mode) :=
    if config.webMode then (process,ViewerMode.webServer config.port)
    else if config.liveMode then
      (enableHook lib host v.opens config.noHook process,
        .gui (.startIn (.live config.traceFile host.getenv.output)))
    else if config.traceFile ≠ [] then
      (process,.gui (.startIn (.trace config.traceFile v.access)))
    else (process,.gui (.startIn .empty))
  { config, process, logger := s.logger, printed := s.printed, mode }

/-- `main`, on the systems with `getopt_long`; the texts of the help and of the version are
left out. -/
def main (lib : JsonLibrary) (v : Surroundings) (argv : List Bytes) : Outcome :=
  match parseArguments (v.host.getenv (ascii "POSIXLY_CORRECT")).isSome argv with
  | .error e => .exited 1 (e.printed v)
  | .ok config =>
    if config.showHelp then .exited 0 []
    else if config.showVersion then .exited 0 []
    else
      match config.validateConfig v.host with
      | some texts => .exited 1 (texts.map (fun text => (.cerr,text)))
      | none =>
        match setupEnvironment lib v config with
        | .error what => .exited 1 [(.cerr,ascii "Error: " ++ what)]
        | .ok s => .launched (s.launch lib v config)

section Loading
variable {lib : JsonLibrary} {v : Surroundings} {config : MainConfig}

namespace MainConfig

theorem files_verboseHost (host : Host) (config : MainConfig) :
    (config.verboseHost host).files = host.files := by
  unfold verboseHost
  split <;> rfl

theorem getenv_verboseHost (host : Host) (config : MainConfig) {name : Bytes}
    (h : name ≠ ascii "GGML_VIZ_VERBOSE") :
    (config.verboseHost host).getenv name = host.getenv name := by
  unfold verboseHost
  split
  · exact Function.update_of_ne h _ host.getenv
  · rfl

theorem output_verboseHost (host : Host) (config : MainConfig) :
    (config.verboseHost host).getenv.output = host.getenv.output := by
  have hname : ascii "GGML_VIZ_OUTPUT" ≠ ascii "GGML_VIZ_VERBOSE" := by decide
  exact getenv_verboseHost host config hname

theorem verbose_verboseHost (host : Host) (h : config.verbose = true) :
    (config.verboseHost host).getenv.verbose = true := by
  have hset : (config.verboseHost host).getenv (ascii "GGML_VIZ_VERBOSE") = some (ascii "1") := by
    rw [verboseHost,if_pos h]
    exact Host.getenv_setenv _ _ host
  rw [Environ.verbose,hset]
  rfl

end MainConfig

/-- What a load with these arguments publishes. -/
def loadedConfig (lib : JsonLibrary) (v : Surroundings) (config : MainConfig) : Config :=
  ConfigManager.finalConfig lib (config.verboseHost v.host) config.configFile
    (config.verboseHost v.host).envConfigFile (ascii "ggml-viz.json")

/-- Everything about an environment that has been set up. -/
theorem setupEnvironment_spec {s : SetUp} (h : setupEnvironment lib v config = .ok s) :
    (loadedConfig lib v config).isValid = true ∧
      s.manager = { config := loadedConfig lib v config, loaded := true } ∧
      s.logger = ({} : Logger).configureFromConfig (loadedConfig lib v config) ∧
      s.printed =
        if config.verbose then
          s.logger.logAll v.stamps .info (config.summary (loadedConfig lib v config))
        else [] := by
  unfold setupEnvironment at h
  dsimp only at h
  rcases ConfigManager.load_cases lib (config.verboseHost v.host) config.configFile
    (config.verboseHost v.host).envConfigFile (ascii "ggml-viz.json") {} with
    ⟨-,what,hcall⟩ | ⟨-,hvalid,hcall⟩
  · rw [hcall] at h
    cases h
  · rw [hcall] at h
    cases h
    exact ⟨hvalid,rfl,rfl,rfl⟩

/-- A process that is launched has parsed its arguments, found its files and loaded its
configuration. -/
theorem exists_of_launched {argv : List Bytes} {l : Launched}
    (h : main lib v argv = .launched l) : ∃ config s,
      parseArguments (v.host.getenv (ascii "POSIXLY_CORRECT")).isSome argv = .ok config ∧
      config.validateConfig v.host = none ∧ setupEnvironment lib v config = .ok s ∧
      l = s.launch lib v config := by
  unfold main at h
  split at h
  · cases h
  · next config hparse =>
    split at h
    · cases h
    · split at h
      · cases h
      · split at h
        · cases h
        · next hvalidate =>
          split at h
          · cases h
          · next s hsetup =>
            cases h
            exact ⟨config,s,hparse,hvalidate,hsetup,rfl⟩

/-- With a loaded configuration the hook starts without reading anything. -/
theorem HookedProcess.start_of_loaded {host : Host} {p : HookedProcess}
    (h : p.manager.isLoaded = true) (opens : Bool) :
    p.start lib host opens = (.ok (),{ p with hook := p.hook.start p.manager.get opens }) := by
  rcases ConfigManager.configForStart_cases lib host p.manager with ⟨-,hcall⟩ | ⟨hnot,-⟩ |
    ⟨hnot,-⟩
  · rw [HookedProcess.start,hcall]
  · cases h.symm.trans hnot
  · cases h.symm.trans hnot

end Loading

section Settings
variable {lib : JsonLibrary} {host host' : Host}

theorem fromFile_congr (h : host.files = host'.files) (path : Bytes) :
    Config.fromFile lib host path = Config.fromFile lib host' path := by
  rw [Config.fromFile,Config.fromFile,h]

theorem fileGiven_congr (lib : JsonLibrary) (h : host.files = host'.files) (path : Bytes)
    (f : ConfigField) : fileGiven lib host path f = fileGiven lib host' path f := by
  rw [fileGiven,fileGiven,h]

/-- The level under `--verbose`, unless a file of the command line asks for another one. -/
def verboseLevel (lib : JsonLibrary) (host : Host) (config : MainConfig) : ConfigLogLevel :=
  ((fileGiven lib host config.configFile .level).filter (fun level => level ≠ .info)).getD .debug

theorem level_loadedConfig {v : Surroundings} {config : MainConfig}
    (h : config.verbose = true) :
    (loadedConfig lib v config).logging.level = verboseLevel lib v.host config := by
  have henv : (config.verboseHost v.host).getenv.given .level = some ConfigLogLevel.debug := by
    rw [Environ.given,if_pos (MainConfig.verbose_verboseHost v.host h)]
  have hcli := fileGiven_congr lib (MainConfig.files_verboseHost v.host config)
    config.configFile .level
  calc (loadedConfig lib v config).get .level
    _ = overlay ConfigLogLevel.info
        ((fileGiven lib (config.verboseHost v.host) config.configFile .level).getD .info)
        .debug := by
      rw [loadedConfig,get_finalConfig,settingLayers,henv]
      rfl
    _ = verboseLevel lib v.host config := by rw [hcli,overlay_getD,verboseLevel]

/-- With `--verbose` the level is DEBUG or one above INFO. -/
theorem shouldLog_verboseLevel (lib : JsonLibrary) (host : Host) (config : MainConfig) :
    (LogLevel.ofConfig (verboseLevel lib host config)).toInt ≤ LogLevel.info.toInt ↔
      verboseLevel lib host config = .debug := by
  unfold verboseLevel
  cases hlevel : (fileGiven lib host config.configFile .level).filter (fun l => l ≠ .info) with
  | none => decide
  | some level =>
    have hne : level ≠ .info := by
      simpa using (Option.filter_eq_some_iff.mp hlevel).2
    cases level with
    | info => exact absurd rfl hne
    | _ => decide

end Settings

section Launches
variable {lib : JsonLibrary} {v : Surroundings} {config : MainConfig} {s : SetUp}

theorem manager_launch (h : s.manager.isLoaded = true) :
    (s.launch lib v config).process.manager = s.manager := by
  unfold SetUp.launch enableHook
  dsimp only
  split
  · rfl
  · split
    · split
      · rfl
      · rw [HookedProcess.start_of_loaded h]
    · split <;> rfl

/-- Whatever is launched, its configuration is merged from the layers with the variable that
`--verbose` sets, the logger has its settings, and the summary is printed unless the file of
the command line asks for a level above INFO. -/
theorem launched_settings (lib : JsonLibrary) (v : Surroundings) (argv : List Bytes)
    (l : Launched) (h : main lib v argv = .launched l) :
    let host := l.config.verboseHost v.host
    let cfg := l.process.manager.get
    (∀ f, cfg.get f = merged (Config.defaultConfig.get f)
      (settingLayers lib host l.config.configFile host.envConfigFile (ascii "ggml-viz.json") f)) ∧
    l.logger =
      { currentLevel := .ofConfig cfg.logging.level, timestampEnabled := cfg.logging.timestamp
        threadIdEnabled := cfg.logging.threadId, logPrefix := cfg.logging.logPrefix } ∧
    (l.config.verbose = true → cfg.logging.level = verboseLevel lib v.host l.config) ∧
    l.printed.length =
      if l.config.verbose = true ∧ verboseLevel lib v.host l.config = .debug then 10 else 0 := by
  obtain ⟨config,s,-,-,hsetup,rfl⟩ := exists_of_launched h
  obtain ⟨-,hmanager,hlogger,hprinted⟩ := setupEnvironment_spec hsetup
  have hprocess : (s.launch lib v config).process.manager.get = loadedConfig lib v config := by
    rw [manager_launch (by rw [hmanager]; rfl),hmanager]
    rfl
  intro host cfg
  have hcfg : cfg = loadedConfig lib v config := hprocess
  rw [hcfg]
  refine ⟨fun f => get_finalConfig _ _ _,hlogger,level_loadedConfig,?_⟩
  show s.printed.length = if config.verbose = true ∧ verboseLevel lib v.host config = .debug
    then 10 else 0
  rw [hprinted]
  by_cases hverbose : config.verbose = true
  · have hshould : s.logger.shouldLog .info = true ↔ verboseLevel lib v.host config = .debug := by
      rw [← shouldLog_verboseLevel,hlogger,← level_loadedConfig hverbose]
      exact decide_eq_true_iff
    rw [if_pos hverbose,Logger.length_logAll]
    simp only [hshould,hverbose,true_and]
    rfl
  · simp [hverbose]

/-- A file of the command line that asks for warnings only. -/
def quietSurroundings : Surroundings where
  host :=
    { files := fun path =>
        if path = ascii "quiet.json" then
          some (ascii "\x7b\"logging\": \x7b\"level\": \"WARN\"\x7d\x7d")
        else none
      getenv := fun _ => none }
  stamps _ := ⟨[],[]⟩
  opens := true
  access := .stable none none

def quietLibrary : JsonLibrary :=
  .ofTexts [(ascii "\x7b\"logging\": \x7b\"level\": \"WARN\"\x7d\x7d",
    .object [(ascii "logging",.object [(ascii "level",.string (ascii "WARN"))])])]

/-- Then nothing is printed in spite of `-v`. -/
theorem launched_settings_quiet :
    ∃ l, main quietLibrary quietSurroundings [ascii "-vc",ascii "quiet.json"] = .launched l ∧
      l.config.verbose = true ∧ l.process.manager.get.logging.level = .warn ∧ l.printed = [] := by
  have hlaunched : (main quietLibrary quietSurroundings
      [ascii "-vc",ascii "quiet.json"]).get.any
        (fun l => l.config = { verbose := true, configFile := ascii "quiet.json" }) = true := by
    decide +kernel
  obtain ⟨l,hl,hconfig⟩ := Outcome.exists_launched hlaunched
  obtain ⟨-,-,hlevel,hprinted⟩ := launched_settings _ _ _ l hl
  replace hconfig := of_decide_eq_true hconfig
  rw [hconfig] at hlevel hprinted
  have hwarn : verboseLevel quietLibrary quietSurroundings.host
      { verbose := true, configFile := ascii "quiet.json" } = .warn := by decide +kernel
  rw [hwarn] at hlevel hprinted
  exact ⟨l,hl,by rw [hconfig],hlevel rfl,List.length_eq_zero_iff.mp hprinted⟩

/-- The hook of the viewer is used and has something to trace. -/
def Launched.Traces (l : Launched) : Prop :=
  l.config.webMode = false ∧ l.config.liveMode = true ∧ l.config.noHook = false ∧
    l.process.manager.get.hooksEnabled = true

instance (l : Launched) : Decidable l.Traces := inferInstanceAs (Decidable (_ ∧ _))

/-- A start creates the trace file, or nothing. -/
theorem files_start_initial (cfg : Config) (opens : Bool) (files : Bytes → Option Bytes) :
    ((HookState.initial files : HookState Ptr).start cfg opens).files =
      if cfg.hooksEnabled = true ∧ cfg.output.writeToFile = true ∧ opens = true then
        Function.update files cfg.output.filename (some traceHeader)
      else files := by
  by_cases henabled : cfg.hooksEnabled = true
  · rw [HookState.start_of_inactive henabled rfl]
    cases hwrite : cfg.output.writeToFile <;> cases opens <;>
      simp [henabled,HookState.initial,HookState.fopen,HookState.fwrite]
  · rw [HookState.start_same (.inr (Bool.eq_false_iff.mpr henabled)),if_neg (fun h => henabled h.1)]
    rfl

theorem files_launch (h : s.manager.isLoaded = true) :
    (s.launch lib v config).process.hook.files =
      if (s.launch lib v config).Traces ∧ s.manager.get.output.writeToFile = true ∧
        v.opens = true then
        Function.update v.host.files s.manager.get.output.filename (some traceHeader)
      else v.host.files := by
  have htraces : (s.launch lib v config).Traces ↔ config.webMode = false ∧
      config.liveMode = true ∧ config.noHook = false ∧ s.manager.get.hooksEnabled = true := by
    rw [Launched.Traces,manager_launch h]
    rfl
  simp only [htraces]
  unfold SetUp.launch enableHook
  dsimp only
  cases config.webMode with
  | true => simp [HookState.initial]
  | false =>
    cases config.liveMode with
    | false => by_cases hempty : config.traceFile = [] <;> simp [hempty,HookState.initial]
    | true =>
      cases config.noHook with
      | true => simp [HookState.initial]
      | false =>
        rw [HookedProcess.start_of_loaded h]
        simp [files_start_initial]

theorem mode_launch (hweb : config.webMode = false) (hlive : config.liveMode = true) :
    (s.launch lib v config).mode = .gui (.startIn (.live config.traceFile v.host.getenv.output)) := by
  rw [← MainConfig.output_verboseHost v.host config]
  unfold SetUp.launch
  dsimp only
  rw [hweb,hlive]
  rfl

/-- Without a file of the command line the environment decides about the output. -/
theorem output_loadedConfig {name : Bytes} (hcli : config.configFile = [])
    (hout : v.host.getenv.output = some name)
    (henabled : (loadedConfig lib v config).hooksEnabled = true) :
    (loadedConfig lib v config).output.filename = name ∧
      (loadedConfig lib v config).output.writeToFile = true := by
  have hload (f : ConfigField) : (loadedConfig lib v config).get f =
      ((config.verboseHost v.host).getenv.given f).getD ((Config.mergeOptionalFile lib
        (config.verboseHost v.host) (config.verboseHost v.host).envConfigFile
        (Config.mergeOptionalFile lib (config.verboseHost v.host) (ascii "ggml-viz.json")
          Config.defaultConfig)).get f) := by
    rw [loadedConfig,ConfigManager.finalConfig,hcli,Config.mergeOptionalFile,if_pos rfl,
      Config.beforeCli,Config.get_applyEnvOverrides]
  have hname : (loadedConfig lib v config).get .filename = name := by
    rw [hload,Environ.given,MainConfig.output_verboseHost,hout,Option.getD_some]
  have hdisable : (config.verboseHost v.host).getenv.disable = false := by
    by_contra hon
    rw [Bool.not_eq_false] at hon
    have htiming : (loadedConfig lib v config).get .enableOpTiming = false := by
      rw [hload]
      simp [Environ.given,hon]
    have hmemory : (loadedConfig lib v config).get .enableMemoryTracking = false := by
      rw [hload]
      simp [Environ.given,hon]
    have hoff : (loadedConfig lib v config).hooksEnabled = false :=
      Bool.or_eq_false_iff.mpr ⟨htiming,hmemory⟩
    cases hoff.symm.trans henabled
  have hwrite : (loadedConfig lib v config).get .writeToFile = true := by
    rw [hload,Environ.given,hdisable,if_neg (by decide),MainConfig.output_verboseHost,hout]
    rfl
  exact ⟨hname,hwrite⟩

/-- The hook of the viewer is not used together with a trace file. -/
theorem traceFile_of_validate (h : config.validateConfig v.host = none)
    (hlive : config.liveMode = true) (hhook : config.noHook = false) : config.traceFile = [] := by
  unfold MainConfig.validateConfig at h
  split at h
  · cases h
  · split at h
    · cases h
    · split at h
      · cases h
      · next hnot =>
        by_contra hne
        exact hnot ⟨hlive,hne,hhook⟩

/-- The viewer changes at most one file when it is launched, and only in live mode with its own
hook. With `GGML_VIZ_OUTPUT` and without a file of the command line this is the very file that
it goes on to monitor: whatever trace was in it, there are no events left. -/
theorem live_start_empties (lib : JsonLibrary) (v : Surroundings) (argv : List Bytes)
    (l : Launched) (h : main lib v argv = .launched l) :
    let cfg := l.process.manager.get
    (l.process.hook.files =
      if l.Traces ∧ cfg.output.writeToFile = true ∧ v.opens = true then
        Function.update v.host.files cfg.output.filename (some traceHeader)
      else v.host.files) ∧
    ∀ name, l.Traces → v.opens = true → v.host.getenv.output = some name →
      l.config.configFile = [] →
      (∃ app, l.mode = .gui app ∧ app.data.live.liveMode = true ∧
        app.data.live.liveFilePath = name) ∧
      ∃ r, TraceReader.openFile (l.process.hook.files name) = some r ∧ r.valid = true ∧
        r.events = [] := by
  obtain ⟨config,s,-,hvalidate,hsetup,rfl⟩ := exists_of_launched h
  obtain ⟨-,hmanager,-,-⟩ := setupEnvironment_spec hsetup
  have hloaded : s.manager.isLoaded = true := by rw [hmanager]; rfl
  have hfiles := @files_launch lib v config s hloaded
  intro cfg
  have hcfg : cfg = s.manager.get := congrArg ConfigManager.get (manager_launch hloaded)
  rw [hcfg]
  refine ⟨hfiles,?_⟩
  intro name htraces hopens hout hcli
  obtain ⟨hweb,hlive,hhook,henabled⟩ := id htraces
  have hget : s.manager.get = loadedConfig lib v config := by rw [hmanager]; rfl
  rw [manager_launch hloaded,hget] at henabled
  have hcli' : config.configFile = [] := hcli
  obtain ⟨hname,hwrite⟩ := output_loadedConfig hcli' hout henabled
  have hempty : config.traceFile = [] := traceFile_of_validate hvalidate hlive hhook
  refine ⟨⟨_,mode_launch hweb hlive,rfl,?_⟩,?_⟩
  · rw [hempty,hout]
    rfl
  · have hheader : (s.launch lib v config).process.hook.files name = some traceHeader := by
      rw [hfiles,hget,if_pos ⟨htraces,hwrite,hopens⟩,hname,Function.update_self]
    rw [hheader]
    exact ⟨_,openFile_records .nil,rfl,rfl⟩

/-- Another process records into the file that the environment names. -/
def recordingSurroundings : Surroundings where
  host :=
    { files := fun path =>
        if path = ascii "run.ggmlviz" then some (writeTrace id overlapping) else none
      getenv := fun name =>
        if name = ascii "GGML_VIZ_OUTPUT" then some (ascii "run.ggmlviz") else none }
  stamps _ := ⟨[],[]⟩
  opens := true
  access := .stable none none

/-- The events recorded so far are lost. -/
theorem live_start_empties_recording :
    (∃ r, TraceReader.openFile (recordingSurroundings.host.files (ascii "run.ggmlviz")) = some r ∧
      r.events = overlapping) ∧
    ∃ l, main quietLibrary recordingSurroundings [ascii "--live"] = .launched l ∧
      ∃ r, TraceReader.openFile (l.process.hook.files (ascii "run.ggmlviz")) = some r ∧
        r.events = [] := by
  have hlaunched : (main quietLibrary recordingSurroundings [ascii "--live"]).get.any
      (fun l => l.Traces ∧ l.config.configFile = []) = true := by decide +kernel
  obtain ⟨l,hl,htraces⟩ := Outcome.exists_launched hlaunched
  obtain ⟨htraces,hcli⟩ := of_decide_eq_true htraces
  obtain ⟨-,hempties⟩ := live_start_empties _ _ _ l hl
  obtain ⟨-,r,hr,-,hevents⟩ := hempties (ascii "run.ggmlviz") htraces rfl rfl hcli
  exact ⟨⟨_,openFile_writeTrace (by simp [overlapping,LabelFits]),rfl⟩,l,hl,r,hr,hevents⟩

end Launches

section Variables

/-- The variables that only the logger reads, when it is created. -/
def loggerVariables : List Bytes :=
  [ascii "GGML_VIZ_LOG_LEVEL",ascii "GGML_VIZ_LOG_TIMESTAMP",ascii "GGML_VIZ_LOG_THREAD_ID",
    ascii "GGML_VIZ_LOG_PREFIX"]

/-- The same files, and the same environment but for the logger. -/
structure Host.Agrees (host host' : Host) : Prop where
  files : host.files = host'.files
  getenv : ∀ name, name ∉ loggerVariables → host.getenv name = host'.getenv name

variable {lib : JsonLibrary} {host host' : Host}

theorem Host.Agrees.verboseHost (h : host.Agrees host') (config : MainConfig) :
    (config.verboseHost host).Agrees (config.verboseHost host') where
  files := by rw [MainConfig.files_verboseHost,MainConfig.files_verboseHost,h.files]
  getenv := by
    intro name hname
    unfold MainConfig.verboseHost
    split
    · by_cases hverbose : name = ascii "GGML_VIZ_VERBOSE"
      · rw [hverbose,Host.getenv_setenv,Host.getenv_setenv]
      · simp [Host.setenv,Function.update_of_ne hverbose,h.getenv name hname]
    · exact h.getenv name hname

theorem Host.Agrees.applyEnvOverrides (h : host.Agrees host') (c : Config) :
    c.applyEnvOverrides host.getenv = c.applyEnvOverrides host'.getenv := by
  have houtput : host.getenv.output = host'.getenv.output := h.getenv _ (by decide)
  have hmax : host.getenv.maxEvents = host'.getenv.maxEvents :=
    congrArg (fun text => text.bind stoull) (h.getenv _ (by decide))
  have hverbose : host.getenv.verbose = host'.getenv.verbose :=
    congrArg switchedOn (h.getenv _ (by decide))
  have hdisable : host.getenv.disable = host'.getenv.disable :=
    congrArg switchedOn (h.getenv _ (by decide))
  rw [Config.applyEnvOverrides,Config.applyEnvOverrides,houtput,hmax,hverbose,hdisable]

theorem Host.Agrees.mergeOptionalFile (h : host.Agrees host') (path : Bytes) (c : Config) :
    c.mergeOptionalFile lib host path = c.mergeOptionalFile lib host' path := by
  unfold Config.mergeOptionalFile
  rw [fromFile_congr h.files]

theorem Host.Agrees.load (h : host.Agrees host') (cliConfigPath envConfigPath path : Bytes) :
    ConfigManager.loadWithPrecedence lib host cliConfigPath envConfigPath path =
      ConfigManager.loadWithPrecedence lib host' cliConfigPath envConfigPath path := by
  unfold ConfigManager.loadWithPrecedence ConfigManager.mergeCliFile
  simp only [h.mergeOptionalFile,h.applyEnvOverrides,fromFile_congr h.files]

variable {v : Surroundings} {config : MainConfig}

theorem Host.Agrees.validateConfig (h : host.Agrees host') (config : MainConfig) :
    config.validateConfig host = config.validateConfig host' := by
  unfold MainConfig.validateConfig
  rw [h.files]

/-- What the logger had from its variables is replaced. -/
theorem Host.Agrees.setupEnvironment (h : v.host.Agrees host') :
    setupEnvironment lib { v with host := host' } config = setupEnvironment lib v config := by
  have hverbose := h.verboseHost config
  have hfile : (config.verboseHost v.host).envConfigFile =
      (config.verboseHost host').envConfigFile :=
    congrArg (fun text => text.getD []) (hverbose.getenv _ (by decide))
  unfold GgmlViz.setupEnvironment
  dsimp only
  rw [hverbose.load,hfile]
  rfl

theorem Host.Agrees.launch (h : v.host.Agrees host') {s : SetUp}
    (hloaded : s.manager.isLoaded = true) :
    s.launch lib { v with host := host' } config = s.launch lib v config := by
  have houtput : (config.verboseHost host').getenv.output =
      (config.verboseHost v.host).getenv.output :=
    ((h.verboseHost config).getenv _ (by decide)).symm
  unfold SetUp.launch enableHook
  dsimp only
  rw [houtput,HookedProcess.start_of_loaded hloaded,HookedProcess.start_of_loaded hloaded,h.files]

/-- The variables `GGML_VIZ_LOG_LEVEL`, `GGML_VIZ_LOG_TIMESTAMP`, `GGML_VIZ_LOG_THREAD_ID` and
`GGML_VIZ_LOG_PREFIX` make no difference to the viewer, but for the complaint about a port. -/
theorem main_loggerVariables (lib : JsonLibrary) (v : Surroundings) (host' : Host)
    (h : v.host.Agrees host') (argv : List Bytes) :
    main lib { v with host := host' } argv = main lib v argv ∨
      ∃ optarg printed printed',
        parseArguments (v.host.getenv (ascii "POSIXLY_CORRECT")).isSome argv =
          .error (.invalidPort optarg) ∧
        main lib v argv = .exited 1 printed ∧
        main lib { v with host := host' } argv = .exited 1 printed' := by
  have hposix : (host'.getenv (ascii "POSIXLY_CORRECT")).isSome =
      (v.host.getenv (ascii "POSIXLY_CORRECT")).isSome :=
    congrArg Option.isSome (h.getenv _ (by decide)).symm
  unfold main
  dsimp only
  rw [hposix]
  cases parseArguments (v.host.getenv (ascii "POSIXLY_CORRECT")).isSome argv with
  | error e =>
    cases e with
    | invalidPort optarg => exact .inr ⟨optarg,_,_,rfl,rfl,rfl⟩
    | unknownOption => exact .inl rfl
    | tooManyArguments => exact .inl rfl
  | ok config =>
    left
    dsimp only
    rw [← h.validateConfig,h.setupEnvironment]
    cases hsetup : setupEnvironment lib v config with
    | error what => rfl
    | ok s =>
      obtain ⟨-,hmanager,-,-⟩ := setupEnvironment_spec hsetup
      dsimp only
      rw [h.launch (by rw [hmanager]; rfl)]

def errorLevelHost : Host where
  files := quietSurroundings.host.files
  getenv name := if name = ascii "GGML_VIZ_LOG_LEVEL" then some (ascii "ERROR") else none

theorem agrees_errorLevelHost : quietSurroundings.host.Agrees errorLevelHost where
  files := rfl
  getenv := by
    intro name hname
    have hne : name ≠ ascii "GGML_VIZ_LOG_LEVEL" := by
      rintro rfl
      exact hname (by decide)
    exact (if_neg hne).symm

/-- The summary is printed although the environment asks for errors only. -/
theorem main_loggerVariables_level : ∃ l,
    main quietLibrary { quietSurroundings with host := errorLevelHost } [ascii "-v"] =
      .launched l ∧ l.printed.length = 10 := by
  have hlaunched : (main quietLibrary quietSurroundings [ascii "-v"]).get.any
      (fun l => l.printed.length = 10) = true := by decide +kernel
  obtain ⟨l,hl,hprinted⟩ := Outcome.exists_launched hlaunched
  have hsame := main_loggerVariables quietLibrary quietSurroundings errorLevelHost
    agrees_errorLevelHost [ascii "-v"]
  rw [hl] at hsame
  rcases hsame with hsame | ⟨_,_,_,_,hexited,_⟩
  · exact ⟨l,hsame,of_decide_eq_true hprinted⟩
  · cases hexited

end Variables
end GgmlViz
