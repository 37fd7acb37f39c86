import GgmlViz.Config.Loading
import GgmlViz.Hook.Override

/-! # The switch that disables the instrumentation

The initializer of the library and the configuration read `GGML_VIZ_DISABLE` on their own.
The initializer only decides about itself: an override that finds `GGML_VIZ_OUTPUT` set
starts the hook by what the configuration says.
-/
namespace GgmlViz
open LittleEndian

/-- `parse_bool_env`. -/
def parseBoolEnv (getenv : Environ) (varName : Bytes) (defaultValue : Bool) : Bool :=
  match getenv varName with
  | none => defaultValue
  | some value =>
    value = ascii "1" || value = ascii "true" || value = ascii "TRUE" || value = ascii "on" ||
      value = ascii "ON"

/-- A process with the hook library, as far as starting the hook is concerned. -/
structure HookedProcess where
  manager : ConfigManager
  hook : HookState Ptr
  autoInitialized : Bool

/-- An intercepted call, with the outcome of `fopen` in case it starts the hook. -/
structure OverrideCall where
  call : InterceptedCall
  moments : ℕ → Moment
  opens : Bool

namespace HookedProcess
variable (lib : JsonLibrary) (host : Host)

/-- `GGMLHook::start` with the loading of its configuration, which may throw. -/
def start (opens : Bool) (p : HookedProcess) : Except Bytes Unit × HookedProcess :=
  match (ConfigManager.configForStart lib host).call p.manager with
  | (.ok cfg,manager) => (.ok (),{ p with manager := manager, hook := p.hook.start cfg opens })
  | (.error what,manager) => (.error what,{ p with manager := manager })

/-- The constructor of `AutoInitializer`. -/
def autoInitializer (opens : Bool) (p : HookedProcess) : HookedProcess :=
  if parseBoolEnv host.getenv (ascii "GGML_VIZ_DISABLE") false then p
  else if host.getenv.output.isNone then p
  else if p.autoInitialized then p
  else
    match start lib host opens { p with autoInitialized := true } with
    | (.ok (),p) => p
    | (.error _,p) => { p with autoInitialized := false }

/-- The automatic start with which an override begins. -/
def autoStart (c : OverrideCall) (p : HookedProcess) : Except Bytes Unit × HookedProcess :=
  if (c.call.override c.moments).starts host.getenv.output.isSome p.hook then
    start lib host c.opens p
  else (.ok (),p)

/-- A call of an override; an exception of the start leaves it at once. -/
def intercept (c : OverrideCall) (p : HookedProcess) : Except Bytes Unit × HookedProcess :=
  let o := c.call.override c.moments
  match autoStart lib host c p with
  | (.error what,p) => (.error what,p)
  | (.ok (),p) =>
    let hook := o.beforeOriginal p.manager.get p.hook
    -- the original function runs here
    (.ok (),{ p with hook := o.afterOriginal p.manager.get hook })

/-- The calls of a program, whether it survives exceptions or not. -/
def runCalls (calls : List OverrideCall) (p : HookedProcess) : HookedProcess :=
  calls.foldl (fun p c => (intercept lib host c p).2) p

/-- A process after the constructors of its libraries. -/
def loaded (opens : Bool) : HookedProcess :=
  autoInitializer lib host opens
    { manager := {}, hook := HookState.initial host.files, autoInitialized := false }

end HookedProcess

/-- The hook is inactive, and the files are those from before. -/
def HookedProcess.Silent (files : Bytes → Option Bytes) (p : HookedProcess) : Prop :=
  p.hook.active = false ∧ p.hook.files = files

/-- The hook stays inactive and creates no file, between the calls and after the automatic
start within a call. -/
structure NeverTraces (lib : JsonLibrary) (host : Host) (opens : Bool)
    (calls : List OverrideCall) : Prop where
  between : ∀ pre post, calls = pre ++ post →
    (HookedProcess.runCalls lib host pre (.loaded lib host opens)).Silent host.files
  within : ∀ pre c post, calls = pre ++ c :: post →
    (HookedProcess.autoStart lib host c
      (HookedProcess.runCalls lib host pre (.loaded lib host opens))).2.Silent host.files

section Switch
variable (lib : JsonLibrary) (host : Host)

/-- The configuration of the first start, if it can be loaded. -/
def startConfig : Config :=
  Config.beforeCli lib host ((host.getenv (ascii "GGML_VIZ_CONFIG")).getD [])
    (ascii "ggml-viz.json")

/-- Something else keeps the hook off: the configuration reads the switch as well, or there
is no output, no valid or enabled configuration, or no file that can be opened. -/
def StaysOff (calls : List OverrideCall) : Prop :=
  host.getenv.disable = true ∨ host.getenv.output = none ∨ ¬host.getenv.Usable ∨
    (startConfig lib host).hooksEnabled = false ∨
    ∀ c ∈ calls, (c.call.override c.moments).autoStarts = true → c.opens = false

end Switch

section Starting
variable {lib : JsonLibrary} {host : Host} {p : HookedProcess} {c : OverrideCall}

theorem hooksEnabled_of_disable (h : host.getenv.disable = true) :
    (startConfig lib host).hooksEnabled = false := by
  have htiming : (startConfig lib host).get .enableOpTiming = false := by
    rw [startConfig,Config.beforeCli,Config.get_applyEnvOverrides]
    simp [Environ.given,h]
  have hmemory : (startConfig lib host).get .enableMemoryTracking = false := by
    rw [startConfig,Config.beforeCli,Config.get_applyEnvOverrides]
    simp [Environ.given,h]
  exact Bool.or_eq_false_iff.mpr ⟨htiming,hmemory⟩

theorem writeToFile_of_output {name : Bytes} (h : host.getenv.output = some name)
    (hdisable : host.getenv.disable = false) :
    (startConfig lib host).output.writeToFile = true := by
  have hwrite : (startConfig lib host).get .writeToFile = true := by
    rw [startConfig,Config.beforeCli,Config.get_applyEnvOverrides]
    simp [Environ.given,h,hdisable]
  exact hwrite

/-- The manager before and after the first start that did not throw. -/
def HookedProcess.ManagerReady (lib : JsonLibrary) (host : Host) (p : HookedProcess) : Prop :=
  p.manager = {} ∨
    (host.getenv.Usable ∧ p.manager = { config := startConfig lib host, loaded := true })

namespace HookedProcess

/-- Everything that a start can do. -/
theorem start_cases (h : p.ManagerReady lib host) (opens : Bool) :
    (¬host.getenv.Usable ∧ ∃ what, start lib host opens p = (.error what,p)) ∨
    (host.getenv.Usable ∧ start lib host opens p =
      (.ok (),{ p with
        manager := { config := startConfig lib host, loaded := true }
        hook := p.hook.start (startConfig lib host) opens })) := by
  rcases ConfigManager.configForStart_cases lib host p.manager with ⟨hloaded,hcall⟩ |
    ⟨hloaded,hnot,what,hcall⟩ | ⟨hloaded,husable,hcall⟩
  · rcases h with h | ⟨husable,h⟩
    · rw [h] at hloaded
      cases hloaded
    · refine .inr ⟨husable,?_⟩
      rw [start,hcall,h]
      rfl
  · exact .inl ⟨hnot,what,by rw [start,hcall]⟩
  · exact .inr ⟨husable,by rw [start,hcall]; rfl⟩

theorem ManagerReady.start (h : p.ManagerReady lib host) (opens : Bool) :
    (p.start lib host opens).2.ManagerReady lib host := by
  rcases start_cases h opens with ⟨-,what,hstart⟩ | ⟨husable,hstart⟩
  · rw [hstart]
    exact h
  · rw [hstart]
    exact .inr ⟨husable,rfl⟩

theorem ManagerReady.autoStart (h : p.ManagerReady lib host) :
    (p.autoStart lib host c).2.ManagerReady lib host := by
  unfold HookedProcess.autoStart
  split
  · exact h.start c.opens
  · exact h

theorem intercept_manager (c : OverrideCall) (p : HookedProcess) :
    (p.intercept lib host c).2.manager = (p.autoStart lib host c).2.manager := by
  unfold intercept
  dsimp only
  split
  · next hstart => rw [hstart]
  · next hstart => rw [hstart]

theorem ManagerReady.runCalls (h : p.ManagerReady lib host) (calls : List OverrideCall) :
    (p.runCalls lib host calls).ManagerReady lib host := by
  induction calls generalizing p with
  | nil => exact h
  | cons c calls ih =>
    apply ih
    unfold ManagerReady
    rw [intercept_manager]
    exact h.autoStart

theorem intercept_inactive (h : (p.autoStart lib host c).2.hook.active = false) :
    (p.intercept lib host c).2 = (p.autoStart lib host c).2 := by
  unfold intercept
  dsimp only
  split
  · next hstart => rw [hstart]
  · next started hstart =>
    have hoff : started.hook.active = false := by rwa [hstart] at h
    simp [hstart,Override.beforeOriginal,Override.afterOriginal,hoff]

theorem loaded_of_disabled (lib : JsonLibrary)
    (h : parseBoolEnv host.getenv (ascii "GGML_VIZ_DISABLE") false = true) (opens : Bool) :
    loaded lib host opens =
      { manager := {}, hook := HookState.initial host.files, autoInitialized := false } := by
  rw [loaded,autoInitializer,if_pos h]

end HookedProcess

/-- A start with a configuration that disables the hook, or with a file that cannot be
opened, leaves it inactive. -/
theorem HookState.start_silent {s : HookState Ptr} {cfg : Config} {opens : Bool}
    (hs : s.active = false)
    (h : cfg.hooksEnabled = false ∨ (cfg.output.writeToFile = true ∧ opens = false)) :
    (s.start cfg opens).active = false ∧ (s.start cfg opens).files = s.files := by
  by_cases henabled : cfg.hooksEnabled = true
  · rcases h with h | ⟨hwrite,rfl⟩
    · cases henabled.symm.trans h
    · rw [HookState.start_of_inactive henabled hs,hwrite]
      exact ⟨rfl,rfl⟩
  · rw [Bool.not_eq_true] at henabled
    rw [HookState.start_same (Or.inr henabled)]
    exact ⟨hs,rfl⟩

theorem HookState.start_traces {s : HookState Ptr} {cfg : Config}
    (hs : s.active = false) (h : cfg.hooksEnabled = true) : (s.start cfg true).active = true := by
  rw [HookState.start_eq h hs]
  dsimp only
  split
  · simp [HookState.fopen]
  · rfl

namespace HookedProcess
variable {files : Bytes → Option Bytes} {calls : List OverrideCall}

theorem Silent.autoStart (h : p.Silent files) (hready : p.ManagerReady lib host)
    (hoff : StaysOff lib host calls) (hc : c ∈ calls) :
    (p.autoStart lib host c).2.Silent files := by
  unfold HookedProcess.autoStart
  split
  · next hstarts =>
    simp only [Override.starts,Bool.and_eq_true,Bool.not_eq_true',Option.isSome_iff_exists]
      at hstarts
    obtain ⟨hauto,hinactive,name,hname⟩ := hstarts
    rcases start_cases hready c.opens with ⟨-,what,hstart⟩ | ⟨husable,hstart⟩
    · rw [hstart]
      exact h
    · have hquiet : (startConfig lib host).hooksEnabled = false ∨
          ((startConfig lib host).output.writeToFile = true ∧ c.opens = false) := by
        rcases hoff with hdisable | hout | hnot | hcfg | hopens
        · exact .inl (hooksEnabled_of_disable hdisable)
        · cases hname.symm.trans hout
        · exact absurd husable hnot
        · exact .inl hcfg
        · cases hdisable : host.getenv.disable with
          | true => exact .inl (hooksEnabled_of_disable hdisable)
          | false => exact .inr ⟨writeToFile_of_output hname hdisable,hopens c hc hauto⟩
      obtain ⟨hactive,hfiles⟩ := HookState.start_silent hinactive hquiet
      rw [hstart]
      exact ⟨hactive,hfiles.trans h.2⟩
  · exact h

theorem Silent.runCalls (h : p.Silent files) (hready : p.ManagerReady lib host)
    (hoff : StaysOff lib host calls) {pre : List OverrideCall} (hpre : pre ⊆ calls) :
    (p.runCalls lib host pre).Silent files := by
  induction pre generalizing p with
  | nil => exact h
  | cons c pre ih =>
    obtain ⟨hc,hpre⟩ := List.cons_subset.mp hpre
    have hstart := h.autoStart hready hoff hc
    have hnext : (p.intercept lib host c).2.Silent files := by
      rw [intercept_inactive hstart.1]
      exact hstart
    exact ih hnext (hready.runCalls [c]) hpre

end HookedProcess

/-- Where the initializer sees the switch, the hook stays off exactly if something else keeps
it off as well. -/
theorem neverTraces_iff (lib : JsonLibrary) (host : Host) (opens : Bool)
    (calls : List OverrideCall)
    (hdisabled : parseBoolEnv host.getenv (ascii "GGML_VIZ_DISABLE") false = true) :
    NeverTraces lib host opens calls ↔ StaysOff lib host calls := by
  have hloaded := HookedProcess.loaded_of_disabled lib hdisabled opens
  have hready : (HookedProcess.loaded lib host opens).ManagerReady lib host := by
    rw [hloaded]
    exact .inl rfl
  have hsilent : (HookedProcess.loaded lib host opens).Silent host.files := by
    rw [hloaded]
    exact ⟨rfl,rfl⟩
  constructor
  · intro h
    by_contra hon
    simp only [StaysOff,not_or,Bool.not_eq_false] at hon
    obtain ⟨-,hout,husable,hcfg,hopens⟩ := hon
    obtain ⟨name,hname⟩ := Option.ne_none_iff_exists'.mp hout
    push Not at hopens
    obtain ⟨c,hc,hauto,hopen⟩ := hopens
    obtain ⟨pre,post,hcalls⟩ := List.append_of_mem hc
    -- the first of the calls that can start the hook does
    have hbefore := h.between pre (c :: post) hcalls
    have hwithin := h.within pre c post hcalls
    have hstarts : (c.call.override c.moments).starts host.getenv.output.isSome
        (HookedProcess.runCalls lib host pre (.loaded lib host opens)).hook = true := by
      simp [Override.starts,hauto,hname,hbefore.1]
    rw [HookedProcess.autoStart,if_pos hstarts] at hwithin
    rcases HookedProcess.start_cases (hready.runCalls pre) c.opens with ⟨hnot,-⟩ | ⟨-,hstart⟩
    · exact hnot (not_not.mp husable)
    · rw [hstart,Bool.eq_true_of_not_eq_false hopen] at hwithin
      have hactive := HookState.start_traces hbefore.1 hcfg
      exact absurd (hactive.symm.trans hwithin.1) (by decide)
  · intro hoff
    constructor
    · intro pre post hcalls
      exact hsilent.runCalls hready hoff (by rw [hcalls]; exact List.subset_append_left pre post)
    · intro pre c post hcalls
      have hpre : pre ⊆ calls := by rw [hcalls]; exact List.subset_append_left pre _
      exact (hsilent.runCalls hready hoff hpre).autoStart (hready.runCalls pre) hoff
        (by rw [hcalls]; simp)

/-- `GGML_VIZ_DISABLE=on` and `GGML_VIZ_OUTPUT=t`, without any file. -/
def disabledByOn : Host where
  files _ := none
  getenv name :=
    if name = ascii "GGML_VIZ_DISABLE" then some (ascii "on")
    else if name = ascii "GGML_VIZ_OUTPUT" then some (ascii "t")
    else none

def anyCompute : OverrideCall where
  call := .ggmlBackendGraphCompute 0 { ptr := 64, nodes := [], fits := noTensor_fits }
  moments _ := momentAt 7
  opens := true

theorem neverTraces_iff_on : NeverTraces (.ofTexts []) disabledByOn true [anyCompute] ↔
    StaysOff (.ofTexts []) disabledByOn [anyCompute] :=
  neverTraces_iff _ _ _ _ (by decide)

/-- The initializer returns at once, and the first computation starts the hook. -/
theorem not_neverTraces_on :
    parseBoolEnv disabledByOn.getenv (ascii "GGML_VIZ_DISABLE") false = true ∧
      ¬NeverTraces (.ofTexts []) disabledByOn true [anyCompute] := by
  refine ⟨by decide,?_⟩
  intro h
  have hactive : (HookedProcess.autoStart (.ofTexts []) disabledByOn anyCompute
      (.loaded (.ofTexts []) disabledByOn true)).2.hook.active = true := by
    decide +kernel
  exact absurd (hactive.symm.trans (h.within [] anyCompute [] rfl).1) (by decide)

end Starting
end GgmlViz
