import GgmlViz.Hook.Override

/-! # Interposition and the search order of the dynamic linker

An override finds its original by name, on the handle of the program itself. Such a name
means the first library in the search order that defines it, and the hook library defines
all seven names, so nothing behind the hook library is ever found.
-/
namespace GgmlViz

inductive GgmlStatus
  | allocFailed
  | failed
  | success
  | aborted
  deriving DecidableEq, Repr

inductive Symbol
  | ggmlBackendGraphCompute
  | ggmlGraphCompute
  | ggmlGraphComputeWithCtx
  | ggmlBackendMetalGraphCompute
  | ggmlTallocrAlloc
  | ggmlGallocrAllocGraph
  | ggmlBackendAllocCtxTensors
  deriving DecidableEq, Repr

inductive Returned
  | status (status : GgmlStatus)
  | void
  | bool (b : Bool)
  | buffer (buffer : Ptr)
  deriving DecidableEq, Repr

namespace InterceptedCall

def symbol : InterceptedCall → Symbol
  | .ggmlBackendGraphCompute .. => .ggmlBackendGraphCompute
  | .ggmlGraphCompute .. => .ggmlGraphCompute
  | .ggmlGraphComputeWithCtx .. => .ggmlGraphComputeWithCtx
  | .ggmlBackendMetalGraphCompute .. => .ggmlBackendMetalGraphCompute
  | .ggmlTallocrAlloc .. => .ggmlTallocrAlloc
  | .ggmlGallocrAllocGraph .. => .ggmlGallocrAllocGraph
  | .ggmlBackendAllocCtxTensors .. => .ggmlBackendAllocCtxTensors

/-- What an override returns when it has no original to call. -/
def resultWithoutOriginal : InterceptedCall → Returned
  | .ggmlBackendGraphCompute .. => .status .success
  | .ggmlGraphCompute .. => .void
  | .ggmlGraphComputeWithCtx .. => .status .success
  | .ggmlBackendMetalGraphCompute .. => .status .success
  | .ggmlTallocrAlloc .. => .status .success
  | .ggmlGallocrAllocGraph .. => .bool false
  | .ggmlBackendAllocCtxTensors .. => .buffer 0

end InterceptedCall

/-- The library at this place of the search order is called with these arguments. -/
structure Invocation where
  place : ℕ
  call : InterceptedCall

/-- A process that has the hook library loaded. -/
structure LinkedProcess where
  cfg : Config
  outputSet : Bool
  /-- The libraries before the hook library in the search order: which names they define. -/
  before : List (Symbol → Bool)
  /-- The libraries behind it. -/
  after : List (Symbol → Bool)
  /-- What the function in the library at a place returns, after these earlier calls. -/
  returns : ℕ → List Invocation → InterceptedCall → Returned
  /-- `dlopen(NULL)` gives a handle. -/
  handle : Bool
  /-- The hook library was linked so that its own names mean its own definitions. -/
  boundLocally : Bool

/-- The hook and the function pointers; a function is known by its library's place. -/
structure Interposer where
  hook : HookState Ptr
  original : Symbol → Option ℕ
  hooksInitialized : Bool
  invoked : List Invocation

namespace LinkedProcess
variable (p : LinkedProcess)

def searchOrder : List (Symbol → Bool) := p.before ++ (fun _ => true) :: p.after

def ownPlace : ℕ := p.before.length

/-- The library at this place is behind the hook library and defines the name. -/
def DefinedBehind (place : ℕ) (symbol : Symbol) : Prop :=
  p.ownPlace < place ∧ ∃ defines, p.searchOrder[place]? = some defines ∧ defines symbol = true

/-- `dlsym` on the handle of `dlopen(NULL)`: the first definition in search order. -/
def dlsym (symbol : Symbol) : Option ℕ := p.searchOrder.findIdx? (fun defines => defines symbol)

/-- The address of an override as the hook library itself sees it. Without local binding
its name means the first definition here too. -/
def overrideAddress (symbol : Symbol) : ℕ :=
  if p.boundLocally then p.ownPlace else (p.dlsym symbol).getD p.ownPlace

/-- `install_ggml_hooks`: a pointer is stored unless it is the one of the override itself. -/
def installGgmlHooks (s : Interposer) : Interposer :=
  if p.handle then
    { s with original := fun symbol =>
        match p.dlsym symbol with
        | some place => if place ≠ p.overrideAddress symbol then some place else s.original symbol
        | none => s.original symbol }
  else s

def uninstallGgmlHooks (s : Interposer) : Interposer := { s with original := fun _ => none }

/-- The first call installs the hooks. -/
def ensureHooks (s : Interposer) : Interposer :=
  if !s.hooksInitialized then { p.installGgmlHooks s with hooksInitialized := true } else s

/-- The original function, or what an override returns without it. -/
def callOriginal (c : InterceptedCall) (s : Interposer) : Interposer × Returned :=
  match s.original c.symbol with
  | some place => ({ s with invoked := s.invoked ++ [⟨place,c⟩] },p.returns place s.invoked c)
  | none => (s,c.resultWithoutOriginal)

def intercept (c : InterceptedCall) (moments : ℕ → Moment) (opens : Bool) (s : Interposer) :
    Interposer × Returned :=
  let o := c.override moments
  let hook := if o.starts p.outputSet s.hook then s.hook.start p.cfg opens else s.hook
  let s := p.ensureHooks { s with hook := o.beforeOriginal p.cfg hook }
  let (s,result) := p.callOriginal c s
  ({ s with hook := o.afterOriginal p.cfg s.hook },result)

/-- The process after its start, in any state of the hook. -/
def loaded (hook : HookState Ptr) : Interposer :=
  { hook := hook, original := fun _ => none, hooksInitialized := false, invoked := [] }

end LinkedProcess

inductive LinkAction
  | intercepted (c : InterceptedCall) (moments : ℕ → Moment) (opens : Bool)
  | installGgmlHooks
  | uninstallGgmlHooks

def LinkAction.run (p : LinkedProcess) : LinkAction → Interposer → Interposer
  | .intercepted c moments opens, s => (p.intercept c moments opens s).1
  | .installGgmlHooks, s => p.installGgmlHooks s
  | .uninstallGgmlHooks, s => LinkedProcess.uninstallGgmlHooks s

namespace LinkedProcess
variable (p : LinkedProcess)

def runActions (actions : List LinkAction) (s : Interposer) : Interposer :=
  actions.foldl (fun s a => a.run p s) s

/-- The call goes once to a library behind the hook library, and its result comes back. -/
def Delegates (c : InterceptedCall) (moments : ℕ → Moment) (opens : Bool) (s : Interposer) :
    Prop :=
  ∃ place, p.DefinedBehind place c.symbol ∧
    (p.intercept c moments opens s).1.invoked = s.invoked ++ [⟨place,c⟩] ∧
    (p.intercept c moments opens s).2 = p.returns place s.invoked c

/-- Every call of a function that a library behind the hook library defines is delegated. -/
def Transparent (hook : HookState Ptr) (actions : List LinkAction) : Prop :=
  ∀ pre c moments opens post, actions = pre ++ .intercepted c moments opens :: post →
    (∃ place, p.DefinedBehind place c.symbol) →
    p.Delegates c moments opens (p.runActions pre (loaded hook))

/-- Whatever pointer is stored, it points before the hook library. -/
def PointsBefore (s : Interposer) : Prop :=
  ∀ symbol place, s.original symbol = some place → place < p.ownPlace

variable {p} {s : Interposer} {c : InterceptedCall} {moments : ℕ → Moment} {opens : Bool}

theorem dlsym_le {symbol : Symbol} {place : ℕ} (h : p.dlsym symbol = some place) :
    place ≤ p.ownPlace := by
  by_contra hlt
  obtain ⟨_,_,hfirst⟩ := List.findIdx?_eq_some_iff_getElem.mp h
  have hlength : p.ownPlace < p.searchOrder.length := by simp [searchOrder,ownPlace]
  have hown : p.searchOrder[p.ownPlace] = fun _ => true :=
    List.getElem_of_append rfl rfl
  exact hfirst p.ownPlace (by omega) (congrFun hown symbol)

/-- What is found under a name and is not the override lies before the hook library. -/
theorem dlsym_lt {symbol : Symbol} {place : ℕ} (h : p.dlsym symbol = some place)
    (hne : place ≠ p.overrideAddress symbol) : place < p.ownPlace := by
  have hle := dlsym_le h
  unfold overrideAddress at hne
  split at hne
  · omega
  · rw [h] at hne
    exact absurd rfl hne

theorem PointsBefore.loaded (hook : HookState Ptr) : p.PointsBefore (loaded hook) := by
  intro symbol place h
  cases h

theorem PointsBefore.installGgmlHooks (h : p.PointsBefore s) :
    p.PointsBefore (p.installGgmlHooks s) := by
  unfold LinkedProcess.installGgmlHooks
  split
  · intro symbol place hplace
    dsimp only at hplace
    split at hplace
    · next found hfound =>
      split at hplace
      · next hne =>
        cases hplace
        exact dlsym_lt hfound hne
      · exact h symbol place hplace
    · exact h symbol place hplace
  · exact h

theorem PointsBefore.withHook (h : p.PointsBefore s) (hook : HookState Ptr) :
    p.PointsBefore { s with hook := hook } := h

theorem PointsBefore.ensureHooks (h : p.PointsBefore s) : p.PointsBefore (p.ensureHooks s) := by
  unfold LinkedProcess.ensureHooks
  split
  · exact h.installGgmlHooks
  · exact h

theorem ensureHooks_invoked (p : LinkedProcess) (s : Interposer) :
    (p.ensureHooks s).invoked = s.invoked := by
  unfold ensureHooks installGgmlHooks
  split
  · split <;> rfl
  · rfl

theorem PointsBefore.callOriginal (h : p.PointsBefore s) :
    p.PointsBefore (p.callOriginal c s).1 := by
  unfold LinkedProcess.callOriginal
  split
  · exact h
  · exact h

theorem PointsBefore.intercept (h : p.PointsBefore s) :
    p.PointsBefore (p.intercept c moments opens s).1 :=
  ((h.withHook _).ensureHooks.callOriginal).withHook _

theorem PointsBefore.run (h : p.PointsBefore s) (a : LinkAction) : p.PointsBefore (a.run p s) := by
  cases a with
  | intercepted c moments opens => exact h.intercept
  | installGgmlHooks => exact h.installGgmlHooks
  | uninstallGgmlHooks =>
    intro symbol place hplace
    cases hplace

theorem PointsBefore.runActions (h : p.PointsBefore s) (actions : List LinkAction) :
    p.PointsBefore (p.runActions actions s) := by
  induction actions generalizing s with
  | nil => exact h
  | cons a actions ih => exact ih (h.run a)

/-- A call through a pointer in front of the hook library misses the libraries behind it. -/
theorem PointsBefore.not_delegates (h : p.PointsBefore s) : ¬p.Delegates c moments opens s := by
  rintro ⟨place,⟨hbehind,-⟩,hinvoked,-⟩
  have hready (hook : HookState Ptr) : p.PointsBefore (p.ensureHooks { s with hook := hook }) :=
    (h.withHook hook).ensureHooks
  unfold LinkedProcess.intercept LinkedProcess.callOriginal at hinvoked
  dsimp only at hinvoked
  split at hinvoked
  · next found hfound =>
    rw [ensureHooks_invoked] at hinvoked
    have hplace := hready _ c.symbol found hfound
    have hsame : found = place := by simpa using hinvoked
    omega
  · rw [ensureHooks_invoked] at hinvoked
    simp at hinvoked

/-- Interposition is transparent only for a program that calls no function that a library
behind the hook library defines. -/
theorem transparent_iff (p : LinkedProcess) (hook : HookState Ptr) (actions : List LinkAction) :
    p.Transparent hook actions ↔
      ∀ c moments opens, .intercepted c moments opens ∈ actions →
        ¬∃ place, p.DefinedBehind place c.symbol := by
  constructor
  · intro h c moments opens hmem hdefined
    obtain ⟨pre,post,hactions⟩ := List.append_of_mem hmem
    exact ((PointsBefore.loaded hook).runActions pre).not_delegates
      (h pre c moments opens post hactions hdefined)
  · intro h pre c moments opens post hactions hdefined
    exact absurd hdefined (h c moments opens (by rw [hactions]; simp))

/-- The hook library is preloaded, and one library behind it defines all seven functions. -/
def preloaded : LinkedProcess where
  cfg := Config.defaultConfig
  outputSet := false
  before := []
  after := [fun _ => true]
  returns _ _ _ := .status .failed
  handle := true
  boundLocally := false

theorem not_transparent_preloaded :
    ¬preloaded.Transparent (HookState.initial (fun _ => none))
      [.intercepted (.ggmlBackendGraphCompute 0 { ptr := 64, nodes := [], fits := noTensor_fits })
        (fun _ => momentAt 7) true] := by
  intro h
  have hbehind : preloaded.DefinedBehind 1 .ggmlBackendGraphCompute :=
    ⟨by decide,fun _ => true,rfl,rfl⟩
  exact (PointsBefore.loaded _).not_delegates (h [] _ _ _ [] rfl ⟨1,hbehind⟩)

end LinkedProcess
end GgmlViz
