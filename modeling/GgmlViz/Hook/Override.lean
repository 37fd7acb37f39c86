import GgmlViz.Hook.Intercept

/-! # Overrides as lists of callbacks

An override calls some callbacks, then the original function, then some more callbacks.
Which ones depends on its arguments only, so the overrides of the computation and of the
allocation are values of one type.
-/
namespace GgmlViz
open LittleEndian
variable (cfg : Config)

/-- The event of `on_tensor_alloc`. -/
def tensorAllocEvent (m : Moment) (tensor : Ptr) (size : UInt64) : Event Ptr where
  type := .tensorAlloc
  timestampNs := m.now
  threadId := m.threadId
  data := { ptr := tensor, size := size : MemoryData }.toData
  label := if cfg.instrumentation.recordTensorNames then some tensor else none

def HookState.onTensorAlloc (m : Moment) (tensor : Ptr) (size : UInt64) (s : HookState Ptr) :
    HookState Ptr :=
  if !s.active then s
  else if !cfg.instrumentation.enableMemoryTracking then s
  else if tensor = 0 then s
  else s.recordEvent m.text cfg (tensorAllocEvent cfg m tensor size)

/-- A callback of the hook with its arguments. -/
inductive HookStep
  | onGraphComputeBegin (m : Moment) (graph : Option CGraph) (backend : Ptr) (nThreads : ℤ)
  | onGraphComputeEnd (m : Moment) (graph : Option CGraph) (backend : Ptr) (nThreads : ℤ)
  | onOpComputeBegin (m : Moment) (tensor backend : Ptr)
  | onOpComputeEnd (m : Moment) (tensor backend : Ptr)
  | onTensorAlloc (m : Moment) (tensor : Ptr) (size : UInt64)

namespace HookStep

def run : HookStep → HookState Ptr → HookState Ptr
  | .onGraphComputeBegin m graph backend nThreads =>
    HookState.onGraphComputeBegin cfg m graph backend nThreads
  | .onGraphComputeEnd m graph backend nThreads =>
    HookState.onGraphComputeEnd cfg m graph backend nThreads
  | .onOpComputeBegin m tensor backend => HookState.onOpComputeBegin cfg m tensor backend
  | .onOpComputeEnd m tensor backend => HookState.onOpComputeEnd cfg m tensor backend
  | .onTensorAlloc m tensor size => HookState.onTensorAlloc cfg m tensor size

/-- One callback after the other. -/
def runAll (steps : List HookStep) (s : HookState Ptr) : HookState Ptr :=
  steps.foldl (fun s step => step.run cfg s) s

/-- A callback for each entry that is not null. -/
def forEach (step : Moment → Ptr → HookStep) (moments : ℕ → Moment) (tensors : List Ptr) :
    List HookStep :=
  tensors.zipIdx.filterMap (fun x => if x.1 ≠ 0 then some (step (moments x.2) x.1) else none)

/-- The allocation of a tensor that is there. -/
def allocate (m : Moment) (tensor : Ptr) : HookStep :=
  .onTensorAlloc m tensor (ggmlNbytesSimple (m.heap tensor))

end HookStep

/-- An override, as far as the hook is concerned. -/
structure Override where
  autoStarts : Bool
  before : List HookStep
  after : List HookStep

namespace Override
variable (o : Override)

/-- `GGML_VIZ_OUTPUT` starts an inactive hook. -/
def starts (outputSet : Bool) (s : HookState Ptr) : Bool :=
  o.autoStarts && (!s.active && outputSet)

def beforeOriginal (s : HookState Ptr) : HookState Ptr :=
  if s.active then HookStep.runAll cfg o.before s else s

def afterOriginal (s : HookState Ptr) : HookState Ptr :=
  if s.active then HookStep.runAll cfg o.after s else s

/-- A call of the override, with the outcome of `fopen` in case it starts the hook. -/
def run (opens outputSet : Bool) (s : HookState Ptr) : HookState Ptr :=
  let s := if o.starts outputSet s then s.start cfg opens else s
  let s := o.beforeOriginal cfg s
  -- the original function runs here
  o.afterOriginal cfg s

end Override

/-- The callbacks of an overridden compute function. -/
def ComputeCall.override (c : ComputeCall) : Override where
  autoStarts := c.autoStarts
  before :=
    .onGraphComputeBegin c.graphBeginMoment c.graph c.backend c.nThreads ::
      HookStep.forEach (fun m p => .onOpComputeBegin m p c.backend) c.nodeBeginMoment c.graph.nodes
  after :=
    HookStep.forEach (fun m p => .onOpComputeEnd m p c.backend) c.nodeEndMoment c.graph.nodes ++
      [.onGraphComputeEnd c.graphEndMoment c.graph c.backend c.nThreads]

section Loops
variable {cfg} {s : HookState Ptr}

theorem HookStep.runAll_append (steps more : List HookStep) (s : HookState Ptr) :
    HookStep.runAll cfg (steps ++ more) s =
      HookStep.runAll cfg more (HookStep.runAll cfg steps s) :=
  List.foldl_append

theorem HookStep.runAll_forEach (step : Moment → Ptr → HookStep) (moments : ℕ → Moment)
    (tensors : List Ptr) (s : HookState Ptr) :
    HookStep.runAll cfg (HookStep.forEach step moments tensors) s =
      HookState.forNodes (fun m p => (step m p).run cfg) moments tensors s := by
  rw [HookStep.runAll,HookStep.forEach,HookState.forNodes]
  generalize tensors.zipIdx = xs
  induction xs generalizing s with
  | nil => rfl
  | cons x xs ih =>
    rw [List.filterMap_cons,List.foldl_cons]
    by_cases hx : x.1 ≠ 0
    · rw [if_pos hx,if_pos hx,List.foldl_cons,ih]
    · rw [if_neg hx,if_neg hx,ih]

theorem ComputeCall.start_override (c : ComputeCall) (outputSet : Bool) (s : HookState Ptr) :
    (if c.override.starts outputSet s then s.start cfg true else s) =
      if c.autoStarts then s.autoStart cfg outputSet else s := by
  cases hc : c.autoStarts <;> simp [Override.starts,override,HookState.autoStart,hc]

/-- A compute function runs the callbacks of its override. -/
theorem ComputeCall.run_override (c : ComputeCall) (outputSet : Bool) (s : HookState Ptr) :
    c.override.run cfg true outputSet s = c.run cfg outputSet s := by
  have hbegin (t : HookState Ptr) :
      HookStep.runAll cfg c.override.before t = c.beginHooks cfg t :=
    HookStep.runAll_forEach (fun m p => .onOpComputeBegin m p c.backend) c.nodeBeginMoment
      c.graph.nodes _
  have hend (t : HookState Ptr) : HookStep.runAll cfg c.override.after t = c.endHooks cfg t := by
    rw [override,HookStep.runAll_append,HookStep.runAll_forEach]
    rfl
  rw [Override.run,ComputeCall.run,start_override]
  simp only [Override.beforeOriginal,Override.afterOriginal,hbegin,hend]

end Loops

/-- The graph of an allocation, with its leafs. -/
structure AllocGraph extends CGraph where
  leafs : List Ptr
  leafsFit : leafs.length < 2 ^ 31

/-- No tensors, and a single one, are not too many. -/
theorem noTensor_fits : ([] : List Ptr).length < 2 ^ 31 := by decide

theorem oneTensor_fits : [(128 : Ptr)].length < 2 ^ 31 := by decide

/-- A call of one of the seven overridden functions with its arguments. -/
inductive InterceptedCall
  | ggmlBackendGraphCompute (backend : Ptr) (cgraph : CGraph)
  | ggmlGraphCompute (ctx : Ptr) (cgraph : CGraph)
  | ggmlGraphComputeWithCtx (ctx : Ptr) (cgraph : CGraph) (nThreads : ℤ)
  | ggmlBackendMetalGraphCompute (backend : Ptr) (cgraph : CGraph)
  | ggmlTallocrAlloc (talloc tensor : Ptr)
  | ggmlGallocrAllocGraph (galloc : Ptr) (graph : Option AllocGraph)
  | ggmlBackendAllocCtxTensors (ctx backend : Ptr)

/-- What the override does, with the moments at which its callbacks run. -/
def InterceptedCall.override (moments : ℕ → Moment) : InterceptedCall → Override
  | .ggmlBackendGraphCompute backend cgraph =>
    (ComputeCall.ggmlBackendGraphCompute backend cgraph moments).override
  | .ggmlGraphCompute _ cgraph => (ComputeCall.ggmlGraphCompute cgraph moments).override
  | .ggmlGraphComputeWithCtx _ cgraph nThreads =>
    (ComputeCall.ggmlGraphComputeWithCtx cgraph nThreads moments).override
  | .ggmlBackendMetalGraphCompute backend cgraph =>
    (ComputeCall.ggmlBackendMetalGraphCompute backend cgraph moments).override
  | .ggmlTallocrAlloc _ tensor =>
    { autoStarts := true
      before := if tensor ≠ 0 then [.allocate (moments 0) tensor] else []
      after := [] }
  | .ggmlGallocrAllocGraph _ graph =>
    { autoStarts := true
      before :=
        match graph with
        | none => []
        | some graph =>
          HookStep.forEach .allocate moments graph.nodes ++
            HookStep.forEach .allocate (fun i => moments (graph.nodes.length + i)) graph.leafs
      after := [] }
  | .ggmlBackendAllocCtxTensors ctx _ =>
    { autoStarts := true
      -- one event for the whole context, which the null check of the callback refuses
      before := if ctx ≠ 0 then [.onTensorAlloc (moments 0) 0 0] else []
      after := [] }

end GgmlViz
