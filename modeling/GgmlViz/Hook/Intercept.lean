import GgmlViz.Hook.Session

/-! # Hook callbacks and intercepted calls

The callbacks build an event from the graph or the tensor and record it. The overrides of
the compute functions call them for the graph and for each of its nodes, before and
after the computation. A callback runs at a moment: a clock value, a thread and the
tensors as they are then, and a label is the address of the tensor that carries it.
-/
namespace GgmlViz
open LittleEndian

/-- `enum ggml_type`, as far as `ggml_nbytes_simple` tells the types apart. -/
inductive GgmlType
  | f32
  | f16
  | q4_0
  | q4_1
  | q5_0
  | q5_1
  | q8_0
  | q8_1
  | i8
  | i16
  | i32
  | other
  deriving DecidableEq, Repr

/-- `GGML_MAX_NAME`, the size of `ggml_tensor::name`. -/
def ggmlMaxName : ℕ := 64

/-- The fields of `ggml_tensor` that the hook reads. -/
structure Tensor where
  type : GgmlType
  ne : Fin 4 → UInt64
  op : UInt32
  /-- The C string in `name`. -/
  name : Bytes
  fits : name.length < ggmlMaxName

/-- The fields of `ggml_cgraph` that the hook reads; its node count is an `int`. -/
structure CGraph where
  ptr : Ptr
  nodes : List Ptr
  fits : nodes.length < 2 ^ 31

/-- When and where a callback runs. -/
structure Moment where
  now : UInt64
  threadId : UInt32
  heap : Ptr → Tensor

/-- What a label pointer shows at this moment. -/
def Moment.text (m : Moment) (p : Ptr) : Bytes := (m.heap p).name

/-- A moment at which every tensor is an unnamed scalar. -/
def momentAt (now : UInt64) : Moment where
  now := now
  threadId := 1
  heap := fun _ => { type := .f32, ne := fun _ => 1, op := 0, name := [], fits := by decide }

/-- `ggml_nbytes_simple`, for a tensor that is there. -/
def ggmlNbytesSimple (tensor : Tensor) : UInt64 :=
  let totalElements := tensor.ne 0 * tensor.ne 1 * tensor.ne 2 * tensor.ne 3
  let elementSize : UInt64 :=
    match tensor.type with
    | .f32 => 4
    | .f16 => 2
    | .q4_0 | .q4_1 | .q5_0 | .q5_1 | .q8_0 | .q8_1 => 1
    | .i8 => 1
    | .i16 => 2
    | .i32 => 4
    | .other => 4
  totalElements * elementSize

variable (cfg : Config)

/-- The event of `on_graph_compute_begin` and `on_graph_compute_end`. -/
def graphEvent (type : EventType) (m : Moment) (graph : Option CGraph) (backend : Ptr)
    (nThreads : ℤ) : Event Ptr where
  type := type
  timestampNs := m.now
  threadId := m.threadId
  data :=
    { graphPtr := (graph.map CGraph.ptr).getD 0
      nNodes := UInt32.ofNat ((graph.map (fun g => g.nodes.length)).getD 0)
      nThreads := UInt32.ofNat nThreads.toNat
      backendPtr := backend : GraphData }.toData
  label := none

/-- The event of `on_op_compute_begin` and `on_op_compute_end`. -/
def opEvent (type : EventType) (m : Moment) (tensor backend : Ptr) : Event Ptr where
  type := type
  timestampNs := m.now
  threadId := m.threadId
  data :=
    { tensorPtr := tensor
      opType := (m.heap tensor).op
      opSize := ggmlNbytesSimple (m.heap tensor)
      backendPtr := backend : OpData }.toData
  label := if cfg.instrumentation.recordTensorNames then some tensor else none

/-- The filter on operations: an empty list lets every operation pass. -/
def opPasses (op : UInt32) : Bool :=
  cfg.instrumentation.opTypesToTrace.isEmpty || cfg.instrumentation.opTypesToTrace.contains op

namespace HookState

def onGraphComputeBegin (m : Moment) (graph : Option CGraph) (backend : Ptr) (nThreads : ℤ)
    (s : HookState Ptr) : HookState Ptr :=
  if !s.active then s
  else if !cfg.instrumentation.enableOpTiming then s
  else s.recordEvent m.text cfg (graphEvent .graphComputeBegin m graph backend nThreads)

def onGraphComputeEnd (m : Moment) (graph : Option CGraph) (backend : Ptr) (nThreads : ℤ)
    (s : HookState Ptr) : HookState Ptr :=
  if !s.active then s
  else if !cfg.instrumentation.enableOpTiming then s
  else
    (s.recordEvent m.text cfg (graphEvent .graphComputeEnd m graph backend nThreads)).graphEndFlush
      m.text cfg

/-- The common body of the two operation callbacks. -/
def onOpCompute (type : EventType) (m : Moment) (tensor backend : Ptr) (s : HookState Ptr) :
    HookState Ptr :=
  if !s.active then s
  else if !cfg.instrumentation.enableOpTiming then s
  else if tensor = 0 then s
  else if !opPasses cfg (m.heap tensor).op then s
  else s.recordEvent m.text cfg (opEvent cfg type m tensor backend)

def onOpComputeBegin := onOpCompute cfg .opComputeBegin

def onOpComputeEnd := onOpCompute cfg .opComputeEnd

/-- How an override begins: `GGML_VIZ_OUTPUT` starts an inactive hook. -/
def autoStart (outputSet : Bool) (s : HookState Ptr) : HookState Ptr :=
  if !s.active && outputSet then s.start cfg true else s

/-- The loop over the nodes that calls a node's callback. -/
def forNodes (callback : Moment → Ptr → HookState Ptr → HookState Ptr) (moments : ℕ → Moment)
    (nodes : List Ptr) (s : HookState Ptr) : HookState Ptr :=
  nodes.zipIdx.foldl (fun s x => if x.1 ≠ 0 then callback (moments x.2) x.1 s else s) s

end HookState

/-- A call of an overridden compute function. The callbacks run at these moments: one for
the graph and one for each node before the computation, as many in reverse kind after. -/
structure ComputeCall where
  /-- `ggml_graph_compute_with_ctx` does not start the hook. -/
  autoStarts : Bool
  graph : CGraph
  backend : Ptr
  nThreads : ℤ
  moments : ℕ → Moment

namespace ComputeCall

def ggmlBackendGraphCompute (backend : Ptr) (cgraph : CGraph) (moments : ℕ → Moment) :
    ComputeCall :=
  { autoStarts := true, graph := cgraph, backend := backend, nThreads := 0, moments := moments }

def ggmlGraphCompute (cgraph : CGraph) (moments : ℕ → Moment) : ComputeCall :=
  { autoStarts := true, graph := cgraph, backend := 0, nThreads := 0, moments := moments }

def ggmlGraphComputeWithCtx (cgraph : CGraph) (nThreads : ℤ) (moments : ℕ → Moment) :
    ComputeCall :=
  { autoStarts := false, graph := cgraph, backend := 0, nThreads := nThreads, moments := moments }

def ggmlBackendMetalGraphCompute (backend : Ptr) (cgraph : CGraph) (moments : ℕ → Moment) :
    ComputeCall :=
  { autoStarts := true, graph := cgraph, backend := backend, nThreads := 0, moments := moments }

variable (c : ComputeCall)

def graphBeginMoment : Moment := c.moments 0
def nodeBeginMoment (i : ℕ) : Moment := c.moments (1 + i)
def nodeEndMoment (i : ℕ) : Moment := c.moments (1 + c.graph.nodes.length + i)
def graphEndMoment : Moment := c.moments (1 + 2 * c.graph.nodes.length)

open HookState

def beginHooks (s : HookState Ptr) : HookState Ptr :=
  forNodes (fun m p => onOpComputeBegin cfg m p c.backend) c.nodeBeginMoment c.graph.nodes
    (onGraphComputeBegin cfg c.graphBeginMoment c.graph c.backend c.nThreads s)

def endHooks (s : HookState Ptr) : HookState Ptr :=
  onGraphComputeEnd cfg c.graphEndMoment c.graph c.backend c.nThreads
    (forNodes (fun m p => onOpComputeEnd cfg m p c.backend) c.nodeEndMoment c.graph.nodes s)

/-- The override, as far as the hook is concerned. -/
def run (outputSet : Bool) (s : HookState Ptr) : HookState Ptr :=
  let s := if c.autoStarts then s.autoStart cfg outputSet else s
  let s := if s.active then c.beginHooks cfg s else s
  -- the original function runs here
  if s.active then c.endHooks cfg s else s

/-- The nodes that pass the filter at these moments, with their indices. -/
def tracedNodes (moments : ℕ → Moment) : List (Ptr × ℕ) :=
  c.graph.nodes.zipIdx.filter (fun x => x.1 ≠ 0 && opPasses cfg ((moments x.2).heap x.1).op)

/-- The events that one kind of node callback offers. -/
def nodeEvents (type : EventType) (moments : ℕ → Moment) : List (Event Ptr) :=
  (c.tracedNodes cfg moments).map (fun x => opEvent cfg type (moments x.2) x.1 c.backend)

/-- The events that a call offers to an active hook. -/
def events : List (Event Ptr) :=
  if cfg.instrumentation.enableOpTiming then
    graphEvent .graphComputeBegin c.graphBeginMoment c.graph c.backend c.nThreads ::
      (c.nodeEvents cfg .opComputeBegin c.nodeBeginMoment ++
        (c.nodeEvents cfg .opComputeEnd c.nodeEndMoment ++
          [graphEvent .graphComputeEnd c.graphEndMoment c.graph c.backend c.nThreads]))
  else []

end ComputeCall

/-- The calls of a thread, one after the other. -/
def runCalls (outputSet : Bool) (calls : List ComputeCall) (s : HookState Ptr) : HookState Ptr :=
  calls.foldl (fun s c => c.run cfg outputSet s) s

/-- The bytes are the record of the event, with the label as it was at some moment. -/
def IsRecord (r : Bytes) (e : Event Ptr) : Prop := ∃ m : Moment, r = e.encode m.text

section Offered
variable {cfg} {offered : List (Event Ptr)} {s : HookState Ptr}

theorem isRecord_encode (m : Moment) (e : Event Ptr) : IsRecord (e.encode m.text) e := ⟨m,rfl⟩

section Callbacks
variable (htiming : cfg.instrumentation.enableOpTiming = true) (m : Moment) (backend : Ptr)
include htiming

theorem onGraphComputeBegin_eq (graph : Option CGraph) (nThreads : ℤ) :
    s.onGraphComputeBegin cfg m graph backend nThreads =
      s.recordEvent m.text cfg (graphEvent .graphComputeBegin m graph backend nThreads) := by
  cases hs : s.active with
  | true => simp [HookState.onGraphComputeBegin,hs,htiming]
  | false => simp [HookState.onGraphComputeBegin,hs,HookState.recordEvent_inactive hs]

theorem onOpCompute_eq (type : EventType) (tensor : Ptr) :
    s.onOpCompute cfg type m tensor backend =
      if tensor ≠ 0 ∧ opPasses cfg (m.heap tensor).op then
        s.recordEvent m.text cfg (opEvent cfg type m tensor backend)
      else s := by
  cases hs : s.active with
  | true =>
    by_cases ht : tensor = 0 <;> cases hp : opPasses cfg (m.heap tensor).op <;>
      simp [HookState.onOpCompute,hs,htiming,ht,hp]
  | false => simp [HookState.onOpCompute,hs,HookState.recordEvent_inactive hs]

end Callbacks

theorem onOpCompute_disabled (htiming : cfg.instrumentation.enableOpTiming = false)
    (type : EventType) (m : Moment) (tensor backend : Ptr) :
    s.onOpCompute cfg type m tensor backend = s := by
  simp [HookState.onOpCompute,htiming]

namespace SessionState

theorem ignored (h : SessionState IsRecord cfg offered s) (hs : s.active = false)
    (more : List (Event Ptr)) : SessionState IsRecord cfg (offered ++ more) s := by
  rcases h with h | ⟨hover,h⟩
  · exact absurd (h.active.symm.trans hs) (by decide)
  · refine Or.inr ⟨by simp; omega,?_⟩
    rwa [List.take_append_of_le_length (Nat.le_of_lt hover)]

variable (hwrite : cfg.output.writeToFile = true)
include hwrite

theorem onGraphComputeEnd (h : SessionState IsRecord cfg offered s)
    (htiming : cfg.instrumentation.enableOpTiming = true) (m : Moment) (graph : Option CGraph)
    (backend : Ptr) (nThreads : ℤ) :
    SessionState IsRecord cfg (offered ++ [graphEvent .graphComputeEnd m graph backend nThreads])
      (s.onGraphComputeEnd cfg m graph backend nThreads) := by
  cases hs : s.active with
  | true =>
    have hrec := h.recordEvent (isRecord_encode m) hwrite
      (graphEvent .graphComputeEnd m graph backend nThreads)
    simpa [HookState.onGraphComputeEnd,hs,htiming] using
      hrec.graphEndFlush (isRecord_encode m) hwrite
  | false =>
    simpa [HookState.onGraphComputeEnd,hs] using h.ignored hs _

theorem forNodes (h : SessionState IsRecord cfg offered s)
    (htiming : cfg.instrumentation.enableOpTiming = true) (type : EventType) (c : ComputeCall)
    (moments : ℕ → Moment) :
    SessionState IsRecord cfg (offered ++ c.nodeEvents cfg type moments)
      (HookState.forNodes (fun m p => HookState.onOpCompute cfg type m p c.backend) moments
        c.graph.nodes s) := by
  rw [HookState.forNodes,ComputeCall.nodeEvents,ComputeCall.tracedNodes]
  generalize c.graph.nodes.zipIdx = xs
  induction xs generalizing offered s with
  | nil => simpa using h
  | cons x xs ih =>
    rw [List.foldl_cons,List.filter_cons]
    by_cases hx : x.1 ≠ 0 ∧ opPasses cfg ((moments x.2).heap x.1).op = true
    · have hrec := ih (h.recordEvent (isRecord_encode (moments x.2)) hwrite
        (opEvent cfg type (moments x.2) x.1 c.backend))
      rw [if_pos hx.1,onOpCompute_eq htiming,if_pos hx,if_pos (by simpa using hx)]
      simpa using hrec
    · have hskip : (if x.1 ≠ 0 then s.onOpCompute cfg type (moments x.2) x.1 c.backend else s) = s := by
        split
        · rw [onOpCompute_eq htiming,if_neg hx]
        · rfl
      rw [hskip,if_neg (by simpa using hx)]
      exact ih h

theorem beginHooks (h : SessionState IsRecord cfg offered s)
    (htiming : cfg.instrumentation.enableOpTiming = true) (c : ComputeCall) :
    SessionState IsRecord cfg (offered ++
      (graphEvent .graphComputeBegin c.graphBeginMoment c.graph c.backend c.nThreads ::
        c.nodeEvents cfg .opComputeBegin c.nodeBeginMoment)) (c.beginHooks cfg s) := by
  have hgraph := h.recordEvent (isRecord_encode c.graphBeginMoment) hwrite
    (graphEvent .graphComputeBegin c.graphBeginMoment c.graph c.backend c.nThreads)
  have hnodes := hgraph.forNodes hwrite htiming .opComputeBegin c c.nodeBeginMoment
  rw [ComputeCall.beginHooks,onGraphComputeBegin_eq htiming]
  simpa [HookState.onOpComputeBegin] using hnodes

theorem endHooks (h : SessionState IsRecord cfg offered s)
    (htiming : cfg.instrumentation.enableOpTiming = true) (c : ComputeCall) :
    SessionState IsRecord cfg (offered ++ (c.nodeEvents cfg .opComputeEnd c.nodeEndMoment ++
        [graphEvent .graphComputeEnd c.graphEndMoment c.graph c.backend c.nThreads]))
      (c.endHooks cfg s) := by
  have hnodes := h.forNodes hwrite htiming .opComputeEnd c c.nodeEndMoment
  have hgraph := hnodes.onGraphComputeEnd hwrite htiming c.graphEndMoment c.graph c.backend c.nThreads
  simpa [ComputeCall.endHooks,HookState.onOpComputeEnd] using hgraph

/-- A call offers its events to a hook that it does not have to start. -/
theorem call (h : SessionState IsRecord cfg offered s) (c : ComputeCall) (outputSet : Bool)
    (hstart : c.autoStarts = true → s.active = true) :
    SessionState IsRecord cfg (offered ++ c.events cfg) (c.run cfg outputSet s) := by
  have hauto : (if c.autoStarts then s.autoStart cfg outputSet else s) = s := by
    split
    · next ha => simp [HookState.autoStart,hstart ha]
    · rfl
  rw [ComputeCall.run,hauto]
  cases htiming : cfg.instrumentation.enableOpTiming with
  | true =>
    let t := if s.active then c.beginHooks cfg s else s
    have ht : SessionState IsRecord cfg (offered ++
        (graphEvent .graphComputeBegin c.graphBeginMoment c.graph c.backend c.nThreads ::
          c.nodeEvents cfg .opComputeBegin c.nodeBeginMoment)) t := by
      cases hs : s.active with
      | true => simpa [t,hs] using h.beginHooks hwrite htiming c
      | false => simpa [t,hs] using h.ignored hs _
    have hevents : offered ++ c.events cfg = (offered ++
        (graphEvent .graphComputeBegin c.graphBeginMoment c.graph c.backend c.nThreads ::
          c.nodeEvents cfg .opComputeBegin c.nodeBeginMoment)) ++
        (c.nodeEvents cfg .opComputeEnd c.nodeEndMoment ++
          [graphEvent .graphComputeEnd c.graphEndMoment c.graph c.backend c.nThreads]) := by
      simp [ComputeCall.events,htiming]
    rw [hevents]
    show SessionState IsRecord cfg _ (if t.active then c.endHooks cfg t else t)
    cases hs : t.active with
    | true => simpa [hs] using ht.endHooks hwrite htiming c
    | false => simpa [hs] using ht.ignored hs _
  | false =>
    -- with timing off every callback returns at once
    have hnodes (type : EventType) (moments : ℕ → Moment) (u : HookState Ptr) :
        HookState.forNodes (fun m p => HookState.onOpCompute cfg type m p c.backend) moments
          c.graph.nodes u = u := by
      apply List.foldl_fixed'
      intro x
      split
      · exact onOpCompute_disabled htiming _ _ _ _
      · rfl
    have hbegin (u : HookState Ptr) : c.beginHooks cfg u = u := by
      simp [ComputeCall.beginHooks,HookState.onOpComputeBegin,hnodes,HookState.onGraphComputeBegin,
        htiming]
    have hend (u : HookState Ptr) : c.endHooks cfg u = u := by
      simp [ComputeCall.endHooks,HookState.onOpComputeEnd,hnodes,HookState.onGraphComputeEnd,htiming]
    simpa [hbegin,hend,ComputeCall.events,htiming] using h

end SessionState

/-- The events that calls offer, one after the other. -/
def offeredBy (cfg : Config) (calls : List ComputeCall) : List (Event Ptr) :=
  calls.flatMap (ComputeCall.events cfg)

/-- As long as no call has to start the hook again, the hook is in the session that the
first start began. -/
theorem sessionState_runCalls (cfg : TracingConfig) (outputSet : Bool) (hs : s.active = false)
    (calls : List ComputeCall)
    (hstart : ∀ pre c post, calls = pre ++ c :: post → c.autoStarts = true →
      SessionState IsRecord cfg.toConfig (offeredBy cfg.toConfig pre)
        (runCalls cfg.toConfig outputSet pre (s.start cfg.toConfig true)) →
      (runCalls cfg.toConfig outputSet pre (s.start cfg.toConfig true)).active = true) :
    SessionState IsRecord cfg.toConfig (offeredBy cfg.toConfig calls)
      (runCalls cfg.toConfig outputSet calls (s.start cfg.toConfig true)) := by
  induction calls using List.reverseRecOn with
  | nil => exact Or.inl (recording_start cfg.enabled cfg.writes hs)
  | append_singleton calls c ih =>
    have hprev := ih (fun pre d post hcalls ha hstate =>
      hstart pre d (post ++ [c]) (by rw [hcalls]; simp) ha hstate)
    have hcall := hprev.call cfg.writes c outputSet (fun ha => hstart calls c [] rfl ha hprev)
    simpa [offeredBy,runCalls] using hcall

end Offered
end GgmlViz
