import GgmlViz.Hook.Labels
import GgmlViz.Hook.NestedMemory
import GgmlViz.Trace.HeapReport

/-! # The exported callbacks

A modified ggml calls the hook by its exported functions, and only these report frees. They may
be called anywhere, also within the originals of interposed functions. What such a program says
about its tensors is a heap, and the statistics of its trace are those of this heap.
-/
namespace GgmlViz
open LittleEndian Nesting

/-- A call of an exported function; all of them pass their arguments on to the hook. -/
inductive ExportedCall
  | ggmlVizHookGraphComputeBegin (m : Moment) (graph : Option CGraph) (backend : Ptr)
  | ggmlVizHookGraphComputeEnd (m : Moment) (graph : Option CGraph) (backend : Ptr)
  | ggmlVizHookOpComputeBegin (m : Moment) (tensor backend : Ptr)
  | ggmlVizHookOpComputeEnd (m : Moment) (tensor backend : Ptr)
  | ggmlVizHookTensorAlloc (m : Moment) (tensor : Ptr) (size : UInt64) (backend : Ptr)
  | ggmlVizHookTensorFree (m : Moment) (tensor backend : Ptr)

namespace ExportedCall
variable (cfg : Config)

/-- The thread count of a graph is unknown here. -/
def run : ExportedCall → HookState Ptr → HookState Ptr
  | .ggmlVizHookGraphComputeBegin m graph backend =>
    HookState.onGraphComputeBegin cfg m graph backend 0
  | .ggmlVizHookGraphComputeEnd m graph backend =>
    HookState.onGraphComputeEnd cfg m graph backend 0
  | .ggmlVizHookOpComputeBegin m tensor backend => HookState.onOpComputeBegin cfg m tensor backend
  | .ggmlVizHookOpComputeEnd m tensor backend => HookState.onOpComputeEnd cfg m tensor backend
  | .ggmlVizHookTensorAlloc m tensor size _ => HookState.onTensorAlloc cfg m tensor size
  | .ggmlVizHookTensorFree m tensor _ => HookState.onTensorFree cfg m tensor

/-- The event that a call offers to an active hook. -/
def event : ExportedCall → Option (Event Ptr)
  | .ggmlVizHookGraphComputeBegin m graph backend =>
    (HookStep.onGraphComputeBegin m graph backend 0).event cfg
  | .ggmlVizHookGraphComputeEnd m graph backend =>
    (HookStep.onGraphComputeEnd m graph backend 0).event cfg
  | .ggmlVizHookOpComputeBegin m tensor backend =>
    (HookStep.onOpComputeBegin m tensor backend).event cfg
  | .ggmlVizHookOpComputeEnd m tensor backend =>
    (HookStep.onOpComputeEnd m tensor backend).event cfg
  | .ggmlVizHookTensorAlloc m tensor size _ => (HookStep.onTensorAlloc m tensor size).event cfg
  | .ggmlVizHookTensorFree m tensor _ =>
    if cfg.instrumentation.enableMemoryTracking ∧ tensor ≠ 0 then
      some (tensorFreeEvent cfg m tensor)
    else none

/-- What a call does to the heap, as far as the hook is told. -/
def command : ExportedCall → Option (Ptr × MemoryOp)
  | .ggmlVizHookTensorAlloc _ tensor size _ =>
    if tensor ≠ 0 then some (tensor,.alloc size) else none
  | .ggmlVizHookTensorFree _ tensor _ => if tensor ≠ 0 then some (tensor,.free) else none
  | _ => none

end ExportedCall

/-- A call of an interposed function or of an exported one. -/
inductive HookedCall
  | interposed (c : ProgramCall)
  | exported (c : ExportedCall)

namespace HookedCall
variable (cfg : Config)

def before (opens outputSet : Bool) : HookedCall → HookState Ptr → HookState Ptr
  | .interposed c => c.before cfg opens outputSet
  | .exported c => c.run cfg

def after : HookedCall → HookState Ptr → HookState Ptr
  | .interposed c => c.after cfg
  | .exported _ => id

/-- What a call offers before and after the calls within it. -/
def entered : HookedCall → List (Event Ptr)
  | .interposed c => c.entered cfg
  | .exported c => (c.event cfg).toList

def left : HookedCall → List (Event Ptr)
  | .interposed c => c.left cfg
  | .exported _ => []

def commands : HookedCall → List (Ptr × MemoryOp)
  | .interposed c => c.allocated.map (fun x => (x.1,.alloc x.2))
  | .exported c => c.command.toList

end HookedCall

/-- The calls of one thread; an exported function makes none. -/
abbrev HookedProgram := Calls HookedCall

namespace HookedProgram
variable (cfg : Config) (p : HookedProgram)

def runHook (opens outputSet : Bool) (s : HookState Ptr) : HookState Ptr :=
  p.run (fun c => c.before cfg opens outputSet) (fun c => c.after cfg) s

def events : List (Event Ptr) := p.visits (fun c => c.entered cfg) (fun c => c.left cfg)

/-- What the program does to the heap. -/
def commands : List (Ptr × MemoryOp) := p.visits HookedCall.commands (fun _ => [])

end HookedProgram

section Offered
variable {cfg : Config} {offered : List (Event Ptr)} {s : HookState Ptr}

theorem memoryOp_exported (c : ExportedCall) :
    ((c.event cfg).bind Event.memoryOp).toList = tracked cfg c.command.toList := by
  have hquiet (step : HookStep) (h : ∀ m tensor size, step ≠ .onTensorAlloc m tensor size) :
      ((step.event cfg).bind Event.memoryOp).toList = tracked cfg [] := by
    have hnone : (step.event cfg).bind Event.memoryOp = none := memoryOp_compute h
    rw [hnone,tracked_nil]
    rfl
  cases c with
  | ggmlVizHookGraphComputeBegin m graph backend =>
    exact hquiet (.onGraphComputeBegin m graph backend 0) (by simp)
  | ggmlVizHookGraphComputeEnd m graph backend =>
    exact hquiet (.onGraphComputeEnd m graph backend 0) (by simp)
  | ggmlVizHookOpComputeBegin m tensor backend =>
    exact hquiet (.onOpComputeBegin m tensor backend) (by simp)
  | ggmlVizHookOpComputeEnd m tensor backend =>
    exact hquiet (.onOpComputeEnd m tensor backend) (by simp)
  | ggmlVizHookTensorAlloc m tensor size backend =>
    simp only [ExportedCall.event,ExportedCall.command,HookStep.event,tracked]
    by_cases hp : tensor = 0 <;> by_cases ht : cfg.instrumentation.enableMemoryTracking = true <;>
      simp [hp,ht,tensorAllocEvent,Event.memoryOp]
  | ggmlVizHookTensorFree m tensor backend =>
    simp only [ExportedCall.event,ExportedCall.command,tracked]
    have hne : EventType.tensorFree ≠ .tensorAlloc := by decide
    by_cases hp : tensor = 0 <;> by_cases ht : cfg.instrumentation.enableMemoryTracking = true <;>
      simp [hp,ht,tensorFreeEvent,Event.memoryOp,hne]

/-- The events of a program say what it does to the heap, if that is recorded. -/
theorem memoryOps_hooked (p : HookedProgram) :
    memoryOps (p.events cfg) = tracked cfg p.commands := by
  have hentered (c : HookedCall) :
      (c.entered cfg).filterMap Event.memoryOp = tracked cfg c.commands := by
    cases c with
    | interposed c =>
      rw [HookedCall.commands,← map_tracked]
      exact (memoryOps_eventsOf _).trans (reportsOnly c).before
    | exported c =>
      rw [HookedCall.entered,HookedCall.commands,← memoryOp_exported]
      cases c.event cfg with
      | none => rfl
      | some e => cases h : e.memoryOp <;> simp [h]
  have hleft (c : HookedCall) : (c.left cfg).filterMap Event.memoryOp = [] := by
    cases c with
    | interposed c =>
      exact (memoryOps_eventsOf _).trans (List.filterMap_eq_nil_iff.mpr (reportsOnly c).after)
    | exported c => rfl
  rw [memoryOps,HookedProgram.events,Calls.filterMap_visits,HookedProgram.commands,tracked_visits]
  simp only [hentered,hleft,tracked_nil]

theorem SessionState.exported (hwrite : cfg.output.writeToFile = true) (c : ExportedCall)
    (h : SessionState IsRecord cfg offered s) :
    SessionState IsRecord cfg (offered ++ (c.event cfg).toList) (c.run cfg s) := by
  have hstep (step : HookStep) :
      SessionState IsRecord cfg (offered ++ (step.event cfg).toList) (step.run cfg s) := by
    have hone := h.runAll hwrite [step]
    cases he : step.event cfg <;> simpa [HookStep.eventsOf,HookStep.runAll,he] using hone
  cases c with
  | ggmlVizHookGraphComputeBegin m graph backend =>
    exact hstep (.onGraphComputeBegin m graph backend 0)
  | ggmlVizHookGraphComputeEnd m graph backend =>
    exact hstep (.onGraphComputeEnd m graph backend 0)
  | ggmlVizHookOpComputeBegin m tensor backend => exact hstep (.onOpComputeBegin m tensor backend)
  | ggmlVizHookOpComputeEnd m tensor backend => exact hstep (.onOpComputeEnd m tensor backend)
  | ggmlVizHookTensorAlloc m tensor size backend => exact hstep (.onTensorAlloc m tensor size)
  | ggmlVizHookTensorFree m tensor backend =>
    rw [ExportedCall.event,ExportedCall.run,HookState.onTensorFree]
    cases hs : s.active with
    | false => exact h.ignored hs _
    | true =>
      cases ht : cfg.instrumentation.enableMemoryTracking with
      | false => simpa using h
      | true =>
        by_cases hp : tensor = 0
        · simpa [hp] using h
        · simpa [hp] using h.recordEvent (isRecord_encode m) hwrite (tensorFreeEvent cfg m tensor)

theorem sessionState_hooked (hwrite : cfg.output.writeToFile = true) (opens outputSet : Bool)
    (p : HookedProgram) (h : SessionState IsRecord cfg [] s)
    (hlimit : (p.events cfg).length ≤ cfg.instrumentation.maxEvents.toNat) :
    SessionState IsRecord cfg (p.events cfg) (p.runHook cfg opens outputSet s) := by
  rw [← List.nil_append (p.events cfg)]
  refine Calls.run_visits (p.events cfg) ?_ ?_ p (List.prefix_refl _) h
  · intro c past t hpast ht
    cases c with
    | interposed c =>
      have hactive := ht.active
        (Nat.le_trans ((List.prefix_append past _).trans hpast).length_le hlimit)
      exact ht.before hwrite opens outputSet c hactive
    | exported c => exact ht.exported hwrite c
  · intro c past t _ ht
    cases c with
    | interposed c => exact ht.after hwrite c
    | exported c => simpa [HookedCall.left,HookedCall.after] using ht

end Offered

/-- From the calls of a modified ggml to the memory statistics: where the memory is tracked, the
trace of a program reports the heap of what it allocates and frees; elsewhere an empty one. -/
theorem hooked_memory (cfg : TracingConfig) (files : Bytes → Option Bytes) (p : HookedProgram)
    (opens outputSet : Bool) (exit : Moment)
    (hlimit : (p.events cfg.toConfig).length ≤ cfg.instrumentation.maxEvents.toNat)
    (hfits : (p.commands.map (fun op => op.2.size)).sum < 2 ^ 64) :
    let stopped := (p.runHook cfg.toConfig opens outputSet
      ((HookState.initial files).start cfg.toConfig true)).stop exit.text
    ∃ r, TraceReader.openFile (stopped.files cfg.output.filename) = some r ∧ r.valid = true ∧
      ReportsHeap (tracked cfg.toConfig p.commands) r.events := by
  intro stopped
  have hstart : SessionState IsRecord cfg.toConfig []
      ((HookState.initial files).start cfg.toConfig true) :=
    .inl (recording_start cfg.enabled cfg.writes rfl)
  have hrun := sessionState_hooked cfg.writes opens outputSet p hstart hlimit
  obtain ⟨r,hopen,hvalid,hbare⟩ := hrun.exists_trace exit hlimit
  have hops : memoryOps r.events = tracked cfg.toConfig p.commands := by
    rw [← memoryOps_bare,hbare,memoryOps_bare,memoryOps_hooked]
  have hsum := Nat.lt_of_le_of_lt (sum_tracked_le cfg.toConfig _ p.commands) hfits
  refine ⟨r,hopen,hvalid,?_⟩
  rw [← hops] at hsum ⊢
  exact reportsHeap hsum

section Frees

/-- A graph of one tensor is allocated; what its allocation calls frees the tensor twice. -/
def freedTwice : HookedProgram :=
  let graph : AllocGraph :=
    { ptr := 64, nodes := [128], fits := oneTensor_fits, leafs := [], leafsFit := noTensor_fits }
  let allocation : ProgramCall :=
    { call := .linux (.ggmlGallocrAllocGraph 0 (some graph)), moments := fun _ => momentAt 7 }
  let free : HookedCall := .exported (.ggmlVizHookTensorFree (momentAt 8) 128 0)
  .call (.interposed allocation) (.call free .done (.call free .done .done))
    (.call (.exported (.ggmlVizHookTensorAlloc (momentAt 9) 128 16 0)) .done .done)

theorem hooked_memory_freedTwice :
    let stopped := (freedTwice.runHook memoryTracing.toConfig true true
      ((HookState.initial (fun _ => none)).start memoryTracing.toConfig true)).stop
        (momentAt 9).text
    ∃ r, TraceReader.openFile (stopped.files memoryTracing.output.filename) = some r ∧
      r.valid = true ∧ ReportsHeap (tracked memoryTracing.toConfig freedTwice.commands) r.events :=
  hooked_memory memoryTracing (fun _ => none) freedTwice true true (momentAt 9) (by decide)
    (by decide)

/-- The second free is warned about; sixteen bytes are live. -/
example : AllocatesFresh (tracked memoryTracing.toConfig freedTwice.commands) ∧
    ¬FreesLive (tracked memoryTracing.toConfig freedTwice.commands) ∧
    heapBytes (tracked memoryTracing.toConfig freedTwice.commands) = 16 := by
  unfold AllocatesFresh FreesLive Heap.GivesToEmpty Heap.ClearsFull
  decide

end Frees
end GgmlViz
