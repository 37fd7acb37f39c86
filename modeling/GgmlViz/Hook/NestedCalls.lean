import GgmlViz.Foundation.Nesting
import GgmlViz.Hook.EndToEnd
import GgmlViz.Hook.Platforms

/-! # Nested interception

The original of an interposed function may itself call interposed functions, as a scheduler
computes a graph split by split, and these run their callbacks between the callbacks of the
outer call. The trace file of a program of such calls lists what they offer, outer calls
around inner ones.
-/
namespace GgmlViz
open LittleEndian Nesting

/-- The body of the macOS replacements for the CPU, which see the graph as a whole only. -/
def vizWithoutNodes (cg : Option CGraph) (moments : ℕ → Moment) : Override where
  autoStarts := true
  before := [.onGraphComputeBegin (moments 0) cg 0 0]
  after := [.onGraphComputeEnd (moments 1) cg 0 0]

/-- A call of a function that is interposed on either platform. -/
inductive InterposedCall
  | linux (call : InterceptedCall)
  | vizSchedGraphCompute (sched : Ptr) (cg : Option CGraph)
  | vizSchedGraphComputeAsync (sched : Ptr) (cg : Option CGraph)
  | vizBackendGraphCompute (backend : Ptr) (cg : Option CGraph)
  | vizBackendGraphComputeAsync (backend : Ptr) (cg : Option CGraph)
  | vizGraphCompute (cg : Option CGraph) (cplan : Ptr)
  | vizGraphComputeWithCtx (ctx : Ptr) (cg : Option CGraph) (nThreads : ℤ)

/-- The nodes for which a call of an overridden function runs callbacks. -/
def InterceptedCall.nodes : InterceptedCall → List Ptr
  | .ggmlBackendGraphCompute _ cgraph | .ggmlGraphCompute _ cgraph
  | .ggmlGraphComputeWithCtx _ cgraph _ | .ggmlBackendMetalGraphCompute _ cgraph => cgraph.nodes
  | .ggmlTallocrAlloc .. | .ggmlGallocrAllocGraph .. | .ggmlBackendAllocCtxTensors .. => []

namespace InterposedCall

/-- The callbacks of the sched and backend functions are given their first argument as the
backend; the thread count goes to the original only. -/
def override (moments : ℕ → Moment) : InterposedCall → Override
  | .linux call => call.override moments
  | .vizSchedGraphCompute sched cg => vizWithNodes sched cg moments
  | .vizSchedGraphComputeAsync sched cg => vizWithNodes sched cg moments
  | .vizBackendGraphCompute backend cg => vizWithNodes backend cg moments
  | .vizBackendGraphComputeAsync backend cg => vizWithNodes backend cg moments
  | .vizGraphCompute cg _ => vizWithoutNodes cg moments
  | .vizGraphComputeWithCtx _ cg _ => vizWithoutNodes cg moments

def nodes : InterposedCall → List Ptr
  | .linux call => call.nodes
  | .vizSchedGraphCompute _ cg | .vizSchedGraphComputeAsync _ cg
  | .vizBackendGraphCompute _ cg | .vizBackendGraphComputeAsync _ cg =>
    (cg.map CGraph.nodes).getD []
  | .vizGraphCompute .. | .vizGraphComputeWithCtx .. => []

end InterposedCall

/-- A call with the moments at which its callbacks run. -/
structure ProgramCall where
  call : InterposedCall
  moments : ℕ → Moment

/-- The nodes of a call are distinct tensors that keep their operation while it runs. -/
structure ProgramCall.Stable (c : ProgramCall) : Prop where
  distinct : (c.call.nodes.filter (· ≠ 0)).Nodup
  opStable : ∀ p ∈ c.call.nodes, p ≠ 0 → ∀ k,
    ((c.moments k).heap p).op = ((c.moments 0).heap p).op

/-- The calls that one thread makes, nested as they are made. -/
abbrev Program := Calls ProgramCall

/-- The events that callbacks offer to an active hook. -/
def HookStep.eventsOf (cfg : Config) (steps : List HookStep) : List (Event Ptr) :=
  steps.filterMap (HookStep.event cfg)

namespace ProgramCall
variable (cfg : Config) (c : ProgramCall)

def override : Override := c.call.override c.moments

/-- What a call offers before and after its original function. -/
def entered : List (Event Ptr) := HookStep.eventsOf cfg c.override.before

def left : List (Event Ptr) := HookStep.eventsOf cfg c.override.after

/-- The tensors whose computation a call traces. -/
def traced : List Ptr :=
  if cfg.instrumentation.enableOpTiming then
    c.call.nodes.filter (fun p => p ≠ 0 && opPasses cfg ((c.moments 0).heap p).op)
  else []

/-- A call up to its original function. -/
def before (opens outputSet : Bool) (s : HookState Ptr) : HookState Ptr :=
  c.override.beforeOriginal cfg (if c.override.starts outputSet s then s.start cfg opens else s)

/-- The rest of the call, after its original function. -/
def after (s : HookState Ptr) : HookState Ptr := c.override.afterOriginal cfg s

end ProgramCall

namespace Program
variable (cfg : Config) (p : Program)

/-- What the program does to the hook. -/
def runHook (opens outputSet : Bool) (s : HookState Ptr) : HookState Ptr :=
  p.run (fun c => c.before cfg opens outputSet) (fun c => c.after cfg) s

/-- The events that the program offers. -/
def events : List (Event Ptr) := p.visits (fun c => c.entered cfg) (fun c => c.left cfg)

end Program

section Sessions
variable {cfg : Config} {offered : List (Event Ptr)} {s : HookState Ptr}

theorem SessionState.runAll (hwrite : cfg.output.writeToFile = true)
    (h : SessionState IsRecord cfg offered s) (steps : List HookStep) :
    SessionState IsRecord cfg (offered ++ HookStep.eventsOf cfg steps)
      (HookStep.runAll cfg steps s) := by
  induction steps generalizing offered s with
  | nil => simpa [HookStep.eventsOf,HookStep.runAll] using h
  | cons step steps ih =>
    rw [HookStep.eventsOf,HookStep.runAll,List.foldl_cons,List.filterMap_cons,HookStep.run_eq]
    cases step.event cfg with
    | none => exact ih h
    | some e =>
      have hrec := h.recordEvent (isRecord_encode step.moment) hwrite e
      have hstep : SessionState IsRecord cfg (offered ++ [e])
          (if step.isGraphEnd && s.active then
            (s.recordEvent step.moment.text cfg e).graphEndFlush step.moment.text cfg
          else s.recordEvent step.moment.text cfg e) := by
        split
        · exact hrec.graphEndFlush (isRecord_encode step.moment) hwrite
        · exact hrec
      simpa [HookStep.eventsOf,HookStep.runAll] using ih hstep

theorem SessionState.guarded (hwrite : cfg.output.writeToFile = true)
    (h : SessionState IsRecord cfg offered s) (steps : List HookStep) :
    SessionState IsRecord cfg (offered ++ HookStep.eventsOf cfg steps)
      (if s.active then HookStep.runAll cfg steps s else s) := by
  cases hs : s.active with
  | true => exact h.runAll hwrite steps
  | false => exact h.ignored hs _

theorem SessionState.active (h : SessionState IsRecord cfg offered s)
    (hlimit : offered.length ≤ cfg.instrumentation.maxEvents.toNat) : s.active = true := by
  rcases h with h | ⟨hover,-⟩
  · exact h.active
  · omega

theorem SessionState.before (hwrite : cfg.output.writeToFile = true) (opens outputSet : Bool)
    (c : ProgramCall) (h : SessionState IsRecord cfg offered s) (hactive : s.active = true) :
    SessionState IsRecord cfg (offered ++ c.entered cfg) (c.before cfg opens outputSet s) := by
  have hstarts : c.override.starts outputSet s = false := by simp [Override.starts,hactive]
  rw [ProgramCall.before,hstarts]
  exact h.guarded hwrite _

theorem SessionState.after (hwrite : cfg.output.writeToFile = true) (c : ProgramCall)
    (h : SessionState IsRecord cfg offered s) :
    SessionState IsRecord cfg (offered ++ c.left cfg) (c.after cfg s) := h.guarded hwrite _

/-- Within the limit, the file of a session that stops has the events offered to it. -/
theorem SessionState.exists_trace (h : SessionState IsRecord cfg offered s) (exit : Moment)
    (hlimit : offered.length ≤ cfg.instrumentation.maxEvents.toNat) :
    ∃ r, TraceReader.openFile ((s.stop exit.text).files cfg.output.filename) = some r ∧
      r.valid = true ∧ r.events.map Event.bare = offered.map Event.bare := by
  obtain ⟨rs,hfile,hrs⟩ := (h.stop (isRecord_encode exit)).file
  rw [List.take_of_length_le hlimit] at hrs
  obtain ⟨loaded,hforms,hbare,-⟩ := exists_loaded hrs
  have hopen := openFile_records hforms
  rw [← hfile] at hopen
  exact ⟨_,hopen,rfl,hbare⟩

/-- Within the limit a program stays in the session that it finds. -/
theorem sessionState_runHook (hwrite : cfg.output.writeToFile = true) (opens outputSet : Bool)
    (p : Program) (h : SessionState IsRecord cfg offered s)
    (hlimit : (offered ++ p.events cfg).length ≤ cfg.instrumentation.maxEvents.toNat) :
    SessionState IsRecord cfg (offered ++ p.events cfg) (p.runHook cfg opens outputSet s) := by
  have hactive {past : List (Event Ptr)} {x : List (Event Ptr)} {t : HookState Ptr}
      (hpast : past ++ x <+: offered ++ p.events cfg) (ht : SessionState IsRecord cfg past t) :
      t.active = true :=
    ht.active (Nat.le_trans ((List.prefix_append past x).trans hpast).length_le hlimit)
  refine Calls.run_visits (offered ++ p.events cfg) ?_ ?_ p (List.prefix_refl _) h
  · exact fun c past t hpast ht => ht.before hwrite opens outputSet c (hactive hpast ht)
  · exact fun c past t _ ht => ht.after hwrite c

end Sessions

/-- The trace file of a program has the events that its calls offer, in the order in which
they are entered and left. -/
theorem exists_trace (cfg : TracingConfig) (files : Bytes → Option Bytes) (p : Program)
    (opens outputSet : Bool) (exit : Moment)
    (hlimit : (p.events cfg.toConfig).length ≤ cfg.instrumentation.maxEvents.toNat) :
    ∃ r, TraceReader.openFile (((p.runHook cfg.toConfig opens outputSet
        ((HookState.initial files).start cfg.toConfig true)).stop exit.text).files
          cfg.output.filename) = some r ∧
      r.valid = true ∧ r.events.map Event.bare = (p.events cfg.toConfig).map Event.bare := by
  have hstart : SessionState IsRecord cfg.toConfig []
      ((HookState.initial files).start cfg.toConfig true) :=
    Or.inl (recording_start cfg.enabled cfg.writes rfl)
  have hrun := sessionState_runHook cfg.writes opens outputSet p hstart (by simpa using hlimit)
  rw [List.nil_append] at hrun
  exact hrun.exists_trace exit hlimit

end GgmlViz
