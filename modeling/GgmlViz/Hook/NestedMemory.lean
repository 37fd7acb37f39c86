import GgmlViz.Hook.NestedCalls
import GgmlViz.Trace.MemoryUsage
import GgmlViz.Trace.Queries

/-! # The memory statistics of a program

Only the allocating functions are intercepted, and what they allocate is reported tensor by
tensor. Nothing that frees is intercepted, so the statistics of a recorded trace only grow: a
tensor that is allocated again counts twice as used and once as leaked.
-/
namespace GgmlViz
open LittleEndian Nesting Keyed

/-- The tensors of an array that are there, with their sizes when the callbacks look at them. -/
def allocatedAt (moments : ℕ → Moment) (tensors : List Ptr) : List (Ptr × UInt64) :=
  tensors.zipIdx.filterMap (fun x =>
    if x.1 ≠ 0 then some (x.1,ggmlNbytesSimple ((moments x.2).heap x.1)) else none)

/-- The tensors that a call reports as allocated. -/
def InterceptedCall.allocated (moments : ℕ → Moment) : InterceptedCall → List (Ptr × UInt64)
  | .ggmlTallocrAlloc _ tensor => allocatedAt moments [tensor]
  | .ggmlGallocrAllocGraph _ graph =>
    match graph with
    | none => []
    | some graph =>
      allocatedAt moments graph.nodes ++
        allocatedAt (fun i => moments (graph.nodes.length + i)) graph.leafs
  | .ggmlBackendAllocCtxTensors .. => []
  | .ggmlBackendGraphCompute .. | .ggmlGraphCompute .. | .ggmlGraphComputeWithCtx ..
  | .ggmlBackendMetalGraphCompute .. => []

def InterposedCall.allocated (moments : ℕ → Moment) : InterposedCall → List (Ptr × UInt64)
  | .linux call => call.allocated moments
  | _ => []

def ProgramCall.allocated (c : ProgramCall) : List (Ptr × UInt64) := c.call.allocated c.moments

/-- What the calls of a program allocate, in the order in which they are entered. -/
def Program.allocated (p : Program) : List (Ptr × UInt64) :=
  p.visits ProgramCall.allocated (fun _ => [])

section Tracked
variable {α : Type} (cfg : Config)

/-- What is recorded of what is said about the memory: all of it, or nothing. -/
def tracked (xs : List α) : List α :=
  if cfg.instrumentation.enableMemoryTracking then xs else []

theorem tracked_append (xs ys : List α) : tracked cfg (xs ++ ys) = tracked cfg xs ++ tracked cfg ys := by
  unfold tracked
  split <;> rfl

theorem tracked_nil : tracked cfg ([] : List α) = [] := ite_self _

theorem map_tracked {β : Type} (f : α → β) (xs : List α) :
    (tracked cfg xs).map f = tracked cfg (xs.map f) := by
  unfold tracked
  split <;> rfl

/-- Nothing is recorded, or all calls are. -/
theorem tracked_visits {γ : Type} (enter leave : γ → List α) (c : Calls γ) :
    tracked cfg (c.visits enter leave) =
      c.visits (fun a => tracked cfg (enter a)) (fun a => tracked cfg (leave a)) := by
  induction c with
  | done => exact tracked_nil cfg
  | call a within next ihWithin ihNext =>
    simp only [Calls.visits,tracked_append,ihWithin,ihNext]

/-- There is no more in a part. -/
theorem sum_tracked_le (f : α → ℕ) (xs : List α) : ((tracked cfg xs).map f).sum ≤ (xs.map f).sum := by
  unfold tracked
  split
  · exact Nat.le_refl _
  · exact Nat.zero_le _

end Tracked

def sizes (allocated : List (Ptr × UInt64)) : List ℕ := allocated.map (fun x => x.2.toNat)

/-- The size of a tensor when it was allocated last. -/
def lastSize (allocated : List (Ptr × UInt64)) (tensor : Ptr) : ℕ :=
  ((onKey tensor allocated).getLast?.map UInt64.toNat).getD 0

/-- The statistics say exactly what was allocated, and nothing about frees. -/
structure ReportsAllocations (allocated : List (Ptr × UInt64)) (events : List (Event Bytes)) :
    Prop where
  allocEvents : (getAllocEvents events).map Event.allocation = allocated
  freeEvents : getFreeEvents events = []
  warnings : (updateMemoryStats events).warnings = []
  totalAllocations : (getMemoryStats events).totalAllocations.toNat = allocated.length
  totalFrees : (getMemoryStats events).totalFrees = 0
  bytesAllocated : (getMemoryStats events).bytesAllocated.toNat = (sizes allocated).sum
  bytesFreed : (getMemoryStats events).bytesFreed = 0
  currentUsage : (getMemoryStats events).currentUsage = (getMemoryStats events).bytesAllocated
  peakUsage : (getMemoryStats events).peakUsage = (getMemoryStats events).bytesAllocated
  /-- Each tensor leaks what it was given last. -/
  leakedBytes : (getMemoryStats events).leakedBytes.toNat =
    ∑ tensor ∈ (allocated.map Prod.fst).toFinset, lastSize allocated tensor

section Offered
variable {cfg : Config}

/-- What a callback says about the memory. -/
def HookStep.memoryOp (cfg : Config) (step : HookStep) : Option (Ptr × MemoryOp) :=
  (step.event cfg).bind Event.memoryOp

theorem memoryOp_allocate (m : Moment) (tensor : Ptr) :
    (HookStep.allocate m tensor).memoryOp cfg =
      if cfg.instrumentation.enableMemoryTracking ∧ tensor ≠ 0 then
        some (tensor,.alloc (ggmlNbytesSimple (m.heap tensor)))
      else none := by
  rw [HookStep.memoryOp,HookStep.allocate,HookStep.event]
  split
  · simp [tensorAllocEvent,Event.memoryOp]
  · rfl

/-- Only allocations say something about the memory. -/
theorem memoryOp_compute {step : HookStep}
    (h : ∀ m tensor size, step ≠ .onTensorAlloc m tensor size) : step.memoryOp cfg = none := by
  have hgraph {type : EventType} {m : Moment} {graph : Option CGraph} {backend : Ptr} {n : ℤ}
      (ha : type ≠ .tensorAlloc) (hf : type ≠ .tensorFree) :
      (graphEvent type m graph backend n).memoryOp = none := (if_neg ha).trans (if_neg hf)
  have hop {type : EventType} {m : Moment} {tensor backend : Ptr}
      (ha : type ≠ .tensorAlloc) (hf : type ≠ .tensorFree) :
      (opEvent cfg type m tensor backend).memoryOp = none := (if_neg ha).trans (if_neg hf)
  cases step with
  | onGraphComputeBegin m graph backend nThreads | onGraphComputeEnd m graph backend nThreads =>
    rw [HookStep.memoryOp,HookStep.event]
    split
    · exact hgraph (by decide) (by decide)
    · rfl
  | onOpComputeBegin m tensor backend | onOpComputeEnd m tensor backend =>
    rw [HookStep.memoryOp,HookStep.event]
    split
    · exact hop (by decide) (by decide)
    · rfl
  | onTensorAlloc m tensor size => exact absurd rfl (h m tensor size)

theorem memoryOps_eventsOf (steps : List HookStep) :
    memoryOps (HookStep.eventsOf cfg steps) = steps.filterMap (HookStep.memoryOp cfg) := by
  rw [memoryOps,HookStep.eventsOf,List.filterMap_filterMap]
  rfl

/-- What callbacks that look at tensors say, if each of them reports an allocation. -/
theorem memoryOps_allocate (moments : ℕ → Moment) (tensors : List Ptr) :
    (HookStep.forEach .allocate moments tensors).filterMap (HookStep.memoryOp cfg) =
      (tracked cfg (allocatedAt moments tensors)).map (fun x => (x.1,.alloc x.2)) := by
  rw [map_tracked,tracked,HookStep.forEach,List.filterMap_filterMap,allocatedAt,List.map_filterMap]
  cases ht : cfg.instrumentation.enableMemoryTracking with
  | true =>
    apply List.filterMap_congr
    intro x _
    by_cases hx : x.1 = 0 <;> simp [hx,memoryOp_allocate,ht]
  | false =>
    rw [if_neg (by simp),List.filterMap_eq_nil_iff]
    intro x _
    by_cases hx : x.1 = 0 <;> simp [hx,memoryOp_allocate,ht]

/-- Callbacks for nodes say nothing about the memory. -/
theorem memoryOp_forEach {step : Moment → Ptr → HookStep}
    (h : ∀ m p m' tensor size, step m p ≠ .onTensorAlloc m' tensor size) (moments : ℕ → Moment)
    (tensors : List Ptr) : ∀ x ∈ HookStep.forEach step moments tensors, x.memoryOp cfg = none := by
  intro x hx
  obtain ⟨y,-,hy⟩ := List.mem_filterMap.mp hx
  obtain ⟨-,hy⟩ := Option.ite_none_right_eq_some.mp hy
  cases hy
  exact memoryOp_compute (h _ _)

/-- An override reports these allocations before its original function, and none after it. -/
structure ReportsOnly (cfg : Config) (allocated : List (Ptr × UInt64)) (o : Override) : Prop where
  before : o.before.filterMap (HookStep.memoryOp cfg) = allocated.map (fun x => (x.1,.alloc x.2))
  after : ∀ step ∈ o.after, step.memoryOp cfg = none

namespace ReportsOnly

theorem nothing {o : Override} (hbefore : ∀ step ∈ o.before, step.memoryOp cfg = none)
    (hafter : ∀ step ∈ o.after, step.memoryOp cfg = none) : ReportsOnly cfg [] o where
  before := List.filterMap_eq_nil_iff.mpr hbefore
  after := hafter

/-- Callbacks for a graph and its nodes report nothing. -/
theorem ofGraph {o : Override} {m m' : Moment} {graph : Option CGraph} {backend : Ptr} {n : ℤ}
    {moments moments' : ℕ → Moment} {nodes : List Ptr}
    (hbefore : o.before = .onGraphComputeBegin m graph backend n ::
      HookStep.forEach (fun m p => .onOpComputeBegin m p backend) moments nodes)
    (hafter : o.after = HookStep.forEach (fun m p => .onOpComputeEnd m p backend) moments' nodes ++
      [.onGraphComputeEnd m' graph backend n]) : ReportsOnly cfg [] o := by
  apply nothing
  · intro step hstep
    rcases List.mem_cons.mp (hbefore ▸ hstep) with rfl | hstep
    · exact memoryOp_compute (by simp)
    · exact memoryOp_forEach (by simp) _ _ step hstep
  · intro step hstep
    rcases List.mem_append.mp (hafter ▸ hstep) with hstep | hstep
    · exact memoryOp_forEach (by simp) _ _ step hstep
    · rw [List.mem_singleton.mp hstep]
      exact memoryOp_compute (by simp)

theorem withoutNodes (cg : Option CGraph) (moments : ℕ → Moment) :
    ReportsOnly cfg [] (vizWithoutNodes cg moments) := by
  apply nothing <;> intro step hstep <;> rw [List.mem_singleton.mp hstep] <;>
    exact memoryOp_compute (by simp)

end ReportsOnly

variable (moments : ℕ → Moment)

theorem reportsOnly_intercepted (call : InterceptedCall) :
    ReportsOnly cfg (tracked cfg (call.allocated moments)) (call.override moments) := by
  cases call with
  | ggmlBackendGraphCompute backend cgraph | ggmlGraphCompute ctx cgraph
  | ggmlGraphComputeWithCtx ctx cgraph nThreads | ggmlBackendMetalGraphCompute backend cgraph =>
    simp only [InterceptedCall.allocated,tracked_nil]
    exact .ofGraph rfl rfl
  | ggmlTallocrAlloc talloc tensor =>
    refine ⟨?_,by simp [InterceptedCall.override]⟩
    have hone : (InterceptedCall.override moments (.ggmlTallocrAlloc talloc tensor)).before =
        HookStep.forEach .allocate moments [tensor] := by
      by_cases ht : tensor = 0 <;> simp [InterceptedCall.override,HookStep.forEach,ht]
    rw [hone,memoryOps_allocate,InterceptedCall.allocated]
  | ggmlGallocrAllocGraph galloc graph =>
    refine ⟨?_,by simp [InterceptedCall.override]⟩
    cases graph with
    | none => simp [InterceptedCall.override,InterceptedCall.allocated,tracked_nil]
    | some graph =>
      simp only [InterceptedCall.override,InterceptedCall.allocated,List.filterMap_append,
        memoryOps_allocate,tracked_append,List.map_append]
  | ggmlBackendAllocCtxTensors ctx backend =>
    refine ⟨?_,by simp [InterceptedCall.override]⟩
    by_cases hc : ctx = 0 <;>
      simp [InterceptedCall.override,InterceptedCall.allocated,tracked_nil,hc,HookStep.memoryOp,
        HookStep.event]

theorem reportsOnly (c : ProgramCall) : ReportsOnly cfg (tracked cfg c.allocated) c.override := by
  obtain ⟨call,moments⟩ := c
  cases call with
  | linux call => exact reportsOnly_intercepted moments call
  | vizSchedGraphCompute sched cg | vizSchedGraphComputeAsync sched cg
  | vizBackendGraphCompute backend cg | vizBackendGraphComputeAsync backend cg =>
    simp only [ProgramCall.allocated,InterposedCall.allocated,tracked_nil]
    exact .ofGraph rfl rfl
  | vizGraphCompute cg cplan | vizGraphComputeWithCtx ctx cg nThreads =>
    simp only [ProgramCall.allocated,InterposedCall.allocated,tracked_nil]
    exact .withoutNodes cg moments

/-- The events of a program say what its calls allocate, if that is recorded. -/
theorem memoryOps_events (p : Program) : memoryOps (p.events cfg) =
    (tracked cfg p.allocated).map (fun x => (x.1,.alloc x.2)) := by
  have hentered (c : ProgramCall) : (c.entered cfg).filterMap Event.memoryOp =
      (tracked cfg c.allocated).map (fun x => (x.1,.alloc x.2)) :=
    (memoryOps_eventsOf _).trans (reportsOnly c).before
  have hleft (c : ProgramCall) : (c.left cfg).filterMap Event.memoryOp = [] :=
    (memoryOps_eventsOf _).trans (List.filterMap_eq_nil_iff.mpr (reportsOnly c).after)
  rw [memoryOps,Program.events,Calls.filterMap_visits,Program.allocated,tracked_visits]
  simp only [hentered,hleft,tracked_nil]
  rw [← List.filterMap_eq_map,Calls.filterMap_visits]
  simp only [List.filterMap_eq_map,List.filterMap_nil]

end Offered
section Statistics
variable {allocated : List (Ptr × UInt64)} {events : List (Event Bytes)}

theorem freedBytes_alloc_only (sizes : List UInt64) :
    MemoryOp.freedBytes (sizes.map MemoryOp.alloc) = 0 := by
  rw [MemoryOp.freedBytes,neighbours_map,List.map_map,List.sum_eq_zero]
  intro n hn
  obtain ⟨x,-,rfl⟩ := List.mem_map.mp hn
  rfl

variable (h : memoryOps events = allocated.map (fun x => (x.1,.alloc x.2)))
include h

theorem opsOn_alloc_only (tensor : Ptr) :
    opsOn tensor events = (onKey tensor allocated).map MemoryOp.alloc := by
  rw [opsOn,h,onKey,onKey,List.filter_map,List.map_map,List.map_map]
  rfl

theorem getFreeEvents_alloc_only : getFreeEvents events = [] := by
  rw [getFreeEvents,List.filter_eq_nil_iff]
  intro e he hfree
  have hfree : e.type = .tensorFree := by simpa using hfree
  have hne : EventType.tensorFree ≠ .tensorAlloc := by decide
  have hop : (e.data.memory.ptr,MemoryOp.free) ∈ memoryOps events :=
    List.mem_filterMap.mpr ⟨e,he,by simp [Event.memoryOp,hfree,hne]⟩
  rw [h] at hop
  obtain ⟨x,-,hx⟩ := List.mem_map.mp hop
  exact absurd (congrArg Prod.snd hx) (by simp)

theorem getAllocEvents_alloc_only : (getAllocEvents events).map Event.allocation = allocated := by
  have hops :
      (getAllocEvents events).map (fun e => (e.allocation.1,MemoryOp.alloc e.allocation.2)) =
        memoryOps events := by
    have hnone := List.filter_eq_nil_iff.mp (getFreeEvents_alloc_only h)
    rw [getAllocEvents,memoryOps,← List.filterMap_eq_map,List.filterMap_filter]
    apply List.filterMap_congr
    intro e he
    have hfree : e.type ≠ .tensorFree := by simpa using hnone e he
    by_cases ha : e.type = .tensorAlloc <;> simp [Event.memoryOp,Event.allocation,ha,hfree]
  rw [h] at hops
  have hinj : Function.Injective (fun x : Ptr × UInt64 => (x.1,MemoryOp.alloc x.2)) := by
    rintro ⟨p,n⟩ ⟨q,m⟩ hpq
    cases hpq
    rfl
  apply List.map_injective_iff.mpr hinj
  rw [← hops,List.map_map]
  rfl

theorem reportsAllocations (hcount : allocated.length < 2 ^ 64)
    (hfits : (sizes allocated).sum < 2 ^ 64) : ReportsAllocations allocated events := by
  have hsizes : allocatedSizes events = (sizes allocated).sum := by
    rw [allocatedSizes,h,List.map_map]
    rfl
  have hfreed : freedSizes events = 0 := by
    apply Finset.sum_eq_zero
    intro tensor _
    rw [opsOn_alloc_only h,freedBytes_alloc_only]
  have hfree := getFreeEvents_alloc_only h
  have halloc := getAllocEvents_alloc_only h
  obtain ⟨hallocs,hfrees,hwarnings⟩ := after_counts events
  obtain ⟨hallocated,hfreedBytes,hcurrent⟩ := counters_eq (hsizes ▸ hfits)
  have hsum := allocatedSizes_eq events
  have hbytesFreed : (getMemoryStats events).bytesFreed = 0 :=
    UInt64.toNat_inj.mp (hfreedBytes.trans hfreed)
  have hcurrentUsage : (getMemoryStats events).currentUsage =
      (getMemoryStats events).bytesAllocated := by
    apply UInt64.toNat_inj.mp
    show (MemoryState.after events).currentUsage.toNat =
      (MemoryState.after events).stats.bytesAllocated.toNat
    omega
  have hlive : liveSizes events =
      ∑ tensor ∈ (allocated.map Prod.fst).toFinset, lastSize allocated tensor := by
    have hpointers : memoryPointers events = (allocated.map Prod.fst).toFinset := by
      rw [memoryPointers,h,List.map_map]
      rfl
    rw [liveSizes,hpointers]
    apply Finset.sum_congr rfl
    intro tensor _
    rw [opsOn_alloc_only h,MemoryOp.liveBytes,List.getLast?_map,Option.map_map]
    rfl
  exact
    { allocEvents := halloc
      freeEvents := hfree
      warnings := hwarnings hfree
      totalAllocations := by
        show (MemoryState.after events).stats.totalAllocations.toNat = allocated.length
        rw [hallocs,← halloc,List.length_map,UInt64.toNat_ofNat_of_lt']
        rwa [← halloc,List.length_map] at hcount
      totalFrees := by
        show (MemoryState.after events).stats.totalFrees = 0
        rw [hfrees,hfree]
        rfl
      bytesAllocated := hallocated.trans hsizes
      bytesFreed := hbytesFreed
      currentUsage := hcurrentUsage
      peakUsage := by
        have hpeak := isGreatest_peakUsage (hsizes ▸ hfits)
        obtain ⟨pre,hpre,hmax⟩ := hpeak.1
        have hlast := hpeak.2 ⟨events,List.prefix_refl _,rfl⟩
        have hmono := allocatedSizes_mono hpre
        have hbefore := (counters_eq (Nat.lt_of_le_of_lt hmono (hsizes ▸ hfits))).1
        rw [usage_eq (hsizes ▸ hfits)] at hlast
        rw [usage,hbefore] at hmax
        apply UInt64.toNat_inj.mp
        show (MemoryState.after events).stats.peakUsage.toNat =
          (MemoryState.after events).stats.bytesAllocated.toNat
        omega
      leakedBytes := by
        have hleaked : (getMemoryStats events).leakedBytes.toNat = liveSizes events % 2 ^ 64 :=
          leakedBytes_eq events
        rw [hleaked,← hlive]
        exact Nat.mod_eq_of_lt (by omega) }

end Statistics
theorem memoryOps_bare {L : Type} (events : List (Event L)) :
    memoryOps (events.map Event.bare) = memoryOps events := by
  rw [memoryOps,List.filterMap_map]
  rfl

/-- From allocating calls to memory statistics: where the memory is tracked, the trace of a
program reports every tensor that its calls allocate, nested or not, as many times as they do,
and it reports no free; elsewhere it reports nothing. -/
theorem nested_memory (cfg : TracingConfig) (files : Bytes → Option Bytes) (p : Program)
    (opens outputSet : Bool) (exit : Moment)
    (hlimit : (p.events cfg.toConfig).length ≤ cfg.instrumentation.maxEvents.toNat)
    (hfits : (sizes p.allocated).sum < 2 ^ 64) :
    let stopped := (p.runHook cfg.toConfig opens outputSet
      ((HookState.initial files).start cfg.toConfig true)).stop exit.text
    ∃ r, TraceReader.openFile (stopped.files cfg.output.filename) = some r ∧ r.valid = true ∧
      ReportsAllocations (tracked cfg.toConfig p.allocated) r.events := by
  intro stopped
  obtain ⟨r,hopen,hvalid,hbare⟩ := exists_trace cfg files p opens outputSet exit hlimit
  have hops : memoryOps r.events =
      (tracked cfg.toConfig p.allocated).map (fun x => (x.1,.alloc x.2)) := by
    rw [← memoryOps_bare,hbare,memoryOps_bare,memoryOps_events]
  have hcount : (tracked cfg.toConfig p.allocated).length < 2 ^ 64 := by
    have hle : (memoryOps r.events).length ≤ r.events.length := List.length_filterMap_le _ _
    have hevents : r.events.length = (p.events cfg.toConfig).length := by
      simpa using congrArg List.length hbare
    have hmax := cfg.instrumentation.maxEvents.toNat_lt
    rw [hops,List.length_map] at hle
    omega
  have hsum := Nat.lt_of_le_of_lt (sum_tracked_le cfg.toConfig _ p.allocated) hfits
  exact ⟨r,hopen,hvalid,reportsAllocations hops hcount hsum⟩

section Reallocation

/-- Both kinds of events are recorded. -/
def memoryTracing : TracingConfig where
  instrumentation := { enableMemoryTracking := true }
  enabled := rfl
  writes := defaultTracing.writes

/-- A graph of one tensor is allocated, a scheduler that computes it allocates it once more,
and a second tensor has no address. -/
def reallocated : Program :=
  let graph : AllocGraph :=
    { ptr := 64, nodes := [128], fits := oneTensor_fits, leafs := [], leafsFit := noTensor_fits }
  let at7 (call : InterposedCall) : ProgramCall := { call := call, moments := fun _ => momentAt 7 }
  .call (at7 (.linux (.ggmlGallocrAllocGraph 0 (some graph)))) .done
    (.call (at7 (.vizSchedGraphCompute 8 (some graph.toCGraph)))
      (.call (at7 (.linux (.ggmlGallocrAllocGraph 0 (some graph)))) .done
        (.call (at7 (.linux (.ggmlTallocrAlloc 0 0))) .done .done)) .done)

theorem nested_memory_reallocated :
    let stopped := (reallocated.runHook memoryTracing.toConfig true true
      ((HookState.initial (fun _ => none)).start memoryTracing.toConfig true)).stop
        (momentAt 9).text
    ∃ r, TraceReader.openFile (stopped.files memoryTracing.output.filename) = some r ∧
      r.valid = true ∧
        ReportsAllocations (tracked memoryTracing.toConfig reallocated.allocated) r.events :=
  nested_memory memoryTracing (fun _ => none) reallocated true true (momentAt 9) (by decide)
    (by decide)

/-- Eight bytes are in use and four are leaked. -/
example : (sizes (tracked memoryTracing.toConfig reallocated.allocated)).sum = 8 ∧
    lastSize (tracked memoryTracing.toConfig reallocated.allocated) 128 = 4 := by decide

end Reallocation
end GgmlViz
