import GgmlViz.Hook.NestedCalls

/-! # The operation timings of nested calls

Every call brackets the calls within it with the begin and the end of each of its nodes. The
reader matches an end with the latest begin on the same tensor, so a node that an inner call
computes as well is timed by the inner call only.
-/
namespace GgmlViz
open LittleEndian Nesting

/-- What an event does to the pending operations. -/
def Event.mark {L : Type} (e : Event L) : Mark Ptr :=
  if e.type = .opComputeBegin then .opens e.data.op.tensorPtr
  else if e.type = .opComputeEnd then .closes e.data.op.tensorPtr
  else .plain

theorem opSpans_eq_spans {L : Type} (i : ℕ) (pending : Ptr → Option ℕ) (es : List (Event L)) :
    opSpans i pending es = (spans Event.mark i pending es).map Prod.snd := by
  induction es generalizing i pending with
  | nil => rfl
  | cons e es ih =>
    rw [opSpans,spans]
    by_cases hb : e.type = .opComputeBegin
    · have hmark : e.mark = .opens e.data.op.tensorPtr := if_pos hb
      simp only [hb,hmark,↓reduceIte,ih]
    · by_cases he : e.type = .opComputeEnd
      · have hmark : e.mark = .closes e.data.op.tensorPtr := (if_neg hb).trans (if_pos he)
        simp only [hmark,if_neg hb,if_pos he,ih]
        cases pending e.data.op.tensorPtr <;> rfl
      · have hmark : e.mark = .plain := (if_neg hb).trans (if_neg he)
        simp only [hmark,if_neg hb,if_neg he,ih]

/-- The callback is one for an operation. -/
def HookStep.isOp : HookStep → Bool
  | .onOpComputeBegin .. | .onOpComputeEnd .. => true
  | .onGraphComputeBegin .. | .onGraphComputeEnd .. | .onTensorAlloc .. => false

/-- An override runs callbacks for these nodes, in order, and none for other operations. -/
structure OpCallbacks (moments : ℕ → Moment) (nodes : List Ptr) (o : Override) : Prop where
  before : ∃ first backend m,
    o.before = first ++ HookStep.forEach (fun m p => .onOpComputeBegin m p backend) m nodes ∧
      (∀ step ∈ first, step.isOp = false) ∧ ∀ i, ∃ k, m i = moments k
  after : ∃ last backend m,
    o.after = HookStep.forEach (fun m p => .onOpComputeEnd m p backend) m nodes ++ last ∧
      (∀ step ∈ last, step.isOp = false) ∧ ∀ i, ∃ k, m i = moments k

namespace OpCallbacks
variable {moments : ℕ → Moment}

theorem of_no_node {o : Override} (hbefore : ∀ step ∈ o.before, step.isOp = false)
    (hafter : ∀ step ∈ o.after, step.isOp = false) : OpCallbacks moments [] o where
  before := ⟨o.before,0,moments,by simp [HookStep.forEach],hbefore,fun i => ⟨i,rfl⟩⟩
  after := ⟨o.after,0,moments,by simp [HookStep.forEach],hafter,fun i => ⟨i,rfl⟩⟩

theorem computeCall (c : ComputeCall) : OpCallbacks c.moments c.graph.nodes c.override where
  before := ⟨[_],_,_,rfl,by simp [HookStep.isOp],fun i => ⟨_,rfl⟩⟩
  after := ⟨[_],_,_,rfl,by simp [HookStep.isOp],fun i => ⟨_,rfl⟩⟩

theorem withNodes (backend : Ptr) (cg : Option CGraph) :
    OpCallbacks moments ((cg.map CGraph.nodes).getD []) (vizWithNodes backend cg moments) where
  before := ⟨[_],_,_,rfl,by simp [HookStep.isOp],fun i => ⟨_,rfl⟩⟩
  after := ⟨[_],_,_,rfl,by simp [HookStep.isOp],fun i => ⟨_,rfl⟩⟩

theorem withoutNodes (cg : Option CGraph) : OpCallbacks moments [] (vizWithoutNodes cg moments) :=
  of_no_node (by simp [vizWithoutNodes,HookStep.isOp]) (by simp [vizWithoutNodes,HookStep.isOp])

theorem allocations (m : ℕ → Moment) (tensors : List Ptr) :
    ∀ step ∈ HookStep.forEach .allocate m tensors, step.isOp = false := by
  intro step hstep
  obtain ⟨x,-,hx⟩ := List.mem_filterMap.mp hstep
  split at hx <;> cases hx
  rfl

theorem intercepted (call : InterceptedCall) :
    OpCallbacks moments call.nodes (call.override moments) := by
  cases call with
  | ggmlBackendGraphCompute backend cgraph =>
    exact computeCall (.ggmlBackendGraphCompute backend cgraph moments)
  | ggmlGraphCompute ctx cgraph => exact computeCall (.ggmlGraphCompute cgraph moments)
  | ggmlGraphComputeWithCtx ctx cgraph nThreads =>
    exact computeCall (.ggmlGraphComputeWithCtx cgraph nThreads moments)
  | ggmlBackendMetalGraphCompute backend cgraph =>
    exact computeCall (.ggmlBackendMetalGraphCompute backend cgraph moments)
  | ggmlTallocrAlloc talloc tensor =>
    refine of_no_node ?_ (by simp [InterceptedCall.override])
    by_cases ht : tensor = 0 <;>
      simp [InterceptedCall.override,ht,HookStep.allocate,HookStep.isOp]
  | ggmlGallocrAllocGraph galloc graph =>
    refine of_no_node ?_ (by simp [InterceptedCall.override])
    cases graph with
    | none => simp [InterceptedCall.override]
    | some graph =>
      intro step hstep
      rcases List.mem_append.mp hstep with hstep | hstep
      · exact allocations _ _ step hstep
      · exact allocations _ _ step hstep
  | ggmlBackendAllocCtxTensors ctx backend =>
    refine of_no_node ?_ (by simp [InterceptedCall.override])
    by_cases hc : ctx = 0 <;> simp [InterceptedCall.override,hc,HookStep.isOp]

theorem interposed (moments : ℕ → Moment) (call : InterposedCall) :
    OpCallbacks moments call.nodes (call.override moments) := by
  cases call with
  | linux call => exact intercepted call
  | vizSchedGraphCompute sched cg => exact withNodes sched cg
  | vizSchedGraphComputeAsync sched cg => exact withNodes sched cg
  | vizBackendGraphCompute backend cg => exact withNodes backend cg
  | vizBackendGraphComputeAsync backend cg => exact withNodes backend cg
  | vizGraphCompute cg cplan => exact withoutNodes cg
  | vizGraphComputeWithCtx ctx cg nThreads => exact withoutNodes cg

end OpCallbacks

section Marks
variable {cfg : Config} {c : ProgramCall}

theorem HookStep.eventsOf_append (steps more : List HookStep) :
    HookStep.eventsOf cfg (steps ++ more) =
      HookStep.eventsOf cfg steps ++ HookStep.eventsOf cfg more := List.filterMap_append

theorem mark_opBegin (m : Moment) (tensor backend : Ptr) :
    (opEvent cfg .opComputeBegin m tensor backend).mark = .opens tensor := by
  simp [Event.mark,opEvent]

theorem mark_opEnd (m : Moment) (tensor backend : Ptr) :
    (opEvent cfg .opComputeEnd m tensor backend).mark = .closes tensor := by
  have hne : EventType.opComputeEnd ≠ .opComputeBegin := by decide
  simp [Event.mark,opEvent,hne]

theorem mark_of_isOp {step : HookStep} (hstep : step.isOp = false) {e : Event Ptr}
    (he : step.event cfg = some e) : e.mark = .plain := by
  have hgraph {type : EventType} {m : Moment} {graph : Option CGraph} {backend : Ptr} {n : ℤ}
      (hb : type ≠ .opComputeBegin) (he : type ≠ .opComputeEnd) :
      (graphEvent type m graph backend n).mark = .plain := (if_neg hb).trans (if_neg he)
  cases step with
  | onGraphComputeBegin m graph backend nThreads | onGraphComputeEnd m graph backend nThreads =>
    obtain ⟨-,h⟩ := Option.ite_none_right_eq_some.mp he
    cases h
    exact hgraph (by decide) (by decide)
  | onOpComputeBegin m tensor backend | onOpComputeEnd m tensor backend => cases hstep
  | onTensorAlloc m tensor size =>
    obtain ⟨-,h⟩ := Option.ite_none_right_eq_some.mp he
    cases h
    rfl

theorem keys_plain {steps : List HookStep} (h : ∀ step ∈ steps, step.isOp = false) :
    keys Event.mark (HookStep.eventsOf cfg steps) = [] := by
  rw [keys,List.filterMap_eq_nil_iff]
  intro e he
  obtain ⟨step,hstep,he⟩ := List.mem_filterMap.mp he
  rw [mark_of_isOp (h step hstep) he]
  rfl

/-- The callbacks for the nodes of a call offer the tensors that it traces, in order. -/
theorem keys_nodes (cfg : Config) (h : c.Stable) (step : Moment → Ptr → HookStep) {m : ℕ → Moment}
    (hm : ∀ i, ∃ k, m i = c.moments k)
    (hkey : ∀ m p, ((step m p).event cfg).bind (fun e => e.mark.key) =
      if cfg.instrumentation.enableOpTiming ∧ p ≠ 0 ∧ opPasses cfg (m.heap p).op then some p
      else none) :
    keys Event.mark (HookStep.eventsOf cfg (HookStep.forEach step m c.call.nodes)) =
      c.traced cfg := by
  have hnodes : keys Event.mark (HookStep.eventsOf cfg (HookStep.forEach step m c.call.nodes)) =
      c.call.nodes.zipIdx.filterMap (fun x =>
        if cfg.instrumentation.enableOpTiming ∧ x.1 ≠ 0 ∧
          opPasses cfg ((c.moments 0).heap x.1).op then some x.1 else none) := by
    rw [keys,HookStep.eventsOf,HookStep.forEach,List.filterMap_filterMap,List.filterMap_filterMap]
    apply List.filterMap_congr
    intro x hx
    by_cases hp : x.1 = 0
    · simp [hp]
    · obtain ⟨k,hk⟩ := hm x.2
      have hop := h.opStable x.1 (List.fst_mem_of_mem_zipIdx hx) hp k
      have hstep := hkey (m x.2) x.1
      rw [hk,hop] at hstep
      rw [if_pos hp,Option.bind_some,hk]
      exact hstep
  have hfst : c.call.nodes.zipIdx.filterMap (fun x =>
      if cfg.instrumentation.enableOpTiming ∧ x.1 ≠ 0 ∧
        opPasses cfg ((c.moments 0).heap x.1).op then some x.1 else none) =
      c.call.nodes.filterMap (fun p =>
        if cfg.instrumentation.enableOpTiming ∧ p ≠ 0 ∧
          opPasses cfg ((c.moments 0).heap p).op then some p else none) := by
    conv_rhs => rw [← List.zipIdx_map_fst 0 c.call.nodes,List.filterMap_map]
    rfl
  rw [hnodes,hfst,ProgramCall.traced]
  cases cfg.instrumentation.enableOpTiming with
  | false => simp
  | true =>
    rw [if_pos rfl,← List.filterMap_eq_filter]
    apply List.filterMap_congr
    intro p _
    by_cases hp : p = 0 <;> cases hq : opPasses cfg ((c.moments 0).heap p).op <;>
      simp [hp,hq,Option.guard]

theorem nodup_traced (h : c.Stable) : (c.traced cfg).Nodup := by
  rw [ProgramCall.traced]
  split
  · refine List.Nodup.sublist ?_ h.distinct
    apply List.monotone_filter_right
    intro p hp
    exact (Bool.and_eq_true _ _ ▸ hp).1
  · exact List.nodup_nil

theorem keys_entered (cfg : Config) (h : c.Stable) :
    keys Event.mark (c.entered cfg) = c.traced cfg := by
  obtain ⟨first,backend,m,hbefore,hfirst,hm⟩ :=
    (OpCallbacks.interposed c.moments c.call).before
  have hnodes := keys_nodes cfg h (fun m p => .onOpComputeBegin m p backend) hm (by
    intro m p
    rw [HookStep.event]
    split
    · rw [Option.bind_some,mark_opBegin,Mark.key]
    · rfl)
  rw [ProgramCall.entered,ProgramCall.override,hbefore,HookStep.eventsOf_append,keys_append,
    keys_plain hfirst,hnodes,List.nil_append]

theorem keys_left (cfg : Config) (h : c.Stable) : keys Event.mark (c.left cfg) = c.traced cfg := by
  obtain ⟨last,backend,m,hafter,hlast,hm⟩ :=
    (OpCallbacks.interposed c.moments c.call).after
  have hnodes := keys_nodes cfg h (fun m p => .onOpComputeEnd m p backend) hm (by
    intro m p
    rw [HookStep.event]
    split
    · rw [Option.bind_some,mark_opEnd,Mark.key]
    · rfl)
  rw [ProgramCall.left,ProgramCall.override,hafter,HookStep.eventsOf_append,keys_append,
    keys_plain hlast,hnodes,List.append_nil]

/-- Every call brackets the calls within it with its nodes. -/
theorem brackets (h : c.Stable) : Brackets Event.mark (c.entered cfg) (c.left cfg) where
  opening := by
    obtain ⟨first,backend,m,hbefore,hfirst,-⟩ :=
      (OpCallbacks.interposed c.moments c.call).before
    intro e he k
    obtain ⟨step,hstep,he⟩ := List.mem_filterMap.mp he
    rw [ProgramCall.override,hbefore] at hstep
    rcases List.mem_append.mp hstep with hstep | hstep
    · rw [mark_of_isOp (hfirst step hstep) he]
      simp
    · obtain ⟨x,-,hx⟩ := List.mem_filterMap.mp hstep
      obtain ⟨-,hx⟩ := Option.ite_none_right_eq_some.mp hx
      cases hx
      obtain ⟨-,he⟩ := Option.ite_none_right_eq_some.mp he
      cases he
      rw [mark_opBegin]
      simp
  closing := by
    obtain ⟨last,backend,m,hafter,hlast,-⟩ :=
      (OpCallbacks.interposed c.moments c.call).after
    intro e he k
    obtain ⟨step,hstep,he⟩ := List.mem_filterMap.mp he
    rw [ProgramCall.override,hafter] at hstep
    rcases List.mem_append.mp hstep with hstep | hstep
    · obtain ⟨x,-,hx⟩ := List.mem_filterMap.mp hstep
      obtain ⟨-,hx⟩ := Option.ite_none_right_eq_some.mp hx
      cases hx
      obtain ⟨-,he⟩ := Option.ite_none_right_eq_some.mp he
      cases he
      rw [mark_opEnd]
      simp
    · rw [mark_of_isOp (hlast step hstep) he]
      simp
  same := (keys_left cfg h).trans (keys_entered cfg h).symm
  nodup := keys_entered cfg h ▸ nodup_traced h

theorem mem_keys_events {p : Program} (h : ∀ c ∈ p.toList, c.Stable) {t : Ptr} :
    t ∈ keys Event.mark (p.events cfg) ↔ ∃ c ∈ p.toList, t ∈ c.traced cfg := by
  simp only [keys,List.mem_filterMap,Program.events,Calls.mem_visits]
  constructor
  · rintro ⟨e,⟨c,hc,he⟩,hkey⟩
    rcases he with he | he
    · exact ⟨c,hc,keys_entered cfg (h c hc) ▸ List.mem_filterMap.mpr ⟨e,he,hkey⟩⟩
    · exact ⟨c,hc,keys_left cfg (h c hc) ▸ List.mem_filterMap.mpr ⟨e,he,hkey⟩⟩
  · rintro ⟨c,hc,ht⟩
    rw [← keys_entered cfg (h c hc)] at ht
    obtain ⟨e,he,hkey⟩ := List.mem_filterMap.mp ht
    exact ⟨e,⟨c,hc,.inl he⟩,hkey⟩

end Marks

namespace Program
variable (cfg : Config)

/-- The timings that a program should give: each with its call, its tensor and the places of
its two events. -/
def timings (p : Program) : List (ProgramCall × Ptr × ℕ × ℕ) :=
  p.spans Event.mark (fun c => c.entered cfg) (fun c => c.left cfg) 0

/-- Each call with each tensor that it traces and no call within it traces. -/
def timed : Program → List (ProgramCall × Ptr)
  | .done => []
  | .call c within next =>
    timed within ++ (((c.traced cfg).filter
      (fun t => ∀ d ∈ within.toList, t ∉ d.traced cfg)).map (fun t => (c,t)) ++ timed next)

theorem innermost_eq_timed {p : Program} (h : ∀ c ∈ p.toList, c.Stable) :
    p.innermost Event.mark (fun c => c.entered cfg) (fun c => c.left cfg) = timed cfg p := by
  induction p with
  | done => rfl
  | call c within next ihWithin ihNext =>
    have hin : ∀ d ∈ within.toList, d.Stable := fun d hd => h d (by simp [Calls.toList,hd])
    have hown : (keys Event.mark (c.left cfg)).filter (fun t => t ∉ keys Event.mark
        (within.visits (fun c => c.entered cfg) (fun c => c.left cfg))) =
        (c.traced cfg).filter (fun t => ∀ d ∈ within.toList, t ∉ d.traced cfg) := by
      rw [keys_left cfg (h c (by simp [Calls.toList]))]
      apply List.filter_congr
      intro t _
      have hkeys : t ∈ keys Event.mark
          (within.visits (fun c => c.entered cfg) (fun c => c.left cfg)) ↔
          ∃ d ∈ within.toList, t ∈ d.traced cfg := mem_keys_events hin
      simp [hkeys]
    rw [Calls.innermost,hown,ihWithin hin,ihNext (fun d hd => h d (by simp [Calls.toList,hd])),timed]

end Program

/-- From nested calls to operation timings: the trace file gives exactly one timing for every
call and every node that it traces and no call within it traces, between the two events that
this call recorded for it. Events are compared up to their labels. -/
theorem nested_timings [StdSort] (cfg : TracingConfig) (files : Bytes → Option Bytes) (p : Program)
    (hstable : ∀ c ∈ p.toList, c.Stable) (opens outputSet : Bool) (exit : Moment)
    (hlimit : (p.events cfg.toConfig).length ≤ cfg.instrumentation.maxEvents.toNat) :
    let stopped := (p.runHook cfg.toConfig opens outputSet
      ((HookState.initial files).start cfg.toConfig true)).stop exit.text
    ∃ r, TraceReader.openFile (stopped.files cfg.output.filename) = some r ∧ r.valid = true ∧
      r.events.map Event.bare = (p.events cfg.toConfig).map Event.bare ∧
      ((getOpTimings r.events).map OpTiming.span).Perm
        ((p.timings cfg.toConfig).map (fun x => x.2.2)) ∧
      (p.timings cfg.toConfig).map (fun x => (x.1,x.2.1)) = p.timed cfg.toConfig ∧
      ∀ x ∈ p.timings cfg.toConfig, x.1 ∈ p.toList ∧
        (∃ e ∈ x.1.entered cfg.toConfig, e.mark = .opens x.2.1 ∧
          (r.events[x.2.2.1]?).map Event.bare = some e.bare) ∧
        ∃ e ∈ x.1.left cfg.toConfig, e.mark = .closes x.2.1 ∧
          (r.events[x.2.2.2]?).map Event.bare = some e.bare := by
  intro stopped
  obtain ⟨r,hopen,hvalid,hbare⟩ := exists_trace cfg files p opens outputSet exit hlimit
  have hbrackets : ∀ c ∈ p.toList,
      Brackets Event.mark (c.entered cfg.toConfig) (c.left cfg.toConfig) :=
    fun c hc => brackets (hstable c hc)
  have hat (i : ℕ) :
      (r.events[i]?).map Event.bare = ((p.events cfg.toConfig)[i]?).map Event.bare := by
    rw [← List.getElem?_map,hbare,List.getElem?_map]
  refine ⟨r,hopen,hvalid,hbare,?_,?_,?_⟩
  · have hspans := spans_visits hbrackets 0 (fun _ => none) []
    rw [List.append_nil] at hspans
    have hperm := getOpTimings_span_perm r.events
    rw [← opSpans_bare,hbare,opSpans_bare,opSpans_eq_spans,Program.events,hspans] at hperm
    simp only [spans,List.append_nil,List.map_map] at hperm
    exact hperm
  · exact (spans_innermost hbrackets 0).trans (Program.innermost_eq_timed _ hstable)
  · rintro ⟨c,t,b,e⟩ hx
    obtain ⟨hc,⟨e0,he0,hb,hmark0⟩,e1,he1,he,hmark1⟩ :=
      getElem?_of_mem_spans hbrackets [] [] hx
    simp only [List.nil_append,List.append_nil] at hb he
    exact ⟨hc,⟨e0,he0,hmark0,(hat b).trans (congrArg _ hb)⟩,
      ⟨e1,he1,hmark1,(hat e).trans (congrArg _ he)⟩⟩

section Scheduler
attribute [local instance] mergeSorting

/-- A call of a scheduler, a backend or the CPU on these nodes, where nothing has a name. -/
def plainCall (call : InterposedCall) : ProgramCall where
  call := call
  moments := fun i => momentAt (UInt64.ofNat i)

/-- A scheduler computes a graph of three nodes; two of them are a split that it gives to a
backend, which hands it to the CPU. -/
def scheduled : Program :=
  let graph : CGraph := { ptr := 64, nodes := [16,0,32,48], fits := by decide }
  let split : CGraph := { ptr := 72, nodes := [16,32], fits := by decide }
  .call (plainCall (.vizSchedGraphCompute 8 graph))
    (.call (plainCall (.vizBackendGraphComputeAsync 9 split))
      (.call (plainCall (.vizGraphCompute split 0)) .done .done) .done) .done

theorem stable_scheduled : ∀ c ∈ scheduled.toList, c.Stable := by
  intro c hc
  simp only [scheduled,Calls.toList,List.nil_append,List.cons_append,List.mem_cons,
    List.not_mem_nil,or_false] at hc
  rcases hc with rfl | rfl | rfl <;> exact ⟨by decide,fun _ _ _ _ => rfl⟩

theorem nested_timings_scheduled :
    let stopped := (scheduled.runHook defaultTracing.toConfig true true
      ((HookState.initial (fun _ => none)).start defaultTracing.toConfig true)).stop
        (momentAt 9).text
    ∃ r, TraceReader.openFile (stopped.files defaultTracing.output.filename) = some r ∧
      r.valid = true ∧
      r.events.map Event.bare = (scheduled.events defaultTracing.toConfig).map Event.bare ∧
      ((getOpTimings r.events).map OpTiming.span).Perm
        ((scheduled.timings defaultTracing.toConfig).map (fun x => x.2.2)) ∧
      (scheduled.timings defaultTracing.toConfig).map (fun x => (x.1,x.2.1)) =
        scheduled.timed defaultTracing.toConfig ∧
      ∀ x ∈ scheduled.timings defaultTracing.toConfig, x.1 ∈ scheduled.toList ∧
        (∃ e ∈ x.1.entered defaultTracing.toConfig, e.mark = .opens x.2.1 ∧
          (r.events[x.2.2.1]?).map Event.bare = some e.bare) ∧
        ∃ e ∈ x.1.left defaultTracing.toConfig, e.mark = .closes x.2.1 ∧
          (r.events[x.2.2.2]?).map Event.bare = some e.bare :=
  nested_timings defaultTracing (fun _ => none) scheduled stable_scheduled true true (momentAt 9)
    (by decide)

/-- The split is timed by the backend, the node that is left over by the scheduler. -/
example : (scheduled.timings defaultTracing.toConfig).map (fun x => x.2) =
    [(16,(5,9)),(32,(6,10)),(48,(3,14))] := by decide +kernel

end Scheduler
end GgmlViz
