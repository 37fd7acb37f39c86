import GgmlViz.Hook.Intercept
import GgmlViz.Trace.OpTimings
import GgmlViz.Trace.RoundTrip

/-! # From intercepted graphs to operation timings

What the overrides record goes through the ring, the flushes and the file to the reader,
which pairs up the begin and the end of every node of every call.
-/
namespace GgmlViz
open LittleEndian

/-- A call whose nodes are distinct tensors that keep their operation while it runs. -/
structure StableCall extends ComputeCall where
  distinct : (graph.nodes.filter (· ≠ 0)).Nodup
  opStable : ∀ p ∈ graph.nodes, p ≠ 0 → ∀ k, ((moments k).heap p).op = ((moments 0).heap p).op

/-- A timing that a call should give for one of its nodes: the positions of the two events
in the sequence of all events. -/
structure ExpectedTiming where
  call : ComputeCall
  tensor : Ptr
  nodeIndex : ℕ
  beginAt : ℕ
  endAt : ℕ

def ExpectedTiming.span (x : ExpectedTiming) : ℕ × ℕ := (x.beginAt,x.endAt)

/-- One timing for each node of a call that passes the filter; `base` events came before. -/
def ComputeCall.expectedTimings (cfg : Config) (base : ℕ) (c : ComputeCall) : List ExpectedTiming :=
  let nodes := c.tracedNodes cfg c.nodeBeginMoment
  nodes.zipIdx.map (fun (x,j) =>
    { call := c, tensor := x.1, nodeIndex := x.2, beginAt := base + 1 + j,
      endAt := base + 1 + nodes.length + j })

def expectedTimings (cfg : Config) : ℕ → List ComputeCall → List ExpectedTiming
  | _, [] => []
  | base, c :: cs => c.expectedTimings cfg base ++ expectedTimings cfg (base + (c.events cfg).length) cs

variable {cfg : Config}

section Call
variable (c : StableCall) (htiming : cfg.instrumentation.enableOpTiming = true)

theorem StableCall.tracedNodes_eq :
    c.tracedNodes cfg c.nodeEndMoment = c.tracedNodes cfg c.nodeBeginMoment := by
  apply List.filter_congr
  intro x hx
  have hmem : x.1 ∈ c.graph.nodes := List.fst_mem_of_mem_zipIdx hx
  by_cases hnull : x.1 = 0
  · simp [hnull]
  · have hop : ((c.nodeEndMoment x.2).heap x.1).op = ((c.nodeBeginMoment x.2).heap x.1).op :=
      (c.opStable x.1 hmem hnull _).trans (c.opStable x.1 hmem hnull _).symm
    rw [hop]

theorem tensors_nodeEvents (c : ComputeCall) (type : EventType) (moments : ℕ → Moment) :
    tensors (c.nodeEvents cfg type moments) = (c.tracedNodes cfg moments).map Prod.fst := by
  simp [tensors,ComputeCall.nodeEvents,opEvent]

theorem StableCall.nodup_tracedNodes :
    ((c.tracedNodes cfg c.nodeBeginMoment).map Prod.fst).Nodup := by
  have hsub : (c.tracedNodes cfg c.nodeBeginMoment).Sublist
      (c.graph.nodes.zipIdx.filter (fun x => decide (x.1 ≠ 0))) := by
    apply List.monotone_filter_right
    intro x hx
    exact (Bool.and_eq_true _ _ ▸ hx).1
  have hfst : (c.graph.nodes.zipIdx.filter (fun x => decide (x.1 ≠ 0))).map Prod.fst =
      c.graph.nodes.filter (· ≠ 0) := by
    conv_rhs => rw [← List.zipIdx_map_fst 0 c.graph.nodes,List.filter_map]
    rfl
  exact (hfst ▸ c.distinct).sublist (hsub.map _)

include htiming in
theorem events_eq (c : ComputeCall) : c.events cfg =
    graphEvent .graphComputeBegin c.graphBeginMoment c.graph c.backend c.nThreads ::
      (c.nodeEvents cfg .opComputeBegin c.nodeBeginMoment ++
        (c.nodeEvents cfg .opComputeEnd c.nodeEndMoment ++
          [graphEvent .graphComputeEnd c.graphEndMoment c.graph c.backend c.nThreads])) := by
  simp [ComputeCall.events,htiming]

include htiming in
theorem StableCall.length_events : (c.events cfg).length =
    2 * (c.tracedNodes cfg c.nodeBeginMoment).length + 2 := by
  rw [events_eq htiming]
  simp only [ComputeCall.nodeEvents,c.tracedNodes_eq,List.length_cons,List.length_append,
    List.length_map,List.length_nil]
  omega

include htiming in
theorem StableCall.opSpans_events (base : ℕ) (rest : List (Event Ptr)) :
    opSpans base (fun _ => none) (c.events cfg ++ rest) =
      (c.expectedTimings cfg base).map ExpectedTiming.span ++
        opSpans (base + (c.events cfg).length) (fun _ => none) rest := by
  let nodes := c.tracedNodes cfg c.nodeBeginMoment
  have hbegin : ∀ e ∈ c.nodeEvents cfg .opComputeBegin c.nodeBeginMoment,
      e.type = .opComputeBegin := by
    intro e he
    obtain ⟨x,-,rfl⟩ := List.mem_map.mp he
    rfl
  have hend : ∀ e ∈ c.nodeEvents cfg .opComputeEnd c.nodeEndMoment, e.type = .opComputeEnd := by
    intro e he
    obtain ⟨x,-,rfl⟩ := List.mem_map.mp he
    rfl
  have hsame : tensors (c.nodeEvents cfg .opComputeBegin c.nodeBeginMoment) =
      tensors (c.nodeEvents cfg .opComputeEnd c.nodeEndMoment) := by
    rw [tensors_nodeEvents,tensors_nodeEvents,c.tracedNodes_eq]
  have hnd : (tensors (c.nodeEvents cfg .opComputeBegin c.nodeBeginMoment)).Nodup := by
    rw [tensors_nodeEvents]
    exact c.nodup_tracedNodes
  have hlen : (c.nodeEvents cfg .opComputeBegin c.nodeBeginMoment).length = nodes.length := by
    simp [ComputeCall.nodeEvents,nodes]
  have hspans : (c.expectedTimings cfg base).map ExpectedTiming.span =
      (List.range nodes.length).map (fun j => (base + 1 + j,base + 1 + nodes.length + j)) := by
    rw [ComputeCall.expectedTimings,List.map_map,List.range_eq_range',
      ← List.zipIdx_map_snd 0 nodes,List.map_map]
    rfl
  rw [c.length_events htiming,events_eq htiming]
  simp only [List.cons_append,List.append_assoc,List.nil_append]
  rw [opSpans_other (by simp [graphEvent,EventType.graphComputeBegin,EventType.opComputeBegin])
      (by simp [graphEvent,EventType.graphComputeBegin,EventType.opComputeEnd]),
    opSpans_segment hbegin hend hsame hnd,
    opSpans_other (by simp [graphEvent,EventType.graphComputeEnd,EventType.opComputeBegin])
      (by simp [graphEvent,EventType.graphComputeEnd,EventType.opComputeEnd]),hlen,hspans]
  have hnext : base + 1 + nodes.length + nodes.length + 1 = base + (2 * nodes.length + 2) := by omega
  rw [hnext]

include htiming in
/-- The events of an expected timing are those of its node, in its call. -/
theorem StableCall.getElem?_expected {pre rest : List (Event Ptr)} {x : ExpectedTiming}
    (hx : x ∈ c.expectedTimings cfg pre.length) :
    (pre ++ (c.events cfg ++ rest))[x.beginAt]? =
        some (opEvent cfg .opComputeBegin (x.call.nodeBeginMoment x.nodeIndex) x.tensor x.call.backend) ∧
      (pre ++ (c.events cfg ++ rest))[x.endAt]? =
        some (opEvent cfg .opComputeEnd (x.call.nodeEndMoment x.nodeIndex) x.tensor x.call.backend) := by
  obtain ⟨⟨⟨p,i⟩,j⟩,hmem,rfl⟩ := List.mem_map.mp hx
  have hget := List.mem_zipIdx_iff_getElem?.mp hmem
  dsimp only at hget
  obtain ⟨hj,-⟩ := List.getElem?_eq_some_iff.mp hget
  have hbegin : (c.nodeEvents cfg .opComputeBegin c.nodeBeginMoment)[j]? =
      some (opEvent cfg .opComputeBegin (c.nodeBeginMoment i) p c.backend) := by
    rw [ComputeCall.nodeEvents,List.getElem?_map,hget]
    rfl
  have hend : (c.nodeEvents cfg .opComputeEnd c.nodeEndMoment)[j]? =
      some (opEvent cfg .opComputeEnd (c.nodeEndMoment i) p c.backend) := by
    rw [ComputeCall.nodeEvents,c.tracedNodes_eq,List.getElem?_map,hget]
    rfl
  have hlen : (c.nodeEvents cfg .opComputeBegin c.nodeBeginMoment).length =
      (c.tracedNodes cfg c.nodeBeginMoment).length := by simp [ComputeCall.nodeEvents]
  have hlen' : (c.nodeEvents cfg .opComputeEnd c.nodeEndMoment).length =
      (c.tracedNodes cfg c.nodeBeginMoment).length := by
    simp [ComputeCall.nodeEvents,c.tracedNodes_eq]
  dsimp only
  rw [events_eq htiming]
  constructor
  · rw [List.getElem?_append_right (by omega),show pre.length + 1 + j - pre.length = j + 1 by omega,
      List.cons_append,List.getElem?_cons_succ,List.append_assoc,
      List.getElem?_append_left (by omega)]
    exact hbegin
  · let n := (c.tracedNodes cfg c.nodeBeginMoment).length
    rw [List.getElem?_append_right (by omega),
      show pre.length + 1 + n + j - pre.length = (n + j) + 1 by omega,List.cons_append,
      List.getElem?_cons_succ,List.append_assoc,List.getElem?_append_right (by omega),hlen,
      show n + j - n = j by omega,List.append_assoc,List.getElem?_append_left (by omega)]
    exact hend

end Call

section Calls
variable (htiming : cfg.instrumentation.enableOpTiming = true)
include htiming

theorem opSpans_offeredBy (base : ℕ) (calls : List StableCall) :
    opSpans base (fun _ => none) (offeredBy cfg (calls.map StableCall.toComputeCall)) =
      (expectedTimings cfg base (calls.map StableCall.toComputeCall)).map ExpectedTiming.span := by
  induction calls generalizing base with
  | nil => rfl
  | cons c cs ih =>
    have hc := c.opSpans_events htiming base (offeredBy cfg (cs.map StableCall.toComputeCall))
    rw [ih] at hc
    simpa [offeredBy,expectedTimings] using hc

theorem getElem?_offeredBy (pre : List (Event Ptr)) (calls : List StableCall) {x : ExpectedTiming}
    (hx : x ∈ expectedTimings cfg pre.length (calls.map StableCall.toComputeCall)) :
    (pre ++ offeredBy cfg (calls.map StableCall.toComputeCall))[x.beginAt]? =
        some (opEvent cfg .opComputeBegin (x.call.nodeBeginMoment x.nodeIndex) x.tensor x.call.backend) ∧
      (pre ++ offeredBy cfg (calls.map StableCall.toComputeCall))[x.endAt]? =
        some (opEvent cfg .opComputeEnd (x.call.nodeEndMoment x.nodeIndex) x.tensor x.call.backend) := by
  induction calls generalizing pre with
  | nil => cases hx
  | cons c cs ih =>
    simp only [List.map_cons,expectedTimings,List.mem_append] at hx
    simp only [offeredBy,List.map_cons,List.flatMap_cons]
    rcases hx with hx | hx
    · exact c.getElem?_expected htiming hx
    · have hlen : pre.length + (c.events cfg).length = (pre ++ c.events cfg).length := by simp
      rw [hlen] at hx
      rw [← List.append_assoc]
      exact ih _ hx

end Calls

/-- Records made under any names of the tensors read back as events that differ from the
recorded ones in their labels only, and the labels are short. -/
theorem exists_loaded {rs : List Bytes} {es : List (Event Ptr)} (h : List.Forall₂ IsRecord rs es) :
    ∃ loaded : List (Event Bytes), List.Forall₂ RecordForm rs loaded ∧
      loaded.map Event.bare = es.map Event.bare ∧
      ∀ e ∈ loaded, ∀ l, e.label = some l → l.length < ggmlMaxName := by
  induction h with
  | nil => exact ⟨[],.nil,rfl,by simp⟩
  | @cons r e rs es hr _ ih =>
    obtain ⟨loaded,hforms,hbare,hshort⟩ := ih
    obtain ⟨m,rfl⟩ := hr
    have hform := recordForm_encode (labelFits_resolve m.text e)
    rw [encode_resolve] at hform
    refine ⟨e.resolve m.text :: loaded,.cons hform hforms,?_,?_⟩
    · rw [List.map_cons,hbare]
      rfl
    · intro x hx l hl
      rcases List.mem_cons.mp hx with rfl | hx
      · obtain ⟨p,-,rfl⟩ := Option.map_eq_some_iff.mp hl
        have hname := (m.heap p).fits
        simp only [Moment.text,List.length_take]
        omega
      · exact hshort x hx l hl

/-- From intercepted graphs to operation timings: the file of a session gives exactly one
timing for every call and every node that passes the filter, and its two events are the
ones that the hook recorded for this node in this call. -/
theorem timings_of_calls [StdSort] (cfg : TracingConfig)
    (htiming : cfg.instrumentation.enableOpTiming = true) (files : Bytes → Option Bytes)
    (calls : List StableCall) (outputSet : Bool) (exit : Moment)
    (hlimit : (offeredBy cfg.toConfig (calls.map StableCall.toComputeCall)).length ≤
      cfg.instrumentation.maxEvents.toNat) :
    let started := (HookState.initial files).start cfg.toConfig true
    let stopped := (runCalls cfg.toConfig outputSet (calls.map StableCall.toComputeCall)
      started).stop exit.text
    let expected := expectedTimings cfg.toConfig 0 (calls.map StableCall.toComputeCall)
    ∃ r, TraceReader.openFile (stopped.files cfg.output.filename) = some r ∧ r.valid = true ∧
      (∀ b ∈ r.labelBuffers, ¬b.Overrun) ∧
      ((getOpTimings r.events).map OpTiming.span).Perm (expected.map ExpectedTiming.span) ∧
      ∀ x ∈ expected,
        (r.events[x.beginAt]?).map Event.bare = some (opEvent cfg.toConfig .opComputeBegin
          (x.call.nodeBeginMoment x.nodeIndex) x.tensor x.call.backend).bare ∧
        (r.events[x.endAt]?).map Event.bare = some (opEvent cfg.toConfig .opComputeEnd
          (x.call.nodeEndMoment x.nodeIndex) x.tensor x.call.backend).bare := by
  intro started stopped expected
  let offered := offeredBy cfg.toConfig (calls.map StableCall.toComputeCall)
  have hstate := sessionState_runCalls cfg outputSet (s := HookState.initial files) rfl
    (calls.map StableCall.toComputeCall) (by
      intro pre c post hcalls _ hpre
      rcases hpre with hrec | ⟨hover,-⟩
      · exact hrec.active
      · rw [hcalls,offeredBy,List.flatMap_append,List.length_append] at hlimit
        simp only [offeredBy] at hover
        omega)
  obtain ⟨rs,hfile,hrs⟩ := (hstate.stop (isRecord_encode exit)).file
  rw [List.take_of_length_le hlimit] at hrs
  obtain ⟨loaded,hforms,hbare,hshort⟩ := exists_loaded hrs
  refine ⟨_,by rw [hfile]; exact openFile_records hforms,rfl,?_,?_,?_⟩
  · intro b hb hover
    obtain ⟨e,he,hbe⟩ := List.mem_flatMap.mp hb
    have hlt : ∀ l, e.label = some l → l.length < 2 ^ 32 := fun l hl =>
      (hshort e he l hl).trans (by decide)
    have hlargest := (bufferOf_overrun_iff hlt (by simpa using hbe)).mp hover
    simp only [bufferOf,Option.mem_toList,Option.map_eq_some_iff] at hbe
    obtain ⟨l,hl,rfl⟩ := hbe
    rw [UInt32.toNat_ofNat_of_lt' (hlt l hl)] at hlargest
    have hname := hshort e he l hl
    simp only [ggmlMaxName] at hname
    omega
  · have hspans := getOpTimings_span_perm loaded
    rw [← opSpans_bare,hbare,opSpans_bare,opSpans_offeredBy htiming] at hspans
    exact hspans
  · intro x hx
    have hget := getElem?_offeredBy htiming [] calls hx
    have hbareAt (i : ℕ) : (loaded[i]?).map Event.bare = (offered[i]?).map Event.bare := by
      rw [← List.getElem?_map,hbare,List.getElem?_map]
    simp only [List.nil_append] at hget
    exact ⟨(hbareAt _).trans (by rw [hget.1]; rfl),(hbareAt _).trans (by rw [hget.2]; rfl)⟩

section TwoCalls
attribute [local instance] mergeSorting

/-- A graph of two tensors with a null node between them. -/
def twoNodeCall (now : UInt64) : StableCall where
  toComputeCall := .ggmlBackendGraphCompute 8 { ptr := 64, nodes := [16,0,32], fits := by decide }
    (fun _ => momentAt now)
  distinct := (by decide : ([16,32] : List Ptr).Nodup)
  opStable := fun _ _ _ _ => rfl

theorem timings_of_calls_two :
    let started := (HookState.initial (fun _ => none)).start defaultTracing.toConfig true
    let stopped := (runCalls defaultTracing.toConfig true
      ([twoNodeCall 1,twoNodeCall 2].map StableCall.toComputeCall) started).stop (momentAt 3).text
    let expected := expectedTimings defaultTracing.toConfig 0
      ([twoNodeCall 1,twoNodeCall 2].map StableCall.toComputeCall)
    ∃ r, TraceReader.openFile (stopped.files defaultTracing.output.filename) = some r ∧
      r.valid = true ∧ (∀ b ∈ r.labelBuffers, ¬b.Overrun) ∧
      ((getOpTimings r.events).map OpTiming.span).Perm (expected.map ExpectedTiming.span) ∧
      ∀ x ∈ expected,
        (r.events[x.beginAt]?).map Event.bare = some (opEvent defaultTracing.toConfig .opComputeBegin
          (x.call.nodeBeginMoment x.nodeIndex) x.tensor x.call.backend).bare ∧
        (r.events[x.endAt]?).map Event.bare = some (opEvent defaultTracing.toConfig .opComputeEnd
          (x.call.nodeEndMoment x.nodeIndex) x.tensor x.call.backend).bare :=
  timings_of_calls defaultTracing rfl _ [twoNodeCall 1,twoNodeCall 2] true (momentAt 3) (by decide)

/-- Two calls on two tensors give four timings. -/
example : (expectedTimings defaultTracing.toConfig 0
    ([twoNodeCall 1,twoNodeCall 2].map StableCall.toComputeCall)).map ExpectedTiming.span =
    [(1,3),(2,4),(7,9),(8,10)] := by decide

end TwoCalls
end GgmlViz
