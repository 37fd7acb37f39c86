import GgmlViz.Hook.Offers

/-! # The same calls on two platforms

On macOS other functions are interposed, and each of them instruments its calls anew. Two
platforms record the same events of a call where they offer the same events, or where the
hook has no room for the events that differ.
-/
namespace GgmlViz
open LittleEndian

/-- The body that the macOS replacements with node events share. A null graph has no nodes. -/
def vizWithNodes (backend : Ptr) (cg : Option CGraph) (moments : ℕ → Moment) : Override where
  autoStarts := true
  before :=
    .onGraphComputeBegin (moments 0) cg backend 0 ::
      HookStep.forEach (fun m p => .onOpComputeBegin m p backend) (fun i => moments (1 + i))
        ((cg.map CGraph.nodes).getD [])
  after :=
    HookStep.forEach (fun m p => .onOpComputeEnd m p backend)
        (fun i => moments (1 + ((cg.map CGraph.nodes).getD []).length + i))
        ((cg.map CGraph.nodes).getD []) ++
      [.onGraphComputeEnd (moments (1 + 2 * ((cg.map CGraph.nodes).getD []).length)) cg backend 0]

def vizBackendGraphCompute (backend : Ptr) (cg : CGraph) (moments : ℕ → Moment) : Override :=
  vizWithNodes backend (some cg) moments

/-- An override that looks at the graph as a whole only. -/
def graphOnly (cg : CGraph) (moments : ℕ → Moment) : Override where
  autoStarts := true
  before := [.onGraphComputeBegin (moments 0) cg 0 0]
  after := [.onGraphComputeEnd (moments (1 + 2 * cg.nodes.length)) cg 0 0]

def vizGraphCompute (cg : CGraph) (moments : ℕ → Moment) : Override := graphOnly cg moments

/-- `viz_graph_compute_with_ctx`; the thread count goes to the original function only. -/
def vizGraphComputeWithCtx (cg : CGraph) (_nThreads : Int32) (moments : ℕ → Moment) : Override :=
  graphOnly cg moments

/-- A call of a function that both platforms instrument. -/
inductive GraphCall
  | backendGraphCompute (backend : Ptr) (cgraph : CGraph)
  | graphCompute (cgraph : CGraph)
  | graphComputeWithCtx (cgraph : CGraph) (nThreads : Int32)

/-- The same call on two platforms, which differ in the clock. -/
structure PlatformCall where
  call : GraphCall
  moments : ℕ → Moment
  clock : ℕ → UInt64
  /-- The outcome of `fopen` in case the call starts the hook. -/
  opens : Bool

namespace PlatformCall
variable (c : PlatformCall)

def linuxCall : ComputeCall :=
  match c.call with
  | .backendGraphCompute backend cgraph => .ggmlBackendGraphCompute backend cgraph c.moments
  | .graphCompute cgraph => .ggmlGraphCompute cgraph c.moments
  | .graphComputeWithCtx cgraph nThreads =>
    .ggmlGraphComputeWithCtx cgraph nThreads.toInt c.moments

def linux : Override := c.linuxCall.override

def macMoments (i : ℕ) : Moment := { c.moments i with now := c.clock i }

def mac : Override :=
  match c.call with
  | .backendGraphCompute backend cgraph => vizBackendGraphCompute backend cgraph c.macMoments
  | .graphCompute cgraph => vizGraphCompute cgraph c.macMoments
  | .graphComputeWithCtx cgraph nThreads => vizGraphComputeWithCtx cgraph nThreads c.macMoments

end PlatformCall

/-- The event without its time and its backend. -/
def Event.portable (e : Event Ptr) : Event Ptr :=
  { e with
    timestampNs := 0
    data :=
      if e.type = .graphComputeBegin ∨ e.type = .graphComputeEnd then
        { e.data.graph with backendPtr := 0 : GraphData }.toData
      else if e.type = .opComputeBegin ∨ e.type = .opComputeEnd then
        { e.data.op with backendPtr := 0 : OpData }.toData
      else e.data }

section Runs
variable (cfg : Config) (outputSet : Bool)

/-- What each call of a sequence records. -/
def recordedByCalls (platform : PlatformCall → Override) :
    List PlatformCall → HookState Ptr → List (List (Event Ptr))
  | [], _ => []
  | c :: cs, s =>
    (platform c).recorded cfg c.opens outputSet s ::
      recordedByCalls platform cs ((platform c).run cfg c.opens outputSet s)

/-- Each call records the same on both platforms, up to times and backends. -/
def RecordAlike (calls : List PlatformCall) (s : HookState Ptr) : Prop :=
  (recordedByCalls cfg outputSet PlatformCall.mac calls s).map (List.map Event.portable) =
    (recordedByCalls cfg outputSet PlatformCall.linux calls s).map (List.map Event.portable)

namespace PlatformCall
variable (c : PlatformCall)

/-- No node of the graph passes the filter, before or after the computation. -/
def TracesNoNode : Prop :=
  c.linuxCall.tracedNodes cfg c.linuxCall.nodeBeginMoment = [] ∧
    c.linuxCall.tracedNodes cfg c.linuxCall.nodeEndMoment = []

/-- The node events that only one platform offers do not come into the trace. -/
def NodesUnseen (p : Option Progress) : Prop :=
  c.TracesNoNode cfg ∨ Progress.takesMore cfg 2 p = false

/-- The difference between the platforms does not show in this call. -/
def DifferenceUnseen (p : Option Progress) : Prop :=
  cfg.instrumentation.enableOpTiming = false ∨
  match c.call with
  | .backendGraphCompute .. => True
  | .graphCompute _ => c.NodesUnseen cfg (c.linux.entered cfg c.opens outputSet p)
  | .graphComputeWithCtx _ nThreads =>
    match p with
    | none => outputSet = true → Progress.takesMore cfg 1 (Progress.started cfg c.opens) = false
    | some p =>
      Progress.takesMore cfg 1 (some p) = false ∨ (nThreads ≤ 0 ∧ c.NodesUnseen cfg (some p))

end PlatformCall

/-- No call of a sequence shows the difference, in the state that it finds on Linux. -/
def NeverSeen : List PlatformCall → HookState Ptr → Prop
  | [], _ => True
  | c :: cs, s =>
    c.DifferenceUnseen cfg outputSet (s.progress cfg) ∧
      NeverSeen cs (c.linux.run cfg c.opens outputSet s)

end Runs

namespace Progress
variable {cfg : Config} {α β : Type} {p : Option Progress}

/-- The offers of a call: a first event, events for nodes, and the end of the graph. -/
def bracket (first : α) (nodes : List α) (last : α) : List (α × Bool) :=
  (first,false) :: (nodes.map (fun e => (e,false)) ++ [(last,true)])

/-- A hook without room keeps its counters until the end of the graph, or stops. -/
theorem offer_exhausted (h : p.any (takes cfg) = false) :
    offer cfg false p = p ∨ (offer cfg false p = none ∧ offer cfg true p = none) := by
  cases p with
  | none => exact .inl rfl
  | some p =>
    by_cases hmax : cfg.instrumentation.maxEvents.toNat ≤ p.eventCount
    · exact .inr (by simp [offer,record,recordGraphEnd,hmax])
    · have hfull : slot (increment p.writePos) = slot p.readPos := by
        simpa [takes,Nat.not_le.mp hmax] using h
      exact .inl (by simp [offer,record,hmax,hfull])

theorem after_exhausted (h : p.any (takes cfg) = false) (nodes : List α) (last : α) :
    kept cfg p (nodes.map (fun e => (e,false)) ++ [(last,true)]) = [] ∧
      after cfg p (nodes.map (fun e => (e,false)) ++ [(last,true)]) = offer cfg true p := by
  induction nodes with
  | nil => simp [kept,after,h]
  | cons e nodes ih =>
    simp only [List.map_cons,List.cons_append,kept,after,h]
    rcases offer_exhausted h with hsame | ⟨hnone,hend⟩
    · rw [hsame]
      exact ih
    · rw [hnone,hend]
      exact ⟨kept_none _,after_none _⟩

theorem takesMore_one : takesMore cfg 1 p = p.any (takes cfg) := by
  cases p <;> simp [takesMore]

theorem takesMore_two :
    takesMore cfg 2 p = (p.any (takes cfg) && (offer cfg false p).any (takes cfg)) := by
  cases p with
  | none => rfl
  | some p =>
    show (p.takes cfg && takesMore cfg 1 (p.record cfg)) = _
    rw [takesMore_one]
    rfl

/-- Without its node events a call looks the same where there are none or no room. -/
theorem alike_bracket_iff (f : α → β) {first first' last last' : α} {nodes : List α}
    (hnodes : ∀ e ∈ nodes, f last' ≠ f e) (hlast : f first' = f first → f last' = f last) :
    (kept cfg p (bracket first' [] last')).map f = (kept cfg p (bracket first nodes last)).map f ↔
      takesMore cfg 1 p = false ∨
        (f first' = f first ∧ (nodes = [] ∨ takesMore cfg 2 p = false)) := by
  rw [takesMore_one,takesMore_two]
  simp only [bracket,kept,List.map_nil,List.nil_append]
  cases hp : p.any (takes cfg) with
  | false =>
    rcases offer_exhausted hp with hsame | ⟨hnone,-⟩
    · simp [hsame,hp,(after_exhausted hp nodes last).1]
    · simp [hnone,kept_none]
  | true =>
    cases hq : (offer cfg false p).any (takes cfg) with
    | false => simp [(after_exhausted hq nodes last).1]
    | true =>
      cases nodes with
      | nil => simpa [kept,hq] using hlast
      | cons e nodes => simp [kept,hq,hnodes e List.mem_cons_self]

theorem after_bracket {first first' last last' : α} {nodes : List α}
    (h : takesMore cfg 1 p = false ∨ nodes = [] ∨ takesMore cfg 2 p = false) :
    after cfg p (bracket first' [] last') = after cfg p (bracket first nodes last) := by
  rw [takesMore_one,takesMore_two] at h
  simp only [bracket,after,List.map_nil,List.nil_append]
  cases hp : p.any (takes cfg) with
  | false =>
    rcases offer_exhausted hp with hsame | ⟨hnone,-⟩
    · rw [hsame,(after_exhausted hp nodes last).2]
    · rw [hnone,after_none]
      rfl
  | true =>
    rcases h with h | rfl | h
    · exact absurd (hp.symm.trans h) (by decide)
    · rfl
    · have hq : (offer cfg false p).any (takes cfg) = false := by simpa [hp] using h
      rw [(after_exhausted hq nodes last).2]

theorem kept_bracket_eq_nil_iff (first : α) (nodes : List α) (last : α) :
    kept cfg p (bracket first nodes last) = [] ↔ takesMore cfg 1 p = false := by
  rw [takesMore_one,bracket,kept]
  cases hp : p.any (takes cfg) with
  | true => simp
  | false =>
    rcases offer_exhausted hp with hsame | ⟨hnone,-⟩
    · simp [hsame,(after_exhausted hp nodes last).1]
    · simp [hnone,kept_none]

theorem after_started {opens : Bool} (h : takesMore cfg 1 (started cfg opens) = false)
    (first : α) (nodes : List α) (last : α) :
    after cfg (started cfg opens) (bracket first nodes last) = none := by
  have hoffer : offer cfg false (started cfg opens) = none := by
    rw [takesMore_one] at h
    cases hstarted : started cfg opens with
    | none => rfl
    | some p =>
      have hp : p =
          { eventCount := 0, writePos := 0, readPos := 0, flushes := cfg.output.writeToFile } := by
        unfold started at hstarted
        split at hstarted
        · cases hstarted
        · split at hstarted
          · cases hstarted
          · exact (Option.some.inj hstarted).symm
      have hslot : slot (increment 0) ≠ slot 0 := by decide
      have hmax : cfg.instrumentation.maxEvents.toNat = 0 := by
        simpa [hstarted,hp,takes,hslot] using h
      simp [offer,record,hp,hmax]
  rw [bracket,after,hoffer,after_none]

theorem map_bracket (f : α → β) (first : α) (nodes : List α) (last : α) :
    (bracket first nodes last).map (Prod.map f id) = bracket (f first) (nodes.map f) (f last) := by
  simp [bracket]

theorem kept_map (f : α → β) (os : List (α × Bool)) (p : Option Progress) :
    (kept cfg p os).map f = kept cfg p (os.map (Prod.map f id)) := by
  induction os generalizing p with
  | nil => rfl
  | cons o os ih =>
    simp only [kept,List.map_append,List.map_cons,ih,Prod.map_fst,Prod.map_snd,id_eq]
    split <;> rfl

theorem after_map (f : α → β) (os : List (α × Bool)) (p : Option Progress) :
    after cfg p (os.map (Prod.map f id)) = after cfg p os := by
  induction os generalizing p with
  | nil => rfl
  | cons o os ih => exact ih _

end Progress

section Portable
variable {cfg : Config}

theorem portable_graphEvent {type : EventType}
    (h : type = .graphComputeBegin ∨ type = .graphComputeEnd) (m : Moment) (graph : Option CGraph)
    (backend : Ptr) (nThreads : ℤ) :
    (graphEvent type m graph backend nThreads).portable =
      graphEvent type { m with now := 0 } graph 0 nThreads := by
  simp [Event.portable,graphEvent,h]

theorem portable_opEvent {type : EventType} (h : type = .opComputeBegin ∨ type = .opComputeEnd)
    (m : Moment) (tensor backend : Ptr) :
    (opEvent cfg type m tensor backend).portable =
      opEvent cfg type { m with now := 0 } tensor 0 := by
  have hgraph : ¬(type = .graphComputeBegin ∨ type = .graphComputeEnd) := by
    rcases h with rfl | rfl <;> decide
  simp [Event.portable,opEvent,h,hgraph]

theorem graphEvent_eq_iff {type : EventType} {m : Moment} {graph : Option CGraph} {a b : ℤ} :
    graphEvent type m graph 0 a = graphEvent type m graph 0 b ↔
      UInt32.ofNat a.toNat = UInt32.ofNat b.toNat := by
  constructor
  · intro h
    have hdata := congrArg (fun e => e.data.graph.nThreads) h
    simpa [graphEvent] using hdata
  · intro h
    simp only [graphEvent,h]

theorem type_of_mem_nodeEvents {c : ComputeCall} {type : EventType} {moments : ℕ → Moment}
    {e : Event Ptr} (h : e ∈ c.nodeEvents cfg type moments) : e.type = type := by
  obtain ⟨x,-,rfl⟩ := List.mem_map.mp h
  rfl

theorem offers_forEach (c : ComputeCall) {type : EventType} {step : Moment → Ptr → HookStep}
    (hevent : ∀ m p, (step m p).event cfg =
      if p ≠ 0 ∧ opPasses cfg (m.heap p).op then some (opEvent cfg type m p c.backend) else none)
    (hend : ∀ m p, (step m p).isGraphEnd = false) (moments : ℕ → Moment) :
    HookStep.offers cfg (HookStep.forEach step moments c.graph.nodes) =
      (c.nodeEvents cfg type moments).map (fun e => (e,false)) := by
  rw [ComputeCall.nodeEvents,ComputeCall.tracedNodes,HookStep.forEach]
  generalize c.graph.nodes.zipIdx = xs
  induction xs with
  | nil => rfl
  | cons x xs ih =>
    rw [List.filterMap_cons,List.filter_cons]
    by_cases hx : x.1 ≠ 0
    · rw [if_pos hx]
      dsimp only
      rw [HookStep.offers_cons,hevent,ih]
      by_cases hp : opPasses cfg ((moments x.2).heap x.1).op = true
      · simp [hx,hp,hend]
      · simp [hp]
    · rw [if_neg hx,if_neg (by simp [hx])]
      exact ih

variable (htiming : cfg.instrumentation.enableOpTiming = true)
include htiming

theorem offers_override (c : ComputeCall) :
    HookStep.offers cfg c.override.steps =
      Progress.bracket (graphEvent .graphComputeBegin c.graphBeginMoment c.graph c.backend c.nThreads)
        (c.nodeEvents cfg .opComputeBegin c.nodeBeginMoment ++
          c.nodeEvents cfg .opComputeEnd c.nodeEndMoment)
        (graphEvent .graphComputeEnd c.graphEndMoment c.graph c.backend c.nThreads) := by
  have hbegins : HookStep.offers cfg (HookStep.forEach
      (fun m p => .onOpComputeBegin m p c.backend) c.nodeBeginMoment c.graph.nodes) =
      (c.nodeEvents cfg .opComputeBegin c.nodeBeginMoment).map (fun e => (e,false)) :=
    offers_forEach c (fun m p => by simp [HookStep.event,htiming]) (fun _ _ => rfl) _
  have hends : HookStep.offers cfg (HookStep.forEach
      (fun m p => .onOpComputeEnd m p c.backend) c.nodeEndMoment c.graph.nodes) =
      (c.nodeEvents cfg .opComputeEnd c.nodeEndMoment).map (fun e => (e,false)) :=
    offers_forEach c (fun m p => by simp [HookStep.event,htiming]) (fun _ _ => rfl) _
  rw [Override.steps,ComputeCall.override,HookStep.offers_append,HookStep.offers_cons,hbegins,
    HookStep.offers_append,hends]
  simp [HookStep.event,htiming,HookStep.offers,HookStep.isGraphEnd,Progress.bracket]

theorem offers_graphOnly (cg : CGraph) (moments : ℕ → Moment) :
    HookStep.offers cfg (graphOnly cg moments).steps =
      Progress.bracket (graphEvent .graphComputeBegin (moments 0) cg 0 0) []
        (graphEvent .graphComputeEnd (moments (1 + 2 * cg.nodes.length)) cg 0 0) := by
  simp [Override.steps,graphOnly,HookStep.offers,HookStep.event,htiming,HookStep.isGraphEnd,
    Progress.bracket]

omit htiming

theorem offers_disabled (htiming : cfg.instrumentation.enableOpTiming = false)
    (c : PlatformCall) :
    HookStep.offers cfg c.linux.steps = [] ∧ HookStep.offers cfg c.mac.steps = [] := by
  have hforEach {step : Moment → Ptr → HookStep} (hstep : ∀ m p, (step m p).event cfg = none)
      (moments : ℕ → Moment) (tensors : List Ptr) :
      HookStep.offers cfg (HookStep.forEach step moments tensors) = [] := by
    rw [HookStep.offers,HookStep.forEach,List.filterMap_filterMap,List.filterMap_eq_nil_iff]
    intro x _
    by_cases hx : x.1 = 0 <;> simp [hx,hstep]
  have hcompute (c : ComputeCall) : HookStep.offers cfg c.override.steps = [] := by
    rw [Override.steps,ComputeCall.override,HookStep.offers_append,HookStep.offers_cons,
      HookStep.offers_append,hforEach (fun m p => by simp [HookStep.event,htiming]),
      hforEach (fun m p => by simp [HookStep.event,htiming])]
    simp [HookStep.event,htiming,HookStep.offers]
  have hgraphOnly (cg : CGraph) (moments : ℕ → Moment) :
      HookStep.offers cfg (graphOnly cg moments).steps = [] := by
    simp [Override.steps,graphOnly,HookStep.offers,HookStep.event,htiming]
  refine ⟨hcompute _,?_⟩
  unfold PlatformCall.mac
  split
  · next backend cgraph _ =>
    exact hcompute (.ggmlBackendGraphCompute backend cgraph c.macMoments)
  · exact hgraphOnly _ _
  · exact hgraphOnly _ _

end Portable

section Comparison
variable {cfg : Config} {outputSet : Bool} (c : PlatformCall) {p : Option Progress}

theorem nodeEvents_portable (c : ComputeCall) {type : EventType}
    (h : type = .opComputeBegin ∨ type = .opComputeEnd) (moments : ℕ → Moment) :
    (c.nodeEvents cfg type moments).map Event.portable =
      (c.tracedNodes cfg moments).map
        (fun x => opEvent cfg type { moments x.2 with now := 0 } x.1 0) := by
  rw [ComputeCall.nodeEvents,List.map_map]
  apply List.map_congr_left
  intro x _
  exact portable_opEvent h _ _ _

theorem PlatformCall.tracesNoNode_iff : c.TracesNoNode cfg ↔
    c.linuxCall.nodeEvents cfg .opComputeBegin c.linuxCall.nodeBeginMoment ++
      c.linuxCall.nodeEvents cfg .opComputeEnd c.linuxCall.nodeEndMoment = [] := by
  simp [TracesNoNode,ComputeCall.nodeEvents]

theorem PlatformCall.nodesUnseen_iff : c.NodesUnseen cfg p ↔
    Progress.takesMore cfg 1 p = false ∨
      (c.TracesNoNode cfg ∨ Progress.takesMore cfg 2 p = false) := by
  have htwo : Progress.takesMore cfg 1 p = false → Progress.takesMore cfg 2 p = false := by
    rw [Progress.takesMore_one,Progress.takesMore_two]
    intro h
    rw [h,Bool.false_and]
  unfold NodesUnseen
  tauto

theorem portable_graphEnd_ne {c : ComputeCall} {e : Event Ptr} {m : Moment}
    {graph : Option CGraph} {nThreads : ℤ}
    (h : e ∈ c.nodeEvents cfg .opComputeBegin c.nodeBeginMoment ++
      c.nodeEvents cfg .opComputeEnd c.nodeEndMoment) :
    (graphEvent .graphComputeEnd m graph 0 nThreads).portable ≠ e.portable := by
  intro heq
  have htype : EventType.graphComputeEnd = e.type := congrArg Event.type heq
  rcases List.mem_append.mp h with h | h
  · rw [type_of_mem_nodeEvents h] at htype
    exact absurd htype (by decide)
  · rw [type_of_mem_nodeEvents h] at htype
    exact absurd htype (by decide)

/-- A graph-only override beside the full one, from the same counters. -/
theorem graphOnly_alike_iff (htiming : cfg.instrumentation.enableOpTiming = true)
    (l : ComputeCall) (clock : ℕ → UInt64) :
    let ms := fun i => { l.moments i with now := clock i }
    (Progress.kept cfg p (HookStep.offers cfg (graphOnly l.graph ms).steps)).map Event.portable =
        (Progress.kept cfg p (HookStep.offers cfg l.override.steps)).map Event.portable ↔
      Progress.takesMore cfg 1 p = false ∨ (UInt32.ofNat l.nThreads.toNat = 0 ∧
        (l.nodeEvents cfg .opComputeBegin l.nodeBeginMoment ++
            l.nodeEvents cfg .opComputeEnd l.nodeEndMoment = [] ∨
          Progress.takesMore cfg 2 p = false)) := by
  intro ms
  have hthreads (type : EventType) (htype : type = .graphComputeBegin ∨ type = .graphComputeEnd)
      (i : ℕ) : (graphEvent type (ms i) l.graph 0 0).portable =
        (graphEvent type (l.moments i) l.graph l.backend l.nThreads).portable ↔
      UInt32.ofNat l.nThreads.toNat = 0 := by
    rw [portable_graphEvent htype,portable_graphEvent htype]
    exact graphEvent_eq_iff.trans eq_comm
  have hbegin : (graphEvent .graphComputeBegin (ms 0) l.graph 0 0).portable =
      (graphEvent .graphComputeBegin l.graphBeginMoment l.graph l.backend l.nThreads).portable ↔
        UInt32.ofNat l.nThreads.toNat = 0 :=
    hthreads _ (.inl rfl) 0
  have hend :
      (graphEvent .graphComputeEnd (ms (1 + 2 * l.graph.nodes.length)) l.graph 0 0).portable =
        (graphEvent .graphComputeEnd l.graphEndMoment l.graph l.backend l.nThreads).portable ↔
        UInt32.ofNat l.nThreads.toNat = 0 :=
    hthreads _ (.inr rfl) _
  rw [offers_graphOnly htiming,offers_override htiming]
  rw [Progress.alike_bracket_iff Event.portable (fun _ he => portable_graphEnd_ne he)
    (fun h => hend.mpr (hbegin.mp h)),hbegin]

/-- Where the difference has no room, it leaves no trace in the counters either. -/
theorem graphOnly_after (htiming : cfg.instrumentation.enableOpTiming = true) (l : ComputeCall)
    (ms : ℕ → Moment)
    (h : Progress.takesMore cfg 1 p = false ∨
      (l.nodeEvents cfg .opComputeBegin l.nodeBeginMoment ++
          l.nodeEvents cfg .opComputeEnd l.nodeEndMoment = [] ∨
        Progress.takesMore cfg 2 p = false)) :
    Progress.after cfg p (HookStep.offers cfg (graphOnly l.graph ms).steps) =
      Progress.after cfg p (HookStep.offers cfg l.override.steps) := by
  rw [offers_graphOnly htiming,offers_override htiming]
  exact Progress.after_bracket h

theorem threads_eq_zero_iff (n : Int32) : UInt32.ofNat n.toInt.toNat = 0 ↔ n ≤ 0 := by
  have hlt := n.toInt_lt
  have hle : n ≤ 0 ↔ n.toInt ≤ 0 := Int32.le_iff_toInt_le
  rw [hle,← UInt32.toNat_inj]
  simp only [UInt32.toNat_ofNat',UInt32.toNat_zero]
  omega

namespace PlatformCall

/-- From the same counters the call records the same on both platforms. -/
def RecordsAlike (cfg : Config) (outputSet : Bool) (p : Option Progress) : Prop :=
  (Progress.kept cfg (c.mac.entered cfg c.opens outputSet p)
    (HookStep.offers cfg c.mac.steps)).map Event.portable =
  (Progress.kept cfg (c.linux.entered cfg c.opens outputSet p)
    (HookStep.offers cfg c.linux.steps)).map Event.portable

def LeavesAlike (cfg : Config) (outputSet : Bool) (p : Option Progress) : Prop :=
  Progress.after cfg (c.mac.entered cfg c.opens outputSet p) (HookStep.offers cfg c.mac.steps) =
  Progress.after cfg (c.linux.entered cfg c.opens outputSet p) (HookStep.offers cfg c.linux.steps)

variable {c} (outputSet) (p)

theorem alike_backend (htiming : cfg.instrumentation.enableOpTiming = true) {backend : Ptr}
    {cgraph : CGraph} (hc : c.call = .backendGraphCompute backend cgraph) :
    c.RecordsAlike cfg outputSet p ∧ c.LeavesAlike cfg outputSet p := by
  obtain ⟨call,moments,clock,opens⟩ := c
  subst hc
  let l : ComputeCall := .ggmlBackendGraphCompute backend cgraph moments
  let m : ComputeCall := .ggmlBackendGraphCompute backend cgraph
    (macMoments ⟨.backendGraphCompute backend cgraph,moments,clock,opens⟩)
  have hoffers : (HookStep.offers cfg m.override.steps).map (Prod.map Event.portable id) =
      (HookStep.offers cfg l.override.steps).map (Prod.map Event.portable id) := by
    rw [offers_override htiming,offers_override htiming,Progress.map_bracket,Progress.map_bracket,
      List.map_append,List.map_append]
    simp only [nodeEvents_portable _ (.inl rfl),nodeEvents_portable _ (.inr rfl),
      portable_graphEvent (.inl rfl),portable_graphEvent (.inr rfl)]
    rfl
  constructor
  · show List.map Event.portable (Progress.kept cfg _ (HookStep.offers cfg m.override.steps)) =
      List.map Event.portable (Progress.kept cfg _ (HookStep.offers cfg l.override.steps))
    rw [Progress.kept_map,Progress.kept_map,hoffers]
    rfl
  · show Progress.after cfg _ (HookStep.offers cfg m.override.steps) =
      Progress.after cfg _ (HookStep.offers cfg l.override.steps)
    rw [← Progress.after_map Event.portable (HookStep.offers cfg m.override.steps),hoffers,
      Progress.after_map]
    rfl

theorem alike_graphCompute (htiming : cfg.instrumentation.enableOpTiming = true)
    {cgraph : CGraph} (hc : c.call = .graphCompute cgraph) :
    let q := c.linux.entered cfg c.opens outputSet p
    (c.RecordsAlike cfg outputSet p ↔ c.NodesUnseen cfg q) ∧
      (c.NodesUnseen cfg q → c.LeavesAlike cfg outputSet p) := by
  obtain ⟨call,moments,clock,opens⟩ := c
  subst hc
  intro q
  let l : ComputeCall := .ggmlGraphCompute cgraph moments
  rw [nodesUnseen_iff,tracesNoNode_iff]
  constructor
  · have halike := graphOnly_alike_iff (p := q) htiming l clock
    exact halike.trans (or_congr_right (and_iff_right rfl))
  · intro h
    exact graphOnly_after htiming l _ h

theorem alike_graphComputeWithCtx (htiming : cfg.instrumentation.enableOpTiming = true)
    {cgraph : CGraph} {nThreads : Int32} (hc : c.call = .graphComputeWithCtx cgraph nThreads)
    (p : Progress) :
    (c.RecordsAlike cfg outputSet (some p) ↔ Progress.takesMore cfg 1 (some p) = false ∨
      (nThreads ≤ 0 ∧ c.NodesUnseen cfg (some p))) ∧
    ((Progress.takesMore cfg 1 (some p) = false ∨ (nThreads ≤ 0 ∧ c.NodesUnseen cfg (some p))) →
      c.LeavesAlike cfg outputSet (some p)) := by
  obtain ⟨call,moments,clock,opens⟩ := c
  subst hc
  let l : ComputeCall := .ggmlGraphComputeWithCtx cgraph nThreads.toInt moments
  rw [nodesUnseen_iff,tracesNoNode_iff]
  constructor
  · have halike := graphOnly_alike_iff (p := some p) htiming l clock
    have hthreads : UInt32.ofNat l.nThreads.toNat = 0 ↔ nThreads ≤ 0 :=
      threads_eq_zero_iff nThreads
    rw [hthreads] at halike
    refine halike.trans ?_
    show _ ↔ _ ∨ (nThreads ≤ 0 ∧ (_ ∨ (_ ∨ _)))
    tauto
  · intro h
    exact graphOnly_after htiming l _ (h.elim .inl And.right)

/-- Only on macOS the call starts an inactive hook. -/
theorem alike_inactive (htiming : cfg.instrumentation.enableOpTiming = true)
    {cgraph : CGraph} {nThreads : Int32} (hc : c.call = .graphComputeWithCtx cgraph nThreads) :
    let unseen := outputSet = true → Progress.takesMore cfg 1 (Progress.started cfg c.opens) = false
    (c.RecordsAlike cfg outputSet none ↔ unseen) ∧
      (unseen → c.LeavesAlike cfg outputSet none) := by
  obtain ⟨call,moments,clock,opens⟩ := c
  subst hc
  intro unseen
  let c : PlatformCall := ⟨.graphComputeWithCtx cgraph nThreads,moments,clock,opens⟩
  let q := if outputSet then Progress.started cfg opens else none
  have hkept : c.RecordsAlike cfg outputSet none ↔
      Progress.kept cfg q (HookStep.offers cfg (graphOnly cgraph c.macMoments).steps) = [] := by
    show List.map Event.portable _ = List.map Event.portable (Progress.kept cfg none _) ↔ _
    rw [Progress.kept_none,List.map_nil,List.map_eq_nil_iff]
    rfl
  have hafter : c.LeavesAlike cfg outputSet none ↔
      Progress.after cfg q (HookStep.offers cfg (graphOnly cgraph c.macMoments).steps) = none := by
    show _ = Progress.after cfg none _ ↔ _
    rw [Progress.after_none]
    rfl
  rw [hkept,hafter,offers_graphOnly htiming]
  cases outputSet with
  | false => simp [q,Progress.kept_none,Progress.after_none,unseen]
  | true =>
    rw [Progress.kept_bracket_eq_nil_iff]
    refine ⟨⟨fun h _ => h,fun h => h rfl⟩,?_⟩
    intro h
    exact Progress.after_started (h rfl) _ _ _

/-- A call records alike exactly where the difference is not seen, and is then over with
the same counters on both platforms. -/
theorem outcome (htiming : cfg.instrumentation.enableOpTiming = true) (c : PlatformCall) :
    (c.RecordsAlike cfg outputSet p ↔ c.DifferenceUnseen cfg outputSet p) ∧
      (c.DifferenceUnseen cfg outputSet p → c.LeavesAlike cfg outputSet p) := by
  cases hc : c.call with
  | backendGraphCompute backend cgraph =>
    obtain ⟨halike,hleaves⟩ := alike_backend outputSet p htiming hc
    simp only [DifferenceUnseen,hc]
    exact ⟨iff_of_true halike (.inr trivial),fun _ => hleaves⟩
  | graphCompute cgraph =>
    have h := alike_graphCompute outputSet p htiming hc
    simpa only [DifferenceUnseen,hc,htiming,Bool.true_eq_false,false_or] using h
  | graphComputeWithCtx cgraph nThreads =>
    cases p with
    | none =>
      have h := alike_inactive outputSet htiming hc
      simpa only [DifferenceUnseen,hc,htiming,Bool.true_eq_false,false_or] using h
    | some p =>
      have h := alike_graphComputeWithCtx outputSet htiming hc p
      simpa only [DifferenceUnseen,hc,htiming,Bool.true_eq_false,false_or] using h

end PlatformCall

/-- Two hooks with the same counters record the same calls alike exactly as long as no call
shows the difference. -/
theorem recordedByCalls_iff (htiming : cfg.instrumentation.enableOpTiming = true)
    (calls : List PlatformCall) {s t : HookState Ptr} (hst : t.progress cfg = s.progress cfg) :
    (recordedByCalls cfg outputSet PlatformCall.mac calls t).map (List.map Event.portable) =
        (recordedByCalls cfg outputSet PlatformCall.linux calls s).map (List.map Event.portable) ↔
      NeverSeen cfg outputSet calls s := by
  induction calls generalizing s t with
  | nil => exact iff_of_true rfl trivial
  | cons c calls ih =>
    obtain ⟨halike,hleaves⟩ := PlatformCall.outcome outputSet (s.progress cfg) htiming c
    simp only [recordedByCalls,List.map_cons,List.cons.injEq,NeverSeen]
    have hnext (h : c.DifferenceUnseen cfg outputSet (s.progress cfg)) :
        (c.mac.run cfg c.opens outputSet t).progress cfg =
          (c.linux.run cfg c.opens outputSet s).progress cfg := by
      rw [Override.progress_run,Override.progress_run,hst]
      exact hleaves h
    rw [Override.recorded_eq,Override.recorded_eq,hst]
    constructor
    · rintro ⟨hfirst,hrest⟩
      have hunseen := halike.mp hfirst
      exact ⟨hunseen,(ih (hnext hunseen)).mp hrest⟩
    · rintro ⟨hunseen,hrest⟩
      exact ⟨halike.mpr hunseen,(ih (hnext hunseen)).mpr hrest⟩

theorem recordAlike_disabled (htiming : cfg.instrumentation.enableOpTiming = false)
    (calls : List PlatformCall) (s t : HookState Ptr) :
    recordedByCalls cfg outputSet PlatformCall.mac calls t =
      recordedByCalls cfg outputSet PlatformCall.linux calls s := by
  induction calls generalizing s t with
  | nil => rfl
  | cons c calls ih =>
    obtain ⟨hlinux,hmac⟩ := offers_disabled htiming c
    rw [recordedByCalls,recordedByCalls,Override.recorded_eq,Override.recorded_eq,hlinux,hmac]
    exact congrArg _ (ih _ _)

theorem neverSeen_disabled (htiming : cfg.instrumentation.enableOpTiming = false)
    (calls : List PlatformCall) (s : HookState Ptr) : NeverSeen cfg outputSet calls s := by
  induction calls generalizing s with
  | nil => trivial
  | cons c calls ih => exact ⟨.inl htiming,ih _⟩

/-- The platforms record the same events exactly as long as no call shows the difference. -/
theorem recordAlike_iff (cfg : Config) (outputSet : Bool) (calls : List PlatformCall)
    (s : HookState Ptr) :
    RecordAlike cfg outputSet calls s ↔ NeverSeen cfg outputSet calls s := by
  cases htiming : cfg.instrumentation.enableOpTiming with
  | true => exact recordedByCalls_iff htiming calls rfl
  | false =>
    exact iff_of_true (congrArg _ (recordAlike_disabled htiming calls s s))
      (neverSeen_disabled htiming calls s)

/-- A graph with one node, on the path of `ggml_graph_compute`. -/
def oneNodeCall : PlatformCall where
  call := .graphCompute { ptr := 64, nodes := [128], fits := oneTensor_fits }
  moments _ := momentAt 7
  clock _ := 9
  opens := true

theorem not_recordAlike_oneNode : ¬RecordAlike Config.defaultConfig false [oneNodeCall]
    ((HookState.initial (fun _ => none)).start Config.defaultConfig true) := by
  intro h
  obtain ⟨hunseen,-⟩ := (recordedByCalls_iff rfl _ rfl).mp h
  rcases hunseen with h | ⟨h,-⟩ | h
  · cases h
  · exact absurd h (by decide)
  · exact absurd h (by decide)

end Comparison
end GgmlViz
