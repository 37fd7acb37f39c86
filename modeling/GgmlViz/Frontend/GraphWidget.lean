import GgmlViz.Frontend.GraphLayers

/-! # The graph widget and its cached nodes

`render` builds the nodes while `nodes_dirty_` is raised, and nothing raises it again. Which
nodes the canvas shows and where the mouse is are inputs of a call.
-/
namespace GgmlViz
open LittleEndian
variable {F : Type}

/-- The events of a `TraceReader`; their number is a `size_t`. -/
structure TraceEvents where
  events : List (Event Bytes)
  fits : events.length < 2^64

/-- The nodes that are visible, those under the mouse, and whether it was clicked. -/
structure CanvasInput where
  visible : ℕ → Bool
  hovered : ℕ → Bool
  clicked : Bool

/-- A call of `render`; without a reader the pointer is null. -/
structure RenderCall (F : Type) where
  traceReader : Option TraceEvents
  config : GraphConfig F
  autoLayoutPressed : Bool
  canvas : CanvasInput

structure GraphWidget (F : Type) where
  selectedNode : ℤ
  cachedNodes : List (GraphNode F)
  nodesDirty : Bool

namespace GraphWidget

def new : GraphWidget F where
  selectedNode := -1
  cachedNodes := []
  nodesDirty := true

/-- The id of the last node under the mouse. -/
def hoveredNode (canvas : CanvasInput) (nodes : List (GraphNode F)) : ℤ :=
  nodes.zipIdx.foldl (fun hovered x =>
    if canvas.visible x.2 ∧ canvas.hovered x.2 then x.1.nodeId else hovered) (-1)

def renderGraphCanvas (canvas : CanvasInput) (w : GraphWidget F) : GraphWidget F :=
  let hovered := hoveredNode canvas w.cachedNodes
  { w with
    cachedNodes := w.cachedNodes.mapIdx (fun i node =>
      if canvas.visible i then { node with isSelected := decide (w.selectedNode = node.nodeId) }
      else node)
    selectedNode := if canvas.clicked ∧ 0 ≤ hovered then hovered else w.selectedNode }

variable [StdSort] (fl : FloatArith F) (fuel : ℕ)

/-- The button "Auto Layout"; the other controls leave the nodes alone. -/
def renderGraphControls (call : RenderCall F) (w : GraphWidget F) : Option (GraphWidget F) :=
  if call.autoLayoutPressed ∧ w.cachedNodes ≠ [] then
    (autoLayoutNodes w.cachedNodes fl call.config fuel).map (fun nodes =>
      { w with cachedNodes := nodes })
  else some w

/-- "Rebuild graph if needed" -/
def rebuild (events : List (Event Bytes)) (config : GraphConfig F) (w : GraphWidget F) :
    Option (GraphWidget F) :=
  if w.nodesDirty then
    (if config.autoLayout then autoLayoutNodes (buildGraphFromTrace fl events) fl config fuel
      else some (buildGraphFromTrace fl events)).map (fun nodes =>
        { w with cachedNodes := nodes, nodesDirty := false })
  else some w

/-- `render`, if its loops end within so many passes. -/
def render (call : RenderCall F) (w : GraphWidget F) : Option (GraphWidget F) :=
  match call.traceReader with
  | none => some w
  | some reader =>
    if reader.events.length = 0 then some w
    else
      (w.rebuild fl fuel reader.events call.config).bind (fun w =>
        (w.renderGraphControls fl fuel call).map (renderGraphCanvas call.canvas))

/-- The widget after each of some calls. -/
def renders : List (RenderCall F) → GraphWidget F → Option (List (GraphWidget F))
  | [], _ => some []
  | call :: calls, w =>
    (w.render fl fuel call).bind (fun w => (renders calls w).map (fun ws => w :: ws))

end GraphWidget

/-- What a node says of the trace. -/
structure NodeContent (F : Type) where
  nodeId : ℤ
  label : Bytes
  opType : Bytes
  durationMs : F
  inputs : List ℤ
  outputs : List ℤ

def GraphNode.content (a : GraphNode F) : NodeContent F where
  nodeId := a.nodeId
  label := a.label
  opType := a.opType
  durationMs := a.durationMs
  inputs := a.inputs
  outputs := a.outputs

/-- The trace of a call that has one. -/
def RenderCall.trace (call : RenderCall F) : Option (List (Event Bytes)) :=
  match call.traceReader with
  | none => none
  | some reader => if reader.events.length = 0 then none else some reader.events

section Coherence
variable [StdSort] (fl : FloatArith F)

/-- After the call the cached nodes are those of its trace. -/
def DrawsCurrent (call : RenderCall F) (w : GraphWidget F) : Prop :=
  ∀ events, call.trace = some events →
    w.cachedNodes.map GraphNode.content = (buildGraphFromTrace fl events).map GraphNode.content

/-- The label, type and duration of each operation, in the order of `get_op_timings`. -/
def operations (events : List (Event Bytes)) : List (Bytes × Bytes × F) :=
  (getOpTimings events).zipIdx.map (fun x =>
    (nodeLabel x.2 x.1,nodeOpType events x.2 x.1,nodeDurationMs fl x.1))

/-- All traces that are shown have the same operations. -/
def SameOperations (calls : List (RenderCall F)) : Prop :=
  ∀ a ∈ calls.filterMap RenderCall.trace, ∀ b ∈ calls.filterMap RenderCall.trace,
    operations fl a = operations fl b

end Coherence
section Content
variable {nodes nodes' : List (GraphNode F)}

theorem foldl_keeps {α β γ : Type} {step : β → α → β} {g : β → γ}
    (h : ∀ b a, g (step b a) = g b) (l : List α) (b : β) : g (l.foldl step b) = g b := by
  induction l generalizing b with
  | nil => rfl
  | cons a l ih => rw [List.foldl_cons,ih,h]

theorem content_modify (f : GraphNode F → GraphNode F) (h : ∀ a, (f a).content = a.content)
    (i : ℕ) (nodes : List (GraphNode F)) :
    (nodes.modify i f).map GraphNode.content = nodes.map GraphNode.content := by
  apply List.ext_getElem?
  intro k
  rw [List.getElem?_map,List.getElem?_map,List.getElem?_modify]
  cases nodes[k]? with
  | none => rfl
  | some a =>
    by_cases hik : i = k
    · simp [hik,h]
    · simp [hik]

variable (fl : FloatArith F) (config : GraphConfig F)

/-- The layout moves nodes only. -/
theorem content_autoLayoutNodes {fuel : ℕ}
    (h : autoLayoutNodes nodes fl config fuel = some nodes') :
    nodes'.map GraphNode.content = nodes.map GraphNode.content := by
  unfold autoLayoutNodes at h
  split at h
  · cases h
    rfl
  · obtain ⟨s,-,rfl⟩ := Option.map_eq_some_iff.mp h
    apply foldl_keeps (g := List.map GraphNode.content)
    intro nodes layer
    apply foldl_keeps (g := List.map GraphNode.content)
    intro nodes x
    apply content_modify
    intro a
    rfl

theorem content_renderGraphCanvas (canvas : CanvasInput) (w : GraphWidget F) :
    (w.renderGraphCanvas canvas).cachedNodes.map GraphNode.content =
      w.cachedNodes.map GraphNode.content := by
  apply List.ext_getElem?
  intro i
  simp only [GraphWidget.renderGraphCanvas,List.getElem?_map,List.getElem?_mapIdx]
  cases w.cachedNodes[i]? with
  | none => rfl
  | some a => cases canvas.visible i <;> rfl

theorem Chained.of_content (h : Chained nodes)
    (hcontent : nodes'.map GraphNode.content = nodes.map GraphNode.content) : Chained nodes' := by
  have hlen : nodes'.length = nodes.length := by
    simpa using congrArg List.length hcontent
  intro i node hnode
  have hi := congrArg (fun l => l[i]?) hcontent
  rw [List.getElem?_map,List.getElem?_map,hnode,Option.map_some] at hi
  obtain ⟨node',hnode',hsame⟩ := Option.map_eq_some_iff.mp hi.symm
  have hchain := h i node' hnode'
  rw [hlen]
  exact
    { nodeId := (congrArg NodeContent.nodeId hsame).symm.trans hchain.nodeId
      inputs := (congrArg NodeContent.inputs hsame).symm.trans hchain.inputs
      outputs := (congrArg NodeContent.outputs hsame).symm.trans hchain.outputs }

/-- The layout of a chain ends. -/
theorem Chained.autoLayoutNodes (h : Chained nodes) (hfits : nodes.length < 2^64) :
    ∃ nodes', ∀ᶠ fuel in Filter.atTop, autoLayoutNodes nodes fl config fuel = some nodes' := by
  obtain ⟨s,hloop,-⟩ := (h.wellFormed hfits).layoutLoop_ends
  by_cases hempty : nodes = []
  · refine ⟨nodes,Filter.Eventually.of_forall ?_⟩
    intro fuel
    exact if_pos hempty
  · refine ⟨(groupLayers s).zipIdx.foldl (positionLayer fl config) nodes,?_⟩
    filter_upwards [hloop] with fuel hfuel
    rw [GgmlViz.autoLayoutNodes,if_neg hempty,hfuel,Option.map_some]

end Content
section Operations
variable [StdSort] (fl : FloatArith F) (events : List (Event Bytes))

/-- A node of a chain of so many nodes, for an operation. -/
def contentAt (n i : ℕ) (op : Bytes × Bytes × F) : NodeContent F where
  nodeId := i
  label := op.1
  opType := op.2.1
  durationMs := op.2.2
  inputs := if i = 0 then [] else [(i : ℤ) - 1]
  outputs := if i + 1 < n then [(i : ℤ) + 1] else []

theorem getElem?_content (i : ℕ) :
    ((buildGraphFromTrace fl events).map GraphNode.content)[i]? =
      ((operations fl events)[i]?).map (contentAt (operations fl events).length i) := by
  have hlen : (operations fl events).length = (buildGraphFromTrace fl events).length := by
    simp [operations,length_buildGraphFromTrace]
  have hop : (operations fl events)[i]? = ((getOpTimings events)[i]?).map (fun t =>
      (nodeLabel i t,nodeOpType events i t,nodeDurationMs fl t)) := by
    rw [operations,List.getElem?_map,List.getElem?_zipIdx,Option.map_map,Nat.zero_add]
    rfl
  have hchain := chained_buildGraphFromTrace fl events i
  rw [hlen,hop,List.getElem?_map]
  rw [getElem?_buildGraphFromTrace] at hchain ⊢
  cases ht : (getOpTimings events)[i]? with
  | none => rfl
  | some t =>
    rw [ht,Option.map_some] at hchain
    have hnode := hchain _ rfl
    simp only [Option.map_some]
    rw [GraphNode.content,hnode.nodeId,hnode.inputs,hnode.outputs]
    rfl

/-- Two traces give the same nodes just when they have the same operations. -/
theorem content_eq_iff (a b : List (Event Bytes)) :
    (buildGraphFromTrace fl a).map GraphNode.content =
      (buildGraphFromTrace fl b).map GraphNode.content ↔ operations fl a = operations fl b := by
  constructor
  · intro hsame
    have hops (events : List (Event Bytes)) : operations fl events =
        ((buildGraphFromTrace fl events).map GraphNode.content).map (fun c =>
          (c.label,c.opType,c.durationMs)) := by
      apply List.ext_getElem?
      intro i
      rw [List.getElem?_map,getElem?_content,Option.map_map]
      exact Option.map_id'.symm
    rw [hops a,hops b,hsame]
  · intro hsame
    apply List.ext_getElem?
    intro i
    rw [getElem?_content,getElem?_content,hsame]

end Operations

section Run
variable {events first : List (Event Bytes)}

theorem forall₂_iff_of_forall₂ {α β : Type} {P Q : α → β → Prop} {S : α → Prop} {as : List α}
    {bs : List β} (h : List.Forall₂ P as bs) (hiff : ∀ a b, P a b → (Q a b ↔ S a)) :
    List.Forall₂ Q as bs ↔ ∀ a ∈ as, S a := by
  induction h with
  | nil => simp
  | cons hab _ ih => rw [List.forall₂_cons,List.forall_mem_cons,ih,hiff _ _ hab]

theorem RenderCall.trace_fits {call : RenderCall F} (h : call.trace = some events) :
    events.length < 2^64 := by
  unfold RenderCall.trace at h
  split at h
  · cases h
  · next reader _ =>
    split at h
    · cases h
    · cases h
      exact reader.fits

variable [StdSort] (fl : FloatArith F) {w : GraphWidget F}

/-- The cached nodes are those of a trace, and stay. -/
structure Shows (events : List (Event Bytes)) (w : GraphWidget F) : Prop where
  fits : events.length < 2^64
  clean : w.nodesDirty = false
  content : w.cachedNodes.map GraphNode.content =
    (buildGraphFromTrace fl events).map GraphNode.content

theorem render_eq (fuel : ℕ) (call : RenderCall F) (w : GraphWidget F) :
    w.render fl fuel call = match call.trace with
      | none => some w
      | some events => (w.rebuild fl fuel events call.config).bind (fun w =>
          (w.renderGraphControls fl fuel call).map (GraphWidget.renderGraphCanvas call.canvas)) := by
  unfold GraphWidget.render RenderCall.trace
  cases call.traceReader with
  | none => rfl
  | some reader =>
    by_cases hempty : reader.events.length = 0
    · simp only [if_pos hempty]
    · simp only [if_neg hempty]

theorem Shows.chained (h : Shows fl events w) :
    Chained w.cachedNodes ∧ w.cachedNodes.length < 2^64 := by
  refine ⟨(chained_buildGraphFromTrace fl events).of_content h.content,?_⟩
  have hlen := congrArg List.length h.content
  rw [List.length_map,List.length_map] at hlen
  rw [hlen]
  exact length_build_lt fl h.fits

theorem Shows.controls (h : Shows fl events w) (call : RenderCall F) : ∃ w',
    (∀ᶠ fuel in Filter.atTop, w.renderGraphControls fl fuel call = some w') ∧
      Shows fl events w' := by
  obtain ⟨hchained,hfits⟩ := h.chained
  obtain ⟨nodes,hlayout⟩ := hchained.autoLayoutNodes fl call.config hfits
  by_cases hpressed : call.autoLayoutPressed ∧ w.cachedNodes ≠ []
  · refine ⟨{ w with cachedNodes := nodes },?_,?_⟩
    · filter_upwards [hlayout] with fuel hfuel
      rw [GraphWidget.renderGraphControls,if_pos hpressed,hfuel]
      rfl
    · obtain ⟨fuel,hfuel⟩ := hlayout.exists
      exact
        { fits := h.fits
          clean := h.clean
          content := (content_autoLayoutNodes fl call.config hfuel).trans h.content }
  · refine ⟨w,Filter.Eventually.of_forall ?_,h⟩
    intro fuel
    exact if_neg hpressed

/-- The rest of a call does not change what is shown. -/
theorem Shows.rendered (h : Shows fl events w) (call : RenderCall F) : ∃ w',
    (∀ᶠ fuel in Filter.atTop, (w.renderGraphControls fl fuel call).map
      (GraphWidget.renderGraphCanvas call.canvas) = some w') ∧ Shows fl events w' := by
  obtain ⟨w',hcontrols,hshows⟩ := h.controls fl call
  refine ⟨w'.renderGraphCanvas call.canvas,?_,?_⟩
  · filter_upwards [hcontrols] with fuel hfuel
    rw [hfuel,Option.map_some]
  · exact
      { fits := h.fits
        clean := hshows.clean
        content := (content_renderGraphCanvas call.canvas w').trans hshows.content }

theorem Shows.render (h : Shows fl first w) (call : RenderCall F) : ∃ w',
    (∀ᶠ fuel in Filter.atTop, w.render fl fuel call = some w') ∧ Shows fl first w' := by
  obtain ⟨w',hrest,hshows⟩ := h.rendered fl call
  cases htrace : call.trace with
  | none =>
    refine ⟨w,Filter.Eventually.of_forall ?_,h⟩
    intro fuel
    rw [render_eq,htrace]
  | some events =>
    refine ⟨w',?_,hshows⟩
    filter_upwards [hrest] with fuel hfuel
    have hrebuild : w.rebuild fl fuel events call.config = some w := by
      rw [GraphWidget.rebuild,h.clean]
      rfl
    rw [render_eq,htrace]
    dsimp only
    rw [hrebuild,Option.bind_some,hfuel]

/-- The first call with a trace fills the cache. -/
theorem shows_render (hdirty : w.nodesDirty = true) {call : RenderCall F}
    (htrace : call.trace = some events) : ∃ w',
    (∀ᶠ fuel in Filter.atTop, w.render fl fuel call = some w') ∧ Shows fl events w' := by
  have hfits := RenderCall.trace_fits htrace
  have hrebuild : ∃ w',
      (∀ᶠ fuel in Filter.atTop, w.rebuild fl fuel events call.config = some w') ∧
        Shows fl events w' := by
    obtain ⟨nodes,hlayout⟩ := (chained_buildGraphFromTrace fl events).autoLayoutNodes fl call.config
      (length_build_lt fl hfits)
    cases hauto : call.config.autoLayout with
    | false =>
      refine ⟨{ w with cachedNodes := buildGraphFromTrace fl events, nodesDirty := false },?_,
        hfits,rfl,rfl⟩
      apply Filter.Eventually.of_forall
      intro fuel
      rw [GraphWidget.rebuild,hdirty,hauto]
      rfl
    | true =>
      obtain ⟨fuel,hfuel⟩ := hlayout.exists
      refine ⟨{ w with cachedNodes := nodes, nodesDirty := false },?_,
        hfits,rfl,content_autoLayoutNodes fl call.config hfuel⟩
      filter_upwards [hlayout] with fuel hfuel
      rw [GraphWidget.rebuild,hdirty,hauto,if_pos rfl,if_pos rfl,hfuel]
      rfl
  obtain ⟨w₁,hbuilt,hshows⟩ := hrebuild
  obtain ⟨w₂,hrest,hshows'⟩ := hshows.rendered fl call
  refine ⟨w₂,?_,hshows'⟩
  filter_upwards [hbuilt,hrest] with fuel hfuel hfuel'
  rw [render_eq,htrace]
  dsimp only
  rw [hfuel,Option.bind_some,hfuel']

theorem eventually_renders_cons {call : RenderCall F} {calls : List (RenderCall F)}
    {w' : GraphWidget F} {ws : List (GraphWidget F)}
    (hcall : ∀ᶠ fuel in Filter.atTop, w.render fl fuel call = some w')
    (hcalls : ∀ᶠ fuel in Filter.atTop, GraphWidget.renders fl fuel calls w' = some ws) :
    ∀ᶠ fuel in Filter.atTop, GraphWidget.renders fl fuel (call :: calls) w = some (w' :: ws) := by
  filter_upwards [hcall,hcalls] with fuel hfuel hfuel'
  rw [GraphWidget.renders,hfuel,Option.bind_some,hfuel',Option.map_some]

theorem Shows.renders (h : Shows fl first w) (calls : List (RenderCall F)) : ∃ ws,
    (∀ᶠ fuel in Filter.atTop, GraphWidget.renders fl fuel calls w = some ws) ∧
      List.Forall₂ (fun _ w' => Shows fl first w') calls ws := by
  induction calls generalizing w with
  | nil => exact ⟨[],Filter.Eventually.of_forall fun _ => rfl,.nil⟩
  | cons call calls ih =>
    obtain ⟨w',hcall,hshows⟩ := h.render fl call
    obtain ⟨ws,hcalls,hall⟩ := ih hshows
    exact ⟨w' :: ws,eventually_renders_cons fl hcall hcalls,.cons hshows hall⟩

/-- After a call with a trace the widget shows the first trace. -/
def ShowsFirst (first : Option (List (Event Bytes))) (call : RenderCall F) (w : GraphWidget F) :
    Prop :=
  ∀ events, call.trace = some events → ∃ e, first = some e ∧ Shows fl e w

theorem showsFirst_renders (hdirty : w.nodesDirty = true) (calls : List (RenderCall F)) : ∃ ws,
    (∀ᶠ fuel in Filter.atTop, GraphWidget.renders fl fuel calls w = some ws) ∧
      List.Forall₂ (ShowsFirst fl (calls.filterMap RenderCall.trace).head?) calls ws := by
  induction calls generalizing w with
  | nil => exact ⟨[],Filter.Eventually.of_forall fun _ => rfl,.nil⟩
  | cons call calls ih =>
    cases htrace : call.trace with
    | none =>
      have hcall (fuel : ℕ) : w.render fl fuel call = some w := by rw [render_eq,htrace]
      obtain ⟨ws,hcalls,hall⟩ := ih hdirty
      refine ⟨w :: ws,
        eventually_renders_cons fl (Filter.Eventually.of_forall hcall) hcalls,.cons ?_ ?_⟩
      · intro events hevents
        rw [htrace] at hevents
        cases hevents
      · rw [List.filterMap_cons_none htrace]
        exact hall
    | some events =>
      obtain ⟨w',hcall,hshows⟩ := shows_render fl hdirty htrace
      obtain ⟨ws,hcalls,hall⟩ := hshows.renders fl calls
      rw [List.filterMap_cons_some htrace,List.head?_cons]
      refine ⟨w' :: ws,eventually_renders_cons fl hcall hcalls,.cons ?_ ?_⟩
      · intro _ _
        exact ⟨events,rfl,hshows⟩
      · apply hall.imp
        intro _ _ hshows' _ _
        exact ⟨events,rfl,hshows'⟩

theorem ShowsFirst.drawsCurrent_iff {first : Option (List (Event Bytes))} {call : RenderCall F}
    (h : ShowsFirst fl first call w) : DrawsCurrent fl call w ↔
      ∀ events, call.trace = some events → ∀ e, first = some e →
        operations fl e = operations fl events := by
  constructor
  · intro hdraws events htrace e he
    obtain ⟨e',he',hshows⟩ := h events htrace
    rw [he,Option.some_inj] at he'
    subst he'
    rw [← content_eq_iff,← hshows.content]
    exact hdraws events htrace
  · intro hops events htrace
    obtain ⟨e,he,hshows⟩ := h events htrace
    rw [hshows.content,content_eq_iff]
    exact hops events htrace e he

theorem sameOperations_iff (calls : List (RenderCall F)) :
    (∀ call ∈ calls, ∀ events, call.trace = some events →
      ∀ e, (calls.filterMap RenderCall.trace).head? = some e →
        operations fl e = operations fl events) ↔ SameOperations fl calls := by
  constructor
  · intro h a ha b hb
    cases hfirst : (calls.filterMap RenderCall.trace).head? with
    | none =>
      rw [List.head?_eq_none_iff.mp hfirst] at ha
      exact absurd ha List.not_mem_nil
    | some e =>
      have hop (x : List (Event Bytes)) (hx : x ∈ calls.filterMap RenderCall.trace) :
          operations fl e = operations fl x := by
        obtain ⟨call,hcall,htrace⟩ := List.mem_filterMap.mp hx
        exact h call hcall x htrace e hfirst
      exact (hop a ha).symm.trans (hop b hb)
  · intro h call hcall events htrace e he
    exact h e (List.mem_of_head? he) events (List.mem_filterMap.mpr ⟨call,hcall,htrace⟩)

theorem forall₂_drawsCurrent_iff (calls : List (RenderCall F)) {ws : List (GraphWidget F)}
    (h : ∀ᶠ fuel in Filter.atTop, GraphWidget.renders fl fuel calls GraphWidget.new = some ws) :
    List.Forall₂ (DrawsCurrent fl) calls ws ↔ SameOperations fl calls := by
  obtain ⟨ws',hcalls,hall⟩ := showsFirst_renders fl (w := GraphWidget.new) rfl calls
  obtain ⟨fuel,hfuel,hfuel'⟩ := (h.and hcalls).exists
  rw [hfuel,Option.some_inj] at hfuel'
  subst hfuel'
  rw [← sameOperations_iff]
  apply forall₂_iff_of_forall₂ hall
  intro call w hshows
  exact hshows.drawsCurrent_iff

/-- The calls return, and the nodes are those of the current trace after every call just when no
trace has other operations than another. -/
theorem drawsCurrent_renders_iff (calls : List (RenderCall F)) : ∃ ws,
    (∀ᶠ fuel in Filter.atTop, GraphWidget.renders fl fuel calls GraphWidget.new = some ws) ∧
      (List.Forall₂ (DrawsCurrent fl) calls ws ↔ SameOperations fl calls) := by
  obtain ⟨ws,hcalls,-⟩ := showsFirst_renders fl (w := GraphWidget.new) rfl calls
  exact ⟨ws,hcalls,forall₂_drawsCurrent_iff fl calls hcalls⟩

end Run

section Reload
attribute [local instance] mergeSorting

/-- The live reader before and after an operation was recorded. -/
def reloads : List (RenderCall ℚ) :=
  let event (type : EventType) : Event Bytes :=
    { type := type, timestampNs := 5, threadId := 1, label := none,
      data := ({ tensorPtr := 128, opType := 0, opSize := 4, backendPtr := 0 } : OpData).toData }
  let call (reader : TraceEvents) : RenderCall ℚ :=
    { traceReader := some reader
      config := { nodeWidth := 120, nodeHeight := 60, nodeSpacingX := 160, nodeSpacingY := 100,
                  autoLayout := true }
      autoLayoutPressed := false
      canvas := { visible := fun _ => true, hovered := fun _ => false, clicked := false } }
  [call { events := [event .graphComputeBegin], fits := by decide },
    call { events := [event .graphComputeBegin,event .opComputeBegin,event .opComputeEnd],
           fits := by decide }]

/-- The graph stays as empty as the first trace was. -/
theorem not_drawsCurrent_reloads : ¬∃ ws,
    (∀ᶠ fuel in Filter.atTop,
      GraphWidget.renders ratArith fuel reloads GraphWidget.new = some ws) ∧
        List.Forall₂ (DrawsCurrent ratArith) reloads ws := by
  rintro ⟨ws,hcalls,hdraws⟩
  rw [forall₂_drawsCurrent_iff ratArith reloads hcalls] at hdraws
  have hlen (events : List (Event Bytes)) : (operations ratArith events).length =
      (opSpans 0 (fun _ => none) events).length := by
    have hspans := (getOpTimings_span_perm events).length_eq
    rw [List.length_map] at hspans
    rw [operations,List.length_map,List.length_zipIdx,hspans]
  have hsame := congrArg List.length (hdraws _ List.mem_cons_self _ (.tail _ List.mem_cons_self))
  rw [hlen,hlen] at hsame
  exact absurd hsame (by decide)

end Reload
end GgmlViz
