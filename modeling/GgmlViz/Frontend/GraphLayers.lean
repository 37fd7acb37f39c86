import GgmlViz.Frontend.GraphNodes
import GgmlViz.Trace.OpMatching
import GgmlViz.Foundation.LongestPath
import Mathlib.Order.Filter.AtTopBot.Basic

/-! # The layers of the graph view

`auto_layout_nodes` finds the depth of every node with a queue, and puts the nodes of one
depth in one layer. The queue ends for every acyclic graph, and a layer is the length of a
longest path.
-/
namespace GgmlViz
open LittleEndian LongestPath
variable {F : Type} (nodes : List (GraphNode F))

/-- The traversal of `auto_layout_nodes`. -/
structure LayoutState (n : ℕ) where
  nodeDepths : Fin n → ℤ
  queue : List (Fin n)
  maxDepth : ℤ

/-- An `int` as a `size_t`. -/
def toSizeT (i : ℤ) : ℕ := (i % 2^64).toNat

/-- The body of the loop over the outputs. -/
def visitOutput (currentDepth : ℤ) (s : LayoutState nodes.length) (outputId : ℤ) :
    LayoutState nodes.length :=
  if h : toSizeT outputId < nodes.length then
    if s.nodeDepths ⟨toSizeT outputId,h⟩ < currentDepth + 1 then
      { s with
        nodeDepths := Function.update s.nodeDepths ⟨toSizeT outputId,h⟩ (currentDepth + 1)
        queue := s.queue ++ [⟨toSizeT outputId,h⟩] }
    else s
  else s

/-- The body of the `while` loop. -/
def layoutStep (current : Fin nodes.length) (rest : List (Fin nodes.length))
    (s : LayoutState nodes.length) : LayoutState nodes.length :=
  let currentDepth := s.nodeDepths current
  (nodes.get current).outputs.foldl (visitOutput nodes currentDepth)
    { s with queue := rest, maxDepth := max s.maxDepth currentDepth }

/-- The `while` loop, for so many passes. -/
def layoutLoop : ℕ → LayoutState nodes.length → Option (LayoutState nodes.length)
  | fuel, s =>
    match fuel, s.queue with
    | _, [] => some s
    | 0, _ :: _ => none
    | fuel + 1, current :: rest => layoutLoop fuel (layoutStep nodes current rest s)

/-- The nodes without inputs, or the first node if there are none. -/
def layoutRoots : List (Fin nodes.length) :=
  match (List.finRange nodes.length).filter (fun i => (nodes.get i).inputs.isEmpty) with
  | [] => if h : 0 < nodes.length then [⟨0,h⟩] else []
  | roots => roots

def layoutStart : LayoutState nodes.length where
  nodeDepths i := if i ∈ layoutRoots nodes then 0 else -1
  queue := layoutRoots nodes
  maxDepth := 0

section Layers
variable {n : ℕ} (s : LayoutState n)

/-- Disconnected nodes go to the first layer. -/
def layerIndex (i : Fin n) : ℕ := if 0 ≤ s.nodeDepths i then (s.nodeDepths i).toNat else 0

/-- `layers` -/
def groupLayers : List (List (Fin n)) :=
  (List.finRange n).foldl (fun layers i => layers.modify (layerIndex s i) (fun l => l ++ [i]))
    (List.replicate (s.maxDepth + 1).toNat [])

end Layers

section Positions
variable (fl : FloatArith F) (config : GraphConfig F)

/-- A layer is centred. -/
def positionLayer {n : ℕ} (nodes : List (GraphNode F)) (layer : List (Fin n) × ℕ) :
    List (GraphNode F) :=
  let y := fl.mul (fl.ofNat layer.2) config.nodeSpacingY
  let totalWidth := fl.mul (fl.ofNat ((layer.1.length + 2^64 - 1) % 2^64)) config.nodeSpacingX
  let startX := fl.mul (fl.neg totalWidth) (fl.div (fl.ofNat 1) (fl.ofNat 2))
  layer.1.zipIdx.foldl (fun nodes x => nodes.modify x.1.val (fun node =>
    { node with
      position := (fl.add startX (fl.mul (fl.ofNat x.2) config.nodeSpacingX),y)
      size := (config.nodeWidth,config.nodeHeight) })) nodes

/-- `auto_layout_nodes`, if its loop ends within so many passes. -/
def autoLayoutNodes (fuel : ℕ) : Option (List (GraphNode F)) :=
  if nodes = [] then some nodes
  else (layoutLoop nodes fuel (layoutStart nodes)).map (fun s =>
    (groupLayers s).zipIdx.foldl (positionLayer fl config) nodes)

end Positions

/-- An output of a node names this other node. -/
def Edge (i j : Fin nodes.length) : Prop := (j.val : ℤ) ∈ (nodes.get i).outputs

/-- The inputs and the outputs of the nodes name the same edges, and there is no cycle. -/
structure WellFormedGraph : Prop where
  /-- The number of nodes is a `size_t`. -/
  fits : nodes.length < 2^64
  nodeId : ∀ i : Fin nodes.length, (nodes.get i).nodeId = i.val
  outputs : ∀ i : Fin nodes.length, ∀ o ∈ (nodes.get i).outputs, ∃ j : Fin nodes.length, o = j.val
  inputs : ∀ i : Fin nodes.length, ∀ o ∈ (nodes.get i).inputs, ∃ j : Fin nodes.length, o = j.val
  sameEdges : ∀ i j : Fin nodes.length, Edge nodes i j ↔ (i.val : ℤ) ∈ (nodes.get j).inputs
  acyclic : Acyclic (Edge nodes)

/-- Every node is in one layer, its layer is the length of the longest path to it from a node
without inputs, and edges lead to later layers. -/
structure LayeredByPaths (layers : List (List (Fin nodes.length))) : Prop where
  once : ∀ i, layers.flatten.count i = 1
  longest : ∀ k layer, layers[k]? = some layer → ∀ i ∈ layer,
    IsGreatest {len | ∃ r, (nodes.get r).inputs = [] ∧ Path (Edge nodes) r i len} k
  later : ∀ i j, Edge nodes i j → ∀ (k l : ℕ) (layer layer' : List (Fin nodes.length)),
    layers[k]? = some layer → i ∈ layer → layers[l]? = some layer' → j ∈ layer' → k < l

section Traversal

/-- The traversal as the work list algorithm sees it. -/
def LayoutState.work {n : ℕ} (s : LayoutState n) : Work (Fin n) :=
  { depth := s.nodeDepths, queue := s.queue }

def outputIndex (outputId : ℤ) : Option (Fin nodes.length) :=
  if h : toSizeT outputId < nodes.length then some ⟨toSizeT outputId,h⟩ else none

/-- The outputs that name a node. -/
def successors (i : Fin nodes.length) : List (Fin nodes.length) :=
  (nodes.get i).outputs.filterMap (outputIndex nodes)

theorem visitOutput_work (d : ℤ) (s : LayoutState nodes.length) (o : ℤ) :
    (visitOutput nodes d s o).maxDepth = s.maxDepth ∧ (visitOutput nodes d s o).work =
      match outputIndex nodes o with
      | some w => relax d s.work w
      | none => s.work := by
  unfold visitOutput outputIndex
  split
  · next h =>
    by_cases hlow : s.nodeDepths ⟨toSizeT o,h⟩ < d + 1
    · simp [relax,LayoutState.work,hlow]
    · simp [relax,LayoutState.work,hlow]
  · exact ⟨rfl,rfl⟩

theorem foldl_visitOutput (d : ℤ) (os : List ℤ) (s : LayoutState nodes.length) :
    (os.foldl (visitOutput nodes d) s).maxDepth = s.maxDepth ∧
      (os.foldl (visitOutput nodes d) s).work =
        (os.filterMap (outputIndex nodes)).foldl (relax d) s.work := by
  induction os generalizing s with
  | nil => exact ⟨rfl,rfl⟩
  | cons o os ih =>
    obtain ⟨hmax,hwork⟩ := visitOutput_work nodes d s o
    obtain ⟨hmaxes,hworks⟩ := ih (visitOutput nodes d s o)
    rw [List.foldl_cons]
    refine ⟨hmaxes.trans hmax,?_⟩
    rw [hworks,hwork,List.filterMap_cons]
    cases outputIndex nodes o <;> rfl

theorem layoutStep_work (current : Fin nodes.length) (rest : List (Fin nodes.length))
    (s : LayoutState nodes.length) :
    (layoutStep nodes current rest s).maxDepth = max s.maxDepth (s.nodeDepths current) ∧
      (layoutStep nodes current rest s).work = visit (successors nodes) current rest s.work :=
  foldl_visitOutput nodes _ _ _

theorem layoutLoop_work (fuel : ℕ) (s : LayoutState nodes.length) :
    (layoutLoop nodes fuel s).map LayoutState.work = run (successors nodes) fuel s.work := by
  induction fuel generalizing s with
  | zero =>
    unfold layoutLoop run
    cases hqueue : s.queue with
    | nil => simp [LayoutState.work,hqueue]
    | cons current rest => simp [LayoutState.work,hqueue]
  | succ fuel ih =>
    unfold layoutLoop run
    cases hqueue : s.queue with
    | nil => simp [LayoutState.work,hqueue]
    | cons current rest =>
      have hwork : s.work.queue = current :: rest := hqueue
      rw [hwork]
      dsimp only
      rw [ih,(layoutStep_work nodes current rest s).2]

/-- A loop that ended had nothing to do, or ended after its next pass. -/
theorem layoutLoop_cases {fuel : ℕ} {s t : LayoutState nodes.length}
    (hloop : layoutLoop nodes fuel s = some t) : s.queue = [] ∧ t = s ∨
      ∃ current rest fuel', s.queue = current :: rest ∧ fuel = fuel' + 1 ∧
        layoutLoop nodes fuel' (layoutStep nodes current rest s) = some t := by
  unfold layoutLoop at hloop
  cases hqueue : s.queue with
  | nil =>
    rw [hqueue] at hloop
    exact Or.inl ⟨rfl,(Option.some.inj (by simpa using hloop)).symm⟩
  | cons current rest =>
    rw [hqueue] at hloop
    cases fuel with
    | zero => cases hloop
    | succ fuel => exact Or.inr ⟨current,rest,fuel,rfl,rfl,hloop⟩

theorem layoutLoop_nil {s : LayoutState nodes.length} (hqueue : s.queue = []) (fuel : ℕ) :
    layoutLoop nodes fuel s = some s := by
  unfold layoutLoop
  rw [hqueue]

theorem layoutLoop_succ {s : LayoutState nodes.length} {current : Fin nodes.length}
    {rest : List (Fin nodes.length)} (hqueue : s.queue = current :: rest) (fuel : ℕ) :
    layoutLoop nodes (fuel + 1) s = layoutLoop nodes fuel (layoutStep nodes current rest s) := by
  conv_lhs => unfold layoutLoop
  rw [hqueue]

theorem layoutLoop_mono {fuel fuel' : ℕ} (hle : fuel ≤ fuel') {s t : LayoutState nodes.length}
    (hloop : layoutLoop nodes fuel s = some t) : layoutLoop nodes fuel' s = some t := by
  induction fuel' generalizing fuel s with
  | zero => rwa [Nat.le_zero.mp hle] at hloop
  | succ fuel' ih =>
    rcases layoutLoop_cases nodes hloop with ⟨hqueue,rfl⟩ | ⟨current,rest,k,hqueue,rfl,hrest⟩
    · exact layoutLoop_nil nodes hqueue _
    · rw [layoutLoop_succ nodes hqueue]
      exact ih (Nat.le_of_succ_le_succ hle) hrest

/-- What was taken from the queue is not deeper than `max_depth`. -/
structure Capped {n : ℕ} (s : LayoutState n) : Prop where
  nonneg : 0 ≤ s.maxDepth
  cap : ∀ i, 0 ≤ s.nodeDepths i → i ∉ s.queue → s.nodeDepths i ≤ s.maxDepth

theorem capped_layoutStart : Capped (layoutStart nodes) where
  nonneg := le_refl _
  cap := by
    intro i hi hnot
    change 0 ≤ if i ∈ layoutRoots nodes then (0 : ℤ) else -1 at hi
    have hroot : i ∉ layoutRoots nodes := hnot
    rw [if_neg hroot] at hi
    omega

variable {nodes} in
theorem Capped.layoutStep {s : LayoutState nodes.length} (h : Capped s)
    {current : Fin nodes.length} {rest : List (Fin nodes.length)}
    (hqueue : s.queue = current :: rest) : Capped (layoutStep nodes current rest s) := by
  obtain ⟨hmax,hwork⟩ := layoutStep_work nodes current rest s
  have hraised := raised_visit (successors nodes) current rest s.work
  rw [← hwork] at hraised
  refine ⟨hmax ▸ h.nonneg.trans (le_max_left _ _),?_⟩
  intro i hi hnot
  rw [hmax]
  rcases hraised.cases i with hsame | ⟨-,-,hmem⟩
  · have hdepth : (GgmlViz.layoutStep nodes current rest s).nodeDepths i = s.nodeDepths i := hsame
    rw [hdepth] at hi ⊢
    by_cases hcurrent : i = current
    · rw [hcurrent]
      exact le_max_right _ _
    · have hold : i ∉ s.queue := by
        rw [hqueue]
        intro hmem
        rcases List.mem_cons.mp hmem with hmem | hmem
        · exact hcurrent hmem
        · exact hnot (hraised.kept i hmem)
      exact (h.cap i hi hold).trans (le_max_left _ _)
  · exact absurd hmem hnot

variable {nodes} in
theorem Capped.layoutLoop {fuel : ℕ} {s t : LayoutState nodes.length} (h : Capped s)
    (hloop : layoutLoop nodes fuel s = some t) : Capped t := by
  induction fuel generalizing s with
  | zero =>
    rcases layoutLoop_cases nodes hloop with ⟨-,rfl⟩ | ⟨current,rest,fuel,-,hfuel,-⟩
    · exact h
    · cases hfuel
  | succ fuel ih =>
    rcases layoutLoop_cases nodes hloop with ⟨-,rfl⟩ | ⟨current,rest,fuel',hqueue,⟨⟩,hrest⟩
    · exact h
    · exact ih (h.layoutStep hqueue) hrest

end Traversal

section Grouping
variable {n : ℕ} {s : LayoutState n}

theorem getElem?_foldl_modify (index : Fin n → ℕ) (is : List (Fin n)) (layers : List (List (Fin n)))
    (k : ℕ) : (is.foldl (fun layers i => layers.modify (index i) (fun l => l ++ [i])) layers)[k]? =
      (layers[k]?).map (fun l => l ++ is.filter (fun i => index i = k)) := by
  induction is generalizing layers with
  | nil => simp
  | cons i is ih =>
    rw [List.foldl_cons,ih,List.getElem?_modify]
    cases layers[k]? with
    | none => rfl
    | some l =>
      by_cases hi : index i = k
      · simp [hi]
      · simp [hi]

/-- A layer has the nodes of one depth. -/
theorem groupLayers_eq (s : LayoutState n) : groupLayers s =
    (List.range (s.maxDepth + 1).toNat).map (fun k =>
      (List.finRange n).filter (fun i => layerIndex s i = k)) := by
  apply List.ext_getElem?
  intro k
  rw [groupLayers,getElem?_foldl_modify,List.getElem?_map]
  by_cases hk : k < (s.maxDepth + 1).toNat
  · simp [hk]
  · simp [hk]

theorem mem_groupLayers {k : ℕ} {layer : List (Fin n)} (h : (groupLayers s)[k]? = some layer)
    (i : Fin n) : i ∈ layer ↔ layerIndex s i = k := by
  rw [groupLayers_eq,List.getElem?_map] at h
  obtain ⟨k',hk,rfl⟩ := Option.map_eq_some_iff.mp h
  obtain ⟨-,rfl⟩ := List.getElem?_eq_some_iff.mp hk
  simp

theorem count_groupLayers {i : Fin n} (h : layerIndex s i < (s.maxDepth + 1).toNat) :
    (groupLayers s).flatten.count i = 1 := by
  have hnodup : (groupLayers s).flatten.Nodup := by
    rw [groupLayers_eq,List.nodup_flatten]
    constructor
    · intro layer hlayer
      obtain ⟨k,-,rfl⟩ := List.mem_map.mp hlayer
      exact (List.nodup_finRange n).filter _
    · apply List.Pairwise.map _ _ List.nodup_range
      intro k l hkl i hik hil
      simp only [List.mem_filter,List.mem_finRange,decide_eq_true_eq,true_and] at hik hil
      exact hkl (hik.symm.trans hil)
  have hmem : i ∈ (groupLayers s).flatten := by
    rw [groupLayers_eq,List.mem_flatten]
    refine ⟨_,List.mem_map_of_mem (List.mem_range.mpr h),?_⟩
    simp
  exact List.count_eq_one_of_mem hnodup hmem

end Grouping

namespace WellFormedGraph
variable {nodes} (h : WellFormedGraph nodes)
include h

theorem outputIndex_natCast (j : Fin nodes.length) : outputIndex nodes (j.val : ℤ) = some j := by
  have hfits := h.fits
  have hj := j.isLt
  have hsize : toSizeT (j.val : ℤ) = j.val := by
    unfold toSizeT
    omega
  simp [outputIndex,hsize]

theorem mem_successors (i j : Fin nodes.length) : j ∈ successors nodes i ↔ Edge nodes i j := by
  unfold successors Edge
  rw [List.mem_filterMap]
  constructor
  · rintro ⟨o,ho,hj⟩
    obtain ⟨j',rfl⟩ := h.outputs i o ho
    rw [h.outputIndex_natCast] at hj
    cases hj
    exact ho
  · intro hj
    exact ⟨j.val,hj,h.outputIndex_natCast j⟩

theorem inputs_eq_nil_iff (i : Fin nodes.length) :
    (nodes.get i).inputs = [] ↔ IsSource (Edge nodes) i := by
  constructor
  · intro hnil j hedge
    have hmem := (h.sameEdges j i).mp hedge
    rw [hnil] at hmem
    exact absurd hmem List.not_mem_nil
  · intro hsource
    apply List.eq_nil_iff_forall_not_mem.mpr
    intro o ho
    obtain ⟨j,rfl⟩ := h.inputs i o ho
    exact hsource j ((h.sameEdges j i).mpr ho)

theorem mem_layoutRoots (i : Fin nodes.length) :
    i ∈ layoutRoots nodes ↔ IsSource (Edge nodes) i := by
  have hmem (j : Fin nodes.length) : j ∈ (List.finRange nodes.length).filter
      (fun i => (nodes.get i).inputs.isEmpty) ↔ IsSource (Edge nodes) j := by
    rw [← h.inputs_eq_nil_iff]
    simp
  obtain ⟨r,hr,-⟩ := exists_source h.acyclic i
  unfold layoutRoots
  split
  · next hnil =>
    have hroot := (hmem r).mpr hr
    rw [hnil] at hroot
    exact absurd hroot List.not_mem_nil
  · exact hmem i

theorem labelled_start : Labelled (Edge nodes) (layoutStart nodes).work := by
  have hdepth (i : Fin nodes.length) : (layoutStart nodes).work.depth i =
      if i ∈ layoutRoots nodes then 0 else -1 := rfl
  have hroot {i : Fin nodes.length} (hi : 0 ≤ (layoutStart nodes).work.depth i) :
      i ∈ layoutRoots nodes := by
    by_contra hnot
    rw [hdepth,if_neg hnot] at hi
    omega
  exact
    { sound := by
        intro i hi
        have hmem := hroot hi
        rw [hdepth,if_pos hmem]
        exact ⟨i,(h.mem_layoutRoots i).mp hmem,.nil i⟩
      sources := by
        intro i hi
        rw [hdepth,if_pos ((h.mem_layoutRoots i).mpr hi)]
      queued := by
        intro i hi
        have hmem : i ∈ layoutRoots nodes := hi
        rw [hdepth,if_pos hmem]
      closed := fun i hi hnot => absurd (hroot hi) hnot }

/-- With the queue empty, the layers are those of the longest paths. -/
theorem layered {s : LayoutState nodes.length} (hlabelled : Labelled (Edge nodes) s.work)
    (hqueue : s.queue = []) (hcapped : Capped s) : LayeredByPaths nodes (groupLayers s) := by
  have hdepth := hlabelled.isGreatest h.acyclic hqueue
  have hindex (i : Fin nodes.length) : layerIndex s i = (s.nodeDepths i).toNat := if_pos (hdepth i).1
  have hlongest (i : Fin nodes.length) :
      IsGreatest {len | ∃ r, (nodes.get r).inputs = [] ∧ Path (Edge nodes) r i len}
        (layerIndex s i) := by
    simp only [h.inputs_eq_nil_iff,hindex]
    exact (hdepth i).2
  exact
    { once := by
        intro i
        apply count_groupLayers
        have hcap := hcapped.cap i (hdepth i).1 (by simp [hqueue])
        have hnonneg : 0 ≤ s.nodeDepths i := (hdepth i).1
        rw [hindex]
        omega
      longest := by
        intro k layer hlayer i hi
        rw [← (mem_groupLayers hlayer i).mp hi]
        exact hlongest i
      later := by
        intro i j hedge k l layer layer' hlayer hi hlayer' hj
        rw [← (mem_groupLayers hlayer i).mp hi,← (mem_groupLayers hlayer' j).mp hj]
        obtain ⟨r,hr,hpath⟩ := (hlongest i).1
        exact (hlongest j).2 ⟨r,hr,hpath.snoc hedge⟩ }

/-- The traversal ends. -/
theorem layoutLoop_ends : ∃ s,
    (∀ᶠ fuel in Filter.atTop, layoutLoop nodes fuel (layoutStart nodes) = some s) ∧
      Labelled (Edge nodes) s.work ∧ s.queue = [] := by
  obtain ⟨t,hrun,hlabelled,hqueue⟩ := h.labelled_start.run h.acyclic h.mem_successors (le_refl _)
  rw [← layoutLoop_work] at hrun
  obtain ⟨s,hs,rfl⟩ := Option.map_eq_some_iff.mp hrun
  refine ⟨s,?_,hlabelled,hqueue⟩
  filter_upwards [Filter.eventually_ge_atTop (weight (layoutStart nodes).work)] with fuel hfuel
  exact layoutLoop_mono nodes hfuel hs

end WellFormedGraph

/-- With enough passes the traversal ends, with the nodes in layers by their longest paths. -/
theorem layoutLoop_layers (h : WellFormedGraph nodes) : ∃ s,
    (∀ᶠ fuel in Filter.atTop, layoutLoop nodes fuel (layoutStart nodes) = some s) ∧
      LayeredByPaths nodes (groupLayers s) := by
  obtain ⟨s,hloop,hlabelled,hqueue⟩ := h.layoutLoop_ends
  obtain ⟨fuel,hfuel⟩ := hloop.exists
  exact ⟨s,hloop,h.layered hlabelled hqueue ((capped_layoutStart nodes).layoutLoop hfuel)⟩

/-- The first node leads to the last one directly, and over the second one. -/
def shortcut : List (GraphNode ℕ) :=
  let node (i : ℤ) (inputs outputs : List ℤ) : GraphNode ℕ :=
    { nodeId := i, position := (0,0), size := (120,60), label := [], opType := [], durationMs := 1,
      inputs := inputs, outputs := outputs, color := 0, tensorPtr := 0, isSelected := false }
  [node 0 [] [2,1],node 1 [0] [2],node 2 [0,1] []]

theorem shortcut_wellFormed : WellFormedGraph shortcut where
  fits := by decide
  nodeId := by decide
  outputs := by decide
  inputs := by decide
  sameEdges := by
    unfold Edge
    decide
  acyclic := by
    apply acyclic_of_rank Fin.val
    unfold Edge
    decide

theorem layoutLoop_layers_shortcut : ∃ s,
    (∀ᶠ fuel in Filter.atTop, layoutLoop shortcut fuel (layoutStart shortcut) = some s) ∧
      LayeredByPaths shortcut (groupLayers s) :=
  layoutLoop_layers shortcut shortcut_wellFormed

/-- The last node is visited twice. -/
example : (layoutLoop shortcut 4 (layoutStart shortcut)).map
    (fun s => (groupLayers s).map (List.map Fin.val)) = some [[0],[1],[2]] ∧
    layoutLoop shortcut 3 (layoutStart shortcut) = none := by decide

section Chain
variable {F : Type} {nodes : List (GraphNode F)}

/-- A node of a chain of so many nodes. -/
structure ChainNode (n i : ℕ) (node : GraphNode F) : Prop where
  nodeId : node.nodeId = i
  inputs : node.inputs = if i = 0 then [] else [(i : ℤ) - 1]
  outputs : node.outputs = if i + 1 < n then [(i : ℤ) + 1] else []

def Chained (nodes : List (GraphNode F)) : Prop :=
  ∀ i node, nodes[i]? = some node → ChainNode nodes.length i node

theorem Chained.get (h : Chained nodes) (i : Fin nodes.length) :
    ChainNode nodes.length i (nodes.get i) :=
  h i _ (List.getElem?_eq_getElem i.isLt)

theorem Chained.edge_iff (h : Chained nodes) (i j : Fin nodes.length) :
    Edge nodes i j ↔ j.val = i.val + 1 := by
  have hj := j.isLt
  unfold Edge
  rw [(h.get i).outputs]
  split
  · rw [List.mem_singleton]
    omega
  · simp
    omega

/-- A chain is well formed. -/
theorem Chained.wellFormed (h : Chained nodes) (hfits : nodes.length < 2^64) :
    WellFormedGraph nodes where
  fits := hfits
  nodeId i := (h.get i).nodeId
  outputs := by
    intro i o ho
    rw [(h.get i).outputs] at ho
    split at ho
    · next hi => exact ⟨⟨i.val + 1,hi⟩,List.mem_singleton.mp ho⟩
    · simp at ho
  inputs := by
    intro i o ho
    have hi := i.isLt
    rw [(h.get i).inputs] at ho
    split at ho
    · simp at ho
    · next hzero =>
      refine ⟨⟨i.val - 1,by omega⟩,?_⟩
      have ho := List.mem_singleton.mp ho
      change o = ((i.val - 1 : ℕ) : ℤ)
      omega
  sameEdges := by
    intro i j
    rw [h.edge_iff,(h.get j).inputs]
    split
    · simp
      omega
    · rw [List.mem_singleton]
      omega
  acyclic := by
    apply acyclic_of_rank Fin.val
    intro i j hedge
    rw [h.edge_iff] at hedge
    omega

variable [StdSort] (fl : FloatArith F) (events : List (Event Bytes))

theorem length_getOpTimings_le : (getOpTimings events).length ≤ events.length := by
  rw [(perm_getOpTimings events).length_eq]
  calc
    ((List.range events.length).filterMap (timingAt events)).length
      ≤ (List.range events.length).length := List.length_filterMap_le _ _
    _ = events.length := List.length_range

theorem chained_buildGraphFromTrace : Chained (buildGraphFromTrace fl events) := by
  intro i node hnode
  rw [getElem?_buildGraphFromTrace] at hnode
  obtain ⟨t,-,rfl⟩ := Option.map_eq_some_iff.mp hnode
  rw [length_buildGraphFromTrace]
  exact
    { nodeId := rfl
      inputs := by
        change [] ++ Option.toList _ = _
        by_cases hzero : i = 0
        · simp [hzero]
        · simp [hzero]
      outputs := by
        change [] ++ Option.toList _ = _
        by_cases hlast : i + 1 < (getOpTimings events).length
        · simp [hlast]
        · simp [hlast] }

variable {events} in
theorem length_build_lt (h : events.length < 2^64) :
    (buildGraphFromTrace fl events).length < 2^64 := by
  rw [length_buildGraphFromTrace]
  exact (length_getOpTimings_le events).trans_lt h

/-- What `build_graph_from_trace` builds is well formed. -/
theorem wellFormed_buildGraphFromTrace (h : events.length < 2^64) :
    WellFormedGraph (buildGraphFromTrace fl events) :=
  (chained_buildGraphFromTrace fl events).wellFormed (length_build_lt fl h)

end Chain
end GgmlViz
