import GgmlViz.Trace.OpTimings
import GgmlViz.Config.Config
import GgmlViz.Foundation.JsonText
import Mathlib.Data.List.Infix
import Mathlib.Data.Rat.Defs

/-! # The nodes of the graph view

`build_graph_from_trace` makes a node of each operation and links them in a chain. The
arithmetic of `float` is a parameter.
-/
namespace GgmlViz
open LittleEndian JsonText

/-- What the widget uses of `float`. -/
structure FloatArith (F : Type) where
  /-- The conversion of an unsigned integer. -/
  ofNat : ℕ → F
  neg : F → F
  add : F → F → F
  mul : F → F → F
  div : F → F → F

/-- Exact arithmetic. -/
def ratArith : FloatArith ℚ where
  ofNat n := n
  neg x := -x
  add := (· + ·)
  mul := (· * ·)
  div := (· / ·)

structure GraphNode (F : Type) where
  nodeId : ℤ
  position : F × F
  size : F × F
  label : Bytes
  opType : Bytes
  durationMs : F
  inputs : List ℤ
  outputs : List ℤ
  color : UInt32
  tensorPtr : Ptr
  isSelected : Bool

/-- `GraphConfig`, as far as the layout depends on it. -/
structure GraphConfig (F : Type) where
  nodeWidth : F
  nodeHeight : F
  nodeSpacingX : F
  nodeSpacingY : F
  autoLayout : Bool

/-- `IM_COL32` -/
def imCol32 (r g b a : ℕ) : UInt32 := UInt32.ofNat (a * 2^24 + b * 2^16 + g * 2^8 + r)

def getOpColor (opType : Bytes) : UInt32 :=
  if opType = ascii "ADD" ∨ opType = ascii "SUB" then imCol32 100 200 100 255
  else if opType = ascii "MUL" ∨ opType = ascii "DIV" then imCol32 200 100 100 255
  else if opType = ascii "CONV" then imCol32 100 100 200 255
  else if opType = ascii "LINEAR" then imCol32 200 100 200 255
  else if opType = ascii "SOFTMAX" then imCol32 200 200 100 255
  else if opType = ascii "RELU" then imCol32 100 200 200 255
  else if opType = ascii "NORM" then imCol32 150 150 200 255
  else imCol32 120 120 120 255

/-- The words that are looked for in a label, in this order. -/
def opTypeWords : List (Bytes × Bytes) :=
  [(ascii "add",ascii "ADD"),(ascii "mul",ascii "MUL"),(ascii "conv",ascii "CONV"),
    (ascii "linear",ascii "LINEAR"),(ascii "softmax",ascii "SOFTMAX"),(ascii "relu",ascii "RELU"),
    (ascii "norm",ascii "NORM")]

def opTypeOfLabel (label : Bytes) : Bytes :=
  ((opTypeWords.find? (fun x => x.1 <:+: label)).map Prod.snd).getD (ascii "UNKNOWN")

/-- `std::to_string` -/
def toDecimal (n : ℕ) : Bytes := decimal n

section Build
variable {F : Type} (fl : FloatArith F) (events : List (Event Bytes))

/-- The event that a timing begins with. -/
def OpTiming.beginOp (t : OpTiming) : OpData :=
  ((events[t.beginAt]?).map (fun e => e.data.op)).getD
    { tensorPtr := 0, opType := 0, opSize := 0, backendPtr := 0 }

def nodeLabel (i : ℕ) (t : OpTiming) : Bytes :=
  if t.name = [] then ascii "op_" ++ toDecimal i else t.name

def nodeOpType (i : ℕ) (t : OpTiming) : Bytes :=
  let op := (t.beginOp events).opType
  if op ≠ 0 then ascii "op_" ++ toDecimal op.toNat else opTypeOfLabel (nodeLabel i t)

/-- `duration_ns / 1e6f` -/
def nodeDurationMs (t : OpTiming) : F := fl.div (fl.ofNat t.durationNs.toNat) (fl.ofNat 1000000)

/-- A node before it is linked. -/
def nodeOfTiming (i : ℕ) (t : OpTiming) : GraphNode F where
  nodeId := i
  position := (fl.ofNat 0,fl.ofNat 0)
  size := (fl.ofNat 120,fl.ofNat 60)
  label := nodeLabel i t
  opType := nodeOpType events i t
  durationMs := nodeDurationMs fl t
  inputs := []
  outputs := []
  color := getOpColor (nodeOpType events i t)
  tensorPtr := (t.beginOp events).tensorPtr
  isSelected := false

/-- Links a node, and those after it, with their predecessors. -/
def linkFrom (a : GraphNode F) : List (GraphNode F) → List (GraphNode F)
  | [] => [a]
  | b :: rest =>
    { a with outputs := a.outputs ++ [b.nodeId] } ::
      linkFrom { b with inputs := b.inputs ++ [a.nodeId] } rest

def linkNodes : List (GraphNode F) → List (GraphNode F)
  | [] => []
  | a :: rest => linkFrom a rest

def buildGraphFromTrace [StdSort] : List (GraphNode F) :=
  linkNodes ((getOpTimings events).zipIdx.map (fun x => nodeOfTiming fl events x.2 x.1))

end Build

section Links
variable {F : Type}

/-- A node with a link from its predecessor and a link to its successor, if there are any. -/
def GraphNode.linked (before after : Option ℤ) (a : GraphNode F) : GraphNode F :=
  { a with inputs := a.inputs ++ before.toList, outputs := a.outputs ++ after.toList }

theorem length_linkFrom (a : GraphNode F) (rest : List (GraphNode F)) :
    (linkFrom a rest).length = rest.length + 1 := by
  induction rest generalizing a with
  | nil => rfl
  | cons b rest ih => rw [linkFrom,List.length_cons,ih,List.length_cons]

theorem getElem?_linkFrom (before : Option ℤ) (a : GraphNode F) (rest : List (GraphNode F)) (i : ℕ) :
    (linkFrom { a with inputs := a.inputs ++ before.toList } rest)[i]? =
      ((a :: rest)[i]?).map (GraphNode.linked
        (if i = 0 then before else ((a :: rest)[i - 1]?).map GraphNode.nodeId)
        (((a :: rest)[i + 1]?).map GraphNode.nodeId)) := by
  induction rest generalizing before a i with
  | nil =>
    cases i with
    | zero => simp [linkFrom,GraphNode.linked]
    | succ i => simp [linkFrom]
  | cons b rest ih =>
    cases i with
    | zero => simp [linkFrom,GraphNode.linked]
    | succ i =>
      have hrest := ih (some a.nodeId) b i
      rw [linkFrom,List.getElem?_cons_succ]
      refine hrest.trans ?_
      cases i with
      | zero => simp
      | succ i => simp

theorem getElem?_linkNodes (nodes : List (GraphNode F)) (i : ℕ) : (linkNodes nodes)[i]? =
    (nodes[i]?).map (GraphNode.linked
      (if i = 0 then none else (nodes[i - 1]?).map GraphNode.nodeId)
      ((nodes[i + 1]?).map GraphNode.nodeId)) := by
  cases nodes with
  | nil => rfl
  | cons a rest =>
    have hfrom := getElem?_linkFrom none a rest i
    rw [Option.toList_none,List.append_nil] at hfrom
    exact hfrom

variable (fl : FloatArith F) (events : List (Event Bytes))

/-- The nodes are the operations in their order, and each is linked to the next. -/
theorem getElem?_buildGraphFromTrace [StdSort] (i : ℕ) : (buildGraphFromTrace fl events)[i]? =
    ((getOpTimings events)[i]?).map (fun t => (nodeOfTiming fl events i t).linked
      (if i = 0 then none else some ((i : ℤ) - 1))
      (if i + 1 < (getOpTimings events).length then some ((i : ℤ) + 1) else none)) := by
  let timings := getOpTimings events
  let nodes := timings.zipIdx.map (fun x => nodeOfTiming fl events x.2 x.1)
  have hnodes (j : ℕ) : nodes[j]? = (timings[j]?).map (nodeOfTiming fl events j) := by
    rw [List.getElem?_map,List.getElem?_zipIdx,Option.map_map,Nat.zero_add]
    rfl
  have hids (j : ℕ) : (nodes[j]?).map GraphNode.nodeId =
      if j < timings.length then some (j : ℤ) else none := by
    rw [hnodes,Option.map_map]
    by_cases hj : j < timings.length
    · rw [List.getElem?_eq_getElem hj,if_pos hj]
      rfl
    · rw [List.getElem?_eq_none (Nat.not_lt.mp hj),if_neg hj]
      rfl
  change (linkNodes nodes)[i]? = (timings[i]?).map _
  rw [getElem?_linkNodes,hids,hids,hnodes,Option.map_map]
  by_cases hi : i < timings.length
  · have hbefore : (if i = 0 then none else if i - 1 < timings.length then some ((i - 1 : ℕ) : ℤ)
        else none) = if i = 0 then none else some ((i : ℤ) - 1) := by
      by_cases hzero : i = 0
      · rw [if_pos hzero,if_pos hzero]
      · rw [if_neg hzero,if_neg hzero,if_pos (by omega),Nat.cast_sub (by omega)]
        rfl
    rw [hbefore,Nat.cast_add]
    rfl
  · rw [List.getElem?_eq_none (Nat.not_lt.mp hi)]
    rfl

theorem length_buildGraphFromTrace [StdSort] :
    (buildGraphFromTrace fl events).length = (getOpTimings events).length := by
  unfold buildGraphFromTrace linkNodes
  cases hnodes : (getOpTimings events).zipIdx.map (fun x => nodeOfTiming fl events x.2 x.1) with
  | nil =>
    have hlen := congrArg List.length hnodes
    rw [List.length_map,List.length_zipIdx] at hlen
    exact hlen.symm
  | cons a rest =>
    have hlen := congrArg List.length hnodes
    rw [List.length_map,List.length_zipIdx,List.length_cons] at hlen
    exact (length_linkFrom a rest).trans hlen.symm

end Links
end GgmlViz
