import GgmlViz.Foundation.StdSort
import GgmlViz.Trace.Format
import Mathlib.Logic.Function.Basic

/-! # Matching the begin and the end of operations

`get_op_timings` walks over the loaded events with a map of pending operations. A timing
points at two events; here the pointers are positions in the list of events.
-/
namespace GgmlViz
open LittleEndian
variable {L : Type}

/-- `OpTiming`: the positions of its two events, its duration and its name. -/
structure OpTiming where
  beginAt : ℕ
  endAt : ℕ
  durationNs : UInt64
  name : Bytes
  deriving DecidableEq

/-- `pending_ops`: the position and the event of an operation that has begun. -/
abbrev Pending (L : Type) := Ptr → Option (ℕ × Event L)

/-- `"unnamed"`. -/
def unnamed : Bytes := [0x75,0x6E,0x6E,0x61,0x6D,0x65,0x64]

/-- The loop of `get_op_timings`, from a position on. -/
def opTimingLoop : ℕ → Pending Bytes → List (Event Bytes) → List OpTiming
  | _, _, [] => []
  | i, pending, e :: es =>
    let ptr := e.data.op.tensorPtr
    if e.type = .opComputeBegin then
      opTimingLoop (i + 1) (Function.update pending ptr (some (i,e))) es
    else if e.type = .opComputeEnd then
      match pending ptr with
      | some (b,e0) =>
        { beginAt := b, endAt := i, durationNs := e.timestampNs - e0.timestampNs,
          name := (e.label.map cString).getD unnamed } ::
          opTimingLoop (i + 1) (Function.update pending ptr none) es
      | none => opTimingLoop (i + 1) pending es
    else opTimingLoop (i + 1) pending es

def OpTiming.isLonger (a b : OpTiming) : Bool := decide (a.durationNs > b.durationNs)

/-- `get_op_timings`: longest first. -/
def getOpTimings [StdSort] (events : List (Event Bytes)) : List OpTiming :=
  StdSort.sort OpTiming.isLonger (opTimingLoop 0 (fun _ => none) events)

/-- The positions that the loop pairs up; they depend on types and tensors only. -/
def opSpans : ℕ → (Ptr → Option ℕ) → List (Event L) → List (ℕ × ℕ)
  | _, _, [] => []
  | i, pending, e :: es =>
    let ptr := e.data.op.tensorPtr
    if e.type = .opComputeBegin then opSpans (i + 1) (Function.update pending ptr (some i)) es
    else if e.type = .opComputeEnd then
      match pending ptr with
      | some b => (b,i) :: opSpans (i + 1) (Function.update pending ptr none) es
      | none => opSpans (i + 1) pending es
    else opSpans (i + 1) pending es

def OpTiming.span (t : OpTiming) : ℕ × ℕ := (t.beginAt,t.endAt)

theorem map_span_opTimingLoop (i : ℕ) (pending : Pending Bytes) (es : List (Event Bytes)) :
    (opTimingLoop i pending es).map OpTiming.span =
      opSpans i (fun p => (pending p).map Prod.fst) es := by
  induction es generalizing i pending with
  | nil => rfl
  | cons e es ih =>
    have hupdate (v : Option (ℕ × Event Bytes)) :
        (fun p => ((Function.update pending e.data.op.tensorPtr v) p).map Prod.fst) =
          Function.update (fun p => (pending p).map Prod.fst) e.data.op.tensorPtr (v.map Prod.fst) := by
      funext p
      by_cases hp : p = e.data.op.tensorPtr
      · subst hp
        simp
      · simp [Function.update_of_ne hp]
    simp only [opTimingLoop,opSpans]
    split
    · rw [ih,hupdate]
      rfl
    · split
      · cases hpend : pending e.data.op.tensorPtr with
        | none => simpa [hpend] using ih (i + 1) pending
        | some b =>
          simp only [Option.map_some,List.map_cons]
          rw [ih,hupdate]
          rfl
      · exact ih _ _

theorem getOpTimings_span_perm [StdSort] (events : List (Event Bytes)) :
    ((getOpTimings events).map OpTiming.span).Perm (opSpans 0 (fun _ => none) events) := by
  have hloop := map_span_opTimingLoop 0 (fun _ => none) events
  simp only [Option.map_none] at hloop
  rw [← hloop]
  exact (StdSort.perm _ _).map _

section Segments
variable {i k : ℕ} {pending : Ptr → Option ℕ} {es rest : List (Event L)}

/-- The tensors of a list of events. -/
def tensors (es : List (Event L)) : List Ptr := es.map (fun e => e.data.op.tensorPtr)

/-- What is pending after begin events from a position on. -/
def pendAll : ℕ → List Ptr → (Ptr → Option ℕ) → Ptr → Option ℕ
  | _, [], pending => pending
  | i, p :: ps, pending => pendAll (i + 1) ps (Function.update pending p (some i))

theorem pendAll_of_notMem {ps : List Ptr} {p : Ptr} (h : p ∉ ps) :
    pendAll i ps pending p = pending p := by
  induction ps generalizing i pending with
  | nil => rfl
  | cons q ps ih =>
    rw [List.mem_cons,not_or] at h
    rw [pendAll,ih h.2,Function.update_of_ne h.1]

theorem pendAll_getElem {ps : List Ptr} (hnd : ps.Nodup) {j : ℕ} (hj : j < ps.length) :
    pendAll i ps pending ps[j] = some (i + j) := by
  induction ps generalizing i j pending with
  | nil => simp at hj
  | cons q ps ih =>
    obtain ⟨hq,hnd⟩ := List.nodup_cons.mp hnd
    cases j with
    | zero => simp [pendAll,pendAll_of_notMem hq]
    | succ j =>
      have hj : j < ps.length := by simpa using hj
      have h : pendAll (i + 1) ps (Function.update pending q (some i)) ps[j] = some (i + 1 + j) :=
        ih hnd hj
      rw [pendAll,List.getElem_cons_succ,h]
      congr 1
      omega

theorem opSpans_begins (h : ∀ e ∈ es, e.type = .opComputeBegin) :
    opSpans i pending (es ++ rest) =
      opSpans (i + es.length) (pendAll i (tensors es) pending) rest := by
  induction es generalizing i pending with
  | nil => rfl
  | cons e es ih =>
    have hnext (pending' : Ptr → Option ℕ) : opSpans (i + 1) pending' (es ++ rest) =
        opSpans (i + 1 + es.length) (pendAll (i + 1) (tensors es) pending') rest :=
      ih (fun x hx => h x (List.mem_cons_of_mem _ hx))
    simp only [List.cons_append,opSpans,h e List.mem_cons_self,↓reduceIte,hnext,tensors,
      List.map_cons,pendAll,List.length_cons]
    congr 1
    omega

theorem opSpans_ends (h : ∀ e ∈ es, e.type = .opComputeEnd) (hnd : (tensors es).Nodup)
    (hpend : ∀ j (hj : j < (tensors es).length), pending (tensors es)[j] = some (i + j)) :
    opSpans k pending (es ++ rest) =
      (List.range es.length).map (fun j => (i + j,k + j)) ++
        opSpans (k + es.length) (fun p => if p ∈ tensors es then none else pending p) rest := by
  induction es generalizing i k pending with
  | nil => simp [tensors]
  | cons e es ih =>
    obtain ⟨hfresh,hnd'⟩ := List.nodup_cons.mp hnd
    have hfirst : pending e.data.op.tensorPtr = some i := hpend 0 (by simp [tensors])
    have hend : e.type = .opComputeEnd := h e List.mem_cons_self
    have hpend' : ∀ j (hj : j < (tensors es).length),
        Function.update pending e.data.op.tensorPtr none (tensors es)[j] = some (i + 1 + j) := by
      intro j hj
      have hneq : (tensors es)[j] ≠ e.data.op.tensorPtr := by
        intro heq
        have hmem : e.data.op.tensorPtr ∈ tensors es := by
          rw [← heq]
          exact List.getElem_mem hj
        exact hfresh hmem
      rw [Function.update_of_ne hneq]
      have hp := hpend (j + 1) (by simpa [tensors] using hj)
      simp only [tensors,List.map_cons,List.getElem_cons_succ] at hp
      rw [show i + 1 + j = i + (j + 1) by omega]
      exact hp
    have hnext := ih (k := k + 1) (fun x hx => h x (List.mem_cons_of_mem _ hx)) hnd' hpend'
    have hempty : (fun p => if p ∈ tensors es then none
        else Function.update pending e.data.op.tensorPtr none p) =
        (fun p => if p ∈ tensors (e :: es) then none else pending p) := by
      funext p
      by_cases hp : p = e.data.op.tensorPtr
      · subst hp
        simp [tensors]
      · simp [tensors,hp]
    have hshift : (List.range es.length).map (fun j => (i + 1 + j,k + 1 + j)) =
        (List.range es.length).map ((fun j => (i + j,k + j)) ∘ Nat.succ) := by
      apply List.map_congr_left
      intro j _
      simp only [Function.comp,Nat.succ_eq_add_one,Prod.mk.injEq]
      omega
    have hlen : k + 1 + es.length = k + (e :: es).length := by simp; omega
    simp only [List.cons_append,opSpans,hend,↓reduceIte,hfirst,hnext,hempty,hlen,hshift]
    rw [List.length_cons,List.range_succ_eq_map,List.map_cons,List.map_map]
    rfl

/-- Begin and end events of the same distinct tensors are paired up and leave nothing
pending. -/
theorem opSpans_segment {begins ends : List (Event L)}
    (hb : ∀ e ∈ begins, e.type = .opComputeBegin) (he : ∀ e ∈ ends, e.type = .opComputeEnd)
    (hsame : tensors begins = tensors ends) (hnd : (tensors begins).Nodup) :
    opSpans i (fun _ => none) (begins ++ (ends ++ rest)) =
      (List.range begins.length).map (fun j => (i + j,i + begins.length + j)) ++
        opSpans (i + begins.length + begins.length) (fun _ => none) rest := by
  have hlen : begins.length = ends.length := by
    have h := congrArg List.length hsame
    simpa [tensors] using h
  rw [opSpans_begins hb,opSpans_ends (i := i) he (hsame ▸ hnd)]
  · have hdone : (fun p => if p ∈ tensors ends then none
        else pendAll i (tensors begins) (fun _ => none) p) = fun _ => (none : Option ℕ) := by
      funext p
      split
      · rfl
      · next hp =>
        rw [← hsame] at hp
        rw [pendAll_of_notMem hp]
    rw [hdone,hlen]
  · intro j hj
    have hj' : j < (tensors begins).length := by rwa [hsame]
    have h : pendAll i (tensors begins) (fun _ => none) (tensors begins)[j] = some (i + j) :=
      pendAll_getElem hnd hj'
    simpa only [hsame] using h

theorem opSpans_other {e : Event L} (hb : e.type ≠ .opComputeBegin) (he : e.type ≠ .opComputeEnd) :
    opSpans i pending (e :: rest) = opSpans (i + 1) pending rest := by
  simp [opSpans,hb,he]

end Segments

/-- The event without its label. -/
def Event.bare (e : Event L) : Event Empty :=
  { type := e.type, timestampNs := e.timestampNs, threadId := e.threadId, data := e.data,
    label := none }

theorem opSpans_bare (i : ℕ) (pending : Ptr → Option ℕ) (es : List (Event L)) :
    opSpans i pending (es.map Event.bare) = opSpans i pending es := by
  induction es generalizing i pending with
  | nil => rfl
  | cons e es ih => simp only [List.map_cons,opSpans,Event.bare,ih]

end GgmlViz
