import GgmlViz.Hook.Progress

/-! # What a call records

Every callback offers at most one event. Which of the offers of a call are stored follows
from the counters with which the call begins.
-/
namespace GgmlViz
open LittleEndian

section Offers
variable (cfg : Config)

namespace HookStep

/-- The event that a callback offers to an active hook. -/
def event : HookStep → Option (Event Ptr)
  | .onGraphComputeBegin m graph backend nThreads =>
    if cfg.instrumentation.enableOpTiming then
      some (graphEvent .graphComputeBegin m graph backend nThreads)
    else none
  | .onGraphComputeEnd m graph backend nThreads =>
    if cfg.instrumentation.enableOpTiming then
      some (graphEvent .graphComputeEnd m graph backend nThreads)
    else none
  | .onOpComputeBegin m tensor backend =>
    if cfg.instrumentation.enableOpTiming ∧ tensor ≠ 0 ∧ opPasses cfg (m.heap tensor).op then
      some (opEvent cfg .opComputeBegin m tensor backend)
    else none
  | .onOpComputeEnd m tensor backend =>
    if cfg.instrumentation.enableOpTiming ∧ tensor ≠ 0 ∧ opPasses cfg (m.heap tensor).op then
      some (opEvent cfg .opComputeEnd m tensor backend)
    else none
  | .onTensorAlloc m tensor size =>
    if cfg.instrumentation.enableMemoryTracking ∧ tensor ≠ 0 then
      some (tensorAllocEvent cfg m tensor size)
    else none

def isGraphEnd : HookStep → Bool
  | .onGraphComputeEnd .. => true
  | _ => false

def moment : HookStep → Moment
  | .onGraphComputeBegin m .. | .onGraphComputeEnd m .. | .onOpComputeBegin m ..
  | .onOpComputeEnd m .. | .onTensorAlloc m .. => m

/-- The events offered by callbacks, and which of them end a graph. -/
def offers (steps : List HookStep) : List (Event Ptr × Bool) :=
  steps.filterMap (fun step => (step.event cfg).map (fun e => (e,step.isGraphEnd)))

/-- The events that callbacks record, one after the other. -/
def recordedAll : List HookStep → HookState Ptr → List (Event Ptr)
  | [], _ => []
  | step :: steps, s => s.storedSince (step.run cfg s) ++ recordedAll steps (step.run cfg s)

end HookStep

/-- The events that a call of an override records. -/
def Override.recorded (o : Override) (opens outputSet : Bool) (s : HookState Ptr) :
    List (Event Ptr) :=
  let s := if o.starts outputSet s then s.start cfg opens else s
  let t := o.beforeOriginal cfg s
  (if s.active then HookStep.recordedAll cfg o.before s else []) ++
    (if t.active then HookStep.recordedAll cfg o.after t else [])

namespace Progress
variable {α : Type}

def offer (graphEnd : Bool) (p : Option Progress) : Option Progress :=
  p.bind (fun p => if graphEnd then p.recordGraphEnd cfg else p.record cfg)

/-- What is stored of the offers. -/
def kept : Option Progress → List (α × Bool) → List α
  | _, [] => []
  | p, o :: os => (if p.any (takes cfg) then [o.1] else []) ++ kept (offer cfg o.2 p) os

def after : Option Progress → List (α × Bool) → Option Progress
  | p, [] => p
  | p, o :: os => after (offer cfg o.2 p) os

end Progress
end Offers

section Recorded
variable {cfg : Config} {s : HookState Ptr}

namespace HookStep

/-- A callback records its event; at the end of a graph an active hook flushes. -/
theorem run_eq (step : HookStep) (s : HookState Ptr) :
    step.run cfg s =
      match step.event cfg with
      | none => s
      | some e =>
        if step.isGraphEnd && s.active then
          (s.recordEvent step.moment.text cfg e).graphEndFlush step.moment.text cfg
        else s.recordEvent step.moment.text cfg e := by
  cases hs : s.active with
  | false =>
    have hrun : step.run cfg s = s := by
      cases step <;>
        simp [run,HookState.onGraphComputeBegin,HookState.onGraphComputeEnd,
          HookState.onOpComputeBegin,HookState.onOpComputeEnd,HookState.onOpCompute,
          HookState.onTensorAlloc,hs]
    rw [hrun]
    cases step.event cfg with
    | none => rfl
    | some e => simp [HookState.recordEvent_inactive hs]
  | true =>
    cases step with
    | onGraphComputeBegin m graph backend nThreads =>
      cases ht : cfg.instrumentation.enableOpTiming <;>
        simp [run,event,isGraphEnd,moment,HookState.onGraphComputeBegin,hs,ht]
    | onGraphComputeEnd m graph backend nThreads =>
      cases ht : cfg.instrumentation.enableOpTiming <;>
        simp [run,event,isGraphEnd,moment,HookState.onGraphComputeEnd,hs,ht]
    | onOpComputeBegin m tensor backend | onOpComputeEnd m tensor backend =>
      cases ht : cfg.instrumentation.enableOpTiming with
      | true =>
        simp only [run,event,isGraphEnd,moment,HookState.onOpComputeBegin,
          HookState.onOpComputeEnd,onOpCompute_eq ht,ht,true_and,Bool.false_and]
        split <;> rfl
      | false =>
        simp [run,event,HookState.onOpComputeBegin,HookState.onOpComputeEnd,
          onOpCompute_disabled ht,ht]
    | onTensorAlloc m tensor size =>
      cases ht : cfg.instrumentation.enableMemoryTracking <;> by_cases hp : tensor = 0 <;>
        simp [run,event,isGraphEnd,moment,HookState.onTensorAlloc,hs,ht,hp]

theorem progress_run (step : HookStep) (s : HookState Ptr) :
    (step.run cfg s).progress cfg =
      match step.event cfg with
      | none => s.progress cfg
      | some _ => Progress.offer cfg step.isGraphEnd (s.progress cfg) := by
  rw [run_eq]
  cases step.event cfg with
  | none => rfl
  | some e =>
    dsimp only
    cases hend : step.isGraphEnd with
    | false =>
      rw [Bool.false_and,if_neg Bool.false_ne_true,HookState.progress_recordEvent]
      rfl
    | true =>
      cases hs : s.active with
      | false => simp [HookState.recordEvent_inactive hs,HookState.progress_inactive hs,
          Progress.offer]
      | true =>
        rw [Bool.and_self,if_pos rfl,HookState.progress_graphEndFlush,
          HookState.progress_recordEvent,Option.map_bind]
        rfl

theorem storedSince_run (step : HookStep) (s : HookState Ptr) :
    s.storedSince (step.run cfg s) =
      match step.event cfg with
      | none => []
      | some e => if (s.progress cfg).any (Progress.takes cfg) then [e] else [] := by
  rw [run_eq]
  cases step.event cfg with
  | none => simp [HookState.storedSince]
  | some e =>
    dsimp only
    split
    · rw [HookState.storedSince_graphEndFlush,HookState.storedSince_recordEvent]
    · rw [HookState.storedSince_recordEvent]

theorem offers_cons (step : HookStep) (steps : List HookStep) :
    offers cfg (step :: steps) =
      match step.event cfg with
      | none => offers cfg steps
      | some e => (e,step.isGraphEnd) :: offers cfg steps := by
  rw [offers,List.filterMap_cons]
  cases step.event cfg <;> rfl

theorem offers_append (steps more : List HookStep) :
    offers cfg (steps ++ more) = offers cfg steps ++ offers cfg more :=
  List.filterMap_append

theorem progress_runAll (steps : List HookStep) (s : HookState Ptr) :
    (runAll cfg steps s).progress cfg = Progress.after cfg (s.progress cfg) (offers cfg steps) := by
  induction steps generalizing s with
  | nil => rfl
  | cons step steps ih =>
    have hnext := ih (step.run cfg s)
    rw [progress_run] at hnext
    rw [runAll,List.foldl_cons,← runAll,hnext,offers_cons]
    cases step.event cfg with
    | none => rfl
    | some e => rfl

theorem recordedAll_eq (steps : List HookStep) (s : HookState Ptr) :
    recordedAll cfg steps s = Progress.kept cfg (s.progress cfg) (offers cfg steps) := by
  induction steps generalizing s with
  | nil => rfl
  | cons step steps ih =>
    rw [recordedAll,ih,progress_run,storedSince_run,offers_cons]
    cases step.event cfg with
    | none => rfl
    | some e => rfl

end HookStep

namespace Progress
variable {α : Type} {p : Option Progress}

theorem kept_append (os more : List (α × Bool)) (p : Option Progress) :
    kept cfg p (os ++ more) = kept cfg p os ++ kept cfg (after cfg p os) more := by
  induction os generalizing p with
  | nil => rfl
  | cons o os ih => rw [List.cons_append,kept,kept,after,ih,List.append_assoc]

theorem after_append (os more : List (α × Bool)) (p : Option Progress) :
    after cfg p (os ++ more) = after cfg (after cfg p os) more := by
  induction os generalizing p with
  | nil => rfl
  | cons o os ih => rw [List.cons_append,after,after,ih]

theorem kept_none (os : List (α × Bool)) : kept cfg none os = [] := by
  induction os with
  | nil => rfl
  | cons o os ih => simpa [kept,offer] using ih

theorem after_none (os : List (α × Bool)) : after cfg none os = none := by
  induction os with
  | nil => rfl
  | cons o os ih => simpa [after,offer] using ih

end Progress

namespace Override
variable (cfg) (o : Override) (opens outputSet : Bool)

/-- The counters with which the callbacks of a call begin. -/
def entered : Option Progress → Option Progress
  | some p => some p
  | none => if o.autoStarts && outputSet then Progress.started cfg opens else none

def steps : List HookStep := o.before ++ o.after

variable {cfg} {o} {opens outputSet}

theorem progress_starts (s : HookState Ptr) :
    (if o.starts outputSet s then s.start cfg opens else s).progress cfg =
      o.entered cfg opens outputSet (s.progress cfg) := by
  cases hs : s.active with
  | true => simp [starts,entered,HookState.progress,hs]
  | false =>
    rw [HookState.progress_inactive hs,entered]
    split
    · next hstarts =>
      rw [HookState.progress_start hs,if_pos (by simpa [starts,hs] using hstarts)]
    · next hstarts =>
      rw [HookState.progress_inactive hs,if_neg (by simpa [starts,hs] using hstarts)]

theorem progress_guarded (steps : List HookStep) (s : HookState Ptr) :
    (if s.active then HookStep.runAll cfg steps s else s).progress cfg =
      Progress.after cfg (s.progress cfg) (HookStep.offers cfg steps) := by
  cases hs : s.active with
  | true => exact HookStep.progress_runAll steps s
  | false => rw [if_neg Bool.false_ne_true,HookState.progress_inactive hs,Progress.after_none]

theorem recordedAll_guarded (steps : List HookStep) (s : HookState Ptr) :
    (if s.active then HookStep.recordedAll cfg steps s else []) =
      Progress.kept cfg (s.progress cfg) (HookStep.offers cfg steps) := by
  cases hs : s.active with
  | true => exact HookStep.recordedAll_eq steps s
  | false => rw [if_neg Bool.false_ne_true,HookState.progress_inactive hs,Progress.kept_none]

theorem progress_run (s : HookState Ptr) :
    (o.run cfg opens outputSet s).progress cfg =
      Progress.after cfg (o.entered cfg opens outputSet (s.progress cfg))
        (HookStep.offers cfg o.steps) := by
  rw [run,afterOriginal,progress_guarded,beforeOriginal,progress_guarded,progress_starts,steps,
    HookStep.offers_append,Progress.after_append]

/-- What a call records is decided by its offers and the counters. -/
theorem recorded_eq (s : HookState Ptr) :
    o.recorded cfg opens outputSet s =
      Progress.kept cfg (o.entered cfg opens outputSet (s.progress cfg))
        (HookStep.offers cfg o.steps) := by
  rw [recorded,recordedAll_guarded,recordedAll_guarded,beforeOriginal,progress_guarded,
    progress_starts,steps,HookStep.offers_append,Progress.kept_append]

end Override
end Recorded
end GgmlViz
