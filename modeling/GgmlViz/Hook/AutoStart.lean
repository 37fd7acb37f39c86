import GgmlViz.Hook.Offers

/-! # The event limit and the automatic start

At the limit the hook stops by itself. A later override finds it inactive and starts it
again when `GGML_VIZ_OUTPUT` is set, which opens the same file for writing from scratch.
-/
namespace GgmlViz
open LittleEndian
variable {s : HookState Ptr}

/-- The trace file as a whole, before it exists empty. -/
def HookState.traceFile (cfg : Config) (s : HookState Ptr) : Bytes :=
  (s.files cfg.output.filename).getD []

/-- A process that was started with `GGML_VIZ_OUTPUT` set, after these calls. -/
def processAfter (cfg : Config) (files : Bytes → Option Bytes) (calls : List ComputeCall) :
    HookState Ptr :=
  runCalls cfg true calls ((HookState.initial files).start cfg true)

/-- Exit keeps the first `max_events` events offered, and nothing that was in the file is
gone after an override has started the hook or returned. -/
structure TraceSurvives (cfg : Config) (files : Bytes → Option Bytes) (calls : List ComputeCall)
    (exit : Moment) : Prop where
  atExit : ∃ rs,
    ((processAfter cfg files calls).stop exit.text).files cfg.output.filename =
      some (traceHeader ++ rs.flatten) ∧
    List.Forall₂ IsRecord rs ((offeredBy cfg calls).take cfg.instrumentation.maxEvents.toNat)
  kept : ∀ pre c post, calls = pre ++ c :: post →
    let before := processAfter cfg files pre
    let started := if c.autoStarts then before.autoStart cfg true else before
    before.traceFile cfg <+: started.traceFile cfg ∧
      started.traceFile cfg <+: (processAfter cfg files (pre ++ [c])).traceFile cfg

/-- No call that can start the hook comes after more events than the limit. -/
def WithinLimit (cfg : Config) (calls : List ComputeCall) : Prop :=
  ∀ pre c post, calls = pre ++ c :: post → c.autoStarts = true →
    (offeredBy cfg pre).length ≤ cfg.instrumentation.maxEvents.toNat

theorem processAfter_append (cfg : Config) (files : Bytes → Option Bytes)
    (pre : List ComputeCall) (c : ComputeCall) :
    processAfter cfg files (pre ++ [c]) = c.run cfg true (processAfter cfg files pre) := by
  simp [processAfter,runCalls]

/-- Only `fopen` takes bytes away: the file of this name at least keeps what it has. -/
def Grows (name : Bytes) {L : Type} (s t : HookState L) : Prop :=
  (s.files name).getD [] <+: (t.files name).getD []

namespace Grows
variable {L : Type} {name : Bytes} {s t u : HookState L} {text : L → Bytes} {cfg : Config}

theorem refl (s : HookState L) : Grows name s s := List.prefix_refl _

theorem trans (hst : Grows name s t) (htu : Grows name t u) : Grows name s u :=
  List.IsPrefix.trans hst htu

theorem fwrite (bs : Bytes) (s : HookState L) : Grows name s (s.fwrite bs) := by
  cases hf : s.outputFile with
  | none => simp [Grows,HookState.fwrite,hf]
  | some f =>
    by_cases hname : name = f
    · subst hname
      simp [Grows,HookState.fwrite,hf]
    · simp [Grows,HookState.fwrite,hf,Function.update_of_ne hname]

theorem flushLoop (n r : ℕ) (s : HookState L) : Grows name s (s.flushLoop text n r).1 := by
  induction n generalizing r s with
  | zero => exact refl s
  | succ n ih =>
    rw [HookState.flushLoop,HookState.fwriteEvent_eq]
    exact (fwrite _ s).trans (ih _ _)

theorem flushToFile (s : HookState L) : Grows name s (s.flushToFile text) := by
  unfold HookState.flushToFile
  split
  · exact refl s
  · exact flushLoop _ _ s

theorem stop (s : HookState L) : Grows name s (s.stop text) := by
  unfold HookState.stop
  split
  · exact refl s
  · dsimp only
    split
    · have hflush : Grows name { s with active := false }
          (HookState.flushToFile text { s with active := false }) := flushToFile _
      exact hflush
    · exact refl s

theorem recordEvent (e : Event L) (s : HookState L) : Grows name s (s.recordEvent text cfg e) := by
  unfold HookState.recordEvent
  split
  · exact refl s
  · split
    · exact stop s
    · dsimp only
      split
      · exact refl s
      · split
        · let t : HookState L :=
            { s with
              eventBuffer := Function.update s.eventBuffer (slot s.writePos) e
              writePos := increment s.writePos
              eventCount := increment s.eventCount }
          have hflush : Grows name t (t.flushToFile text) := flushToFile t
          exact hflush
        · exact refl s

theorem graphEndFlush (s : HookState L) : Grows name s (s.graphEndFlush text cfg) := by
  unfold HookState.graphEndFlush
  split
  · exact flushToFile s
  · exact refl s

end Grows

section Calls
variable {cfg : Config} {name : Bytes}

theorem grows_runAll (steps : List HookStep) (s : HookState Ptr) :
    Grows name s (HookStep.runAll cfg steps s) := by
  induction steps generalizing s with
  | nil => exact .refl s
  | cons step steps ih =>
    refine Grows.trans ?_ (ih (step.run cfg s))
    rw [HookStep.run_eq]
    split
    · exact .refl s
    · split
      · exact (Grows.recordEvent _ s).trans (.graphEndFlush _)
      · exact .recordEvent _ s

theorem grows_run (c : ComputeCall) (s : HookState Ptr) :
    Grows name (if c.autoStarts then s.autoStart cfg true else s) (c.run cfg true s) := by
  have hactive (steps : List HookStep) (u : HookState Ptr) :
      Grows name u (if u.active then HookStep.runAll cfg steps u else u) := by
    split
    · exact grows_runAll steps u
    · exact .refl u
  rw [← c.run_override,Override.run,c.start_override]
  exact (hactive _ _).trans (hactive _ _)

end Calls

theorem IsRecord.ne_nil {r : Bytes} {e : Event Ptr} (h : IsRecord r e) : r ≠ [] := by
  obtain ⟨m,rfl⟩ := h
  simp [Event.encode,Event.fixedBytes]

variable {cfg : TracingConfig} {files : Bytes → Option Bytes} {calls : List ComputeCall}
  {offered : List (Event Ptr)}

/-- Starting again empties a file that holds an event. -/
theorem not_prefix_autoStart (hm : 1 ≤ cfg.instrumentation.maxEvents.toNat)
    (h : SessionState IsRecord cfg.toConfig offered s) (hs : s.active = false) :
    ¬s.traceFile cfg.toConfig <+: (s.autoStart cfg.toConfig true).traceFile cfg.toConfig := by
  rcases h with h | ⟨hover,h⟩
  · exact absurd (h.active.symm.trans hs) (by decide)
  · obtain ⟨rs,hfile,hrs⟩ := h.file
    have hstarted : (s.autoStart cfg.toConfig true).traceFile cfg.toConfig = traceHeader := by
      simp [HookState.autoStart,hs,start_writing cfg.enabled cfg.writes hs,HookState.traceFile]
    rw [hstarted,HookState.traceFile,hfile]
    intro hpre
    have hlen := hpre.length_le
    cases hrs' : rs with
    | nil =>
      have hcount := hrs.length_eq
      simp only [hrs',List.length_nil,List.length_take] at hcount
      omega
    | cons r rest =>
      subst hrs'
      obtain ⟨e,-,he,-,-⟩ := List.forall₂_cons_left_iff.mp hrs
      have hpos := List.length_pos_iff.mpr he.ne_nil
      simp only [Option.getD_some,List.length_append,List.flatten_cons] at hlen
      omega

/-- Where nothing was lost, no call found the hook stopped by the limit. -/
theorem TraceSurvives.withinLimit (hm : 1 ≤ cfg.instrumentation.maxEvents.toNat) {exit : Moment}
    (h : TraceSurvives cfg.toConfig files calls exit) : WithinLimit cfg.toConfig calls := by
  have hactive : ∀ pre c post, calls = pre ++ c :: post → c.autoStarts = true →
      SessionState IsRecord cfg.toConfig (offeredBy cfg.toConfig pre)
        (processAfter cfg.toConfig files pre) →
      (processAfter cfg.toConfig files pre).active = true := by
    intro pre c post hcalls ha hstate
    by_contra hoff
    have hkept := (h.kept pre c post hcalls).1
    rw [if_pos ha] at hkept
    exact not_prefix_autoStart hm hstate (by simpa using hoff) hkept
  intro pre c post hcalls ha
  have hstate := sessionState_runCalls cfg true (s := HookState.initial files) rfl pre
    (fun pre' d post' hpre hd => hactive pre' d (post' ++ c :: post) (by rw [hcalls,hpre]; simp) hd)
  rcases hstate with hrec | hstopped
  · exact hrec.limit
  · have hon := hactive pre c post hcalls ha (Or.inr hstopped)
    exact absurd (hstopped.2.inactive.symm.trans hon) (by decide)

theorem WithinLimit.traceSurvives (h : WithinLimit cfg.toConfig calls) (exit : Moment) :
    TraceSurvives cfg.toConfig files calls exit := by
  have hactive : ∀ pre c post, calls = pre ++ c :: post → c.autoStarts = true →
      SessionState IsRecord cfg.toConfig (offeredBy cfg.toConfig pre)
        (processAfter cfg.toConfig files pre) →
      (processAfter cfg.toConfig files pre).active = true := by
    intro pre c post hcalls ha hstate
    rcases hstate with hrec | ⟨hover,-⟩
    · exact hrec.active
    · exact absurd (h pre c post hcalls ha) (by omega)
  have hstate (pre post : List ComputeCall) (hcalls : calls = pre ++ post) :=
    sessionState_runCalls cfg true (s := HookState.initial files) rfl pre
      (fun pre' d post' hpre hd => hactive pre' d (post' ++ post) (by rw [hcalls,hpre]; simp) hd)
  constructor
  · exact ((hstate calls [] (by simp)).stop (isRecord_encode exit)).file
  · intro pre c post hcalls before started
    have hstarted : started = before := by
      by_cases ha : c.autoStarts = true
      · have hon := hactive pre c post hcalls ha (hstate pre (c :: post) hcalls)
        simp [started,before,ha,HookState.autoStart,hon]
      · simp [started,ha]
    constructor
    · exact hstarted ▸ List.prefix_refl _
    · rw [processAfter_append]
      exact grows_run c before

/-- A trace survives the event limit exactly when no call that can start the hook comes
after more events than the limit. -/
theorem trace_survives_iff (cfg : TracingConfig) (hm : 1 ≤ cfg.instrumentation.maxEvents.toNat)
    (files : Bytes → Option Bytes) (calls : List ComputeCall) (exit : Moment) :
    TraceSurvives cfg.toConfig files calls exit ↔ WithinLimit cfg.toConfig calls :=
  ⟨fun h => h.withinLimit hm,fun h => h.traceSurvives exit⟩

section OneEvent

/-- A limit of one event. -/
def oneEventConfig : TracingConfig where
  instrumentation := { maxEvents := 1 }
  enabled := rfl
  writes := defaultTracing.writes

/-- A call that computes a graph without nodes. -/
def emptyGraphCall (now : UInt64) : ComputeCall :=
  .ggmlBackendGraphCompute 0 { ptr := 64, nodes := [], fits := by decide } (fun _ => momentAt now)

theorem trace_survives_iff_one :
    TraceSurvives oneEventConfig.toConfig (fun _ => none) [emptyGraphCall 7] (momentAt 9) ↔
      WithinLimit oneEventConfig.toConfig [emptyGraphCall 7] :=
  trace_survives_iff oneEventConfig (by decide) _ _ _

/-- The second call starts the hook again and empties the file. -/
theorem not_traceSurvives_second_call :
    ¬TraceSurvives oneEventConfig.toConfig (fun _ => none) [emptyGraphCall 7,emptyGraphCall 8]
      (momentAt 9) := by
  intro h
  have hlimit := h.withinLimit (by decide) [emptyGraphCall 7] (emptyGraphCall 8) [] rfl rfl
  exact absurd hlimit (by decide)

end OneEvent
end GgmlViz
