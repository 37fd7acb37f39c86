import GgmlViz.Trace.Memory

/-! # Selections of events

The helpers of the reader that select the events of the memory by their type, in the order of
the trace.
-/
namespace GgmlViz
variable {L : Type} (events : List (Event L))

/-- `get_alloc_events`. -/
def getAllocEvents : List (Event L) := events.filter (fun e => e.type = .tensorAlloc)

/-- `get_free_events`. -/
def getFreeEvents : List (Event L) := events.filter (fun e => e.type = .tensorFree)

/-- What an allocation says. -/
def Event.allocation (e : Event L) : Ptr × UInt64 := (e.data.memory.ptr,e.data.memory.size)

/-- An event is counted by its kind; only a free is ever warned about. -/
theorem step_counts (s : MemoryState) (e : Event L) :
    (s.step e).stats.totalAllocations = s.stats.totalAllocations +
        UInt64.ofNat (getAllocEvents [e]).length ∧
      (s.step e).stats.totalFrees = s.stats.totalFrees +
        UInt64.ofNat (getFreeEvents [e]).length ∧
      (getFreeEvents [e] = [] → (s.step e).warnings = s.warnings) := by
  have hne : EventType.tensorFree ≠ .tensorAlloc := by decide
  by_cases ha : e.type = .tensorAlloc
  · simp [MemoryState.step,MemoryState.onAlloc,getAllocEvents,getFreeEvents,ha,hne.symm]
  · by_cases hf : e.type = .tensorFree
    · have hstep : s.step e = s.onFree e.data.memory.ptr e.timestampNs := by
        simp [MemoryState.step,hf,hne]
      have hallocs : getAllocEvents [e] = [] := by simp [getAllocEvents,ha]
      have hfrees : getFreeEvents [e] = [e] := by simp [getFreeEvents,hf]
      rw [hstep,hallocs,hfrees,MemoryState.onFree]
      dsimp only
      split
      · simp
      · split <;> simp
    · simp [MemoryState.step,getAllocEvents,getFreeEvents,ha,hf]

theorem after_counts (events : List (Event L)) :
    (MemoryState.after events).stats.totalAllocations =
        UInt64.ofNat (getAllocEvents events).length ∧
      (MemoryState.after events).stats.totalFrees = UInt64.ofNat (getFreeEvents events).length ∧
      (getFreeEvents events = [] → (MemoryState.after events).warnings = []) := by
  induction events using List.reverseRecOn with
  | nil => simp [MemoryState.after,getAllocEvents,getFreeEvents]
  | append_singleton events e ih =>
    obtain ⟨hallocs,hfrees,hwarnings⟩ := ih
    obtain ⟨hstepAllocs,hstepFrees,hstepWarnings⟩ := step_counts (MemoryState.after events) e
    have hstep : MemoryState.after (events ++ [e]) = (MemoryState.after events).step e :=
      List.foldl_concat ..
    rw [hstep,hstepAllocs,hstepFrees,hallocs,hfrees]
    simp only [getAllocEvents,getFreeEvents,List.filter_append,List.length_append] at *
    refine ⟨(UInt64.ofNat_add _ _).symm,(UInt64.ofNat_add _ _).symm,?_⟩
    intro h
    obtain ⟨hbefore,hlast⟩ := List.append_eq_nil_iff.mp h
    rw [hstepWarnings hlast,hwarnings hbefore]

end GgmlViz
