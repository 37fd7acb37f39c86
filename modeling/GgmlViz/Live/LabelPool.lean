import GgmlViz.Live.LiveSteps

/-! # Who owns the labels of live events

An event of the file is copied with its pointer into the reader's label pool, and a reload
destroys the reader that was held before. The labels in the buffer stay owned as long as
every reload trims away the labelled events of the readers before it.
-/
namespace GgmlViz
open LittleEndian LiveState

/-- Every label that an event of the file carries is in the pool of the reader that is held. -/
def LabelsOwned (s : LiveState) : Prop :=
  ∀ e ∈ s.liveEvents, ∀ r i, e.event.label = some (.pool r i) →
    s.liveTraceReader = some r ∧ ∃ h, s.made[r]? = some h ∧ i < h.labelPool.length

/-- If this call replaces a reader, no event of the buffer that its trim leaves there has a
label from a file. -/
def LeavesNoFileLabel (s : LiveState) : LiveOp → Prop
  | .update p =>
    match s.reloadOf p with
    | none => True
    | some (_,r) =>
      ∀ e ∈ s.liveEvents.rtake (maxEvents - (s.hookAdded p ++ s.fileAdded r).length),
        ∀ q i, e.event.label ≠ some (.pool q i)
  | _ => True

namespace LabelsOwned
variable {s : LiveState} {p : Poll}

theorem of_empty (h : s.liveEvents = []) : LabelsOwned s := by
  intro e he
  rw [h] at he
  exact absurd he List.not_mem_nil

/-- The new events point into the pool of the new reader. -/
theorem fileAdded {r : HeldReader} {e : LiveEvent} (he : e ∈ s.fileAdded r) {q i : ℕ}
    (hl : e.event.label = some (.pool q i)) : q = s.made.length ∧ i < r.labelPool.length := by
  obtain ⟨j,hj,hlt⟩ := label_fileEvents (List.mem_of_mem_drop he) hl
  cases hj
  exact ⟨rfl,by rwa [Nat.zero_add] at hlt⟩

theorem quiet (h : LabelsOwned s) (hinv : BufferInv s) (hr : s.reloadOf p = none) :
    LabelsOwned (s.updateLiveData p) := by
  obtain ⟨check,heq⟩ := updateLiveData_of_none hinv.short hr
  rw [heq]
  intro e he r i hl
  rcases List.mem_append.mp (Recent.mem_of_mem_rtake he) with he | he
  · exact h e he r i hl
  · exact absurd hl (label_hookAdded p e he r i)

/-- After a reload the labels are owned if and only if none is left from before. -/
theorem reload_iff (hinv : BufferInv s) {fileStat : FileStat} {r : HeldReader}
    (hr : s.reloadOf p = some (fileStat,r)) :
    LabelsOwned (s.updateLiveData p) ↔ LeavesNoFileLabel s (.update p) := by
  have hmade : (s.made ++ [r])[s.made.length]? = some r := List.getElem?_concat_length
  rw [updateLiveData_of_reload hinv.short hr,Recent.rtake_append]
  simp only [LeavesNoFileLabel,hr]
  constructor
  · intro h e he q i hl
    obtain ⟨hq,-⟩ := h e (List.mem_append_left _ he) q i hl
    have hlt := (hinv.below e (Recent.mem_of_mem_rtake he)).label q i hl
    cases hq
    exact Nat.lt_irrefl _ hlt
  · intro h e he q i hl
    rcases List.mem_append.mp he with he | he
    · exact absurd hl (h e he q i)
    · rcases List.mem_append.mp (Recent.mem_of_mem_rtake he) with he | he
      · exact absurd hl (label_hookAdded p e he q i)
      · obtain ⟨rfl,hi⟩ := fileAdded he hl
        exact ⟨rfl,r,hmade,hi⟩

theorem apply_iff (h : LabelsOwned s) (hinv : BufferInv s) (op : LiveOp) :
    LabelsOwned (s.apply op) ↔ LeavesNoFileLabel s op := by
  cases op with
  | enable traceFile env => exact iff_of_true (of_empty rfl) trivial
  | disable => exact iff_of_true (of_empty rfl) trivial
  | update p =>
    cases hr : s.reloadOf p with
    | none => exact iff_of_true (h.quiet hinv hr) (by simp only [LeavesNoFileLabel,hr])
    | some found => exact reload_iff hinv hr

end LabelsOwned

/-- In a run the labels stay owned if and only if no reload leaves a label of the file in the
buffer. -/
theorem labelsOwned_run_iff (ops : List LiveOp) :
    (∀ pre, pre <+: ops → LabelsOwned (after pre)) ↔
      ∀ pre op, pre ++ [op] <+: ops → LeavesNoFileLabel (after pre) op := by
  constructor
  · intro h pre op hpre
    have hnow := h pre ((List.prefix_append pre [op]).trans hpre)
    rw [← hnow.apply_iff (BufferInv.after pre) op,← after_concat]
    exact h _ hpre
  · intro h pre hpre
    induction pre using List.reverseRecOn with
    | nil => exact LabelsOwned.of_empty rfl
    | append_singleton pre op ih =>
      have hnow := ih ((List.prefix_append pre [op]).trans hpre)
      rw [after_concat,hnow.apply_iff (BufferInv.after pre) op]
      exact h pre op hpre

section Run

/-- A file with this many events, all of them labelled. -/
def labelledFile (n : ℕ) : Bytes :=
  writeTrace id (List.replicate n ⟨.opComputeEnd,7,3,OpData.toData ⟨1,9,16,2⟩,some [0x61]⟩)

/-- A call in which the file is checked, without the hook. -/
def checkAt (ms : ℕ) (content : Bytes) : LiveOp :=
  .update { checkStart := 0, now := ms * 1000000, hookEvents := none,
            fileStat := some { mtime := 5, size := content.length }, content := some content }

/-- The file holds a labelled event at the first reload and a second one at the next. -/
def twoReloads : List LiveOp :=
  [.enable (ascii "a") none,checkAt 0 [],checkAt 200 (labelledFile 1),checkAt 400 (labelledFile 2)]

/-- The first event is still there, and the reader that owns its label is not. -/
theorem not_labelsOwned_second_reload : ¬LabelsOwned (after twoReloads) := by
  intro h
  have hstate : (after twoReloads).liveEvents.map (fun e => e.event.label) =
      [some (.pool 0 0),some (.pool 1 1)] ∧ (after twoReloads).liveTraceReader = some 1 := by
    decide +kernel
  obtain ⟨hlabels,hreader⟩ := hstate
  have hmem : some (.pool 0 0) ∈ (after twoReloads).liveEvents.map (fun e => e.event.label) := by
    rw [hlabels]
    exact List.mem_cons_self
  obtain ⟨e,he,hl⟩ := List.mem_map.mp hmem
  obtain ⟨hheld,-⟩ := h e he 0 0 hl
  cases hreader.symm.trans hheld

end Run
end GgmlViz
