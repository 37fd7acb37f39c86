import GgmlViz.Concurrent.RecordingThread

/-! # One recording thread that writes a file

What a flush writes and when it counts as delivered. The events up to a frontier have been
delivered, by the file or by somebody else; the file holds whole records and, during a
flush, the beginning of the next one.
-/
namespace GgmlViz
open LittleEndian RingWindow
variable {L : Type} (text : L → Bytes)

namespace Pc

/-- Between the test of `output_file_` and the end of a flush. -/
def Writes : Pc L → Prop
  | flushHead _ | flushTail _ _ | flushField _ _ _ _ | flushStore _ _ => True
  | _ => False

/-- Up to here the events are delivered. -/
def frontier (readPos : ℕ) : Pc L → ℕ
  | flushField _ _ currentRead _ => currentRead
  | flushStore _ currentRead => currentRead
  | _ => readPos

/-- What is written of the record that a flush is in. -/
def partialRecord (buffer : ℕ → Event L) : Pc L → Bytes
  | flushField _ _ currentRead f => (buffer (slot currentRead)).writtenBefore text f
  | _ => []

end Pc

/-- The file behind the recording thread: a header, whole records, and the beginning of the
next one; or the file was closed. -/
structure FileInv (name header : Bytes) (m : Mem L) (p : Pc L) (wrote : List (Event L)) :
    Prop where
  content : m.files name =
    some (header ++ (wrote.flatMap (Event.encode text) ++ p.partialRecord text m.eventBuffer))
  output : m.outputFile = some name ∨ (m.outputFile = none ∧ ¬p.Writes)

variable {text} {cfg : Config} {m m' : Mem L} {p p' : Pc L} {acc wrote elsewhere : List (Event L)}
  {os : List (Obs L)} {name header : Bytes}

theorem finish_notWrites (k : After) : ¬(Pc.finish cfg k : Pc L).Writes :=
  finish_of (P := fun p => ¬p.Writes) k id id

theorem flushed_notWrites (h : Holder) : ¬(Pc.flushed h : Pc L).Writes :=
  flushed_of (P := fun p => ¬p.Writes) h (fun _ => id) (fun _ => id)

theorem frontier_of_notWrites {readPos : ℕ} (h : ¬p.Writes) : p.frontier readPos = readPos := by
  cases p with
  | flushField | flushStore => exact (h trivial).elim
  | _ => rfl

theorem partialRecord_of_notWrites {buffer : ℕ → Event L} (h : ¬p.Writes) :
    p.partialRecord text buffer = [] := by
  cases p with
  | flushField => exact (h trivial).elim
  | _ => rfl

theorem frontier_flushNext (holder : Holder) (currentWrite currentRead readPos : ℕ) :
    (Pc.flushNext holder currentWrite currentRead : Pc L).frontier readPos = currentRead :=
  flushNext_of (P := fun p => p.frontier readPos = currentRead) holder (fun _ => rfl) (fun _ => rfl)

theorem partialRecord_flushNext {buffer : ℕ → Event L} (holder : Holder)
    (currentWrite currentRead : ℕ) :
    (Pc.flushNext holder currentWrite currentRead : Pc L).partialRecord text buffer = [] :=
  flushNext_of (P := fun p => p.partialRecord text buffer = []) holder (fun _ => rfl) (fun _ => rfl)

/-- A flush begins at the test of `output_file_` and nowhere else. -/
theorem exec_notWrites (hrecords : p.Records) (hp : ¬p.Writes)
    (hfile : ∀ holder, p ≠ .flushFile holder) (hexec : exec text cfg p m = some (m',p',os)) :
    ¬p'.Writes := by
  cases exec_next hrecords hexec with
  | hookOff | hookOn | active | atLimit | belowLimit | loadHead | full | room | fill | publish
  | countFlush | locked | fclose | stops | closes => exact id
  | inactive | drop | count | unlock | stopped | nothingOpen => exact finish_notWrites _
  | noFile | file => exact absurd rfl (hfile _)
  | flushHead | flushTail | field | record | flushStore => exact (hp trivial).elim

/-- Outside of a flush the file and the read position stay as they are. -/
theorem exec_outside (hrecords : p.Records) (hp : ¬p.Writes)
    (hfile : ∀ holder, p ≠ .flushFile holder) (hclose : ∀ k, p ≠ .fclose k)
    (hexec : exec text cfg p m = some (m',p',os)) :
    m'.files = m.files ∧ m'.outputFile = m.outputFile ∧ m'.readPos = m.readPos ∧
      wroteIn os = [] ∧ ¬p'.Writes := by
  have hframe := exec_frame hrecords hexec
  have hfiles : m'.files = m.files ∧ wroteIn os = [] := by
    rcases hframe.files with hsame | ⟨holder,currentWrite,currentRead,f,rfl⟩
    · exact hsame
    · exact (hp trivial).elim
  have hout : m'.outputFile = m.outputFile := by
    rcases hframe.outputFile with hsame | ⟨k,rfl⟩
    · exact hsame
    · exact absurd rfl (hclose k)
  have hread : m'.readPos = m.readPos := by
    rcases hframe.readPos with hsame | ⟨holder,currentRead,rfl⟩
    · exact hsame
    · exact (hp trivial).elim
  exact ⟨hfiles.1,hout,hread,hfiles.2,exec_notWrites hrecords hp hfile hexec⟩

/-- The thread's own steps keep the file a header and whole records. -/
theorem FileInv.step (h : FileInv text name header m p wrote)
    (hrec : RecordingInv text cfg m p acc) (hexec : exec text cfg p m = some (m',p',os)) :
    FileInv text name header m' p' (wrote ++ wroteIn os) := by
  have hwriting : p.Writes → m.outputFile = some name := by
    intro hp
    rcases h.output with hout | ⟨-,hnot⟩
    · exact hout
    · exact (hnot hp).elim
  have hcontent := h.content
  cases p with
  | flushFile holder =>
    cases hexec
    cases hout : m.outputFile with
    | none =>
      refine ⟨?_,Or.inr ⟨hout,by simpa [hout] using flushed_notWrites holder⟩⟩
      rw [partialRecord_of_notWrites (by simpa [hout] using flushed_notWrites holder)]
      simpa [wroteIn,Pc.partialRecord] using hcontent
    | some f =>
      have hf : m.outputFile = some name := by
        rcases h.output with ho | ⟨ho,-⟩
        · exact ho
        · rw [ho] at hout
          cases hout
      exact ⟨by simpa [wroteIn,Pc.partialRecord] using hcontent,Or.inl hf⟩
  | flushHead holder =>
    cases hexec
    exact ⟨by simpa [wroteIn,Pc.partialRecord] using hcontent,Or.inl (hwriting trivial)⟩
  | flushTail holder currentWrite =>
    cases hexec
    refine ⟨?_,Or.inl (hwriting trivial)⟩
    rw [partialRecord_flushNext]
    simpa [wroteIn,Pc.partialRecord] using hcontent
  | flushField holder currentWrite currentRead f =>
    obtain ⟨-,-,-,hfield⟩ := hrec.locals
    have hout := hwriting trivial
    have hbytes := Event.writtenBefore_append text hfield
    simp only [exec] at hexec
    cases hn : (m.eventBuffer (slot currentRead)).nextField text f with
    | some g =>
      simp only [hn] at hexec hbytes
      cases hexec
      refine ⟨?_,Or.inl (by simpa using hout)⟩
      dsimp only
      rw [HookState.fwrite_files _ _ _ hout,hcontent]
      simp [wroteIn,Pc.partialRecord,← hbytes]
    | none =>
      simp only [hn] at hexec hbytes
      cases hexec
      refine ⟨?_,Or.inl (by simpa using hout)⟩
      dsimp only
      rw [HookState.fwrite_files _ _ _ hout,hcontent,partialRecord_flushNext]
      simp [wroteIn,Pc.partialRecord,← hbytes]
  | flushStore holder currentRead =>
    cases hexec
    refine ⟨?_,Or.inl (hwriting trivial)⟩
    rw [partialRecord_of_notWrites (flushed_notWrites holder)]
    simpa [wroteIn,Pc.partialRecord] using hcontent
  | fclose k =>
    cases hexec
    exact ⟨by simpa [wroteIn,Pc.partialRecord] using hcontent,Or.inr ⟨rfl,id⟩⟩
  | _ =>
    obtain ⟨hfiles,hout,-,hwrote,hnot⟩ := exec_outside hrec.records id (by simp) (by simp) hexec
    refine ⟨?_,?_⟩
    · rw [hfiles,hwrote,partialRecord_of_notWrites hnot]
      simpa [Pc.partialRecord] using hcontent
    · rw [hout]
      rcases h.output with ho | ⟨ho,-⟩
      · exact Or.inl ho
      · exact Or.inr ⟨ho,hnot⟩

/-- The thread's own steps keep the account of what was delivered, by this file or
elsewhere. -/
theorem delivered_step (hrec : RecordingInv text cfg m p acc)
    (h : (wrote ++ elsewhere).Perm (acc.take (p.frontier m.readPos)))
    (hexec : exec text cfg p m = some (m',p',os)) :
    ((wrote ++ wroteIn os) ++ elsewhere).Perm
      ((acc ++ acceptedIn os).take (p'.frontier m'.readPos)) := by
  have hlo := hrec.window.lo_le
  have houtside (hp : ¬p.Writes) (hread : m'.readPos = m.readPos) (hwrote : wroteIn os = [])
      (hp' : p'.frontier m'.readPos = m'.readPos) : ((wrote ++ wroteIn os) ++ elsewhere).Perm
        ((acc ++ acceptedIn os).take (p'.frontier m'.readPos)) := by
    rw [hwrote,List.append_nil,hp',hread,List.take_append_of_le_length hlo]
    rwa [frontier_of_notWrites hp] at h
  cases p with
  | flushFile holder =>
    cases hexec
    refine houtside id rfl rfl ?_
    split
    · exact frontier_of_notWrites (flushed_notWrites holder)
    · rfl
  | flushHead holder =>
    cases hexec
    simpa [wroteIn,acceptedIn,Pc.frontier] using h
  | flushTail holder currentWrite =>
    cases hexec
    rw [frontier_flushNext]
    simpa [wroteIn,acceptedIn,Pc.frontier] using h
  | flushField holder currentWrite currentRead f =>
    obtain ⟨-,hread,hlt,-⟩ := hrec.locals
    have hslot := hrec.window.holds currentRead hread hlt
    rw [← slot_eq_mod] at hslot
    simp only [exec] at hexec
    split at hexec
    · cases hexec
      simpa [wroteIn,acceptedIn,Pc.frontier] using h
    · cases hexec
      simp only [wroteIn,acceptedIn,List.filterMap_cons,List.filterMap_nil,List.append_nil,
        frontier_flushNext]
      rw [List.take_add_one,hslot,Option.toList_some,List.append_assoc]
      have hswap : (wrote ++ ([m.eventBuffer (slot currentRead)] ++ elsewhere)).Perm
          ((wrote ++ elsewhere) ++ [m.eventBuffer (slot currentRead)]) := by
        rw [List.append_assoc]
        exact List.Perm.append_left _ List.perm_append_comm
      exact hswap.trans (h.append_right _)
  | flushStore holder currentRead =>
    cases hexec
    rw [frontier_of_notWrites (flushed_notWrites holder)]
    simpa [wroteIn,acceptedIn,Pc.frontier] using h
  | fclose k =>
    cases hexec
    exact houtside id rfl rfl rfl
  | _ =>
    obtain ⟨-,-,hread,hwrote,hnot⟩ := exec_outside hrec.records id (by simp) (by simp) hexec
    exact houtside id hread hwrote (frontier_of_notWrites hnot)

end GgmlViz
