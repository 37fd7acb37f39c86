import GgmlViz.Live.LiveData
import GgmlViz.Foundation.Recent
import GgmlViz.Trace.PartialFiles

/-! # What a call of `update_live_data` does

The events appended, the reload made, and the buffer as the last entries of everything that
was appended.
-/
namespace GgmlViz
open LittleEndian

/-- The events that a reader of a file with this content holds. -/
def decoded (content : Bytes) : List (Event Bytes) :=
  ((TraceReader.openFile (some content)).map TraceReader.events).getD []

theorem HeldReader.events_eq (h : HeldReader) : h.events = decoded h.content := by
  rw [decoded,h.opened]
  rfl

theorem HeldReader.hasHeader (h : HeldReader) : HasHeader h.content := by
  by_contra hno
  have heq := h.opened.symm.trans (TraceReader.openFile_of_no_header hno)
  have hvalid := h.valid
  rw [Option.some.inj heq] at hvalid
  cases hvalid

theorem openTrace_eq_some {content : Option Bytes} {h : HeldReader}
    (hopen : openTrace content = some h) : content = some h.content := by
  unfold openTrace at hopen
  split at hopen
  · cases hopen
  · split at hopen
    · cases hopen
    · split at hopen
      · cases hopen
        rfl
      · cases hopen

theorem openTrace_of_header {content : Bytes} (hh : HasHeader content) :
    ∃ h, openTrace (some content) = some h := by
  obtain ⟨r,hr,hv,-⟩ := openFile_events hh
  refine ⟨⟨content,r,hr,hv⟩,?_⟩
  simp only [openTrace]
  split
  · next hnone => cases hr.symm.trans hnone
  · next r' hr' =>
    cases hr.symm.trans hr'
    exact dif_pos hv

/-- A reader of a longer file holds the events of the shorter one first. -/
theorem decoded_prefix {a b : Bytes} (hab : a <+: b) (ha : HasHeader a) :
    decoded a <+: decoded b := by
  obtain ⟨ra,rb,hra,hrb,-,-,hev⟩ := openFile_prefix hab ha
  rw [decoded,decoded,hra,hrb]
  exact hev

/-- The string that a label pointer finds, were every reader still there. -/
def LabelPtr.find (made : List HeldReader) : LabelPtr → Option Bytes
  | .tensor _ => none
  | .pool r i => made[r]?.bind (fun h => h.labelPool[i]?)

namespace LiveEvent

/-- The event with its label read through the pointer. -/
def read (made : List HeldReader) (e : LiveEvent) : Event Bytes :=
  { e.event with label := e.event.label.bind (LabelPtr.find made) }

/-- The readers that this event came from and that its label points into are numbered
below `n`. -/
structure Below (n : ℕ) (e : LiveEvent) : Prop where
  source : ∀ r, e.source = .file r → r < n
  label : ∀ r i, e.event.label = some (.pool r i) → r < n

theorem Below.mono {n m : ℕ} {e : LiveEvent} (h : e.Below n) (hnm : n ≤ m) : e.Below m where
  source r hs := (h.source r hs).trans_le hnm
  label r i hl := (h.label r i hl).trans_le hnm

/-- A further reader changes nothing for the events that are there. -/
theorem read_append {made : List HeldReader} {e : LiveEvent} (h : e.Below made.length)
    (more : List HeldReader) : e.read (made ++ more) = e.read made := by
  cases hl : e.event.label with
  | none => simp [read,hl]
  | some q =>
    cases q with
    | tensor p => simp [read,hl,LabelPtr.find]
    | pool r i => simp [read,hl,LabelPtr.find,List.getElem?_append_left (h.label r i hl)]

end LiveEvent

section FileEvents
variable {n : ℕ}

theorem length_fileEvents (i : ℕ) (es : List (Event Bytes)) :
    (fileEvents n i es).length = es.length := by
  induction es generalizing i with
  | nil => rfl
  | cons e es ih =>
    rw [fileEvents]
    split <;> simp [ih]

theorem source_fileEvents (i : ℕ) (es : List (Event Bytes)) :
    ∀ e ∈ fileEvents n i es, e.source = .file n := by
  induction es generalizing i with
  | nil => exact fun e he => absurd he List.not_mem_nil
  | cons e es ih =>
    intro e' he'
    rw [fileEvents] at he'
    split at he' <;> rcases List.mem_cons.mp he' with rfl | he'
    · rfl
    · exact ih _ e' he'
    · rfl
    · exact ih _ e' he'

/-- The labels of the copies are the places of the pool, one after the other. -/
theorem label_fileEvents {i : ℕ} {es : List (Event Bytes)} {e : LiveEvent} {q : LabelPtr}
    (he : e ∈ fileEvents n i es) (hq : e.event.label = some q) :
    ∃ j, q = .pool n j ∧ j < i + (es.filterMap Event.label).length := by
  induction es generalizing i with
  | nil => exact absurd he List.not_mem_nil
  | cons e' es ih =>
    rw [fileEvents] at he
    split at he
    · next hl =>
      rw [List.filterMap_cons_none hl]
      rcases List.mem_cons.mp he with rfl | he
      · cases hq
      · exact ih he
    · next hl =>
      rw [List.filterMap_cons_some hl,List.length_cons]
      rcases List.mem_cons.mp he with rfl | he
      · cases hq
        exact ⟨i,rfl,by omega⟩
      · obtain ⟨j,hj,hlt⟩ := ih he
        exact ⟨j,hj,by omega⟩

/-- The copies read as the events they are copies of. -/
theorem read_fileEvents {made : List HeldReader} {h : HeldReader} (hmade : made[n]? = some h)
    (i : ℕ) (es : List (Event Bytes)) (hpool : h.labelPool.drop i = es.filterMap Event.label) :
    (fileEvents n i es).map (LiveEvent.read made) = es := by
  induction es generalizing i with
  | nil => rfl
  | cons e es ih =>
    rw [fileEvents]
    split
    · next hl =>
      rw [List.filterMap_cons_none hl] at hpool
      rw [List.map_cons,ih i hpool]
      simp [LiveEvent.read,← hl]
    · next label hl =>
      rw [List.filterMap_cons_some hl] at hpool
      have hget : h.labelPool[i]? = some label := by
        rw [← Nat.add_zero i,← List.getElem?_drop,hpool]
        rfl
      have htail : h.labelPool.drop (i + 1) = es.filterMap Event.label := by
        rw [← List.drop_drop,hpool]
        rfl
      rw [List.map_cons,ih (i + 1) htail]
      simp [LiveEvent.read,LabelPtr.find,hmade,hget,← hl]

end FileEvents

namespace LiveState
variable {s : LiveState} {p : Poll}

/-- The reload that a file check makes, if it makes one. -/
def fileReload (p : Poll) (s : LiveState) : Option (FileStat × HeldReader) :=
  p.fileStat.bind (fun fileStat =>
    if s.lastFileModTime < fileStat.mtime ∨ s.lastFileSize < fileStat.size then
      (openTrace p.content).map (fun r => (fileStat,r))
    else none)

/-- The reload that a call makes. -/
def reloadOf (p : Poll) (s : LiveState) : Option (FileStat × HeldReader) :=
  if s.liveMode = true ∧ s.ChecksFile p then s.fileReload p else none

/-- What a call takes from the hook. -/
def hookAdded (p : Poll) (s : LiveState) : List LiveEvent :=
  if s.liveMode = true then (p.hookEvents.getD []).map hookEvent else []

/-- What a reload appends. -/
def fileAdded (r : HeldReader) (s : LiveState) : List LiveEvent :=
  (s.eventsOf r).drop (s.startIdx r.events.length)

theorem length_eventsOf (r : HeldReader) : (s.eventsOf r).length = r.events.length :=
  length_fileEvents 0 r.events

theorem trim_eq (es : List LiveEvent) : trim es = es.rtake maxEvents := by
  unfold trim
  split
  · rfl
  · next h => exact (Recent.rtake_of_length_le (Nat.le_of_not_lt h)).symm

theorem updateFromHook_eq (hlen : s.liveEvents.length ≤ maxEvents)
    (newEvents : Option (List (Event Ptr))) : s.updateFromHook newEvents =
      { s with liveEvents :=
          (s.liveEvents ++ (newEvents.getD []).map hookEvent).rtake maxEvents } := by
  have hkeep : (s.liveEvents ++ []).rtake maxEvents = s.liveEvents := by
    rw [List.append_nil,Recent.rtake_of_length_le hlen]
  cases newEvents with
  | none => rw [Option.getD_none,List.map_nil,hkeep,updateFromHook]
  | some es =>
    by_cases hes : es = []
    · rw [Option.getD_some,updateFromHook,if_neg (not_not.mpr hes),hes,List.map_nil,hkeep]
    · rw [Option.getD_some,updateFromHook,if_pos hes,trim_eq]

/-- A reload takes the new reader's events into the buffer and the reader into its place. -/
theorem reload_eq (es : List LiveEvent) (check : Option ℕ) (fileStat : FileStat) (r : HeldReader) :
    reload fileStat r { s with liveEvents := es, lastFileCheck := check } =
      { s with
        liveEvents := (es ++ s.fileAdded r).rtake maxEvents
        lastFileModTime := fileStat.mtime
        lastFileSize := fileStat.size
        liveTraceReader := some s.made.length
        lastFileCheck := check
        lastFileEventCount :=
          if s.startIdx r.events.length < r.events.length then r.events.length
          else s.lastFileEventCount
        made := s.made ++ [r] } := by
  have hidx : startIdx r.events.length { s with liveEvents := es, lastFileCheck := check } =
      s.startIdx r.events.length := rfl
  have hevents : eventsOf r { s with liveEvents := es, lastFileCheck := check } = s.eventsOf r := rfl
  rw [reload,hevents,length_eventsOf,hidx]
  by_cases hnew : s.startIdx r.events.length < r.events.length
  · simp only [if_pos hnew,trim_eq,fileAdded]
  · have hnone : s.fileAdded r = [] :=
      List.drop_eq_nil_of_le (by rw [length_eventsOf]; omega)
    simp only [if_neg hnew,trim_eq,hnone,List.append_nil]

theorem checksFile_update (es : List LiveEvent) :
    ChecksFile p { s with liveEvents := es } ↔ s.ChecksFile p := Iff.rfl

theorem checkedAt_update (es : List LiveEvent) :
    checkedAt p { s with liveEvents := es } = s.checkedAt p := rfl

theorem fileReload_update (es : List LiveEvent) (check : Option ℕ) :
    fileReload p { s with liveEvents := es, lastFileCheck := check } = s.fileReload p := by
  unfold fileReload
  rfl

theorem checkFile_eq (p : Poll) (s : LiveState) :
    checkFile p s = (s.fileReload p).elim s (fun found => s.reload found.1 found.2) := by
  unfold checkFile fileReload
  cases p.fileStat with
  | none => rfl
  | some fileStat =>
    rw [Option.bind_some]
    dsimp only
    split
    · cases openTrace p.content <;> rfl
    · rfl

/-- A call in live mode: what the hook hands out, then the file. -/
theorem updateLiveData_live (hlive : s.liveMode = true) (hlen : s.liveEvents.length ≤ maxEvents) :
    s.updateLiveData p =
      if s.ChecksFile p then
        checkFile p { s with liveEvents := (s.liveEvents ++ s.hookAdded p).rtake maxEvents,
                             lastFileCheck := some p.now }
      else { s with liveEvents := (s.liveEvents ++ s.hookAdded p).rtake maxEvents,
                    lastFileCheck := some (s.checkedAt p) } := by
  have hmode : ¬s.liveMode = false := by rw [hlive]; decide
  have hhook := updateFromHook_eq hlen p.hookEvents
  have hfile : (s.updateFromHook p.hookEvents).ChecksFile p ↔ s.ChecksFile p := by
    rw [hhook,checksFile_update]
  have hcheck : (s.updateFromHook p.hookEvents).checkedAt p = s.checkedAt p := by
    rw [hhook,checkedAt_update]
  simp only [updateLiveData,if_neg hmode,hfile,hcheck,hookAdded,if_pos hlive]
  rw [hhook]

/-- A call that reloads nothing. -/
theorem updateLiveData_of_none (hlen : s.liveEvents.length ≤ maxEvents)
    (h : s.reloadOf p = none) : ∃ check, s.updateLiveData p =
      { s with liveEvents := (s.liveEvents ++ s.hookAdded p).rtake maxEvents,
               lastFileCheck := check } := by
  by_cases hlive : s.liveMode = true
  · rw [updateLiveData_live hlive hlen]
    by_cases hcheck : s.ChecksFile p
    · rw [reloadOf,if_pos ⟨hlive,hcheck⟩] at h
      exact ⟨some p.now,by rw [if_pos hcheck,checkFile_eq,fileReload_update,h,Option.elim_none]⟩
    · exact ⟨some (s.checkedAt p),by rw [if_neg hcheck]⟩
  · have hmode : s.liveMode = false := Bool.eq_false_of_not_eq_true hlive
    rw [updateLiveData,if_pos hmode,hookAdded,if_neg hlive,List.append_nil,
      Recent.rtake_of_length_le hlen]
    exact ⟨s.lastFileCheck,by rfl⟩

/-- A call that reloads. -/
theorem updateLiveData_of_reload (hlen : s.liveEvents.length ≤ maxEvents) {fileStat : FileStat}
    {r : HeldReader} (h : s.reloadOf p = some (fileStat,r)) : s.updateLiveData p =
      { s with
        liveEvents := (s.liveEvents ++ (s.hookAdded p ++ s.fileAdded r)).rtake maxEvents
        lastFileModTime := fileStat.mtime
        lastFileSize := fileStat.size
        liveTraceReader := some s.made.length
        lastFileCheck := some p.now
        lastFileEventCount :=
          if s.startIdx r.events.length < r.events.length then r.events.length
          else s.lastFileEventCount
        made := s.made ++ [r] } := by
  unfold reloadOf at h
  split at h
  · next hdue =>
    rw [updateLiveData_live hdue.1 hlen,if_pos hdue.2,checkFile_eq,fileReload_update,h,
      Option.elim_some,reload_eq,Recent.rtake_rtake_append,List.append_assoc]
  · cases h

theorem reloadOf_eq_some {fileStat : FileStat} {r : HeldReader}
    (h : s.reloadOf p = some (fileStat,r)) :
    p.fileStat = some fileStat ∧ openTrace p.content = some r := by
  unfold reloadOf fileReload at h
  split at h
  · obtain ⟨stat,hstat,h⟩ := Option.bind_eq_some_iff.mp h
    split at h
    · obtain ⟨reader,hopen,heq⟩ := Option.map_eq_some_iff.mp h
      cases heq
      exact ⟨hstat,hopen⟩
    · cases h
  · cases h

theorem read_fileAdded (r : HeldReader) : (s.fileAdded r).map (LiveEvent.read (s.made ++ [r])) =
    r.events.drop (s.startIdx r.events.length) := by
  have hmade : (s.made ++ [r])[s.made.length]? = some r := List.getElem?_concat_length
  rw [fileAdded,List.map_drop,eventsOf,read_fileEvents hmade 0 r.events rfl]

theorem below_fileAdded (r : HeldReader) :
    ∀ e ∈ s.fileAdded r, e.Below (s.made.length + 1) := by
  intro e he
  have hmem := List.mem_of_mem_drop he
  constructor
  · intro i hi
    cases (source_fileEvents 0 r.events e hmem).symm.trans hi
    exact Nat.lt_succ_self _
  · intro i j hl
    obtain ⟨k,hk,-⟩ := label_fileEvents hmem hl
    cases hk
    exact Nat.lt_succ_self _

theorem source_hookAdded (p : Poll) : ∀ e ∈ s.hookAdded p, e.source = .hook := by
  intro e he
  unfold hookAdded at he
  split at he
  · obtain ⟨x,-,rfl⟩ := List.mem_map.mp he
    rfl
  · exact absurd he List.not_mem_nil

theorem label_hookAdded (p : Poll) :
    ∀ e ∈ s.hookAdded p, ∀ r i, e.event.label ≠ some (.pool r i) := by
  intro e he r i hl
  unfold hookAdded at he
  split at he
  · obtain ⟨x,-,rfl⟩ := List.mem_map.mp he
    simp [hookEvent,Option.map_eq_some_iff] at hl
  · exact absurd he List.not_mem_nil

theorem below_hookAdded (p : Poll) (n : ℕ) : ∀ e ∈ s.hookAdded p, e.Below n := by
  intro e he
  constructor
  · intro r hr
    cases (source_hookAdded p e he).symm.trans hr
  · intro r i hl
    exact absurd hl (label_hookAdded p e he r i)

end LiveState

/-- The buffer is bounded, its labels are in the pools of readers made before, and a reader
that is held is the last one made. -/
structure BufferInv (s : LiveState) : Prop where
  short : s.liveEvents.length ≤ LiveState.maxEvents
  below : ∀ e ∈ s.liveEvents, e.Below s.made.length
  last : ∀ r, s.liveTraceReader = some r → r + 1 = s.made.length

namespace BufferInv
open LiveState
variable {s : LiveState} {p : Poll}

theorem start : BufferInv LiveState.start where
  short := Nat.zero_le _
  below := fun _ he => absurd he List.not_mem_nil
  last := fun r hr => by cases hr

theorem enableLiveMode (h : BufferInv s) (traceFile : Bytes) (env : Option Bytes) :
    BufferInv (s.enableLiveMode traceFile env) where
  short := Nat.zero_le _
  below := fun _ he => absurd he List.not_mem_nil
  last := h.last

theorem disableLiveMode : BufferInv s.disableLiveMode where
  short := Nat.zero_le _
  below := fun _ he => absurd he List.not_mem_nil
  last := fun r hr => by cases hr

theorem updateLiveData (h : BufferInv s) (p : Poll) : BufferInv (s.updateLiveData p) := by
  cases hr : s.reloadOf p with
  | none =>
    obtain ⟨check,heq⟩ := updateLiveData_of_none h.short hr
    rw [heq]
    refine { short := Recent.length_rtake_le _ _, below := ?_, last := h.last }
    intro e he
    rcases List.mem_append.mp (Recent.mem_of_mem_rtake he) with he | he
    · exact h.below e he
    · exact below_hookAdded p _ e he
  | some found =>
    rw [updateLiveData_of_reload h.short hr]
    refine { short := Recent.length_rtake_le _ _, below := ?_, last := ?_ }
    · intro e he
      rw [List.length_append,List.length_singleton]
      rcases List.mem_append.mp (Recent.mem_of_mem_rtake he) with he | he
      · exact (h.below e he).mono (Nat.le_succ _)
      · rcases List.mem_append.mp he with he | he
        · exact below_hookAdded p _ e he
        · exact below_fileAdded found.2 e he
    · intro r hr
      cases hr
      rw [List.length_append,List.length_singleton]

theorem apply (h : BufferInv s) (op : LiveOp) : BufferInv (s.apply op) := by
  cases op with
  | enable traceFile env => exact h.enableLiveMode traceFile env
  | disable => exact disableLiveMode
  | update p => exact h.updateLiveData p

theorem after (ops : List LiveOp) : BufferInv (LiveState.after ops) := by
  induction ops using List.reverseRecOn with
  | nil => exact start
  | append_singleton ops op ih =>
    rw [after_concat]
    exact ih.apply op

end BufferInv
end GgmlViz
