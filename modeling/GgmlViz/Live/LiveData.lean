import GgmlViz.Trace.Reader
import GgmlViz.Config.Config
import Mathlib.Data.List.DropRight

/-! # The live mode of the frontend

`update_live_data` drains the hook and follows a trace file that another process writes.
Every reload builds a new reader, appends its new events to the buffer and drops the reader
before it; the events keep their pointers into the label pools. The readers that were held
are numbered, so that such a pointer still says where it came from when its pool is gone.
-/
namespace GgmlViz
open LittleEndian

/-- What `Event::label` points to in the frontend: the name of a tensor of this process, or
a string in the label pool of a reader. -/
inductive LabelPtr
  | tensor (p : Ptr)
  | pool (reader i : ℕ)
  deriving DecidableEq

inductive Source
  | hook
  | file (reader : ℕ)
  deriving DecidableEq

/-- An event of the live buffer, with a note of where it was read. -/
structure LiveEvent where
  source : Source
  event : Event LabelPtr
  deriving DecidableEq

/-- A reader that `live_trace_reader` holds or held, and the bytes it was built from. -/
structure HeldReader where
  content : Bytes
  reader : TraceReader
  opened : TraceReader.openFile (some content) = some reader
  valid : reader.valid = true

/-- `TraceReader(filename)` and `is_valid()`. -/
def openTrace : Option Bytes → Option HeldReader
  | none => none
  | some content =>
    match hr : TraceReader.openFile (some content) with
    | none => none
    | some r => if hv : r.valid = true then some ⟨content,r,hr,hv⟩ else none

namespace HeldReader

def events (h : HeldReader) : List (Event Bytes) := h.reader.events

/-- `label_pool_`: one string for each event with a label, in order. -/
def labelPool (h : HeldReader) : List Bytes := h.events.filterMap Event.label

end HeldReader

/-- The events of a reader as they are copied, from the `i`-th label on. -/
def fileEvents (reader : ℕ) : ℕ → List (Event Bytes) → List LiveEvent
  | _, [] => []
  | i, e :: es =>
    match e.label with
    | none => ⟨.file reader,{ e with label := none }⟩ :: fileEvents reader i es
    | some _ => ⟨.file reader,{ e with label := some (.pool reader i) }⟩ ::
        fileEvents reader (i + 1) es

/-- An event of `consume_available_events`. -/
def hookEvent (e : Event Ptr) : LiveEvent :=
  ⟨.hook,{ e with label := e.label.map .tensor }⟩

/-- The live part of `AppData` and the statics of `update_live_data`. -/
structure LiveState where
  liveMode : Bool
  liveEvents : List LiveEvent
  liveFilePath : Bytes
  lastFileModTime : ℤ
  lastFileSize : ℕ
  /-- The number of the reader held. -/
  liveTraceReader : Option ℕ
  /-- Unset until the first call in live mode. -/
  lastFileCheck : Option ℕ
  lastFileEventCount : ℕ
  /-- The readers held so far, the ones destroyed since among them. -/
  made : List HeldReader

/-- The members that the model uses of `struct stat`. -/
structure FileStat where
  mtime : ℤ
  size : ℕ
  deriving DecidableEq

/-- What one call of `update_live_data` finds outside. -/
structure Poll where
  /-- The clock, in nanoseconds, where `last_file_check` is initialised. -/
  checkStart : ℕ
  now : ℕ
  /-- What the hook hands out, if it is active. -/
  hookEvents : Option (List (Event Ptr))
  /-- Absent when `stat` fails. -/
  fileStat : Option FileStat
  /-- What a reader of the file reads, if it can be opened. -/
  content : Option Bytes

namespace LiveState

def start : LiveState where
  liveMode := false
  liveEvents := []
  liveFilePath := []
  lastFileModTime := 0
  lastFileSize := 0
  liveTraceReader := none
  lastFileCheck := none
  lastFileEventCount := 0
  made := []

/-- `enable_live_mode`, its part on the buffer and the file; `env` is `GGML_VIZ_OUTPUT`. -/
def enableLiveMode (traceFile : Bytes) (env : Option Bytes) (s : LiveState) : LiveState :=
  { s with
    liveMode := true
    liveEvents := []
    liveFilePath := if traceFile ≠ [] then traceFile else env.getD (ascii "test.ggmlviz")
    lastFileModTime := 0
    lastFileSize := 0 }

def disableLiveMode (s : LiveState) : LiveState :=
  { s with
    liveMode := false
    liveEvents := []
    liveFilePath := []
    lastFileModTime := 0
    lastFileSize := 0
    liveTraceReader := none }

/-- `max_events` of `update_live_data`. -/
@[irreducible] def maxEvents : ℕ := 50000

/-- The `erase` that limits the buffer. -/
def trim (es : List LiveEvent) : List LiveEvent :=
  if maxEvents < es.length then es.drop (es.length - maxEvents) else es

def updateFromHook (newEvents : Option (List (Event Ptr))) (s : LiveState) : LiveState :=
  match newEvents with
  | none => s
  | some newEvents =>
    if newEvents ≠ [] then { s with liveEvents := trim (s.liveEvents ++ newEvents.map hookEvent) }
    else s

/-- `start_idx`, for a file with this many events. -/
def startIdx (count : ℕ) (s : LiveState) : ℕ :=
  if s.liveTraceReader.isSome ∧ s.lastFileEventCount ≤ count then s.lastFileEventCount else 0

/-- The events of a reader that is about to be held. -/
def eventsOf (r : HeldReader) (s : LiveState) : List LiveEvent := fileEvents s.made.length 0 r.events

/-- What follows when the new reader is valid. -/
def reload (fileStat : FileStat) (r : HeldReader) (s : LiveState) : LiveState :=
  let events := s.eventsOf r
  let startIdx := s.startIdx events.length
  let s' : LiveState :=
    if startIdx < events.length then
      { s with liveEvents := s.liveEvents ++ events.drop startIdx,
               lastFileEventCount := events.length }
    else s
  { s' with
    lastFileModTime := fileStat.mtime
    lastFileSize := fileStat.size
    liveTraceReader := some s.made.length
    made := s.made ++ [r]
    liveEvents := trim s'.liveEvents }

/-- The body of the file check. -/
def checkFile (p : Poll) (s : LiveState) : LiveState :=
  match p.fileStat with
  | none => s
  | some fileStat =>
    if s.lastFileModTime < fileStat.mtime ∨ s.lastFileSize < fileStat.size then
      match openTrace p.content with
      | none => s
      | some r => s.reload fileStat r
    else s

/-- `last_file_check`, which the first call initialises. -/
def checkedAt (p : Poll) (s : LiveState) : ℕ := s.lastFileCheck.getD p.checkStart

/-- There is a file to check and the last check was more than 100 ms ago. -/
def ChecksFile (p : Poll) (s : LiveState) : Prop :=
  s.liveFilePath ≠ [] ∧ 100 < (p.now - s.checkedAt p) / 1000000

instance (p : Poll) (s : LiveState) : Decidable (s.ChecksFile p) :=
  inferInstanceAs (Decidable (_ ∧ _))

def updateLiveData (p : Poll) (s : LiveState) : LiveState :=
  if s.liveMode = false then s
  else
    let s := s.updateFromHook p.hookEvents
    if s.ChecksFile p then checkFile p { s with lastFileCheck := some p.now }
    else { s with lastFileCheck := some (s.checkedAt p) }

/-- The calls of `update_live_data` of one live session. -/
def polls (ps : List Poll) (s : LiveState) : LiveState := ps.foldl (fun s p => s.updateLiveData p) s

end LiveState

/-- What can happen to the live part of the frontend. -/
inductive LiveOp
  | enable (traceFile : Bytes) (env : Option Bytes)
  | disable
  | update (p : Poll)

namespace LiveState

def apply : LiveOp → LiveState → LiveState
  | .enable traceFile env, s => s.enableLiveMode traceFile env
  | .disable, s => s.disableLiveMode
  | .update p, s => s.updateLiveData p

/-- The state of a process that has done these things since its start. -/
def after (ops : List LiveOp) : LiveState := ops.foldl (fun s op => s.apply op) start

@[simp] theorem after_concat (ops : List LiveOp) (op : LiveOp) :
    after (ops ++ [op]) = (after ops).apply op := by
  rw [after,List.foldl_concat]
  rfl

end LiveState
end GgmlViz
