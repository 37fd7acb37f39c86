import GgmlViz.Hook.State
import GgmlViz.Foundation.RingWindow

/-! # Recording, flushing, starting and stopping

The member functions of `GGMLHook` as one thread runs them, without interference. A
label is a pointer, so whatever writes a record takes what the pointers show then.
-/
namespace GgmlViz
open LittleEndian
variable {L : Type} (text : L → Bytes) (cfg : Config)

namespace HookState

/-- The `fwrite` calls of `flush_to_file` for one event. -/
def fwriteEvent (e : Event L) (s : HookState L) : HookState L :=
  let s := s.fwrite (e.fieldBytes text .type)
  let s := s.fwrite (e.fieldBytes text .timestampNs)
  let s := s.fwrite (e.fieldBytes text .threadId)
  let s := s.fwrite (e.fieldBytes text .data)
  let s := s.fwrite (e.fieldBytes text .hasLabel)
  if e.label.isSome then
    let labelLen := e.labelLen text
    let s := s.fwrite (e.fieldBytes text .labelLen)
    s.fwrite (e.fieldBytes text (.label labelLen))
  else s

/-- The `while` loop of `flush_to_file` for as many rounds as `current_read` is behind
`current_write`, and the final `current_read`. -/
def flushLoop : ℕ → ℕ → HookState L → HookState L × ℕ
  | 0, currentRead, s => (s,currentRead)
  | n + 1, currentRead, s =>
    flushLoop n (currentRead + 1) (s.fwriteEvent text (s.eventBuffer (slot currentRead)))

/-- `flush_to_file`. -/
def flushToFile (s : HookState L) : HookState L :=
  if s.outputFile.isNone then s
  else
    let currentWrite := s.writePos
    let currentRead := s.readPos
    let (s,currentRead) := s.flushLoop text (currentWrite - currentRead) currentRead
    { s with readPos := currentRead }

/-- `start()`, with the outcome of `fopen`. -/
def start (opens : Bool) (s : HookState L) : HookState L :=
  if !cfg.instrumentation.enableOpTiming && !cfg.instrumentation.enableMemoryTracking then s
  else if s.active then s
  else
    let s := { s with active := true, eventCount := 0, writePos := 0, readPos := 0,
                      droppedEvents := 0 }
    if cfg.output.writeToFile then
      if opens then
        let s := s.fopen cfg.output.filename
        let s := s.fwrite magic
        s.fwrite (leBytes 4 formatVersion)
      else { s with outputFile := none, active := false }
    else s

/-- `stop()`. -/
def stop (s : HookState L) : HookState L :=
  if !s.active then s
  else
    let s := { s with active := false }
    if s.outputFile.isSome then (s.flushToFile text).fclose else s

/-- `record_event`. -/
def recordEvent (e : Event L) (s : HookState L) : HookState L :=
  if !s.active then s
  else if cfg.instrumentation.maxEvents.toNat ≤ s.eventCount then s.stop text
  else
    let head := s.writePos
    let tail := s.readPos
    let next := increment head
    -- one slot stays empty, to tell a full buffer from an empty one
    if slot next = slot tail then { s with droppedEvents := increment s.droppedEvents }
    else
      let s := { s with eventBuffer := Function.update s.eventBuffer (slot head) e }
      let s := { s with writePos := next }
      let newCount := increment s.eventCount
      let s := { s with eventCount := newCount }
      if cfg.output.writeToFile && newCount &&& 0xFFF = 0 then s.flushToFile text else s

/-- `max_size()` of a vector of 64-byte events. -/
def maxBatch : ℕ := 2 ^ 57 - 1

/-- `consume_available_events`; `none` when `events.reserve` throws. -/
def consumeAvailableEvents (s : HookState L) : Option (HookState L × List (Event L)) :=
  if !s.active then some (s,[])
  else
    let tail := s.readPos
    let head := s.writePos
    -- `head - tail` in 64 bits
    let available := (head + 2 ^ 64 - tail) % 2 ^ 64
    if available = 0 then some (s,[])
    else if maxBatch < available then none
    else
      let events := (List.range' tail (head - tail)).map (fun i => s.eventBuffer (slot i))
      some ({ s with readPos := head },events)

/-- How `on_graph_compute_end` ends. -/
def graphEndFlush (s : HookState L) : HookState L :=
  if cfg.output.writeToFile then s.flushToFile text else s

end HookState

/-- The output file is open under this name and has this content. -/
structure Writing (name content : Bytes) (s : HookState L) : Prop where
  isOpen : s.outputFile = some name
  holds : s.files name = some content

namespace HookState
variable {text cfg} {name content : Bytes} {s : HookState L}

theorem fwriteEvent_eq (e : Event L) (s : HookState L) :
    s.fwriteEvent text e = s.fwrite (e.encode text) := by
  cases h : e.label <;>
    simp [fwriteEvent,fwrite_fwrite,Event.encode,Event.fieldBytes,Event.fixedBytes,h]

theorem fwrite_eq (h : Writing name content s) (bs : Bytes) :
    s.fwrite bs = { s with files := Function.update s.files name (some (content ++ bs)) } := by
  simp [fwrite,h.isOpen,h.holds]

theorem flushLoop_eq (h : Writing name content s) (n r : ℕ) :
    s.flushLoop text n r =
      ({ s with files := Function.update s.files name (some (content ++
        (List.range' r n).flatMap (fun i => (s.eventBuffer (slot i)).encode text))) },r + n) := by
  induction n generalizing content r s with
  | zero =>
    have hu : Function.update s.files name (some content) = s.files := by
      rw [← h.holds,Function.update_eq_self]
    simp [flushLoop,hu]
  | succ n ih =>
    let bs := (s.eventBuffer (slot r)).encode text
    have hw : Writing name (content ++ bs)
        { s with files := Function.update s.files name (some (content ++ bs)) } :=
      ⟨h.isOpen,Function.update_self ..⟩
    rw [flushLoop,fwriteEvent_eq,fwrite_eq h,ih hw]
    simp [List.range'_succ,Nat.add_assoc,Nat.add_comm 1,bs]

/-- A flush writes what is unread and then has read it. -/
theorem flushToFile_eq (h : Writing name content s) (hle : s.readPos ≤ s.writePos) :
    s.flushToFile text = { s with
      files := Function.update s.files name (some (content ++
        (RingWindow.cells bufferSize s.eventBuffer s.readPos s.writePos).flatMap (Event.encode text)))
      readPos := s.writePos } := by
  have hpos : s.readPos + (s.writePos - s.readPos) = s.writePos := by omega
  simp [flushToFile,h.isOpen,flushLoop_eq h,hpos,RingWindow.cells,List.flatMap_map,slot_eq_mod]

theorem flushToFile_closed (h : s.outputFile = none) : s.flushToFile text = s := by
  simp [flushToFile,h]

theorem consumeAvailableEvents_inactive {s : HookState L} (h : s.active = false) :
    s.consumeAvailableEvents = some (s,[]) := by simp [consumeAvailableEvents,h]

/-- A consumer moves the read position only. -/
theorem consumeAvailableEvents_state {s t : HookState L} {events : List (Event L)}
    (h : s.consumeAvailableEvents = some (t,events)) : ∃ r, t = { s with readPos := r } := by
  unfold consumeAvailableEvents at h
  split at h
  · cases h
    exact ⟨s.readPos,rfl⟩
  · dsimp only at h
    split at h
    · cases h
      exact ⟨s.readPos,rfl⟩
    · split at h <;> cases h
      exact ⟨s.writePos,rfl⟩

/-- A consumer gets what is unread. -/
theorem consumeAvailableEvents_eq {s : HookState L} (hactive : s.active = true)
    (hle : s.readPos ≤ s.writePos) (hsmall : s.writePos < 2 ^ 64)
    (hfits : s.writePos < s.readPos + bufferSize) :
    s.consumeAvailableEvents = some ({ s with readPos := s.writePos },
      RingWindow.cells bufferSize s.eventBuffer s.readPos s.writePos) := by
  have havailable : (s.writePos + 2 ^ 64 - s.readPos) % 2 ^ 64 = s.writePos - s.readPos := by omega
  have hbatch : ¬maxBatch < s.writePos - s.readPos := by
    simp only [bufferSize] at hfits
    simp only [maxBatch]
    omega
  have hcells : (List.range' s.readPos (s.writePos - s.readPos)).map
      (fun i => s.eventBuffer (slot i)) =
        RingWindow.cells bufferSize s.eventBuffer s.readPos s.writePos := by
    simp only [slot_eq_mod,RingWindow.cells]
  have hconsume : s.consumeAvailableEvents =
      if s.writePos - s.readPos = 0 then some (s,[])
      else some ({ s with readPos := s.writePos },
        RingWindow.cells bufferSize s.eventBuffer s.readPos s.writePos) := by
    rw [consumeAvailableEvents,if_neg (by simp [hactive])]
    simp only [havailable,if_neg hbatch,hcells]
  rw [hconsume]
  split
  · next hnone =>
    have hsame : s.writePos = s.readPos := by omega
    have hhook {r : ℕ} (hr : r = s.readPos) : { s with readPos := r } = s := by rw [hr]
    rw [hhook hsame,hsame,RingWindow.cells_self]
  · rfl

/-- An active hook does not start again, and without anything to trace it does not start. -/
theorem start_same (h : s.active = true ∨ cfg.hooksEnabled = false) (opens : Bool) :
    s.start cfg opens = s := by
  unfold start
  rw [← Bool.not_or]
  rcases h with h | h
  · rw [if_pos h,ite_self]
  · exact if_pos (congrArg not h)

theorem start_of_inactive (henabled : cfg.hooksEnabled = true) (hs : s.active = false)
    (opens : Bool) : s.start cfg opens =
      let t := { s with active := true, eventCount := 0, writePos := 0, readPos := 0,
                        droppedEvents := 0 }
      if cfg.output.writeToFile then
        if opens then (t.fopen cfg.output.filename).fwrite traceHeader
        else { t with outputFile := none, active := false }
      else t := by
  have hon : (!cfg.instrumentation.enableOpTiming && !cfg.instrumentation.enableMemoryTracking)
      = false := by
    rw [← Bool.not_or]
    exact congrArg not henabled
  simp [start,hon,hs,fwrite_fwrite,traceHeader]

theorem start_eq (henabled : cfg.hooksEnabled = true) (hs : s.active = false) :
    s.start cfg true =
      let t := { s with active := true, eventCount := 0, writePos := 0, readPos := 0,
                        droppedEvents := 0 }
      if cfg.output.writeToFile then (t.fopen cfg.output.filename).fwrite traceHeader else t :=
  start_of_inactive henabled hs true

theorem recordEvent_inactive (h : s.active = false) (e : Event L) : s.recordEvent text cfg e = s := by
  simp [recordEvent,h]

theorem stop_inactive (h : s.active = false) : s.stop text = s := by simp [stop,h]

end HookState
end GgmlViz
