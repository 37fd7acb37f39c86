import GgmlViz.Live.LiveSteps
import GgmlViz.Trace.Header

/-! # Loading a trace file in the frontend

`load_trace_file` leaves live mode, opens the file up to three times, and either shows the
trace or says why not. The file may change between the three times.
-/
namespace GgmlViz
open LittleEndian

/-- `AppData`, with what it shares with live mode in `live`. -/
structure AppData where
  live : LiveState
  traceReader : Option HeldReader
  currentFilename : Bytes
  errorMessage : Bytes
  traceLoaded : Bool
  selectedEvent : Int32

def AppData.start : AppData where
  live := .start
  traceReader := none
  currentFilename := []
  errorMessage := []
  traceLoaded := false
  selectedEvent := -1

/-- An exception, as the handlers tell them apart. -/
inductive LoadException
  | badAlloc
  | exception (what : Bytes)
  | other

/-- What is found when the file is opened, if it can be. -/
structure FileAccess where
  /-- `test_file` -/
  test : Option Bytes
  /-- The file of the `TraceReader`. -/
  reader : Option Bytes
  /-- What the constructor of the `TraceReader` throws. -/
  thrown : Option LoadException
  /-- `check_file` -/
  check : Option Bytes

/-- The file stays as it is. -/
def FileAccess.stable (content : Option Bytes) (thrown : Option LoadException) : FileAccess :=
  ⟨content,content,thrown,content⟩

/-- `find_last_of` -/
def findLastOf (chars : List UInt8) : Bytes → Option ℕ
  | [] => none
  | c :: s =>
    match findLastOf chars s with
    | some i => some (i + 1)
    | none => if c ∈ chars then some 0 else none

/-- `filename.substr(filename.find_last_of("/\\") + 1)` -/
def baseName (filename : Bytes) : Bytes :=
  match findLastOf (ascii "/\\") filename with
  | some i => filename.drop (i + 1)
  | none => filename

/-- Why a trace was not loaded, or that there is nothing in it. -/
inductive LoadError
  | noPath
  | wrongType
  | notFound
  | empty
  | tooSmall (fileSize : ℕ)
  | wrongMagic (found : Bytes)
  | corrupted
  | unreadable
  | accessLost
  | noEvents
  | caught (t : LoadException)

/-- The bullet of the messages, in UTF-8. -/
def bullet : Bytes := [0xE2,0x80,0xA2,0x20]

def LoadError.message (filename : Bytes) : LoadError → Bytes
  | noPath => ascii "Error: No file path specified."
  | wrongType =>
    ascii "Error: Invalid file type.\n\nExpected a .ggmlviz trace file.\nSelected: " ++ filename
  | notFound =>
    ascii "Error: File not found or access denied.\n\nFile: " ++ filename ++
      ascii "\n\nPlease check:\n" ++ bullet ++ ascii "File exists\n" ++ bullet ++
      ascii "File permissions\n" ++ bullet ++ ascii "Path is correct"
  | empty =>
    ascii "Error: Empty trace file.\n\nFile: " ++ filename ++
      ascii ("\n\nThe trace file contains no data. " ++
        "Please ensure the file was generated correctly.")
  | tooSmall fileSize =>
    ascii "Error: Invalid trace file.\n\nFile: " ++ filename ++
      ascii "\n\nFile is too small (" ++ ascii (toString fileSize) ++
      ascii " bytes) to contain valid trace data."
  | wrongMagic found =>
    ascii "Error: Invalid trace file format.\n\nFile: " ++ filename ++
      ascii ("\n\nThis does not appear to be a valid GGML trace file.\n" ++
        "Expected magic header 'GGMLVIZ1', found: '") ++ found ++ ascii "'"
  | corrupted =>
    ascii "Error: Corrupted trace file.\n\nFile: " ++ filename ++
      ascii ("\n\nThe file header is valid but the trace data appears to be corrupted.\n" ++
        "The file may have been truncated or damaged.")
  | unreadable =>
    ascii "Error: Cannot read trace file header.\n\nFile: " ++ filename ++
      ascii "\n\nFile exists but cannot be read properly. Check file permissions."
  | accessLost => ascii "Error: File access lost during loading.\n\nFile: " ++ filename
  | noEvents =>
    ascii "Warning: Empty trace data.\n\nFile: " ++ filename ++
      ascii ("\n\nThe trace file loaded successfully but contains no events.\n" ++
        "This might indicate:\n") ++ bullet ++ ascii "No GGML operations were traced\n" ++
      bullet ++ ascii "Tracing was not enabled\n" ++ bullet ++
      ascii "The model ran but no operations occurred"
  | caught .badAlloc =>
    ascii "Error: Out of memory.\n\nFile: " ++ filename ++
      ascii ("\n\nNot enough memory to load this trace file.\n" ++
        "Try closing other applications or loading a smaller trace file.")
  | caught (.exception what) =>
    ascii "Error: Unexpected error loading trace.\n\nFile: " ++ filename ++
      ascii "\n\nDetails: " ++ what ++
      ascii ("\n\nThis may indicate a bug in the application " ++
        "or a severely corrupted file.")
  | caught .other =>
    ascii "Error: Unknown error occurred.\n\nFile: " ++ filename ++
      ascii "\n\nAn unexpected error occurred while loading the trace file."

/-- The reason when `test_file` cannot be opened. -/
def notOpened (filename : Bytes) : LoadError :=
  if filename = [] then .noPath
  else
    match findLastOf (ascii ".") filename with
    | none => .wrongType
    | some i => if filename.drop i ≠ ascii ".ggmlviz" then .wrongType else .notFound

/-- The reason when the reader is not valid. -/
def notValid (check : Option Bytes) : LoadError :=
  match check with
  | none => .accessLost
  | some content =>
    let found := content.take 8
    if found.length = 8 then
      if strncmpEq 8 found magic then .corrupted else .wrongMagic found
    else .unreadable

namespace AppData

def fail (filename : Bytes) (e : LoadError) (d : AppData) : AppData × Bool :=
  ({ d with errorMessage := e.message filename },false)

/-- What follows when the reader is valid. -/
def succeed (filename : Bytes) (reader : HeldReader) (d : AppData) : AppData × Bool :=
  ({ d with
      errorMessage :=
        if reader.events.length = 0 then LoadError.noEvents.message filename else d.errorMessage
      traceReader := some reader
      traceLoaded := true
      currentFilename := baseName filename
      selectedEvent := -1 },true)

def disableLiveMode (d : AppData) : AppData := { d with live := d.live.disableLiveMode }

/-- A label whose buffer is too small is read as if it were not. -/
def loadTraceFile (filename : Bytes) (access : FileAccess) (d : AppData) : AppData × Bool :=
  let d := if d.live.liveMode then d.disableLiveMode else d
  match access.test with
  | none => d.fail filename (notOpened filename)
  | some content =>
    let fileSize := content.length
    if fileSize = 0 then d.fail filename .empty
    else if fileSize < 12 then d.fail filename (.tooSmall fileSize)
    else
      match access.thrown with
      | some t => d.fail filename (.caught t)
      | none =>
        match openTrace access.reader with
        | none => d.fail filename (notValid access.check)
        | some reader => d.succeed filename reader

end AppData

/-- Why a file with these contents is refused. -/
def refusal (filename : Bytes) (thrown : Option LoadException) : Option Bytes → LoadError
  | none => notOpened filename
  | some content =>
    if content = [] then .empty
    else if content.length < 12 then .tooSmall content.length
    else
      match thrown with
      | some t => .caught t
      | none => .wrongMagic (content.take 8)

/-- What comes of loading a file that does not change meanwhile. -/
structure LoadOutcome (filename : Bytes) (content : Option Bytes) (thrown : Option LoadException)
    (d : AppData) (r : AppData × Bool) : Prop where
  /-- The buffers of the labels are large enough. -/
  inBounds : ∀ c, content = some c → ∃ reader, TraceReader.openFile (some c) = some reader ∧
    ∀ b ∈ reader.labelBuffers, b.labelLen.toNat + 1 ≤ b.size
  accepted_iff : r.2 = true ↔ thrown = none ∧ ∃ c, content = some c ∧ HasHeader c
  accepted : r.2 = true → ∀ c, content = some c →
    (∃ reader, r.1.traceReader = some reader ∧ reader.events = decoded c) ∧
      r.1.traceLoaded = true ∧ r.1.currentFilename = baseName filename ∧
      r.1.selectedEvent = -1 ∧ r.1.errorMessage =
        if decoded c = [] then LoadError.noEvents.message filename else d.errorMessage
  refused : r.2 = false → r.1 =
    { d with live := r.1.live, errorMessage := (refusal filename thrown content).message filename }
  live : r.1.live = if d.live.liveMode then d.live.disableLiveMode else d.live
  /-- Three of the messages are for files that change while they are loaded. -/
  unused : r.2 = false → ∀ e : LoadError, e = .corrupted ∨ e = .unreadable ∨ e = .accessLost →
    r.1.errorMessage ≠ e.message filename

section Loading
variable {filename content : Bytes} {d : AppData}

theorem notValid_of_no_header (hlen : 12 ≤ content.length) (h : ¬HasHeader content) :
    notValid (some content) = .wrongMagic (content.take 8) := by
  have htake : (content.take 8).length = 8 := by
    rw [List.length_take]
    omega
  have hmagic : strncmpEq 8 (content.take 8) magic = false := by
    rw [Bool.eq_false_iff]
    intro heq
    exact h ⟨hlen,(strncmpEq_iff htake rfl (by decide)).mp heq⟩
  simp only [notValid,htake,if_true,hmagic,Bool.false_eq_true,if_false]

theorem openTrace_of_no_header (h : ¬HasHeader content) : openTrace (some content) = none := by
  cases hr : openTrace (some content) with
  | none => rfl
  | some r =>
    have hcontent := openTrace_eq_some hr
    cases hcontent
    exact absurd r.hasHeader h

/-- A message begins with its own words. -/
theorem message_changed {e e' : LoadError} (he : e = .corrupted ∨ e = .unreadable ∨ e = .accessLost)
    (he' : e' ≠ .corrupted ∧ e' ≠ .unreadable ∧ e' ≠ .accessLost) (filename : Bytes) :
    e'.message filename ≠ e.message filename := by
  intro heq
  have htake := congrArg (List.take 13) heq
  have hcorrupted : (LoadError.corrupted.message filename).take 13 = ascii "Error: Corrup" := rfl
  have hunreadable : (LoadError.unreadable.message filename).take 13 = ascii "Error: Cannot" := rfl
  have hlost : (LoadError.accessLost.message filename).take 13 = ascii "Error: File a" := rfl
  have hwords : (e'.message filename).take 13 ∈ [ascii "Error: No fil",ascii "Error: Invali",
      ascii "Error: File n",ascii "Error: Empty ",ascii "Warning: Empt",ascii "Error: Out of",
      ascii "Error: Unexpe",ascii "Error: Unknow"] := by
    cases e' with
    | corrupted => exact absurd rfl he'.1
    | unreadable => exact absurd rfl he'.2.1
    | accessLost => exact absurd rfl he'.2.2
    | noPath => exact .head _
    | wrongType | tooSmall | wrongMagic => exact .tail _ (.head _)
    | notFound => exact .tail _ (.tail _ (.head _))
    | empty => exact .tail _ (.tail _ (.tail _ (.head _)))
    | noEvents => exact .tail _ (.tail _ (.tail _ (.tail _ (.head _))))
    | caught t =>
      refine .tail _ (.tail _ (.tail _ (.tail _ (.tail _ ?_))))
      cases t with
      | badAlloc => exact .head _
      | exception => exact .tail _ (.head _)
      | other => exact .tail _ (.tail _ (.head _))
  rw [htake] at hwords
  rcases he with rfl | rfl | rfl
  · rw [hcorrupted] at hwords
    exact absurd hwords (by decide)
  · rw [hunreadable] at hwords
    exact absurd hwords (by decide)
  · rw [hlost] at hwords
    exact absurd hwords (by decide)

theorem notOpened_changed (filename : Bytes) : notOpened filename ≠ .corrupted ∧
    notOpened filename ≠ .unreadable ∧ notOpened filename ≠ .accessLost := by
  unfold notOpened
  split
  · exact ⟨nofun,nofun,nofun⟩
  · split
    · exact ⟨nofun,nofun,nofun⟩
    · split <;> exact ⟨nofun,nofun,nofun⟩

theorem refusal_changed (filename : Bytes) (thrown : Option LoadException) (content : Option Bytes) :
    refusal filename thrown content ≠ .corrupted ∧ refusal filename thrown content ≠ .unreadable ∧
      refusal filename thrown content ≠ .accessLost := by
  unfold refusal
  split
  · exact notOpened_changed filename
  · split
    · exact ⟨nofun,nofun,nofun⟩
    · split
      · exact ⟨nofun,nofun,nofun⟩
      · split <;> exact ⟨nofun,nofun,nofun⟩

namespace AppData

/-- A file with a header is loaded, unless reading it throws. -/
theorem loadTraceFile_of_header (filename : Bytes) (d : AppData) (h : HasHeader content) :
    ∃ reader : HeldReader, reader.content = content ∧
      d.loadTraceFile filename (.stable (some content) none) =
      (if d.live.liveMode then d.disableLiveMode else d).succeed filename reader := by
  obtain ⟨reader,hreader⟩ := openTrace_of_header h
  have hsize : ¬content.length = 0 ∧ ¬content.length < 12 := by
    have hlen := h.1
    omega
  refine ⟨reader,(Option.some.inj (openTrace_eq_some hreader)).symm,?_⟩
  simp only [loadTraceFile,FileAccess.stable,hreader,if_neg hsize.1,if_neg hsize.2]

theorem loadTraceFile_refused (filename : Bytes) {content : Option Bytes} {thrown : Option LoadException}
    (h : thrown = none → ∀ c, content = some c → ¬HasHeader c) :
    d.loadTraceFile filename (.stable content thrown) =
      (if d.live.liveMode then d.disableLiveMode else d).fail filename
        (refusal filename thrown content) := by
  cases content with
  | none => rfl
  | some content =>
    simp only [loadTraceFile,FileAccess.stable,refusal,List.length_eq_zero_iff]
    by_cases hempty : content = []
    · rw [if_pos hempty,if_pos hempty]
    · rw [if_neg hempty,if_neg hempty]
      by_cases hshort : content.length < 12
      · rw [if_pos hshort,if_pos hshort]
      · rw [if_neg hshort,if_neg hshort]
        cases thrown with
        | some t => rfl
        | none =>
          have hno := h rfl content rfl
          simp only [openTrace_of_no_header hno,notValid_of_no_header (by omega) hno]

end AppData

end Loading
end GgmlViz
