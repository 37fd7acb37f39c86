import GgmlViz.Config.Json
import GgmlViz.Config.Fields

/-! # The configuration as a JSON document

`to_json` and `from_json`, and what a document says about each setting.
-/
namespace GgmlViz
open LittleEndian

def logLevelToString : ConfigLogLevel → Bytes
  | .debug => ascii "DEBUG"
  | .info => ascii "INFO"
  | .warn => ascii "WARN"
  | .errorLevel => ascii "ERROR"
  | .fatal => ascii "FATAL"

def stringToLogLevel (str : Bytes) : ConfigLogLevel :=
  if str = ascii "DEBUG" then .debug
  else if str = ascii "INFO" then .info
  else if str = ascii "WARN" then .warn
  else if str = ascii "ERROR" then .errorLevel
  else if str = ascii "FATAL" then .fatal
  else .info

/-- What is thrown while a document is read. -/
inductive Thrown
  /-- A `json::exception`. -/
  | json (what : Bytes)
  /-- A `std::runtime_error`. -/
  | runtime (what : Bytes)

/-- `if (obj.contains(key)) field = obj[key];`. -/
def readMember {α : Type} (obj : Json) (key : Bytes) (conv : Json → Except Bytes α) (field : α) :
    Except Thrown α :=
  match obj.member key with
  | none => .ok field
  | some v => (conv v).mapError .json

/-- `if (j.contains(key)) { auto& section = j[key]; ... }`. -/
def readSection {α : Type} (j : Json) (key : Bytes) (read : Json → α → Except Thrown α)
    (settings : α) : Except Thrown α :=
  match j.member key with
  | none => .ok settings
  | some s => read s settings

namespace Config

def putInstrumentation (c : InstrumentationConfig) (j : Json) : Json :=
  let inst := ascii "instrumentation"
  j |>.setIn inst (ascii "enable_op_timing") (.boolean c.enableOpTiming)
    |>.setIn inst (ascii "enable_memory_tracking") (.boolean c.enableMemoryTracking)
    |>.setIn inst (ascii "record_tensor_names") (.boolean c.recordTensorNames)
    |>.setIn inst (ascii "max_events") (.unsigned c.maxEvents)
    |>.setIn inst (ascii "op_types_to_trace")
      (.array (c.opTypesToTrace.map (fun n => .unsigned n.toUInt64)))
    |>.setIn inst (ascii "backends_to_trace") (.array (c.backendsToTrace.map .string))

def putOutput (c : OutputConfig) (j : Json) : Json :=
  let out := ascii "output"
  j |>.setIn out (ascii "filename") (.string c.filename)
    |>.setIn out (ascii "write_to_file") (.boolean c.writeToFile)
    |>.setIn out (ascii "flush_interval") (.unsigned c.flushInterval.toUInt64)

def putLogging (c : LoggingConfig) (j : Json) : Json :=
  let log := ascii "logging"
  j |>.setIn log (ascii "level") (.string (logLevelToString c.level))
    |>.setIn log (ascii "timestamp") (.boolean c.timestamp)
    |>.setIn log (ascii "thread_id") (.boolean c.threadId)
    |>.setIn log (ascii "prefix") (.string c.logPrefix)

def putUi (c : UIConfig) (j : Json) : Json :=
  let ui := ascii "ui"
  j |>.setIn ui (ascii "live_mode") (.boolean c.liveMode)
    |>.setIn ui (ascii "poll_interval_ms") (.unsigned c.pollIntervalMs.toUInt64)
    |>.setIn ui (ascii "max_live_events") (.unsigned c.maxLiveEvents.toUInt64)

/-- The value that `to_json` builds. -/
def document (c : Config) : Json :=
  Json.null.set (ascii "schema_version") (.unsigned c.schemaVersion.toUInt64)
    |> putInstrumentation c.instrumentation
    |> putOutput c.output
    |> putLogging c.logging
    |> putUi c.ui

def toJson (lib : JsonLibrary) (c : Config) : Except Bytes Bytes := lib.dump c.document

section FromJson
variable (lib : JsonLibrary)

def readVersion (version : Json) (_ : UInt32) : Except Thrown UInt32 := do
  let version ← (lib.getU32 version).mapError .json
  if version ≠ 1 then
    throw (.runtime (ascii "Unsupported schema_version: " ++ decimal version.toNat))
  return version

def readInstrumentation (inst : Json) (c : InstrumentationConfig) :
    Except Thrown InstrumentationConfig := do
  let enableOpTiming ← readMember inst (ascii "enable_op_timing") lib.getBool c.enableOpTiming
  let enableMemoryTracking ←
    readMember inst (ascii "enable_memory_tracking") lib.getBool c.enableMemoryTracking
  let recordTensorNames ←
    readMember inst (ascii "record_tensor_names") lib.getBool c.recordTensorNames
  let maxEvents ← readMember inst (ascii "max_events") lib.getU64 c.maxEvents
  let opTypesToTrace ← readMember inst (ascii "op_types_to_trace") lib.getU32s c.opTypesToTrace
  let backendsToTrace ←
    readMember inst (ascii "backends_to_trace") lib.getStrings c.backendsToTrace
  return { enableOpTiming, enableMemoryTracking, recordTensorNames, maxEvents, opTypesToTrace,
           backendsToTrace }

def readOutput (out : Json) (c : OutputConfig) : Except Thrown OutputConfig := do
  let filename ← readMember out (ascii "filename") lib.getString c.filename
  let writeToFile ← readMember out (ascii "write_to_file") lib.getBool c.writeToFile
  let flushInterval ← readMember out (ascii "flush_interval") lib.getU32 c.flushInterval
  return { filename, writeToFile, flushInterval }

/-- The conversion of `log["level"]`. -/
def getLevel (v : Json) : Except Bytes ConfigLogLevel := (lib.getString v).map stringToLogLevel

def readLogging (log : Json) (c : LoggingConfig) : Except Thrown LoggingConfig := do
  let level ← readMember log (ascii "level") (getLevel lib) c.level
  let timestamp ← readMember log (ascii "timestamp") lib.getBool c.timestamp
  let threadId ← readMember log (ascii "thread_id") lib.getBool c.threadId
  let logPrefix ← readMember log (ascii "prefix") lib.getString c.logPrefix
  return { level, timestamp, threadId, logPrefix }

def readUi (ui : Json) (c : UIConfig) : Except Thrown UIConfig := do
  let liveMode ← readMember ui (ascii "live_mode") lib.getBool c.liveMode
  let pollIntervalMs ← readMember ui (ascii "poll_interval_ms") lib.getU32 c.pollIntervalMs
  let maxLiveEvents ← readMember ui (ascii "max_live_events") lib.getU32 c.maxLiveEvents
  return { liveMode, pollIntervalMs, maxLiveEvents }

/-- The body of the `try`, after the text is parsed. -/
def readDocument (j : Json) (c : Config) : Except Thrown Config := do
  let schemaVersion ← readSection j (ascii "schema_version") (readVersion lib) c.schemaVersion
  let instrumentation ←
    readSection j (ascii "instrumentation") (readInstrumentation lib) c.instrumentation
  let output ← readSection j (ascii "output") (readOutput lib) c.output
  let logging ← readSection j (ascii "logging") (readLogging lib) c.logging
  let ui ← readSection j (ascii "ui") (readUi lib) c.ui
  return { schemaVersion, instrumentation, output, logging, ui }

def fromJson (text : Bytes) : Except Bytes Config :=
  match (lib.parse text).mapError .json >>= fun j => readDocument lib j defaultConfig with
  | .error (.json what) => .error (ascii "JSON parsing error: " ++ what)
  | .error (.runtime what) => .error what
  | .ok config =>
    if config.isValid then .ok config
    else .error (ascii "Invalid configuration: " ++ config.validationError)

end FromJson
end Config

/-- What a document gives for a setting. -/
def JsonLibrary.given (lib : JsonLibrary) (j : Json) : (f : ConfigField) → Option f.Value
  | .schemaVersion => j.value (ascii "schema_version") lib.getU32
  | .enableOpTiming => j.valueIn (ascii "instrumentation") (ascii "enable_op_timing") lib.getBool
  | .enableMemoryTracking =>
    j.valueIn (ascii "instrumentation") (ascii "enable_memory_tracking") lib.getBool
  | .recordTensorNames =>
    j.valueIn (ascii "instrumentation") (ascii "record_tensor_names") lib.getBool
  | .maxEvents => j.valueIn (ascii "instrumentation") (ascii "max_events") lib.getU64
  | .opTypesToTrace => j.valueIn (ascii "instrumentation") (ascii "op_types_to_trace") lib.getU32s
  | .backendsToTrace =>
    j.valueIn (ascii "instrumentation") (ascii "backends_to_trace") lib.getStrings
  | .filename => j.valueIn (ascii "output") (ascii "filename") lib.getString
  | .writeToFile => j.valueIn (ascii "output") (ascii "write_to_file") lib.getBool
  | .flushInterval => j.valueIn (ascii "output") (ascii "flush_interval") lib.getU32
  | .level => j.valueIn (ascii "logging") (ascii "level") (Config.getLevel lib)
  | .timestamp => j.valueIn (ascii "logging") (ascii "timestamp") lib.getBool
  | .threadId => j.valueIn (ascii "logging") (ascii "thread_id") lib.getBool
  | .logPrefix => j.valueIn (ascii "logging") (ascii "prefix") lib.getString
  | .liveMode => j.valueIn (ascii "ui") (ascii "live_mode") lib.getBool
  | .pollIntervalMs => j.valueIn (ascii "ui") (ascii "poll_interval_ms") lib.getU32
  | .maxLiveEvents => j.valueIn (ascii "ui") (ascii "max_live_events") lib.getU32

section Read
variable {α β ε : Type}

theorem bind_eq_ok {x : Except ε α} {f : α → Except ε β} {b : β} :
    x >>= f = .ok b ↔ ∃ a, x = .ok a ∧ f a = .ok b := by
  cases x with
  | error e => exact iff_of_false (by rintro ⟨⟩) (by rintro ⟨a,⟨⟩,-⟩)
  | ok a =>
    constructor
    · intro h
      exact ⟨a,rfl,h⟩
    · rintro ⟨a',ha,h⟩
      cases ha
      exact h

theorem readMember_eq_ok {obj : Json} {key : Bytes} {conv : Json → Except Bytes α} {field x : α}
    (h : readMember obj key conv field = .ok x) : (obj.value key conv).getD field = x := by
  unfold readMember at h
  cases hm : obj.member key with
  | none =>
    rw [hm] at h
    cases h
    rw [Json.value,hm]
    rfl
  | some v =>
    simp only [hm] at h
    cases hv : conv v with
    | error e =>
      rw [hv] at h
      cases h
    | ok y =>
      rw [hv] at h
      cases h
      rw [Json.value,hm,Option.bind_some,hv]
      rfl

/-- A section is read if it is there. -/
theorem readSection_eq_ok {j : Json} {key : Bytes} {read : Json → α → Except Thrown α}
    {whole : Json → α} {settings x : α} (hread : ∀ s x, read s settings = .ok x → x = whole s)
    (h : readSection j key read settings = .ok x) : x = (j.member key).elim settings whole := by
  unfold readSection at h
  cases hm : j.member key with
  | none =>
    rw [hm] at h
    cases h
    rfl
  | some s =>
    rw [hm] at h
    exact hread s x h

end Read

namespace Config
variable {lib : JsonLibrary} {j : Json} {text : Bytes} {c d : Config}

theorem readVersion_eq_ok {v : Json} {n x : UInt32} (h : readVersion lib v n = .ok x) :
    lib.getU32 v = .ok x := by
  obtain ⟨version,hconv,h⟩ := bind_eq_ok.mp h
  cases hv : lib.getU32 v with
  | error e =>
    rw [hv] at hconv
    cases hconv
  | ok y =>
    rw [hv] at hconv
    cases hconv
    by_cases hone : version = 1
    · rw [if_neg (not_not.mpr hone)] at h
      cases h
      rfl
    · rw [if_pos hone] at h
      cases h

theorem readInstrumentation_eq_ok {inst : Json} {i x : InstrumentationConfig}
    (h : readInstrumentation lib inst i = .ok x) : x =
      { enableOpTiming :=
          (inst.value (ascii "enable_op_timing") lib.getBool).getD i.enableOpTiming
        enableMemoryTracking :=
          (inst.value (ascii "enable_memory_tracking") lib.getBool).getD i.enableMemoryTracking
        recordTensorNames :=
          (inst.value (ascii "record_tensor_names") lib.getBool).getD i.recordTensorNames
        maxEvents := (inst.value (ascii "max_events") lib.getU64).getD i.maxEvents
        opTypesToTrace :=
          (inst.value (ascii "op_types_to_trace") lib.getU32s).getD i.opTypesToTrace
        backendsToTrace :=
          (inst.value (ascii "backends_to_trace") lib.getStrings).getD i.backendsToTrace } := by
  simp only [readInstrumentation,bind_eq_ok] at h
  obtain ⟨x1,h1,x2,h2,x3,h3,x4,h4,x5,h5,x6,h6,hx⟩ := h
  cases hx
  rw [readMember_eq_ok h1,readMember_eq_ok h2,readMember_eq_ok h3,readMember_eq_ok h4,
    readMember_eq_ok h5,readMember_eq_ok h6]

theorem readOutput_eq_ok {out : Json} {o x : OutputConfig} (h : readOutput lib out o = .ok x) : x =
    { filename := (out.value (ascii "filename") lib.getString).getD o.filename
      writeToFile := (out.value (ascii "write_to_file") lib.getBool).getD o.writeToFile
      flushInterval := (out.value (ascii "flush_interval") lib.getU32).getD o.flushInterval } := by
  simp only [readOutput,bind_eq_ok] at h
  obtain ⟨x1,h1,x2,h2,x3,h3,hx⟩ := h
  cases hx
  rw [readMember_eq_ok h1,readMember_eq_ok h2,readMember_eq_ok h3]

theorem readLogging_eq_ok {log : Json} {l x : LoggingConfig} (h : readLogging lib log l = .ok x) :
    x =
      { level := (log.value (ascii "level") (getLevel lib)).getD l.level
        timestamp := (log.value (ascii "timestamp") lib.getBool).getD l.timestamp
        threadId := (log.value (ascii "thread_id") lib.getBool).getD l.threadId
        logPrefix := (log.value (ascii "prefix") lib.getString).getD l.logPrefix } := by
  simp only [readLogging,bind_eq_ok] at h
  obtain ⟨x1,h1,x2,h2,x3,h3,x4,h4,hx⟩ := h
  cases hx
  rw [readMember_eq_ok h1,readMember_eq_ok h2,readMember_eq_ok h3,readMember_eq_ok h4]

theorem readUi_eq_ok {ui : Json} {u x : UIConfig} (h : readUi lib ui u = .ok x) : x =
    { liveMode := (ui.value (ascii "live_mode") lib.getBool).getD u.liveMode
      pollIntervalMs := (ui.value (ascii "poll_interval_ms") lib.getU32).getD u.pollIntervalMs
      maxLiveEvents := (ui.value (ascii "max_live_events") lib.getU32).getD u.maxLiveEvents } := by
  simp only [readUi,bind_eq_ok] at h
  obtain ⟨x1,h1,x2,h2,x3,h3,hx⟩ := h
  cases hx
  rw [readMember_eq_ok h1,readMember_eq_ok h2,readMember_eq_ok h3]

/-- A document that is read gives each setting its value, and the others keep theirs. -/
theorem readDocument_eq_ok (h : readDocument lib j d = .ok c) (f : ConfigField) :
    c.get f = (lib.given j f).getD (d.get f) := by
  simp only [readDocument,bind_eq_ok] at h
  obtain ⟨v,hv,i,hi,o,ho,l,hl,u,hu,hc⟩ := h
  cases hc
  have hversion : ∀ s x, readVersion lib s d.schemaVersion = .ok x →
      x = ((lib.getU32 s).toOption).getD d.schemaVersion := by
    intro s x hx
    rw [readVersion_eq_ok hx]
    rfl
  rw [readSection_eq_ok hversion hv,readSection_eq_ok (fun _ _ => readInstrumentation_eq_ok) hi,
    readSection_eq_ok (fun _ _ => readOutput_eq_ok) ho,
    readSection_eq_ok (fun _ _ => readLogging_eq_ok) hl,readSection_eq_ok (fun _ _ => readUi_eq_ok) hu]
  cases f with
  | schemaVersion =>
    simp only [get,JsonLibrary.given,Json.value]
    cases j.member (ascii "schema_version") <;> rfl
  | enableOpTiming | enableMemoryTracking | recordTensorNames | maxEvents | opTypesToTrace
  | backendsToTrace =>
    simp only [get,JsonLibrary.given,Json.valueIn]
    cases j.member (ascii "instrumentation") <;> rfl
  | filename | writeToFile | flushInterval =>
    simp only [get,JsonLibrary.given,Json.valueIn]
    cases j.member (ascii "output") <;> rfl
  | level | timestamp | threadId | logPrefix =>
    simp only [get,JsonLibrary.given,Json.valueIn]
    cases j.member (ascii "logging") <;> rfl
  | liveMode | pollIntervalMs | maxLiveEvents =>
    simp only [get,JsonLibrary.given,Json.valueIn]
    cases j.member (ascii "ui") <;> rfl

theorem fromJson_eq_ok (h : fromJson lib text = .ok c) :
    c.isValid = true ∧ ∃ j, lib.parse text = .ok j ∧
      ∀ f : ConfigField, c.get f = (lib.given j f).getD (defaultConfig.get f) := by
  unfold fromJson at h
  split at h
  · cases h
  · cases h
  · next config hread =>
    split at h
    · next hvalid =>
      cases h
      obtain ⟨j,hj,hdoc⟩ := bind_eq_ok.mp hread
      refine ⟨hvalid,j,?_,readDocument_eq_ok hdoc⟩
      cases hparse : lib.parse text with
      | error e => rw [hparse] at hj; cases hj
      | ok j' =>
        rw [hparse] at hj
        cases hj
        rfl
    · cases h

end Config
end GgmlViz
