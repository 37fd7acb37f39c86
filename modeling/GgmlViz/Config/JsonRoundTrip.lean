import GgmlViz.Config.Document

/-! # Reading back what `to_json` writes

Both functions spell out the keys of all settings; reading the document of a valid
configuration finds every one of them.
-/
namespace GgmlViz
open LittleEndian

namespace Config

def instrumentationDocument (c : InstrumentationConfig) : Json :=
  .object [(ascii "backends_to_trace",.array (c.backendsToTrace.map .string)),
    (ascii "enable_memory_tracking",.boolean c.enableMemoryTracking),
    (ascii "enable_op_timing",.boolean c.enableOpTiming),
    (ascii "max_events",.unsigned c.maxEvents),
    (ascii "op_types_to_trace",.array (c.opTypesToTrace.map (fun n => .unsigned n.toUInt64))),
    (ascii "record_tensor_names",.boolean c.recordTensorNames)]

def loggingDocument (c : LoggingConfig) : Json :=
  .object [(ascii "level",.string (logLevelToString c.level)),(ascii "prefix",.string c.logPrefix),
    (ascii "thread_id",.boolean c.threadId),(ascii "timestamp",.boolean c.timestamp)]

def outputDocument (c : OutputConfig) : Json :=
  .object [(ascii "filename",.string c.filename),
    (ascii "flush_interval",.unsigned c.flushInterval.toUInt64),
    (ascii "write_to_file",.boolean c.writeToFile)]

def uiDocument (c : UIConfig) : Json :=
  .object [(ascii "live_mode",.boolean c.liveMode),
    (ascii "max_live_events",.unsigned c.maxLiveEvents.toUInt64),
    (ascii "poll_interval_ms",.unsigned c.pollIntervalMs.toUInt64)]

section Put
variable (version instrumentation logging output : Json)

theorem putInstrumentation_eq (c : InstrumentationConfig) :
    putInstrumentation c (Json.null.set (ascii "schema_version") version) =
      .object [(ascii "instrumentation",instrumentationDocument c),
        (ascii "schema_version",version)] :=
  rfl

theorem putOutput_eq (c : OutputConfig) :
    putOutput c (.object [(ascii "instrumentation",instrumentation),
        (ascii "schema_version",version)]) =
      .object [(ascii "instrumentation",instrumentation),(ascii "output",outputDocument c),
        (ascii "schema_version",version)] :=
  rfl

theorem putLogging_eq (c : LoggingConfig) :
    putLogging c (.object [(ascii "instrumentation",instrumentation),(ascii "output",output),
        (ascii "schema_version",version)]) =
      .object [(ascii "instrumentation",instrumentation),(ascii "logging",loggingDocument c),
        (ascii "output",output),(ascii "schema_version",version)] :=
  rfl

theorem putUi_eq (c : UIConfig) :
    putUi c (.object [(ascii "instrumentation",instrumentation),(ascii "logging",logging),
        (ascii "output",output),(ascii "schema_version",version)]) =
      .object [(ascii "instrumentation",instrumentation),(ascii "logging",logging),
        (ascii "output",output),(ascii "schema_version",version),(ascii "ui",uiDocument c)] :=
  rfl

end Put

/-- The document with its members in order. -/
theorem document_eq (c : Config) : c.document =
    .object [(ascii "instrumentation",instrumentationDocument c.instrumentation),
      (ascii "logging",loggingDocument c.logging),(ascii "output",outputDocument c.output),
      (ascii "schema_version",.unsigned c.schemaVersion.toUInt64),(ascii "ui",uiDocument c.ui)] := by
  rw [document,putInstrumentation_eq,putOutput_eq,putLogging_eq,putUi_eq]

/-- The strings of a configuration are valid UTF-8. -/
structure Utf8 (c : Config) : Prop where
  backendsToTrace : ∀ name ∈ c.instrumentation.backendsToTrace, Json.ValidText name
  filename : Json.ValidText c.output.filename
  logPrefix : Json.ValidText c.logging.logPrefix

section Read
variable {lib : JsonLibrary} {α : Type}

theorem readMember_of_member {obj v : Json} {key : Bytes} {conv : Json → Except Bytes α}
    {field x : α} (hm : obj.member key = some v) (hv : conv v = .ok x) :
    readMember obj key conv field = .ok x := by
  simp only [readMember,hm,hv]
  rfl

theorem readSection_of_member {j s : Json} {key : Bytes} {read : Json → α → Except Thrown α}
    {settings x : α} (hm : j.member key = some s) (hread : read s settings = .ok x) :
    readSection j key read settings = .ok x := by
  simp only [readSection,hm]
  exact hread

theorem stringToLogLevel_logLevelToString (level : ConfigLogLevel) :
    stringToLogLevel (logLevelToString level) = level := by
  cases level <;> decide

variable (h : lib.Exact)
include h

theorem readInstrumentation_document (c d : InstrumentationConfig) :
    readInstrumentation lib (instrumentationDocument c) d = .ok c := by
  refine bind_eq_ok.mpr ⟨_,readMember_of_member rfl (h.bool _),?_⟩
  refine bind_eq_ok.mpr ⟨_,readMember_of_member rfl (h.bool _),?_⟩
  refine bind_eq_ok.mpr ⟨_,readMember_of_member rfl (h.bool _),?_⟩
  refine bind_eq_ok.mpr ⟨_,readMember_of_member rfl (h.u64 _),?_⟩
  refine bind_eq_ok.mpr ⟨_,readMember_of_member rfl (h.u32s _),?_⟩
  exact bind_eq_ok.mpr ⟨_,readMember_of_member rfl (h.strings _),rfl⟩

theorem readOutput_document (c d : OutputConfig) :
    readOutput lib (outputDocument c) d = .ok c := by
  refine bind_eq_ok.mpr ⟨_,readMember_of_member rfl (h.string _),?_⟩
  refine bind_eq_ok.mpr ⟨_,readMember_of_member rfl (h.bool _),?_⟩
  exact bind_eq_ok.mpr ⟨_,readMember_of_member rfl (h.u32 _),rfl⟩

theorem readLogging_document (c d : LoggingConfig) :
    readLogging lib (loggingDocument c) d = .ok c := by
  have hlevel : getLevel lib (.string (logLevelToString c.level)) = .ok c.level := by
    rw [getLevel,h.string,Except.map,stringToLogLevel_logLevelToString]
  refine bind_eq_ok.mpr ⟨_,readMember_of_member rfl hlevel,?_⟩
  refine bind_eq_ok.mpr ⟨_,readMember_of_member rfl (h.bool _),?_⟩
  refine bind_eq_ok.mpr ⟨_,readMember_of_member rfl (h.bool _),?_⟩
  exact bind_eq_ok.mpr ⟨_,readMember_of_member rfl (h.string _),rfl⟩

theorem readUi_document (c d : UIConfig) : readUi lib (uiDocument c) d = .ok c := by
  refine bind_eq_ok.mpr ⟨_,readMember_of_member rfl (h.bool _),?_⟩
  refine bind_eq_ok.mpr ⟨_,readMember_of_member rfl (h.u32 _),?_⟩
  exact bind_eq_ok.mpr ⟨_,readMember_of_member rfl (h.u32 _),rfl⟩

theorem readVersion_one (d : UInt32) :
    readVersion lib (.unsigned (1 : UInt32).toUInt64) d = .ok 1 :=
  bind_eq_ok.mpr ⟨1,by rw [h.u32]; rfl,rfl⟩

theorem readDocument_document {c : Config} (hversion : c.schemaVersion = 1) (d : Config) :
    readDocument lib c.document d = .ok c := by
  rw [document_eq,hversion]
  refine bind_eq_ok.mpr ⟨1,readSection_of_member rfl (readVersion_one h _),?_⟩
  refine bind_eq_ok.mpr ⟨_,readSection_of_member rfl (readInstrumentation_document h _ _),?_⟩
  refine bind_eq_ok.mpr ⟨_,readSection_of_member rfl (readOutput_document h _ _),?_⟩
  refine bind_eq_ok.mpr ⟨_,readSection_of_member rfl (readLogging_document h _ _),?_⟩
  refine bind_eq_ok.mpr ⟨_,readSection_of_member rfl (readUi_document h _ _),?_⟩
  rw [← hversion]
  rfl

end Read

section Utf8

theorem utf8_object {members : List (Bytes × Json)}
    (hkeys : ∀ key ∈ members.map Prod.fst, Json.ValidText key)
    (hvalues : ∀ v ∈ members.map Prod.snd, v.Utf8) : (Json.object members).Utf8 :=
  .object (fun _ hm => hkeys _ (List.mem_map_of_mem hm))
    (fun _ hm => hvalues _ (List.mem_map_of_mem hm))

theorem utf8_instrumentationDocument {c : InstrumentationConfig}
    (h : ∀ name ∈ c.backendsToTrace, Json.ValidText name) : (instrumentationDocument c).Utf8 := by
  apply utf8_object
  · show ∀ key ∈ [ascii "backends_to_trace",ascii "enable_memory_tracking",
      ascii "enable_op_timing",ascii "max_events",ascii "op_types_to_trace",
      ascii "record_tensor_names"],Json.ValidText key
    decide +kernel
  · have hnames : (Json.array (c.backendsToTrace.map .string)).Utf8 := by
      apply Json.Utf8.array
      intro x hx
      obtain ⟨name,hname,rfl⟩ := List.mem_map.mp hx
      exact .string (h name hname)
    have htypes : (Json.array (c.opTypesToTrace.map (fun n => .unsigned n.toUInt64))).Utf8 := by
      apply Json.Utf8.array
      intro x hx
      obtain ⟨n,-,rfl⟩ := List.mem_map.mp hx
      exact .unsigned _
    simp only [List.map_cons,List.map_nil,List.forall_mem_cons]
    exact ⟨hnames,.boolean _,.boolean _,.unsigned _,htypes,.boolean _,
      fun _ hx => absurd hx List.not_mem_nil⟩

theorem utf8_loggingDocument {c : LoggingConfig} (h : Json.ValidText c.logPrefix) :
    (loggingDocument c).Utf8 := by
  apply utf8_object
  · show ∀ key ∈ [ascii "level",ascii "prefix",ascii "thread_id",ascii "timestamp"],
      Json.ValidText key
    decide +kernel
  · have hlevel : Json.ValidText (logLevelToString c.level) := by
      cases c.level <;> decide +kernel
    simp only [List.map_cons,List.map_nil,List.forall_mem_cons]
    exact ⟨.string hlevel,.string h,.boolean _,.boolean _,fun _ hx => absurd hx List.not_mem_nil⟩

theorem utf8_outputDocument {c : OutputConfig} (h : Json.ValidText c.filename) :
    (outputDocument c).Utf8 := by
  apply utf8_object
  · show ∀ key ∈ [ascii "filename",ascii "flush_interval",ascii "write_to_file"],
      Json.ValidText key
    decide +kernel
  · simp only [List.map_cons,List.map_nil,List.forall_mem_cons]
    exact ⟨.string h,.unsigned _,.boolean _,fun _ hx => absurd hx List.not_mem_nil⟩

theorem utf8_uiDocument (c : UIConfig) : (uiDocument c).Utf8 := by
  apply utf8_object
  · show ∀ key ∈ [ascii "live_mode",ascii "max_live_events",ascii "poll_interval_ms"],
      Json.ValidText key
    decide +kernel
  · simp only [List.map_cons,List.map_nil,List.forall_mem_cons]
    exact ⟨.boolean _,.unsigned _,.unsigned _,fun _ hx => absurd hx List.not_mem_nil⟩

theorem Utf8.document {c : Config} (h : c.Utf8) : c.document.Utf8 := by
  rw [document_eq]
  apply utf8_object
  · show ∀ key ∈ [ascii "instrumentation",ascii "logging",ascii "output",ascii "schema_version",
      ascii "ui"],Json.ValidText key
    decide +kernel
  · simp only [List.map_cons,List.map_nil,List.forall_mem_cons]
    exact ⟨utf8_instrumentationDocument h.backendsToTrace,utf8_loggingDocument h.logPrefix,
      utf8_outputDocument h.filename,.unsigned _,utf8_uiDocument _,
      fun _ hx => absurd hx List.not_mem_nil⟩

end Utf8

/-- A valid configuration with strings in UTF-8 is read back from its text unchanged, if the
library keeps its document and converts exactly. -/
theorem fromJson_toJson {lib : JsonLibrary} (hlib : lib.Exact) {c : Config}
    (hc : c.isValid = true) (hu : c.Utf8) (hround : c.document.Utf8 → lib.RoundTrips c.document) :
    ∃ text, c.toJson lib = .ok text ∧ fromJson lib text = .ok c := by
  obtain ⟨text,hdump,hparse⟩ := hround hu.document
  refine ⟨text,hdump,?_⟩
  have hread := readDocument_document hlib (isValid_iff.mp hc .schemaVersion) defaultConfig
  rw [fromJson,hparse]
  simp only [Except.mapError,bind,Except.bind,hread,hc,if_true]

section Run

/-- A configuration that differs from the defaults in every section. -/
def sample : Config :=
  { instrumentation := { opTypesToTrace := [3,7], backendsToTrace := [ascii "cpu"] }
    output := { writeToFile := false }
    logging := { level := .errorLevel }
    ui := { pollIntervalMs := 250 } }

/-- What is dumped for it. -/
def sampleText : Bytes := ascii "\x7b
  \"instrumentation\": \x7b
    \"backends_to_trace\": [
      \"cpu\"
    ],
    \"enable_memory_tracking\": false,
    \"enable_op_timing\": true,
    \"max_events\": 1000000,
    \"op_types_to_trace\": [
      3,
      7
    ],
    \"record_tensor_names\": true
  \x7d,
  \"logging\": \x7b
    \"level\": \"ERROR\",
    \"prefix\": \"[GGML_VIZ]\",
    \"thread_id\": false,
    \"timestamp\": true
  \x7d,
  \"output\": \x7b
    \"filename\": \"ggml_trace.ggmlviz\",
    \"flush_interval\": 4096,
    \"write_to_file\": false
  \x7d,
  \"schema_version\": 1,
  \"ui\": \x7b
    \"live_mode\": false,
    \"max_live_events\": 50000,
    \"poll_interval_ms\": 250
  \x7d
\x7d"

theorem fromJson_toJson_sample : let lib := JsonLibrary.ofTexts [(sampleText,sample.document)]
    ∃ text, sample.toJson lib = .ok text ∧ fromJson lib text = .ok sample := by
  have hu : sample.Utf8 :=
    { backendsToTrace := by decide +kernel
      filename := by decide +kernel
      logPrefix := by decide +kernel }
  exact fromJson_toJson (JsonLibrary.ofTexts_exact _) (by decide +kernel) hu
    (fun _ => JsonLibrary.ofTexts_roundTrips sampleText sample.document)

end Run
end Config
end GgmlViz
