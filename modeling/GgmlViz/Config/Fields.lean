import GgmlViz.Config.Config

/-! # The settings one by one

Merging, reading and validation treat all settings alike, so a statement about the
configuration is a statement about each of its fields.
-/
namespace GgmlViz
open LittleEndian

inductive ConfigField
  | schemaVersion
  -- instrumentation
  | enableOpTiming
  | enableMemoryTracking
  | recordTensorNames
  | maxEvents
  | opTypesToTrace
  | backendsToTrace
  -- output
  | filename
  | writeToFile
  | flushInterval
  -- logging
  | level
  | timestamp
  | threadId
  | logPrefix
  -- ui
  | liveMode
  | pollIntervalMs
  | maxLiveEvents
  deriving DecidableEq

/-- The type of a setting. -/
abbrev ConfigField.Value : ConfigField → Type
  | .enableOpTiming | .enableMemoryTracking | .recordTensorNames | .writeToFile => Bool
  | .timestamp | .threadId | .liveMode => Bool
  | .schemaVersion | .flushInterval | .pollIntervalMs | .maxLiveEvents => UInt32
  | .maxEvents => UInt64
  | .opTypesToTrace => List UInt32
  | .backendsToTrace => List Bytes
  | .filename | .logPrefix => Bytes
  | .level => ConfigLogLevel

instance : (f : ConfigField) → DecidableEq f.Value
  | .enableOpTiming | .enableMemoryTracking | .recordTensorNames | .writeToFile =>
    inferInstanceAs (DecidableEq Bool)
  | .timestamp | .threadId | .liveMode => inferInstanceAs (DecidableEq Bool)
  | .schemaVersion | .flushInterval | .pollIntervalMs | .maxLiveEvents =>
    inferInstanceAs (DecidableEq UInt32)
  | .maxEvents => inferInstanceAs (DecidableEq UInt64)
  | .opTypesToTrace => inferInstanceAs (DecidableEq (List UInt32))
  | .backendsToTrace => inferInstanceAs (DecidableEq (List Bytes))
  | .filename | .logPrefix => inferInstanceAs (DecidableEq Bytes)
  | .level => inferInstanceAs (DecidableEq ConfigLogLevel)

namespace Config

def get (c : Config) : (f : ConfigField) → f.Value
  | .schemaVersion => c.schemaVersion
  | .enableOpTiming => c.instrumentation.enableOpTiming
  | .enableMemoryTracking => c.instrumentation.enableMemoryTracking
  | .recordTensorNames => c.instrumentation.recordTensorNames
  | .maxEvents => c.instrumentation.maxEvents
  | .opTypesToTrace => c.instrumentation.opTypesToTrace
  | .backendsToTrace => c.instrumentation.backendsToTrace
  | .filename => c.output.filename
  | .writeToFile => c.output.writeToFile
  | .flushInterval => c.output.flushInterval
  | .level => c.logging.level
  | .timestamp => c.logging.timestamp
  | .threadId => c.logging.threadId
  | .logPrefix => c.logging.logPrefix
  | .liveMode => c.ui.liveMode
  | .pollIntervalMs => c.ui.pollIntervalMs
  | .maxLiveEvents => c.ui.maxLiveEvents

/-- `valid_backends`. -/
def validBackends : List Bytes :=
  [ascii "cpu",ascii "metal",ascii "cuda",ascii "vulkan",ascii "opencl"]

/-- `std::to_string`. -/
def decimal (n : ℕ) : Bytes := ascii (toString n)

/-- Empty if the configuration is valid. -/
def validationError (c : Config) : Bytes :=
  if c.schemaVersion ≠ 1 then ascii "Unsupported schema version: " ++ decimal c.schemaVersion.toNat
  else if c.instrumentation.maxEvents = 0 then
    ascii "instrumentation.max_events must be greater than 0"
  else if c.instrumentation.maxEvents > 100000000 then
    ascii "instrumentation.max_events exceeds maximum (100M)"
  else if c.output.filename = [] then ascii "output.filename cannot be empty"
  else if c.output.flushInterval = 0 then ascii "output.flush_interval must be greater than 0"
  else if c.ui.pollIntervalMs = 0 then ascii "ui.poll_interval_ms must be greater than 0"
  else if c.ui.maxLiveEvents = 0 then ascii "ui.max_live_events must be greater than 0"
  else
    match c.instrumentation.backendsToTrace.find? (fun backend => backend ∉ validBackends) with
    | some backend => ascii "Invalid backend name: " ++ backend ++
        ascii ". Valid backends: cpu, metal, cuda, vulkan, opencl"
    | none => []

def isValid (c : Config) : Bool := c.validationError = []

end Config

/-- What the validation asks of a setting. -/
def ConfigField.Admits : (f : ConfigField) → f.Value → Prop
  | .schemaVersion, n => n = (1 : UInt32)
  | .maxEvents, n => n ≠ (0 : UInt64) ∧ n ≤ (100000000 : UInt64)
  | .backendsToTrace, names => ∀ name ∈ (show List Bytes from names), name ∈ Config.validBackends
  | .filename, name => name ≠ ([] : Bytes)
  | .flushInterval, n | .pollIntervalMs, n | .maxLiveEvents, n => n ≠ (0 : UInt32)
  | _, _ => True

namespace Config
variable {c d : Config}

theorem ext_get (h : ∀ f, c.get f = d.get f) : c = d := by
  obtain ⟨v,⟨i1,i2,i3,i4,i5,i6⟩,⟨o1,o2,o3⟩,⟨l1,l2,l3,l4⟩,⟨u1,u2,u3⟩⟩ := c
  cases h .schemaVersion
  cases h .enableOpTiming
  cases h .enableMemoryTracking
  cases h .recordTensorNames
  cases h .maxEvents
  cases h .opTypesToTrace
  cases h .backendsToTrace
  cases h .filename
  cases h .writeToFile
  cases h .flushInterval
  cases h .level
  cases h .timestamp
  cases h .threadId
  cases h .logPrefix
  cases h .liveMode
  cases h .pollIntervalMs
  cases h .maxLiveEvents
  rfl

theorem ite_text_eq_nil {p : Prop} [Decidable p] {text rest : Bytes} (h : text ≠ []) :
    (if p then text else rest) = [] ↔ ¬p ∧ rest = [] := by
  by_cases hp : p
  · simp [hp,h]
  · simp [hp]

/-- A configuration is valid if and only if each setting is admitted. -/
theorem isValid_iff : c.isValid = true ↔ ∀ f : ConfigField, f.Admits (c.get f) := by
  have htext (s t : Bytes) (hs : s ≠ []) : s ++ t ≠ [] := List.append_ne_nil_of_left_ne_nil hs t
  have hbackends : (match c.instrumentation.backendsToTrace.find? (· ∉ validBackends) with
      | some backend => ascii "Invalid backend name: " ++ backend ++
          ascii ". Valid backends: cpu, metal, cuda, vulkan, opencl"
      | none => []) = [] ↔ ∀ name ∈ c.instrumentation.backendsToTrace, name ∈ validBackends := by
    split
    · next backend hfound =>
      obtain ⟨hno,hmem⟩ := And.intro (List.find?_some hfound) (List.mem_of_find?_eq_some hfound)
      refine iff_of_false (htext _ _ (htext _ _ (by decide))) ?_
      intro hall
      exact absurd (hall backend hmem) (by simpa using hno)
    · next hnone =>
      refine iff_of_true rfl ?_
      simpa using List.find?_eq_none.mp hnone
  rw [isValid,decide_eq_true_eq,validationError,ite_text_eq_nil (htext _ _ (by decide)),
    ite_text_eq_nil (by decide),ite_text_eq_nil (by decide),ite_text_eq_nil (by decide),
    ite_text_eq_nil (by decide),ite_text_eq_nil (by decide),ite_text_eq_nil (by decide),hbackends]
  constructor
  · rintro ⟨hversion,hzero,hmax,hfile,hflush,hpoll,hlive,hnames⟩ f
    cases f with
    | schemaVersion => exact not_not.mp hversion
    | maxEvents => exact ⟨hzero,UInt64.not_lt.mp hmax⟩
    | backendsToTrace => exact hnames
    | filename => exact hfile
    | flushInterval => exact hflush
    | pollIntervalMs => exact hpoll
    | maxLiveEvents => exact hlive
    | _ => trivial
  · intro h
    exact ⟨not_not.mpr (h .schemaVersion),(h .maxEvents).1,UInt64.not_lt.mpr (h .maxEvents).2,
      h .filename,h .flushInterval,h .pollIntervalMs,h .maxLiveEvents,h .backendsToTrace⟩

theorem isValid_defaultConfig : defaultConfig.isValid = true := by decide +kernel

end Config
end GgmlViz
