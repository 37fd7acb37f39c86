import GgmlViz.Foundation.LittleEndian

/-! # The configuration record

The settings that the hook reads at every event, with the defaults of the source.
-/
namespace GgmlViz
open LittleEndian

/-- A string literal as the bytes of a `std::string`. -/
def ascii (s : String) : Bytes := s.toList.map (fun c => UInt8.ofNat c.toNat)

inductive ConfigLogLevel
  | debug
  | info
  | warn
  | errorLevel
  | fatal
  deriving DecidableEq, Repr

structure InstrumentationConfig where
  enableOpTiming : Bool := true
  enableMemoryTracking : Bool := false
  recordTensorNames : Bool := true
  maxEvents : UInt64 := 1000000
  /-- Empty means trace all. -/
  opTypesToTrace : List UInt32 := []
  backendsToTrace : List Bytes := [ascii "cpu",ascii "metal",ascii "cuda"]
  deriving DecidableEq

structure OutputConfig where
  filename : Bytes := ascii "ggml_trace.ggmlviz"
  writeToFile : Bool := true
  flushInterval : UInt32 := 4096
  deriving DecidableEq

structure LoggingConfig where
  level : ConfigLogLevel := .info
  timestamp : Bool := true
  threadId : Bool := false
  logPrefix : Bytes := ascii "[GGML_VIZ]"
  deriving DecidableEq

structure UIConfig where
  liveMode : Bool := false
  pollIntervalMs : UInt32 := 100
  maxLiveEvents : UInt32 := 50000
  deriving DecidableEq

structure Config where
  schemaVersion : UInt32 := 1
  instrumentation : InstrumentationConfig := {}
  output : OutputConfig := {}
  logging : LoggingConfig := {}
  ui : UIConfig := {}
  deriving DecidableEq

namespace Config

def defaultConfig : Config := {}

/-- What `start()` asks before it does anything. -/
def hooksEnabled (c : Config) : Bool :=
  c.instrumentation.enableOpTiming || c.instrumentation.enableMemoryTracking

end Config
end GgmlViz
