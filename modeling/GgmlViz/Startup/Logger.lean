import GgmlViz.Config.Environment

/-! # The logger

`Logger` takes its settings from the environment when it is first used, and later, if at all,
from a configuration, which has a value for each of them.
-/
namespace GgmlViz
open LittleEndian

inductive LogLevel
  | debug
  | info
  | warn
  | errorLevel
  | fatal
  deriving DecidableEq

namespace LogLevel

/-- `static_cast<int>` -/
def toInt : LogLevel → ℤ
  | debug => 0
  | info => 1
  | warn => 2
  | errorLevel => 3
  | fatal => 4

/-- `level_to_string` -/
def toText : LogLevel → Bytes
  | debug => ascii "DEBUG"
  | info => ascii "INFO"
  | warn => ascii "WARN"
  | errorLevel => ascii "ERROR"
  | fatal => ascii "FATAL"

/-- The values of `GGML_VIZ_LOG_LEVEL`. -/
def ofText (text : Bytes) : Option LogLevel :=
  if text = ascii "DEBUG" ∨ text = ascii "debug" then some debug
  else if text = ascii "INFO" ∨ text = ascii "info" then some info
  else if text = ascii "WARN" ∨ text = ascii "warn" then some warn
  else if text = ascii "ERROR" ∨ text = ascii "error" then some errorLevel
  else if text = ascii "FATAL" ∨ text = ascii "fatal" then some fatal
  else none

def ofConfig : ConfigLogLevel → LogLevel
  | .debug => debug
  | .info => info
  | .warn => warn
  | .errorLevel => errorLevel
  | .fatal => fatal

end LogLevel

structure Logger where
  currentLevel : LogLevel := .info
  timestampEnabled : Bool := true
  threadIdEnabled : Bool := false
  logPrefix : Bytes := ascii "[GGML_VIZ]"
  deriving DecidableEq

/-- What a line takes from the clock and from its thread. -/
structure LogStamp where
  timestamp : Bytes
  threadId : Bytes

inductive OutputStream
  | cout
  | cerr
  deriving DecidableEq

abbrev Printed := List (OutputStream × Bytes)

namespace Logger

def configureFromEnv (getenv : Environ) (l : Logger) : Logger :=
  -- only this value, unlike the one that the configuration accepts
  let l :=
    if getenv (ascii "GGML_VIZ_VERBOSE") = some (ascii "1") then { l with currentLevel := .debug }
    else l
  let l :=
    match (getenv (ascii "GGML_VIZ_LOG_LEVEL")).bind LogLevel.ofText with
    | some currentLevel => { l with currentLevel }
    | none => l
  let l :=
    match getenv (ascii "GGML_VIZ_LOG_TIMESTAMP") with
    | some timestamp => { l with timestampEnabled := switchedOn (some timestamp) }
    | none => l
  let l :=
    match getenv (ascii "GGML_VIZ_LOG_THREAD_ID") with
    | some threadId => { l with threadIdEnabled := switchedOn (some threadId) }
    | none => l
  match getenv (ascii "GGML_VIZ_LOG_PREFIX") with
  | some logPrefix => { l with logPrefix }
  | none => l

/-- The constructor. -/
def create (getenv : Environ) : Logger := ({} : Logger).configureFromEnv getenv

def configureFromConfig (config : Config) (l : Logger) : Logger :=
  { l with
    currentLevel := .ofConfig config.logging.level
    timestampEnabled := config.logging.timestamp
    threadIdEnabled := config.logging.threadId
    logPrefix := config.logging.logPrefix }

def shouldLog (level : LogLevel) (l : Logger) : Bool := l.currentLevel.toInt ≤ level.toInt

/-- `log`, with what it prints. -/
def log (stamp : LogStamp) (level : LogLevel) (message : Bytes) (l : Logger) : Printed :=
  if !l.shouldLog level then []
  else
    let line :=
      (if l.logPrefix ≠ [] then l.logPrefix ++ ascii " " else []) ++
      (if l.timestampEnabled then ascii "[" ++ stamp.timestamp ++ ascii "] " else []) ++
      (ascii "[" ++ level.toText ++ ascii "] ") ++
      (if l.threadIdEnabled then ascii "[T:" ++ stamp.threadId ++ ascii "] " else []) ++ message
    [(if LogLevel.errorLevel.toInt ≤ level.toInt then .cerr else .cout,line)]

/-- Messages of one level, one after the other. -/
def logAll (stamps : ℕ → LogStamp) (level : LogLevel) (messages : List Bytes) (l : Logger) :
    Printed :=
  messages.zipIdx.flatMap (fun x => l.log (stamps x.2) level x.1)

/-- A level below the current one is silent, a message of another level is a line. -/
theorem length_logAll (stamps : ℕ → LogStamp) (level : LogLevel) (messages : List Bytes)
    (l : Logger) : (l.logAll stamps level messages).length =
      if l.shouldLog level then messages.length else 0 := by
  have hlog (stamp : LogStamp) (message : Bytes) :
      (l.log stamp level message).length = if l.shouldLog level then 1 else 0 := by
    unfold log
    cases l.shouldLog level <;> rfl
  rw [logAll,List.length_flatMap]
  simp only [hlog,List.map_const',List.sum_replicate_nat,List.length_zipIdx]
  cases l.shouldLog level <;> simp

end Logger
end GgmlViz
