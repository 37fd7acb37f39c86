import GgmlViz.Config.Fields

/-! # The environment variables

`apply_env_overrides`, and what the environment gives for each setting.
-/
namespace GgmlViz
open LittleEndian

/-- `getenv`. -/
abbrev Environ := Bytes → Option Bytes

/-- `isspace`. -/
def isSpace (b : UInt8) : Bool := b = 32 || (9 ≤ b && b ≤ 13)

def isDigit (b : UInt8) : Bool := 48 ≤ b && b ≤ 57

def digitsValue (digits : Bytes) : ℕ := digits.foldl (fun n b => 10 * n + (b.toNat - 48)) 0

/-- The digits that a text begins with as a number, unless `std::stoull` throws. -/
def stoullDigits (text : Bytes) : Option UInt64 :=
  let digits := text.takeWhile isDigit
  -- `std::invalid_argument`, then `std::out_of_range`
  if digits = [] then none
  else if digitsValue digits < 2 ^ 64 then some (UInt64.ofNat (digitsValue digits))
  else none

/-- `std::stoull` in base 10, `none` where it throws. -/
def stoull (text : Bytes) : Option UInt64 :=
  match text.dropWhile isSpace with
  | 45 :: rest => (stoullDigits rest).map (fun n => -n)
  | 43 :: rest => stoullDigits rest
  | text => stoullDigits text

example : stoull (ascii " -1 event") = some 18446744073709551615 := by decide

/-- `env && (std::string(env) == "1" || std::string(env) == "true")`. -/
def switchedOn (env : Option Bytes) : Bool := env = some (ascii "1") || env = some (ascii "true")

namespace Environ
variable (getenv : Environ)

def output : Option Bytes := getenv (ascii "GGML_VIZ_OUTPUT")

/-- `GGML_VIZ_MAX_EVENTS`, where it can be parsed. -/
def maxEvents : Option UInt64 := (getenv (ascii "GGML_VIZ_MAX_EVENTS")).bind stoull

def verbose : Bool := switchedOn (getenv (ascii "GGML_VIZ_VERBOSE"))

def disable : Bool := switchedOn (getenv (ascii "GGML_VIZ_DISABLE"))

/-- What the environment gives for a setting. -/
def given : (f : ConfigField) → Option f.Value
  | .filename => getenv.output
  | .writeToFile => if getenv.disable then some false else getenv.output.map (fun _ => true)
  | .maxEvents => getenv.maxEvents
  | .level => if getenv.verbose then some ConfigLogLevel.debug else none
  | .enableOpTiming | .enableMemoryTracking => if getenv.disable then some false else none
  | _ => none

/-- The environment gives no value that the validation refuses. -/
def Usable : Prop :=
  getenv.output ≠ some [] ∧ ∀ n, getenv.maxEvents = some n → n ≠ 0 ∧ n ≤ 100000000

/-- The environment without the values that cannot be used. -/
def dropUnusable : Environ := fun name =>
  if name = ascii "GGML_VIZ_OUTPUT" then (getenv name).filter (fun value => value ≠ [])
  else if name = ascii "GGML_VIZ_MAX_EVENTS" then
    (getenv name).filter (fun value => (stoull value).any (fun n => n ≠ 0 && n ≤ 100000000))
  else getenv name

end Environ

namespace Config

def applyEnvOverrides (getenv : Environ) (c : Config) : Config :=
  let c := match getenv.output with
    | some envOutput => { c with output := { c.output with
        filename := envOutput, writeToFile := true } }
    | none => c
  let c := match getenv.maxEvents with
    | some n => { c with instrumentation := { c.instrumentation with maxEvents := n } }
    -- unset, or only a warning
    | none => c
  let c := if getenv.verbose then { c with logging := { c.logging with level := .debug } } else c
  if getenv.disable then
    { c with
      instrumentation := { c.instrumentation with
        enableOpTiming := false, enableMemoryTracking := false }
      output := { c.output with writeToFile := false } }
  else c

variable {getenv : Environ}

/-- The environment replaces the settings it gives, and no others. -/
theorem get_applyEnvOverrides (c : Config) (f : ConfigField) :
    (c.applyEnvOverrides getenv).get f = (getenv.given f).getD (c.get f) := by
  unfold applyEnvOverrides Environ.given
  cases getenv.output <;> cases getenv.maxEvents <;> cases getenv.verbose <;>
    cases getenv.disable <;> cases f <;> rfl

end Config

namespace Environ
variable {getenv : Environ}

theorem usable_iff : getenv.Usable ↔ ∀ (f : ConfigField) (v : f.Value),
    getenv.given f = some v → f.Admits v := by
  constructor
  · rintro ⟨hout,hmax⟩ f v hv
    cases f with
    | filename =>
      rintro rfl
      exact hout hv
    | maxEvents => exact hmax v hv
    | schemaVersion | backendsToTrace | flushInterval | pollIntervalMs | maxLiveEvents => cases hv
    | _ => trivial
  · intro h
    refine ⟨?_,fun n hn => h .maxEvents n hn⟩
    intro hout
    exact h .filename [] hout rfl

section DropUnusable

theorem output_dropUnusable : getenv.dropUnusable.output = getenv.output.filter (· ≠ []) := by
  rw [output,dropUnusable,if_pos rfl,output]

theorem maxEvents_dropUnusable :
    getenv.dropUnusable.maxEvents = getenv.maxEvents.filter (fun n => n ≠ 0 && n ≤ 100000000) := by
  have hname : ascii "GGML_VIZ_MAX_EVENTS" ≠ ascii "GGML_VIZ_OUTPUT" := by decide
  rw [maxEvents,dropUnusable,if_neg hname,if_pos rfl,maxEvents]
  cases getenv (ascii "GGML_VIZ_MAX_EVENTS") with
  | none => rfl
  | some value =>
    cases hvalue : stoull value with
    | none => simp [hvalue]
    | some n => by_cases hn : n ≠ 0 ∧ n ≤ 100000000 <;> simp [Option.filter,hvalue,hn]

theorem verbose_dropUnusable : getenv.dropUnusable.verbose = getenv.verbose := by
  have houtput : ascii "GGML_VIZ_VERBOSE" ≠ ascii "GGML_VIZ_OUTPUT" := by decide
  have hmax : ascii "GGML_VIZ_VERBOSE" ≠ ascii "GGML_VIZ_MAX_EVENTS" := by decide
  rw [verbose,dropUnusable,if_neg houtput,if_neg hmax,verbose]

theorem disable_dropUnusable : getenv.dropUnusable.disable = getenv.disable := by
  have houtput : ascii "GGML_VIZ_DISABLE" ≠ ascii "GGML_VIZ_OUTPUT" := by decide
  have hmax : ascii "GGML_VIZ_DISABLE" ≠ ascii "GGML_VIZ_MAX_EVENTS" := by decide
  rw [disable,dropUnusable,if_neg houtput,if_neg hmax,disable]

theorem usable_dropUnusable : getenv.dropUnusable.Usable := by
  constructor
  · rw [output_dropUnusable]
    intro h
    simpa using (Option.filter_eq_some_iff.mp h).2
  · intro n hn
    rw [maxEvents_dropUnusable] at hn
    simpa using (Option.filter_eq_some_iff.mp hn).2

theorem filter_eq_of_forall {α : Type} {o : Option α} {p : α → Bool}
    (h : ∀ a, o = some a → p a = true) : o.filter p = o := by
  cases o with
  | none => rfl
  | some a => exact Option.filter_some_pos (h a rfl)

/-- A usable environment loses nothing. -/
theorem Usable.applyEnvOverrides_dropUnusable (h : getenv.Usable) (c : Config) :
    c.applyEnvOverrides getenv.dropUnusable = c.applyEnvOverrides getenv := by
  have houtput : getenv.dropUnusable.output = getenv.output := by
    rw [output_dropUnusable]
    apply filter_eq_of_forall
    intro name hname
    have hne : name ≠ [] := fun hnil => h.1 (hnil ▸ hname)
    simpa using hne
  have hmax : getenv.dropUnusable.maxEvents = getenv.maxEvents := by
    rw [maxEvents_dropUnusable]
    apply filter_eq_of_forall
    intro n hn
    simpa using h.2 n hn
  rw [Config.applyEnvOverrides,houtput,hmax,verbose_dropUnusable,disable_dropUnusable,
    ← Config.applyEnvOverrides]

end DropUnusable
end Environ
end GgmlViz
