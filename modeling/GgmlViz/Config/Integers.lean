import GgmlViz.Config.Document

/-! # Integer settings

What an accepted document says about its integer settings: the library casts a number to the
type of the setting before the validation looks at it.
-/
namespace GgmlViz
open LittleEndian

/-- The keys that lead to a setting. -/
def ConfigField.path : ConfigField → List Bytes
  | .schemaVersion => [ascii "schema_version"]
  | .enableOpTiming => [ascii "instrumentation",ascii "enable_op_timing"]
  | .enableMemoryTracking => [ascii "instrumentation",ascii "enable_memory_tracking"]
  | .recordTensorNames => [ascii "instrumentation",ascii "record_tensor_names"]
  | .maxEvents => [ascii "instrumentation",ascii "max_events"]
  | .opTypesToTrace => [ascii "instrumentation",ascii "op_types_to_trace"]
  | .backendsToTrace => [ascii "instrumentation",ascii "backends_to_trace"]
  | .filename => [ascii "output",ascii "filename"]
  | .writeToFile => [ascii "output",ascii "write_to_file"]
  | .flushInterval => [ascii "output",ascii "flush_interval"]
  | .level => [ascii "logging",ascii "level"]
  | .timestamp => [ascii "logging",ascii "timestamp"]
  | .threadId => [ascii "logging",ascii "thread_id"]
  | .logPrefix => [ascii "logging",ascii "prefix"]
  | .liveMode => [ascii "ui",ascii "live_mode"]
  | .pollIntervalMs => [ascii "ui",ascii "poll_interval_ms"]
  | .maxLiveEvents => [ascii "ui",ascii "max_live_events"]

namespace Json

def follow : List Bytes → Json → Option Json
  | [],j => some j
  | key :: keys,j => (j.member key).bind (follow keys)

/-- The value of a number written without fraction and exponent that 64 bits can hold. -/
def integer? : Json → Option ℤ
  | .unsigned n => some n.toNat
  | .integer n => some n.toInt
  | _ => none

/-- An integer that 32 bits can hold. -/
def FitsU32 (v : Json) : Prop := ∃ k, v.integer? = some k ∧ 0 ≤ k ∧ k < 2^32

/-- The member, if it is there, converts to `x`. -/
def Converts {α : Type} (obj : Json) (key : Bytes) (conv : Json → Except Bytes α) (x : α) : Prop :=
  ∀ v, obj.member key = some v → conv v = .ok x

end Json

namespace ConfigField

/-- An integer setting is the integer that the document holds. -/
def Keeps : (f : ConfigField) → Json → f.Value → Prop
  | .schemaVersion,v,n | .flushInterval,v,n | .pollIntervalMs,v,n | .maxLiveEvents,v,n =>
    v.integer? = some ((show UInt32 from n).toNat : ℤ)
  | .maxEvents,v,n => v.integer? = some ((show UInt64 from n).toNat : ℤ)
  | .opTypesToTrace,v,ns => ∃ xs, v = .array xs ∧
    List.Forall₂ (fun x n => x.integer? = some (n.toNat : ℤ)) xs (show List UInt32 from ns)
  | _,_,_ => True

/-- What a document has to hold at an integer setting. The range of `max_events` is left to the
validation, which no negative number passes. -/
def Fits : ConfigField → Json → Prop
  | .schemaVersion,v | .flushInterval,v | .pollIntervalMs,v | .maxLiveEvents,v => v.FitsU32
  | .maxEvents,v => v.integer?.isSome
  | .opTypesToTrace,v => ∀ xs, v = .array xs → ∀ x ∈ xs, x.FitsU32
  | _,_ => True

end ConfigField

namespace Json

def KeepsIntegers (j : Json) (c : Config) : Prop :=
  ∀ (f : ConfigField) (v : Json), j.follow f.path = some v → f.Keeps v (c.get f)

def IntegersFit (j : Json) : Prop :=
  ∀ (f : ConfigField) (v : Json), j.follow f.path = some v → f.Fits v

end Json

namespace JsonLibrary

/-- The conversion that the code asks for at a setting. -/
def convert (lib : JsonLibrary) : (f : ConfigField) → Json → Except Bytes f.Value
  | .schemaVersion | .flushInterval | .pollIntervalMs | .maxLiveEvents => lib.getU32
  | .enableOpTiming | .enableMemoryTracking | .recordTensorNames | .writeToFile => lib.getBool
  | .timestamp | .threadId | .liveMode => lib.getBool
  | .maxEvents => lib.getU64
  | .opTypesToTrace => lib.getU32s
  | .backendsToTrace => lib.getStrings
  | .filename | .logPrefix => lib.getString
  | .level => Config.getLevel lib

/-- An integer is converted by `static_cast`, and a vector is read from an array entry by entry. -/
structure Casts (lib : JsonLibrary) : Prop where
  u32_unsigned (n : UInt64) : lib.getU32 (.unsigned n) = .ok n.toUInt32
  u32_integer (n : Int64) : lib.getU32 (.integer n) = .ok n.toUInt64.toUInt32
  u64_unsigned (n : UInt64) : lib.getU64 (.unsigned n) = .ok n
  u64_integer (n : Int64) : lib.getU64 (.integer n) = .ok n.toUInt64
  u32s {v : Json} {ns : List UInt32} (h : lib.getU32s v = .ok ns) :
    ∃ xs, v = .array xs ∧ xs.mapM lib.getU32 = .ok ns

theorem ofTexts_casts (texts : List (Bytes × Json)) : (ofTexts texts).Casts where
  u32_unsigned _ := rfl
  u32_integer _ := rfl
  u64_unsigned _ := rfl
  u64_integer _ := rfl
  u32s := by
    intro v ns h
    cases v with
    | array xs => exact ⟨xs,rfl,h⟩
    | _ => cases h

end JsonLibrary

section Read
variable {α : Type} {obj j s : Json} {key : Bytes}

theorem readMember_converts {conv : Json → Except Bytes α} {field x : α}
    (h : readMember obj key conv field = .ok x) : obj.Converts key conv x := by
  intro v hv
  simp only [readMember,hv] at h
  cases hconv : conv v with
  | error e =>
    rw [hconv] at h
    cases h
  | ok y =>
    rw [hconv] at h
    cases h
    rfl

theorem readSection_reads {read : Json → α → Except Thrown α} {settings x : α}
    (h : readSection j key read settings = .ok x) (hs : j.member key = some s) :
    read s settings = .ok x := by
  simpa only [readSection,hs] using h

theorem readSection_converts {β : Type} {read : Json → α → Except Thrown α} {settings x : α}
    {inner : Bytes} {conv : Json → Except Bytes β} {y : β} {v : Json}
    (h : readSection j key read settings = .ok x)
    (hread : ∀ {obj}, read obj settings = .ok x → obj.Converts inner conv y)
    (hv : j.follow [key,inner] = some v) : conv v = .ok y := by
  obtain ⟨s,hs,hv⟩ := Option.bind_eq_some_iff.mp hv
  obtain ⟨w,hw,hv⟩ := Option.bind_eq_some_iff.mp hv
  cases hv
  exact hread (readSection_reads h hs) v hw

end Read

namespace Config
variable {lib : JsonLibrary} {j obj : Json} {text : Bytes} {c d : Config}

theorem readInstrumentation_converts {i x : InstrumentationConfig}
    (h : readInstrumentation lib obj i = .ok x) :
    obj.Converts (ascii "enable_op_timing") lib.getBool x.enableOpTiming ∧
    obj.Converts (ascii "enable_memory_tracking") lib.getBool x.enableMemoryTracking ∧
    obj.Converts (ascii "record_tensor_names") lib.getBool x.recordTensorNames ∧
    obj.Converts (ascii "max_events") lib.getU64 x.maxEvents ∧
    obj.Converts (ascii "op_types_to_trace") lib.getU32s x.opTypesToTrace ∧
    obj.Converts (ascii "backends_to_trace") lib.getStrings x.backendsToTrace := by
  simp only [readInstrumentation,bind_eq_ok] at h
  obtain ⟨x1,h1,x2,h2,x3,h3,x4,h4,x5,h5,x6,h6,hx⟩ := h
  cases hx
  exact ⟨readMember_converts h1,readMember_converts h2,readMember_converts h3,
    readMember_converts h4,readMember_converts h5,readMember_converts h6⟩

theorem readOutput_converts {o x : OutputConfig} (h : readOutput lib obj o = .ok x) :
    obj.Converts (ascii "filename") lib.getString x.filename ∧
    obj.Converts (ascii "write_to_file") lib.getBool x.writeToFile ∧
    obj.Converts (ascii "flush_interval") lib.getU32 x.flushInterval := by
  simp only [readOutput,bind_eq_ok] at h
  obtain ⟨x1,h1,x2,h2,x3,h3,hx⟩ := h
  cases hx
  exact ⟨readMember_converts h1,readMember_converts h2,readMember_converts h3⟩

theorem readLogging_converts {l x : LoggingConfig} (h : readLogging lib obj l = .ok x) :
    obj.Converts (ascii "level") (getLevel lib) x.level ∧
    obj.Converts (ascii "timestamp") lib.getBool x.timestamp ∧
    obj.Converts (ascii "thread_id") lib.getBool x.threadId ∧
    obj.Converts (ascii "prefix") lib.getString x.logPrefix := by
  simp only [readLogging,bind_eq_ok] at h
  obtain ⟨x1,h1,x2,h2,x3,h3,x4,h4,hx⟩ := h
  cases hx
  exact ⟨readMember_converts h1,readMember_converts h2,readMember_converts h3,
    readMember_converts h4⟩

theorem readUi_converts {u x : UIConfig} (h : readUi lib obj u = .ok x) :
    obj.Converts (ascii "live_mode") lib.getBool x.liveMode ∧
    obj.Converts (ascii "poll_interval_ms") lib.getU32 x.pollIntervalMs ∧
    obj.Converts (ascii "max_live_events") lib.getU32 x.maxLiveEvents := by
  simp only [readUi,bind_eq_ok] at h
  obtain ⟨x1,h1,x2,h2,x3,h3,hx⟩ := h
  cases hx
  exact ⟨readMember_converts h1,readMember_converts h2,readMember_converts h3⟩

/-- Whatever a document holds at a setting was converted, and is what the setting now is. -/
theorem readDocument_converts (h : readDocument lib j d = .ok c) {f : ConfigField} {v : Json}
    (hv : j.follow f.path = some v) : lib.convert f v = .ok (c.get f) := by
  simp only [readDocument,bind_eq_ok] at h
  obtain ⟨_,hversion,i,hi,o,ho,l,hl,u,hu,hc⟩ := h
  cases hc
  cases f with
  | schemaVersion =>
    obtain ⟨s,hs,hsv⟩ := Option.bind_eq_some_iff.mp hv
    cases hsv
    exact readVersion_eq_ok (readSection_reads hversion hs)
  | enableOpTiming => exact readSection_converts hi (fun h => (readInstrumentation_converts h).1) hv
  | enableMemoryTracking =>
    exact readSection_converts hi (fun h => (readInstrumentation_converts h).2.1) hv
  | recordTensorNames =>
    exact readSection_converts hi (fun h => (readInstrumentation_converts h).2.2.1) hv
  | maxEvents => exact readSection_converts hi (fun h => (readInstrumentation_converts h).2.2.2.1) hv
  | opTypesToTrace =>
    exact readSection_converts hi (fun h => (readInstrumentation_converts h).2.2.2.2.1) hv
  | backendsToTrace =>
    exact readSection_converts hi (fun h => (readInstrumentation_converts h).2.2.2.2.2) hv
  | filename => exact readSection_converts ho (fun h => (readOutput_converts h).1) hv
  | writeToFile => exact readSection_converts ho (fun h => (readOutput_converts h).2.1) hv
  | flushInterval => exact readSection_converts ho (fun h => (readOutput_converts h).2.2) hv
  | level => exact readSection_converts hl (fun h => (readLogging_converts h).1) hv
  | timestamp => exact readSection_converts hl (fun h => (readLogging_converts h).2.1) hv
  | threadId => exact readSection_converts hl (fun h => (readLogging_converts h).2.2.1) hv
  | logPrefix => exact readSection_converts hl (fun h => (readLogging_converts h).2.2.2) hv
  | liveMode => exact readSection_converts hu (fun h => (readUi_converts h).1) hv
  | pollIntervalMs => exact readSection_converts hu (fun h => (readUi_converts h).2.1) hv
  | maxLiveEvents => exact readSection_converts hu (fun h => (readUi_converts h).2.2) hv

theorem fromJson_converts (hparse : lib.parse text = .ok j) (h : fromJson lib text = .ok c)
    {f : ConfigField} {v : Json} (hv : j.follow f.path = some v) :
    lib.convert f v = .ok (c.get f) := by
  unfold fromJson at h
  split at h
  · cases h
  · cases h
  · next config hread =>
    obtain ⟨j',hj,hdoc⟩ := bind_eq_ok.mp hread
    rw [hparse] at hj
    cases hj
    split at h
    · cases h
      exact readDocument_converts hdoc hv
    · cases h

end Config

theorem toInt_eq_toNat_bmod (m : Int64) : m.toInt = (m.toUInt64.toNat : ℤ).bmod (2^64) :=
  BitVec.toInt_eq_toNat_bmod _

namespace JsonLibrary.Casts
variable {lib : JsonLibrary} {v : Json}

/-- A cast to 32 bits keeps an integer exactly if it is in range, and makes an integer of all else. -/
theorem integer?_eq_iff_u32 (hlib : lib.Casts) {n : UInt32} (h : lib.getU32 v = .ok n) :
    v.integer? = some (n.toNat : ℤ) ↔ v.FitsU32 := by
  constructor
  · intro hn
    exact ⟨n.toNat,hn,Int.natCast_nonneg _,by exact_mod_cast n.toNat_lt⟩
  · rintro ⟨k,hk,hzero,hlt⟩
    rw [hk]
    cases v with
    | unsigned m =>
      rw [hlib.u32_unsigned] at h
      cases h
      cases hk
      rw [UInt64.toNat_toUInt32]
      exact congrArg some (by omega)
    | integer m =>
      rw [hlib.u32_integer] at h
      cases h
      cases hk
      have hm := toInt_eq_toNat_bmod m
      have := m.toUInt64.toNat_lt
      rw [Int.bmod_def] at hm
      rw [UInt64.toNat_toUInt32]
      exact congrArg some (by omega)
    | _ => cases hk

/-- A negative number becomes one above the bound that the validation sets. -/
theorem integer?_eq_iff_u64 (hlib : lib.Casts) {n : UInt64} (h : lib.getU64 v = .ok n)
    (hmax : n ≤ 100000000) : v.integer? = some (n.toNat : ℤ) ↔ v.integer?.isSome := by
  constructor
  · intro hn
    rw [hn]
    rfl
  · intro hsome
    cases v with
    | unsigned m =>
      rw [hlib.u64_unsigned] at h
      cases h
      rfl
    | integer m =>
      rw [hlib.u64_integer] at h
      cases h
      have hm := toInt_eq_toNat_bmod m
      have hle := UInt64.le_iff_toNat_le.mp hmax
      simp only [UInt64.reduceToNat] at hle
      rw [Int.bmod_def] at hm
      exact congrArg some (by omega)
    | _ => cases hsome

theorem forall₂_of_mapM {α β ε : Type} {f : α → Except ε β} {xs : List α} {ys : List β}
    (h : xs.mapM f = .ok ys) : List.Forall₂ (fun x y => f x = .ok y) xs ys := by
  induction xs generalizing ys with
  | nil =>
    cases h
    exact .nil
  | cons x xs ih =>
    rw [List.mapM_cons,bind_eq_ok] at h
    obtain ⟨y,hy,h⟩ := h
    obtain ⟨zs,hzs,h⟩ := bind_eq_ok.mp h
    cases h
    exact .cons hy (ih hzs)

theorem forall₂_integer?_iff (hlib : lib.Casts) {xs : List Json} {ns : List UInt32}
    (h : List.Forall₂ (fun x n => lib.getU32 x = .ok n) xs ns) :
    List.Forall₂ (fun x n => x.integer? = some (n.toNat : ℤ)) xs ns ↔ ∀ x ∈ xs, x.FitsU32 := by
  induction h with
  | nil => simp
  | cons hx _ ih =>
    rw [List.forall₂_cons,List.forall_mem_cons,ih,hlib.integer?_eq_iff_u32 hx]

end JsonLibrary.Casts

section Settings
variable {lib : JsonLibrary} {text : Bytes} {j : Json} {c : Config}

theorem ConfigField.keeps_iff_fits (hlib : lib.Casts) (hvalid : c.isValid = true)
    {f : ConfigField} {v : Json} (h : lib.convert f v = .ok (c.get f)) :
    f.Keeps v (c.get f) ↔ f.Fits v := by
  cases f with
  | schemaVersion | flushInterval | pollIntervalMs | maxLiveEvents =>
    exact hlib.integer?_eq_iff_u32 h
  | maxEvents => exact hlib.integer?_eq_iff_u64 h (Config.isValid_iff.mp hvalid .maxEvents).2
  | opTypesToTrace =>
    obtain ⟨xs,rfl,hxs⟩ := hlib.u32s h
    have hiff := hlib.forall₂_integer?_iff (JsonLibrary.Casts.forall₂_of_mapM hxs)
    constructor
    · rintro ⟨ys,hys,hkeeps⟩ zs hzs
      cases hys
      cases hzs
      exact hiff.mp hkeeps
    · intro hfits
      exact ⟨xs,rfl,hiff.mpr (hfits xs rfl)⟩
  | _ => exact Iff.rfl

/-- A document with this flush interval. -/
def flushIntervalText (digits : Bytes) : Bytes :=
  ascii "\x7b\"output\": \x7b\"flush_interval\": " ++ digits ++ ascii "\x7d\x7d"

def flushIntervalDocument (n : UInt64) : Json :=
  .object [(ascii "output",.object [(ascii "flush_interval",.unsigned n)])]

end Settings
end GgmlViz
