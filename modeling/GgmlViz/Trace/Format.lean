import GgmlViz.Trace.Event
import Mathlib.Data.List.TakeWhile

/-! # The trace file format, as it is written

`start()` writes a 12-byte header; `flush_to_file` writes the fields of one event one
`fwrite` at a time, with a length-prefixed label at the end when there is one. Labels
are C strings behind a pointer, so writing depends on what the pointer shows then.
-/
namespace GgmlViz
open LittleEndian
variable {L : Type} (text : L → Bytes)

/-- `"GGMLVIZ1"`. -/
def magic : Bytes := [0x47,0x47,0x4D,0x4C,0x56,0x49,0x5A,0x31]

def formatVersion : ℕ := 1

/-- What `start()` writes before any event. -/
def traceHeader : Bytes := magic ++ leBytes 4 formatVersion

@[simp] theorem length_traceHeader : traceHeader.length = 12 := rfl

/-- The bytes of a C string, up to its terminator. -/
def cString (b : Bytes) : Bytes := b.takeWhile (· ≠ 0)

def strlen (b : Bytes) : ℕ := (cString b).length

theorem cString_eq_take (b : Bytes) : cString b = b.take (strlen b) := by
  have h : cString b <+: b := List.takeWhile_prefix _
  exact List.prefix_iff_eq_take.mp h

theorem cString_eq_self {b : Bytes} (h : 0 ∉ b) : cString b = b := by
  apply List.takeWhile_eq_self_iff.mpr
  intro x hx
  have hne : x ≠ 0 := by
    rintro rfl
    exact h hx
  simpa using hne

theorem zero_notMem_cString (b : Bytes) : 0 ∉ cString b := by
  intro h
  simpa using List.mem_takeWhile_imp h

/-- One `fwrite` of `flush_to_file`; the last one uses the length computed before it. -/
inductive RecordField
  | type
  | timestampNs
  | threadId
  | data
  | hasLabel
  | labelLen
  | label (labelLen : UInt32)
  deriving DecidableEq

namespace Event

/-- What the label pointer shows. -/
def labelText (e : Event L) : Bytes :=
  match e.label with
  | some l => text l
  | none => []

/-- `uint32_t label_len = strlen(e.label)`. -/
def labelLen (e : Event L) : UInt32 := UInt32.ofNat (strlen (e.labelText text))

def fieldBytes (e : Event L) : RecordField → Bytes
  | .type => [e.type.code]
  | .timestampNs => leBytes 8 e.timestampNs.toNat
  | .threadId => leBytes 4 e.threadId.toNat
  | .data => e.data.bytes
  | .hasLabel => [if e.label.isSome then 1 else 0]
  | .labelLen => leBytes 4 (e.labelLen text).toNat
  | .label n => (e.labelText text).take n.toNat

/-- The `fwrite` that follows; `none` after the last one of the event. -/
def nextField (e : Event L) : RecordField → Option RecordField
  | .type => some .timestampNs
  | .timestampNs => some .threadId
  | .threadId => some .data
  | .data => some .hasLabel
  | .hasLabel => if e.label.isSome then some .labelLen else none
  | .labelLen => some (.label (e.labelLen text))
  | .label _ => none

/-- The four fields that every record starts with. -/
def fixedBytes (e : Event L) : Bytes :=
  e.type.code :: (leBytes 8 e.timestampNs.toNat ++ (leBytes 4 e.threadId.toNat ++ e.data.bytes))

/-- The whole record of an event. -/
def encode (e : Event L) : Bytes :=
  e.fixedBytes ++ (if e.label.isSome then
    1 :: (leBytes 4 (e.labelLen text).toNat ++ (e.labelText text).take (e.labelLen text).toNat)
  else [0])

/-- What is already written of an event when a field comes next. -/
def writtenBefore (e : Event L) : RecordField → Bytes
  | .type => []
  | .timestampNs => [e.type.code]
  | .threadId => e.type.code :: leBytes 8 e.timestampNs.toNat
  | .data => e.type.code :: (leBytes 8 e.timestampNs.toNat ++ leBytes 4 e.threadId.toNat)
  | .hasLabel => e.fixedBytes
  | .labelLen => e.fixedBytes ++ [1]
  | .label _ => e.fixedBytes ++ (1 :: leBytes 4 (e.labelLen text).toNat)

/-- A field that `flush_to_file` can be about to write for this event. -/
def FieldOf (e : Event L) : RecordField → Prop
  | .labelLen => e.label.isSome = true
  | .label n => e.label.isSome = true ∧ n = e.labelLen text
  | _ => True

theorem nextField_fieldOf {e : Event L} {f g : RecordField} (hf : e.FieldOf text f)
    (h : e.nextField text f = some g) : e.FieldOf text g := by
  cases f with
  | type => cases h; trivial
  | timestampNs => cases h; trivial
  | threadId => cases h; trivial
  | data => cases h; trivial
  | hasLabel =>
    simp only [nextField] at h
    split at h
    · next hl =>
      cases h
      exact hl
    · cases h
  | labelLen =>
    cases h
    exact ⟨hf,rfl⟩
  | label n => cases h

/-- Field by field, the record is written from left to right. -/
theorem writtenBefore_append {e : Event L} {f : RecordField} (hf : e.FieldOf text f) :
    e.writtenBefore text f ++ e.fieldBytes text f =
      match e.nextField text f with
      | some g => e.writtenBefore text g
      | none => e.encode text := by
  cases f with
  | type => rfl
  | timestampNs => simp [writtenBefore,fieldBytes,nextField]
  | threadId => simp [writtenBefore,fieldBytes,nextField]
  | data => simp [writtenBefore,fieldBytes,nextField,fixedBytes]
  | hasLabel =>
    cases hl : e.label with
    | none => simp [writtenBefore,fieldBytes,nextField,encode,hl]
    | some l => simp [writtenBefore,fieldBytes,nextField,hl]
  | labelLen => simp [writtenBefore,fieldBytes,nextField]
  | label n =>
    obtain ⟨hl,rfl⟩ := hf
    simp [writtenBefore,fieldBytes,nextField,encode,hl]

@[simp] theorem length_fixedBytes (e : Event L) : e.fixedBytes.length = 45 := by
  simp [fixedBytes,e.data.size]

/-- The event as the file shows it: the label is what its record carries. -/
def resolve (e : Event L) : Event Bytes :=
  { type := e.type, timestampNs := e.timestampNs, threadId := e.threadId, data := e.data,
    label := e.label.map (fun l => (text l).take (e.labelLen text).toNat) }

theorem labelLen_le (e : Event L) : (e.labelLen text).toNat ≤ strlen (e.labelText text) := by
  simp only [labelLen,UInt32.toNat_ofNat']
  exact Nat.mod_le _ _

end Event

/-- A label that the 32-bit length field can carry and that no terminator cuts short. -/
def LabelFits (e : Event Bytes) : Prop := ∀ l, e.label = some l → 0 ∉ l ∧ l.length < 2 ^ 32

theorem LabelFits.toNat_labelLen {e : Event Bytes} (h : LabelFits e) {l : Bytes}
    (hl : e.label = some l) : (e.labelLen id).toNat = l.length := by
  obtain ⟨hnul,hlt⟩ := h l hl
  simp only [Event.labelLen,Event.labelText,hl,strlen,id_eq,cString_eq_self hnul]
  exact UInt32.toNat_ofNat_of_lt' hlt

theorem labelFits_resolve (e : Event L) : LabelFits (e.resolve text) := by
  intro l hl
  obtain ⟨p,hp,rfl⟩ := Option.map_eq_some_iff.mp hl
  have hle := e.labelLen_le text
  have htext : e.labelText text = text p := by simp [Event.labelText,hp]
  rw [htext] at hle
  constructor
  · intro hmem
    have hpre : (text p).take (e.labelLen text).toNat <+: cString (text p) := by
      rw [cString_eq_take]
      exact List.take_prefix_take_left hle
    exact zero_notMem_cString _ (hpre.subset hmem)
  · have hlt := (e.labelLen text).toNat_lt
    simp only [List.length_take]
    omega

theorem encode_resolve (e : Event L) : (e.resolve text).encode id = e.encode text := by
  cases hl : e.label with
  | none => simp [Event.encode,Event.resolve,Event.fixedBytes,hl]
  | some p =>
    have hle := e.labelLen_le text
    have htext : e.labelText text = text p := by simp [Event.labelText,hl]
    have hres : (e.resolve text).label = some ((text p).take (e.labelLen text).toNat) := by
      simp [Event.resolve,hl]
    have hlong : strlen (text p) ≤ (text p).length := (List.takeWhile_prefix _).length_le
    have hlen : ((e.resolve text).labelLen id).toNat = (e.labelLen text).toNat := by
      rw [(labelFits_resolve text e).toNat_labelLen hres,List.length_take]
      rw [htext] at hle
      omega
    rw [Event.encode,Event.encode,hlen]
    simp [Event.resolve,Event.fixedBytes,Event.labelText,hl,List.take_take]

/-- The file that a session leaves behind when it recorded these events. -/
def writeTrace (es : List (Event L)) : Bytes := traceHeader ++ es.flatMap (Event.encode text)

end GgmlViz
