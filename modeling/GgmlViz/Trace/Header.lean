import GgmlViz.Trace.PartialFiles

/-! # Which headers are accepted

The format document fixes the magic and the version of the header. The reader keeps the
version that it reads and never looks at it, so the records behind the header of another
version are read in the layout of version 1.
-/
namespace GgmlViz
open LittleEndian

/-- The `version` field of the header. -/
def headerVersion (content : Bytes) : ℕ := leValue ((content.drop 8).take 4)

/-- The header that the format document asks for. -/
structure HeaderOfSpec (content : Bytes) : Prop where
  length : 12 ≤ content.length
  magic : content.take 8 = GgmlViz.magic
  version : headerVersion content = 1

namespace TraceReader

/-- `is_valid()` after opening a file with these contents. -/
def Accepts (content : Bytes) : Prop :=
  ∃ r, openFile (some content) = some r ∧ r.valid = true

def Decodes (content : Bytes) (es : List (Event Bytes)) : Prop :=
  ∃ r, openFile (some content) = some r ∧ r.events = es

end TraceReader

/-- Exactly the headers of the document are accepted, and nothing is decoded behind the
header of another version. -/
structure HeaderChecked (content : Bytes) : Prop where
  accepts_iff : TraceReader.Accepts content ↔ HeaderOfSpec content
  notDecoded : headerVersion content ≠ 1 → TraceReader.Decodes content []

section Acceptance
variable {content : Bytes}

theorem headerOfSpec_iff :
    HeaderOfSpec content ↔ HasHeader content ∧ headerVersion content = 1 := by
  constructor
  · intro h
    exact ⟨⟨h.length,h.magic⟩,h.version⟩
  · rintro ⟨⟨hlen,hmagic⟩,hversion⟩
    exact { length := hlen, magic := hmagic, version := hversion }

/-- The reader goes by the length and the magic alone. -/
theorem TraceReader.accepts_iff : TraceReader.Accepts content ↔ HasHeader content := by
  constructor
  · rintro ⟨r,hr,hvalid⟩
    by_contra hno
    rw [openFile_of_no_header hno] at hr
    cases hr
    cases hvalid
  · intro h
    obtain ⟨r,hr,hvalid,-⟩ := openFile_events h
    exact ⟨r,hr,hvalid⟩

theorem TraceReader.decodes_of_no_header (h : ¬HasHeader content) :
    TraceReader.Decodes content [] :=
  ⟨_,openFile_of_no_header h,rfl⟩

/-- The version takes no part in decoding. -/
theorem TraceReader.decodes_congr {other : Bytes} (h : HasHeader content) (ho : HasHeader other)
    (hrest : content.drop 12 = other.drop 12) (es : List (Event Bytes)) :
    TraceReader.Decodes content es ↔ TraceReader.Decodes other es := by
  obtain ⟨l,hl⟩ := loadEvents_total (content.drop 12)
  have hlo := hrest ▸ hl
  have hopen := openFile_of_header h
  have hopeno := openFile_of_header ho
  rw [hl] at hopen
  rw [hlo] at hopeno
  constructor
  · rintro ⟨r,hr,rfl⟩
    cases hopen.symm.trans hr
    exact ⟨_,hopeno,rfl⟩
  · rintro ⟨r,hr,rfl⟩
    cases hopeno.symm.trans hr
    exact ⟨_,hopen,rfl⟩

/-- The check is complete for the files without a header and for those of version 1. -/
theorem headerChecked_iff (content : Bytes) :
    HeaderChecked content ↔ (HasHeader content → headerVersion content = 1) := by
  constructor
  · intro h hheader
    have hspec := h.accepts_iff.mp (TraceReader.accepts_iff.mpr hheader)
    exact hspec.version
  · intro h
    exact
      { accepts_iff := by
          rw [TraceReader.accepts_iff,headerOfSpec_iff]
          exact (and_iff_left_of_imp h).symm
        notDecoded := by
          intro hversion
          apply TraceReader.decodes_of_no_header
          intro hheader
          exact hversion (h hheader) }

end Acceptance

def headerOfVersion (version : UInt32) : Bytes := magic ++ leBytes 4 version.toNat

section Versions
variable {version : UInt32}

theorem length_headerOfVersion : (headerOfVersion version).length = 12 := by
  simp [headerOfVersion,magic]

theorem hasHeader_headerOfVersion (more : Bytes) : HasHeader (headerOfVersion version ++ more) :=
  ⟨by simp [length_headerOfVersion],rfl⟩

@[simp] theorem headerVersion_headerOfVersion (more : Bytes) :
    headerVersion (headerOfVersion version ++ more) = version.toNat := by
  have htake : ((headerOfVersion version ++ more).drop 8).take 4 = leBytes 4 version.toNat := by
    rw [headerOfVersion,List.append_assoc,List.drop_left' (show magic.length = 8 from rfl),
      List.take_left' (length_leBytes 4 _)]
  rw [headerVersion,htake,leValue_leBytes_of_lt version.toNat_lt]

/-- Records of version 1 are decoded behind the header of any version. -/
theorem decodes_headerOfVersion {rs : List Bytes} {es : List (Event Bytes)}
    (h : List.Forall₂ RecordForm rs es) :
    TraceReader.Decodes (headerOfVersion version ++ rs.flatten) es := by
  have hrest : (headerOfVersion version ++ rs.flatten).drop 12 =
      (traceHeader ++ rs.flatten).drop 12 := by
    rw [List.drop_left' length_headerOfVersion,List.drop_left' length_traceHeader]
  rw [TraceReader.decodes_congr (hasHeader_headerOfVersion _) (hasHeader_traceHeader _) hrest]
  exact ⟨_,openFile_records h,rfl⟩

end Versions

/-- Behind the header of version 2 a record of version 1 is decoded. -/
theorem not_headerChecked_two :
    ¬HeaderChecked (headerOfVersion 2 ++ [List.replicate 45 1 ++ [0]].flatten) := by
  intro h
  obtain ⟨e,hfixed,hlabel⟩ :=
    exists_fixedBytes (show (List.replicate 45 (1 : UInt8)).length = 45 from rfl) none
  have hrecord : RecordForm (List.replicate 45 1 ++ [0]) e := hfixed ▸ .plain hlabel
  obtain ⟨r,hr,hevents⟩ := decodes_headerOfVersion (.cons hrecord .nil)
  obtain ⟨s,hs,hnone⟩ := h.notDecoded (by simp)
  cases hr.symm.trans hs
  rw [hevents] at hnone
  cases hnone

end GgmlViz
