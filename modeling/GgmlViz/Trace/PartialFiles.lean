import GgmlViz.Trace.RoundTrip

/-! # Files that are still being written, and files that lie

Live mode reads a file that another process is appending to, so a read can end anywhere.
A crafted file can announce any label length.
-/
namespace GgmlViz
open LittleEndian

theorem HasHeader.of_prefix {a b : Bytes} (h : HasHeader a) (hab : a <+: b) : HasHeader b := by
  obtain ⟨hlen,hmagic⟩ := h
  obtain ⟨more,rfl⟩ := hab
  refine ⟨by rw [List.length_append]; omega,?_⟩
  rw [List.take_append_of_le_length (by omega)]
  exact hmagic

theorem openFile_events {content : Bytes} (h : HasHeader content) :
    ∃ r, TraceReader.openFile (some content) = some r ∧ r.valid = true ∧
      recordReader.readMany ((content.drop 12).length + 1) (content.drop 12) = some r.events := by
  obtain ⟨l,hl⟩ := loadEvents_total (content.drop 12)
  refine ⟨_,by rw [TraceReader.openFile_of_header h,hl]; rfl,rfl,?_⟩
  exact loadEvents_events hl

theorem openFile_prefix {a b : Bytes} (hab : a <+: b) (ha : HasHeader a) :
    ∃ ra rb, TraceReader.openFile (some a) = some ra ∧ TraceReader.openFile (some b) = some rb ∧
      ra.valid = true ∧ rb.valid = true ∧ ra.events <+: rb.events := by
  obtain ⟨ra,hra,hva,hea⟩ := openFile_events ha
  obtain ⟨rb,hrb,hvb,heb⟩ := openFile_events (ha.of_prefix hab)
  refine ⟨ra,rb,hra,hrb,hva,hvb,?_⟩
  obtain ⟨more,rfl⟩ := hab
  rw [List.drop_append_of_le_length ha.1] at heb
  exact recordReader.readMany_prefix hea heb

theorem recordReader_encode {e : Event Bytes} (h : LabelFits e) :
    recordReader.read (e.encode id) = some (e,[]) := by
  have hr := recordReader_read (recordForm_encode h) []
  rwa [List.append_nil] at hr

theorem hasHeader_take_writeTrace (es : List (Event Bytes)) {k : ℕ} (hk : 12 ≤ k) :
    HasHeader ((writeTrace id es).take k) := by
  refine ⟨?_,?_⟩
  · simp [writeTrace]
    omega
  · rw [List.take_take,Nat.min_eq_left (by omega)]
    rfl

theorem length_writeTrace (es : List (Event Bytes)) :
    (writeTrace id es).length = 12 + (es.flatMap (Event.encode id)).length := by
  simp [writeTrace]

/-- A file cut after `k` bytes shows the events whose records end at or before the cut. -/
theorem openFile_cut {es : List (Event Bytes)} (h : ∀ e ∈ es, LabelFits e) (k : ℕ) :
    ∃ r j, TraceReader.openFile (some ((writeTrace id es).take k)) = some r ∧
      r.events = es.take j ∧
      ∀ i < es.length, i < j ↔ (writeTrace id (es.take (i + 1))).length ≤ k := by
  by_cases hk : 12 ≤ k
  · have hh := hasHeader_take_writeTrace es hk
    obtain ⟨r,hr,-,hev⟩ := openFile_events hh
    have hdrop : ((writeTrace id es).take k).drop 12 =
        (es.flatMap (Event.encode id)).take (k - 12) := by
      rw [List.drop_take,writeTrace,List.drop_left' length_traceHeader]
    rw [hdrop] at hev
    have hread : ∀ e ∈ es, recordReader.read (Event.encode id e) = some (e,[]) :=
      fun e he => recordReader_encode (h e he)
    obtain ⟨j,-,hj,hi⟩ := RecordStream.RecordReader.readMany_cut hread
      (List.take_prefix (k - 12) _) (Nat.lt_succ_self _)
    refine ⟨r,j,hr,Option.some.inj (hev.symm.trans hj),?_⟩
    intro i hlt
    have hcut := hi (i + 1) hlt
    have hpre : ((es.take (i + 1)).flatMap (Event.encode id)).length ≤
        (es.flatMap (Event.encode id)).length := by
      conv_rhs => rw [← List.take_append_drop (i + 1) es,List.flatMap_append,List.length_append]
      omega
    rw [length_writeTrace]
    simp only [List.length_take] at hcut
    omega
  · have hno : ¬HasHeader ((writeTrace id es).take k) := by
      intro hh
      have hlen := hh.1
      simp only [List.length_take] at hlen
      omega
    refine ⟨_,0,TraceReader.openFile_of_no_header hno,rfl,?_⟩
    intro i _
    rw [length_writeTrace]
    omega

/-- Partial files. A read of a prefix returns a prefix of the events, whatever the bytes;
a read of a written file that was cut anywhere returns the events that are there in full. -/
theorem partialFile_events :
    (∀ a b : Bytes, a <+: b → HasHeader a →
      ∃ ra rb, TraceReader.openFile (some a) = some ra ∧ TraceReader.openFile (some b) = some rb ∧
        ra.valid = true ∧ rb.valid = true ∧ ra.events <+: rb.events) ∧
    ∀ es : List (Event Bytes), (∀ e ∈ es, LabelFits e) → ∀ k,
      ∃ r j, TraceReader.openFile (some ((writeTrace id es).take k)) = some r ∧
        r.events = es.take j ∧
        ∀ i < es.length, i < j ↔ (writeTrace id (es.take (i + 1))).length ≤ k :=
  ⟨fun _ _ hab ha => openFile_prefix hab ha,fun _ h k => openFile_cut h k⟩

/-- One byte more than a header, and a record cut inside its label. -/
theorem partialFile_events_cut :
    let e : Event Bytes := ⟨.opComputeEnd,7,3,⟨List.replicate 32 9,rfl⟩,some [0x61,0x62]⟩
    (∃ ra rb, TraceReader.openFile (some traceHeader) = some ra ∧
      TraceReader.openFile (some (traceHeader ++ [0xFF])) = some rb ∧
      ra.valid = true ∧ rb.valid = true ∧ ra.events <+: rb.events) ∧
    ∃ r j, TraceReader.openFile (some ((writeTrace id [e]).take 63)) = some r ∧
      r.events = [e].take j ∧
      ∀ i < [e].length, i < j ↔ (writeTrace id ([e].take (i + 1))).length ≤ 63 := by
  constructor
  · exact partialFile_events.1 _ _ (List.prefix_append _ _) (by decide)
  · exact partialFile_events.2 _ (by simp [LabelFits]) 63

/-- A label record with length field `n` is in the file, behind its header. -/
def LabelInFile (content : Bytes) (n : ℕ) : Prop := HasHeader content ∧ LabelIn (content.drop 12) n

theorem openFile_labelBuffers {content : Bytes} {r : TraceReader}
    (h : TraceReader.openFile (some content) = some r) (n : ℕ) :
    (∃ c ∈ r.labelBuffers, c.labelLen.toNat = n) ↔ LabelInFile content n := by
  by_cases hh : HasHeader content
  · rw [TraceReader.openFile_of_header hh] at h
    obtain ⟨l,hl,rfl⟩ := Option.map_eq_some_iff.mp h
    have hin := loadLoop_labelIn hl n
    simpa [LabelInFile,hh,TraceReader.labelBuffers] using hin
  · rw [TraceReader.openFile_of_no_header hh] at h
    cases h
    simp [LabelInFile,hh,TraceReader.invalid,TraceReader.labelBuffers]

theorem openFile_size {content : Bytes} {r : TraceReader}
    (h : TraceReader.openFile (some content) = some r) :
    ∀ c ∈ r.labelBuffers, c.size = (c.labelLen + 1).toNat := by
  by_cases hh : HasHeader content
  · rw [TraceReader.openFile_of_header hh] at h
    obtain ⟨l,hl,rfl⟩ := Option.map_eq_some_iff.mp h
    exact loadLoop_size hl (by simp)
  · rw [TraceReader.openFile_of_no_header hh] at h
    cases h
    simp [TraceReader.invalid,TraceReader.labelBuffers]

/-- Every label buffer is large enough exactly when no label record of the file announces
the largest 32-bit length. -/
theorem labelBuffers_inBounds_iff (content : Bytes) :
    ∃ r, TraceReader.openFile (some content) = some r ∧
      ((∀ c ∈ r.labelBuffers, c.labelLen.toNat + 1 ≤ c.size) ↔
        ¬LabelInFile content (2 ^ 32 - 1)) := by
  obtain ⟨r,hr⟩ := TraceReader.openFile_total content
  refine ⟨r,hr,?_⟩
  rw [← openFile_labelBuffers hr]
  have hbound : ∀ c ∈ r.labelBuffers, c.labelLen.toNat + 1 ≤ c.size ↔ c.labelLen.toNat ≠ 2 ^ 32 - 1 := by
    intro c hc
    rw [openFile_size hr c hc]
    exact wrapped_size_iff c.labelLen
  constructor
  · rintro hall ⟨c,hc,hlen⟩
    exact (hbound c hc).mp (hall c hc) hlen
  · intro hno c hc
    exact (hbound c hc).mpr (fun hlen => hno ⟨c,hc,hlen⟩)

/-- A file of 63 bytes whose only record announces a label of 2^32 - 1 bytes and has one. -/
def largestLabelFile : Bytes :=
  traceHeader ++ (List.replicate 45 0 ++ (1 :: ([0xFF,0xFF,0xFF,0xFF] ++ [0x41])))

/-- Its buffer is empty, and a byte is stored into it. -/
theorem not_inBounds_largestLabelFile :
    ∃ r, TraceReader.openFile (some largestLabelFile) = some r ∧
      ∃ c ∈ r.labelBuffers, c.labelLen.toNat = 2 ^ 32 - 1 ∧ c.size = 0 ∧ c.stored = 1 ∧
        ¬c.labelLen.toNat + 1 ≤ c.size :=
  ⟨{ valid := true, version := 1, loaded :=
      { events := [], labelBuffers := [{ labelLen := 0xFFFFFFFF, size := 0, stored := 1 }] } },
    by decide +kernel,_,List.mem_singleton_self _,by decide⟩

end GgmlViz
