import GgmlViz.Trace.RecordLoop

/-! # Writing and reading trace files

Reading back what was written, rewriting what was read, reading a file that is still
being appended to, and the size of the label buffers. The one length that the 32-bit
size computation cannot carry is the largest one.
-/
namespace GgmlViz
open LittleEndian

/-- The reader accepts the file, loads these events and stays inside every buffer. -/
def Reads (content : Bytes) (es : List (Event Bytes)) : Prop :=
  ∃ r, TraceReader.openFile (some content) = some r ∧ r.valid = true ∧ r.events = es ∧
    ∀ c ∈ r.labelBuffers, ¬c.Overrun

/-- A record with all its bytes present, in the layout of the format document: 45 fixed
bytes, then 0, or 1 with a length and as many NUL-free bytes. -/
inductive CompleteRecord : Bytes → Prop
  | unlabelled {fixed : Bytes} : fixed.length = 45 → CompleteRecord (fixed ++ [0])
  | labelled {fixed len body : Bytes} : fixed.length = 45 → len.length = 4 →
      body.length = leValue len → 0 ∉ body → CompleteRecord (fixed ++ (1 :: (len ++ body)))

theorem exists_fixedBytes {fixed : Bytes} (h : fixed.length = 45) (label : Option Bytes) :
    ∃ e : Event Bytes, e.fixedBytes = fixed ∧ e.label = label := by
  obtain ⟨t,rest,rfl⟩ := List.exists_cons_of_length_eq_add_one h
  have hrest : rest.length = 44 := by simpa using h
  let e : Event Bytes :=
    { type := ⟨t⟩
      timestampNs := UInt64.ofNat (leValue (rest.take 8))
      threadId := UInt32.ofNat (leValue ((rest.drop 8).take 4))
      data := ⟨rest.drop 12,by simp; omega⟩
      label := label }
  refine ⟨e,?_,rfl⟩
  have h8 : (rest.take 8).length = 8 := by simp; omega
  have h4 : ((rest.drop 8).take 4).length = 4 := by simp; omega
  have hdrop : (rest.drop 8).take 4 ++ rest.drop 12 = rest.drop 8 := by
    rw [show rest.drop 12 = (rest.drop 8).drop 4 by rw [List.drop_drop],List.take_append_drop]
  simp only [Event.fixedBytes,e,leBytes_u64 h8,leBytes_u32 h4,hdrop,List.take_append_drop]

theorem CompleteRecord.exists_event {r : Bytes} (h : CompleteRecord r) :
    ∃ e : Event Bytes, LabelFits e ∧ e.encode id = r := by
  cases h with
  | unlabelled hf =>
    obtain ⟨e,rfl,hl⟩ := exists_fixedBytes hf none
    exact ⟨e,by simp [LabelFits,hl],by simp [Event.encode,hl]⟩
  | @labelled fixed len body hf hlen hbody hnul =>
    obtain ⟨e,rfl,hl⟩ := exists_fixedBytes hf (some body)
    have hlt : body.length < 2 ^ 32 := by
      have h := leValue_lt len
      rw [hlen] at h
      rw [hbody]
      exact h
    have hfits : LabelFits e := by
      intro l h
      cases hl.symm.trans h
      exact ⟨hnul,hlt⟩
    have hback : leBytes 4 body.length = len := by rw [hbody]; exact leBytes_leValue_of_length hlen
    have htoNat := hfits.toNat_labelLen hl
    exact ⟨e,hfits,by simp [Event.encode,htoNat,hback,Event.labelText,hl]⟩

theorem completeRecords_exists_events {rs : List Bytes} (h : ∀ r ∈ rs, CompleteRecord r) :
    ∃ es : List (Event Bytes), (∀ e ∈ es, LabelFits e) ∧ es.map (Event.encode id) = rs := by
  induction rs with
  | nil => exact ⟨[],by simp,rfl⟩
  | cons r rs ih =>
    obtain ⟨es,hes,hmap⟩ := ih (fun r hr => h r (List.mem_cons_of_mem _ hr))
    obtain ⟨e,he,hr⟩ := (h r List.mem_cons_self).exists_event
    refine ⟨e :: es,?_,by rw [List.map_cons,hr,hmap]⟩
    intro x hx
    rcases List.mem_cons.mp hx with rfl | hx
    · exact he
    · exact hes x hx

theorem forall₂_recordForm_encode {es : List (Event Bytes)} (h : ∀ e ∈ es, LabelFits e) :
    List.Forall₂ RecordForm (es.map (Event.encode id)) es := by
  induction es with
  | nil => exact .nil
  | cons e es ih =>
    exact .cons (recordForm_encode (h e List.mem_cons_self))
      (ih (fun x hx => h x (List.mem_cons_of_mem _ hx)))

theorem hasHeader_traceHeader (more : Bytes) : HasHeader (traceHeader ++ more) :=
  ⟨by simp,rfl⟩

theorem openFile_records {rs : List Bytes} {es : List (Event Bytes)}
    (h : List.Forall₂ RecordForm rs es) :
    TraceReader.openFile (some (traceHeader ++ rs.flatten)) =
      some { valid := true, version := 1, loaded :=
        { events := es, labelBuffers := es.flatMap (fun e => (bufferOf e).toList) } } := by
  have hversion : UInt32.ofNat (leValue (((traceHeader ++ rs.flatten).take 12).drop 8)) = 1 := by
    rw [List.take_left' length_traceHeader]
    rfl
  rw [TraceReader.openFile_of_header (hasHeader_traceHeader _),List.drop_left' length_traceHeader,
    loadEvents_records h,hversion]
  rfl

theorem openFile_writeTrace {es : List (Event Bytes)} (h : ∀ e ∈ es, LabelFits e) :
    TraceReader.openFile (some (writeTrace id es)) =
      some { valid := true, version := 1, loaded :=
        { events := es, labelBuffers := es.flatMap (fun e => (bufferOf e).toList) } } :=
  openFile_records (forall₂_recordForm_encode h)

/-- `label_len + 1` in 32-bit arithmetic is the size that is needed, but for one length. -/
theorem wrapped_size_iff (n : UInt32) : n.toNat + 1 ≤ (n + 1).toNat ↔ n.toNat ≠ 2 ^ 32 - 1 := by
  have hn := n.toNat_lt
  rw [UInt32.toNat_add]
  simp only [UInt32.reduceToNat]
  omega

/-- The largest length is the only one whose buffer is overrun. -/
theorem bufferOf_overrun_iff {e : Event Bytes} (he : ∀ l, e.label = some l → l.length < 2 ^ 32)
    {c : LabelBuffer} (hc : c ∈ bufferOf e) : c.Overrun ↔ c.labelLen.toNat = 2 ^ 32 - 1 := by
  simp only [bufferOf,Option.mem_def,Option.map_eq_some_iff] at hc
  obtain ⟨body,hb,rfl⟩ := hc
  have hlen : (UInt32.ofNat body.length).toNat = body.length :=
    UInt32.toNat_ofNat_of_lt' (he body hb)
  have hiff := wrapped_size_iff (UInt32.ofNat body.length)
  rw [hlen] at hiff
  simp only [LabelBuffer.Overrun,hlen]
  omega

/-- The reader gets back what was written unless a label has the largest length. -/
theorem reads_writeTrace_iff {es : List (Event Bytes)} (h : ∀ e ∈ es, LabelFits e) :
    Reads (writeTrace id es) es ↔ ¬LabelIn (es.flatMap (Event.encode id)) (2 ^ 32 - 1) := by
  have hload := loadEvents_records (forall₂_recordForm_encode h)
  have hin := loadLoop_labelIn hload (2 ^ 32 - 1)
  simp only [List.not_mem_nil,false_and,exists_false,false_or] at hin
  rw [List.flatMap_def,← hin]
  constructor
  · rintro ⟨r,hr,-,-,hover⟩ ⟨c,hc,hlen⟩
    rw [openFile_writeTrace h] at hr
    cases hr
    obtain ⟨e,he,hce⟩ := List.mem_flatMap.mp hc
    have hlt : ∀ l, e.label = some l → l.length < 2 ^ 32 := fun l hl => (h e he l hl).2
    exact hover c hc ((bufferOf_overrun_iff hlt (by simpa using hce)).mpr hlen)
  · intro hno
    refine ⟨_,openFile_writeTrace h,rfl,rfl,?_⟩
    intro c hc hover
    obtain ⟨e,he,hce⟩ := List.mem_flatMap.mp hc
    have hlt : ∀ l, e.label = some l → l.length < 2 ^ 32 := fun l hl => (h e he l hl).2
    exact hno ⟨c,hc,(bufferOf_overrun_iff hlt (by simpa using hce)).mp hover⟩

theorem labelIn_flatMap_encode {es : List (Event Bytes)} (h : ∀ e ∈ es, LabelFits e) {n : ℕ}
    (hl : LabelIn (es.flatMap (Event.encode id)) n) : ∃ e ∈ es, ∃ l, e.label = some l ∧ l.length = n := by
  have hload := loadEvents_records (forall₂_recordForm_encode h)
  have hin := loadLoop_labelIn hload n
  simp only [List.not_mem_nil,false_and,exists_false,false_or] at hin
  obtain ⟨c,hc,rfl⟩ := hin.mpr hl
  obtain ⟨e,he,hce⟩ := List.mem_flatMap.mp hc
  simp only [bufferOf,Option.mem_toList,Option.map_eq_some_iff] at hce
  obtain ⟨body,hb,rfl⟩ := hce
  exact ⟨e,he,body,hb,(UInt32.toNat_ofNat_of_lt' (h e he body hb).2).symm⟩

/-- Rewriting what was read from complete records gives back the bytes exactly when no
label record announces the largest length. -/
theorem rewrite_records_iff {rs : List Bytes} (hrs : ∀ r ∈ rs, CompleteRecord r) :
    (∃ es, Reads (traceHeader ++ rs.flatten) es ∧ writeTrace id es = traceHeader ++ rs.flatten) ↔
      ¬LabelIn rs.flatten (2 ^ 32 - 1) := by
  obtain ⟨es,hfits,hmap⟩ := completeRecords_exists_events hrs
  have hfile : writeTrace id es = traceHeader ++ rs.flatten := by rw [writeTrace,← hmap]; rfl
  have hflat : rs.flatten = es.flatMap (Event.encode id) := by rw [← hmap]; rfl
  rw [← hfile]
  constructor
  · rintro ⟨es',hreads,-⟩
    have hsame : es' = es := by
      obtain ⟨r,hr,-,hev,-⟩ := hreads
      rw [openFile_writeTrace hfits] at hr
      cases hr
      exact hev.symm
    subst hsame
    rw [hflat]
    exact (reads_writeTrace_iff hfits).mp hreads
  · intro hno
    rw [hflat] at hno
    exact ⟨es,(reads_writeTrace_iff hfits).mpr hno,rfl⟩

/-- Round trip of the trace format. Reading what `start()` and `flush_to_file` write gives
back the events; rewriting what was read from complete records gives back the bytes as
long as, and only as long as, no label has the largest length. -/
theorem traceFormat_roundTrip (es : List (Event Bytes))
    (hes : ∀ e ∈ es, ∀ l, e.label = some l → 0 ∉ l ∧ l.length < 2 ^ 32 - 1)
    (rs : List Bytes) (hrs : ∀ r ∈ rs, CompleteRecord r) :
    Reads (writeTrace id es) es ∧
      ((∃ fs, Reads (traceHeader ++ rs.flatten) fs ∧
          writeTrace id fs = traceHeader ++ rs.flatten) ↔
        ¬LabelIn rs.flatten (2 ^ 32 - 1)) := by
  constructor
  · have hfits : ∀ e ∈ es, LabelFits e := fun e he l hl =>
      ⟨(hes e he l hl).1,by have := (hes e he l hl).2; omega⟩
    rw [reads_writeTrace_iff hfits]
    intro hl
    obtain ⟨e,he,l,hlab,hlen⟩ := labelIn_flatMap_encode hfits hl
    have hlt := (hes e he l hlab).2
    omega
  · exact rewrite_records_iff hrs

/-- One event with a label and one without survive the round trip in both directions. -/
theorem traceFormat_roundTrip_two :
    let e : Event Bytes := ⟨.opComputeEnd,7,3,⟨List.replicate 32 9,rfl⟩,some [0x61,0x62]⟩
    let f : Event Bytes := ⟨⟨200⟩,8,3,⟨List.replicate 32 0,rfl⟩,none⟩
    Reads (writeTrace id [e,f]) [e,f] ∧
      ((∃ fs, Reads (traceHeader ++ [List.replicate 45 1 ++ [0]].flatten) fs ∧
          writeTrace id fs = traceHeader ++ [List.replicate 45 1 ++ [0]].flatten) ↔
        ¬LabelIn [List.replicate 45 1 ++ [0]].flatten (2 ^ 32 - 1)) := by
  intro e f
  have hes : ∀ x ∈ [e,f], ∀ l, x.label = some l → 0 ∉ l ∧ l.length < 2 ^ 32 - 1 := by simp [e,f]
  have hrs : ∀ r ∈ [List.replicate 45 1 ++ [0]], CompleteRecord r := by
    simpa using CompleteRecord.unlabelled (show (List.replicate 45 (1 : UInt8)).length = 45 from rfl)
  exact traceFormat_roundTrip [e,f] hes [List.replicate 45 1 ++ [0]] hrs

/-- The record of an event whose fields are zero and whose label is this one. -/
def zeroRecord (len body : Bytes) : Bytes :=
  List.replicate 45 0 ++ (1 :: (len ++ body))

theorem completeRecord_zeroRecord {body : Bytes} (hlen : body.length = 2 ^ 32 - 1)
    (hnul : 0 ∉ body) : CompleteRecord (zeroRecord [0xFF,0xFF,0xFF,0xFF] body) :=
  .labelled rfl rfl (by rw [hlen]; rfl) hnul

theorem labelIn_zeroRecord (body rest : Bytes) :
    LabelIn (zeroRecord [0xFF,0xFF,0xFF,0xFF] body ++ rest) (2 ^ 32 - 1) := by
  obtain ⟨e,he,-⟩ := exists_fixedBytes (show (List.replicate 45 (0 : UInt8)).length = 45 from rfl) none
  have hshape : zeroRecord [0xFF,0xFF,0xFF,0xFF] body ++ rest =
      e.fixedBytes ++ (1 :: (leBytes 4 (2 ^ 32 - 1) ++ (body ++ rest))) := by
    rw [he]
    simp only [zeroRecord,List.append_assoc,List.cons_append]
    rfl
  rw [hshape]
  exact .here e _ (by decide) (by decide)

theorem not_rewrite_zeroRecord {body : Bytes} (hlen : body.length = 2 ^ 32 - 1)
    (hnul : 0 ∉ body) :
    ¬∃ es, Reads (traceHeader ++ [zeroRecord [0xFF,0xFF,0xFF,0xFF] body].flatten) es ∧
      writeTrace id es = traceHeader ++ [zeroRecord [0xFF,0xFF,0xFF,0xFF] body].flatten := by
  have hr := completeRecord_zeroRecord hlen hnul
  rw [rewrite_records_iff (fun r h => by rw [List.mem_singleton.mp h]; exact hr)]
  intro hno
  exact hno (labelIn_zeroRecord body [])

theorem nul_notMem_replicate (n : ℕ) : (0 : UInt8) ∉ List.replicate n 0x41 := by
  intro h
  exact absurd (List.eq_of_mem_replicate h) (by decide)

/-- A complete record whose label has 2^32 - 1 bytes is read into a buffer of none, so the
file cannot be read and rewritten. -/
theorem not_rewrite_largest_label :
    CompleteRecord (zeroRecord [0xFF,0xFF,0xFF,0xFF] (List.replicate (2 ^ 32 - 1) 0x41)) ∧
      ¬∃ es,
        Reads (traceHeader ++ [zeroRecord [0xFF,0xFF,0xFF,0xFF]
          (List.replicate (2 ^ 32 - 1) 0x41)].flatten) es ∧
        writeTrace id es = traceHeader ++ [zeroRecord [0xFF,0xFF,0xFF,0xFF]
          (List.replicate (2 ^ 32 - 1) 0x41)].flatten :=
  ⟨completeRecord_zeroRecord List.length_replicate (nul_notMem_replicate _),
    not_rewrite_zeroRecord List.length_replicate (nul_notMem_replicate _)⟩

end GgmlViz
