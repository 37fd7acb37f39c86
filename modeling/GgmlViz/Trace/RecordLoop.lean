import GgmlViz.Trace.Reader
import GgmlViz.Foundation.RecordStream

/-! # What a whole load returns

The loop of `load_events` reads records until one is missing, on any bytes. Its events
are those of a self-delimiting record reader, and its label buffers are those of the
label records in the file.
-/
namespace GgmlViz
open LittleEndian

theorem record_loadStep {bs rest : Bytes} {e : Event Bytes}
    (h : (loadStep { rest := bs, eof := false }).record = some (e,rest)) :
    ∃ r, RecordForm r e ∧ bs = r ++ rest := by
  cases hs : loadStep { rest := bs, eof := false } with
  | stop b =>
    rw [hs] at h
    cases h
  | event e' b f =>
    rw [hs] at h
    cases h
    obtain ⟨r,hr,hrest,-,-⟩ := loadStep_event hs
    exact ⟨r,hr,hrest⟩

/-- The reader as a reader of self-delimiting records. -/
def recordReader : RecordStream.RecordReader (Event Bytes) UInt8 where
  read bs := (loadStep { rest := bs, eof := false }).record
  consumes := by
    intro bs e rest h
    obtain ⟨r,hr,rfl⟩ := record_loadStep h
    cases hr <;> simp <;> omega
  stable := by
    intro bs e rest more h
    obtain ⟨r,hr,rfl⟩ := record_loadStep h
    rw [List.append_assoc,loadStep_append hr]
    rfl

theorem recordReader_read {r : Bytes} {e : Event Bytes} (h : RecordForm r e) (rest : Bytes) :
    recordReader.read (r ++ rest) = some (e,rest) := by
  simp only [recordReader,loadStep_append h,LoadStep.record]

theorem loadLoop_events (n : ℕ) (bs : Bytes) (acc : Loaded) :
    (loadLoop n { rest := bs, eof := false } acc).map Loaded.events =
      (recordReader.readMany n bs).map (acc.events ++ ·) := by
  induction n generalizing bs acc with
  | zero => rfl
  | succ n ih =>
    cases hs : loadStep { rest := bs, eof := false } with
    | stop b =>
      have hr : recordReader.read bs = none := by simp only [recordReader,hs,LoadStep.record]
      simp [loadLoop,hs,recordReader.readMany_of_none hr]
    | event e b f =>
      obtain ⟨rest,eof⟩ := f
      obtain ⟨-,-,-,heof,-⟩ := loadStep_event hs
      have hr : recordReader.read bs = some (e,rest) := by
        simp only [recordReader,hs,LoadStep.record]
      dsimp only at heof
      subst heof
      rw [recordReader.readMany_of_some hr]
      simp only [loadLoop,Bool.false_eq_true,↓reduceIte,hs]
      rw [ih,Option.map_map]
      congr 1
      funext xs
      simp

/-- `load_events` returns, whatever the bytes. -/
theorem loadEvents_total (bs : Bytes) :
    ∃ l, loadEvents { rest := bs, eof := false } = some l := by
  obtain ⟨xs,hxs⟩ := recordReader.readMany_total (Nat.lt_succ_self bs.length)
  have h := loadLoop_events (bs.length + 1) bs { events := [], labelBuffers := [] }
  rw [hxs] at h
  obtain ⟨l,hl,-⟩ := Option.map_eq_some_iff.mp h
  exact ⟨l,hl⟩

theorem loadEvents_events {bs : Bytes} {l : Loaded}
    (h : loadEvents { rest := bs, eof := false } = some l) :
    recordReader.readMany (bs.length + 1) bs = some l.events := by
  have he := loadLoop_events (bs.length + 1) bs { events := [], labelBuffers := [] }
  rw [show loadLoop (bs.length + 1) _ _ = some l from h] at he
  cases hm : recordReader.readMany (bs.length + 1) bs with
  | none => simp [hm] at he
  | some xs => simpa [hm] using he.symm

/-- A label record with length field `n` begins somewhere in a stream of records: after
complete records come the fixed fields, a non-zero byte and the length. -/
inductive LabelIn : Bytes → ℕ → Prop
  | here (e : Event Bytes) {hasLabel : UInt8} {n : ℕ} (rest : Bytes) : hasLabel ≠ 0 → n < 2 ^ 32 →
      LabelIn (e.fixedBytes ++ (hasLabel :: (leBytes 4 n ++ rest))) n
  | later {r rest : Bytes} {e : Event Bytes} {n : ℕ} : RecordForm r e → LabelIn rest n →
      LabelIn (r ++ rest) n

/-- The label records of a stream are its first one and those behind the first record. -/
theorem labelIn_iff_of_event {bs rest : Bytes} {e : Event Bytes} {b : Option LabelBuffer} {n : ℕ}
    (h : loadStep { rest := bs, eof := false } = .event e b { rest := rest, eof := false }) :
    LabelIn bs n ↔ (∃ c ∈ b, c.labelLen.toNat = n) ∨ LabelIn rest n := by
  constructor
  · intro hl
    cases hl with
    | here e' rest' hne hlt =>
      rw [loadStep_labelled e' hne hlt] at h
      split at h
      · simp only [LoadStep.event.injEq] at h
        obtain ⟨-,rfl,-⟩ := h
        exact Or.inl ⟨_,rfl,UInt32.toNat_ofNat_of_lt' hlt⟩
      · cases h
    | later hr hl =>
      rw [loadStep_append hr] at h
      simp only [LoadStep.event.injEq,File.mk.injEq,and_true] at h
      obtain ⟨-,-,rfl⟩ := h
      exact Or.inr hl
  · obtain ⟨r,hr,hrest,-,rfl⟩ := loadStep_event h
    dsimp only at hrest
    rw [hrest]
    rintro (⟨c,hc,rfl⟩ | hl)
    · cases hr with
      | plain hn => simp [bufferOf,hn] at hc
      | labelled hne hbody hlt =>
        simp only [bufferOf,hbody,Option.map_some,Option.mem_some_iff] at hc
        subst hc
        simp only [UInt32.toNat_ofNat_of_lt' hlt,List.append_assoc,List.cons_append]
        exact .here _ _ hne hlt
    · exact .later hr hl

theorem labelIn_iff_of_stop {bs : Bytes} {b : Option LabelBuffer} {n : ℕ}
    (h : loadStep { rest := bs, eof := false } = .stop b) :
    LabelIn bs n ↔ ∃ c ∈ b, c.labelLen.toNat = n := by
  constructor
  · intro hl
    cases hl with
    | here e' rest' hne hlt =>
      rw [loadStep_labelled e' hne hlt] at h
      split at h
      · cases h
      · simp only [LoadStep.stop.injEq] at h
        subst h
        exact ⟨_,rfl,UInt32.toNat_ofNat_of_lt' hlt⟩
    | later hr hl =>
      rw [loadStep_append hr] at h
      cases h
  · rintro ⟨c,hc,rfl⟩
    unfold loadStep at h
    split at h
    · cases h
      simp at hc
    · next e0 hasLabel f1 hfixed =>
      obtain ⟨hrest,-,-⟩ := readFixed_eq_some hfixed
      dsimp only at hrest
      split at h
      · cases h
      · next hne =>
        split at h
        · cases h
          simp at hc
        · next len f2 hlen =>
          obtain ⟨hr2,-⟩ := freadItem_eq_some hlen
          dsimp only at h
          split at h
          · cases h
          · cases h
            simp only [Option.mem_some_iff] at hc
            subst hc
            have hback : len.val ++ f2.rest =
                leBytes 4 (UInt32.ofNat (leValue len.val)).toNat ++ f2.rest := by
              rw [leBytes_u32 len.property]
            rw [hrest,hr2,hback]
            exact .here _ _ hne (UInt32.toNat_lt _)

/-- The buffers of a whole load are those of the label records in the stream. -/
theorem loadLoop_labelIn {n : ℕ} {bs : Bytes} {acc l : Loaded}
    (h : loadLoop n { rest := bs, eof := false } acc = some l) (m : ℕ) :
    (∃ c ∈ l.labelBuffers, c.labelLen.toNat = m) ↔
      (∃ c ∈ acc.labelBuffers, c.labelLen.toNat = m) ∨ LabelIn bs m := by
  induction n generalizing bs acc with
  | zero => cases h
  | succ n ih =>
    simp only [loadLoop,Bool.false_eq_true,↓reduceIte] at h
    cases hs : loadStep { rest := bs, eof := false } with
    | stop b =>
      simp only [hs] at h
      cases h
      simp [labelIn_iff_of_stop hs,or_and_right,exists_or]
    | event e b f =>
      obtain ⟨rest,eof⟩ := f
      obtain ⟨-,-,-,heof,-⟩ := loadStep_event hs
      dsimp only at heof
      subst heof
      simp only [hs] at h
      rw [ih h,labelIn_iff_of_event hs,← or_assoc]
      simp [or_and_right,exists_or]

/-- The buffer allocated in a round. -/
def LoadStep.buffer : LoadStep → Option LabelBuffer
  | .stop b => b
  | .event _ b _ => b

theorem loadStep_size (f : File) : ∀ c ∈ (loadStep f).buffer, c.size = (c.labelLen + 1).toNat := by
  unfold loadStep
  split
  · simp [LoadStep.buffer]
  · split
    · simp [LoadStep.buffer]
    · split
      · simp [LoadStep.buffer]
      · dsimp only
        split <;> simp [LoadStep.buffer]

theorem loadLoop_size {n : ℕ} {f : File} {acc l : Loaded} (h : loadLoop n f acc = some l)
    (hacc : ∀ c ∈ acc.labelBuffers, c.size = (c.labelLen + 1).toNat) :
    ∀ c ∈ l.labelBuffers, c.size = (c.labelLen + 1).toNat := by
  induction n generalizing f acc with
  | zero => cases h
  | succ n ih =>
    simp only [loadLoop] at h
    split at h
    · cases h
      exact hacc
    · have hmore : ∀ c ∈ acc.labelBuffers ++ (loadStep f).buffer.toList,
          c.size = (c.labelLen + 1).toNat := by
        intro c hc
        rcases List.mem_append.mp hc with hc | hc
        · exact hacc c hc
        · exact loadStep_size f c (by simpa using hc)
      cases hs : loadStep f with
      | stop b =>
        simp only [hs] at h hmore
        cases h
        exact hmore
      | event e b f' =>
        simp only [hs] at h hmore
        exact ih h hmore

/-- A stream of complete records is loaded record for record, each label into a buffer
of its own. -/
theorem loadLoop_records {rs : List Bytes} {es : List (Event Bytes)}
    (h : List.Forall₂ RecordForm rs es) {n : ℕ} (hn : rs.length < n) (acc : Loaded) :
    loadLoop n { rest := rs.flatten, eof := false } acc =
      some { events := acc.events ++ es,
             labelBuffers := acc.labelBuffers ++ es.flatMap (fun e => (bufferOf e).toList) } := by
  induction h generalizing n acc with
  | nil =>
    obtain ⟨n,rfl⟩ : ∃ k, n = k + 1 := ⟨n - 1,by omega⟩
    have hs : loadStep { rest := [], eof := false } = .stop none := rfl
    simp [loadLoop,hs]
  | cons hr _ ih =>
    obtain ⟨n,rfl⟩ : ∃ k, n = k + 1 := ⟨n - 1,by omega⟩
    simp only [List.length_cons] at hn
    simp only [List.flatten_cons,loadLoop,Bool.false_eq_true,↓reduceIte,loadStep_append hr]
    rw [ih (by omega)]
    simp

theorem length_le_length_flatten {rs : List Bytes} {es : List (Event Bytes)}
    (h : List.Forall₂ RecordForm rs es) : rs.length ≤ rs.flatten.length := by
  induction h with
  | nil => simp
  | cons hr _ ih =>
    have hpos := recordReader.consumes (recordReader_read hr [])
    simp only [List.append_nil,List.length_nil] at hpos
    simp only [List.length_cons,List.flatten_cons,List.length_append]
    omega

theorem loadEvents_records {rs : List Bytes} {es : List (Event Bytes)}
    (h : List.Forall₂ RecordForm rs es) :
    loadEvents { rest := rs.flatten, eof := false } =
      some { events := es, labelBuffers := es.flatMap (fun e => (bufferOf e).toList) } := by
  have hlen := length_le_length_flatten h
  rw [loadEvents,loadLoop_records h (by dsimp only; omega)]
  simp

theorem strncmpEq_iff {n : ℕ} {as bs : Bytes} (ha : as.length = n) (hb : bs.length = n)
    (hnul : 0 ∉ bs) : strncmpEq n as bs = true ↔ as = bs := by
  induction n generalizing as bs with
  | zero => simp [strncmpEq,List.length_eq_zero_iff.mp ha,List.length_eq_zero_iff.mp hb]
  | succ n ih =>
    obtain ⟨a,as,rfl⟩ := List.exists_cons_of_length_eq_add_one ha
    obtain ⟨b,bs,rfl⟩ := List.exists_cons_of_length_eq_add_one hb
    simp only [List.mem_cons,not_or] at hnul
    by_cases hab : a = b
    · subst hab
      have ha0 : ¬a = 0 := fun h => hnul.1 h.symm
      simpa [strncmpEq,ha0] using ih (by simpa using ha) (by simpa using hb) hnul.2
    · simp [strncmpEq,hab]

/-- A file that starts with the magic and a version, whichever it is. -/
def HasHeader (content : Bytes) : Prop := 12 ≤ content.length ∧ content.take 8 = magic

instance (content : Bytes) : Decidable (HasHeader content) := inferInstanceAs (Decidable (_ ∧ _))

theorem TraceReader.openFile_of_header {content : Bytes} (h : HasHeader content) :
    TraceReader.openFile (some content) =
      (loadEvents { rest := content.drop 12, eof := false }).map (fun loaded =>
        { valid := true, version := UInt32.ofNat (leValue ((content.take 12).drop 8)),
          loaded := loaded }) := by
  obtain ⟨hlen,hmagic⟩ := h
  have h12 : (content.take 12).length = 12 := by simpa using hlen
  have hread := freadItem_append h12 (content.drop 12) false
  rw [List.take_append_drop] at hread
  have h8 : ((content.take 12).take 8) = magic := by rw [List.take_take]; exact hmagic
  have hcmp : strncmpEq 8 magic magic = true := by decide
  simp only [openFile,hread,h8,hcmp,↓reduceIte]

theorem TraceReader.openFile_of_no_header {content : Bytes} (h : ¬HasHeader content) :
    TraceReader.openFile (some content) = some TraceReader.invalid := by
  by_cases hlen : 12 ≤ content.length
  · have h12 : (content.take 12).length = 12 := by simpa using hlen
    have hread := freadItem_append h12 (content.drop 12) false
    rw [List.take_append_drop] at hread
    have hne : ¬strncmpEq 8 ((content.take 12).take 8) magic = true := by
      rw [strncmpEq_iff (by simp; omega) (show magic.length = 8 from rfl) (by decide),List.take_take]
      exact fun hm => h ⟨hlen,hm⟩
    simp only [openFile,hread]
    rw [if_neg hne]
  · have hread : freadItem 12 { rest := content, eof := false } = none := by
      have hs : ¬min 12 content.length = 12 := by omega
      simp [freadItem,fread,hlen]
    simp only [openFile,hread]

/-- The constructor returns on every file. -/
theorem TraceReader.openFile_total (content : Bytes) :
    ∃ r, TraceReader.openFile (some content) = some r := by
  by_cases h : HasHeader content
  · obtain ⟨l,hl⟩ := loadEvents_total (content.drop 12)
    exact ⟨_,by rw [openFile_of_header h,hl]; rfl⟩
  · exact ⟨_,openFile_of_no_header h⟩

end GgmlViz
