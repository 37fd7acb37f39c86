import GgmlViz.Trace.Format

/-! # The trace reader

`TraceReader` opens a file, checks the magic and loads events until a read comes back
short. Every buffer allocated for a label is kept on record with what was stored into
it, because its size is computed in 32-bit arithmetic from a length in the file.
-/
namespace GgmlViz
open LittleEndian

/-- A `FILE*` open for reading: the bytes ahead and the end-of-file flag. -/
structure File where
  rest : Bytes
  eof : Bool
  deriving DecidableEq

/-- `fread(dst, 1, n, f)`: a short read takes what is left and sets the flag. -/
def fread (n : ℕ) (f : File) : Bytes × File :=
  (f.rest.take n,{ rest := f.rest.drop n, eof := f.eof || decide (f.rest.length < n) })

/-- `fread(dst, size, 1, f) == 1`. -/
def freadItem (size : ℕ) (f : File) : Option ({bs : Bytes // bs.length = size} × File) :=
  if h : (fread size f).1.length = size then some (⟨(fread size f).1,h⟩,(fread size f).2) else none

/-- `make_unique<char[]>(label_len + 1)` and the bytes stored into it. -/
structure LabelBuffer where
  labelLen : UInt32
  size : ℕ
  stored : ℕ
  deriving DecidableEq

/-- More was stored than allocated: what happens next is undefined. -/
def LabelBuffer.Overrun (b : LabelBuffer) : Prop := b.size < b.stored

/-- The outcome of one round of the `while` loop of `load_events`. -/
inductive LoadStep
  | stop (buffer : Option LabelBuffer)
  | event (e : Event Bytes) (buffer : Option LabelBuffer) (f : File)

/-- The five reads every record starts with. -/
def readFixed (f : File) : Option (Event Bytes × UInt8 × File) := do
  let (type,f) ← freadItem 1 f
  let (timestampNs,f) ← freadItem 8 f
  let (threadId,f) ← freadItem 4 f
  let (data,f) ← freadItem 32 f
  let (hasLabel,f) ← freadItem 1 f
  let event : Event Bytes :=
    { type := ⟨UInt8.ofNat (leValue type.val)⟩
      timestampNs := UInt64.ofNat (leValue timestampNs.val)
      threadId := UInt32.ofNat (leValue threadId.val)
      data := ⟨data.val,data.property⟩
      label := none }
  some (event,UInt8.ofNat (leValue hasLabel.val),f)

/-- One round of the loop; every short read is a `break`. -/
def loadStep (f : File) : LoadStep :=
  match readFixed f with
  | none => .stop none
  | some (event,hasLabel,f) =>
    if hasLabel = 0 then .event event none f
    else
      match freadItem 4 f with
      | none => .stop none
      | some (len,f) =>
        let labelLen := UInt32.ofNat (leValue len.val)
        let body := fread labelLen.toNat f
        -- the size is `uint32_t` arithmetic: it wraps to 0 for the largest length
        let size := (labelLen + 1).toNat
        if body.1.length = labelLen.toNat then
          .event { event with label := some body.1 }
            (some { labelLen := labelLen, size := size, stored := body.1.length + 1 }) body.2
        else .stop (some { labelLen := labelLen, size := size, stored := body.1.length })

/-- The state that `load_events` builds up. -/
structure Loaded where
  events : List (Event Bytes)
  labelBuffers : List LabelBuffer
  deriving DecidableEq

/-- The event of a round that reads one, and what follows its record. -/
def LoadStep.record : LoadStep → Option (Event Bytes × Bytes)
  | .stop _ => none
  | .event e _ f => some (e,f.rest)

/-- The `while (!feof(file_))` loop, for a number of rounds. -/
def loadLoop : ℕ → File → Loaded → Option Loaded
  | 0, _, _ => none
  | n + 1, f, acc =>
    if f.eof then some acc
    else
      match loadStep f with
      | .stop buffer => some { acc with labelBuffers := acc.labelBuffers ++ buffer.toList }
      | .event e buffer f =>
        loadLoop n f
          { events := acc.events ++ [e], labelBuffers := acc.labelBuffers ++ buffer.toList }

/-- `load_events`; each round reads at least one byte, so this many rounds are enough. -/
def loadEvents (f : File) : Option Loaded :=
  loadLoop (f.rest.length + 1) f { events := [], labelBuffers := [] }

/-- `strncmp(a, b, n) == 0`. -/
def strncmpEq : ℕ → Bytes → Bytes → Bool
  | 0, _, _ => true
  | _ + 1, [], [] => true
  | _ + 1, [], b :: _ => b = 0
  | _ + 1, a :: _, [] => a = 0
  | n + 1, a :: as, b :: bs => if a = b then (a = 0 || strncmpEq n as bs) else false

/-- The reader after its constructor: `valid_`, `header_.version` and what was loaded. -/
structure TraceReader where
  valid : Bool
  version : UInt32
  loaded : Loaded
  deriving DecidableEq

namespace TraceReader

def events (r : TraceReader) : List (Event Bytes) := r.loaded.events
def labelBuffers (r : TraceReader) : List LabelBuffer := r.loaded.labelBuffers

def invalid : TraceReader :=
  { valid := false, version := 0, loaded := { events := [], labelBuffers := [] } }

/-- `TraceReader::TraceReader`; the file has these contents, or cannot be opened. The
outer option is `none` only if `load_events` did not return. -/
def openFile (content : Option Bytes) : Option TraceReader :=
  match content with
  | none => some invalid
  | some bs =>
    match freadItem 12 { rest := bs, eof := false } with
    | none => some invalid
    | some (header,f) =>
      if strncmpEq 8 (header.val.take 8) magic then
        (loadEvents f).map (fun loaded =>
          { valid := true
            version := UInt32.ofNat (leValue (header.val.drop 8))
            loaded := loaded })
      else some invalid

end TraceReader

theorem freadItem_append {n : ℕ} {bs : Bytes} (h : bs.length = n) (rest : Bytes) (eof : Bool) :
    freadItem n { rest := bs ++ rest, eof := eof } = some (⟨bs,h⟩,{ rest := rest, eof := eof }) := by
  subst h
  simp [freadItem,fread]

/-- A read that is not short leaves the flag alone. -/
theorem fread_full {n : ℕ} {f : File} (h : (fread n f).1.length = n) :
    f.rest = (fread n f).1 ++ (fread n f).2.rest ∧ (fread n f).2.eof = f.eof := by
  have hn : ¬f.rest.length < n := by
    simp only [fread,List.length_take] at h
    omega
  exact ⟨(List.take_append_drop n f.rest).symm,by simp [fread,hn]⟩

theorem freadItem_eq_some {n : ℕ} {f f' : File} {x : {bs : Bytes // bs.length = n}}
    (h : freadItem n f = some (x,f')) : f.rest = x.val ++ f'.rest ∧ f'.eof = f.eof := by
  unfold freadItem at h
  split at h
  · next hlen =>
    cases h
    exact fread_full hlen
  · cases h

/-- A record of the file format, whatever non-zero byte announces its label. -/
inductive RecordForm : Bytes → Event Bytes → Prop
  | plain {e : Event Bytes} : e.label = none → RecordForm (e.fixedBytes ++ [0]) e
  | labelled {e : Event Bytes} {hasLabel : UInt8} {body : Bytes} : hasLabel ≠ 0 →
      e.label = some body → body.length < 2 ^ 32 →
      RecordForm (e.fixedBytes ++ (hasLabel :: (leBytes 4 body.length ++ body))) e

/-- The buffer a label of this event is read into. -/
def bufferOf (e : Event Bytes) : Option LabelBuffer :=
  e.label.map (fun body =>
    { labelLen := UInt32.ofNat body.length, size := (UInt32.ofNat body.length + 1).toNat,
      stored := body.length + 1 })

theorem readFixed_append (e : Event Bytes) (hasLabel : UInt8) (rest : Bytes) (eof : Bool) :
    readFixed { rest := e.fixedBytes ++ (hasLabel :: rest), eof := eof } =
      some ({ e with label := none },hasLabel,{ rest := rest, eof := eof }) := by
  have hshape : e.fixedBytes ++ (hasLabel :: rest) = [e.type.code] ++
      (leBytes 8 e.timestampNs.toNat ++ (leBytes 4 e.threadId.toNat ++
        (e.data.bytes ++ ([hasLabel] ++ rest)))) := by
    simp [Event.fixedBytes]
  have ht : leValue (leBytes 8 e.timestampNs.toNat) = e.timestampNs.toNat :=
    leValue_leBytes_of_lt e.timestampNs.toNat_lt
  have hi : leValue (leBytes 4 e.threadId.toNat) = e.threadId.toNat :=
    leValue_leBytes_of_lt e.threadId.toNat_lt
  rw [hshape,readFixed]
  rw [freadItem_append (show [e.type.code].length = 1 from rfl),Option.bind_eq_bind,
    Option.bind_some]
  simp only [freadItem_append (show [hasLabel].length = 1 from rfl),
    freadItem_append (length_leBytes 8 _),freadItem_append (length_leBytes 4 _),
    freadItem_append e.data.size,Option.bind_eq_bind,Option.bind_some,ht,hi]
  simp [leValue]

theorem leBytes_u8 {bs : Bytes} (h : bs.length = 1) : [UInt8.ofNat (leValue bs)] = bs :=
  leBytes_leValue_of_length h

theorem leBytes_u32 {bs : Bytes} (h : bs.length = 4) :
    leBytes 4 (UInt32.ofNat (leValue bs)).toNat = bs := by
  have hlt := leValue_lt bs
  rw [h] at hlt
  rw [UInt32.toNat_ofNat_of_lt' hlt,leBytes_leValue_of_length h]

theorem leBytes_u64 {bs : Bytes} (h : bs.length = 8) :
    leBytes 8 (UInt64.ofNat (leValue bs)).toNat = bs := by
  have hlt := leValue_lt bs
  rw [h] at hlt
  rw [UInt64.toNat_ofNat_of_lt' hlt,leBytes_leValue_of_length h]

/-- Whatever the first five reads return was spelled by the bytes they took. -/
theorem readFixed_eq_some {f f' : File} {e : Event Bytes} {hasLabel : UInt8}
    (h : readFixed f = some (e,hasLabel,f')) :
    f.rest = e.fixedBytes ++ (hasLabel :: f'.rest) ∧ f'.eof = f.eof ∧ e.label = none := by
  simp only [readFixed,Option.bind_eq_bind,Option.bind_eq_some_iff,Prod.exists] at h
  obtain ⟨type,f1,h1,ts,f2,h2,tid,f3,h3,data,f4,h4,flag,f5,h5,he⟩ := h
  simp only [Option.some.injEq,Prod.mk.injEq] at he
  obtain ⟨rfl,rfl,rfl⟩ := he
  obtain ⟨r1,e1⟩ := freadItem_eq_some h1
  obtain ⟨r2,e2⟩ := freadItem_eq_some h2
  obtain ⟨r3,e3⟩ := freadItem_eq_some h3
  obtain ⟨r4,e4⟩ := freadItem_eq_some h4
  obtain ⟨r5,e5⟩ := freadItem_eq_some h5
  refine ⟨?_,e5.trans (e4.trans (e3.trans (e2.trans e1))),rfl⟩
  have hfixed (b : Bytes) (hb : b = [UInt8.ofNat (leValue b)]) (rest : Bytes) :
      b ++ rest = UInt8.ofNat (leValue b) :: rest := by
    conv_lhs => rw [hb]
    rfl
  rw [r1,r2,r3,r4,r5,hfixed _ (leBytes_u8 type.property).symm,
    hfixed _ (leBytes_u8 flag.property).symm]
  simp only [Event.fixedBytes,leBytes_u64 ts.property,leBytes_u32 tid.property,List.cons_append,
    List.append_assoc]

/-- After a label length the reader allocates, and takes the label if it is there in full. -/
theorem loadStep_labelled (e : Event Bytes) {hasLabel : UInt8} (hne : hasLabel ≠ 0) {n : ℕ}
    (hn : n < 2 ^ 32) (rest : Bytes) (eof : Bool) :
    loadStep { rest := e.fixedBytes ++ (hasLabel :: (leBytes 4 n ++ rest)), eof := eof } =
      if n ≤ rest.length then
        .event { e with label := some (rest.take n) }
          (some { labelLen := UInt32.ofNat n, size := (UInt32.ofNat n + 1).toNat, stored := n + 1 })
          { rest := rest.drop n, eof := eof }
      else .stop (some { labelLen := UInt32.ofNat n, size := (UInt32.ofNat n + 1).toNat,
                         stored := rest.length }) := by
  have hval : leValue (leBytes 4 n) = n := leValue_leBytes_of_lt hn
  have hlen : (UInt32.ofNat n).toNat = n := UInt32.toNat_ofNat_of_lt' hn
  rw [loadStep,readFixed_append]
  simp only [hne,↓reduceIte,freadItem_append (length_leBytes 4 _),hval,hlen,fread,List.length_take]
  by_cases hle : n ≤ rest.length
  · have hnot : ¬rest.length < n := by omega
    simp [hle,hnot]
  · have hshort : rest.length ≤ n := by omega
    have hlt : ¬rest.length = n := by omega
    simp [hle,hshort,hlt]

theorem loadStep_append {r : Bytes} {e : Event Bytes} (h : RecordForm r e) (rest : Bytes)
    (eof : Bool) :
    loadStep { rest := r ++ rest, eof := eof } =
      .event e (bufferOf e) { rest := rest, eof := eof } := by
  cases h with
  | plain hl =>
    have he : { e with label := none } = e := by rw [← hl]
    rw [List.append_assoc,List.singleton_append,loadStep,readFixed_append]
    simp [bufferOf,hl,he]
  | @labelled _ hasLabel body hne hl hlt =>
    have he : { e with label := some body } = e := by rw [← hl]
    rw [List.append_assoc,List.cons_append,List.append_assoc,loadStep_labelled e hne hlt]
    simp [bufferOf,hl,he]

/-- An event is loaded only from a complete record of it. -/
theorem loadStep_event {f f' : File} {e : Event Bytes} {b : Option LabelBuffer}
    (h : loadStep f = .event e b f') :
    ∃ r, RecordForm r e ∧ f.rest = r ++ f'.rest ∧ f'.eof = f.eof ∧ b = bufferOf e := by
  unfold loadStep at h
  split at h
  · cases h
  · next e0 hasLabel f1 hfixed =>
    obtain ⟨hrest,heof,hl0⟩ := readFixed_eq_some hfixed
    split at h
    · next hz =>
      cases h
      exact ⟨_,.plain hl0,by simp [hrest,hz],heof,by simp [bufferOf,hl0]⟩
    · next hne =>
      split at h
      · cases h
      · next len f2 hlen =>
        obtain ⟨hr2,he2⟩ := freadItem_eq_some hlen
        dsimp only at h
        generalize hL : UInt32.ofNat (leValue len.val) = labelLen at h
        have hback : leBytes 4 labelLen.toNat = len.val := by
          rw [← hL]
          exact leBytes_u32 len.property
        split at h
        · next hfull =>
          cases h
          obtain ⟨hr3,he3⟩ := fread_full hfull
          have hlt : (fread labelLen.toNat f2).1.length < 2 ^ 32 := by
            rw [hfull]
            exact labelLen.toNat_lt
          refine ⟨_,.labelled (e := { e0 with label := some _ }) hne rfl hlt,?_,
            he3.trans (he2.trans heof),?_⟩
          · rw [hrest,hr2,hr3,hfull,hback]
            simp [Event.fixedBytes]
          · simp [bufferOf,hfull]
        · cases h

theorem recordForm_encode {e : Event Bytes} (h : LabelFits e) : RecordForm (e.encode id) e := by
  cases hl : e.label with
  | none =>
    have he : e.encode id = e.fixedBytes ++ [0] := by simp [Event.encode,hl]
    exact he ▸ .plain hl
  | some l =>
    have hlen := h.toNat_labelLen hl
    have he : e.encode id = e.fixedBytes ++ (1 :: (leBytes 4 l.length ++ l)) := by
      simp [Event.encode,hlen,Event.labelText,hl]
    exact he ▸ .labelled (by decide) hl (h l hl).2

end GgmlViz
