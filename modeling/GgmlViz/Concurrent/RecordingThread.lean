import GgmlViz.Concurrent.Machine

/-! # One recording thread

What holds between a single recording thread and the shared members, whatever drains do
meanwhile. The write position is the thread's own, the read position only moves forward,
so what the thread has loaded stays good enough until it stores.
-/
namespace GgmlViz
open LittleEndian RingWindow
variable {L : Type} (text : L → Bytes) (cfg : Config)

namespace Pc

/-- A place in `record_event`, its callers, `flush_to_file` or `stop`. -/
def Records : Pc L → Prop
  | conActive | conTail | conHead _ | conCopy _ _ _ _ | conStore _ _ _ => False
  | startExchange | startCount | startWrite | startRead | startDropped | startOpen | startMagic
  | startVersion => False
  | _ => True

/-- Accepted, but not yet counted. -/
def uncounted : Pc L → ℕ
  | recCount _ _ => 1
  | _ => 0

/-- Past the limit test, but not yet accepted. -/
def reserved : Pc L → ℕ
  | recHead _ _ | recTail _ _ _ | recSlot _ _ _ | recPublish _ _ _ => 1
  | _ => 0

/-- What the local variables mean when these events are accepted. -/
def Locals (m : Mem L) (acc : List (Event L)) : Pc L → Prop
  | recTail _ _ head => head = acc.length
  | recSlot _ _ head => head = acc.length ∧ acc.length + 1 < m.readPos + bufferSize
  | recPublish e _ head => head = acc.length ∧ acc.length + 1 < m.readPos + bufferSize ∧
      m.eventBuffer (slot head) = e
  | recDrop _ unread => unread = bufferSize - 1
  | flushTail _ currentWrite => currentWrite = acc.length
  | flushField _ currentWrite currentRead f => currentWrite = acc.length ∧
      m.readPos ≤ currentRead ∧ currentRead < acc.length ∧
      (m.eventBuffer (slot currentRead)).FieldOf text f
  | flushStore _ currentRead => currentRead = acc.length
  | _ => True

/-- A place of a recording thread that carries no local variables. -/
structure Plain (p : Pc L) : Prop where
  records : p.Records
  uncounted : p.uncounted = 0
  reserved : p.reserved = 0
  locals : ∀ m acc, p.Locals text m acc

/-- Between the load and the store of `read_pos` in a flush. -/
def draining : Pc L → Bool
  | flushField _ _ _ _ | flushStore _ _ => true
  | _ => false

end Pc

/-- A call that a recording thread makes. -/
def Call.Records : Call L → Prop
  | .record _ | .hook _ _ | .stop => True
  | .consume | .start => False

/-- The shared members and one recording thread, after these events were accepted. -/
structure RecordingInv (m : Mem L) (p : Pc L) (acc : List (Event L)) : Prop where
  records : p.Records
  position : m.writePos = acc.length
  count : m.eventCount + p.uncounted = acc.length
  limit : acc.length + p.reserved ≤ cfg.instrumentation.maxEvents.toNat
  window : Window bufferSize m.eventBuffer acc m.readPos
  locals : p.Locals text m acc

variable {text cfg} {m m' : Mem L} {p p' : Pc L} {acc : List (Event L)} {os : List (Obs L)}

/-- What a step of a recording thread leaves as it is: every member has one place that
changes it. -/
structure Frame (p : Pc L) (m m' : Mem L) (os : List (Obs L)) : Prop where
  active : m'.active = m.active ∨ ∃ k, p = .stopExchange k
  eventCount : m'.eventCount = m.eventCount ∨ ∃ e k, p = .recCount e k
  eventBuffer : m'.eventBuffer = m.eventBuffer ∨ ∃ e k head, p = .recSlot e k head
  writePos : (m'.writePos = m.writePos ∧ acceptedIn os = []) ∨ ∃ e k head, p = .recPublish e k head
  readPos : m'.readPos = m.readPos ∨ ∃ holder currentRead, p = .flushStore holder currentRead
  droppedEvents : (m'.droppedEvents = m.droppedEvents ∧ droppedIn os = []) ∨
    ∃ k unread, p = .recDrop k unread
  outputFile : m'.outputFile = m.outputFile ∨ ∃ k, p = .fclose k
  files : (m'.files = m.files ∧ wroteIn os = []) ∨
    ∃ holder currentWrite currentRead f, p = .flushField holder currentWrite currentRead f
  returned : returnedIn os = []

theorem exec_frame (hrecords : p.Records) (hexec : exec text cfg p m = some (m',p',os)) :
    Frame p m m' os := by
  cases p with
  | recTail e k head =>
    simp only [exec] at hexec
    split at hexec <;> cases hexec <;>
      constructor <;> simp [acceptedIn,droppedIn,wroteIn,returnedIn]
  | lock holder =>
    simp only [exec] at hexec
    split at hexec <;> cases hexec
    constructor <;> simp [acceptedIn,droppedIn,wroteIn,returnedIn]
  | flushField holder currentWrite currentRead f =>
    simp only [exec] at hexec
    split at hexec <;> cases hexec <;> constructor <;> simp [acceptedIn,droppedIn,returnedIn]
  | idle => cases hexec
  | conActive | conTail | conHead | conCopy | conStore | startExchange | startCount
  | startWrite | startRead | startDropped | startOpen | startMagic | startVersion =>
    exact hrecords.elim
  | _ =>
    cases hexec
    constructor <;> simp [acceptedIn,droppedIn,wroteIn,returnedIn]

/-- Where a step of a recording thread leads, and what it has found: every test has two
outcomes. -/
inductive Pc.Next (cfg : Config) (m : Mem L) : Pc L → Pc L → Prop
  | hookOff {e k} : ¬m.active = true → Next cfg m (.hookActive e k) .idle
  | hookOn {e k} : m.active = true → Next cfg m (.hookActive e k) (.recActive e k)
  | inactive {e k} : ¬m.active = true → Next cfg m (.recActive e k) (Pc.finish cfg k)
  | active {e k} : m.active = true → Next cfg m (.recActive e k) (.recLimit e k)
  | atLimit {e k} : cfg.instrumentation.maxEvents.toNat ≤ m.eventCount →
      Next cfg m (.recLimit e k) (.stopExchange k)
  | belowLimit {e k} : ¬cfg.instrumentation.maxEvents.toNat ≤ m.eventCount →
      Next cfg m (.recLimit e k) (.recHead e k)
  | loadHead {e k} : Next cfg m (.recHead e k) (.recTail e k m.writePos)
  | full {e k head} : slot (increment head) = slot m.readPos →
      Next cfg m (.recTail e k head) (.recDrop k (m.writePos - m.readPos))
  | room {e k head} : ¬slot (increment head) = slot m.readPos →
      Next cfg m (.recTail e k head) (.recSlot e k head)
  | drop {k unread} : Next cfg m (.recDrop k unread) (Pc.finish cfg k)
  | fill {e k head} : Next cfg m (.recSlot e k head) (.recPublish e k head)
  | publish {e k head} : Next cfg m (.recPublish e k head) (.recCount e k)
  | countFlush {e k} : cfg.output.writeToFile = true →
      Next cfg m (.recCount e k) (.lock { closes := false, after := k })
  | count {e k} : Next cfg m (.recCount e k) (Pc.finish cfg k)
  | locked {holder} : ¬m.fileMutex = true → Next cfg m (.lock holder) (.flushFile holder)
  | noFile {holder} : m.outputFile.isNone = true →
      Next cfg m (.flushFile holder) (Pc.flushed holder)
  | file {holder} : ¬m.outputFile.isNone = true →
      Next cfg m (.flushFile holder) (.flushHead holder)
  | flushHead {holder} : Next cfg m (.flushHead holder) (.flushTail holder m.writePos)
  | flushTail {holder currentWrite} : Next cfg m (.flushTail holder currentWrite)
      (Pc.flushNext holder currentWrite m.readPos)
  | field {holder currentWrite currentRead f g} :
      Next cfg m (.flushField holder currentWrite currentRead f)
        (.flushField holder currentWrite currentRead g)
  | record {holder currentWrite currentRead f} :
      Next cfg m (.flushField holder currentWrite currentRead f)
        (Pc.flushNext holder currentWrite (currentRead + 1))
  | flushStore {holder currentRead} :
      Next cfg m (.flushStore holder currentRead) (Pc.flushed holder)
  | fclose {k} : Next cfg m (.fclose k) (.unlock k)
  | unlock {k} : Next cfg m (.unlock k) (Pc.finish cfg k)
  | stops {k} : m.active = true → Next cfg m (.stopExchange k) (.stopTest k)
  | stopped {k} : ¬m.active = true → Next cfg m (.stopExchange k) (Pc.finish cfg k)
  | closes {k} : m.outputFile.isSome = true →
      Next cfg m (.stopTest k) (.lock { closes := true, after := k })
  | nothingOpen {k} : ¬m.outputFile.isSome = true →
      Next cfg m (.stopTest k) (Pc.finish cfg k)

theorem exec_next (hrecords : p.Records) (hexec : exec text cfg p m = some (m',p',os)) :
    Pc.Next cfg m p p' := by
  cases p with
  | idle => cases hexec
  | hookActive e k =>
    cases hexec
    split
    · next hactive => exact .hookOn hactive
    · next hactive => exact .hookOff hactive
  | recActive e k =>
    cases hexec
    split
    · next hactive => exact .active hactive
    · next hactive => exact .inactive hactive
  | recLimit e k =>
    cases hexec
    split
    · next hlimit => exact .atLimit hlimit
    · next hlimit => exact .belowLimit hlimit
  | recHead e k =>
    cases hexec
    exact .loadHead
  | recTail e k head =>
    simp only [exec] at hexec
    split at hexec
    · next hfull =>
      cases hexec
      exact .full hfull
    · next hroom =>
      cases hexec
      exact .room hroom
  | recDrop k unread =>
    cases hexec
    exact .drop
  | recSlot e k head =>
    cases hexec
    exact .fill
  | recPublish e k head =>
    cases hexec
    exact .publish
  | recCount e k =>
    cases hexec
    split
    · next hflush => exact .countFlush (Bool.and_eq_true_iff.mp hflush).1
    · exact .count
  | lock holder =>
    simp only [exec] at hexec
    split at hexec
    · cases hexec
    · next hfree =>
      cases hexec
      exact .locked hfree
  | flushFile holder =>
    cases hexec
    split
    · next hnone => exact .noFile hnone
    · next hsome => exact .file hsome
  | flushHead holder =>
    cases hexec
    exact .flushHead
  | flushTail holder currentWrite =>
    cases hexec
    exact .flushTail
  | flushField holder currentWrite currentRead f =>
    simp only [exec] at hexec
    split at hexec
    · cases hexec
      exact .field
    · cases hexec
      exact .record
  | flushStore holder currentRead =>
    cases hexec
    exact .flushStore
  | fclose k =>
    cases hexec
    exact .fclose
  | unlock k =>
    cases hexec
    exact .unlock
  | stopExchange k =>
    cases hexec
    split
    · next hactive => exact .stops hactive
    · next hactive => exact .stopped hactive
  | stopTest k =>
    cases hexec
    split
    · next hopen => exact .closes hopen
    · next hclosed => exact .nothingOpen hclosed
  | _ => exact hrecords.elim

theorem plain_finish (k : After) : (Pc.finish cfg k : Pc L).Plain text :=
  finish_of k ⟨trivial,rfl,rfl,fun _ _ => trivial⟩ ⟨trivial,rfl,rfl,fun _ _ => trivial⟩

theorem plain_flushed (h : Holder) : (Pc.flushed h : Pc L).Plain text :=
  flushed_of h (fun _ => ⟨trivial,rfl,rfl,fun _ _ => trivial⟩)
    (fun _ => ⟨trivial,rfl,rfl,fun _ _ => trivial⟩)

namespace RecordingInv

/-- Before the first event of a session. -/
theorem begin (hw : m.writePos = 0) (hc : m.eventCount = 0) (hr : m.readPos = 0) :
    RecordingInv text cfg m .idle [] where
  records := trivial
  position := hw
  count := hc
  limit := Nat.zero_le _
  window := by
    rw [hr]
    exact Window.nil (by decide) _
  locals := trivial

/-- A step that accepts nothing, to a place where nothing is reserved or uncounted. -/
theorem toQuiet (h : RecordingInv text cfg m p acc) (hp : p.uncounted = 0)
    (hp' : p'.Records ∧ p'.uncounted = 0 ∧ p'.reserved = 0) (hos : acceptedIn os = [])
    (hw : m'.writePos = m.writePos) (hc : m'.eventCount = m.eventCount)
    (hb : m'.eventBuffer = m.eventBuffer) (hlo : m.readPos ≤ m'.readPos)
    (hhi : m'.readPos ≤ acc.length) (hlocals : p'.Locals text m' acc) :
    RecordingInv text cfg m' p' (acc ++ acceptedIn os) := by
  obtain ⟨hrec,hunc,hres⟩ := hp'
  rw [hos,List.append_nil]
  have hl := h.limit
  exact
    { records := hrec
      position := hw.trans h.position
      count := by rw [hc,hunc,← h.count,hp]
      limit := by rw [hres]; omega
      window := by rw [hb]; exact h.window.advance hlo hhi
      locals := hlocals }

theorem toPlain (h : RecordingInv text cfg m p acc) (hp : p.uncounted = 0) (hp' : p'.Plain text)
    (hos : acceptedIn os = []) (hw : m'.writePos = m.writePos) (hc : m'.eventCount = m.eventCount)
    (hb : m'.eventBuffer = m.eventBuffer) (hr : m'.readPos = m.readPos) :
    RecordingInv text cfg m' p' (acc ++ acceptedIn os) :=
  h.toQuiet hp ⟨hp'.records,hp'.uncounted,hp'.reserved⟩ hos hw hc hb (Nat.le_of_eq hr.symm)
    (hr ▸ h.window.lo_le) (hp'.locals _ _)

theorem lt_of_reserved (h : RecordingInv text cfg m p acc) (hp : p.reserved = 1) :
    acc.length + 1 < 2 ^ 64 := by
  have hmax := cfg.instrumentation.maxEvents.toNat_lt
  have hl := h.limit
  omega

/-- The full test on a loaded `read_pos`: either a slot is free, or 65535 events are
unread. -/
theorem fullTest (h : RecordingInv text cfg m p acc) (hp : p.reserved = 1) :
    slot (increment acc.length) = slot m.readPos ↔ acc.length + 1 = m.readPos + bufferSize := by
  rw [increment_of_lt (h.lt_of_reserved hp),slot_eq_mod,slot_eq_mod]
  exact next_mod_eq_iff h.window.lo_le h.window.fits

/-- The loop test of a flush: something is unread, or the read position is at the end. -/
theorem flushNext_locals {currentRead : ℕ} (hlo : m.readPos ≤ currentRead)
    (hhi : currentRead ≤ acc.length) (holder : Holder) :
    (Pc.flushNext holder acc.length currentRead).Locals text m acc :=
  flushNext_of holder (fun hlt => ⟨rfl,hlo,hlt,trivial⟩) (fun hge => Nat.le_antisymm hhi hge)

theorem flushNext_records (holder : Holder) (currentWrite currentRead : ℕ) :
    (Pc.flushNext holder currentWrite currentRead : Pc L).Records ∧
      (Pc.flushNext holder currentWrite currentRead : Pc L).uncounted = 0 ∧
      (Pc.flushNext holder currentWrite currentRead : Pc L).reserved = 0 :=
  flushNext_of (P := fun p => p.Records ∧ p.uncounted = 0 ∧ p.reserved = 0) holder
    (fun _ => ⟨trivial,rfl,rfl⟩) (fun _ => ⟨trivial,rfl,rfl⟩)

theorem step (h : RecordingInv text cfg m p acc)
    (hexec : exec text cfg p m = some (m',p',os)) :
    RecordingInv text cfg m' p' (acc ++ acceptedIn os) := by
  have hmax := cfg.instrumentation.maxEvents.toNat_lt
  cases p with
  | idle => cases hexec
  | hookActive e k =>
    cases hexec
    refine h.toPlain rfl ?_ rfl rfl rfl rfl rfl
    split <;> exact ⟨trivial,rfl,rfl,fun _ _ => trivial⟩
  | recActive e k =>
    cases hexec
    refine h.toPlain rfl ?_ rfl rfl rfl rfl rfl
    split
    · exact ⟨trivial,rfl,rfl,fun _ _ => trivial⟩
    · exact plain_finish k
  | recLimit e k =>
    cases hexec
    split
    · exact h.toPlain rfl ⟨trivial,rfl,rfl,fun _ _ => trivial⟩ rfl rfl rfl rfl rfl
    · next hlt =>
      have hc := h.count
      simp only [Pc.uncounted] at hc
      simp only [acceptedIn,List.filterMap_nil,List.append_nil]
      exact { h with count := hc, limit := by simp only [Pc.reserved]; omega, locals := trivial,
                     records := trivial }
  | recHead e k =>
    cases hexec
    simp only [acceptedIn,List.filterMap_nil,List.append_nil]
    exact { h with locals := h.position, records := trivial }
  | recTail e k head =>
    have hhead : head = acc.length := h.locals
    subst hhead
    simp only [exec,h.fullTest rfl] at hexec
    split at hexec
    · next hfull =>
      cases hexec
      simp only [acceptedIn,List.filterMap_nil,List.append_nil]
      have hunread : m.writePos - m.readPos = bufferSize - 1 := by
        rw [h.position]
        omega
      have hl := h.limit
      exact { h with locals := hunread, records := trivial, count := h.count
                     limit := by simp only [Pc.reserved] at hl ⊢; omega }
    · next hroom =>
      cases hexec
      simp only [acceptedIn,List.filterMap_nil,List.append_nil]
      have hfits := h.window.fits
      exact { h with locals := ⟨rfl,by omega⟩, records := trivial }
  | recDrop k unread =>
    cases hexec
    exact h.toPlain rfl (plain_finish k) rfl rfl rfl rfl rfl
  | recSlot e k head =>
    cases hexec
    simp only [acceptedIn,List.filterMap_nil,List.append_nil]
    obtain ⟨rfl,hroom⟩ := h.locals
    have hwindow := h.window.write e
    rw [← slot_eq_mod] at hwindow
    exact { h with window := hwindow, locals := ⟨rfl,hroom,Function.update_self ..⟩,
                   records := trivial }
  | recPublish e k head =>
    cases hexec
    obtain ⟨rfl,hroom,hslot⟩ := h.locals
    have hl := h.limit
    have hc := h.count
    have hwindow := h.window.publish (x := e) (by rw [← slot_eq_mod]; exact hslot) hroom
    simp only [Pc.reserved,Pc.uncounted] at hl hc
    exact
      { records := trivial
        position := by
          simp only [increment_of_lt (h.lt_of_reserved rfl),acceptedIn]
          simp
        count := by
          simp only [Pc.uncounted,acceptedIn]
          simp
          omega
        limit := by
          simp only [Pc.reserved,acceptedIn]
          simp
          omega
        window := hwindow
        locals := trivial }
  | recCount e k =>
    cases hexec
    have hc := h.count
    have hl := h.limit
    simp only [Pc.uncounted,Pc.reserved] at hc hl
    have hnext : increment m.eventCount = acc.length := by
      rw [increment_of_lt (by omega)]
      exact hc
    simp only [acceptedIn,List.filterMap_cons,List.filterMap_nil,List.append_nil]
    have hplain : (if cfg.output.writeToFile && increment m.eventCount &&& 0xFFF = 0
        then Pc.lock { closes := false, after := k } else Pc.finish cfg k : Pc L).Plain text := by
      split
      · exact ⟨trivial,rfl,rfl,fun _ _ => trivial⟩
      · exact plain_finish k
    exact
      { records := hplain.records
        position := h.position
        count := by rw [hplain.uncounted]; exact hnext
        limit := by rw [hplain.reserved]; exact hl
        window := h.window
        locals := hplain.locals _ _ }
  | lock holder =>
    simp only [exec] at hexec
    split at hexec
    · cases hexec
    · cases hexec
      exact h.toPlain rfl ⟨trivial,rfl,rfl,fun _ _ => trivial⟩ rfl rfl rfl rfl rfl
  | flushFile holder =>
    cases hexec
    refine h.toPlain rfl ?_ rfl rfl rfl rfl rfl
    split
    · exact plain_flushed holder
    · exact ⟨trivial,rfl,rfl,fun _ _ => trivial⟩
  | flushHead holder =>
    cases hexec
    exact h.toQuiet rfl ⟨trivial,rfl,rfl⟩ rfl rfl rfl rfl (Nat.le_refl _) h.window.lo_le h.position
  | flushTail holder currentWrite =>
    cases hexec
    have hw : currentWrite = acc.length := h.locals
    subst hw
    exact h.toQuiet rfl (flushNext_records holder _ _) rfl rfl rfl rfl (Nat.le_refl _)
      h.window.lo_le (flushNext_locals (Nat.le_refl _) h.window.lo_le holder)
  | flushField holder currentWrite currentRead f =>
    obtain ⟨rfl,hlo,hlt,hfield⟩ := h.locals
    have hread : m.readPos ≤ acc.length := h.window.lo_le
    simp only [exec] at hexec
    cases hn : (m.eventBuffer (slot currentRead)).nextField text f with
    | some g =>
      simp only [hn] at hexec
      cases hexec
      have hnext := Event.nextField_fieldOf text hfield hn
      exact h.toQuiet rfl ⟨trivial,rfl,rfl⟩ rfl (by simp) (by simp) (by simp) (by simp)
        (by simpa using hread) (by simpa [Pc.Locals] using ⟨hlo,hlt,hnext⟩)
    | none =>
      simp only [hn] at hexec
      cases hexec
      exact h.toQuiet rfl (flushNext_records holder _ _) rfl (by simp) (by simp) (by simp) (by simp)
        (by simpa using hread) (flushNext_locals (by simp; omega) hlt holder)
  | flushStore holder currentRead =>
    cases hexec
    have hr : currentRead = acc.length := h.locals
    subst hr
    have hplain : (Pc.flushed holder : Pc L).Plain text := plain_flushed holder
    exact h.toQuiet rfl ⟨hplain.records,hplain.uncounted,hplain.reserved⟩ rfl rfl rfl rfl
      h.window.lo_le (Nat.le_refl _) (hplain.locals _ _)
  | fclose k =>
    cases hexec
    exact h.toPlain rfl ⟨trivial,rfl,rfl,fun _ _ => trivial⟩ rfl rfl rfl rfl rfl
  | unlock k =>
    cases hexec
    exact h.toPlain rfl (plain_finish k) rfl rfl rfl rfl rfl
  | stopExchange k =>
    cases hexec
    refine h.toPlain rfl ?_ rfl rfl rfl rfl rfl
    split
    · exact ⟨trivial,rfl,rfl,fun _ _ => trivial⟩
    · exact plain_finish k
  | stopTest k =>
    cases hexec
    refine h.toPlain rfl ?_ rfl rfl rfl rfl rfl
    split
    · exact ⟨trivial,rfl,rfl,fun _ _ => trivial⟩
    · exact plain_finish k
  | conActive => exact h.records.elim
  | conTail => exact h.records.elim
  | conHead => exact h.records.elim
  | conCopy => exact h.records.elim
  | conStore => exact h.records.elim
  | startExchange => exact h.records.elim
  | startCount => exact h.records.elim
  | startWrite => exact h.records.elim
  | startRead => exact h.records.elim
  | startDropped => exact h.records.elim
  | startOpen => exact h.records.elim
  | startMagic => exact h.records.elim
  | startVersion => exact h.records.elim

theorem call (h : RecordingInv text cfg m .idle acc) {c : Call L} (hc : c.Records) :
    RecordingInv text cfg m (c.entry cfg) acc := by
  have hplain : (c.entry cfg).Plain text := by
    cases c with
    | record e => exact ⟨trivial,rfl,rfl,fun _ _ => trivial⟩
    | hook e k => exact ⟨trivial,rfl,rfl,fun _ _ => trivial⟩
    | stop => exact ⟨trivial,rfl,rfl,fun _ _ => trivial⟩
    | consume => exact hc.elim
    | start => exact hc.elim
  have hstay : RecordingInv text cfg m (c.entry cfg) (acc ++ acceptedIn ([] : List (Obs L))) :=
    h.toPlain rfl hplain rfl rfl rfl rfl rfl
  simpa [acceptedIn] using hstay

/-- Another thread may move the read position forward, except during a flush. -/
theorem advance (h : RecordingInv text cfg m p acc) {v : ℕ} (hlo : m.readPos ≤ v)
    (hhi : v ≤ acc.length) (hp : p.draining = false) :
    RecordingInv text cfg { m with readPos := v } p acc where
  records := h.records
  position := h.position
  count := h.count
  limit := h.limit
  window := h.window.advance hlo hhi
  locals := by
    have hl := h.locals
    cases p with
    | recSlot e k head =>
      obtain ⟨hhead,hroom⟩ := hl
      exact ⟨hhead,by dsimp only; omega⟩
    | recPublish e k head =>
      obtain ⟨hhead,hroom,hslot⟩ := hl
      exact ⟨hhead,by dsimp only; omega,hslot⟩
    | flushField => cases hp
    | _ => exact hl

/-- The slot that the thread is about to write holds no unread event. -/
theorem slot_free {e : Event L} {k : After} {head : ℕ}
    (h : RecordingInv text cfg m (.recSlot e k head) acc) {i : ℕ} (hlo : m.readPos ≤ i)
    (hhi : i < m.writePos) : slot i ≠ slot head := by
  obtain ⟨rfl,hroom⟩ := h.locals
  have hpos := h.position
  rw [slot_eq_mod,slot_eq_mod]
  exact mod_ne_mod_of_lt (by omega) (by omega)

theorem readPos_le (h : RecordingInv text cfg m p acc)
    (hexec : exec text cfg p m = some (m',p',os)) : m.readPos ≤ m'.readPos := by
  rcases (exec_frame h.records hexec).readPos with hsame | ⟨holder,currentRead,rfl⟩
  · exact Nat.le_of_eq hsame.symm
  · cases hexec
    have hr : currentRead = acc.length := h.locals
    exact hr ▸ h.window.lo_le

theorem dropped (h : RecordingInv text cfg m p acc)
    (hexec : exec text cfg p m = some (m',p',os)) : ∀ n ∈ droppedIn os, n = bufferSize - 1 := by
  rcases (exec_frame h.records hexec).droppedEvents with ⟨-,hnone⟩ | ⟨k,unread,rfl⟩
  · simp [hnone]
  · cases hexec
    have hunread : unread = bufferSize - 1 := h.locals
    simp [droppedIn,hunread]

end RecordingInv

end GgmlViz
