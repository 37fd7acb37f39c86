import GgmlViz.Concurrent.FlushingThread
import GgmlViz.Hook.Session

/-! # Starting while another thread computes

Thread 0 starts the hook, thread 1 makes hook calls, and thread 0 stops the hook when
thread 1 is idle. `start()` sets `active_` first, then resets the counters, opens the file
and writes the header. A counter that is yet to be reset is as good as zero: seen so, the
hook thread is a recording thread from the beginning.
-/
namespace GgmlViz
open LittleEndian RingWindow
variable {L : Type} (text : L → Bytes) (cfg : Config)

namespace Pc

/-- `start()` has yet to reset `event_count_`. -/
def owesCount : Pc L → Bool
  | startExchange | startCount => true
  | _ => false

/-- `start()` has yet to reset `write_pos`. -/
def owesWrite : Pc L → Bool
  | startExchange | startCount | startWrite => true
  | _ => false

/-- `start()` has yet to reset `read_pos`. -/
def owesRead : Pc L → Bool
  | startExchange | startCount | startWrite | startRead => true
  | _ => false

/-- `start()` has yet to open the file. -/
def owesFile : Pc L → Bool
  | startExchange | startCount | startWrite | startRead | startDropped | startOpen => true
  | _ => false

/-- `start()` has yet to write the header, or a part of it. -/
def owesHeader : Pc L → Bool
  | startMagic | startVersion => true
  | p => p.owesFile

/-- What `start()` has written of the header. -/
def header : Pc L → Bytes
  | startMagic => []
  | startVersion => magic
  | _ => traceHeader

def isIdle : Pc L → Bool
  | idle => true
  | _ => false

/-- The hook thread reads a counter that is yet to be reset only if that makes no
difference, and stores one only after the reset; it tests `output_file_` in `stop()` only
after the file was opened, and writes and closes only after the header. -/
def allows (q : Pc L) (m : Mem L) : Pc L → Bool
  | recLimit _ _ =>
    !q.owesCount || m.eventCount = 0 || m.eventCount < cfg.instrumentation.maxEvents.toNat
  | recHead _ _ => !q.owesWrite || m.writePos = 0
  | recTail _ _ _ => !q.owesRead || m.readPos = 0
  | recPublish _ _ _ => !q.owesWrite
  | recCount _ _ => !q.owesCount
  | stopTest _ => !q.owesFile
  | flushField _ _ _ _ | fclose _ => !q.owesHeader
  | _ => true

/-- The members once `start()` has made its resets. -/
def settle (q : Pc L) (m : Mem L) : Mem L :=
  { m with
    eventCount := if q.owesCount then 0 else m.eventCount
    writePos := if q.owesWrite then 0 else m.writePos
    readPos := if q.owesRead then 0 else m.readPos }

/-- On the way from the exchange in `stop()` to the end of its `fclose`. -/
def Closes : Pc L → Prop
  | stopTest _ | fclose _ => True
  | lock h | flushFile h | flushHead h | flushTail h _ | flushField h _ _ _ | flushStore h _ =>
    h.closes = true
  | _ => False

/-- On the way from the test of `active_` to the store of `write_pos`. -/
def Accepts : Pc L → Prop
  | recLimit _ _ | recHead _ _ | recTail _ _ _ | recSlot _ _ _ | recPublish _ _ _ => True
  | _ => False

end Pc

/-- Thread 0 is about to start an inactive hook whose file is closed. -/
def World.starting (s : HookState L) : World L :=
  { mem := { toHookState := s, fileMutex := false }
    pc := Function.update (fun _ => .idle) 0 (Call.start.entry cfg), log := [] }

def World.Starting (w : World L) : Prop :=
  ∃ s : HookState L, s.active = false ∧ s.outputFile = none ∧ w = World.starting cfg s

/-- Thread 1 makes hook calls, but not during `stop()`; thread 0 calls `stop()` when thread 1
is idle. -/
def raceMay (w : World L) : Action L → Bool
  | .call 0 .stop => (w.pc 1).isIdle
  | .call 1 (.hook _ _) => (w.pc 0).isIdle || (w.pc 0).owesHeader
  | .call _ _ => false
  | .tick _ => true

abbrev raceSystem : Transition.System (World L) (Action L) :=
  hookSystem text cfg (World.Starting cfg) raceMay

def resetFirst (w : World L) : Action L → Bool
  | .tick 1 => (w.pc 0).allows cfg w.mem (w.pc 1)
  | _ => true

/-- The runs in which the hook thread keeps behind the resets and the header. -/
abbrev resetFirstSystem : Transition.System (World L) (Action L) :=
  (raceSystem text cfg).restrict (fun w a => resetFirst cfg w a = true)

/-- What is written of a record that one of the two threads is in. -/
def World.partialRecord (w : World L) : Bytes :=
  (w.pc 0).partialRecord text w.mem.eventBuffer ++ (w.pc 1).partialRecord text w.mem.eventBuffer

/-- Once the file is open it is the header, as far as written, and whole records; and when
the hook was stopped, every counted event is in the file. -/
structure SessionWhole (w : World L) : Prop where
  file : (w.pc 0).owesFile = false → w.mem.files cfg.output.filename =
    some ((w.pc 0).header ++ (w.wrote.flatMap (Event.encode text) ++ w.partialRecord text))
  headerFirst : (w.pc 0).owesHeader = true → w.wrote = [] ∧ w.partialRecord text = []
  complete : w.mem.active = false → w.pc 0 = .idle → w.pc 1 = .idle →
    w.wrote.Perm w.accepted ∧ w.mem.eventCount = w.accepted.length

/-- Whether the session is open, being closed, over, or not begun. -/
inductive Stage (q : Pc L) (m : Mem L) (p : Pc L) (acc : List (Event L)) : Prop
  | opened (begun : q ≠ .startExchange) (active : m.active = true) (notCloses : ¬p.Closes)
      (output : q.owesFile = false → m.outputFile = some cfg.output.filename)
  | closing (begun : q ≠ .startExchange) (inactive : m.active = false) (closes : p.Closes)
      (notClosed : ∀ k, p ≠ .fclose k) (waits : q.owesFile = true → ∃ k, p = .stopTest k)
      (output : q.owesFile = false → m.outputFile = some cfg.output.filename)
  | ended (begun : q.owesFile = false) (inactive : m.active = false) (notAccepts : ¬p.Accepts)
      (flushed : m.readPos = acc.length)
  | notBegun (place : q = .startExchange) (inactive : m.active = false)
      (outside : p = .idle ∨ ∃ e k, p = .hookActive e k)

/-- What holds between `start()` at `q` and the thread that records at `p`. -/
structure StartInv (q : Pc L) (m : Mem L) (p : Pc L) (acc wrote : List (Event L)) : Prop where
  recording : RecordingInv text cfg (q.settle m) p acc
  delivered : wrote.Perm (acc.take (p.frontier (q.settle m).readPos))
  unopened : q.owesFile = true → m.outputFile = none ∧ ¬p.Writes ∧ wrote = []
  file : q.owesFile = false → FileInv text cfg.output.filename q.header m p wrote
  heading : q.owesFile = false → q.owesHeader = true →
    m.outputFile = some cfg.output.filename ∧ wrote = [] ∧
      p.partialRecord text m.eventBuffer = []
  stage : Stage cfg q m p acc

variable {text cfg} {q q' : Pc L} {m m' : Mem L} {p p' : Pc L} {acc wrote : List (Event L)}
  {os : List (Obs L)}

namespace Pc

theorem owesFile_of_owesWrite (h : q.owesWrite = true) : q.owesFile = true := by
  cases q <;> first | rfl | cases h

theorem owesFile_of_owesRead (h : q.owesRead = true) : q.owesFile = true := by
  cases q <;> first | rfl | cases h

theorem owesWrite_of_owesCount (h : q.owesCount = true) : q.owesWrite = true := by
  cases q <;> first | rfl | cases h

theorem owesHeader_of_owesFile (h : q.owesFile = true) : q.owesHeader = true := by
  cases q <;> first | rfl | cases h

theorem settle_writePos (h : q.owesWrite = true → m.writePos = 0) :
    (q.settle m).writePos = m.writePos := by
  cases hq : q.owesWrite with
  | false => simp [settle,hq]
  | true => simp [settle,hq,h hq]

theorem settle_readPos (h : q.owesRead = true → m.readPos = 0) :
    (q.settle m).readPos = m.readPos := by
  cases hq : q.owesRead with
  | false => simp [settle,hq]
  | true => simp [settle,hq,h hq]

theorem settle_of_open (h : q.owesFile = false) (m : Mem L) : q.settle m = m := by
  have hr : q.owesRead = false := by
    cases hq : q.owesRead with
    | false => rfl
    | true => exact (Bool.false_ne_true (h.symm.trans (owesFile_of_owesRead hq))).elim
  have hw : q.owesWrite = false := by
    cases hq : q.owesWrite with
    | false => rfl
    | true => exact (Bool.false_ne_true (h.symm.trans (owesFile_of_owesWrite hq))).elim
  have hc : q.owesCount = false := by
    cases hq : q.owesCount with
    | false => rfl
    | true => exact (Bool.false_ne_true (hw.symm.trans (owesWrite_of_owesCount hq))).elim
  simp [settle,hr,hw,hc]

end Pc

theorem RecordingInv.congr (h : RecordingInv text cfg m p acc) (hw : m'.writePos = m.writePos)
    (hc : m'.eventCount = m.eventCount) (hb : m'.eventBuffer = m.eventBuffer)
    (hr : m'.readPos = m.readPos) : RecordingInv text cfg m' p acc where
  records := h.records
  position := hw.trans h.position
  count := by rw [hc]; exact h.count
  limit := h.limit
  window := by rw [hb,hr]; exact h.window
  locals := by
    have hl := h.locals
    cases p with
    | recSlot | recPublish | flushField => simpa [Pc.Locals,hb,hr] using hl
    | _ => exact hl

/-- A guarded step of the hook thread does the same to the members once they are reset. -/
theorem exec_settle (hrec : RecordingInv text cfg (q.settle m) p acc)
    (hopen : q.owesFile = true → ¬p.Writes) (hguard : q.allows cfg m p = true)
    (hexec : exec text cfg p m = some (m',p',os)) :
    exec text cfg p (q.settle m) = some (q.settle m',p',os) := by
  have hwrites (hp : p.Writes) : ∀ n : Mem L, q.settle n = n := by
    refine Pc.settle_of_open ?_
    cases hq : q.owesFile with
    | false => rfl
    | true => exact (hopen hq hp).elim
  cases p with
  | idle => cases hexec
  | recLimit e k =>
    have hsame : cfg.instrumentation.maxEvents.toNat ≤ (q.settle m).eventCount ↔
        cfg.instrumentation.maxEvents.toNat ≤ m.eventCount := by
      cases hq : q.owesCount with
      | false => simp [Pc.settle,hq]
      | true =>
        simp only [Pc.allows,hq,Bool.not_true,Bool.false_or,Bool.or_eq_true,
          decide_eq_true_eq] at hguard
        simp only [Pc.settle,hq,if_true]
        omega
    simp only [exec,hsame] at hexec ⊢
    cases hexec
    rfl
  | recHead e k =>
    have hsame : (q.settle m).writePos = m.writePos := by
      apply Pc.settle_writePos
      intro hq
      simpa [Pc.allows,hq] using hguard
    simp only [exec,hsame] at hexec ⊢
    cases hexec
    rfl
  | recTail e k head =>
    have hread : (q.settle m).readPos = m.readPos := by
      apply Pc.settle_readPos
      intro hq
      simpa [Pc.allows,hq] using hguard
    have hfull := hrec.fullTest rfl
    have hhead : head = acc.length := hrec.locals
    have hposition := hrec.position
    subst hhead
    rw [hread] at hfull
    simp only [exec,hread,hfull] at hexec ⊢
    split at hexec
    · next hlen =>
      have hwrite : q.owesWrite = false := by
        cases hq : q.owesWrite with
        | false => rfl
        | true =>
          simp only [Pc.settle,hq,if_true] at hposition
          simp only [bufferSize] at hlen
          omega
      have hsame : (q.settle m).writePos = m.writePos :=
        Pc.settle_writePos (fun hq => by cases hwrite.symm.trans hq)
      cases hexec
      rw [if_pos hlen,hsame]
    · next hlen =>
      cases hexec
      rw [if_neg hlen]
  | recPublish e k head =>
    have hwrite : q.owesWrite = false := by simpa [Pc.allows] using hguard
    cases hexec
    simp [exec,Pc.settle,hwrite]
  | recCount e k =>
    have hcount : q.owesCount = false := by simpa [Pc.allows] using hguard
    cases hexec
    simp [exec,Pc.settle,hcount]
  | lock holder =>
    simp only [exec] at hexec ⊢
    split at hexec
    · cases hexec
    · next hfree =>
      cases hexec
      simp [Pc.settle,hfree]
  | flushHead | flushTail | flushField | flushStore =>
    rw [hwrites trivial,hwrites trivial]
    exact hexec
  | hookActive | recActive | recDrop | recSlot | flushFile | fclose | unlock | stopExchange
  | stopTest =>
    cases hexec
    rfl
  | _ => exact hrec.records.elim

section Recorder

theorem finish_notCloses (k : After) : ¬(Pc.finish cfg k : Pc L).Closes :=
  finish_of (P := fun p => ¬p.Closes) k id Bool.false_ne_true

theorem finish_notAccepts (k : After) : ¬(Pc.finish cfg k : Pc L).Accepts :=
  finish_of (P := fun p => ¬p.Accepts) k id id

theorem flushed_notAccepts (h : Holder) : ¬(Pc.flushed h : Pc L).Accepts :=
  flushed_of (P := fun p => ¬p.Accepts) h (fun _ => id) (fun _ => id)

theorem flushed_notCloses {h : Holder} (hc : ¬h.closes = true) :
    ¬(Pc.flushed h : Pc L).Closes :=
  flushed_of (P := fun p => ¬p.Closes) h (fun hcloses => absurd hcloses hc) (fun _ => id)

theorem flushNext_closes (h : Holder) (currentWrite currentRead : ℕ) :
    (Pc.flushNext h currentWrite currentRead : Pc L).Closes ↔ h.closes = true :=
  flushNext_of (P := fun p => p.Closes ↔ h.closes = true) h (fun _ => Iff.rfl) (fun _ => Iff.rfl)

theorem flushNext_notAccepts (h : Holder) (currentWrite currentRead : ℕ) :
    ¬(Pc.flushNext h currentWrite currentRead : Pc L).Accepts :=
  flushNext_of (P := fun p => ¬p.Accepts) h (fun _ => id) (fun _ => id)

theorem flushNext_notFclose (h : Holder) (currentWrite currentRead : ℕ) (k : After) :
    (Pc.flushNext h currentWrite currentRead : Pc L) ≠ .fclose k :=
  flushNext_of (P := fun p => p ≠ .fclose k) h (fun _ => by simp) (fun _ => by simp)

/-- In an open session the recording thread begins to close it by `stop()` only. -/
theorem exec_notCloses (hrecords : p.Records) (hp : ¬p.Closes) (hstop : ∀ k, p ≠ .stopExchange k)
    (hexec : exec text cfg p m = some (m',p',os)) : ¬p'.Closes := by
  cases exec_next hrecords hexec with
  | hookOff | hookOn | active | atLimit | belowLimit | loadHead | full | room | fill | publish =>
    exact id
  | inactive | drop | count | unlock => exact finish_notCloses _
  | countFlush => exact Bool.false_ne_true
  | locked | file | flushHead | field => exact hp
  | noFile | flushStore => exact flushed_notCloses hp
  | flushTail | record => exact fun hc => hp ((flushNext_closes _ _ _).mp hc)
  | fclose | closes | nothingOpen => exact (hp trivial).elim
  | stops | stopped => exact absurd rfl (hstop _)

/-- In an open session the recording thread keeps it open, or begins to close it. -/
theorem exec_opened (hrecords : p.Records) (hactive : m.active = true) (hp : ¬p.Closes)
    (hexec : exec text cfg p m = some (m',p',os)) : m'.outputFile = m.outputFile ∧
      ((m'.active = true ∧ ¬p'.Closes) ∨ ∃ k, m'.active = false ∧ p' = .stopTest k) := by
  have hframe := exec_frame hrecords hexec
  constructor
  · rcases hframe.outputFile with hsame | ⟨k,rfl⟩
    · exact hsame
    · exact (hp trivial).elim
  · by_cases hstop : ∃ k, p = .stopExchange k
    · obtain ⟨k,rfl⟩ := hstop
      cases hexec
      exact Or.inr ⟨k,rfl,if_pos hactive⟩
    · rcases hframe.active with hsame | hexchange
      · have hnot := exec_notCloses hrecords hp (fun k hk => hstop ⟨k,hk⟩) hexec
        exact Or.inl ⟨hsame.trans hactive,hnot⟩
      · exact absurd hexchange hstop

/-- While the file is being closed nothing is accepted; the flush comes before the
`fclose`. -/
theorem exec_closing (hrecords : p.Records) (hopen : m.outputFile.isSome = true) (hp : p.Closes)
    (hnot : ∀ k, p ≠ .fclose k) (hexec : exec text cfg p m = some (m',p',os)) :
    m'.outputFile = m.outputFile ∧ m'.active = m.active ∧
      ((p'.Closes ∧ ∀ k, p' ≠ .fclose k) ∨
        ∃ holder currentRead, p = .flushStore holder currentRead ∧ ¬p'.Accepts) := by
  have hframe := exec_frame hrecords hexec
  have hout : m'.outputFile = m.outputFile := by
    rcases hframe.outputFile with hsame | ⟨k,rfl⟩
    · exact hsame
    · exact absurd rfl (hnot k)
  have hactive : m'.active = m.active := by
    rcases hframe.active with hsame | ⟨k,rfl⟩
    · exact hsame
    · exact hp.elim
  refine ⟨hout,hactive,?_⟩
  cases exec_next hrecords hexec with
  | locked | file | flushHead | field => exact Or.inl ⟨hp,by simp⟩
  | noFile hnone =>
    rw [Option.isNone_iff_eq_none] at hnone
    rw [hnone] at hopen
    cases hopen
  | flushTail | record =>
    exact Or.inl ⟨(flushNext_closes _ _ _).mpr hp,flushNext_notFclose _ _ _⟩
  | flushStore => exact Or.inr ⟨_,_,rfl,flushed_notAccepts _⟩
  | fclose => exact absurd rfl (hnot _)
  | closes => exact Or.inl ⟨rfl,by simp⟩
  | nothingOpen hclosed => exact absurd hopen hclosed
  | _ => exact hp.elim

/-- An inactive hook takes no event past the test of `active_`. -/
theorem exec_notAccepts (hrecords : p.Records) (hactive : m.active = false) (hp : ¬p.Accepts)
    (hexec : exec text cfg p m = some (m',p',os)) : ¬p'.Accepts := by
  have hinactive : ¬m.active = true := by simp [hactive]
  cases exec_next hrecords hexec with
  | hookOn h | active h | stops h => exact absurd h hinactive
  | inactive | drop | count | unlock | stopped | nothingOpen => exact finish_notAccepts _
  | atLimit | belowLimit | loadHead | full | room | fill | publish => exact (hp trivial).elim
  | noFile | flushStore => exact flushed_notAccepts _
  | flushTail | record => exact flushNext_notAccepts _ _ _
  | hookOff | countFlush | locked | file | flushHead | field | fclose | closes => exact id

theorem exec_ended (hrecords : p.Records) (hactive : m.active = false) (hp : ¬p.Accepts)
    (hexec : exec text cfg p m = some (m',p',os)) :
    m'.active = false ∧ ¬p'.Accepts ∧ acceptedIn os = [] := by
  have hframe := exec_frame hrecords hexec
  refine ⟨?_,exec_notAccepts hrecords hactive hp hexec,?_⟩
  · rcases hframe.active with hsame | ⟨k,rfl⟩
    · exact hsame.trans hactive
    · cases hexec
      rfl
  · rcases hframe.writePos with ⟨-,hnone⟩ | ⟨e,k,head,rfl⟩
    · exact hnone
    · exact (hp trivial).elim

theorem exec_noField (hrecords : p.Records)
    (hfield : ∀ holder currentWrite currentRead f, p ≠ .flushField holder currentWrite currentRead f)
    (hclose : ∀ k, p ≠ .fclose k) (hexec : exec text cfg p m = some (m',p',os)) :
    m'.outputFile = m.outputFile ∧ wroteIn os = [] ∧
      p'.partialRecord text m'.eventBuffer = [] := by
  have hframe := exec_frame hrecords hexec
  refine ⟨?_,?_,?_⟩
  · rcases hframe.outputFile with hsame | ⟨k,rfl⟩
    · exact hsame
    · exact absurd rfl (hclose k)
  · rcases hframe.files with ⟨-,hnone⟩ | ⟨holder,currentWrite,currentRead,f,rfl⟩
    · exact hnone
    · exact absurd rfl (hfield _ _ _ _)
  · cases exec_next hrecords hexec with
    | noFile | flushStore => exact partialRecord_of_notWrites (flushed_notWrites _)
    | file | flushHead => rfl
    | flushTail => exact partialRecord_flushNext _ _ _
    | field | record => exact absurd rfl (hfield _ _ _ _)
    | _ => exact partialRecord_of_notWrites (exec_notWrites hrecords id (by simp) hexec)

end Recorder

/-- The recording thread takes the session from one stage to the next. -/
theorem Stage.step (h : Stage cfg q m p acc) (hrec : RecordingInv text cfg (q.settle m) p acc)
    (hnext : RecordingInv text cfg (q.settle m') p' (acc ++ acceptedIn os))
    (hsettle : exec text cfg p (q.settle m) = some (q.settle m',p',os))
    (hguard : q.allows cfg m p = true) (hexec : exec text cfg p m = some (m',p',os)) :
    Stage cfg q m' p' (acc ++ acceptedIn os) := by
  cases h with
  | opened begun active notCloses output =>
    obtain ⟨hout,hnow⟩ := exec_opened hrec.records active notCloses hexec
    rw [← hout] at output
    rcases hnow with ⟨hactive,hcloses⟩ | ⟨k,hactive,rfl⟩
    · exact .opened begun hactive hcloses output
    · exact .closing begun hactive trivial (by simp) (fun _ => ⟨k,rfl⟩) output
  | closing begun inactive closes notClosed waits output =>
    cases hq : q.owesFile with
    | true =>
      obtain ⟨k,rfl⟩ := waits hq
      simp [Pc.allows,hq] at hguard
    | false =>
      have hopen : m.outputFile.isSome = true := by simp [output hq]
      obtain ⟨hout,hactive,hnow⟩ := exec_closing hrec.records hopen closes notClosed hexec
      rw [← hout] at output
      rw [← hactive] at inactive
      rcases hnow with ⟨hcloses,hnot⟩ | ⟨holder,currentRead,rfl,hnot⟩
      · exact .closing begun inactive hcloses hnot (by simp [hq]) output
      · have hr : currentRead = acc.length := hrec.locals
        cases hexec
        exact .ended hq inactive hnot (by simp [acceptedIn,hr])
  | ended begun inactive notAccepts flushed =>
    obtain ⟨hactive,hnot,hnone⟩ := exec_ended hrec.records inactive notAccepts hexec
    -- the read position was at the end and does not move back
    have hle := hrec.readPos_le hsettle
    have hlo := hnext.window.lo_le
    rw [Pc.settle_of_open begun,Pc.settle_of_open begun] at hle
    rw [Pc.settle_of_open begun] at hlo
    rw [hnone,List.append_nil] at hlo ⊢
    exact .ended begun hactive hnot (by omega)
  | notBegun place inactive outside =>
    rcases outside with rfl | ⟨e,k,rfl⟩
    · cases hexec
    · cases hexec
      exact .notBegun place inactive (by simp [inactive])

namespace StartInv

theorem step (h : StartInv text cfg q m p acc wrote) (hguard : q.allows cfg m p = true)
    (hexec : exec text cfg p m = some (m',p',os)) :
    StartInv text cfg q m' p' (acc ++ acceptedIn os) (wrote ++ wroteIn os) := by
  have hsettle := exec_settle h.recording (fun hq => (h.unopened hq).2.1) hguard hexec
  have hnext := h.recording.step hsettle
  have hclose (hq : q.owesHeader = true) : ∀ k, p ≠ .fclose k := by
    rintro k rfl
    simp [Pc.allows,hq] at hguard
  have hfield (hq : q.owesHeader = true) :
      ∀ holder currentWrite currentRead f, p ≠ .flushField holder currentWrite currentRead f := by
    rintro holder currentWrite currentRead f rfl
    simp [Pc.allows,hq] at hguard
  exact
    { recording := hnext
      delivered := by
        have hdelivered := h.delivered
        rw [← List.append_nil wrote] at hdelivered
        simpa using delivered_step h.recording hdelivered hsettle
      unopened := by
        intro hq
        obtain ⟨hnone,hnot,hwrote⟩ := h.unopened hq
        by_cases hp : ∃ holder, p = .flushFile holder
        · obtain ⟨holder,rfl⟩ := hp
          cases hexec
          refine ⟨hnone,?_,by simp [hwrote,wroteIn]⟩
          simpa [hnone] using flushed_notWrites holder
        · obtain ⟨-,hout,-,hwrote',hnot'⟩ := exec_outside h.recording.records hnot
            (fun holder heq => hp ⟨holder,heq⟩) (hclose (Pc.owesHeader_of_owesFile hq)) hexec
          exact ⟨hout.trans hnone,hnot',by rw [hwrote,hwrote']; rfl⟩
      file := by
        intro hq
        have hrec := h.recording
        rw [Pc.settle_of_open hq] at hrec
        exact (h.file hq).step hrec hexec
      heading := by
        intro hq howes
        obtain ⟨hout,hwrote,-⟩ := h.heading hq howes
        obtain ⟨hout',hwrote',hbegun⟩ :=
          exec_noField h.recording.records (hfield howes) (hclose howes) hexec
        exact ⟨hout'.trans hout,by rw [hwrote,hwrote']; rfl,hbegun⟩
      stage := h.stage.step h.recording hnext hsettle hguard hexec }

/-- A hook call of thread 1, or `stop()` of thread 0 once it has started. -/
theorem call (h : StartInv text cfg q m .idle acc wrote) {c : Call L} (hc : c.Records)
    (hhook : (∃ e k, c = .hook e k) ∨ (c = .stop ∧ q = .idle)) :
    StartInv text cfg q m (c.entry cfg) acc wrote := by
  have hentry : ¬(c.entry cfg).Writes ∧ ¬(c.entry cfg).Closes ∧ ¬(c.entry cfg).Accepts := by
    rcases hhook with ⟨e,k,rfl⟩ | ⟨rfl,-⟩ <;> exact ⟨id,id,id⟩
  obtain ⟨hwrites,hcloses,haccepts⟩ := hentry
  exact
    { recording := h.recording.call hc
      delivered := by
        rw [frontier_of_notWrites hwrites]
        exact h.delivered
      unopened := by
        intro hq
        obtain ⟨hnone,-,hwrote⟩ := h.unopened hq
        exact ⟨hnone,hwrites,hwrote⟩
      file := by
        intro hq
        obtain ⟨hcontent,hout⟩ := h.file hq
        refine ⟨?_,?_⟩
        · rw [partialRecord_of_notWrites hwrites]
          exact hcontent
        · rcases hout with hsome | ⟨hnone,-⟩
          · exact Or.inl hsome
          · exact Or.inr ⟨hnone,hwrites⟩
      heading := by
        intro hq howes
        obtain ⟨hout,hwrote,-⟩ := h.heading hq howes
        exact ⟨hout,hwrote,partialRecord_of_notWrites hwrites⟩
      stage := by
        cases h.stage with
        | opened begun active _ output => exact .opened begun active hcloses output
        | closing _ _ closes => exact closes.elim
        | ended begun inactive _ flushed => exact .ended begun inactive haccepts flushed
        | notBegun place inactive _ =>
          rcases hhook with ⟨e,k,rfl⟩ | ⟨-,rfl⟩
          · exact .notBegun place inactive (Or.inr ⟨e,k,rfl⟩)
          · cases place }

/-- A reset by `start()` changes nothing for the hook thread. -/
theorem reset (h : StartInv text cfg q m p acc wrote) (hq : q.owesFile = true)
    (hq' : q'.owesFile = true) (hbegun : q ≠ .startExchange) (hbegun' : q' ≠ .startExchange)
    (hw : (q'.settle m').writePos = (q.settle m).writePos)
    (hc : (q'.settle m').eventCount = (q.settle m).eventCount)
    (hr : (q'.settle m').readPos = (q.settle m).readPos)
    (hb : m'.eventBuffer = m.eventBuffer) (hactive : m'.active = m.active)
    (hout : m'.outputFile = m.outputFile) : StartInv text cfg q' m' p acc wrote where
  recording := h.recording.congr hw hc hb hr
  delivered := by
    rw [hr]
    exact h.delivered
  unopened := by
    intro _
    rw [hout]
    exact h.unopened hq
  file := by simp [hq']
  heading := by simp [hq']
  stage := by
    cases h.stage with
    | opened _ active notCloses => exact .opened hbegun' (hactive.trans active) notCloses (by simp [hq'])
    | closing _ inactive closes notClosed waits =>
      exact .closing hbegun' (hactive.trans inactive) closes notClosed (fun _ => waits hq) (by simp [hq'])
    | ended begun => exact absurd hq (by simp [begun])
    | notBegun place => exact absurd place hbegun

/-- A part of the header is written: no record was begun before. -/
theorem fwrite_header (h : StartInv text cfg q m p acc wrote) (hopen : q.owesFile = false)
    (howes : q.owesHeader = true) (hopen' : q'.owesFile = false) {bs : Bytes}
    (hheader : q'.header = q.header ++ bs) :
    StartInv text cfg q' { m with toHookState := m.toHookState.fwrite bs } p acc wrote := by
  obtain ⟨hout,hwrote,hbegun⟩ := h.heading hopen howes
  have hcontent := (h.file hopen).content
  have hrec := h.recording
  have hdelivered := h.delivered
  rw [Pc.settle_of_open hopen] at hrec hdelivered
  exact
    { recording := by
        rw [Pc.settle_of_open hopen']
        exact hrec.congr (by simp) (by simp) (by simp) (by simp)
      delivered := by
        rw [Pc.settle_of_open hopen']
        simpa using hdelivered
      unopened := by simp [hopen']
      file := by
        intro _
        refine ⟨?_,Or.inl (by simpa using hout)⟩
        dsimp only
        rw [HookState.fwrite_files _ _ _ hout,hcontent,HookState.fwrite_eventBuffer,hbegun,hwrote,
          hheader]
        simp
      heading := by
        intro _ _
        exact ⟨by simpa using hout,hwrote,by simpa using hbegun⟩
      stage := by
        cases h.stage with
        | opened begun active notCloses output =>
          refine .opened ?_ (by simpa using active) notCloses (fun _ => by simpa using hout)
          rintro rfl
          cases hopen'
        | closing begun inactive closes notClosed waits output =>
          refine .closing ?_ (by simpa using inactive) closes notClosed (by simp [hopen'])
            (fun _ => by simpa using hout)
          rintro rfl
          cases hopen'
        | ended begun inactive notAccepts flushed =>
          exact .ended hopen' (by simpa using inactive) notAccepts (by simpa using flushed)
        | notBegun place =>
          subst place
          cases hopen }

theorem start_step (hwrites : cfg.output.writeToFile = true)
    (h : StartInv text cfg q m p acc wrote) (hq : q.owesHeader = true)
    (hexec : exec text cfg q m = some (m',q',os)) : StartInv text cfg q' m' p acc wrote ∧ os = [] ∧
      (q'.owesHeader = true ∨ q' = .idle) := by
  cases q with
  | startExchange =>
    cases hexec
    have hstage := h.stage
    cases hstage with
    | opened begun => exact absurd rfl begun
    | closing begun => exact absurd rfl begun
    | ended begun => cases begun
    | notBegun _ inactive outside =>
      rw [if_neg (by simp [inactive])]
      refine ⟨?_,rfl,Or.inl rfl⟩
      exact
        { recording := h.recording.congr rfl rfl rfl rfl
          delivered := h.delivered
          unopened := fun _ => h.unopened rfl
          file := by simp [Pc.owesFile]
          heading := by simp [Pc.owesFile]
          stage := by
            refine .opened (by simp) rfl ?_ (by simp [Pc.owesFile])
            rcases outside with rfl | ⟨e,k,rfl⟩ <;> exact id }
  | startCount =>
    cases hexec
    exact ⟨h.reset rfl rfl (by simp) (by simp) rfl rfl rfl rfl rfl rfl,rfl,Or.inl rfl⟩
  | startWrite =>
    cases hexec
    exact ⟨h.reset rfl rfl (by simp) (by simp) rfl rfl rfl rfl rfl rfl,rfl,Or.inl rfl⟩
  | startRead =>
    cases hexec
    exact ⟨h.reset rfl rfl (by simp) (by simp) rfl rfl rfl rfl rfl rfl,rfl,Or.inl rfl⟩
  | startDropped =>
    cases hexec
    rw [if_pos hwrites]
    exact ⟨h.reset rfl rfl (by simp) (by simp) rfl rfl rfl rfl rfl rfl,rfl,Or.inl rfl⟩
  | startOpen =>
    cases hexec
    obtain ⟨-,hnot,hwrote⟩ := h.unopened rfl
    refine ⟨?_,rfl,Or.inl rfl⟩
    exact
      { recording := h.recording.congr rfl rfl rfl rfl
        delivered := h.delivered
        unopened := by simp [Pc.owesFile]
        file := by
          intro _
          refine ⟨?_,Or.inl rfl⟩
          rw [hwrote,partialRecord_of_notWrites hnot]
          exact Function.update_self ..
        heading := fun _ _ => ⟨rfl,hwrote,partialRecord_of_notWrites hnot⟩
        stage := by
          cases h.stage with
          | opened _ active notCloses => exact .opened (by simp) active notCloses (fun _ => rfl)
          | closing _ inactive closes notClosed =>
            exact .closing (by simp) inactive closes notClosed (by simp [Pc.owesFile]) (fun _ => rfl)
          | ended begun => cases begun
          | notBegun place => cases place }
  | startMagic =>
    cases hexec
    exact ⟨h.fwrite_header rfl rfl rfl rfl,rfl,Or.inl rfl⟩
  | startVersion =>
    cases hexec
    exact ⟨h.fwrite_header rfl rfl rfl rfl,rfl,Or.inr rfl⟩
  | _ => cases hq

end StartInv

/-- Who records: thread 1, or thread 0 while it stops. -/
inductive RaceInv (text : L → Bytes) (cfg : Config) (w : World L) : Prop
  | hooking (others : ∀ t, t ≠ 0 → t ≠ 1 → w.pc t = .idle)
      (starts : (w.pc 0).owesHeader = true ∨ w.pc 0 = .idle)
      (inv : StartInv text cfg (w.pc 0) w.mem (w.pc 1) w.accepted w.wrote)
  | stopping (others : ∀ t, t ≠ 0 → t ≠ 1 → w.pc t = .idle) (quiet : w.pc 1 = .idle)
      (inv : StartInv text cfg .idle w.mem (w.pc 0) w.accepted w.wrote)

namespace RaceInv
variable {w w' : World L}

theorem start (cfg : TracingConfig) (h : World.Starting cfg.toConfig w) :
    RaceInv text cfg.toConfig w := by
  obtain ⟨s,hs,hclosed,rfl⟩ := h
  have hentry : (Call.start.entry cfg.toConfig : Pc L) = .startExchange := if_pos cfg.enabled
  rw [World.starting,hentry]
  have hothers (t : ℕ) (h0 : t ≠ 0) :
      Function.update (fun _ => (.idle : Pc L)) 0 .startExchange t = .idle :=
    Function.update_of_ne h0 ..
  refine .hooking (fun t h0 _ => hothers t h0) (Or.inl rfl) ?_
  exact
    { recording := .begin rfl rfl rfl
      delivered := List.Perm.refl _
      unopened := fun _ => ⟨hclosed,id,rfl⟩
      file := by simp [Pc.owesFile]
      heading := by simp [Pc.owesFile]
      stage := .notBegun rfl hs (Or.inl rfl) }

theorem mayCall {t : ℕ} {c : Call L} (hmay : raceMay w (.call t c) = true) :
    (t = 0 ∧ c = .stop ∧ (w.pc 1).isIdle = true) ∨
      (t = 1 ∧ (∃ e k, c = .hook e k) ∧ ((w.pc 0).isIdle = true ∨ (w.pc 0).owesHeader = true)) := by
  unfold raceMay at hmay
  split at hmay
  · next heq => cases heq; exact Or.inl ⟨rfl,rfl,hmay⟩
  · next heq => cases heq; exact Or.inr ⟨rfl,⟨_,_,rfl⟩,(Bool.or_eq_true _ _).mp hmay⟩
  · cases hmay
  · next heq => cases heq

theorem isIdle_iff : p.isIdle = true ↔ p = .idle := by
  cases p <;> simp [Pc.isIdle]

theorem not_records_of_owesHeader (h : q.owesHeader = true) : ¬q.Records := by
  cases q with
  | startExchange | startCount | startWrite | startRead | startDropped | startOpen | startMagic
  | startVersion => exact id
  | _ => cases h

theorem call (h : RaceInv text cfg w) {t : ℕ} {c : Call L} (hmay : raceMay w (.call t c) = true)
    (hact : World.act text cfg (.call t c) w = some w') : RaceInv text cfg w' := by
  obtain ⟨hidle,rfl⟩ := World.act_call hact
  rcases mayCall hmay with ⟨rfl,rfl,hquiet⟩ | ⟨rfl,⟨e,k,rfl⟩,hplace⟩
  · -- either way nobody records when thread 0 begins to stop
    rw [isIdle_iff] at hquiet
    have hinv : StartInv text cfg .idle w.mem .idle w.accepted w.wrote := by
      cases h with
      | hooking _ _ inv => rwa [hidle,hquiet] at inv
      | stopping _ _ inv => rwa [hidle] at inv
    have hothers : ∀ u, u ≠ 0 → u ≠ 1 → w.pc u = .idle := by
      cases h with
      | hooking others => exact others
      | stopping others => exact others
    refine .stopping (fun u h0 h1 => by simpa [h0] using hothers u h0 h1) (by simpa using hquiet) ?_
    simpa using hinv.call (c := .stop) trivial (Or.inr ⟨rfl,rfl⟩)
  · cases h with
    | hooking others starts inv =>
      rw [hidle] at inv
      refine .hooking (fun u h0 h1 => by simpa [h1] using others u h0 h1) (by simpa using starts) ?_
      simpa using inv.call (c := .hook e k) trivial (Or.inl ⟨e,k,rfl⟩)
    | stopping others quiet inv =>
      have hplace0 : w.pc 0 = .idle := by
        rcases hplace with h0 | h0
        · exact isIdle_iff.mp h0
        · exact (not_records_of_owesHeader h0 inv.recording.records).elim
      rw [hplace0] at inv
      refine .hooking (fun u h0 h1 => by simpa [h1] using others u h0 h1)
        (Or.inr (by simpa using hplace0)) ?_
      simpa [hplace0] using inv.call (c := .hook e k) trivial (Or.inl ⟨e,k,rfl⟩)

theorem tick (hwrites : cfg.output.writeToFile = true) (h : RaceInv text cfg w) {t : ℕ}
    (hreset : resetFirst cfg w (.tick t) = true)
    (hact : World.act text cfg (.tick t) w = some w') : RaceInv text cfg w' := by
  have hnot (hp : w.pc t = .idle) : False := by simp [World.act,hp,exec] at hact
  obtain ⟨m,p,os,hexec,rfl⟩ := World.act_tick hact
  cases h with
  | hooking others starts inv =>
    by_cases h0 : t = 0
    · subst h0
      rcases starts with hstarts | hidle
      · obtain ⟨hinv,rfl,hnow⟩ := inv.start_step hwrites hstarts hexec
        refine .hooking (fun u h0 h1 => by simpa [h0] using others u h0 h1) (by simpa using hnow) ?_
        simpa [acceptedIn,wroteIn] using hinv
      · exact (hnot hidle).elim
    · by_cases h1 : t = 1
      · subst h1
        refine .hooking (fun u h0 h1 => by simpa [h1] using others u h0 h1) (by simpa using starts) ?_
        simpa using inv.step hreset hexec
      · exact (hnot (others t h0 h1)).elim
  | stopping others quiet inv =>
    by_cases h0 : t = 0
    · subst h0
      refine .stopping (fun u h0 h1 => by simpa [h0] using others u h0 h1) (by simpa using quiet) ?_
      have hguard : Pc.allows cfg .idle w.mem (w.pc 0) = true := by
        cases w.pc 0 <;> rfl
      simpa using inv.step hguard hexec
    · by_cases h1 : t = 1
      · subst h1
        exact (hnot quiet).elim
      · exact (hnot (others t h0 h1)).elim

theorem step (hwrites : cfg.output.writeToFile = true) (h : RaceInv text cfg w) {a : Action L}
    (hmay : raceMay w a = true) (hreset : resetFirst cfg w a = true)
    (hact : World.act text cfg a w = some w') : RaceInv text cfg w' := by
  cases a with
  | call t c => exact h.call hmay hact
  | tick t => exact h.tick hwrites hreset hact

theorem sessionWhole (h : RaceInv text cfg w) : SessionWhole text cfg w := by
  have hrecords (hp : (w.pc 0).Records) :
      (w.pc 0).owesFile = false ∧ (w.pc 0).owesHeader = false ∧ (w.pc 0).header = traceHeader := by
    cases hpc : w.pc 0 with
    | startExchange | startCount | startWrite | startRead | startDropped | startOpen | startMagic
    | startVersion =>
      rw [hpc] at hp
      exact hp.elim
    | _ => exact ⟨rfl,rfl,rfl⟩
  -- when all is over the read position is at the end
  have hdone {q : Pc L} (hq : q = .idle) (inv : StartInv text cfg q w.mem .idle w.accepted w.wrote)
      (hactive : w.mem.active = false) :
      w.wrote.Perm w.accepted ∧ w.mem.eventCount = w.accepted.length := by
    subst hq
    have hdelivered := inv.delivered
    have hcount := inv.recording.count
    cases inv.stage with
    | opened _ active =>
      rw [active] at hactive
      cases hactive
    | closing _ _ closes => exact closes.elim
    | ended _ _ _ flushed =>
      have hall : w.accepted.take (Pc.frontier (Pc.settle .idle w.mem).readPos (.idle : Pc L)) =
          w.accepted := List.take_of_length_le (Nat.le_of_eq flushed.symm)
      rw [hall] at hdelivered
      exact ⟨hdelivered,hcount⟩
    | notBegun place => cases place
  cases h with
  | hooking others starts inv =>
    have hnone : (w.pc 0).partialRecord text w.mem.eventBuffer = [] := by
      rcases starts with h0 | h0
      · exact partialRecord_of_notWrites (fun hwrites => by
          cases hpc : w.pc 0 <;> rw [hpc] at h0 hwrites <;> first | exact hwrites | cases h0)
      · rw [h0]
        rfl
    exact
      { file := by
          intro hq
          rw [World.partialRecord,hnone,List.nil_append]
          exact (inv.file hq).content
        headerFirst := by
          intro hq
          rw [World.partialRecord,hnone,List.nil_append]
          cases hopen : (w.pc 0).owesFile with
          | true =>
            obtain ⟨-,hnot,hwrote⟩ := inv.unopened hopen
            exact ⟨hwrote,partialRecord_of_notWrites hnot⟩
          | false => exact (inv.heading hopen hq).2
        complete := fun hactive h0 h1 => hdone h0 (h1 ▸ inv) hactive }
  | stopping others quiet inv =>
    obtain ⟨hfile,hheader,heq⟩ := hrecords inv.recording.records
    exact
      { file := by
          intro _
          rw [World.partialRecord,quiet,heq]
          simpa [Pc.partialRecord,Pc.header] using (inv.file rfl).content
        headerFirst := by simp [hheader]
        complete := fun hactive h0 _ => hdone rfl (h0 ▸ inv) hactive }

end RaceInv

theorem raceInv_reachable (cfg : TracingConfig) {w : World L}
    (h : (resetFirstSystem text cfg.toConfig).Reachable w) : RaceInv text cfg.toConfig w :=
  h.invariant (fun _ hw => .start cfg hw)
    (fun _ _ _ hinv hmay hact => hinv.step cfg.writes hmay.1 hmay.2 hact)

/-- In every run in which the hook thread keeps behind the resets and the header, the file
is the header and whole records, and after `stop()` every counted event is in it. -/
theorem startRace_sessionWhole (cfg : TracingConfig) {w : World L}
    (h : (resetFirstSystem text cfg.toConfig).Reachable w) :
    SessionWhole text cfg.toConfig w :=
  (raceInv_reachable cfg h).sessionWhole

/-- A hook call that passes the limit test before the file is open, and ends after. -/
def duringStart : List (Action Unit) :=
  List.flatten [[.tick 0],.call 1 (.hook HookState.zeroEvent .done) :: List.replicate 6 (.tick 1),
    List.replicate 7 (.tick 0),List.replicate 2 (.tick 1),
    .call 0 .stop :: List.replicate 14 (.tick 0)]

theorem startRace_sessionWhole_during :
    ∃ w : World Unit, (resetFirstSystem (fun _ => []) defaultTracing.toConfig).Reachable w ∧
      (w.wrote.length,w.mem.eventCount,w.mem.active) = (1,1,false) ∧
      SessionWhole (fun _ => []) defaultTracing.toConfig w := by
  have hinit : (resetFirstSystem (fun _ => []) defaultTracing.toConfig).init
      (World.starting defaultTracing.toConfig (HookState.initial (fun _ => none)) : World Unit) :=
    ⟨_,rfl,rfl,rfl⟩
  obtain ⟨w,hw,hview⟩ := Transition.System.Reachable.of_replay hinit duringStart
    (fun w => (w.wrote.length,w.mem.eventCount,w.mem.active))
    (v := (1,1,false)) (by decide +kernel)
  exact ⟨w,hw,hview,startRace_sessionWhole defaultTracing hw⟩

/-- Thread 1 records an event after `event_count_` was reset and before `write_pos` is. -/
def beforeReset : List (Action Unit) :=
  List.flatten [List.replicate 2 (.tick 0),
    .call 1 (.hook HookState.zeroEvent .done) :: List.replicate 8 (.tick 1),
    List.replicate 6 (.tick 0),.call 0 .stop :: List.replicate 9 (.tick 0)]

/-- The event is counted and not in the file. -/
theorem not_sessionWhole_beforeReset :
    ∃ w : World Unit, (raceSystem (fun _ => []) defaultTracing.toConfig).Reachable w ∧
      ¬SessionWhole (fun _ => []) defaultTracing.toConfig w := by
  have hinit : (raceSystem (fun _ => []) defaultTracing.toConfig).init
      (World.starting defaultTracing.toConfig (HookState.initial (fun _ => none)) : World Unit) :=
    ⟨_,rfl,rfl,rfl⟩
  obtain ⟨w,hw,hview⟩ := Transition.System.Reachable.of_replay hinit beforeReset
    (fun w => ((w.wrote.length,w.mem.eventCount,w.mem.active),(w.pc 0).isIdle,(w.pc 1).isIdle))
    (v := ((0,1,false),true,true)) (by decide +kernel)
  refine ⟨w,hw,?_⟩
  intro h
  simp only [Prod.mk.injEq] at hview
  obtain ⟨⟨hwrote,hcount,hactive⟩,h0,h1⟩ := hview
  obtain ⟨hperm,hall⟩ := h.complete hactive (RaceInv.isIdle_iff.mp h0) (RaceInv.isIdle_iff.mp h1)
  have hlen := hperm.length_eq
  omega

end GgmlViz
