import GgmlViz.Concurrent.SignalHandler
import GgmlViz.Concurrent.Solo
import GgmlViz.Concurrent.StartRace
import GgmlViz.Hook.AutoStart
import GgmlViz.Hook.Progress
import GgmlViz.Trace.PartialFiles

/-! # What an interrupted recording leaves behind

One thread records into a file, and between any two of its steps the process is killed or a
signal arrives. What is written waits in the buffer of the stream, and is lost with the
process: only `fflush` and `fclose` write out all of it. What is then in the file is whole
records of the first events accepted, and perhaps the beginning of the next one; the handler
adds the others where it gets that far.
-/
namespace GgmlViz
open LittleEndian RingWindow Relation
variable {L : Type} (text : L → Bytes) (cfg : Config)

/-- Hook calls and `stop()`, of the only thread. -/
def onlyHookCalls : Action L → Bool
  | .call 0 (.hook _ _) | .call 0 .stop => true
  | .tick 0 => true
  | _ => false

/-- A hook whose file has a buffer. -/
structure BufferedWorld (L : Type) where
  world : World L
  /-- What the stream has written out. -/
  disk : Option Bytes
  /-- The events that were written when `fflush` or `fclose` ended last. -/
  flushed : List (Event L)

inductive BufferedAction (L : Type)
  | thread (a : Action L)
  /-- The stream writes out a part of its buffer, as `fwrite` does when the buffer is full. -/
  | writeOut (bs : Bytes)

namespace Pc

/-- The next step comes after `fflush` at the end of a flush, or is `fclose`. -/
def synced : Pc L → Bool
  | fclose _ | unlock _ => true
  | _ => false

end Pc

namespace BufferedWorld

def written (b : BufferedWorld L) : Option Bytes := b.world.mem.files cfg.output.filename

def act : BufferedAction L → BufferedWorld L → Option (BufferedWorld L)
  | .thread a, b =>
    (World.act text cfg a b.world).map fun w =>
      -- a flush has called `fflush` before it gives back the lock
      if (b.world.pc 0).synced then
        { world := w, disk := w.mem.files cfg.output.filename, flushed := w.wrote }
      else { b with world := w }
  | .writeOut bs, b =>
    if b.disk.getD [] <+: bs ∧ bs <+: (b.written cfg).getD [] then some { b with disk := some bs }
    else none

end BufferedWorld

/-- The runs of one recording thread after the hook was started, which has written out the
header. -/
def recordingSystem : Transition.System (BufferedWorld L) (BufferedAction L) where
  init b := World.Started cfg b.world ∧ b.disk = b.written cfg ∧ b.flushed = []
  may _ a := match a with | .thread a => onlyHookCalls a = true | .writeOut _ => True
  act := BufferedWorld.act text cfg

namespace Pc

/-- In a flush, from the wait for the lock to the store of `read_pos`. -/
def inFlush : Pc L → Bool
  | lock _ | flushFile _ | flushHead _ | flushTail _ _ | flushField _ _ _ _ | flushStore _ _ => true
  | _ => false

end Pc

/-- The events since the last multiple of 4096 are all that a flush has not read, or is about
to read. -/
def FlushedSoon (m : Mem L) (p : Pc L) (acc : List (Event L)) : Prop :=
  (acc.length - if p.inFlush then 1 else p.uncounted) / 4096 * 4096 ≤ m.readPos

/-- What the recording thread keeps of its file. -/
structure FileKept (m : Mem L) (p : Pc L) (acc wrote : List (Event L)) : Prop where
  session : StartInv text cfg .idle m p acc wrote
  solo : SoloInv m p
  inOrder : wrote = acc.take (p.frontier m.readPos)
  flushed : FlushedSoon m p acc

/-- Such a file is read, and shows these events or more of those. -/
def ShowsBetween (wrote acc : List (Event L)) (file : Option Bytes) : Prop :=
  ∃ r, TraceReader.openFile file = some r ∧ r.valid = true ∧
    wrote.map (Event.resolve text) <+: r.events ∧ r.events <+: acc.map (Event.resolve text)

/-- What is left when the recording thread is interrupted here. -/
structure InterruptedTrace (b : BufferedWorld L) : Prop where
  /-- Killed now, the process leaves a file with all that the flushes that ended have written. -/
  killed : ShowsBetween text b.flushed b.world.accepted b.disk
  /-- These are all but the last 4096 events. -/
  recent : b.world.accepted.length ≤ b.flushed.length + 4096
  /-- Outside of `stop()` and of a locked flush, the handler saves everything in the file, and
  the file is closed. -/
  saved : (b.world.pc 0).closing = false →
    (b.world.mem.outputFile.isSome = true → (b.world.pc 0).flushing = false) →
    ∃ n m, handlerRun text cfg n b.world.mem = some (m,.idle) ∧ m.active = false ∧
      m.outputFile = none ∧
      ShowsBetween text b.world.accepted b.world.accepted (m.files cfg.output.filename)
  /-- During `stop()` it leaves the hook as it is. -/
  left : (b.world.pc 0).closing = true →
    ∀ n x, handlerRun text cfg n b.world.mem = some x → x = (b.world.mem,.idle)
  /-- In a locked flush it never ends, and writes nothing. -/
  hangs : b.world.mem.outputFile.isSome = true → (b.world.pc 0).flushing = true →
    ∀ n, handlerRun text cfg (n + 3) b.world.mem = none ∧
      ∀ x, handlerRun text cfg n b.world.mem = some x → x.1.files = b.world.mem.files

variable {text cfg} {m m' : Mem L} {p p' : Pc L} {acc wrote : List (Event L)} {os : List (Obs L)}

section Content

theorem Event.writtenBefore_prefix {e : Event L} {f : RecordField} (hf : e.FieldOf text f) :
    e.writtenBefore text f <+: e.encode text := by
  cases f with
  | type => exact List.nil_prefix
  | timestampNs | threadId | data | hasLabel => simp [writtenBefore,encode,fixedBytes]
  | labelLen =>
    have hl : e.label.isSome = true := hf
    simp [writtenBefore,encode,hl]
  | label n =>
    have hlast : e.writtenBefore text (.label n) ++ e.fieldBytes text (.label n) = e.encode text :=
      Event.writtenBefore_append text hf
    rw [← hlast]
    exact List.prefix_append _ _

theorem writeTrace_resolve (es : List (Event L)) :
    writeTrace id (es.map (Event.resolve text)) = writeTrace text es := by
  simp only [writeTrace,List.flatMap_map,encode_resolve]

theorem labelFits_map_resolve (es : List (Event L)) :
    ∀ e ∈ es.map (Event.resolve text), LabelFits e := by
  intro e he
  obtain ⟨x,-,rfl⟩ := List.mem_map.mp he
  exact labelFits_resolve text x

/-- What lies between two traces is read as something between them. -/
theorem ShowsBetween.of_between {content : Bytes} (hwrote : writeTrace text wrote <+: content)
    (hacc : content <+: writeTrace text acc) : ShowsBetween text wrote acc (some content) := by
  rw [← writeTrace_resolve] at hwrote hacc
  have hheader : HasHeader (writeTrace id (wrote.map (Event.resolve text))) :=
    hasHeader_traceHeader _
  obtain ⟨rw,r,hrw,hr,-,hvalid,hle⟩ := openFile_prefix hwrote hheader
  obtain ⟨r',ra,hr',hra,-,-,hge⟩ := openFile_prefix hacc (hheader.of_prefix hwrote)
  rw [openFile_writeTrace (labelFits_map_resolve _)] at hrw hra
  cases hrw
  cases hra
  cases hr.symm.trans hr'
  exact ⟨r,hr,hvalid,hle,hge⟩

theorem ShowsBetween.of_writeTrace (es : List (Event L)) :
    ShowsBetween text es es (some (writeTrace text es)) :=
  .of_between (List.prefix_refl _) (List.prefix_refl _)

end Content

section Order

/-- A step writes at most one event to its end. -/
theorem wroteIn_eq (hrecords : p.Records) (hexec : exec text cfg p m = some (m',p',os)) :
    wroteIn os = [] ∨ ∃ e, wroteIn os = [e] := by
  rcases (exec_frame hrecords hexec).files with ⟨-,hnone⟩ | ⟨holder,currentWrite,currentRead,f,rfl⟩
  · exact .inl hnone
  · simp only [exec] at hexec
    split at hexec
    · cases hexec
      exact .inl rfl
    · cases hexec
      exact .inr ⟨_,rfl⟩

/-- The events are written in the order in which they were accepted. -/
theorem inOrder_step (hrec : RecordingInv text cfg m p acc)
    (h : wrote = acc.take (p.frontier m.readPos)) (hexec : exec text cfg p m = some (m',p',os)) :
    wrote ++ wroteIn os = (acc ++ acceptedIn os).take (p'.frontier m'.readPos) := by
  have hperm :
      (wrote ++ wroteIn os).Perm ((acc ++ acceptedIn os).take (p'.frontier m'.readPos)) := by
    have hsame : (wrote ++ []).Perm (acc.take (p.frontier m.readPos)) := by
      rw [List.append_nil,h]
    simpa using delivered_step hrec hsame hexec
  have hlen := hperm.length_eq
  rw [List.length_append] at hlen
  -- both are beginnings of what is accepted, so the longer one adds what is written now
  have hbefore : wrote <+: acc ++ acceptedIn os := by
    rw [h]
    exact (List.take_prefix _ _).trans (List.prefix_append _ _)
  have hafter := List.take_prefix (p'.frontier m'.readPos) (acc ++ acceptedIn os)
  obtain ⟨more,hmore⟩ := List.prefix_of_prefix_length_le hbefore hafter (by omega)
  rw [← hmore] at hperm ⊢
  have hadded := (List.perm_append_left_iff wrote).mp hperm
  rcases wroteIn_eq hrec.records hexec with hnone | ⟨e,hone⟩
  · rw [hnone] at hadded ⊢
    rw [List.nil_perm.mp hadded]
  · rw [hone] at hadded ⊢
    rw [List.singleton_perm.mp hadded]

end Order

section Flushed

theorem FlushedSoon.of_flushed (h : acc.length / 4096 * 4096 ≤ m.readPos) :
    FlushedSoon m p acc := by
  refine Nat.le_trans (Nat.mul_le_mul_right _ (Nat.div_le_div_right ?_)) h
  exact Nat.sub_le ..

theorem not_multiple_div {n : ℕ} (h : ¬n % 4096 = 0) : n / 4096 = (n - 1) / 4096 := by omega

/-- Outside of a flush, with every event counted, all but the last events are flushed. -/
theorem FlushedSoon.flushed (h : FlushedSoon m p acc) (hp : p.inFlush = false)
    (hu : p.uncounted = 0) : acc.length / 4096 * 4096 ≤ m.readPos := by
  simpa [FlushedSoon,hp,hu] using h

theorem FlushedSoon.length_le (h : FlushedSoon m p acc) : acc.length ≤ m.readPos + 4096 := by
  have hone : (if p.inFlush then 1 else p.uncounted) ≤ 1 := by
    split
    · exact Nat.le_refl _
    · cases p <;> simp [Pc.uncounted]
  have hlast := Nat.lt_div_mul_add (a := acc.length - if p.inFlush then 1 else p.uncounted)
    (b := 4096) (by decide)
  have hle : (acc.length - if p.inFlush then 1 else p.uncounted) < m.readPos + 4096 :=
    Nat.lt_of_lt_of_le hlast (Nat.add_le_add_right h _)
  omega

theorem inFlush_flushNext (h : Holder) (currentWrite currentRead : ℕ) :
    (Pc.flushNext h currentWrite currentRead : Pc L).inFlush = true :=
  flushNext_of (P := fun p => p.inFlush = true) h (fun _ => rfl) (fun _ => rfl)

/-- From place to place within a flush. -/
theorem FlushedSoon.stay (h : FlushedSoon m p acc) (hp : p.inFlush = true)
    (hp' : p'.inFlush = true) (hr : m'.readPos = m.readPos) : FlushedSoon m' p' acc := by
  simpa [FlushedSoon,hp,hp',hr] using h

/-- Most places are outside of a flush and accept nothing. -/
theorem FlushedSoon.outside (h : FlushedSoon m p acc) (hrec : RecordingInv text cfg m p acc)
    (hp : p.inFlush = false) (hu : p.uncounted = 0) (haccept : ∀ e k head, p ≠ .recPublish e k head)
    (hexec : exec text cfg p m = some (m',p',os)) : FlushedSoon m' p' (acc ++ acceptedIn os) := by
  have hframe := exec_frame hrec.records hexec
  have hnone : acceptedIn os = [] := by
    rcases hframe.writePos with ⟨-,hnone⟩ | ⟨e,k,head,rfl⟩
    · exact hnone
    · exact absurd rfl (haccept e k head)
  have hread : m'.readPos = m.readPos := by
    rcases hframe.readPos with hsame | ⟨holder,currentRead,rfl⟩
    · exact hsame
    · cases hp
  rw [hnone,List.append_nil]
  apply FlushedSoon.of_flushed
  rw [hread]
  exact h.flushed hp hu

/-- Counting an event begins a flush where the events fill the buffer. -/
theorem FlushedSoon.count {e : Event L} {k : After} (h : FlushedSoon m (.recCount e k) acc)
    (hrec : RecordingInv text cfg m (.recCount e k) acc) (hwrites : cfg.output.writeToFile = true)
    (hexec : exec text cfg (.recCount e k) m = some (m',p',os)) :
    FlushedSoon m' p' (acc ++ acceptedIn os) := by
  cases hexec
  have hc := hrec.count
  have hl := hrec.limit
  have hmax := cfg.instrumentation.maxEvents.toNat_lt
  simp only [Pc.uncounted,Pc.reserved] at hc hl
  have hnext : increment m.eventCount = acc.length := by
    rw [increment_of_lt (by omega)]
    exact hc
  have hmask : acc.length &&& 0xFFF = acc.length % 4096 := Nat.and_two_pow_sub_one_eq_mod _ 12
  simp only [acceptedIn,List.filterMap_cons,List.filterMap_nil,List.append_nil,hnext,hmask,
    hwrites,Bool.true_and,decide_eq_true_eq]
  split
  · simpa [FlushedSoon,Pc.inFlush,Pc.uncounted] using h
  · next hz =>
    apply FlushedSoon.of_flushed
    rw [not_multiple_div hz]
    simpa [FlushedSoon,Pc.inFlush,Pc.uncounted] using h

theorem FlushedSoon.step (h : FlushedSoon m p acc) (hrec : RecordingInv text cfg m p acc)
    (hstage : Stage cfg .idle m p acc) (hwrites : cfg.output.writeToFile = true)
    (hexec : exec text cfg p m = some (m',p',os)) : FlushedSoon m' p' (acc ++ acceptedIn os) := by
  have hnil : acc ++ acceptedIn ([] : List (Obs L)) = acc := List.append_nil acc
  cases p with
  | recPublish e k head =>
    cases hexec
    simpa [FlushedSoon,Pc.inFlush,Pc.uncounted,acceptedIn] using h
  | recCount e k => exact h.count hrec hwrites hexec
  | lock holder =>
    simp only [exec] at hexec
    split at hexec
    · cases hexec
    · cases hexec
      rw [hnil]
      exact h.stay rfl rfl rfl
  | flushFile holder =>
    cases hexec
    rw [hnil]
    cases hout : m.outputFile with
    | some name => exact h.stay rfl rfl rfl
    | none =>
      -- without a file the session is over, and its last flush has read all
      apply FlushedSoon.of_flushed
      cases hstage with
      | opened _ _ _ output => cases hout.symm.trans (output rfl)
      | closing _ _ _ _ _ output => cases hout.symm.trans (output rfl)
      | ended _ _ _ flushed => omega
      | notBegun place => cases place
  | flushHead holder =>
    cases hexec
    rw [hnil]
    exact h.stay rfl rfl rfl
  | flushTail holder currentWrite =>
    cases hexec
    rw [hnil]
    exact h.stay rfl (inFlush_flushNext holder _ _) rfl
  | flushField holder currentWrite currentRead f =>
    simp only [exec] at hexec
    split at hexec
    · cases hexec
      rw [hnil]
      exact h.stay rfl rfl (by simp)
    · cases hexec
      rw [show acc ++ acceptedIn [.wrote _] = acc from List.append_nil acc]
      exact h.stay rfl (inFlush_flushNext holder _ _) (by simp)
  | flushStore holder currentRead =>
    cases hexec
    have hr : currentRead = acc.length := hrec.locals
    rw [hnil]
    apply FlushedSoon.of_flushed
    rw [hr]
    exact Nat.div_mul_le_self _ _
  | _ => exact h.outside hrec rfl rfl (by simp) hexec

end Flushed

namespace FileKept

theorem recording (h : FileKept text cfg m p acc wrote) : RecordingInv text cfg m p acc := by
  have hrec := h.session.recording
  rwa [Pc.settle_of_open rfl] at hrec

theorem fileInv (h : FileKept text cfg m p acc wrote) :
    FileInv text cfg.output.filename traceHeader m p wrote := h.session.file rfl

/-- Right after `start()`. -/
theorem started (cfg : TracingConfig) {w : World L} (hw : World.Started cfg.toConfig w) :
    FileKept text cfg.toConfig w.mem (w.pc 0) w.accepted w.wrote := by
  have hsolo := SoloInv.started hw
  obtain ⟨s,hinactive,-,rfl⟩ := hw
  have hstart := start_writing cfg.enabled cfg.writes hinactive
  have hfile : FileInv text cfg.output.filename traceHeader
      (World.started cfg.toConfig s : World L).mem .idle [] :=
    ⟨by simp [World.started,hstart,Pc.partialRecord],.inl (by simp [World.started,hstart])⟩
  exact
    { session :=
        { recording := by
            rw [Pc.settle_of_open rfl]
            exact .begin (by simp [World.started,hstart]) (by simp [World.started,hstart])
              (by simp [World.started,hstart])
          delivered := by
            rw [show (World.started cfg.toConfig s : World L).accepted = [] from rfl,List.take_nil]
            exact List.Perm.refl _
          unopened := fun hq => by cases hq
          file := fun _ => hfile
          heading := fun _ hq => by cases hq
          stage := .opened (by simp) (by simp [World.started,hstart]) id
            (fun _ => by simp [World.started,hstart]) }
      solo := hsolo
      inOrder := List.take_nil.symm
      flushed := .of_flushed (by simp [World.accepted,World.obs,World.started,acceptedIn]) }

theorem call (h : FileKept text cfg m .idle acc wrote) {c : Call L}
    (hc : (∃ e k, c = .hook e k) ∨ c = .stop) : FileKept text cfg m (c.entry cfg) acc wrote := by
  have hflushed : acc.length / 4096 * 4096 ≤ m.readPos := h.flushed.flushed rfl rfl
  rcases hc with ⟨e,k,rfl⟩ | rfl
  · exact
      { session := h.session.call trivial (.inl ⟨e,k,rfl⟩)
        solo := h.solo.keep_plain ⟨rfl,rfl,rfl⟩ ⟨rfl,rfl⟩ ⟨rfl,rfl,rfl⟩
        inOrder := h.inOrder
        flushed := .of_flushed hflushed }
  · exact
      { session := h.session.call trivial (.inr ⟨rfl,rfl⟩)
        solo := h.solo.keep_plain ⟨rfl,rfl,rfl⟩ ⟨rfl,rfl⟩ ⟨rfl,rfl,rfl⟩
        inOrder := h.inOrder
        flushed := .of_flushed hflushed }

theorem step (h : FileKept text cfg m p acc wrote) (hwrites : cfg.output.writeToFile = true)
    (hexec : exec text cfg p m = some (m',p',os)) :
    FileKept text cfg m' p' (acc ++ acceptedIn os) (wrote ++ wroteIn os) where
  session := h.session.step (by cases p <;> rfl) hexec
  solo := h.solo.step hexec
  inOrder := inOrder_step h.recording h.inOrder hexec
  flushed := h.flushed.step h.recording h.session.stage hwrites hexec

/-- A flush is never behind what it has stored, nor ahead of what was accepted. -/
theorem frontier_bounds (h : FileKept text cfg m p acc wrote) :
    m.readPos ≤ p.frontier m.readPos ∧ p.frontier m.readPos ≤ acc.length := by
  have hrec := h.recording
  have hlo := hrec.window.lo_le
  cases p with
  | flushField holder currentWrite currentRead f =>
    obtain ⟨-,hread,hlt,-⟩ := hrec.locals
    exact ⟨hread,Nat.le_of_lt hlt⟩
  | flushStore holder currentRead =>
    have hr : currentRead = acc.length := hrec.locals
    exact ⟨by simpa [Pc.frontier,hr] using hlo,Nat.le_of_eq hr⟩
  | _ => exact ⟨Nat.le_refl _,hlo⟩

theorem length_wrote (h : FileKept text cfg m p acc wrote) :
    wrote.length = p.frontier m.readPos := by
  rw [h.inOrder,List.length_take,Nat.min_eq_left h.frontier_bounds.2]

/-- What is written of a record is the beginning of the next event's record. -/
theorem partialRecord_prefix (h : FileKept text cfg m p acc wrote) :
    wrote.flatMap (Event.encode text) ++ p.partialRecord text m.eventBuffer <+:
      acc.flatMap (Event.encode text) := by
  have hall : acc = wrote ++ acc.drop (p.frontier m.readPos) := by
    rw [h.inOrder,List.take_append_drop]
  conv_rhs => rw [hall,List.flatMap_append]
  apply List.prefix_append_right_inj _ |>.mpr
  have hrec := h.recording
  cases p with
  | flushField holder currentWrite currentRead f =>
    obtain ⟨-,hread,hlt,hfield⟩ := hrec.locals
    have hslot := hrec.window.holds currentRead hread hlt
    rw [← slot_eq_mod] at hslot
    obtain ⟨_,hget⟩ := List.getElem?_eq_some_iff.mp hslot
    simp only [Pc.frontier,Pc.partialRecord]
    rw [List.drop_eq_getElem_cons hlt,hget,List.flatMap_cons]
    exact (Event.writtenBefore_prefix hfield).trans (List.prefix_append _ _)
  | _ => exact List.nil_prefix

end FileKept

section Handler

/-- What a thread does alone the handler does. -/
theorem handlerRun_solo {ret : List (Event L)} {b : Pc L × Mem L × List (Event L)}
    (hactive : m.active = true) (h : Solo text cfg (.stopExchange .done,m,ret) b) :
    ∃ n, handlerRun text cfg n m = some (b.2.1,b.1) := by
  induction h with
  | refl => exact ⟨0,by rw [handlerRun,if_pos hactive]⟩
  | tail _ hstep ih =>
    obtain ⟨n,hn⟩ := ih
    obtain ⟨os,hexec,-⟩ := hstep
    exact ⟨n + 1,by rw [handlerRun,hn,Option.bind_some,hexec]; rfl⟩

/-- An inactive hook is left as it is. -/
theorem handlerRun_same (h : m.active = false) (n : ℕ) {x : Mem L × Pc L}
    (hx : handlerRun text cfg n m = some x) : x = (m,.idle) := by
  cases n with
  | zero =>
    rw [handlerRun,h] at hx
    cases hx
    rfl
  | succ n =>
    obtain ⟨y,os,hy,hexec⟩ := handlerRun_succ hx
    rw [handlerRun_inactive text cfg h n hy] at hexec
    cases hexec

/-- Where somebody holds the lock, the handler waits for it for ever. -/
theorem handlerRun_waits (hactive : m.active = true) (hlocked : m.fileMutex = true)
    (hopen : m.outputFile.isSome = true) (n : ℕ) : handlerRun text cfg (n + 3) m = none := by
  induction n with
  | zero =>
    have htwo := handlerRun_two text cfg hactive
    rw [if_pos hopen] at htwo
    rw [handlerRun,htwo,Option.bind_some]
    simp [exec,hlocked]
  | succ n ih => rw [handlerRun,ih,Option.bind_none]

/-- Before it asks for the lock it writes nothing. -/
theorem handlerRun_files (hactive : m.active = true) (n : ℕ) (hn : n ≤ 2) {x : Mem L × Pc L}
    (hx : handlerRun text cfg n m = some x) : x.1.files = m.files := by
  match n with
  | 0 =>
    rw [handlerRun] at hx
    cases hx
    rfl
  | 1 =>
    simp only [handlerRun,hactive,if_true,exec,Option.bind_some,Option.map_some] at hx
    cases hx
    rfl
  | 2 =>
    rw [handlerRun_two text cfg hactive] at hx
    cases hx
    rfl

end Handler

namespace FileKept
variable (h : FileKept text cfg m p acc wrote)
include h

theorem content : ∃ content, m.files cfg.output.filename = some content ∧
    writeTrace text wrote <+: content ∧ content <+: writeTrace text acc := by
  refine ⟨_,h.fileInv.content,?_,?_⟩
  · rw [← List.append_assoc]
    exact List.prefix_append _ _
  · exact (List.prefix_append_right_inj _).mpr h.partialRecord_prefix

/-- An active hook has its file open. -/
theorem isOpen (hactive : m.active = true) : m.outputFile = some cfg.output.filename := by
  cases h.session.stage with
  | opened _ _ _ output => exact output rfl
  | closing _ inactive | ended _ inactive | notBegun _ inactive => cases hactive.symm.trans inactive

/-- Once the hook is inactive and `stop()` is over, all events are written. -/
theorem wrote_eq (hinactive : m.active = false) (hclosing : p.closing = false) : wrote = acc := by
  cases h.session.stage with
  | opened _ active => cases hinactive.symm.trans active
  | closing _ _ closes =>
    have hcloses : p.closing = true := by
      cases p <;> first | rfl | exact closes | exact closes.elim
    cases hclosing.symm.trans hcloses
  | ended _ _ _ flushed =>
    have hle := h.frontier_bounds.1
    rw [h.inOrder,List.take_of_length_le (by omega)]
  | notBegun place => cases place

theorem stop_eq (hactive : m.active = true) : m.toHookState.stop text =
    ({ m.toHookState with active := false }.flushToFile text).fclose := by
  simp [HookState.stop,hactive,h.isOpen hactive]

/-- `stop()` of an active hook whose lock is free writes what is missing. -/
theorem stop_files (hactive : m.active = true) (hfree : m.fileMutex = false) :
    (m.toHookState.stop text).files cfg.output.filename = some (writeTrace text acc) := by
  have hrec := h.recording
  have hopen := h.isOpen hactive
  have hquiet : ¬p.Writes := by
    have hlocked := h.solo.mutex.symm.trans hfree
    cases p <;> first | exact id | cases hlocked
  have hcontent := h.fileInv.content
  have horder := h.inOrder
  rw [partialRecord_of_notWrites hquiet,List.append_nil] at hcontent
  rw [frontier_of_notWrites hquiet] at horder
  let t : HookState L := { m.toHookState with active := false }
  have hw : Writing cfg.output.filename (writeTrace text wrote) t := ⟨hopen,hcontent⟩
  have hle : t.readPos ≤ t.writePos := by
    show m.readPos ≤ m.writePos
    rw [hrec.position]
    exact hrec.window.lo_le
  have hunread : cells bufferSize t.eventBuffer t.readPos t.writePos = acc.drop m.readPos := by
    show cells bufferSize m.eventBuffer m.readPos m.writePos = acc.drop m.readPos
    rw [hrec.position]
    exact hrec.window.unread_eq
  rw [h.stop_eq hactive,HookState.flushToFile_eq hw hle,hunread]
  simp only [HookState.fclose,Function.update_self,writeTrace,horder,List.append_assoc,
    ← List.flatMap_append,List.take_append_drop]

end FileKept

variable (text cfg) in
/-- What the recording thread keeps of what its stream has written out. -/
structure BufferKept (b : BufferedWorld L) : Prop where
  kept : FileKept text cfg b.world.mem (b.world.pc 0) b.world.accepted b.world.wrote
  /-- `read_pos` is stored before `fflush`. -/
  read : (b.world.pc 0).synced = false →
    b.flushed = b.world.accepted.take b.world.mem.readPos
  written : b.flushed <+: b.world.wrote
  recent : b.world.accepted.length ≤ b.flushed.length + 4096
  disk : ∃ bs, b.disk = some bs ∧ writeTrace text b.flushed <+: bs ∧
    bs <+: (b.written cfg).getD []

section Steps

theorem grows_exec {name : Bytes} (hrecords : p.Records)
    (hexec : exec text cfg p m = some (m',p',os)) : Grows name m.toHookState m'.toHookState := by
  rcases (exec_frame hrecords hexec).files with ⟨hfiles,-⟩ | ⟨holder,currentWrite,currentRead,f,rfl⟩
  · unfold Grows
    exact hfiles ▸ List.prefix_refl _
  · simp only [exec] at hexec
    split at hexec <;> cases hexec <;> exact .fwrite _ _

/-- After `fflush` the flush is over. -/
theorem notWrites_of_synced (hp : p.synced = true)
    (hexec : exec text cfg p m = some (m',p',os)) : ¬p'.Writes := by
  cases p with
  | fclose k =>
    cases hexec
    exact id
  | unlock k =>
    cases hexec
    exact finish_notWrites k
  | _ => cases hp

/-- The store of `read_pos` is followed by `fflush`. -/
theorem readPos_of_not_synced (hrecords : p.Records)
    (hexec : exec text cfg p m = some (m',p',os)) (hp' : p'.synced = false) :
    m'.readPos = m.readPos := by
  rcases (exec_frame hrecords hexec).readPos with hsame | ⟨holder,currentRead,rfl⟩
  · exact hsame
  · cases hexec
    have hsynced : (Pc.flushed holder : Pc L).synced = true :=
      flushed_of (P := fun p => p.synced = true) holder (fun _ => rfl) (fun _ => rfl)
    cases hp'.symm.trans hsynced

end Steps

namespace BufferKept
variable {b b' : BufferedWorld L}

theorem started (cfg : TracingConfig) (hb : (recordingSystem text cfg.toConfig).init b) :
    BufferKept text cfg.toConfig b := by
  obtain ⟨hstarted,hdisk,hflushed⟩ := hb
  have hk : FileKept text cfg.toConfig b.world.mem (b.world.pc 0) b.world.accepted b.world.wrote :=
    .started cfg hstarted
  obtain ⟨content,hfile,hwrote,-⟩ := hk.content
  have hnone : b.world.accepted = [] := by
    obtain ⟨s,-,-,hworld⟩ := hstarted
    rw [hworld]
    rfl
  have hwritten : b.written cfg.toConfig = some content := hfile
  rw [hnone] at hk
  refine ⟨hnone ▸ hk,?_,?_,?_,content,hdisk.trans hwritten,?_,?_⟩
  · intro _
    rw [hflushed,hnone,List.take_nil]
  · rw [hflushed]
    exact List.nil_prefix
  · rw [hnone]
    exact Nat.zero_le _
  · rw [hflushed]
    exact List.IsPrefix.trans ((List.prefix_append_right_inj _).mpr List.nil_prefix) hwrote
  · rw [hwritten]
    exact List.prefix_refl _

/-- `fflush` or `fclose` writes out the whole buffer. -/
theorem sync (h : BufferKept text cfg b) (hwrites : cfg.output.writeToFile = true)
    (hp : (b.world.pc 0).synced = true)
    (hexec : exec text cfg (b.world.pc 0) b.world.mem = some (m',p',os)) :
    BufferKept text cfg
      { world := b.world.put 0 m' p' os, disk := m'.files cfg.output.filename
        flushed := (b.world.put 0 m' p' os).wrote } := by
  have hk : FileKept text cfg m' p' (b.world.accepted ++ acceptedIn os)
      (b.world.wrote ++ wroteIn os) := h.kept.step hwrites hexec
  obtain ⟨content,hfile,hwrote,-⟩ := hk.content
  have hread : p'.frontier m'.readPos = m'.readPos :=
    frontier_of_notWrites (notWrites_of_synced hp hexec)
  have hlen := hk.length_wrote
  have hrecent := hk.flushed.length_le
  refine ⟨by simpa using hk,?_,List.prefix_refl _,?_,content,hfile,by simpa using hwrote,?_⟩
  · intro _
    simpa [hread] using hk.inOrder
  · simp only [World.put_accepted,World.put_wrote]
    omega
  · simp [BufferedWorld.written,hfile]

/-- Every other step leaves what is written out. -/
theorem tick (h : BufferKept text cfg b) (hwrites : cfg.output.writeToFile = true)
    (hp : (b.world.pc 0).synced = false)
    (hexec : exec text cfg (b.world.pc 0) b.world.mem = some (m',p',os)) :
    BufferKept text cfg { b with world := b.world.put 0 m' p' os } := by
  have hk : FileKept text cfg m' p' (b.world.accepted ++ acceptedIn os)
      (b.world.wrote ++ wroteIn os) := h.kept.step hwrites hexec
  have hrec := h.kept.recording
  have hflushed := h.read hp
  have hlen : b.flushed.length = b.world.mem.readPos := by
    rw [hflushed,List.length_take,Nat.min_eq_left hrec.window.lo_le]
  obtain ⟨bs,hdisk,hwrote,hwritten⟩ := h.disk
  refine ⟨by simpa using hk,?_,?_,?_,bs,hdisk,hwrote,?_⟩
  · intro hp'
    have hread := readPos_of_not_synced hrec.records hexec (by simpa using hp')
    simp only [World.put_mem,World.put_accepted,hread]
    rw [List.take_append_of_le_length hrec.window.lo_le]
    exact hflushed
  · rw [World.put_wrote]
    exact h.written.trans (List.prefix_append _ _)
  · rw [World.put_accepted]
    rcases (exec_frame hrec.records hexec).writePos with ⟨-,hnone⟩ | ⟨e,k,head,hpublish⟩
    · rw [hnone,List.append_nil]
      exact h.recent
    · -- an event is accepted outside of a flush
      rw [hpublish] at hexec
      cases hexec
      have hrecent := hk.flushed.length_le
      rw [hlen]
      exact hrecent
  · exact hwritten.trans (grows_exec hrec.records hexec)

theorem call (h : BufferKept text cfg b) {c : Call L} (hc : (∃ e k, c = .hook e k) ∨ c = .stop)
    (hidle : b.world.pc 0 = .idle) :
    BufferKept text cfg { b with world := b.world.put 0 b.world.mem (c.entry cfg) [.called] } := by
  have hk := h.kept
  rw [hidle] at hk
  refine ⟨by simpa using hk.call hc,?_,by simpa using h.written,by simpa using h.recent,h.disk⟩
  intro _
  simpa using h.read (by rw [hidle]; rfl)

theorem writeOut (h : BufferKept text cfg b) {bs : Bytes}
    (hact : b.act text cfg (.writeOut bs) = some b') : BufferKept text cfg b' := by
  obtain ⟨⟨hmore,hwritten⟩,rfl⟩ := by
    simpa [BufferedWorld.act,Option.ite_none_right_eq_some] using hact
  obtain ⟨d,hdisk,hwrote,-⟩ := h.disk
  rw [hdisk,Option.getD_some] at hmore
  exact
    { kept := h.kept
      read := h.read
      written := h.written
      recent := h.recent
      disk := ⟨bs,rfl,hwrote.trans hmore,hwritten⟩ }

theorem reachable (cfg : TracingConfig)
    (h : (recordingSystem text cfg.toConfig).Reachable b) : BufferKept text cfg.toConfig b := by
  apply h.invariant
  · exact fun b hb => .started cfg hb
  · intro b a b' hb hmay hact
    cases a with
    | writeOut bs => exact hb.writeOut hact
    | thread a =>
      change onlyHookCalls a = true at hmay
      obtain ⟨w,hstep,rfl⟩ := Option.map_eq_some_iff.mp hact
      unfold onlyHookCalls at hmay
      split at hmay
      · obtain ⟨hidle,rfl⟩ := World.act_call hstep
        simpa [hidle,Pc.synced] using hb.call (.inl ⟨_,_,rfl⟩) hidle
      · obtain ⟨hidle,rfl⟩ := World.act_call hstep
        simpa [hidle,Pc.synced] using hb.call (.inr rfl) hidle
      · obtain ⟨m,p,os,hexec,rfl⟩ := World.act_tick hstep
        split
        · next hp => exact hb.sync cfg.writes hp hexec
        · next hp => exact hb.tick cfg.writes (Bool.not_eq_true _ ▸ hp) hexec
      · cases hmay

/-- What is written out is read as the events flushed, or more. -/
theorem shows (h : BufferKept text cfg b) :
    ShowsBetween text b.flushed b.world.accepted b.disk := by
  obtain ⟨bs,hdisk,hwrote,hwritten⟩ := h.disk
  obtain ⟨content,hfile,-,hacc⟩ := h.kept.content
  have hcontent : (b.written cfg).getD [] = content := by simp [BufferedWorld.written,hfile]
  rw [hdisk]
  exact .of_between hwrote ((hcontent ▸ hwritten).trans hacc)

end BufferKept

section GraphEnd

/-- The end of a graph is recorded and written, but not yet flushed. -/
def graphEndNotFlushed : List (BufferedAction Unit) :=
  .thread (.call 0 (.hook HookState.zeroEvent .graphEndFlush)) ::
    List.replicate 18 (.thread (.tick 0))

instance (text : L → Bytes) (cfg : Config) (b : BufferedWorld L) (a : BufferedAction L) :
    Decidable ((recordingSystem text cfg).may b a) :=
  match a with
  | .thread a => inferInstanceAs (Decidable (onlyHookCalls a = true))
  | .writeOut _ => inferInstanceAs (Decidable True)

end GraphEnd
end GgmlViz
