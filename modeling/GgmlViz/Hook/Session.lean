import GgmlViz.Hook.Recorder
import Mathlib.Data.List.Forall2
import Mathlib.Data.List.Induction

/-! # Sessions

A session is a `start()`, recorded events and graph-end flushes, and a `stop()`. While it
records, the file holds the events before the read position and the buffer holds the
rest; every 4096 events the rest is written, so the buffer is never near full.
-/
namespace GgmlViz
open LittleEndian RingWindow
variable {L : Type}

section Invariant
variable (R : Bytes → Event L → Prop) (cfg : Config)

/-- An active session that accepted these events: the file has those before the read
position, the buffer the others. `R` says which bytes are a record of which event. -/
structure Accounted (acc : List (Event L)) (s : HookState L) : Prop where
  active : s.active = true
  count : s.eventCount = acc.length
  position : s.writePos = acc.length
  noDrop : s.droppedEvents = 0
  limit : acc.length ≤ cfg.instrumentation.maxEvents.toNat
  window : Window bufferSize s.eventBuffer acc s.readPos
  file : ∃ rs, Writing cfg.output.filename (traceHeader ++ rs.flatten) s ∧
    List.Forall₂ R rs (acc.take s.readPos)

/-- Between the calls, the events up to the last multiple of 4096 are in the file. -/
structure Recording (acc : List (Event L)) (s : HookState L) : Prop
    extends Accounted R cfg acc s where
  flushed : acc.length / 4096 * 4096 ≤ s.readPos

/-- A session that is over and left these events in its file. -/
structure Recorded (acc : List (Event L)) (s : HookState L) : Prop where
  inactive : s.active = false
  closed : s.outputFile = none
  noDrop : s.droppedEvents = 0
  file : ∃ rs, s.files cfg.output.filename = some (traceHeader ++ rs.flatten) ∧
    List.Forall₂ R rs acc

/-- A session to which these events were offered. It stops by itself when one more
event is offered than it may record. -/
def SessionState (offered : List (Event L)) (s : HookState L) : Prop :=
  Recording R cfg offered s ∨
    (cfg.instrumentation.maxEvents.toNat < offered.length ∧
      Recorded R cfg (offered.take cfg.instrumentation.maxEvents.toNat) s)

end Invariant

variable {R : Bytes → Event L → Prop} {text : L → Bytes} {cfg : Config}
  {acc offered : List (Event L)} {s : HookState L}

theorem forall₂_encode (hR : ∀ e : Event L, R (e.encode text) e) (es : List (Event L)) :
    List.Forall₂ R (es.map (Event.encode text)) es := by
  induction es with
  | nil => exact .nil
  | cons e es ih => exact .cons (hR e) ih

theorem start_writing (henabled : cfg.hooksEnabled = true)
    (hwrite : cfg.output.writeToFile = true) (hs : s.active = false) : s.start cfg true =
      { s with
        active := true, eventCount := 0, writePos := 0, readPos := 0, droppedEvents := 0
        outputFile := some cfg.output.filename
        files := Function.update s.files cfg.output.filename (some traceHeader) } := by
  simp [HookState.start_eq henabled hs,hwrite,HookState.fopen,HookState.fwrite]

theorem recording_start (henabled : cfg.hooksEnabled = true) (hwrite : cfg.output.writeToFile = true)
    (hs : s.active = false) : Recording R cfg [] (s.start cfg true) := by
  rw [start_writing henabled hwrite hs]
  exact
    { active := rfl
      count := rfl
      position := rfl
      noDrop := rfl
      limit := Nat.zero_le _
      window := Window.nil (by decide) _
      file := ⟨[],⟨rfl,by simp⟩,.nil⟩
      flushed := by simp }

theorem Accounted.flush (hR : ∀ e : Event L, R (e.encode text) e) (h : Accounted R cfg acc s) :
    Recording R cfg acc (s.flushToFile text) ∧ (s.flushToFile text).readPos = acc.length := by
  obtain ⟨rs,hw,hrs⟩ := h.file
  have hle : s.readPos ≤ s.writePos := by rw [h.position]; exact h.window.lo_le
  have hunread : cells bufferSize s.eventBuffer s.readPos acc.length = acc.drop s.readPos :=
    h.window.unread_eq
  rw [HookState.flushToFile_eq hw hle,h.position,hunread]
  have hall : List.Forall₂ R (rs ++ (acc.drop s.readPos).map (Event.encode text)) acc := by
    conv_rhs => rw [← List.take_append_drop s.readPos acc]
    exact List.rel_append hrs (forall₂_encode hR _)
  exact ⟨
    { active := h.active
      count := h.count
      position := rfl
      noDrop := h.noDrop
      limit := h.limit
      window := h.window.advance h.window.lo_le (Nat.le_refl _)
      file := by
        refine ⟨_,⟨hw.isOpen,?_⟩,by simpa only [List.take_length] using hall⟩
        simp [List.flatMap_def]
      flushed := Nat.div_mul_le_self _ _ },rfl⟩

theorem Accounted.stop (hR : ∀ e : Event L, R (e.encode text) e) (h : Accounted R cfg acc s) :
    Recorded R cfg acc (s.stop text) := by
  let t : HookState L := { s with active := false }
  obtain ⟨rs,hw,hrs⟩ := h.file
  have hcommute : t.flushToFile text = { s.flushToFile text with active := false } := by
    have hwt : Writing cfg.output.filename (traceHeader ++ rs.flatten) t := ⟨hw.isOpen,hw.holds⟩
    have hle : s.readPos ≤ s.writePos := by rw [h.position]; exact h.window.lo_le
    rw [HookState.flushToFile_eq hwt hle,HookState.flushToFile_eq hw hle]
  have hstop : s.stop text = (t.flushToFile text).fclose := by
    simp [HookState.stop,h.active,hw.isOpen,t]
  obtain ⟨hflush,hread⟩ := h.flush hR
  obtain ⟨rs',hw',hrs'⟩ := hflush.file
  rw [hread,List.take_of_length_le (Nat.le_refl _)] at hrs'
  rw [hstop,hcommute]
  exact ⟨rfl,rfl,hflush.noDrop,rs',hw'.holds,hrs'⟩

/-- Below the limit an event is accepted: fewer than 4096 are unread, so a slot is free. -/
theorem Recording.record (hR : ∀ e : Event L, R (e.encode text) e)
    (hwrite : cfg.output.writeToFile = true) (h : Recording R cfg acc s) (e : Event L)
    (hlt : acc.length < cfg.instrumentation.maxEvents.toNat) :
    Recording R cfg (acc ++ [e]) (s.recordEvent text cfg e) := by
  have hmax := cfg.instrumentation.maxEvents.toNat_lt
  have hflushed := h.flushed
  have hlo := h.window.lo_le
  have hsoon : ¬(acc.length + 1) % 4096 = 0 → (acc.length + 1) / 4096 * 4096 ≤ s.readPos := by omega
  have hnext : increment acc.length = acc.length + 1 := increment_of_lt (by omega)
  have hroom : acc.length + 1 < s.readPos + bufferSize := by
    simp only [bufferSize]
    omega
  have hfree : ¬slot (acc.length + 1) = slot s.readPos := by
    rw [slot_eq_mod,slot_eq_mod,next_mod_eq_iff hlo h.window.fits]
    omega
  have hlimit : ¬cfg.instrumentation.maxEvents.toNat ≤ acc.length := by omega
  let t : HookState L :=
    { s with
      eventBuffer := Function.update s.eventBuffer (slot acc.length) e
      writePos := acc.length + 1
      eventCount := acc.length + 1 }
  have hrec : s.recordEvent text cfg e =
      if (acc.length + 1) &&& 0xFFF = 0 then t.flushToFile text else t := by
    simp only [HookState.recordEvent,h.active,h.count,h.position,hlimit,hnext,hfree,hwrite,t,
      Bool.not_true,Bool.false_eq_true,↓reduceIte,Bool.true_and,decide_eq_true_eq]
  have hlen : (acc ++ [e]).length = acc.length + 1 := by simp
  obtain ⟨rs,hw,hrs⟩ := h.file
  have ht : Accounted R cfg (acc ++ [e]) t :=
    { active := h.active
      count := hlen.symm
      position := hlen.symm
      noDrop := h.noDrop
      limit := by omega
      window := by
        have hp := h.window.push e hroom
        rwa [← slot_eq_mod] at hp
      file := by
        refine ⟨rs,⟨hw.isOpen,hw.holds⟩,?_⟩
        rwa [List.take_append_of_le_length hlo] }
  have hmask : (acc.length + 1) &&& 0xFFF = (acc.length + 1) % 4096 :=
    Nat.and_two_pow_sub_one_eq_mod _ 12
  rw [hrec,hmask]
  split
  · exact (ht.flush hR).1
  · next hz =>
    rw [← hlen] at hsoon
    exact { ht with flushed := hsoon (hlen ▸ hz) }

/-- At the limit the hook stops by itself. -/
theorem Recording.record_limit (hR : ∀ e : Event L, R (e.encode text) e)
    (h : Recording R cfg acc s) (e : Event L)
    (hlim : acc.length = cfg.instrumentation.maxEvents.toNat) :
    Recorded R cfg acc (s.recordEvent text cfg e) := by
  have hrec : s.recordEvent text cfg e = s.stop text := by
    simp [HookState.recordEvent,h.active,h.count,hlim]
  rw [hrec]
  exact h.stop hR

namespace SessionState

theorem recordEvent (hR : ∀ e : Event L, R (e.encode text) e)
    (hwrite : cfg.output.writeToFile = true) (h : SessionState R cfg offered s) (e : Event L) :
    SessionState R cfg (offered ++ [e]) (s.recordEvent text cfg e) := by
  rcases h with h | ⟨hover,h⟩
  · rcases Nat.lt_or_eq_of_le h.limit with hlt | heq
    · exact Or.inl (h.record hR hwrite e hlt)
    · refine Or.inr ⟨by simp; omega,?_⟩
      rw [List.take_append_of_le_length (by omega),List.take_of_length_le (by omega)]
      exact h.record_limit hR e heq
  · refine Or.inr ⟨by simp; omega,?_⟩
    rw [HookState.recordEvent_inactive h.inactive,List.take_append_of_le_length (by omega)]
    exact h

theorem graphEndFlush (hR : ∀ e : Event L, R (e.encode text) e)
    (hwrite : cfg.output.writeToFile = true) (h : SessionState R cfg offered s) :
    SessionState R cfg offered (s.graphEndFlush text cfg) := by
  rw [HookState.graphEndFlush,if_pos hwrite]
  rcases h with h | ⟨hover,h⟩
  · exact Or.inl (h.flush hR).1
  · exact Or.inr ⟨hover,by rwa [HookState.flushToFile_closed h.closed]⟩

theorem stop (hR : ∀ e : Event L, R (e.encode text) e) (h : SessionState R cfg offered s) :
    Recorded R cfg (offered.take cfg.instrumentation.maxEvents.toNat) (s.stop text) := by
  rcases h with h | ⟨hover,h⟩
  · rw [List.take_of_length_le h.limit]
    exact h.stop hR
  · rwa [HookState.stop_inactive h.inactive]

theorem noDrop (h : SessionState R cfg offered s) : s.droppedEvents = 0 := by
  rcases h with h | ⟨-,h⟩
  · exact h.noDrop
  · exact h.noDrop

end SessionState

/-- What one thread does to an open session. -/
inductive SessionOp (L : Type)
  | record (e : Event L)
  | graphEndFlush

def SessionOp.run (text : L → Bytes) (cfg : Config) : SessionOp L → HookState L → HookState L
  | .record e, s => s.recordEvent text cfg e
  | .graphEndFlush, s => s.graphEndFlush text cfg

/-- The events of a list of operations. -/
def offeredEvents (ops : List (SessionOp L)) : List (Event L) :=
  ops.filterMap (fun op => match op with | .record e => some e | .graphEndFlush => none)

/-- A configuration that lets the hook start and has it write to a file. -/
structure TracingConfig extends Config where
  enabled : toConfig.hooksEnabled = true
  writes : output.writeToFile = true

/-- The default configuration. -/
def defaultTracing : TracingConfig where
  enabled := rfl
  writes := rfl

/-- A session that writes to its file. -/
structure Session (L : Type) where
  cfg : TracingConfig
  ops : List (SessionOp L)

namespace Session
variable (text)

/-- `start()` and the first operations, where `fopen` succeeds. -/
def runOps (cfg : Config) (ops : List (SessionOp L)) (s : HookState L) : HookState L :=
  ops.foldl (fun s op => op.run text cfg s) (s.start cfg true)

def run (x : Session L) (s : HookState L) : HookState L := (runOps text x.cfg.toConfig x.ops s).stop text

/-- Sessions one after the other. -/
def runAll (xs : List (Session L)) (s : HookState L) : HookState L :=
  xs.foldl (fun s x => x.run text s) s

variable {text}

theorem sessionState_runOps (hR : ∀ e : Event L, R (e.encode text) e) (x : Session L)
    (ops : List (SessionOp L)) (hs : s.active = false) :
    SessionState R x.cfg.toConfig (offeredEvents ops) (runOps text x.cfg.toConfig ops s) := by
  induction ops using List.reverseRecOn with
  | nil => exact Or.inl (recording_start x.cfg.enabled x.cfg.writes hs)
  | append_singleton ops op ih =>
    cases op with
    | record e =>
      have h := ih.recordEvent hR x.cfg.writes e
      simpa [offeredEvents,SessionOp.run,runOps] using h
    | graphEndFlush =>
      have h := ih.graphEndFlush hR x.cfg.writes
      simpa [offeredEvents,SessionOp.run,runOps] using h

theorem recorded_run (hR : ∀ e : Event L, R (e.encode text) e) (x : Session L)
    (hs : s.active = false) :
    Recorded R x.cfg.toConfig ((offeredEvents x.ops).take x.cfg.instrumentation.maxEvents.toNat) (x.run text s) :=
  (sessionState_runOps hR x x.ops hs).stop hR

theorem runAll_inactive (xs : List (Session L)) (hs : s.active = false) :
    (runAll text xs s).active = false := by
  induction xs generalizing s with
  | nil => exact hs
  | cons x xs ih =>
    have hrun := (recorded_run (R := fun r e => r = Event.encode text e) (fun _ => rfl) x hs).inactive
    exact ih hrun

end Session

theorem forall₂_encode_iff {rs : List Bytes} {es : List (Event L)}
    (h : List.Forall₂ (fun r e => r = Event.encode text e) rs es) :
    rs.flatten = es.flatMap (Event.encode text) := by
  induction h with
  | nil => rfl
  | cons hr _ ih => rw [List.flatten_cons,List.flatMap_cons,hr,ih]

theorem Recorded.file_eq (h : Recorded (fun r e => r = Event.encode text e) cfg acc s) :
    s.files cfg.output.filename = some (writeTrace text acc) := by
  obtain ⟨rs,hfile,hrs⟩ := h.file
  rw [hfile,forall₂_encode_iff hrs]
  rfl

/-- The file of a session holds the header and the events up to the limit, whatever
sessions came before: when it is over, be it by `stop()` or by itself. -/
theorem session_file (text : L → Bytes) (files : Bytes → Option Bytes)
    (earlier : List (Session L)) (x : Session L) :
    let s := Session.runAll text earlier (HookState.initial files)
    let content := writeTrace text
      ((offeredEvents x.ops).take x.cfg.instrumentation.maxEvents.toNat)
    (∀ k,
      let t := Session.runOps text x.cfg.toConfig (x.ops.take k) s
      t.droppedEvents = 0 ∧
        (t.active = false → t.files x.cfg.output.filename = some content)) ∧
    (x.run text s).droppedEvents = 0 ∧
      (x.run text s).files x.cfg.output.filename = some content := by
  intro s content
  have hs : s.active = false := Session.runAll_inactive earlier rfl
  have hrun := Session.recorded_run (R := fun r e => r = Event.encode text e) (fun _ => rfl) x hs
  refine ⟨?_,hrun.noDrop,hrun.file_eq⟩
  intro k t
  have ht := Session.sessionState_runOps (R := fun r e => r = Event.encode text e) (fun _ => rfl)
    x (x.ops.take k) hs
  refine ⟨ht.noDrop,?_⟩
  intro hstopped
  rcases ht with ht | ⟨hover,ht⟩
  · exact absurd (ht.active.symm.trans hstopped) (by decide)
  · -- the session stopped by itself, so the operations that follow add nothing
    have hoffered : (offeredEvents x.ops).take x.cfg.instrumentation.maxEvents.toNat =
        (offeredEvents (x.ops.take k)).take x.cfg.instrumentation.maxEvents.toNat := by
      conv_lhs => rw [← List.take_append_drop k x.ops,offeredEvents,List.filterMap_append]
      exact List.take_append_of_le_length (Nat.le_of_lt hover)
    rw [show content = _ from congrArg (writeTrace text) hoffered]
    exact ht.file_eq

end GgmlViz
