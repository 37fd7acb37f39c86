import GgmlViz.Hook.Offers
import GgmlViz.Hook.RingLog
import GgmlViz.Trace.RoundTrip

/-! # The names behind the labels

An event carries a pointer to the name of its tensor. The text is read when the event is
written to the file or looked at by a consumer, and the traced program may have renamed
the tensor, or used its memory for another one, by then.
-/
namespace GgmlViz
open LittleEndian RingWindow

/-- The event of `on_tensor_free`. -/
def tensorFreeEvent (cfg : Config) (m : Moment) (tensor : Ptr) : Event Ptr where
  type := .tensorFree
  timestampNs := m.now
  threadId := m.threadId
  data := { ptr := tensor, size := 0 : MemoryData }.toData
  label := if cfg.instrumentation.recordTensorNames then some tensor else none

def HookState.onTensorFree (cfg : Config) (m : Moment) (tensor : Ptr) (s : HookState Ptr) :
    HookState Ptr :=
  if !s.active then s
  else if !cfg.instrumentation.enableMemoryTracking then s
  else if tensor = 0 then s
  else s.recordEvent m.text cfg (tensorFreeEvent cfg m tensor)

/-- A call of the hook, with the tensors as they are then. -/
inductive TracedCall
  | callback (step : HookStep)
  | onTensorFree (m : Moment) (tensor : Ptr)
  /-- `consume_available_events`, with the moment at which the consumer reads the labels. -/
  | consume (m : Moment)
  | start (opens : Bool)
  | stop (m : Moment)

/-- The hook, and an account of the events of its session. -/
structure Traced where
  hook : HookState Ptr
  /-- The name of the session's file, if it has one. -/
  file : Option Bytes
  /-- The events in the order of their positions, with the moments at which they were recorded. -/
  recorded : List (Event Ptr × Moment)
  /-- Those that were written to the file, each with its record as an event. -/
  written : List ((Event Ptr × Moment) × Event Bytes)
  /-- What the consumer saw, with the positions. -/
  returned : List (Event Bytes × ℕ)

/-- The event with the name that its tensor had when it was recorded. -/
def atRecording (x : Event Ptr × Moment) : Event Bytes := x.1.resolve x.2.text

namespace Traced

def initial (files : Bytes → Option Bytes) : Traced :=
  { hook := HookState.initial files, file := none, recorded := [], written := [], returned := [] }

/-- The hook goes on to `s`: it may store an event and write what is unread, at this moment. -/
def advance (m : Moment) (s : HookState Ptr) (t : Traced) : Traced :=
  let recorded := t.recorded ++ (t.hook.storedSince s).map (fun e => (e,m))
  let delivered := (recorded.drop t.hook.readPos).take (s.readPos - t.hook.readPos)
  { t with
    hook := s
    recorded := recorded
    written := t.written ++ delivered.map (fun x => (x,x.1.resolve m.text)) }

def step (cfg : Config) : TracedCall → Traced → Traced
  | .callback step, t => t.advance step.moment (step.run cfg t.hook)
  | .onTensorFree m tensor, t => t.advance m (t.hook.onTensorFree cfg m tensor)
  | .stop m, t => t.advance m (t.hook.stop m.text)
  | .consume m, t =>
    match t.hook.consumeAvailableEvents with
    | none => t
    | some (s,events) =>
      { t with
        hook := s
        returned := t.returned ++ (events.map (Event.resolve m.text)).zipIdx t.hook.readPos }
  | .start opens, t =>
    let s := t.hook.start cfg opens
    if t.hook.active || !cfg.hooksEnabled then { t with hook := s }
    else { hook := s, file := s.outputFile, recorded := [], written := [], returned := [] }

/-- Calls one after the other, each with the configuration of its moment. -/
def run (calls : List (Config × TracedCall)) (t : Traced) : Traced :=
  calls.foldl (fun t x => t.step x.1 x.2) t

end Traced

/-- The file holds its events with the names from their recording, and the consumer saw them. -/
structure LabelsAsRecorded (t : Traced) : Prop where
  file : ∀ name, t.file = some name → t.hook.files name =
    some (writeTrace id (t.written.map (fun x => atRecording x.1)))
  consumer : ∀ x ∈ t.returned, (t.recorded[x.2]?).map atRecording = some x.1

/-- What is unread still bears, at this moment, the names from its recording. -/
def Traced.NamesKept (m : Moment) (t : Traced) : Prop :=
  ∀ x ∈ t.recorded.drop t.hook.readPos, ∀ p, x.1.label = some p →
    cString (m.text p) = cString (x.2.text p)

theorem all_names_iff (m : Moment) (t : Traced) :
    (t.recorded.drop t.hook.readPos).all (fun x =>
      x.1.label.all (fun p => cString (m.text p) = cString (x.2.text p))) = true ↔
        t.NamesKept m := by
  simp [Traced.NamesKept,Option.all_eq_true]

instance (m : Moment) (t : Traced) : Decidable (t.NamesKept m) :=
  decidable_of_iff _ (all_names_iff m t)

section Deliveries
variable (cfg : Config) (s : HookState Ptr)

/-- Recording a further event writes what is unread: at the limit, and at every 4096th event. -/
def recordFlushes : Bool :=
  cfg.instrumentation.maxEvents.toNat ≤ s.eventCount ||
    (slot (increment s.writePos) ≠ slot s.readPos && cfg.output.writeToFile &&
      increment s.eventCount &&& 0xFFF = 0)

/-- The call writes what is unread, or returns it. -/
def TracedCall.delivers : TracedCall → Bool
  | .callback step => s.active && s.outputFile.isSome && (step.event cfg).isSome &&
    (recordFlushes cfg s || (step.isGraphEnd && cfg.output.writeToFile))
  | .onTensorFree _ tensor => s.active && s.outputFile.isSome &&
    cfg.instrumentation.enableMemoryTracking && tensor ≠ 0 && recordFlushes cfg s
  | .consume _ => s.active
  | .stop _ => s.active && s.outputFile.isSome
  | .start _ => false

end Deliveries

def TracedCall.moment : TracedCall → Option Moment
  | .callback step => some step.moment
  | .onTensorFree m _ | .consume m | .stop m => some m
  | .start _ => none

/-- In this run no tensor is renamed between the recording of one of its events and the call
that writes or returns the event. -/
def NamesKeptAlong : List (Config × TracedCall) → Traced → Prop
  | [], _ => True
  | (cfg,x) :: calls, t =>
    (∀ m, x.moment = some m → x.delivers cfg t.hook = true → t.NamesKept m) ∧
      NamesKeptAlong calls (t.step cfg x)

/-- What the ring and the file hold, whatever the tensors are called. -/
structure Ledger (t : Traced) : Prop where
  position : t.hook.writePos = t.recorded.length
  count : t.hook.eventCount = t.recorded.length
  small : t.recorded.length < 2 ^ 64
  window : Window bufferSize t.hook.eventBuffer (t.recorded.map Prod.fst) t.hook.readPos
  opened : ∀ name, t.hook.outputFile = some name → t.file = some name
  content : ∀ name, t.file = some name →
    t.hook.files name = some (writeTrace id (t.written.map Prod.snd))
  unwritten : t.file = none → t.written = []
  fits : ∀ x ∈ t.written, LabelFits x.2
  returnedAt : ∀ x ∈ t.returned, x.2 < t.recorded.length

section Advance
variable {t : Traced} {m : Moment} {s s' : HookState Ptr}

theorem storedSince_of_writePos {s s' : HookState Ptr} (h : s'.writePos = s.writePos) :
    s.storedSince s' = [] := if_pos h

/-- Nothing is stored or written. -/
theorem advance_quiet (hwrite : s.writePos = t.hook.writePos) (hread : s.readPos = t.hook.readPos) :
    t.advance m s = { t with hook := s } := by
  rw [Traced.advance,storedSince_of_writePos hwrite,hread,Nat.sub_self]
  simp

/-- Two steps in one, where the second stores nothing. -/
theorem advance_advance (hread : t.hook.readPos ≤ s.readPos) (hread' : s.readPos ≤ s'.readPos)
    (hwrite : s'.writePos = s.writePos) (hbuffer : s'.eventBuffer = s.eventBuffer) :
    (t.advance m s).advance m s' = t.advance m s' := by
  have hstored : t.hook.storedSince s' = t.hook.storedSince s := by
    rw [HookState.storedSince,HookState.storedSince,hwrite,hbuffer]
  have hsplit (l : List (Event Ptr × Moment)) :
      (l.drop t.hook.readPos).take (s.readPos - t.hook.readPos) ++
        (l.drop s.readPos).take (s'.readPos - s.readPos) =
      (l.drop t.hook.readPos).take (s'.readPos - t.hook.readPos) := by
    have hsum : s'.readPos - t.hook.readPos =
        (s.readPos - t.hook.readPos) + (s'.readPos - s.readPos) := by omega
    rw [hsum,List.take_add,List.drop_drop,Nat.add_sub_of_le hread]
  simp only [Traced.advance,hstored,storedSince_of_writePos hwrite,List.map_nil,List.append_nil,
    List.append_assoc,← List.map_append,hsplit]

end Advance

/-- At the limit the file is closed. -/
theorem outputFile_recordEvent {s : HookState Ptr} (text : Ptr → Bytes) (cfg : Config)
    (hactive : s.active = true) (e : Event Ptr) : (s.recordEvent text cfg e).outputFile =
      if cfg.instrumentation.maxEvents.toNat ≤ s.eventCount then none else s.outputFile := by
  rcases HookState.recordEvent_cases text cfg hactive e with
    ⟨hmax,hrec⟩ | ⟨hbelow,-,hrec⟩ | ⟨hbelow,-,hrec⟩
  · rw [hrec,if_pos hmax]
    cases hout : s.outputFile with
    | none => simp [HookState.stop,hactive,hout]
    | some name => simp [HookState.stop,hactive,hout,HookState.fclose]
  · rw [hrec,if_neg (Nat.not_le.mpr hbelow)]
  · obtain ⟨-,-,-,-,hout,-⟩ := HookState.flushToFile_fields text (s.store e)
    rw [hrec,if_neg (Nat.not_le.mpr hbelow)]
    split
    · exact hout
    · rfl

namespace Ledger
variable {t : Traced}

theorem initial (files : Bytes → Option Bytes) : Ledger (Traced.initial files) where
  position := rfl
  count := rfl
  small := Nat.two_pow_pos 64
  window := Window.nil (by decide) _
  opened := fun _ h => by cases h
  content := fun _ h => by cases h
  unwritten := fun _ => rfl
  fits := fun x h => absurd h List.not_mem_nil
  returnedAt := fun x h => absurd h List.not_mem_nil

variable (h : Ledger t)
include h

theorem ringLog : RingLog (t.recorded.map Prod.fst) t.hook where
  position := by
    rw [List.length_map]
    exact h.position
  count := by
    rw [List.length_map]
    exact h.count
  small := by
    rw [List.length_map]
    exact h.small
  window := h.window
  lo_le := Nat.le_refl _
  readPos_le := h.window.lo_le

theorem readPos_le : t.hook.readPos ≤ t.hook.writePos := h.ringLog.readPos_le_writePos

/-- A change to the other members. -/
theorem quiet {s : HookState Ptr} (m : Moment) (hwrite : s.writePos = t.hook.writePos)
    (hread : s.readPos = t.hook.readPos) (hcount : s.eventCount = t.hook.eventCount)
    (hbuffer : s.eventBuffer = t.hook.eventBuffer) (hfiles : s.files = t.hook.files)
    (hout : ∀ name, s.outputFile = some name → t.hook.outputFile = some name) :
    Ledger (t.advance m s) := by
  rw [advance_quiet hwrite hread]
  exact
    { position := hwrite.trans h.position
      count := hcount.trans h.count
      small := h.small
      window := by
        rw [hbuffer,hread]
        exact h.window
      opened := fun name hname => h.opened name (hout name hname)
      content := by
        rw [hfiles]
        exact h.content
      unwritten := h.unwritten
      fits := h.fits
      returnedAt := h.returnedAt }

theorem store (m : Moment) (e : Event Ptr) (hfree : slot (increment t.hook.writePos) ≠ slot t.hook.readPos)
    (hroom : t.recorded.length + 1 < 2 ^ 64) : Ledger (t.advance m (t.hook.store e)) := by
  have hstored : t.hook.storedSince (t.hook.store e) = [e] := by
    simp [HookState.storedSince,HookState.store,HookState.increment_ne]
  have hadvance : t.advance m (t.hook.store e) =
      { t with hook := t.hook.store e, recorded := t.recorded ++ [(e,m)] } := by
    rw [Traced.advance,hstored]
    simp [HookState.store]
  have hring := h.ringLog.store e hfree (by rwa [List.length_map])
  have hmap : t.recorded.map Prod.fst ++ [e] = (t.recorded ++ [(e,m)]).map Prod.fst := by
    rw [List.map_append,List.map_singleton]
  rw [hmap] at hring
  rw [hadvance]
  exact
    { position := hring.position.trans (List.length_map _)
      count := hring.count.trans (List.length_map _)
      small := List.length_map Prod.fst ▸ hring.small
      window := hring.window
      opened := h.opened
      content := h.content
      unwritten := h.unwritten
      fits := h.fits
      returnedAt := by
        intro x hx
        rw [List.length_append]
        exact Nat.lt_add_right _ (h.returnedAt x hx) }

/-- A flush writes the records of the unread events, with the names of this moment. -/
theorem flush (m : Moment) : Ledger (t.advance m (t.hook.flushToFile m.text)) := by
  cases hout : t.hook.outputFile with
  | none =>
    rw [HookState.flushToFile_closed hout]
    exact h.quiet m rfl rfl rfl rfl rfl (fun _ hname => hname)
  | some name =>
    have hfile := h.opened name hout
    have hw : Writing name (writeTrace id (t.written.map Prod.snd)) t.hook :=
      ⟨hout,h.content name hfile⟩
    have hunread : cells bufferSize t.hook.eventBuffer t.hook.readPos t.hook.writePos =
        (t.recorded.map Prod.fst).drop t.hook.readPos := h.ringLog.unread_eq
    have hall : ∀ r, (t.recorded.drop r).take (t.recorded.length - r) = t.recorded.drop r := by
      intro r
      exact List.take_of_length_le (by rw [List.length_drop])
    have hrecords : ((t.recorded.map Prod.fst).drop t.hook.readPos).flatMap (Event.encode m.text) =
        ((t.recorded.drop t.hook.readPos).map (fun x => x.1.resolve m.text)).flatMap
          (Event.encode id) := by
      rw [← List.map_drop,List.flatMap_map,List.flatMap_map]
      congr 1
      funext x
      exact (encode_resolve m.text x.1).symm
    have hstored : t.hook.storedSince (t.hook.flushToFile m.text) = [] :=
      storedSince_of_writePos (HookState.flushToFile_fields m.text t.hook).2.2.2.1
    rw [Traced.advance,hstored,HookState.flushToFile_eq hw h.readPos_le,hunread,hrecords]
    simp only [List.map_nil,List.append_nil,h.position,hall]
    exact
      { position := rfl
        count := h.count
        small := h.small
        window := h.window.advance (by simpa using h.window.lo_le) (by simp)
        opened := h.opened
        content := by
          intro name' hname'
          cases hfile.symm.trans hname'
          refine (Function.update_self ..).trans (congrArg some ?_)
          rw [List.map_append,writeTrace,writeTrace,List.flatMap_append,List.append_assoc,
            List.map_map]
          rfl
        unwritten := by
          intro hnone
          cases hfile.symm.trans hnone
        fits := by
          intro x hx
          rcases List.mem_append.mp hx with hx | hx
          · exact h.fits x hx
          · obtain ⟨y,-,rfl⟩ := List.mem_map.mp hx
            exact labelFits_resolve _ _
        returnedAt := h.returnedAt }

theorem stop (m : Moment) : Ledger (t.advance m (t.hook.stop m.text)) := by
  cases hactive : t.hook.active with
  | false =>
    rw [HookState.stop_inactive hactive]
    exact h.quiet m rfl rfl rfl rfl rfl (fun _ hname => hname)
  | true =>
    let t0 : Traced := t.advance m { t.hook with active := false }
    have h0 : Ledger t0 := h.quiet m rfl rfl rfl rfl rfl (fun _ hname => hname)
    cases hout : t.hook.outputFile with
    | none =>
      have hstop : t.hook.stop m.text = { t.hook with active := false } := by
        simp [HookState.stop,hactive,hout]
      rw [hstop]
      exact h0
    | some name =>
      let flushed := t0.hook.flushToFile m.text
      have hstop : t.hook.stop m.text = flushed.fclose := by
        simp [HookState.stop,hactive,hout,flushed,t0,Traced.advance]
      obtain ⟨-,-,hbuffer,hwrite,-,hread⟩ := HookState.flushToFile_fields m.text t0.hook
      have hle : t0.hook.readPos ≤ flushed.readPos := by
        rw [hread]
        split <;> omega
      have hfirst : t0.advance m flushed.fclose = t.advance m flushed.fclose :=
        advance_advance (Nat.le_refl _) hle hwrite hbuffer
      have hclose : (t0.advance m flushed).advance m flushed.fclose = t0.advance m flushed.fclose :=
        advance_advance hle (Nat.le_refl _) rfl rfl
      rw [hstop,← hfirst,← hclose]
      exact (h0.flush m).quiet m rfl rfl rfl rfl rfl (fun _ hname => by cases hname)

omit h in
theorem flush_of_advance {s : HookState Ptr} {m : Moment} (hs : Ledger (t.advance m s))
    (hread : t.hook.readPos ≤ s.readPos) : Ledger (t.advance m (s.flushToFile m.text)) := by
  obtain ⟨-,-,hbuffer,hwrite,-,hpos⟩ := HookState.flushToFile_fields m.text s
  have hle : s.readPos ≤ (s.flushToFile m.text).readPos := by
    rw [hpos]
    split <;> omega
  rw [← advance_advance hread hle hwrite hbuffer]
  exact hs.flush m

theorem recordEvent (cfg : Config) (m : Moment) (e : Event Ptr) :
    Ledger (t.advance m (t.hook.recordEvent m.text cfg e)) := by
  cases hactive : t.hook.active with
  | false =>
    rw [HookState.recordEvent_inactive hactive]
    exact h.quiet m rfl rfl rfl rfl rfl (fun _ hname => hname)
  | true =>
    rcases HookState.recordEvent_cases m.text cfg hactive e with
      ⟨-,hrec⟩ | ⟨-,-,hrec⟩ | ⟨hbelow,hfree,hrec⟩
    · rw [hrec]
      exact h.stop m
    · rw [hrec]
      exact h.quiet m rfl rfl rfl rfl rfl (fun _ hname => hname)
    · have hmax := cfg.instrumentation.maxEvents.toNat_lt
      have hstore := h.store m e hfree (by rw [h.count] at hbelow; omega)
      rw [hrec]
      split
      · exact flush_of_advance hstore (Nat.le_refl _)
      · exact hstore

/-- The read position catches up when the hook stops with its file open, or stays. -/
theorem readPos_stop (m : Moment) :
    (t.hook.stop m.text).readPos =
      if t.hook.active && t.hook.outputFile.isSome then (t.hook.stop m.text).writePos
      else t.hook.readPos := by
  have hle := h.readPos_le
  obtain ⟨-,-,-,hwrite,-,hread⟩ :=
    HookState.flushToFile_fields m.text { t.hook with active := false }
  cases hactive : t.hook.active with
  | false => simp [HookState.stop_inactive hactive]
  | true =>
    cases hout : t.hook.outputFile with
    | none => simp [HookState.stop,hactive,hout]
    | some name =>
      simp only [hout,Option.isSome_some,if_true] at hread hwrite
      simp only [HookState.stop,hactive,hout,Option.isSome_some,HookState.fclose,if_true,
        Bool.not_true,Bool.false_eq_true,if_false,Bool.and_self,hread,hwrite]
      omega

/-- The read position catches up when an event is recorded, or stays. -/
theorem readPos_recordEvent (cfg : Config) (m : Moment) (e : Event Ptr) :
    (t.hook.recordEvent m.text cfg e).readPos =
      if t.hook.active && t.hook.outputFile.isSome && recordFlushes cfg t.hook then
        (t.hook.recordEvent m.text cfg e).writePos
      else t.hook.readPos := by
  have hle := h.readPos_le
  cases hactive : t.hook.active with
  | false => simp [HookState.recordEvent_inactive hactive]
  | true =>
    rcases HookState.recordEvent_cases m.text cfg hactive e with
      ⟨hmax,hrec⟩ | ⟨hbelow,hfull,hrec⟩ | ⟨hbelow,hfree,hrec⟩
    · have hflushes : recordFlushes cfg t.hook = true := by simp [recordFlushes,hmax]
      rw [hrec,hflushes,h.readPos_stop m,hactive,Bool.and_true]
    · have hflushes : recordFlushes cfg t.hook = false := by
        simp [recordFlushes,hfull,Nat.not_le.mpr hbelow]
      rw [hrec,hflushes]
      simp
    · have hmax := cfg.instrumentation.maxEvents.toNat_lt
      have hnext : increment t.hook.writePos = t.hook.writePos + 1 :=
        increment_of_lt (by rw [h.position,← h.count]; omega)
      have hflushes : recordFlushes cfg t.hook =
          (cfg.output.writeToFile && increment t.hook.eventCount &&& 0xFFF = 0) := by
        simp [recordFlushes,hfree,Nat.not_le.mpr hbelow]
      obtain ⟨-,-,-,hwrite,-,hread⟩ := HookState.flushToFile_fields m.text (t.hook.store e)
      rw [hrec,hflushes]
      split
      · next hflush =>
        rw [hread,hwrite]
        cases hout : t.hook.outputFile with
        | none => simp [HookState.store,hout]
        | some name =>
          simp only [HookState.store,hout,Option.isSome_some,if_true,Bool.true_and,hflush,hnext]
          omega
      · next hno =>
        simp [HookState.store,hno]

theorem readPos_le_recordEvent (cfg : Config) (m : Moment) (e : Event Ptr) :
    t.hook.readPos ≤ (t.hook.recordEvent m.text cfg e).readPos := by
  have hle := h.readPos_le
  have hposition : (t.hook.recordEvent m.text cfg e).writePos =
      (t.advance m (t.hook.recordEvent m.text cfg e)).recorded.length :=
    (h.recordEvent cfg m e).position
  have hmore : t.recorded.length ≤
      (t.advance m (t.hook.recordEvent m.text cfg e)).recorded.length := by
    rw [Traced.advance,List.length_append]
    exact Nat.le_add_right _ _
  rw [h.readPos_recordEvent cfg m e]
  split
  · rw [h.position] at hle
    omega
  · exact Nat.le_refl _

theorem graphEndFlush (cfg : Config) (m : Moment) (e : Event Ptr) :
    Ledger (t.advance m ((t.hook.recordEvent m.text cfg e).graphEndFlush m.text cfg)) := by
  have hrec := h.recordEvent cfg m e
  unfold HookState.graphEndFlush
  split
  · exact flush_of_advance hrec (h.readPos_le_recordEvent cfg m e)
  · exact hrec

theorem readPos_graphEndFlush (cfg : Config) (m : Moment) (e : Event Ptr)
    (hactive : t.hook.active = true) :
    ((t.hook.recordEvent m.text cfg e).graphEndFlush m.text cfg).readPos =
      if t.hook.outputFile.isSome && (recordFlushes cfg t.hook || cfg.output.writeToFile) then
        ((t.hook.recordEvent m.text cfg e).graphEndFlush m.text cfg).writePos
      else t.hook.readPos := by
  have hread := h.readPos_recordEvent cfg m e
  rw [hactive,Bool.true_and] at hread
  unfold HookState.graphEndFlush
  cases hwrite : cfg.output.writeToFile with
  | false => simpa using hread
  | true =>
    obtain ⟨-,-,-,hwritePos,-,hflush⟩ :=
      HookState.flushToFile_fields m.text (t.hook.recordEvent m.text cfg e)
    have hle : (t.hook.recordEvent m.text cfg e).readPos ≤
        (t.hook.recordEvent m.text cfg e).writePos := (h.recordEvent cfg m e).readPos_le
    have hout := outputFile_recordEvent m.text cfg hactive e
    rw [if_pos rfl,hflush,hwritePos,Bool.or_true,Bool.and_true]
    by_cases hmax : cfg.instrumentation.maxEvents.toNat ≤ t.hook.eventCount
    · have hflushes : recordFlushes cfg t.hook = true := by simp [recordFlushes,hmax]
      rw [hflushes,Bool.and_true] at hread
      rw [hout,if_pos hmax]
      exact hread
    · rw [hout,if_neg hmax]
      cases hopen : t.hook.outputFile with
      | none => simpa [hopen] using hread
      | some name =>
        rw [Option.isSome_some,if_pos rfl,if_pos rfl]
        omega

end Ledger

/-- What the calls do that may store or write events: the ledger is kept, and what is unread
is written if the call delivers, or stays. -/
structure Advances (t : Traced) (m : Moment) (s : HookState Ptr) (delivers : Bool) : Prop where
  ledger : Ledger (t.advance m s)
  readPos : s.readPos = if delivers then s.writePos else t.hook.readPos

section Calls
variable {t : Traced} (h : Ledger t) (cfg : Config)
include h

theorem Ledger.advances_same (m : Moment) : Advances t m t.hook false where
  ledger := h.quiet m rfl rfl rfl rfl rfl (fun _ hname => hname)
  readPos := rfl

theorem Ledger.advances_recordEvent (m : Moment) (e : Event Ptr) :
    Advances t m (t.hook.recordEvent m.text cfg e)
      (t.hook.active && t.hook.outputFile.isSome && recordFlushes cfg t.hook) where
  ledger := h.recordEvent cfg m e
  readPos := h.readPos_recordEvent cfg m e

theorem Ledger.advances_callback (step : HookStep) : Advances t step.moment (step.run cfg t.hook)
    ((TracedCall.callback step).delivers cfg t.hook) := by
  rw [HookStep.run_eq,TracedCall.delivers]
  cases step.event cfg with
  | none => simpa using h.advances_same step.moment
  | some e =>
    have hrec := h.advances_recordEvent cfg step.moment e
    cases hactive : t.hook.active with
    | false => simpa [hactive] using hrec
    | true =>
      cases hend : step.isGraphEnd with
      | false => simpa [hactive] using hrec
      | true =>
        have hread := h.readPos_graphEndFlush cfg step.moment e hactive
        exact
          { ledger := h.graphEndFlush cfg step.moment e
            readPos := by simpa [hactive] using hread }

theorem Ledger.advances_onTensorFree (m : Moment) (tensor : Ptr) :
    Advances t m (t.hook.onTensorFree cfg m tensor)
      ((TracedCall.onTensorFree m tensor).delivers cfg t.hook) := by
  have hrec := h.advances_recordEvent cfg m (tensorFreeEvent cfg m tensor)
  unfold HookState.onTensorFree TracedCall.delivers
  cases hactive : t.hook.active with
  | false => simpa [hactive] using h.advances_same m
  | true =>
    cases htracking : cfg.instrumentation.enableMemoryTracking with
    | false => simpa using h.advances_same m
    | true =>
      by_cases hnull : tensor = 0
      · simpa [hnull] using h.advances_same m
      · simpa [hnull,hactive] using hrec

theorem Ledger.advances_stop (m : Moment) : Advances t m (t.hook.stop m.text)
    ((TracedCall.stop m).delivers cfg t.hook) where
  ledger := h.stop m
  readPos := h.readPos_stop m

end Calls

section Names
variable {t : Traced} {m : Moment}

theorem take_labelLen (m : Moment) {e : Event Ptr} {p : Ptr} (hp : e.label = some p) :
    (m.text p).take (e.labelLen m.text).toNat = cString (m.text p) := by
  have hlong : strlen (m.text p) ≤ (m.text p).length := (List.takeWhile_prefix _).length_le
  have hname := (m.heap p).fits
  have htext : e.labelText m.text = m.text p := by simp [Event.labelText,hp]
  have hlt : strlen (m.text p) < 2 ^ 32 := by
    simp only [Moment.text,ggmlMaxName] at hlong hname ⊢
    omega
  rw [Event.labelLen,htext,UInt32.toNat_ofNat_of_lt' hlt,← cString_eq_take]

/-- What is written now is what was recorded, exactly if the name is still the same. -/
theorem resolve_eq_iff (x : Event Ptr × Moment) : x.1.resolve m.text = atRecording x ↔
    ∀ p, x.1.label = some p → cString (m.text p) = cString (x.2.text p) := by
  cases hlabel : x.1.label with
  | none =>
    refine iff_of_true ?_ (fun p hp => by cases hp)
    simp [atRecording,Event.resolve,hlabel]
  | some p =>
    have hnow := take_labelLen m hlabel
    have hthen := take_labelLen x.2 hlabel
    simp [atRecording,Event.resolve,hlabel,hnow,hthen]

theorem namesKept_iff : t.NamesKept m ↔
    ∀ x ∈ t.recorded.drop t.hook.readPos, x.1.resolve m.text = atRecording x := by
  constructor
  · intro h x hx
    exact (resolve_eq_iff x).mpr (h x hx)
  · intro h x hx
    exact (resolve_eq_iff x).mp (h x hx)

theorem writeTrace_inj {es fs : List (Event Bytes)} (hes : ∀ e ∈ es, LabelFits e)
    (hfs : ∀ e ∈ fs, LabelFits e) (h : writeTrace id es = writeTrace id fs) : es = fs := by
  have hopen := openFile_writeTrace hes
  rw [h,openFile_writeTrace hfs] at hopen
  have hloaded := congrArg (fun r => r.map TraceReader.events) hopen
  exact (Option.some.inj hloaded).symm

/-- The file is right if and only if each record in it is. -/
theorem labelsAsRecorded_iff (h : Ledger t) : LabelsAsRecorded t ↔
    (∀ x ∈ t.written, x.2 = atRecording x.1) ∧
      ∀ x ∈ t.returned, (t.recorded[x.2]?).map atRecording = some x.1 := by
  constructor
  · intro hl
    refine ⟨?_,hl.consumer⟩
    cases hfile : t.file with
    | none =>
      rw [h.unwritten hfile]
      exact fun x hx => absurd hx List.not_mem_nil
    | some name =>
      have hsame := Option.some.inj ((h.content name hfile).symm.trans (hl.file name hfile))
      have hrecorded : ∀ e ∈ t.written.map (fun x => atRecording x.1), LabelFits e := by
        intro e he
        obtain ⟨x,-,rfl⟩ := List.mem_map.mp he
        exact labelFits_resolve _ _
      have hwritten : ∀ e ∈ t.written.map Prod.snd, LabelFits e := by
        intro e he
        obtain ⟨x,hx,rfl⟩ := List.mem_map.mp he
        exact h.fits x hx
      exact List.map_inj_left.mp (writeTrace_inj hwritten hrecorded hsame)
  · rintro ⟨hwritten,hreturned⟩
    refine ⟨?_,hreturned⟩
    intro name hfile
    rw [h.content name hfile,List.map_congr_left hwritten]

end Names

section Steps
variable {t : Traced} {m : Moment} {s : HookState Ptr} {delivers : Bool}

theorem getElem?_recorded (h : Ledger t) (more : List (Event Ptr × Moment)) {x : Event Bytes × ℕ}
    (hx : x ∈ t.returned) : (t.recorded ++ more)[x.2]? = t.recorded[x.2]? :=
  List.getElem?_append_left (h.returnedAt x hx)

/-- The labels stay right if and only if the names are kept when something is delivered. -/
theorem Advances.labels_iff (h : Ledger t) (ha : Advances t m s delivers) :
    LabelsAsRecorded (t.advance m s) ↔
      LabelsAsRecorded t ∧ (delivers = true → t.NamesKept m) := by
  have hreturned : (∀ x ∈ t.returned, ((t.advance m s).recorded[x.2]?).map atRecording = some x.1) ↔
      ∀ x ∈ t.returned, (t.recorded[x.2]?).map atRecording = some x.1 := by
    apply forall₂_congr
    intro x hx
    rw [Traced.advance,getElem?_recorded h _ hx]
  have hposition : s.writePos = (t.advance m s).recorded.length := ha.ledger.position
  have hread := ha.readPos
  have hwritten : (∀ x ∈ (t.advance m s).written, x.2 = atRecording x.1) ↔
      (∀ x ∈ t.written, x.2 = atRecording x.1) ∧ (delivers = true → t.NamesKept m) := by
    cases delivers with
    | false =>
      rw [if_neg Bool.false_ne_true] at hread
      simp [Traced.advance,hread]
    | true =>
      rw [if_pos rfl,hposition] at hread
      have hlo : t.hook.readPos ≤ t.recorded.length := by
        rw [← h.position]
        exact h.readPos_le
      have hall : ((t.advance m s).recorded.drop t.hook.readPos).take (s.readPos - t.hook.readPos) =
          t.recorded.drop t.hook.readPos ++ (t.hook.storedSince s).map (fun e => (e,m)) := by
        rw [List.take_of_length_le (by rw [List.length_drop,hread]),Traced.advance,
          List.drop_append_of_le_length hlo]
      have hlist : (t.advance m s).written = t.written ++ (t.recorded.drop t.hook.readPos ++
          (t.hook.storedSince s).map (fun e => (e,m))).map (fun x => (x,x.1.resolve m.text)) := by
        rw [← hall]
        rfl
      rw [namesKept_iff,hlist]
      simp only [List.forall_mem_append,List.forall_mem_map,atRecording,implies_true,and_true,
        true_implies]
  rw [labelsAsRecorded_iff ha.ledger,labelsAsRecorded_iff h,hwritten]
  change _ ∧ (∀ x ∈ t.returned, _) ↔ _
  rw [hreturned]
  tauto

/-- A consumer sees what is unread, with the names of this moment. -/
theorem consume_eq (h : Ledger t) (hactive : t.hook.active = true) (cfg : Config) :
    t.step cfg (.consume m) =
      { t with
        hook := { t.hook with readPos := t.hook.writePos }
        returned := t.returned ++
          ((t.recorded.drop t.hook.readPos).map (fun x => x.1.resolve m.text)).zipIdx
            t.hook.readPos } := by
  rw [Traced.step,h.ringLog.consume hactive,← List.map_drop]
  dsimp only
  rw [List.map_map]
  rfl

theorem consume_inactive (hactive : t.hook.active = false) (cfg : Config) :
    t.step cfg (.consume m) = t := by
  rw [Traced.step,HookState.consumeAvailableEvents_inactive hactive]
  simp

theorem Ledger.consume (h : Ledger t) (m : Moment) (cfg : Config) :
    Ledger (t.step cfg (.consume m)) := by
  cases hactive : t.hook.active with
  | false =>
    rw [consume_inactive hactive]
    exact h
  | true =>
    rw [consume_eq h hactive]
    exact
      { position := h.position
        count := h.count
        small := h.small
        window := h.window.advance (by rw [h.position]; simpa using h.window.lo_le)
          (by rw [h.position,List.length_map])
        opened := h.opened
        content := h.content
        unwritten := h.unwritten
        fits := h.fits
        returnedAt := by
          intro x hx
          rcases List.mem_append.mp hx with hx | hx
          · exact h.returnedAt x hx
          · have hlt := List.snd_lt_add_of_mem_zipIdx hx
            rw [List.length_map,List.length_drop] at hlt
            have hle := h.readPos_le
            rw [h.position] at hle
            change x.2 < t.recorded.length
            omega }

theorem consume_labels_iff (h : Ledger t) (m : Moment) (cfg : Config) :
    LabelsAsRecorded (t.step cfg (.consume m)) ↔
      LabelsAsRecorded t ∧ (t.hook.active = true → t.NamesKept m) := by
  cases hactive : t.hook.active with
  | false =>
    rw [consume_inactive hactive]
    simp
  | true =>
    rw [labelsAsRecorded_iff (h.consume m cfg),labelsAsRecorded_iff h,consume_eq h hactive,
      namesKept_iff]
    have hlo : t.hook.readPos ≤ t.recorded.length := by
      rw [← h.position]
      exact h.readPos_le
    have hseen : (∀ x ∈ ((t.recorded.drop t.hook.readPos).map (fun x => x.1.resolve m.text)).zipIdx
        t.hook.readPos, (t.recorded[x.2]?).map atRecording = some x.1) ↔
        ∀ x ∈ t.recorded.drop t.hook.readPos, x.1.resolve m.text = atRecording x := by
      constructor
      · intro hall y hy
        obtain ⟨k,hk⟩ := List.mem_iff_getElem?.mp hy
        have hmem : (y.1.resolve m.text,t.hook.readPos + k) ∈
            ((t.recorded.drop t.hook.readPos).map (fun x => x.1.resolve m.text)).zipIdx
              t.hook.readPos := by
          rw [List.mk_mem_zipIdx_iff_le_and_getElem?_sub,Nat.add_sub_cancel_left,
            List.getElem?_map,hk]
          exact ⟨Nat.le_add_right _ _,rfl⟩
        have hat := hall _ hmem
        rw [← List.getElem?_drop,hk] at hat
        exact (Option.some.inj hat).symm
      · rintro hall ⟨e,i⟩ hx
        rw [List.mk_mem_zipIdx_iff_le_and_getElem?_sub,List.getElem?_map,List.getElem?_drop] at hx
        obtain ⟨hi,hx⟩ := hx
        rw [Nat.add_sub_of_le hi] at hx
        obtain ⟨y,hy,rfl⟩ := Option.map_eq_some_iff.mp hx
        have hmem : y ∈ t.recorded.drop t.hook.readPos := by
          apply List.mem_of_getElem? (i := i - t.hook.readPos)
          rw [List.getElem?_drop,Nat.add_sub_of_le hi]
          exact hy
        rw [hall y hmem,hy]
        rfl
    simp only [List.forall_mem_append,hseen]
    tauto

end Steps

/-- An inactive hook has no file open. -/
def Closed (s : HookState Ptr) : Prop := s.active = false → s.outputFile = none

section Closing
variable {s : HookState Ptr} (h : Closed s)
include h

theorem Closed.flush (text : Ptr → Bytes) : Closed (s.flushToFile text) := by
  obtain ⟨hactive,-,-,-,hout,-⟩ := HookState.flushToFile_fields text s
  intro hinactive
  rw [hout]
  exact h (hactive.symm.trans hinactive)

theorem Closed.stop (text : Ptr → Bytes) : Closed (s.stop text) := by
  cases hactive : s.active with
  | false =>
    rw [HookState.stop_inactive hactive]
    exact h
  | true =>
    intro _
    cases hout : s.outputFile with
    | none => simp [HookState.stop,hactive,hout]
    | some name => simp [HookState.stop,hactive,hout,HookState.fclose]

theorem Closed.recordEvent (text : Ptr → Bytes) (cfg : Config) (e : Event Ptr) :
    Closed (s.recordEvent text cfg e) := by
  cases hactive : s.active with
  | false =>
    rw [HookState.recordEvent_inactive hactive]
    exact h
  | true =>
    have hstore : Closed (s.store e) := fun hinactive => by cases hactive.symm.trans hinactive
    rcases HookState.recordEvent_cases text cfg hactive e with ⟨-,hrec⟩ | ⟨-,-,hrec⟩ | ⟨-,-,hrec⟩
    · rw [hrec]
      exact h.stop text
    · rw [hrec]
      exact h
    · rw [hrec]
      split
      · exact hstore.flush text
      · exact hstore

theorem Closed.start (cfg : Config) (opens : Bool) : Closed (s.start cfg opens) := by
  unfold HookState.start
  split
  · exact h
  · split
    · exact h
    · dsimp only
      split
      · split
        · intro hinactive
          simp [HookState.fopen] at hinactive
        · exact fun _ => rfl
      · exact fun hinactive => by cases hinactive

end Closing

theorem closed_step {t : Traced} (h : Closed t.hook) (cfg : Config) (x : TracedCall) :
    Closed (t.step cfg x).hook := by
  cases x with
  | callback step =>
    change Closed (step.run cfg t.hook)
    rw [HookStep.run_eq]
    cases step.event cfg with
    | none => exact h
    | some e =>
      dsimp only
      have hrec := h.recordEvent step.moment.text cfg e
      split
      · unfold HookState.graphEndFlush
        split
        · exact hrec.flush _
        · exact hrec
      · exact hrec
  | onTensorFree m tensor =>
    change Closed (t.hook.onTensorFree cfg m tensor)
    unfold HookState.onTensorFree
    split
    · exact h
    · split
      · exact h
      · split
        · exact h
        · exact h.recordEvent _ _ _
  | consume m =>
    cases hconsume : t.hook.consumeAvailableEvents with
    | none =>
      rw [Traced.step,hconsume]
      exact h
    | some r =>
      obtain ⟨readPos,hstate⟩ := HookState.consumeAvailableEvents_state hconsume
      rw [Traced.step,hconsume]
      change Closed r.1
      rw [hstate]
      exact h
  | start opens =>
    have hstart := h.start cfg opens
    simp only [Traced.step]
    split <;> exact hstart
  | stop m => exact h.stop m.text

/-- A session starts with a header in its file, if it has one. -/
theorem files_start {s : HookState Ptr} {cfg : Config} (hactive : s.active = false)
    (henabled : cfg.hooksEnabled = true) (hout : s.outputFile = none) (opens : Bool) {name : Bytes}
    (hname : (s.start cfg opens).outputFile = some name) :
    (s.start cfg opens).files name = some (writeTrace id []) := by
  cases hwrite : cfg.output.writeToFile with
  | false =>
    rw [HookState.start_of_inactive henabled hactive,hwrite] at hname
    cases hout.symm.trans hname
  | true =>
    cases opens with
    | false =>
      rw [HookState.start_of_inactive henabled hactive,hwrite] at hname
      cases hname
    | true =>
      rw [start_writing henabled hwrite hactive] at hname ⊢
      cases hname
      exact Function.update_self ..

/-- A new session starts with an empty account. -/
theorem Ledger.start {t : Traced} (h : Ledger t) (hclosed : Closed t.hook) (cfg : Config)
    (opens : Bool) : Ledger (t.step cfg (.start opens)) ∧
      (LabelsAsRecorded t → LabelsAsRecorded (t.step cfg (.start opens))) := by
  by_cases hsame : t.hook.active = true ∨ cfg.hooksEnabled = false
  · have hstep : t.step cfg (.start opens) = t := by
      rw [Traced.step,HookState.start_same hsame,if_pos (by simpa using hsame)]
    rw [hstep]
    exact ⟨h,id⟩
  · obtain ⟨hactive,henabled⟩ := not_or.mp hsame
    rw [Bool.not_eq_true] at hactive
    rw [Bool.not_eq_false] at henabled
    have hring := ringLog_start hactive henabled opens
    let fresh := t.hook.start cfg opens
    have hledger : Ledger ⟨fresh,fresh.outputFile,[],[],[]⟩ :=
      { position := hring.position
        count := hring.count
        small := hring.small
        window := hring.window
        opened := fun _ hname => hname
        content := fun _ hname => files_start hactive henabled (hclosed hactive) opens hname
        unwritten := fun _ => rfl
        fits := fun x hx => absurd hx List.not_mem_nil
        returnedAt := fun x hx => absurd hx List.not_mem_nil }
    rw [Traced.step,if_neg (by simp [hactive,henabled])]
    refine ⟨hledger,fun _ => (labelsAsRecorded_iff hledger).mpr ?_⟩
    exact ⟨fun x hx => absurd hx List.not_mem_nil,fun x hx => absurd hx List.not_mem_nil⟩

section Runs
variable {t : Traced}

theorem Ledger.step (h : Ledger t) (hclosed : Closed t.hook) (cfg : Config) (x : TracedCall) :
    Ledger (t.step cfg x) := by
  cases x with
  | callback step => exact (h.advances_callback cfg step).ledger
  | onTensorFree m tensor => exact (h.advances_onTensorFree cfg m tensor).ledger
  | consume m => exact h.consume m cfg
  | start opens => exact (h.start hclosed cfg opens).1
  | stop m => exact (h.advances_stop cfg m).ledger

/-- One call keeps the labels right exactly if it delivers no event of a renamed tensor. -/
theorem step_labels_iff (h : Ledger t) (hclosed : Closed t.hook) (hlabels : LabelsAsRecorded t)
    (cfg : Config) (x : TracedCall) : LabelsAsRecorded (t.step cfg x) ↔
      ∀ m, x.moment = some m → x.delivers cfg t.hook = true → t.NamesKept m := by
  cases x with
  | callback step =>
    rw [Traced.step,(h.advances_callback cfg step).labels_iff h]
    simp [TracedCall.moment,hlabels]
  | onTensorFree m tensor =>
    rw [Traced.step,(h.advances_onTensorFree cfg m tensor).labels_iff h]
    simp [TracedCall.moment,hlabels]
  | consume m =>
    rw [consume_labels_iff h]
    simp [TracedCall.moment,TracedCall.delivers,hlabels]
  | start opens =>
    refine iff_of_true ((h.start hclosed cfg opens).2 hlabels) ?_
    intro m hm
    cases hm
  | stop m =>
    rw [Traced.step,(h.advances_stop cfg m).labels_iff h]
    simp [TracedCall.moment,hlabels]

/-- All along a run the labels are those of the recording, exactly if no tensor is renamed
while one of its events is unread. -/
theorem labels_run_iff (h : Ledger t) (hclosed : Closed t.hook) (hlabels : LabelsAsRecorded t)
    (calls : List (Config × TracedCall)) :
    (∀ k, LabelsAsRecorded (t.run (calls.take k))) ↔ NamesKeptAlong calls t := by
  induction calls generalizing t with
  | nil => exact iff_of_true (fun _ => by rw [List.take_nil]; exact hlabels) trivial
  | cons x calls ih =>
    have hstep := step_labels_iff h hclosed hlabels x.1 x.2
    have hrest := ih (t := t.step x.1 x.2) (h.step hclosed x.1 x.2) (closed_step hclosed x.1 x.2)
    constructor
    · intro hall
      have hone := hall 1
      exact ⟨hstep.mp hone,(hrest hone).mp (fun k => hall (k + 1))⟩
    · rintro ⟨hkept,halong⟩ k
      have hone := hstep.mpr hkept
      cases k with
      | zero => exact hlabels
      | succ k => exact (hrest hone).mpr halong k

theorem labelsAsRecorded_initial (files : Bytes → Option Bytes) :
    LabelsAsRecorded (Traced.initial files) := by
  apply (labelsAsRecorded_iff (Ledger.initial files)).mpr
  exact ⟨fun x hx => absurd hx List.not_mem_nil,fun x hx => absurd hx List.not_mem_nil⟩

/-- The labels in the file and in the returned events are those of the recording moment in
every state of a run, exactly if no tensor is renamed while one of its events is unread. -/
theorem labelsAsRecorded_run_iff (files : Bytes → Option Bytes) (calls : List (Config × TracedCall)) :
    (∀ k, LabelsAsRecorded ((Traced.initial files).run (calls.take k))) ↔
      NamesKeptAlong calls (Traced.initial files) :=
  labels_run_iff (Ledger.initial files) (fun _ => rfl) (labelsAsRecorded_initial files) calls

end Runs

section Renamed

theorem oneByte_fits (name : UInt8) : [name].length < ggmlMaxName :=
  Nat.lt_of_sub_eq_succ rfl

/-- A moment at which every tensor has this name. -/
def momentNamed (name : UInt8) : Moment where
  now := 7
  threadId := 1
  heap _ := { type := .f32, ne := fun _ => 1, op := 2, name := [name], fits := oneByte_fits name }

/-- A tensor is computed under the name `a`, and is called `b` when the session stops. -/
def renamedBeforeStop : List (Config × TracedCall) :=
  [(Config.defaultConfig,.start true),
    (Config.defaultConfig,.callback (.onOpComputeBegin (momentNamed 97) 128 0)),
    (Config.defaultConfig,.stop (momentNamed 98))]

theorem not_labelsAsRecorded_renamed : ¬∀ (files : Bytes → Option Bytes)
    (calls : List (Config × TracedCall)) (k : ℕ),
      LabelsAsRecorded ((Traced.initial files).run (calls.take k)) := by
  intro h
  let files : Bytes → Option Bytes := fun _ => none
  have halong := (labels_run_iff (Ledger.initial files) (fun _ => rfl)
    (labelsAsRecorded_initial files) renamedBeforeStop).mp (h files renamedBeforeStop)
  have hkept : ((Traced.initial files).run (renamedBeforeStop.take 2)).NamesKept (momentNamed 98) :=
    halong.2.2.1 _ rfl (by decide +kernel)
  exact absurd hkept (by decide +kernel)

end Renamed
end GgmlViz
