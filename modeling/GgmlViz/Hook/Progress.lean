import GgmlViz.Hook.Override

/-! # The progress of the hook

Which events the hook stores depends on its counters alone, never on what the events say.
The counters of an active hook step on their own, and the hook refines them.
-/
namespace GgmlViz
open LittleEndian

/-- The counters of an active hook. -/
structure Progress where
  eventCount : ℕ
  writePos : ℕ
  readPos : ℕ
  /-- A flush has a file to write to. -/
  flushes : Bool
  deriving DecidableEq

namespace Progress
variable (cfg : Config)

def flush (p : Progress) : Progress :=
  if p.flushes then { p with readPos := p.readPos + (p.writePos - p.readPos) } else p

/-- A further event is stored. -/
def takes (p : Progress) : Bool :=
  p.eventCount < cfg.instrumentation.maxEvents.toNat &&
    slot (increment p.writePos) ≠ slot p.readPos

/-- An event is offered; at the limit the hook stops. -/
def record (p : Progress) : Option Progress :=
  if cfg.instrumentation.maxEvents.toNat ≤ p.eventCount then none
  else if slot (increment p.writePos) = slot p.readPos then some p
  else
    let p := { p with
      writePos := increment p.writePos
      eventCount := increment p.eventCount }
    some (if p.eventCount &&& 0xFFF = 0 then p.flush else p)

/-- The end of a graph is offered, with the flush behind it. -/
def recordGraphEnd (p : Progress) : Option Progress := (p.record cfg).map flush

def started (opens : Bool) : Option Progress :=
  if !cfg.hooksEnabled then none
  else if cfg.output.writeToFile && !opens then none
  else some { eventCount := 0, writePos := 0, readPos := 0, flushes := cfg.output.writeToFile }

/-- So many further events are stored in a row. -/
def takesMore : ℕ → Option Progress → Bool
  | 0, _ => true
  | _ + 1, none => false
  | n + 1, some p => p.takes cfg && takesMore n (p.record cfg)

end Progress

namespace HookState
variable {L : Type} (cfg : Config)

/-- The counters, unless the hook is inactive. -/
def progress (s : HookState L) : Option Progress :=
  if s.active then
    some
      { eventCount := s.eventCount
        writePos := s.writePos
        readPos := s.readPos
        flushes := cfg.output.writeToFile && s.outputFile.isSome }
  else none

/-- The event that was stored between two states, one call of `record_event` apart. -/
def storedSince (s t : HookState L) : List (Event L) :=
  if t.writePos = s.writePos then [] else [t.eventBuffer (slot s.writePos)]

def store (e : Event L) (s : HookState L) : HookState L :=
  { s with
    eventBuffer := Function.update s.eventBuffer (slot s.writePos) e
    writePos := increment s.writePos
    eventCount := increment s.eventCount }

end HookState

section Refinement
variable {L : Type} {text : L → Bytes} {cfg : Config} {s : HookState L}

namespace HookState

theorem progress_inactive (h : s.active = false) : s.progress cfg = none := by simp [progress,h]

theorem flushLoop_fields (text : L → Bytes) (n r : ℕ) (s : HookState L) :
    (s.flushLoop text n r).1.active = s.active ∧
    (s.flushLoop text n r).1.eventCount = s.eventCount ∧
    (s.flushLoop text n r).1.eventBuffer = s.eventBuffer ∧
    (s.flushLoop text n r).1.writePos = s.writePos ∧
    (s.flushLoop text n r).1.outputFile = s.outputFile ∧
    (s.flushLoop text n r).2 = r + n := by
  induction n generalizing r s with
  | zero => exact ⟨rfl,rfl,rfl,rfl,rfl,rfl⟩
  | succ n ih =>
    rw [flushLoop,fwriteEvent_eq]
    have hnext := ih (r + 1) (s.fwrite ((s.eventBuffer (slot r)).encode text))
    simp only [fwrite_active,fwrite_eventCount,fwrite_eventBuffer,fwrite_writePos,
      fwrite_outputFile] at hnext
    rw [Nat.add_assoc,Nat.add_comm 1] at hnext
    exact hnext

/-- A flush moves the read position and leaves the other members alone. -/
theorem flushToFile_fields (text : L → Bytes) (s : HookState L) :
    (s.flushToFile text).active = s.active ∧
    (s.flushToFile text).eventCount = s.eventCount ∧
    (s.flushToFile text).eventBuffer = s.eventBuffer ∧
    (s.flushToFile text).writePos = s.writePos ∧
    (s.flushToFile text).outputFile = s.outputFile ∧
    (s.flushToFile text).readPos =
      if s.outputFile.isSome then s.readPos + (s.writePos - s.readPos) else s.readPos := by
  unfold flushToFile
  cases hfile : s.outputFile with
  | none => exact ⟨rfl,rfl,rfl,rfl,hfile,rfl⟩
  | some name =>
    obtain ⟨hactive,hcount,hbuffer,hwrite,hout,hread⟩ :=
      flushLoop_fields text (s.writePos - s.readPos) s.readPos s
    exact ⟨hactive,hcount,hbuffer,hwrite,hout.trans hfile,hread⟩

theorem progress_flushToFile (hwrite : cfg.output.writeToFile = true) (s : HookState L) :
    (s.flushToFile text).progress cfg = (s.progress cfg).map Progress.flush := by
  obtain ⟨hactive,hcount,-,hpos,hout,hread⟩ := flushToFile_fields text s
  cases hs : s.active with
  | false => simp [progress,hactive,hs]
  | true =>
    cases hfile : s.outputFile <;>
      simp [progress,hactive,hs,hcount,hpos,hout,hread,hfile,hwrite,Progress.flush]

theorem stop_active (s : HookState L) : (s.stop text).active = false := by
  unfold stop
  cases hs : s.active with
  | false => simpa using hs
  | true =>
    dsimp only
    split
    · next hactive => cases hactive
    · split
      · exact (flushToFile_fields text { s with active := false }).1
      · rfl

theorem stop_writePos (s : HookState L) : (s.stop text).writePos = s.writePos := by
  unfold stop
  split
  · rfl
  · dsimp only
    split
    · obtain ⟨-,-,-,hpos,-⟩ := flushToFile_fields text { s with active := false }
      exact hpos
    · rfl

/-- Everything that `record_event` can do to an active hook. -/
theorem recordEvent_cases (text : L → Bytes) (cfg : Config) (hs : s.active = true)
    (e : Event L) :
    (cfg.instrumentation.maxEvents.toNat ≤ s.eventCount ∧
      s.recordEvent text cfg e = s.stop text) ∨
    (s.eventCount < cfg.instrumentation.maxEvents.toNat ∧
      slot (increment s.writePos) = slot s.readPos ∧
      s.recordEvent text cfg e = { s with droppedEvents := increment s.droppedEvents }) ∨
    (s.eventCount < cfg.instrumentation.maxEvents.toNat ∧
      slot (increment s.writePos) ≠ slot s.readPos ∧
      s.recordEvent text cfg e =
        if cfg.output.writeToFile && increment s.eventCount &&& 0xFFF = 0 then
          (s.store e).flushToFile text
        else s.store e) := by
  by_cases hmax : cfg.instrumentation.maxEvents.toNat ≤ s.eventCount
  · exact .inl ⟨hmax,by simp [recordEvent,hs,hmax]⟩
  · have hbelow : s.eventCount < cfg.instrumentation.maxEvents.toNat := by omega
    by_cases hfull : slot (increment s.writePos) = slot s.readPos
    · exact .inr (.inl ⟨hbelow,hfull,by simp [recordEvent,hs,hmax,hfull]⟩)
    · exact .inr (.inr ⟨hbelow,hfull,by simp [recordEvent,hs,hmax,hfull,store]⟩)

theorem progress_recordEvent (e : Event L) (s : HookState L) :
    (s.recordEvent text cfg e).progress cfg = (s.progress cfg).bind (Progress.record cfg) := by
  cases hs : s.active with
  | false => simp [recordEvent_inactive hs,progress_inactive hs]
  | true =>
    have hprogress : s.progress cfg = some
        { eventCount := s.eventCount, writePos := s.writePos, readPos := s.readPos
          flushes := cfg.output.writeToFile && s.outputFile.isSome } := by
      simp [progress,hs]
    rw [hprogress,Option.bind_some,Progress.record]
    rcases recordEvent_cases text cfg hs e with
      ⟨hmax,h⟩ | ⟨hbelow,hfull,h⟩ | ⟨hbelow,hfree,h⟩
    · rw [h,progress_inactive (stop_active s),if_pos hmax]
    · rw [h,if_neg (Nat.not_le.mpr hbelow),if_pos hfull]
      simp [progress,hs]
    · rw [h,if_neg (Nat.not_le.mpr hbelow),if_neg hfree]
      have hstore : (s.store e).progress cfg = some
          { eventCount := increment s.eventCount, writePos := increment s.writePos
            readPos := s.readPos
            flushes := cfg.output.writeToFile && s.outputFile.isSome } := by
        simp [progress,store,hs]
      by_cases hcount : increment s.eventCount &&& 0xFFF = 0
      · cases hwrite : cfg.output.writeToFile with
        | false => simpa [hwrite,Progress.flush] using hstore
        | true =>
          rw [if_pos (by simp [hcount]),progress_flushToFile hwrite,hstore]
          simp [hwrite,hcount]
      · rw [if_neg (by simp [hcount]),hstore]
        simp [hcount]

theorem increment_ne (n : ℕ) : increment n ≠ n := by
  unfold increment
  omega

/-- What a call of `record_event` stores is decided by the counters. -/
theorem storedSince_recordEvent (e : Event L) (s : HookState L) :
    s.storedSince (s.recordEvent text cfg e) =
      if (s.progress cfg).any (Progress.takes cfg) then [e] else [] := by
  cases hs : s.active with
  | false => simp [recordEvent_inactive hs,progress_inactive hs,storedSince]
  | true =>
    rcases recordEvent_cases text cfg hs e with
      ⟨hmax,h⟩ | ⟨hbelow,hfull,h⟩ | ⟨hbelow,hfree,h⟩
    · rw [h,storedSince,if_pos (stop_writePos s)]
      simp [progress,hs,Progress.takes,hmax]
    · rw [h,storedSince,if_pos rfl]
      simp [progress,hs,Progress.takes,hfull]
    · have hstore : s.storedSince (s.store e) = [e] := by simp [storedSince,store,increment_ne]
      obtain ⟨-,-,hbuffer,hpos,-⟩ := flushToFile_fields text (s.store e)
      have hflush : s.storedSince ((s.store e).flushToFile text) = s.storedSince (s.store e) := by
        simp only [storedSince,hbuffer,hpos]
      have htakes : (s.progress cfg).any (Progress.takes cfg) = true := by
        simp [progress,hs,Progress.takes,hbelow,hfree]
      rw [h,if_pos htakes]
      split
      · rw [hflush,hstore]
      · exact hstore

theorem progress_graphEndFlush (s : HookState L) :
    (s.graphEndFlush text cfg).progress cfg = (s.progress cfg).map Progress.flush := by
  unfold graphEndFlush
  cases hwrite : cfg.output.writeToFile with
  | true => exact progress_flushToFile hwrite s
  | false => cases hs : s.active <;> simp [progress,hs,hwrite,Progress.flush]

theorem storedSince_graphEndFlush (s t : HookState L) :
    s.storedSince (t.graphEndFlush text cfg) = s.storedSince t := by
  unfold graphEndFlush
  split
  · obtain ⟨-,-,hbuffer,hpos,-⟩ := flushToFile_fields text t
    simp only [storedSince,hbuffer,hpos]
  · rfl

theorem progress_start (hs : s.active = false) (opens : Bool) :
    (s.start cfg opens).progress cfg = Progress.started cfg opens := by
  unfold Progress.started
  cases henabled : cfg.hooksEnabled with
  | true =>
    rw [start_of_inactive henabled hs]
    cases hwrite : cfg.output.writeToFile <;> cases opens <;> simp [progress,hwrite,fopen]
  | false =>
    rw [start_same (Or.inr henabled)]
    simp [progress,hs]

end HookState
end Refinement
end GgmlViz
