import GgmlViz.Trace.Format
import GgmlViz.Config.Config
import Mathlib.Logic.Function.Basic

/-! # The state of the hook

The members of the `GGMLHook` singleton and the files behind its `FILE*`. The positions
are 64-bit counters that never wrap to the buffer size; a slot is a position masked.
-/
namespace GgmlViz
open LittleEndian
variable {L : Type}

/-- `BUFFER_SIZE`. -/
def bufferSize : ℕ := 65536

/-- The slot of a position in `event_buffer_`. -/
def slot (i : ℕ) : ℕ := i &&& (bufferSize - 1)

theorem slot_eq_mod (i : ℕ) : slot i = i % bufferSize :=
  Nat.and_two_pow_sub_one_eq_mod i 16

/-- One more, in a 64-bit counter. -/
def increment (n : ℕ) : ℕ := (n + 1) % 2 ^ 64

theorem increment_of_lt {n : ℕ} (h : n + 1 < 2 ^ 64) : increment n = n + 1 := Nat.mod_eq_of_lt h

structure HookState (L : Type) where
  active : Bool
  eventCount : ℕ
  eventBuffer : ℕ → Event L
  writePos : ℕ
  readPos : ℕ
  droppedEvents : ℕ
  /-- The name under which `output_file_` was opened. -/
  outputFile : Option Bytes
  /-- The content of every file that exists, with what the stream of the open one holds back. -/
  files : Bytes → Option Bytes

namespace HookState

/-- `Event event = {}`. -/
def zeroEvent : Event L :=
  { type := ⟨0⟩, timestampNs := 0, threadId := 0,
    data := ⟨List.replicate 32 0,by simp⟩, label := none }

/-- The singleton after its constructor, in a file system. -/
def initial (files : Bytes → Option Bytes) : HookState L :=
  { active := false, eventCount := 0, eventBuffer := fun _ => zeroEvent, writePos := 0,
    readPos := 0, droppedEvents := 0, outputFile := none, files := files }

/-- `fopen(name, "wb")` when it succeeds: the file is there and empty. -/
def fopen (name : Bytes) (s : HookState L) : HookState L :=
  { s with outputFile := some name, files := Function.update s.files name (some []) }

/-- `fwrite` to `output_file_`. The stream may hold it back until `fflush` or `fclose`. -/
def fwrite (bs : Bytes) (s : HookState L) : HookState L :=
  match s.outputFile with
  | none => s
  | some name =>
    { s with files := Function.update s.files name (some ((s.files name).getD [] ++ bs)) }

/-- `fclose(output_file_); output_file_ = nullptr`. -/
def fclose (s : HookState L) : HookState L := { s with outputFile := none }

section Fields
variable (bs : Bytes) (name : Bytes) (s : HookState L)

@[simp] theorem fwrite_active : (s.fwrite bs).active = s.active := by unfold fwrite; split <;> rfl
@[simp] theorem fwrite_eventCount : (s.fwrite bs).eventCount = s.eventCount := by
  unfold fwrite; split <;> rfl
@[simp] theorem fwrite_eventBuffer : (s.fwrite bs).eventBuffer = s.eventBuffer := by
  unfold fwrite; split <;> rfl
@[simp] theorem fwrite_writePos : (s.fwrite bs).writePos = s.writePos := by
  unfold fwrite; split <;> rfl
@[simp] theorem fwrite_readPos : (s.fwrite bs).readPos = s.readPos := by
  unfold fwrite; split <;> rfl
@[simp] theorem fwrite_droppedEvents : (s.fwrite bs).droppedEvents = s.droppedEvents := by
  unfold fwrite; split <;> rfl
@[simp] theorem fwrite_outputFile : (s.fwrite bs).outputFile = s.outputFile := by
  unfold fwrite; split <;> simp_all

theorem fwrite_files (h : s.outputFile = some name) :
    (s.fwrite bs).files name = some ((s.files name).getD [] ++ bs) := by
  simp [fwrite,h]

theorem fwrite_fwrite (bs cs : Bytes) : (s.fwrite bs).fwrite cs = s.fwrite (bs ++ cs) := by
  cases h : s.outputFile with
  | none => simp [fwrite,h]
  | some name => simp [fwrite,h]

end Fields
end HookState
end GgmlViz
