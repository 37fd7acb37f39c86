import GgmlViz.Foundation.Keyed
import GgmlViz.Trace.Event
import Mathlib.Data.List.Induction
import Mathlib.Algebra.BigOperators.Group.List.Basic

/-! # The memory statistics

`update_memory_stats` walks over the events with a map of live allocations and a set of
freed pointers. All pointers share the two tables, but every pointer is treated on its own:
what the tables say about it is what its own last events say.
-/
namespace GgmlViz
open LittleEndian Keyed
variable {L : Type}

/-- `TraceReader::MemoryStats`. -/
structure MemoryStats where
  totalAllocations : UInt64 := 0
  totalFrees : UInt64 := 0
  bytesAllocated : UInt64 := 0
  bytesFreed : UInt64 := 0
  currentUsage : UInt64 := 0
  peakUsage : UInt64 := 0
  leakedBytes : UInt64 := 0
  firstAllocTime : UInt64 := 0
  lastFreeTime : UInt64 := 0
  deriving DecidableEq, Repr

/-- What is printed about a free event. -/
inductive MemoryWarning
  | doubleFree (ptr : Ptr)
  | freeWithoutAlloc (ptr : Ptr)
  deriving DecidableEq, Repr

/-- The members that `update_memory_stats` works on, and what it has printed. -/
structure MemoryState where
  stats : MemoryStats := {}
  allocations : AList (fun _ : Ptr => UInt64) := ∅
  freedPointers : Finset Ptr := ∅
  currentUsage : UInt64 := 0
  warnings : List MemoryWarning := []

namespace MemoryState

def onAlloc (ptr : Ptr) (size timestampNs : UInt64) (s : MemoryState) : MemoryState :=
  let stats := { s.stats with
    totalAllocations := s.stats.totalAllocations + 1
    bytesAllocated := s.stats.bytesAllocated + size
    firstAllocTime := if s.stats.firstAllocTime = 0 then timestampNs else s.stats.firstAllocTime }
  -- a freed pointer may be allocated again
  let freedPointers := s.freedPointers.erase ptr
  let currentUsage := s.currentUsage + size
  { s with
    stats := { stats with
      peakUsage := if stats.peakUsage < currentUsage then currentUsage else stats.peakUsage }
    freedPointers := freedPointers
    allocations := s.allocations.insert ptr size
    currentUsage := currentUsage }

def onFree (ptr : Ptr) (timestampNs : UInt64) (s : MemoryState) : MemoryState :=
  let stats := { s.stats with
    totalFrees := s.stats.totalFrees + 1
    lastFreeTime := timestampNs }
  if ptr ∈ s.freedPointers then
    { s with stats := stats, warnings := s.warnings ++ [.doubleFree ptr] }
  else
    match s.allocations.lookup ptr with
    | some size =>
      { s with
        stats := { stats with bytesFreed := stats.bytesFreed + size }
        currentUsage := s.currentUsage - size
        allocations := s.allocations.erase ptr
        freedPointers := insert ptr s.freedPointers }
    | none => { s with stats := stats, warnings := s.warnings ++ [.freeWithoutAlloc ptr] }

/-- The body of the loop over the events. -/
def step (s : MemoryState) (e : Event L) : MemoryState :=
  if e.type = .tensorAlloc then s.onAlloc e.data.memory.ptr e.data.memory.size e.timestampNs
  else if e.type = .tensorFree then s.onFree e.data.memory.ptr e.timestampNs
  else s

def after (events : List (Event L)) : MemoryState := events.foldl step {}

end MemoryState

/-- `update_memory_stats`. -/
def updateMemoryStats (events : List (Event L)) : MemoryState :=
  let s := MemoryState.after events
  { s with
    stats := { s.stats with
      currentUsage := s.currentUsage
      leakedBytes := s.allocations.entries.foldl (fun leaked pair => leaked + pair.2) 0 } }

/-- `get_memory_stats`, at its first call. -/
def getMemoryStats (events : List (Event L)) : MemoryStats := (updateMemoryStats events).stats

inductive MemoryOp
  | alloc (size : UInt64)
  | free
  deriving DecidableEq, Repr

def Event.memoryOp (e : Event L) : Option (Ptr × MemoryOp) :=
  if e.type = .tensorAlloc then some (e.data.memory.ptr,.alloc e.data.memory.size)
  else if e.type = .tensorFree then some (e.data.memory.ptr,.free)
  else none

def memoryOps (events : List (Event L)) : List (Ptr × MemoryOp) := events.filterMap Event.memoryOp

def opsOn (ptr : Ptr) (events : List (Event L)) : List MemoryOp := onKey ptr (memoryOps events)

/-- The pointers that are allocated or freed. -/
def memoryPointers (events : List (Event L)) : Finset Ptr :=
  ((memoryOps events).map Prod.fst).toFinset

namespace MemoryOp

def size : MemoryOp → ℕ
  | .alloc size => size.toNat
  | .free => 0

def freedNext : MemoryOp × MemoryOp → ℕ
  | (.alloc size,.free) => size.toNat
  | _ => 0

def overwrittenNext : MemoryOp × MemoryOp → ℕ
  | (.alloc size,.alloc _) => size.toNat
  | _ => 0

variable (ops : List MemoryOp)

def allocatedBytes : ℕ := (ops.map size).sum

/-- The sizes of the allocations that are directly followed by a free. -/
def freedBytes : ℕ := ((neighbours ops).map freedNext).sum

/-- The sizes of the allocations that are directly followed by another one. -/
def overwrittenBytes : ℕ := ((neighbours ops).map overwrittenNext).sum

/-- The size of the allocation that comes last. -/
def liveBytes : ℕ := (ops.getLast?.map size).getD 0

@[simp] theorem allocatedBytes_concat (op : MemoryOp) :
    allocatedBytes (ops ++ [op]) = allocatedBytes ops + op.size := by
  simp [allocatedBytes]

/-- A free event frees what is live. -/
@[simp] theorem freedBytes_free : freedBytes (ops ++ [.free]) = freedBytes ops + liveBytes ops := by
  rw [freedBytes,neighbours_concat,List.map_append,List.sum_append,← freedBytes,liveBytes]
  cases ops.getLast? with
  | none => rfl
  | some last => cases last <;> simp [freedNext,size]

@[simp] theorem freedBytes_alloc (n : UInt64) :
    freedBytes (ops ++ [.alloc n]) = freedBytes ops := by
  rw [freedBytes,neighbours_concat,List.map_append,List.sum_append,← freedBytes]
  cases ops.getLast? with
  | none => rfl
  | some last => cases last <;> simp [freedNext]

@[simp] theorem overwrittenBytes_free :
    overwrittenBytes (ops ++ [.free]) = overwrittenBytes ops := by
  rw [overwrittenBytes,neighbours_concat,List.map_append,List.sum_append,← overwrittenBytes]
  cases ops.getLast? with
  | none => rfl
  | some last => cases last <;> simp [overwrittenNext]

/-- An allocation overwrites what is live. -/
@[simp] theorem overwrittenBytes_alloc (n : UInt64) :
    overwrittenBytes (ops ++ [.alloc n]) = overwrittenBytes ops + liveBytes ops := by
  rw [overwrittenBytes,neighbours_concat,List.map_append,List.sum_append,← overwrittenBytes,
    liveBytes]
  cases ops.getLast? with
  | none => rfl
  | some last => cases last <;> simp [overwrittenNext,size]

@[simp] theorem liveBytes_concat (op : MemoryOp) : liveBytes (ops ++ [op]) = op.size := by
  simp [liveBytes]

/-- An allocation is freed next, overwritten next, or the last event on its pointer. -/
theorem allocatedBytes_eq :
    allocatedBytes ops = freedBytes ops + overwrittenBytes ops + liveBytes ops := by
  induction ops using List.reverseRecOn with
  | nil => rfl
  | append_singleton ops op ih =>
    rw [allocatedBytes_concat,liveBytes_concat,ih]
    cases op with
    | alloc n =>
      rw [freedBytes_alloc,overwrittenBytes_alloc]
      omega
    | free =>
      rw [freedBytes_free,overwrittenBytes_free]
      simp only [size]
      omega

end MemoryOp

/-- Sums of UInt64 values in a loop are sums modulo 2^64. -/
theorem toNat_foldl_add (pairs : List (Σ _ : Ptr, UInt64)) (start : UInt64) :
    (pairs.foldl (fun sum pair => sum + pair.2) start).toNat =
      (start.toNat + (pairs.map (fun pair => pair.2.toNat)).sum) % 2 ^ 64 := by
  induction pairs generalizing start with
  | nil => simp [Nat.mod_eq_of_lt start.toNat_lt]
  | cons pair pairs ih =>
    rw [List.foldl_cons,ih,List.map_cons,List.sum_cons,UInt64.toNat_add]
    omega

section Simulation
variable {events : List (Event L)} {s : MemoryState} {ops : List (Ptr × MemoryOp)}
  {keys : Finset Ptr} {ptr : Ptr}

theorem memoryOps_concat (events : List (Event L)) (e : Event L) :
    memoryOps (events ++ [e]) = memoryOps events ++ e.memoryOp.toList := by
  rw [memoryOps,List.filterMap_append]
  cases h : e.memoryOp <;> simp [h,memoryOps]

/-- Everything that the loop can do with an event. -/
theorem MemoryState.step_cases (e : Event L) :
    (e.memoryOp = none ∧ ∀ s, step s e = s) ∨
    (∃ size, e.memoryOp = some (e.data.memory.ptr,.alloc size) ∧
      ∀ s, step s e = s.onAlloc e.data.memory.ptr size e.timestampNs) ∨
    (e.memoryOp = some (e.data.memory.ptr,.free) ∧
      ∀ s, step s e = s.onFree e.data.memory.ptr e.timestampNs) := by
  by_cases halloc : e.type = .tensorAlloc
  · exact .inr (.inl ⟨e.data.memory.size,by simp [Event.memoryOp,halloc],
      fun s => by simp [step,halloc]⟩)
  · by_cases hfree : e.type = .tensorFree
    · have hne : EventType.tensorFree ≠ .tensorAlloc := by decide
      exact .inr (.inr ⟨by simp [Event.memoryOp,hfree,hne],fun s => by simp [step,hfree,hne]⟩)
    · exact .inl ⟨by simp [Event.memoryOp,halloc,hfree],fun s => by simp [step,halloc,hfree]⟩

/-- The tables say of each pointer what its last events say, and the sums are those over all
pointers. -/
structure Tracks (keys : Finset Ptr) (ops : List (Ptr × MemoryOp)) (s : MemoryState) : Prop where
  live : ∀ ptr size, s.allocations.lookup ptr = some size ↔
    (onKey ptr ops).getLast? = some (.alloc size)
  freed : ∀ ptr, ptr ∈ s.freedPointers ↔
    (onKey ptr ops).getLast? = some .free ∧ ∃ size, .alloc size ∈ onKey ptr ops
  allocated : s.stats.bytesAllocated.toNat =
    (∑ ptr ∈ keys, MemoryOp.allocatedBytes (onKey ptr ops)) % 2 ^ 64
  bytesFreed : s.stats.bytesFreed.toNat =
    (∑ ptr ∈ keys, MemoryOp.freedBytes (onKey ptr ops)) % 2 ^ 64
  current : s.currentUsage = s.stats.bytesAllocated - s.stats.bytesFreed

namespace Tracks

theorem init (keys : Finset Ptr) : Tracks keys [] {} := by
  exact
    { live := by simp
      freed := by simp
      allocated := by simp [MemoryOp.allocatedBytes]
      bytesFreed := by simp [MemoryOp.freedBytes,neighbours]
      current := rfl }

theorem lookup_eq_none (h : Tracks keys ops s) (hfreed : ptr ∈ s.freedPointers) :
    s.allocations.lookup ptr = none := by
  cases hlookup : s.allocations.lookup ptr with
  | none => rfl
  | some size =>
    have hlast := (h.live ptr size).mp hlookup
    cases hlast.symm.trans ((h.freed ptr).mp hfreed).1

/-- A pointer that is in neither table has never been allocated. -/
theorem alloc_notMem (h : Tracks keys ops s) (hfreed : ptr ∉ s.freedPointers)
    (hlive : s.allocations.lookup ptr = none) (size : UInt64) : .alloc size ∉ onKey ptr ops := by
  intro hmem
  cases hlast : (onKey ptr ops).getLast? with
  | none =>
    rw [List.getLast?_eq_none_iff.mp hlast] at hmem
    cases hmem
  | some last =>
    cases last with
    | alloc n => cases hlive.symm.trans ((h.live ptr n).mpr hlast)
    | free => exact hfreed ((h.freed ptr).mpr ⟨hlast,size,hmem⟩)

theorem liveBytes_eq (h : Tracks keys ops s) (ptr : Ptr) :
    MemoryOp.liveBytes (onKey ptr ops) =
      ((s.allocations.lookup ptr).map UInt64.toNat).getD 0 := by
  unfold MemoryOp.liveBytes
  cases hlookup : s.allocations.lookup ptr with
  | some size =>
    rw [(h.live ptr size).mp hlookup]
    rfl
  | none =>
    cases hlast : (onKey ptr ops).getLast? with
    | none => rfl
    | some last =>
      cases last with
      | alloc size => cases hlookup.symm.trans ((h.live ptr size).mpr hlast)
      | free => rfl

theorem onAlloc (h : Tracks keys ops s) (hptr : ptr ∈ keys) (size timestampNs : UInt64) :
    Tracks keys (ops ++ [(ptr,.alloc size)]) (s.onAlloc ptr size timestampNs) := by
  have hsum := sum_onKey_concat (x := (ptr,.alloc size)) hptr MemoryOp.allocatedBytes ops
  have hfreed := sum_onKey_concat (x := (ptr,.alloc size)) hptr MemoryOp.freedBytes ops
  exact
    { live := by
        intro q n
        by_cases hq : ptr = q
        · subst hq
          simp [MemoryState.onAlloc,onKey_concat]
        · simp [MemoryState.onAlloc,onKey_concat,hq,AList.lookup_insert_ne (Ne.symm hq),h.live]
      freed := by
        intro q
        by_cases hq : ptr = q
        · subst hq
          simp [MemoryState.onAlloc,onKey_concat]
        · simp [MemoryState.onAlloc,onKey_concat,hq,Ne.symm hq,h.freed]
      allocated := by
        simp only [MemoryOp.allocatedBytes_concat,MemoryOp.size] at hsum
        simp only [MemoryState.onAlloc,UInt64.toNat_add,h.allocated]
        omega
      bytesFreed := by
        simp only [MemoryOp.freedBytes_alloc,Nat.add_right_cancel_iff] at hfreed
        simp only [MemoryState.onAlloc,h.bytesFreed,hfreed]
      current := by
        simp only [MemoryState.onAlloc,h.current]
        grind }

theorem sum_allocatedBytes_free (hptr : ptr ∈ keys) (ops : List (Ptr × MemoryOp)) :
    ∑ q ∈ keys, MemoryOp.allocatedBytes (onKey q (ops ++ [(ptr,.free)])) =
      ∑ q ∈ keys, MemoryOp.allocatedBytes (onKey q ops) := by
  have hsum := sum_onKey_concat (x := (ptr,.free)) hptr MemoryOp.allocatedBytes ops
  simpa [MemoryOp.size] using hsum

/-- A free event frees what the table has of its pointer. -/
theorem sum_freedBytes_free (h : Tracks keys ops s) (hptr : ptr ∈ keys) :
    ∑ q ∈ keys, MemoryOp.freedBytes (onKey q (ops ++ [(ptr,.free)])) =
      ∑ q ∈ keys, MemoryOp.freedBytes (onKey q ops) +
        ((s.allocations.lookup ptr).map UInt64.toNat).getD 0 := by
  have hsum := sum_onKey_concat (x := (ptr,.free)) hptr MemoryOp.freedBytes ops
  rw [MemoryOp.freedBytes_free,h.liveBytes_eq] at hsum
  dsimp only at hsum
  omega

/-- A free event that finds its pointer in no table or among the freed ones. -/
theorem onFree_ignored (h : Tracks keys ops s) (hptr : ptr ∈ keys)
    (hlive : s.allocations.lookup ptr = none) {t : MemoryState}
    (hallocations : t.allocations = s.allocations) (hfreed : t.freedPointers = s.freedPointers)
    (hallocated : t.stats.bytesAllocated = s.stats.bytesAllocated)
    (hbytes : t.stats.bytesFreed = s.stats.bytesFreed)
    (hcurrent : t.currentUsage = s.currentUsage) :
    Tracks keys (ops ++ [(ptr,.free)]) t := by
  have hsumFreed := h.sum_freedBytes_free hptr
  simp only [hlive,Option.map_none,Option.getD_none,Nat.add_zero] at hsumFreed
  exact
    { live := by
        intro q n
        by_cases hq : ptr = q
        · subst hq
          simp [hallocations,hlive,onKey_concat]
        · simp [hallocations,onKey_concat,hq,h.live]
      freed := by
        intro q
        by_cases hq : ptr = q
        · subst hq
          have hmem : ptr ∈ s.freedPointers ↔ ∃ size, .alloc size ∈ onKey ptr ops := by
            constructor
            · intro hp
              exact ((h.freed ptr).mp hp).2
            · rintro ⟨size,hsize⟩
              by_contra hp
              exact h.alloc_notMem hp hlive size hsize
          simpa [hfreed,onKey_concat] using hmem
        · simp [hfreed,onKey_concat,hq,h.freed]
      allocated := by rw [hallocated,h.allocated,sum_allocatedBytes_free hptr]
      bytesFreed := by rw [hbytes,h.bytesFreed,hsumFreed]
      current := by rw [hcurrent,hallocated,hbytes,h.current] }

theorem onFree_live (h : Tracks keys ops s) (hptr : ptr ∈ keys) {size : UInt64}
    (hlive : s.allocations.lookup ptr = some size) (timestampNs : UInt64) :
    Tracks keys (ops ++ [(ptr,.free)])
      { s with
        stats := { s.stats with
          totalFrees := s.stats.totalFrees + 1
          lastFreeTime := timestampNs
          bytesFreed := s.stats.bytesFreed + size }
        currentUsage := s.currentUsage - size
        allocations := s.allocations.erase ptr
        freedPointers := insert ptr s.freedPointers } := by
  have hsumFreed := h.sum_freedBytes_free hptr
  simp only [hlive,Option.map_some,Option.getD_some] at hsumFreed
  exact
    { live := by
        intro q n
        by_cases hq : ptr = q
        · subst hq
          simp [onKey_concat]
        · simp [onKey_concat,hq,AList.lookup_erase_ne (Ne.symm hq),h.live]
      freed := by
        intro q
        by_cases hq : ptr = q
        · subst hq
          have hmem := List.mem_of_getLast? ((h.live ptr size).mp hlive)
          simpa [onKey_concat] using ⟨size,hmem⟩
        · simp [onKey_concat,hq,Ne.symm hq,h.freed]
      allocated := by rw [h.allocated,sum_allocatedBytes_free hptr]
      bytesFreed := by
        simp only [UInt64.toNat_add,h.bytesFreed]
        omega
      current := by
        simp only [h.current]
        grind }

theorem onFree (h : Tracks keys ops s) (hptr : ptr ∈ keys) (timestampNs : UInt64) :
    Tracks keys (ops ++ [(ptr,.free)]) (s.onFree ptr timestampNs) := by
  unfold MemoryState.onFree
  dsimp only
  split
  · next hfreed => exact h.onFree_ignored hptr (h.lookup_eq_none hfreed) rfl rfl rfl rfl rfl
  · split
    · next size hlookup => exact h.onFree_live hptr hlookup timestampNs
    · next hlookup => exact h.onFree_ignored hptr hlookup rfl rfl rfl rfl rfl

theorem step (h : Tracks keys ops s) (e : Event L)
    (hkeys : ∀ op ∈ e.memoryOp.toList, op.1 ∈ keys) :
    Tracks keys (ops ++ e.memoryOp.toList) (s.step e) := by
  rcases MemoryState.step_cases e with ⟨hop,hstep⟩ | ⟨size,hop,hstep⟩ | ⟨hop,hstep⟩
  · rw [hop,hstep]
    simpa using h
  · rw [hop] at hkeys ⊢
    rw [hstep]
    exact h.onAlloc (hkeys _ (List.mem_singleton_self _)) size _
  · rw [hop] at hkeys ⊢
    rw [hstep]
    exact h.onFree (hkeys _ (List.mem_singleton_self _)) _

/-- The tables after a run say of each pointer what its last events say. -/
theorem after (events : List (Event L)) (hkeys : ∀ op ∈ memoryOps events, op.1 ∈ keys) :
    Tracks keys (memoryOps events) (MemoryState.after events) := by
  induction events using List.reverseRecOn with
  | nil => exact init keys
  | append_singleton events e ih =>
    rw [memoryOps_concat] at hkeys ⊢
    rw [MemoryState.after,List.foldl_concat]
    exact (ih (fun op hop => hkeys op (List.mem_append_left _ hop))).step e
      (fun op hop => hkeys op (List.mem_append_right _ hop))

theorem mem_keys (h : Tracks keys ops s) (hkeys : ∀ op ∈ ops, op.1 ∈ keys) {size : UInt64}
    (hlookup : s.allocations.lookup ptr = some size) : ptr ∈ keys := by
  have hlast := List.mem_of_getLast? ((h.live ptr size).mp hlookup)
  obtain ⟨op,hop,-⟩ := List.mem_map.mp hlast
  obtain ⟨hop,hkey⟩ := List.mem_filter.mp hop
  rw [← of_decide_eq_true hkey]
  exact hkeys op hop

/-- What is left in the table of allocations is what is live. -/
theorem sum_entries (h : Tracks keys ops s) (hkeys : ∀ op ∈ ops, op.1 ∈ keys) :
    (s.allocations.entries.map (fun pair => pair.2.toNat)).sum =
      ∑ ptr ∈ keys, MemoryOp.liveBytes (onKey ptr ops) := by
  have hmem : ∀ ptr ∈ s.allocations.keys, ptr ∈ keys := by
    intro ptr hptr
    obtain ⟨size,hsize⟩ := Option.isSome_iff_exists.mp (AList.lookup_isSome.mpr
      (AList.mem_keys.mpr hptr))
    exact h.mem_keys hkeys hsize
  rw [← sum_lookup s.allocations UInt64.toNat hmem]
  exact Finset.sum_congr rfl (fun ptr _ => (h.liveBytes_eq ptr).symm)

end Tracks

theorem mem_memoryPointers (events : List (Event L)) :
    ∀ op ∈ memoryOps events, op.1 ∈ memoryPointers events := by
  intro op hop
  exact List.mem_toFinset.mpr (List.mem_map_of_mem hop)

theorem leakedBytes_eq (events : List (Event L)) :
    (getMemoryStats events).leakedBytes.toNat =
      (∑ ptr ∈ memoryPointers events, MemoryOp.liveBytes (opsOn ptr events)) % 2 ^ 64 := by
  have h := Tracks.after events (mem_memoryPointers events)
  rw [getMemoryStats,updateMemoryStats]
  dsimp only
  rw [toNat_foldl_add,h.sum_entries (mem_memoryPointers events),UInt64.toNat_zero,Nat.zero_add]
  rfl

end Simulation

/-- The loop prints this warning about the event. -/
def MemoryState.Reports (s : MemoryState) (e : Event L) (w : MemoryWarning) : Prop :=
  (s.step e).warnings = s.warnings ++ [w]

/-- What the statistics say about each pointer on its own. -/
structure PerPointer (events : List (Event L)) : Prop where
  bytesFreed : (getMemoryStats events).bytesFreed.toNat =
    (∑ ptr ∈ memoryPointers events, MemoryOp.freedBytes (opsOn ptr events)) % 2 ^ 64
  leakedBytes : (getMemoryStats events).leakedBytes.toNat =
    (∑ ptr ∈ memoryPointers events, MemoryOp.liveBytes (opsOn ptr events)) % 2 ^ 64
  doubleFree : ∀ pre e post, events = pre ++ e :: post → e.type = .tensorFree →
    let ptr := e.data.memory.ptr
    ((MemoryState.after pre).Reports e (.doubleFree ptr) ↔
      (opsOn ptr pre).getLast? = some .free ∧ ∃ size, .alloc size ∈ opsOn ptr pre)
  freeWithoutAlloc : ∀ pre e post, events = pre ++ e :: post → e.type = .tensorFree →
    let ptr := e.data.memory.ptr
    ((MemoryState.after pre).Reports e (.freeWithoutAlloc ptr) ↔
      ∀ size, .alloc size ∉ opsOn ptr pre)
  disjoint : ∀ pre, pre <+: events → ∀ ptr ∈ (MemoryState.after pre).freedPointers,
    (MemoryState.after pre).allocations.lookup ptr = none

section Reports
variable {s : MemoryState} {e : Event L}

theorem warnings_free (he : e.type = .tensorFree) (s : MemoryState) :
    let ptr := e.data.memory.ptr
    (s.step e).warnings = s.warnings ++
      if ptr ∈ s.freedPointers then [.doubleFree ptr]
      else if s.allocations.lookup ptr = none then [.freeWithoutAlloc ptr]
      else [] := by
  intro ptr
  have hne : EventType.tensorFree ≠ .tensorAlloc := by decide
  simp only [MemoryState.step,he,hne,↓reduceIte,MemoryState.onFree]
  split
  · rfl
  · cases s.allocations.lookup ptr with
    | none => rfl
    | some size => simp

end Reports

/-- Every pointer is a small automaton of its own. -/
theorem memoryStats_perPointer (events : List (Event L)) : PerPointer events := by
  have h := Tracks.after events (mem_memoryPointers events)
  have hpre (pre : List (Event L)) := Tracks.after pre (mem_memoryPointers pre)
  exact
    { bytesFreed := h.bytesFreed
      leakedBytes := leakedBytes_eq events
      doubleFree := by
        intro pre e post hevents he ptr
        rw [MemoryState.Reports,warnings_free he,List.append_cancel_left_eq]
        refine Iff.trans ?_ ((hpre pre).freed ptr)
        split
        · next hfreed => simp [ptr,hfreed]
        · next hfreed => split <;> simp [ptr,hfreed]
      freeWithoutAlloc := by
        intro pre e post hevents he ptr
        rw [MemoryState.Reports,warnings_free he,List.append_cancel_left_eq]
        split
        · next hfreed =>
          obtain ⟨-,size,hsize⟩ := ((hpre pre).freed ptr).mp hfreed
          exact iff_of_false (by simp) (fun hnone => hnone size hsize)
        · next hfreed =>
          split
          · next hlookup => exact iff_of_true rfl ((hpre pre).alloc_notMem hfreed hlookup)
          · next hlookup =>
            obtain ⟨size,hsize⟩ := Option.ne_none_iff_exists'.mp hlookup
            have hmem := List.mem_of_getLast? (((hpre pre).live ptr size).mp hsize)
            exact iff_of_false (by simp) (fun hnone => hnone size hmem)
      disjoint := by
        intro pre _ ptr hfreed
        exact (hpre pre).lookup_eq_none hfreed }

end GgmlViz
