import GgmlViz.Foundation.Heap
import GgmlViz.Trace.MemoryUsage
import GgmlViz.Trace.Queries

/-! # The statistics as a report on a heap

What the traced program allocates and frees is a heap: each tensor that is live has a size.
The statistics are those of this heap as far as the program keeps to the rules, and the
warnings say exactly whether it frees only what is live.
-/
namespace GgmlViz
open Keyed Heap
variable {L : Type}

/-- What the tensor holds after the operation. -/
def MemoryOp.given : MemoryOp → Option UInt64
  | .alloc size => some size
  | .free => none

/-- The sizes of the live tensors. -/
def heapAfter (ops : List (Ptr × MemoryOp)) : Ptr → Option UInt64 := cells MemoryOp.given ops

/-- The bytes of all live tensors together. -/
def heapBytes (ops : List (Ptr × MemoryOp)) : ℕ :=
  ∑ ptr ∈ (ops.map Prod.fst).toFinset, ((heapAfter ops ptr).map UInt64.toNat).getD 0

/-- Only tensors that are not live are allocated. -/
abbrev AllocatesFresh (ops : List (Ptr × MemoryOp)) : Prop := GivesToEmpty MemoryOp.given ops

/-- Only live tensors are freed. -/
abbrev FreesLive (ops : List (Ptr × MemoryOp)) : Prop := ClearsFull MemoryOp.given ops

/-- The statistics of these events report the heap of these operations. -/
structure ReportsHeap (ops : List (Ptr × MemoryOp)) (events : List (Event L)) : Prop where
  table : ∀ ptr, (updateMemoryStats events).allocations.lookup ptr = heapAfter ops ptr
  silent : (updateMemoryStats events).warnings = [] ↔ FreesLive ops
  leaked : (getMemoryStats events).leakedBytes.toNat = heapBytes ops
  allocated : (getMemoryStats events).bytesAllocated.toNat = (ops.map (fun op => op.2.size)).sum
  freed : AllocatesFresh ops →
    (getMemoryStats events).bytesFreed.toNat + heapBytes ops = (ops.map (fun op => op.2.size)).sum
  current : AllocatesFresh ops → (getMemoryStats events).currentUsage.toNat = heapBytes ops
  peak : AllocatesFresh ops → IsGreatest {n | ∃ pre, pre <+: ops ∧ n = heapBytes pre}
    (getMemoryStats events).peakUsage.toNat

section Heap
variable {ops : List (Ptr × MemoryOp)} {events : List (Event L)}

theorem liveBytes_heapAfter (ops : List (Ptr × MemoryOp)) (ptr : Ptr) :
    MemoryOp.liveBytes (onKey ptr ops) = ((heapAfter ops ptr).map UInt64.toNat).getD 0 := by
  rw [heapAfter,cells_eq,MemoryOp.liveBytes]
  cases (onKey ptr ops).getLast? with
  | none => rfl
  | some last => cases last <;> rfl

theorem liveSizes_eq (events : List (Event L)) : liveSizes events = heapBytes (memoryOps events) :=
  Finset.sum_congr rfl (fun ptr _ => liveBytes_heapAfter (memoryOps events) ptr)

/-- Where only what is not live is allocated, nothing is overwritten. -/
theorem overwrittenBytes_eq_zero (h : AllocatesFresh ops) (ptr : Ptr) :
    MemoryOp.overwrittenBytes (onKey ptr ops) = 0 := by
  induction ops using List.reverseRecOn with
  | nil => rfl
  | append_singleton ops op ih =>
    obtain ⟨hbefore,hop⟩ := givesToEmpty_concat.mp h
    rw [onKey_concat]
    by_cases hptr : op.1 = ptr
    · subst hptr
      obtain ⟨ptr,op⟩ := op
      rw [if_pos rfl]
      cases op with
      | alloc n =>
        have hempty : heapAfter ops ptr = none := hop (by simp [MemoryOp.given])
        rw [MemoryOp.overwrittenBytes_alloc,ih hbefore,liveBytes_heapAfter,hempty]
        rfl
      | free => rw [MemoryOp.overwrittenBytes_free,ih hbefore]
    · rw [if_neg hptr,ih hbefore]

theorem overwrittenSizes_eq_zero (h : AllocatesFresh (memoryOps events)) :
    overwrittenSizes events = 0 :=
  Finset.sum_eq_zero (fun ptr _ => overwrittenBytes_eq_zero h ptr)

/-- The table of allocations is the heap, whatever was done to it. -/
theorem lookup_eq_heapAfter (events : List (Event L)) (ptr : Ptr) :
    (MemoryState.after events).allocations.lookup ptr = heapAfter (memoryOps events) ptr := by
  have htracks := Tracks.after events (mem_memoryPointers events)
  have hcells : ∀ size, heapAfter (memoryOps events) ptr = some size ↔
      (onKey ptr (memoryOps events)).getLast? = some (.alloc size) := by
    intro size
    rw [heapAfter,cells_eq,Option.bind_eq_some_iff]
    constructor
    · rintro ⟨op,hlast,hgiven⟩
      cases op with
      | alloc n =>
        cases hgiven
        exact hlast
      | free => cases hgiven
    · exact fun hlast => ⟨_,hlast,rfl⟩
  apply Option.ext
  intro size
  rw [htracks.live,hcells]

/-- A warning is printed exactly for a free of what is not live. -/
theorem warnings_eq_nil_iff (events : List (Event L)) :
    (MemoryState.after events).warnings = [] ↔ FreesLive (memoryOps events) := by
  induction events using List.reverseRecOn with
  | nil => exact iff_of_true rfl (atEach_nil _)
  | append_singleton events e ih =>
    have hstep : MemoryState.after (events ++ [e]) = (MemoryState.after events).step e :=
      List.foldl_concat ..
    rw [hstep,memoryOps_concat]
    rcases MemoryState.step_cases e with ⟨hop,hnone⟩ | ⟨size,hop,halloc⟩ | ⟨hop,hfree⟩
    · rw [hop,hnone,ih]
      simp
    · rw [hop,halloc,Option.toList_some,FreesLive,clearsFull_concat,
        and_iff_left (fun hgiven => by cases hgiven)]
      exact ih
    · have hfreed : e.type = .tensorFree := by
        by_contra hne
        by_cases ha : e.type = .tensorAlloc <;> simp [Event.memoryOp,ha,hne] at hop
      have htracks := Tracks.after events (mem_memoryPointers events)
      have hlive : (if e.data.memory.ptr ∈ (MemoryState.after events).freedPointers
          then [MemoryWarning.doubleFree e.data.memory.ptr]
          else if (MemoryState.after events).allocations.lookup e.data.memory.ptr = none
            then [.freeWithoutAlloc e.data.memory.ptr] else []) = [] ↔
          heapAfter (memoryOps events) e.data.memory.ptr ≠ none := by
        rw [← lookup_eq_heapAfter]
        split
        · next hmem => simp [htracks.lookup_eq_none hmem]
        · split <;> simp_all
      rw [warnings_free hfreed,List.append_eq_nil_iff,ih,hlive,hop,Option.toList_some]
      refine Iff.trans ?_ clearsFull_concat.symm
      exact and_congr_right (fun _ => ⟨fun h _ => h,fun h => h rfl⟩)

end Heap

/-- The highest usage of all prefixes of the events is that of all prefixes of the operations. -/
theorem usages_eq {events : List (Event L)} (hfits : allocatedSizes events < 2 ^ 64)
    (h : AllocatesFresh (memoryOps events)) :
    {n | ∃ pre, pre <+: events ∧ n = usage pre} =
      {n | ∃ pre, pre <+: memoryOps events ∧ n = heapBytes pre} := by
  have husage {pre : List (Event L)} (hpre : pre <+: events) :
      usage pre = heapBytes (memoryOps pre) := by
    have hlt := Nat.lt_of_le_of_lt (allocatedSizes_mono hpre) hfits
    have hops : memoryOps pre <+: memoryOps events := hpre.filterMap _
    rw [usage_eq hlt,(counters_eq hlt).2.2,overwrittenSizes_eq_zero (h.initial hops),Nat.zero_add,
      liveSizes_eq]
  ext n
  constructor
  · rintro ⟨pre,hpre,rfl⟩
    exact ⟨memoryOps pre,hpre.filterMap _,husage hpre⟩
  · rintro ⟨ops,⟨more,hops⟩,rfl⟩
    obtain ⟨pre,post,rfl,rfl,-⟩ := List.filterMap_eq_append_iff.mp hops.symm
    exact ⟨pre,List.prefix_append _ _,(husage (List.prefix_append _ _)).symm⟩

/-- As long as the allocations fit in 64 bits, the statistics report the heap. -/
theorem reportsHeap {events : List (Event L)} (hfits : allocatedSizes events < 2 ^ 64) :
    ReportsHeap (memoryOps events) events := by
  obtain ⟨hallocated,hfreed,hcurrent⟩ := counters_eq hfits
  have hsum := allocatedSizes_eq events
  have hleaked : (getMemoryStats events).leakedBytes.toNat = liveSizes events % 2 ^ 64 :=
    leakedBytes_eq events
  exact
    { table := lookup_eq_heapAfter events
      silent := warnings_eq_nil_iff events
      leaked := by
        rw [hleaked,Nat.mod_eq_of_lt (by omega),liveSizes_eq]
      allocated := hallocated
      freed := by
        intro h
        have hnone := overwrittenSizes_eq_zero h
        show (MemoryState.after events).stats.bytesFreed.toNat + _ = allocatedSizes events
        rw [hfreed,← liveSizes_eq]
        omega
      current := by
        intro h
        show (MemoryState.after events).currentUsage.toNat = _
        rw [hcurrent,overwrittenSizes_eq_zero h,Nat.zero_add,liveSizes_eq]
      peak := by
        intro h
        rw [← usages_eq hfits h]
        exact isGreatest_peakUsage hfits }

end GgmlViz
