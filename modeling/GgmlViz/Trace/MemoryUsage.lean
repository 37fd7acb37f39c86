import GgmlViz.Trace.Memory
import GgmlViz.Hook.Offers
import Mathlib.Algebra.Order.BigOperators.Group.Finset
import Mathlib.Order.Bounds.Basic

/-! # Usage, peak and leaks

The running usage is what was allocated less what was freed. It also counts allocations that
were overwritten, so it bounds what is still live, and is the same only where nothing was
overwritten.
-/
namespace GgmlViz
open Keyed
variable {L : Type}

def allocatedSizes (events : List (Event L)) : ℕ :=
  ((memoryOps events).map (fun op => op.2.size)).sum

/-- The bytes allocated and not freed by these events. -/
def usage (events : List (Event L)) : ℕ :=
  (MemoryState.after events).stats.bytesAllocated.toNat -
    (MemoryState.after events).stats.bytesFreed.toNat

/-- The counters keep to plain arithmetic. -/
structure Accounting (events : List (Event L)) : Prop where
  noUnderflow : ∀ pre e post, events = pre ++ e :: post → e.type = .tensorFree →
    e.data.memory.ptr ∉ (MemoryState.after pre).freedPointers →
    ∀ size, (MemoryState.after pre).allocations.lookup e.data.memory.ptr = some size →
      size ≤ (MemoryState.after pre).currentUsage
  current : (getMemoryStats events).currentUsage.toNat + (getMemoryStats events).bytesFreed.toNat =
    (getMemoryStats events).bytesAllocated.toNat
  peak : IsGreatest {n | ∃ pre, pre <+: events ∧ n = usage pre}
    (getMemoryStats events).peakUsage.toNat
  leaked_le : (getMemoryStats events).leakedBytes ≤ (getMemoryStats events).currentUsage
  current_le : (getMemoryStats events).currentUsage ≤ (getMemoryStats events).peakUsage
  peak_le : (getMemoryStats events).peakUsage ≤ (getMemoryStats events).bytesAllocated

section Sums
variable (events : List (Event L))

/-- The sizes of the allocations whose pointer is allocated next, of all pointers. -/
def overwrittenSizes : ℕ :=
  ∑ ptr ∈ memoryPointers events, MemoryOp.overwrittenBytes (opsOn ptr events)

/-- The sizes of the allocations that are still live. -/
def liveSizes : ℕ := ∑ ptr ∈ memoryPointers events, MemoryOp.liveBytes (opsOn ptr events)

def freedSizes : ℕ := ∑ ptr ∈ memoryPointers events, MemoryOp.freedBytes (opsOn ptr events)

theorem sum_allocatedBytes :
    ∑ ptr ∈ memoryPointers events, MemoryOp.allocatedBytes (opsOn ptr events) =
      allocatedSizes events :=
  sum_sum_onKey MemoryOp.size (memoryOps events) (mem_memoryPointers events)

/-- What was allocated was freed, overwritten or is live. -/
theorem allocatedSizes_eq :
    allocatedSizes events = freedSizes events + overwrittenSizes events + liveSizes events := by
  rw [← sum_allocatedBytes,freedSizes,overwrittenSizes,liveSizes,← Finset.sum_add_distrib,
    ← Finset.sum_add_distrib]
  exact Finset.sum_congr rfl (fun ptr _ => MemoryOp.allocatedBytes_eq (opsOn ptr events))

theorem toNat_bytesAllocated :
    (MemoryState.after events).stats.bytesAllocated.toNat = allocatedSizes events % 2 ^ 64 := by
  rw [← sum_allocatedBytes]
  exact (Tracks.after events (mem_memoryPointers events)).allocated

theorem toNat_bytesFreed :
    (MemoryState.after events).stats.bytesFreed.toNat = freedSizes events % 2 ^ 64 :=
  (Tracks.after events (mem_memoryPointers events)).bytesFreed

/-- The running usage counts what was overwritten as well as what is live. -/
theorem toNat_currentUsage : (MemoryState.after events).currentUsage.toNat =
    (overwrittenSizes events + liveSizes events) % 2 ^ 64 := by
  have hsum := allocatedSizes_eq events
  rw [(Tracks.after events (mem_memoryPointers events)).current,UInt64.toNat_sub,
    toNat_bytesAllocated,toNat_bytesFreed]
  omega

end Sums

/-- At the end, the usage and the leaks are both the size of what is still live. -/
def OutstandingAgrees (events : List (Event L)) : Prop :=
  (getMemoryStats events).currentUsage = (getMemoryStats events).leakedBytes ∧
    (getMemoryStats events).leakedBytes.toNat = liveSizes events % 2 ^ 64

section Reallocation

def memoryConfig : Config := { instrumentation := { enableMemoryTracking := true } }

/-- The events of two allocations of a graph with one node. -/
def allocatedTwice : List (Event Ptr) :=
  let graph : AllocGraph :=
    { ptr := 64, nodes := [128], fits := oneTensor_fits, leafs := [], leafsFit := noTensor_fits }
  let call := InterceptedCall.ggmlGallocrAllocGraph 0 (some graph)
  let offered := fun now =>
    HookStep.offers memoryConfig (call.override (fun _ => momentAt now)).steps
  (offered 7 ++ offered 8).map Prod.fst

end Reallocation

section Bounded
variable {events : List (Event L)}

theorem allocatedSizes_mono {pre : List (Event L)} (h : pre <+: events) :
    allocatedSizes pre ≤ allocatedSizes events := by
  obtain ⟨post,rfl⟩ := h
  simp [allocatedSizes,memoryOps]

theorem counters_eq (h : allocatedSizes events < 2 ^ 64) :
    (MemoryState.after events).stats.bytesAllocated.toNat = allocatedSizes events ∧
    (MemoryState.after events).stats.bytesFreed.toNat = freedSizes events ∧
    (MemoryState.after events).currentUsage.toNat = overwrittenSizes events + liveSizes events := by
  have hsum := allocatedSizes_eq events
  rw [toNat_bytesAllocated,toNat_bytesFreed,toNat_currentUsage]
  refine ⟨Nat.mod_eq_of_lt h,Nat.mod_eq_of_lt ?_,Nat.mod_eq_of_lt ?_⟩ <;> omega

theorem usage_eq (h : allocatedSizes events < 2 ^ 64) :
    usage events = (MemoryState.after events).currentUsage.toNat := by
  obtain ⟨hallocated,hfreed,hcurrent⟩ := counters_eq h
  have hsum := allocatedSizes_eq events
  rw [usage,hallocated,hfreed,hcurrent]
  omega

theorem size_le_currentUsage (h : allocatedSizes events < 2 ^ 64) {ptr : Ptr} {size : UInt64}
    (hlookup : (MemoryState.after events).allocations.lookup ptr = some size) :
    size ≤ (MemoryState.after events).currentUsage := by
  have htracks := Tracks.after events (mem_memoryPointers events)
  have hsize : MemoryOp.liveBytes (opsOn ptr events) = size.toNat := by
    have hlive := htracks.liveBytes_eq ptr
    rw [hlookup] at hlive
    exact hlive
  have hle : MemoryOp.liveBytes (opsOn ptr events) ≤ liveSizes events :=
    Finset.single_le_sum (f := fun ptr => MemoryOp.liveBytes (opsOn ptr events))
      (fun _ _ => Nat.zero_le _) (htracks.mem_keys (mem_memoryPointers events) hlookup)
  rw [UInt64.le_iff_toNat_le,(counters_eq h).2.2]
  omega

/-- An event raises the peak to the usage after it. -/
theorem toNat_peakUsage_concat {e : Event L} (h : allocatedSizes (events ++ [e]) < 2 ^ 64)
    (hpeak : usage events ≤ (MemoryState.after events).stats.peakUsage.toNat) :
    (MemoryState.after (events ++ [e])).stats.peakUsage.toNat =
      max (usage (events ++ [e])) (MemoryState.after events).stats.peakUsage.toNat := by
  have hbefore : allocatedSizes events < 2 ^ 64 := by
    have hle := allocatedSizes_mono (List.prefix_append events [e])
    omega
  have hstep : MemoryState.after (events ++ [e]) = (MemoryState.after events).step e :=
    List.foldl_concat ..
  rw [usage_eq h,hstep]
  rw [usage_eq hbefore] at hpeak
  rcases MemoryState.step_cases e with ⟨-,hstep⟩ | ⟨size,-,hstep⟩ | ⟨-,hstep⟩
  · rw [hstep]
    omega
  · rw [hstep]
    simp only [MemoryState.onAlloc]
    split
    · next hlt =>
      rw [UInt64.lt_iff_toNat_lt] at hlt
      omega
    · next hlt =>
      rw [UInt64.lt_iff_toNat_lt] at hlt
      omega
  · rw [hstep]
    unfold MemoryState.onFree
    dsimp only
    split
    · dsimp only
      omega
    · split
      · next size hlookup =>
        have hsize := size_le_currentUsage hbefore hlookup
        dsimp only
        rw [UInt64.toNat_sub_of_le _ _ hsize]
        omega
      · dsimp only
        omega

/-- The peak is the highest usage of all prefixes. -/
theorem isGreatest_peakUsage (h : allocatedSizes events < 2 ^ 64) :
    IsGreatest {n | ∃ pre, pre <+: events ∧ n = usage pre}
      (MemoryState.after events).stats.peakUsage.toNat := by
  induction events using List.reverseRecOn with
  | nil =>
    constructor
    · exact ⟨[],List.prefix_refl _,rfl⟩
    · rintro n ⟨pre,hpre,rfl⟩
      rw [List.prefix_nil.mp hpre]
      exact Nat.zero_le _
  | append_singleton events e ih =>
    have hprev := ih (Nat.lt_of_le_of_lt (allocatedSizes_mono (List.prefix_append _ _)) h)
    have hset : {n | ∃ pre, pre <+: events ++ [e] ∧ n = usage pre} =
        insert (usage (events ++ [e])) {n | ∃ pre, pre <+: events ∧ n = usage pre} := by
      ext n
      simp only [List.prefix_concat_iff,Set.mem_ofPred_eq,Set.mem_insert_iff]
      constructor
      · rintro ⟨pre,rfl | hpre,rfl⟩
        · exact .inl rfl
        · exact .inr ⟨pre,hpre,rfl⟩
      · rintro (rfl | ⟨pre,hpre,rfl⟩)
        · exact ⟨_,.inl rfl,rfl⟩
        · exact ⟨pre,.inr hpre,rfl⟩
    rw [hset,toNat_peakUsage_concat h (hprev.2 ⟨events,List.prefix_refl _,rfl⟩)]
    exact hprev.insert _

/-- As long as the allocations fit in 64 bits, the counters keep to plain arithmetic. -/
theorem memoryStats_accounting (events : List (Event L)) (h : allocatedSizes events < 2 ^ 64) :
    Accounting events := by
  obtain ⟨hallocated,hfreed,hcurrent⟩ := counters_eq h
  have hsum := allocatedSizes_eq events
  have hpeak := isGreatest_peakUsage h
  have hleaked : (getMemoryStats events).leakedBytes.toNat = liveSizes events % 2 ^ 64 :=
    leakedBytes_eq events
  exact
    { noUnderflow := by
        intro pre e post hevents _ _ size hlookup
        have hpre := allocatedSizes_mono (hevents ▸ List.prefix_append pre (e :: post))
        exact size_le_currentUsage (Nat.lt_of_le_of_lt hpre h) hlookup
      current := by
        show (MemoryState.after events).currentUsage.toNat +
          (MemoryState.after events).stats.bytesFreed.toNat =
            (MemoryState.after events).stats.bytesAllocated.toNat
        omega
      peak := hpeak
      leaked_le := by
        rw [UInt64.le_iff_toNat_le,hleaked]
        show _ ≤ (MemoryState.after events).currentUsage.toNat
        omega
      current_le := by
        rw [UInt64.le_iff_toNat_le]
        show (MemoryState.after events).currentUsage.toNat ≤ _
        rw [← usage_eq h]
        exact hpeak.2 ⟨events,List.prefix_refl _,rfl⟩
      peak_le := by
        rw [UInt64.le_iff_toNat_le]
        obtain ⟨pre,hpre,hmax⟩ := hpeak.1
        show (MemoryState.after events).stats.peakUsage.toNat ≤
          (MemoryState.after events).stats.bytesAllocated.toNat
        have hmono := allocatedSizes_mono hpre
        have hpre' := (counters_eq (Nat.lt_of_le_of_lt hmono h)).1
        rw [hmax,usage,hallocated,hpre']
        omega }

theorem memoryStats_accounting_twice : Accounting allocatedTwice :=
  memoryStats_accounting allocatedTwice (by decide +kernel)

end Bounded
end GgmlViz
