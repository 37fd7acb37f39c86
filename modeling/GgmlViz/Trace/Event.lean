import GgmlViz.Foundation.LittleEndian

/-! # Trace events

The event record of the instrumentation, with the 32-byte data union kept as raw
bytes: every view of the union reads the bytes that any other view wrote. The label
is a pointer in the recording process and an owned buffer in the trace reader, so
its type is a parameter.
-/
namespace GgmlViz
open LittleEndian

/-- An address in a 64-bit process; `0` is the null pointer. -/
abbrev Ptr := UInt64

/-- `enum class EventType : uint8_t`: a fixed underlying type admits every byte. -/
structure EventType where
  code : UInt8
  deriving DecidableEq, Repr

namespace EventType
def graphComputeBegin : EventType := ⟨0⟩
def graphComputeEnd : EventType := ⟨1⟩
def opComputeBegin : EventType := ⟨2⟩
def opComputeEnd : EventType := ⟨3⟩
def tensorAlloc : EventType := ⟨4⟩
def tensorFree : EventType := ⟨5⟩
def barrierWait : EventType := ⟨6⟩
def threadBegin : EventType := ⟨7⟩
def threadFree : EventType := ⟨8⟩
end EventType

/-- The bytes of the anonymous union `Event::data`. -/
structure EventData where
  bytes : Bytes
  size : bytes.length = 32
  deriving DecidableEq

/-- The member `data.op`. -/
structure OpData where
  tensorPtr : Ptr
  opType : UInt32
  opSize : UInt64
  backendPtr : Ptr
  deriving DecidableEq

/-- The member `data.graph`. -/
structure GraphData where
  graphPtr : Ptr
  nNodes : UInt32
  nThreads : UInt32
  backendPtr : Ptr
  deriving DecidableEq

/-- The member `data.memory`. -/
structure MemoryData where
  ptr : Ptr
  size : UInt64
  deriving DecidableEq

namespace EventData

/-- The unsigned number in `w` bytes at offset `off`. -/
def field (d : EventData) (off w : ℕ) : ℕ := leValue ((d.bytes.drop off).take w)

def op (d : EventData) : OpData where
  tensorPtr := UInt64.ofNat (d.field 0 8)
  opType := UInt32.ofNat (d.field 8 4)
  opSize := UInt64.ofNat (d.field 16 8)
  backendPtr := UInt64.ofNat (d.field 24 8)

def graph (d : EventData) : GraphData where
  graphPtr := UInt64.ofNat (d.field 0 8)
  nNodes := UInt32.ofNat (d.field 8 4)
  nThreads := UInt32.ofNat (d.field 12 4)
  backendPtr := UInt64.ofNat (d.field 16 8)

def memory (d : EventData) : MemoryData where
  ptr := UInt64.ofNat (d.field 0 8)
  size := UInt64.ofNat (d.field 8 8)

end EventData

/-- A zeroed union with `data.op` assigned; four bytes of padding follow `op_type`. -/
def OpData.toData (x : OpData) : EventData where
  bytes := leBytes 8 x.tensorPtr.toNat ++ (leBytes 4 x.opType.toNat ++ (leBytes 4 0 ++
    (leBytes 8 x.opSize.toNat ++ leBytes 8 x.backendPtr.toNat)))
  size := by simp

/-- A zeroed union with `data.graph` assigned. -/
def GraphData.toData (x : GraphData) : EventData where
  bytes := leBytes 8 x.graphPtr.toNat ++ (leBytes 4 x.nNodes.toNat ++
    (leBytes 4 x.nThreads.toNat ++ (leBytes 8 x.backendPtr.toNat ++ leBytes 8 0)))
  size := by simp

/-- A zeroed union with `data.memory` assigned. -/
def MemoryData.toData (x : MemoryData) : EventData where
  bytes := leBytes 8 x.ptr.toNat ++ (leBytes 8 x.size.toNat ++ leBytes 16 0)
  size := by simp

section Views

theorem EventData.field_eq {d : EventData} (pre post : Bytes) {off w n : ℕ}
    (hd : d.bytes = pre ++ (leBytes w n ++ post)) (hoff : pre.length = off) (hn : n < 256 ^ w) :
    d.field off w = n := by
  rw [EventData.field,hd,List.drop_left' hoff,List.take_left' (length_leBytes w n)]
  exact leValue_leBytes_of_lt hn

@[simp] theorem OpData.op_toData (x : OpData) : x.toData.op = x := by
  have h0 : x.toData.field 0 8 = x.tensorPtr.toNat :=
    EventData.field_eq [] _ rfl rfl x.tensorPtr.toNat_lt
  have h8 : x.toData.field 8 4 = x.opType.toNat :=
    EventData.field_eq (leBytes 8 x.tensorPtr.toNat) _ rfl (by simp) x.opType.toNat_lt
  have h16 : x.toData.field 16 8 = x.opSize.toNat :=
    EventData.field_eq
      (leBytes 8 x.tensorPtr.toNat ++ (leBytes 4 x.opType.toNat ++ leBytes 4 0))
      (leBytes 8 x.backendPtr.toNat) (by simp [OpData.toData]) (by simp) x.opSize.toNat_lt
  have h24 : x.toData.field 24 8 = x.backendPtr.toNat :=
    EventData.field_eq
      (leBytes 8 x.tensorPtr.toNat ++ (leBytes 4 x.opType.toNat ++
        (leBytes 4 0 ++ leBytes 8 x.opSize.toNat)))
      [] (by simp [OpData.toData]) (by simp) x.backendPtr.toNat_lt
  simp [EventData.op,h0,h8,h16,h24]

@[simp] theorem GraphData.graph_toData (x : GraphData) : x.toData.graph = x := by
  have h0 : x.toData.field 0 8 = x.graphPtr.toNat :=
    EventData.field_eq [] _ rfl rfl x.graphPtr.toNat_lt
  have h8 : x.toData.field 8 4 = x.nNodes.toNat :=
    EventData.field_eq (leBytes 8 x.graphPtr.toNat) _ rfl (by simp) x.nNodes.toNat_lt
  have h12 : x.toData.field 12 4 = x.nThreads.toNat :=
    EventData.field_eq (leBytes 8 x.graphPtr.toNat ++ leBytes 4 x.nNodes.toNat)
      (leBytes 8 x.backendPtr.toNat ++ leBytes 8 0) (by simp [GraphData.toData]) (by simp)
      x.nThreads.toNat_lt
  have h16 : x.toData.field 16 8 = x.backendPtr.toNat :=
    EventData.field_eq
      (leBytes 8 x.graphPtr.toNat ++ (leBytes 4 x.nNodes.toNat ++ leBytes 4 x.nThreads.toNat))
      (leBytes 8 0) (by simp [GraphData.toData]) (by simp) x.backendPtr.toNat_lt
  simp [EventData.graph,h0,h8,h12,h16]

@[simp] theorem MemoryData.memory_toData (x : MemoryData) : x.toData.memory = x := by
  have h0 : x.toData.field 0 8 = x.ptr.toNat := EventData.field_eq [] _ rfl rfl x.ptr.toNat_lt
  have h8 : x.toData.field 8 8 = x.size.toNat :=
    EventData.field_eq (leBytes 8 x.ptr.toNat) _ rfl (by simp) x.size.toNat_lt
  simp [EventData.memory,h0,h8]

end Views

/-- `struct Event`; `L` is the type of the label pointer's target. -/
structure Event (L : Type) where
  type : EventType
  timestampNs : UInt64
  threadId : UInt32
  data : EventData
  label : Option L
  deriving DecidableEq

end GgmlViz
