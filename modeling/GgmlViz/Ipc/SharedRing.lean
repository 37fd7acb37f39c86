import GgmlViz.Config.Config
import GgmlViz.Foundation.RingWindow
import Mathlib.Data.Nat.ModEq

/-! # The ring buffer in shared memory

A header with two positions and a capacity, and the cells behind it. The positions are
stored masked, differences are taken in 32 bits, and `capacity - 1` serves as the mask
whatever the capacity is. The POSIX and the Windows file have the same member functions.
-/
namespace GgmlViz
open LittleEndian
variable {α : Type}

structure RingHeader where
  head : UInt32
  tail : UInt32
  capacity : UInt32
  deriving DecidableEq

/-- The mapped view: the header and what is behind it. -/
structure SharedRegion (α : Type) extends RingHeader where
  base : ℕ → α
  /-- `map_size_`. -/
  mapSize : UInt64

namespace RingHeader

/-- `(tail + cap - head - 1) & (cap - 1)`. -/
def freeSpace (cap head tail : UInt32) : UInt32 := (tail + cap - head - 1) &&& (cap - 1)

/-- `(head + cap - tail) & (cap - 1)`. -/
def avail (cap head tail : UInt32) : UInt32 := (head + cap - tail) &&& (cap - 1)

/-- `(pos + i) & (cap - 1)` with `i` a `size_t`. -/
def cellIndex (cap pos : UInt32) (i : ℕ) : ℕ := (pos.toNat + i) &&& (cap - 1).toNat

end RingHeader

open RingHeader

namespace SharedRegion

/-- The copy loop of `write`, from its `i`-th round on. -/
def copyIn (cap head : UInt32) : ℕ → List α → (ℕ → α) → ℕ → α
  | _, [], base => base
  | i, x :: xs, base => copyIn cap head (i + 1) xs (Function.update base (cellIndex cap head i) x)

def write (data : List α) (r : SharedRegion α) : SharedRegion α × Bool :=
  let head := r.head
  let tail := r.tail
  let cap := r.capacity
  if (freeSpace cap head tail).toNat < data.length then (r,false)
  else
    let r := { r with base := copyIn cap head 0 data r.base }
    ({ r with head := UInt32.ofNat (cellIndex cap head data.length) },true)

/-- `read`, with the bytes stored to `dest` when it succeeds. -/
def read (n : ℕ) (r : SharedRegion α) : SharedRegion α × Option (List α) :=
  let head := r.head
  let tail := r.tail
  let cap := r.capacity
  if (avail cap head tail).toNat < n then (r,none)
  else
    let dest := (List.range n).map (fun i => r.base (cellIndex cap tail i))
    ({ r with tail := UInt32.ofNat (cellIndex cap tail n) },some dest)

def availableSpace (r : SharedRegion α) : UInt32 := freeSpace r.capacity r.head r.tail

def availableData (r : SharedRegion α) : UInt32 := avail r.capacity r.head r.tail

/-- What the calls of `createImpl` into the system return. -/
structure MapOutcome where
  shmOpens : Bool
  truncates : Bool
  maps : Bool
  lockFree : Bool
  deriving DecidableEq

/-- `sizeof(RingHeader)`. -/
def headerSize : UInt64 := 12

/-- `createImpl`, over what the shared memory object holds already. -/
def createImpl (o : MapOutcome) (old : SharedRegion α) (sz : UInt64) (create : Bool) :
    Except Bytes (SharedRegion α) :=
  let mapSize := headerSize + sz
  if !o.shmOpens then
    .error (ascii (if create then "shm_open create failed" else "shm_open open failed"))
  else if create && !o.truncates then .error (ascii "ftruncate failed")
  else if !o.maps then .error (ascii "mmap failed")
  else if create then
    if !o.lockFree then
      .error (ascii "Atomic operations not lock-free - shared memory ring buffer unsafe")
    else .ok { old with head := 0, tail := 0, capacity := sz.toUInt32, mapSize := mapSize }
  else .ok { old with mapSize := mapSize }

/-- `SharedMemoryRegion::create`. -/
def create (o : MapOutcome) (old : SharedRegion α) (sz : UInt64) : Except Bytes (SharedRegion α) :=
  createImpl o old sz true

/-- A created region is an empty ring of the size asked for, cut to 32 bits. -/
theorem create_eq_ok {o : MapOutcome} {old r : SharedRegion α} {sz : UInt64}
    (h : create o old sz = .ok r) :
    r = { old with head := 0, tail := 0, capacity := sz.toUInt32, mapSize := headerSize + sz } := by
  cases hm : o.shmOpens <;> cases ht : o.truncates <;> cases hp : o.maps <;>
    cases hl : o.lockFree <;> simp [create,createImpl,hm,ht,hp,hl] at h
  exact h.symm

end SharedRegion

/-- The capacity masks as a ring of `n` cells does. -/
structure Masks (cap : UInt32) (n : ℕ) : Prop where
  power : ∃ k ≤ 32, n = 2 ^ k
  mask : (cap - 1).toNat = n - 1
  dvd : n ∣ cap.toNat

namespace Masks
variable {cap : UInt32} {n : ℕ}

theorem of_power {k : ℕ} (hk : k ≤ 31) (h : cap.toNat = 2 ^ k) : Masks cap (2 ^ k) where
  power := ⟨k,by omega,rfl⟩
  mask := by
    have hpos : 0 < 2 ^ k := Nat.two_pow_pos k
    have hle : (1 : UInt32) ≤ cap := by
      rw [UInt32.le_iff_toNat_le,h]
      exact hpos
    rw [UInt32.toNat_sub_of_le cap 1 hle,h]
    rfl
  dvd := by rw [h]

/-- A capacity of 0 masks nothing: the ring has 2^32 cells. -/
theorem of_zero (h : cap = 0) : Masks cap (2 ^ 32) where
  power := ⟨32,Nat.le_refl _,rfl⟩
  mask := by rw [h]; rfl
  dvd := by rw [h]; exact ⟨0,rfl⟩

variable (h : Masks cap n)
include h

theorem pos : 0 < n := by
  obtain ⟨k,-,rfl⟩ := h.power
  exact Nat.two_pow_pos k

theorem le : n ≤ 2 ^ 32 := by
  obtain ⟨k,hk,rfl⟩ := h.power
  exact Nat.pow_le_pow_right (by decide) hk

theorem dvd_word : n ∣ 2 ^ 32 := by
  obtain ⟨k,hk,rfl⟩ := h.power
  exact Nat.pow_dvd_pow 2 hk

theorem and_mask (x : ℕ) : x &&& (cap - 1).toNat = x % n := by
  obtain ⟨k,-,hn⟩ := h.power
  rw [h.mask,hn]
  exact Nat.and_two_pow_sub_one_eq_mod x k

theorem cellIndex_eq (pos : UInt32) (i : ℕ) : cellIndex cap pos i = (pos.toNat + i) % n :=
  h.and_mask _

/-- The position after `i` more cells, as it is stored. -/
theorem stored_cellIndex (pos : UInt32) (i : ℕ) :
    (UInt32.ofNat (cellIndex cap pos i)).toNat = (pos.toNat + i) % n := by
  have hlt : (pos.toNat + i) % n < 2 ^ 32 := (Nat.mod_lt _ h.pos).trans_le h.le
  rw [h.cellIndex_eq,UInt32.toNat_ofNat_of_lt' hlt]

/-- A masked 32-bit difference of two positions is their distance. -/
theorem masked_sub {a b : UInt32} {p q d : ℕ} (ha : a.toNat % n = p % n) (hb : b.toNat % n = q % n)
    (hd : p = q + d) (hlt : d < n) : ((a - b) &&& (cap - 1)).toNat = d := by
  have hmod : ((a - b).toNat + b.toNat) % n = (d + q) % n := by
    have hword : ((a - b).toNat + b.toNat) % 2 ^ 32 = a.toNat := by
      rw [← UInt32.toNat_add,UInt32.sub_add_cancel]
    rw [← Nat.mod_mod_of_dvd _ h.dvd_word,hword,ha,hd,Nat.add_comm]
  have hcancel : (a - b).toNat ≡ d [MOD n] :=
    Nat.ModEq.add_right_cancel (show b.toNat ≡ q [MOD n] from hb) hmod
  rw [UInt32.toNat_and,h.and_mask,hcancel,Nat.mod_eq_of_lt hlt]

/-- `avail`, for positions that the stored ones stand for. -/
theorem avail_eq {head tail : UInt32} {hi lo : ℕ} (hhead : head.toNat = hi % n)
    (htail : tail.toNat = lo % n) (hle : lo ≤ hi) (hlt : hi < lo + n) :
    (avail cap head tail).toNat = hi - lo := by
  apply h.masked_sub (p := hi) (q := lo)
  · rw [UInt32.toNat_add,Nat.mod_mod_of_dvd _ h.dvd_word,Nat.add_mod,Nat.mod_eq_zero_of_dvd h.dvd,
      hhead]
    simp
  · rw [htail,Nat.mod_mod]
  · omega
  · omega

theorem freeSpace_eq {head tail : UInt32} {hi lo : ℕ} (hhead : head.toNat = hi % n)
    (htail : tail.toNat = lo % n) (hle : lo ≤ hi) (hlt : hi < lo + n) :
    (freeSpace cap head tail).toNat = n - 1 - (hi - lo) := by
  have hsub : tail + cap - head - 1 = tail + cap - (head + 1) := by grind
  rw [freeSpace,hsub]
  apply h.masked_sub (p := lo + n) (q := hi + 1)
  · rw [UInt32.toNat_add,Nat.mod_mod_of_dvd _ h.dvd_word,Nat.add_mod,Nat.mod_eq_zero_of_dvd h.dvd,
      htail]
    simp
  · rw [UInt32.toNat_add,Nat.mod_mod_of_dvd _ h.dvd_word,Nat.add_mod,hhead,Nat.mod_mod,
      ← Nat.add_mod]
    rfl
  · omega
  · omega

end Masks
end GgmlViz
