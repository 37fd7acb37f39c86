import GgmlViz.Ipc.RingSizes

/-! # A region opened with a size of its own

`open` maps as much as its caller says, while `write` and `read` go by the capacity that the
creator left in the header. The two sizes are never compared.
-/
namespace GgmlViz.Ring
open LittleEndian SharedRegion RingHeader RingWindow
variable {α : Type}

/-- `SharedMemoryRegion::open`. -/
def openRegion (o : MapOutcome) (old : SharedRegion α) (sz : UInt64) :
    Except Bytes (SharedRegion α) :=
  createImpl o old sz false

theorem openRegion_eq_ok {o : MapOutcome} {old r : SharedRegion α} {sz : UInt64}
    (h : openRegion o old sz = .ok r) : r = { old with mapSize := headerSize + sz } := by
  cases hm : o.shmOpens <;> cases hp : o.maps <;> simp [openRegion,createImpl,hm,hp] at h
  exact h.symm

section Call

def Call.after (r : SharedRegion α) : Call α → SharedRegion α
  | .write data => (r.write data).1
  | .read k => (r.read k).1

/-- The cells that the copy loop of a call goes through. -/
def Call.touches (r : SharedRegion α) : Call α → List ℕ
  | .write data =>
    if (r.write data).2 then (List.range data.length).map (cellIndex r.capacity r.head) else []
  | .read k =>
    if (r.read k).2.isSome then (List.range k).map (cellIndex r.capacity r.tail) else []

variable {n : ℕ} {r : SharedRegion α} {written returned : List α}

theorem Call.touches_write (h : RingInv n r written returned) {data : List α}
    (hroom : written.length + data.length < returned.length + n) :
    (Call.write data).touches r = (List.range data.length).map (cellIndex r.capacity r.head) := by
  rw [touches,(h.write hroom).1,if_pos rfl]

theorem mem_cells (h : Masks r.capacity n) {pos : UInt32} {k i : ℕ}
    (hi : i ∈ (List.range k).map (cellIndex r.capacity pos)) : i < n ∧ 0 < k := by
  obtain ⟨j,hj,rfl⟩ := List.mem_map.mp hi
  rw [h.cellIndex_eq]
  exact ⟨Nat.mod_lt _ h.pos,Nat.zero_lt_of_lt (List.mem_range.mp hj)⟩

/-- A ring of one cell is always full and always empty. -/
theorem Call.touches_lt (h : RingInv n r written returned) (c : Call α) :
    ∀ i ∈ c.touches r, i < n ∧ 2 ≤ n := by
  have hlo := h.window.lo_le
  have hfits := h.window.fits
  intro i hi
  cases c with
  | write data =>
    by_cases hroom : written.length + data.length < returned.length + n
    · rw [touches_write h hroom] at hi
      have hcell := mem_cells h.masks hi
      omega
    · rw [touches,h.write_refused hroom] at hi
      exact absurd hi List.not_mem_nil
  | read k =>
    by_cases hk : k ≤ written.length - returned.length
    · rw [touches,(h.read hk).1,Option.isSome_some,if_pos rfl] at hi
      have hcell := mem_cells h.masks hi
      omega
    · rw [touches,h.read_refused hk] at hi
      exact absurd hi List.not_mem_nil

/-- The size of the mapping plays no part in the ring. -/
theorem RingInv.remap (h : RingInv n r written returned) (size : UInt64) :
    RingInv n { r with mapSize := size } written returned :=
  { masks := h.masks, head := h.head, tail := h.tail, window := h.window, order := h.order }

theorem RingInv.after (h : RingInv n r written returned) (c : Call α) :
    ∃ written returned, RingInv n (c.after r) written returned := by
  cases c with
  | write data =>
    by_cases hroom : written.length + data.length < returned.length + n
    · exact ⟨_,_,(h.write hroom).2⟩
    · rw [Call.after,h.write_refused hroom]
      exact ⟨_,_,h⟩
  | read k =>
    by_cases hk : k ≤ written.length - returned.length
    · exact ⟨_,_,(h.read hk).2⟩
    · rw [Call.after,h.read_refused hk]
      exact ⟨_,_,h⟩

end Call

inductive Side
  | creator
  | opener

/-- One object in the mappings of both sides. -/
structure Opened where
  /-- As the creator has it mapped. -/
  region : SharedRegion UInt8
  /-- `map_size_` of the opener. -/
  mapSize : UInt64
  /-- The cells that calls through the opened region touched. -/
  touched : List ℕ

namespace Opened

def start (created opened : SharedRegion UInt8) : Opened :=
  { region := created, mapSize := opened.mapSize, touched := [] }

def call (s : Opened) : Side × Call UInt8 → Opened
  | (.creator,c) => { s with region := c.after s.region }
  | (.opener,c) =>
    let view := { s.region with mapSize := s.mapSize }
    { s with
      region := { c.after view with mapSize := s.region.mapSize }
      touched := s.touched ++ c.touches view }

def run (calls : List (Side × Call UInt8)) (s : Opened) : Opened := calls.foldl call s

/-- Every cell touched lies in the mapping of the opener, behind the header. -/
def InBounds (s : Opened) : Prop := ∀ i ∈ s.touched, headerSize.toNat + i < s.mapSize.toNat

/-- What every call keeps: a ring of `n` cells, of which the opener touched some. -/
structure Inv (n : ℕ) (size : UInt64) (s : Opened) : Prop where
  ring : ∃ written returned, RingInv n s.region written returned
  touched : ∀ i ∈ s.touched, i < n ∧ 2 ≤ n
  mapSize : s.mapSize = size

variable {n : ℕ} {size : UInt64} {s : Opened}

theorem Inv.call (h : Inv n size s) (c : Side × Call UInt8) : Inv n size (s.call c) := by
  obtain ⟨side,c⟩ := c
  obtain ⟨written,returned,hring⟩ := h.ring
  cases side with
  | creator => exact { ring := hring.after c, touched := h.touched, mapSize := h.mapSize }
  | opener =>
    obtain ⟨written',returned',hafter⟩ := (hring.remap s.mapSize).after c
    exact
      { ring := ⟨written',returned',hafter.remap _⟩
        touched := by
          intro i hi
          rcases List.mem_append.mp hi with hi | hi
          · exact h.touched i hi
          · exact Call.touches_lt (hring.remap s.mapSize) c i hi
        mapSize := h.mapSize }

theorem Inv.run (h : Inv n size s) (calls : List (Side × Call UInt8)) :
    Inv n size (s.run calls) := by
  induction calls generalizing s with
  | nil => exact h
  | cons c calls ih => exact ih (h.call c)

/-- `k` times a byte in and out again. -/
def sweep (k : ℕ) : List (Side × Call UInt8) :=
  (List.replicate k [(Side.opener,Call.write [0]),(Side.opener,Call.read 1)]).flatten

/-- Each round moves both positions on by one. -/
theorem run_sweep (hn : 2 ≤ n) (k : ℕ) {written returned : Bytes}
    (hring : RingInv n s.region written returned) (hsame : returned.length = written.length) :
    ∃ written' returned', RingInv n (s.run (sweep k)).region written' returned' ∧
      returned'.length = written'.length ∧ written'.length = written.length + k ∧
      (s.run (sweep k)).mapSize = s.mapSize := by
  induction k generalizing s written returned with
  | zero => exact ⟨written,returned,hring,hsame,rfl,rfl⟩
  | succ k ih =>
    have hroom : written.length + [(0 : UInt8)].length < returned.length + n := by
      rw [List.length_singleton]
      omega
    have hwrite := ((hring.remap s.mapSize).write hroom).2
    have hone : 1 ≤ (written ++ [(0 : UInt8)]).length - returned.length := by
      rw [List.length_append,List.length_singleton]
      omega
    have hread := (((hwrite.remap s.region.mapSize).remap s.mapSize).read hone).2
    obtain ⟨written',returned',hring',hsame',hlen,hsize⟩ := ih
      (s := (s.call (.opener,.write [0])).call (.opener,.read 1)) (hread.remap _) (by
        simp only [List.length_append,List.length_take,List.length_drop,List.length_singleton]
        omega)
    refine ⟨written',returned',hring',hsame',?_,hsize⟩
    rw [hlen,List.length_append,List.length_singleton]
    omega

/-- A ring of at least two cells lets the opener reach its last cell. -/
theorem touches_last (hn : 2 ≤ n) (hring : RingInv n s.region [] []) :
    n - 1 ∈ (s.run (sweep (n - 1) ++ [(.opener,.write [0])])).touched := by
  obtain ⟨written,returned,hring',hsame,hlen,-⟩ := run_sweep hn (n - 1) hring rfl
  have hroom : written.length + [(0 : UInt8)].length < returned.length + n := by
    rw [List.length_singleton]
    omega
  have hview := hring'.remap (s.run (sweep (n - 1))).mapSize
  have hcell : cellIndex (s.run (sweep (n - 1))).region.capacity
      (s.run (sweep (n - 1))).region.head 0 = n - 1 := by
    rw [hring'.masks.cellIndex_eq,hring'.head,Nat.add_zero,Nat.mod_mod,hlen,List.length_nil,
      Nat.zero_add,Nat.mod_eq_of_lt (by omega)]
  have hlast : n - 1 ∈ (Call.write [(0 : UInt8)]).touches
      { (s.run (sweep (n - 1))).region with mapSize := (s.run (sweep (n - 1))).mapSize } := by
    rw [Call.touches_write hview hroom]
    exact List.mem_map.mpr ⟨0,by simp,hcell⟩
  rw [run,List.foldl_append]
  exact List.mem_append_right _ hlast

end Opened

section Open
variable {o1 o2 : MapOutcome} {old created opened : SharedRegion UInt8} {s1 s2 : UInt64}

/-- How many cells the capacity of a created region masks. -/
theorem masks_create (hpow : s1.toNat.isPowerOfTwo) (hcreate : create o1 old s1 = .ok created) :
    Masks created.capacity (min s1.toNat (2 ^ 32)) := by
  obtain ⟨k,hk⟩ := hpow
  have hcap := toNat_capacity hcreate
  rw [hk] at hcap ⊢
  by_cases h31 : k ≤ 31
  · have hlt : 2 ^ k < 2 ^ 32 := Nat.pow_lt_pow_right (by decide) (by omega)
    rw [Nat.min_eq_left hlt.le]
    exact Masks.of_power h31 (hcap.trans (Nat.mod_eq_of_lt hlt))
  · have hle : 2 ^ 32 ≤ 2 ^ k := Nat.pow_le_pow_right (by decide) (by omega)
    rw [Nat.min_eq_right hle]
    have hzero : 2 ^ k % 2 ^ 32 = 0 :=
      Nat.mod_eq_zero_of_dvd (Nat.pow_dvd_pow 2 (by omega))
    exact Masks.of_zero (UInt32.toNat_inj.mp (hcap.trans hzero))

/-- The calls through an opened region stay inside its mapping if and only if the region has
one cell, or the mapping has room for the header and all cells of the creator's ring. -/
theorem opened_inBounds_iff (hpow : s1.toNat.isPowerOfTwo)
    (hcreate : create o1 old s1 = .ok created) (hopen : openRegion o2 created s2 = .ok opened) :
    (∀ calls, ((Opened.start created opened).run calls).InBounds) ↔
      s1 = 1 ∨ (min s1.toNat (2 ^ 32) ≤ s2.toNat ∧ s2.toNat + headerSize.toNat < 2 ^ 64) := by
  have hmasks := masks_create hpow hcreate
  have hring := RingInv.of_create hcreate hmasks
  have hsize : opened.mapSize.toNat = (12 + s2.toNat) % 2 ^ 64 := by
    rw [openRegion_eq_ok hopen]
    exact UInt64.toNat_add headerSize s2
  have hheader : headerSize.toNat = 12 := rfl
  have hs2 := s2.toNat_lt
  have hpos := hmasks.pos
  have hstart : Opened.Inv (min s1.toNat (2 ^ 32)) opened.mapSize (Opened.start created opened) :=
    { ring := ⟨[],[],hring⟩
      touched := fun i hi => absurd hi List.not_mem_nil
      mapSize := rfl }
  constructor
  · intro h
    by_cases hone : s1 = 1
    · exact Or.inl hone
    · right
      have hne : s1.toNat ≠ 1 := fun h => hone (UInt64.toNat_inj.mp h)
      have hlast := h _ _ (Opened.touches_last (s := Opened.start created opened)
        (by omega) hring)
      rw [(hstart.run _).mapSize,hsize] at hlast
      omega
  · intro h calls i hi
    obtain ⟨hlt,htwo⟩ := (hstart.run calls).touched i hi
    rw [(hstart.run calls).mapSize,hsize]
    rcases h with rfl | ⟨hle,hfits⟩
    · exact absurd htwo (by decide)
    · omega

theorem opened_inBounds_iff_four :
    ∃ created opened, create mapsAll zeroObject 4 = .ok created ∧
      openRegion mapsAll created 4 = .ok opened ∧
      ((∀ calls, ((Opened.start created opened).run calls).InBounds) ↔
        (4 : UInt64) = 1 ∨ (min (4 : UInt64).toNat (2 ^ 32) ≤ (4 : UInt64).toNat ∧
          (4 : UInt64).toNat + headerSize.toNat < 2 ^ 64)) := by
  obtain ⟨created,hcreate⟩ : ∃ r, create mapsAll zeroObject 4 = .ok r := ⟨_,rfl⟩
  obtain ⟨opened,hopen⟩ : ∃ r, openRegion mapsAll created 4 = .ok r := ⟨_,rfl⟩
  exact ⟨created,opened,hcreate,hopen,opened_inBounds_iff ⟨2,rfl⟩ hcreate hopen⟩

/-- A ring of four cells in a mapping of two: the third byte written is outside. -/
theorem not_opened_inBounds : ¬∀ (o1 o2 : MapOutcome) (old created opened : SharedRegion UInt8)
    (s1 s2 : UInt64), s1.toNat.isPowerOfTwo → create o1 old s1 = .ok created →
      openRegion o2 created s2 = .ok opened →
        ∀ calls, ((Opened.start created opened).run calls).InBounds := by
  intro h
  have hin := h mapsAll mapsAll zeroObject _ _ 4 2 ⟨2,rfl⟩ rfl rfl
    [(.opener,.write [0,0,0])] 2 (by decide)
  exact absurd hin (by decide)

end Open
end GgmlViz.Ring
