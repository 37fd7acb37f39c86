import GgmlViz.Ipc.RingCalls

/-! # Which sizes give a ring

`create` stores the size asked for as the capacity, cut to 32 bits and unchecked. A power
of two masks its own cells; 0 masks 2^32 cells, which are there when the size is at least
that large; with any other capacity an empty ring claims to hold bytes.
-/
namespace GgmlViz.Ring
open LittleEndian SharedRegion RingHeader RingWindow

/-- A region and the calls made on it: the bytes of the successful ones, and the cells that
their loops touched. -/
structure Transfer where
  region : SharedRegion UInt8
  written : Bytes
  returned : Bytes
  touched : List ℕ

namespace Transfer

def start (r : SharedRegion UInt8) : Transfer :=
  { region := r, written := [], returned := [], touched := [] }

def call (s : Transfer) : Call UInt8 → Transfer
  | .write data =>
    let (r,success) := s.region.write data
    if success then
      { region := r, written := s.written ++ data, returned := s.returned,
        touched := s.touched ++
          (List.range data.length).map (cellIndex s.region.capacity s.region.head) }
    else { s with region := r }
  | .read k =>
    let (r,dest) := s.region.read k
    match dest with
    | some dest =>
      { region := r, written := s.written, returned := s.returned ++ dest,
        touched := s.touched ++ (List.range k).map (cellIndex s.region.capacity s.region.tail) }
    | none => { s with region := r }

def run (calls : List (Call UInt8)) (s : Transfer) : Transfer := calls.foldl call s

end Transfer

/-- After any calls the bytes returned are the first ones written, the others can be read
whenever they are asked for, and every cell touched lies inside the region. -/
structure WorkingRing (sz : UInt64) (r : SharedRegion UInt8) : Prop where
  order : ∀ calls, let s := (Transfer.start r).run calls
    s.returned <+: s.written
  complete : ∀ calls, let s := (Transfer.start r).run calls
    ∀ k ≤ s.written.length - s.returned.length,
      (s.region.read k).2 = some ((s.written.drop s.returned.length).take k)
  inBounds : ∀ calls, ∀ i ∈ ((Transfer.start r).run calls).touched, i < sz.toNat

/-- A size that is not 0 and whose low 32 bits are 0 or a power of two. -/
def RingSize (sz : UInt64) : Prop :=
  sz ≠ 0 ∧ (sz.toNat % 2 ^ 32 = 0 ∨ (sz.toNat % 2 ^ 32).isPowerOfTwo)

/-- What every call keeps. -/
structure TransferInv (n : ℕ) (s : Transfer) : Prop where
  ring : RingInv n s.region s.written s.returned
  touched : ∀ i ∈ s.touched, i < n

namespace TransferInv
variable {n : ℕ} {s : Transfer}

theorem touched_append (h : TransferInv n s) (pos : UInt32) (k : ℕ) :
    ∀ i ∈ s.touched ++ (List.range k).map (cellIndex s.region.capacity pos), i < n := by
  intro i hi
  rcases List.mem_append.mp hi with hi | hi
  · exact h.touched i hi
  · obtain ⟨j,-,rfl⟩ := List.mem_map.mp hi
    rw [h.ring.masks.cellIndex_eq]
    exact Nat.mod_lt _ h.ring.masks.pos

theorem call (h : TransferInv n s) (c : Call UInt8) : TransferInv n (s.call c) := by
  cases c with
  | write data =>
    by_cases hroom : s.written.length + data.length < s.returned.length + n
    · obtain ⟨hok,hring⟩ := h.ring.write hroom
      simp only [Transfer.call,hok,if_true]
      exact ⟨hring,h.touched_append _ _⟩
    · simp only [Transfer.call,h.ring.write_refused hroom]
      exact h
  | read k =>
    by_cases hk : k ≤ s.written.length - s.returned.length
    · obtain ⟨hdest,hring⟩ := h.ring.read hk
      simp only [Transfer.call,hdest]
      exact ⟨hring,h.touched_append _ _⟩
    · simp only [Transfer.call,h.ring.read_refused hk]
      exact h

theorem run (h : TransferInv n s) (calls : List (Call UInt8)) : TransferInv n (s.run calls) := by
  induction calls generalizing s with
  | nil => exact h
  | cons c calls ih => exact ih (h.call c)

end TransferInv

section Create
variable {o : MapOutcome} {old r : SharedRegion UInt8} {sz : UInt64}

theorem toNat_capacity (h : create o old sz = .ok r) : r.capacity.toNat = sz.toNat % 2 ^ 32 := by
  rw [create_eq_ok h]
  exact UInt64.toNat_toUInt32 sz

/-- The number of cells that the capacity masks, if it masks a ring at all. -/
theorem RingSize.masks (hsize : RingSize sz) (h : create o old sz = .ok r) :
    ∃ n ≤ sz.toNat, Masks r.capacity n := by
  obtain ⟨hne,hlow⟩ := hsize
  have hcap := toNat_capacity h
  rcases hlow with hzero | ⟨k,hk⟩
  · have hpos : sz.toNat ≠ 0 := fun hz => hne (UInt64.toNat_inj.mp hz)
    refine ⟨2 ^ 32,?_,Masks.of_zero (UInt32.toNat_inj.mp (hcap.trans hzero))⟩
    exact Nat.le_of_dvd (Nat.pos_of_ne_zero hpos) (Nat.dvd_of_mod_eq_zero hzero)
  · have hlt : 2 ^ k < 2 ^ 32 := hk ▸ Nat.mod_lt _ (by decide)
    have hk31 : k ≤ 31 := Nat.le_of_lt_succ ((Nat.pow_lt_pow_iff_right (by decide)).mp hlt)
    exact ⟨2 ^ k,hk ▸ Nat.mod_le _ _,Masks.of_power hk31 (hcap.trans hk)⟩

theorem RingSize.works (hsize : RingSize sz) (h : create o old sz = .ok r) : WorkingRing sz r := by
  obtain ⟨n,hn,hmasks⟩ := hsize.masks h
  have hring := RingInv.of_create h hmasks
  have hstart : TransferInv n (Transfer.start r) := ⟨hring,fun i hi => absurd hi List.not_mem_nil⟩
  exact
    { order := fun calls => (hstart.run calls).ring.order
      complete := fun calls k hk => ((hstart.run calls).ring.read hk).1
      inBounds := fun calls i hi => ((hstart.run calls).touched i hi).trans_le hn }

/-- A new ring whose capacity is neither 0 nor a power of two holds bytes, it says. -/
theorem avail_pos {cap : UInt32} (hne : cap ≠ 0) (hpow : ¬cap.toNat.isPowerOfTwo) :
    1 ≤ (avail cap 0 0).toNat := by
  have hpos : cap.toNat ≠ 0 := fun hz => hne (UInt32.toNat_inj.mp hz)
  have hle : (1 : UInt32) ≤ cap := by
    rw [UInt32.le_iff_toNat_le]
    exact Nat.pos_of_ne_zero hpos
  have havail : (avail cap 0 0).toNat = cap.toNat &&& (cap.toNat - 1) := by
    rw [avail,UInt32.zero_add,UInt32.sub_zero,UInt32.toNat_and,UInt32.toNat_sub_of_le cap 1 hle]
    rfl
  rw [havail]
  apply Nat.pos_of_ne_zero
  intro hzero
  exact hpow ((Nat.and_sub_one_eq_zero_iff_isPowerOfTwo hpos).mp hzero)

theorem WorkingRing.ringSize (h : create o old sz = .ok r) (hw : WorkingRing sz r) :
    RingSize sz := by
  have hr := create_eq_ok h
  constructor
  · rintro rfl
    have hroom : ¬(freeSpace r.capacity r.head r.tail).toNat < [(0 : UInt8)].length := by
      rw [show r.capacity = 0 by rw [hr]; rfl,show r.head = 0 by rw [hr],show r.tail = 0 by rw [hr]]
      decide
    have hok : (r.write [0]).2 = true := by rw [SharedRegion.write,if_neg hroom]
    have hin := hw.inBounds [.write [0]] (cellIndex r.capacity r.head 0)
    simp only [Transfer.run,List.foldl_cons,List.foldl_nil,Transfer.call,Transfer.start,hok] at hin
    exact absurd (hin (by simp)) (Nat.not_lt_zero _)
  · have hcap := toNat_capacity h
    by_contra hno
    obtain ⟨hzero,hpow⟩ := not_or.mp hno
    rw [← hcap] at hzero hpow
    have havail := avail_pos (fun hz => hzero (by rw [hz]; rfl)) hpow
    have hread : (r.read 1).2 = some [r.base (cellIndex r.capacity r.tail 0)] := by
      have hpass : ¬(avail r.capacity r.head r.tail).toNat < 1 := by
        rw [show r.head = 0 by rw [hr],show r.tail = 0 by rw [hr]]
        omega
      rw [SharedRegion.read,if_neg hpass]
      rfl
    have horder := hw.order [.read 1]
    have hrun : ((Transfer.start r).run [.read 1]).returned =
        [r.base (cellIndex r.capacity r.tail 0)] ∧
        ((Transfer.start r).run [.read 1]).written = [] := by
      simp only [Transfer.run,List.foldl_cons,List.foldl_nil,Transfer.call,Transfer.start,hread]
      exact ⟨rfl,trivial⟩
    have hle := horder.length_le
    rw [hrun.1,hrun.2] at hle
    exact absurd hle (Nat.not_succ_le_zero 0)

/-- A region that `create` returned works as a ring exactly when the size is not 0 and its
low 32 bits are 0 or a power of two. -/
theorem create_works_iff (h : create o old sz = .ok r) : WorkingRing sz r ↔ RingSize sz :=
  ⟨fun hw => hw.ringSize h,fun hsize => hsize.works h⟩

end Create

section Run

/-- An object of zeros, before it is mapped. -/
def zeroObject : SharedRegion UInt8 :=
  { head := 0, tail := 0, capacity := 0, base := fun _ => 0, mapSize := 0 }

/-- The mapping succeeds. -/
def mapsAll : MapOutcome := { shmOpens := true, truncates := true, maps := true, lockFree := true }

theorem create_works_iff_four : ∃ r, create mapsAll zeroObject 4 = .ok r ∧
    (WorkingRing 4 r ↔ RingSize 4) := by
  have h : create mapsAll zeroObject 4 =
      .ok { zeroObject with capacity := (4 : UInt64).toUInt32, mapSize := headerSize + 4 } := rfl
  exact ⟨_,h,create_works_iff h⟩

/-- A ring of three cells returns a byte before one was written. -/
theorem not_works_three : ∃ r, create mapsAll zeroObject 3 = .ok r ∧ ¬WorkingRing 3 r := by
  refine ⟨_,rfl,?_⟩
  intro hw
  have hread := (hw.order [.read 1]).length_le
  exact absurd hread (by decide)

end Run
end GgmlViz.Ring
