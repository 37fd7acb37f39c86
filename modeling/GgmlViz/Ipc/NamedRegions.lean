import GgmlViz.Foundation.NameTable
import GgmlViz.Foundation.Transition
import GgmlViz.Ipc.OpenedRegion

/-! # Regions under a name

Any number of processes create, open and destroy regions under names, and write to them and
read from them, in any order; all ask for one size. Each call runs to its end before the next
one begins: no two overlap, and no process ends within one. On POSIX a creator empties what there is
under the name, and takes the name away when it is destroyed.
-/
namespace GgmlViz.Ring
open LittleEndian SharedRegion RingHeader RingWindow NameTable

/-- A `SharedMemoryRegion` of some process. -/
structure Mapping where
  /-- What the system reads of the name, which ends before a zero byte. -/
  name : Bytes
  object : ℕ
  mapSize : UInt64
  isCreator : Bool
  /-- How often the name had been removed before. -/
  since : ℕ

/-- What the system keeps under names, and who has mapped it. -/
structure NamedWorld where
  names : Table Bytes
  objects : ℕ → SharedRegion UInt8
  mappings : List Mapping
  /-- The bytes of the successful calls, since the object was last made an empty ring. -/
  written : ℕ → Bytes
  returned : ℕ → Bytes

/-- A call of some process, from its beginning to its end. -/
inductive NamedAction
  | create (name : Bytes) (o : MapOutcome)
  | openRegion (name : Bytes) (o : MapOutcome)
  | call (i : ℕ) (c : Call UInt8)
  | destroy (i : ℕ)
  /-- The process ends, and no destructor runs. -/
  | kill (i : ℕ)

/-- The bytes that a call writes and returns. -/
def Call.moved (r : SharedRegion UInt8) : Call UInt8 → Bytes × Bytes
  | .write data => (if (r.write data).2 then data else [],[])
  | .read k => ([],(r.read k).2.getD [])

namespace NamedWorld

def start : NamedWorld where
  names := .empty
  objects _ := zeroObject
  mappings := []
  written _ := []
  returned _ := []

/-- An object as a process has it mapped. -/
def view (w : NamedWorld) (m : Mapping) : SharedRegion UInt8 :=
  { w.objects m.object with mapSize := m.mapSize }

def callBy (m : Mapping) (c : Call UInt8) (w : NamedWorld) : NamedWorld :=
  let moved := c.moved (w.view m)
  { w with
    objects := Function.update w.objects m.object (c.after (w.view m))
    written := Function.update w.written m.object (w.written m.object ++ moved.1)
    returned := Function.update w.returned m.object (w.returned m.object ++ moved.2) }

/-- The object is a ring from now on, and nothing was written to it. -/
def renew (object : ℕ) (region : SharedRegion UInt8) (w : NamedWorld) : NamedWorld :=
  { w with
    objects := Function.update w.objects object region
    written := Function.update w.written object []
    returned := Function.update w.returned object [] }

variable (sz : UInt64)

/-- A new region of this object. -/
def map (name : Bytes) (object : ℕ) (isCreator : Bool) (w : NamedWorld) : NamedWorld :=
  let m : Mapping :=
    { name := name, object := object, mapSize := headerSize + sz, isCreator := isCreator
      since := w.names.removals name }
  { w with mappings := w.mappings ++ [m] }

/-- `createImpl` of the POSIX file with `create` set; where it throws after `shm_open`, it has
called `shm_unlink`. -/
def posixCreate (name : Bytes) (o : MapOutcome) (w : NamedWorld) : NamedWorld :=
  if !o.shmOpens then w
  else
    let (names,object) := w.names.findOrAdd name
    match createImpl o (w.objects object) sz true with
    | .error _ => { w with names := names.remove name }
    | .ok region => ({ w with names }.renew object region).map sz name object true

/-- `createImpl` of the POSIX file without `create`. -/
def posixOpen (name : Bytes) (o : MapOutcome) (w : NamedWorld) : NamedWorld :=
  match w.names.find name with
  | none => w
  | some object =>
    match createImpl o (w.objects object) sz false with
    | .error _ => w
    | .ok _ => w.map sz name object false

def posixAct : NamedAction → NamedWorld → Option NamedWorld
  | .create name o, w => some (w.posixCreate sz name o)
  | .openRegion name o, w => some (w.posixOpen sz name o)
  | .call i c, w => w.mappings[i]?.map (fun m => w.callBy m c)
  | .destroy i, w => w.mappings[i]?.map (fun m =>
    { w with
      mappings := w.mappings.eraseIdx i
      names := if m.isCreator then w.names.remove m.name else w.names })
  | .kill i, w => w.mappings[i]?.map (fun _ => { w with mappings := w.mappings.eraseIdx i })

end NamedWorld

/-- The processes do anything, in any order, one call after the other. -/
def posixSystem (sz : UInt64) : Transition.System NamedWorld NamedAction where
  init w := w = .start
  may _ _ := True
  act := NamedWorld.posixAct sz

instance (sz : UInt64) (w : NamedWorld) (a : NamedAction) :
    Decidable ((posixSystem sz).may w a) :=
  inferInstanceAs (Decidable True)

/-- What the processes can rely on. -/
structure PosixRegions (w : NamedWorld) : Prop where
  /-- Two regions are one ring if their name is the same and was not removed between. -/
  shares : ∀ m ∈ w.mappings, ∀ m' ∈ w.mappings,
    m.object = m'.object ↔ m.name = m'.name ∧ m.since = m'.since
  /-- A region can be joined until its name is removed. -/
  joins : ∀ m ∈ w.mappings,
    w.names.find m.name = some m.object ↔ m.since = w.names.removals m.name
  order : ∀ m ∈ w.mappings, w.returned m.object <+: w.written m.object
  complete : ∀ m ∈ w.mappings, let unread := (w.written m.object).drop (w.returned m.object).length
    ∀ k ≤ unread.length, ((w.view m).read k).2 = some (unread.take k)
  inBounds : ∀ m ∈ w.mappings, ∀ c : Call UInt8, ∀ i ∈ c.touches (w.view m),
    headerSize.toNat + i < m.mapSize.toNat

section Rings
variable {n : ℕ} {r : SharedRegion UInt8} {written returned : Bytes} {w : NamedWorld}

theorem RingInv.moved (h : RingInv n r written returned) (c : Call UInt8) :
    RingInv n (c.after r) (written ++ (c.moved r).1) (returned ++ (c.moved r).2) := by
  cases c with
  | write data =>
    by_cases hroom : written.length + data.length < returned.length + n
    · obtain ⟨hok,hring⟩ := h.write hroom
      simpa [Call.after,Call.moved,hok] using hring
    · simpa [Call.after,Call.moved,h.write_refused hroom] using h
  | read k =>
    by_cases hk : k ≤ written.length - returned.length
    · obtain ⟨hdest,hring⟩ := h.read hk
      simpa [Call.after,Call.moved,hdest] using hring
    · simpa [Call.after,Call.moved,h.read_refused hk] using h

namespace NamedWorld

/-- The object is a ring of `n` cells, with the bytes that were written and not returned. -/
def Holds (n : ℕ) (w : NamedWorld) (o : ℕ) : Prop :=
  RingInv n (w.objects o) (w.written o) (w.returned o)

theorem forall_mem_map {P : Mapping → Prop} (sz : UInt64) {name : Bytes} {object : ℕ}
    {isCreator : Bool} (hold : ∀ m ∈ w.mappings, P m)
    (hnew : P ⟨name,object,headerSize + sz,isCreator,w.names.removals name⟩) :
    ∀ m ∈ (w.map sz name object isCreator).mappings, P m := by
  intro m hm
  rcases List.mem_append.mp hm with hm | hm
  · exact hold m hm
  · rw [List.mem_singleton.mp hm]
    exact hnew

theorem Holds.callBy {o : ℕ} (h : w.Holds n o) (m : Mapping) (c : Call UInt8) :
    (w.callBy m c).Holds n o := by
  unfold Holds NamedWorld.callBy
  by_cases ho : o = m.object
  · subst ho
    simp only [Function.update_self]
    exact (RingInv.remap h m.mapSize).moved c
  · simp only [Function.update_of_ne ho]
    exact h

theorem Holds.renew_of_ne {o object : ℕ} (h : w.Holds n o) (ho : o ≠ object) :
    (w.renew object r).Holds n o := by
  unfold Holds NamedWorld.renew
  simp only [Function.update_of_ne ho]
  exact h

theorem Holds.renew {o object : ℕ} (h : o ≠ object → w.Holds n o) (hr : RingInv n r [] []) :
    (w.renew object r).Holds n o := by
  by_cases ho : o = object
  · subst ho
    unfold Holds NamedWorld.renew
    simpa only [Function.update_self] using hr
  · exact (h ho).renew_of_ne ho

/-- What a region of a ring can rely on, whatever else happens. -/
theorem Holds.read {m : Mapping} (h : w.Holds n m.object) :
    w.returned m.object <+: w.written m.object ∧
      ∀ k ≤ ((w.written m.object).drop (w.returned m.object).length).length,
        ((w.view m).read k).2 =
          some (((w.written m.object).drop (w.returned m.object).length).take k) := by
  refine ⟨h.order,?_⟩
  intro k hk
  rw [List.length_drop] at hk
  exact ((RingInv.remap h m.mapSize).read hk).1

end NamedWorld
end Rings

/-- What every step keeps. -/
structure PosixInv (n : ℕ) (sz : UInt64) (w : NamedWorld) : Prop where
  named : ∀ name o, w.names.find name = some o → w.Holds n o
  mapped : ∀ m ∈ w.mappings, w.Holds n m.object
  born : ∀ m ∈ w.mappings, w.names.births[m.object]? = some (m.name,m.since)
  size : ∀ m ∈ w.mappings, m.mapSize = headerSize + sz

namespace PosixInv
variable {n : ℕ} {sz : UInt64} {w w' : NamedWorld} (h : PosixInv n sz w)
include h

/-- A region less, and a name less or not. -/
theorem erase (i : ℕ) {names : Table Bytes} (hbirths : names.births = w.names.births)
    (hnames : ∀ name o, names.find name = some o → w.names.find name = some o) :
    PosixInv n sz { w with mappings := w.mappings.eraseIdx i, names } where
  named := fun name o ho => h.named name o (hnames name o ho)
  mapped := fun m hm => h.mapped m (List.mem_of_mem_eraseIdx hm)
  born := by
    intro m hm
    dsimp only
    rw [hbirths]
    exact h.born m (List.mem_of_mem_eraseIdx hm)
  size := fun m hm => h.size m (List.mem_of_mem_eraseIdx hm)

/-- A region more, of an object that has a name. -/
theorem map {name : Bytes} {object : ℕ} (hfind : w.names.find name = some object)
    (isCreator : Bool) : PosixInv n sz (w.map sz name object isCreator) where
  named := h.named
  mapped := NamedWorld.forall_mem_map sz h.mapped (h.named name object hfind)
  born := NamedWorld.forall_mem_map sz h.born (Table.find_eq_some_iff.mp hfind)
  size := NamedWorld.forall_mem_map sz h.size rfl

theorem born_mono {births : List (Birth Bytes)} (hmore : w.names.births <+: births) :
    ∀ m ∈ w.mappings, births[m.object]? = some (m.name,m.since) := by
  intro m hm
  obtain ⟨hlt,hbirth⟩ := List.getElem?_eq_some_iff.mp (h.born m hm)
  obtain ⟨more,rfl⟩ := hmore
  rw [List.getElem?_append_left hlt]
  exact h.born m hm

theorem create (hmasks : Masks sz.toUInt32 n) (name : Bytes) (o : MapOutcome) :
    PosixInv n sz (w.posixCreate sz name o) := by
  unfold NamedWorld.posixCreate
  split
  · exact h
  · obtain ⟨hmore,-,hfind⟩ := Table.findOrAdd_spec name w.names
    have hother {other : Bytes} (hne : other ≠ name) :
        (w.names.findOrAdd name).1.find other = w.names.find other :=
      Table.find_findOrAdd_of_ne hne
    generalize w.names.findOrAdd name = found at hmore hfind hother
    obtain ⟨names,object⟩ := found
    dsimp only at hmore hfind hother ⊢
    split
    · exact
        { named := by
            intro other o' ho'
            by_cases hname : other = name
            · subst hname
              rw [Table.find_remove] at ho'
              cases ho'
            · rw [Table.find_remove_of_ne hname,hother hname] at ho'
              exact h.named other o' ho'
          mapped := h.mapped
          born := h.born_mono hmore
          size := h.size }
    · next region hregion =>
      have hring : RingInv n region [] [] := by
        apply RingInv.of_create hregion
        rw [create_eq_ok hregion]
        exact hmasks
      have hnew : PosixInv n sz ({ w with names }.renew object region) :=
        { named := by
            intro other o' ho'
            refine .renew (fun hne => ?_) hring
            have hname : other ≠ name := by
              rintro rfl
              exact hne (Option.some.inj (ho'.symm.trans hfind))
            exact h.named other o' ((hother hname).symm.trans ho')
          mapped := fun m hm => .renew (fun _ => h.mapped m hm) hring
          born := h.born_mono hmore
          size := h.size }
      exact hnew.map hfind true

theorem step (hmasks : Masks sz.toUInt32 n) {a : NamedAction}
    (hact : w.posixAct sz a = some w') : PosixInv n sz w' := by
  cases a with
  | create name o =>
    cases hact
    exact h.create hmasks name o
  | openRegion name o =>
    cases hact
    unfold NamedWorld.posixOpen
    split
    · exact h
    · next object hfind =>
      split
      · exact h
      · exact h.map hfind false
  | call i c =>
    obtain ⟨m,-,rfl⟩ := Option.map_eq_some_iff.mp hact
    exact
      { named := fun name o ho => (h.named name o ho).callBy m c
        mapped := fun m' hm' => (h.mapped m' hm').callBy m c
        born := h.born
        size := h.size }
  | destroy i =>
    obtain ⟨m,-,rfl⟩ := Option.map_eq_some_iff.mp hact
    apply h.erase i
    · split <;> rfl
    · intro name o ho
      split at ho
      · by_cases hname : name = m.name
        · subst hname
          rw [Table.find_remove] at ho
          cases ho
        · rwa [Table.find_remove_of_ne hname] at ho
      · exact ho
  | kill i =>
    obtain ⟨-,-,rfl⟩ := Option.map_eq_some_iff.mp hact
    exact h.erase i rfl (fun _ _ ho => ho)

end PosixInv

section Sizes
variable {sz : UInt64} (hsize : RingSize sz)
include hsize

/-- The ring has its cells in the memory asked for, and the size with the header fits. -/
theorem RingSize.cells : ∃ n ≤ sz.toNat, Masks sz.toUInt32 n := by
  have hcreate : create mapsAll zeroObject sz =
      .ok { zeroObject with capacity := sz.toUInt32, mapSize := headerSize + sz } := rfl
  exact hsize.masks hcreate

theorem RingSize.low_le : sz.toNat % 2 ^ 32 ≤ 2 ^ 31 := by
  rcases hsize.2 with hzero | ⟨k,hk⟩
  · rw [hzero]
    exact Nat.zero_le _
  · have hlt : 2 ^ k < 2 ^ 32 := hk ▸ Nat.mod_lt _ (by decide)
    have hk31 : k ≤ 31 := Nat.le_of_lt_succ ((Nat.pow_lt_pow_iff_right (by decide)).mp hlt)
    exact hk ▸ Nat.pow_le_pow_right (by decide) hk31

theorem RingSize.mapSize : (headerSize + sz).toNat = headerSize.toNat + sz.toNat := by
  have hlow := hsize.low_le
  have hword := sz.toNat_lt
  have hheader : headerSize.toNat = 12 := rfl
  rw [UInt64.toNat_add,hheader,Nat.mod_eq_of_lt (by omega)]

end Sizes

/-- A ring in a region of the size of all regions. -/
theorem NamedWorld.Holds.inBounds {n : ℕ} {sz : UInt64} {w : NamedWorld} {m : Mapping}
    (hsize : RingSize sz) (hn : n ≤ sz.toNat) (hm : m.mapSize = headerSize + sz)
    (h : w.Holds n m.object) (c : Call UInt8) :
    ∀ i ∈ c.touches (w.view m), headerSize.toNat + i < m.mapSize.toNat := by
  intro i hi
  have hcell := (Call.touches_lt (RingInv.remap h m.mapSize) c i hi).1
  rw [hm,hsize.mapSize]
  omega

/-- Processes that create, open and destroy regions under names in any order, one call after the
other. -/
theorem posixRegions {sz : UInt64} (hsize : RingSize sz) {w : NamedWorld}
    (h : (posixSystem sz).Reachable w) : PosixRegions w := by
  obtain ⟨n,hn,hmasks⟩ := hsize.cells
  have hinv : PosixInv n sz w := by
    apply h.invariant
    · rintro w rfl
      exact
        { named := nofun
          mapped := nofun
          born := nofun
          size := nofun }
    · intro w a w' hw _ hact
      exact hw.step hmasks hact
  exact
    { shares := by
        intro m hm m' hm'
        rw [Table.eq_iff_birth (hinv.born m hm) (hinv.born m' hm'),Prod.mk.injEq]
      joins := by
        intro m hm
        rw [Table.find_eq_some_iff,hinv.born m hm,Option.some.injEq,Prod.mk.injEq]
        exact and_iff_right rfl
      order := fun m hm => (hinv.mapped m hm).read.1
      complete := fun m hm => (hinv.mapped m hm).read.2
      inBounds := fun m hm => (hinv.mapped m hm).inBounds hsize hn (hinv.size m hm) }

section Recreated

/-- `a` -/
def someName : Bytes := [97]

/-- Two processes create a region under one name, and a third one opens it; when the first
destroys it, the second has it no longer under the name. -/
def createdTwice : List NamedAction :=
  [.create someName mapsAll,.call 0 (.write [1,2]),.openRegion someName mapsAll,.call 1 (.read 1),
    .create someName mapsAll,.call 2 (.write [3]),.destroy 0,.openRegion someName mapsAll,
    .create someName mapsAll]

theorem posixRegions_createdTwice : ∃ w : NamedWorld, (posixSystem 8).Reachable w ∧
    (w.mappings.map Mapping.object,w.written 0,w.returned 0) = ([0,0,1],[3],[]) ∧
      PosixRegions w := by
  obtain ⟨w,hw,hview⟩ := Transition.System.Reachable.of_replay
    (S := posixSystem 8) (s := .start) rfl createdTwice
    (fun w => (w.mappings.map Mapping.object,w.written 0,w.returned 0))
    (v := ([0,0,1],[3],[])) (by decide +kernel)
  exact ⟨w,hw,hview,posixRegions (by unfold RingSize; decide) hw⟩

end Recreated
end GgmlViz.Ring
