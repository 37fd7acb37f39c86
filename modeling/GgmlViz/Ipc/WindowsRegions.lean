import GgmlViz.Ipc.NamedRegions

/-! # Regions under a name on Windows

Creating and opening are one call of the system, which makes a section of zeros where there is
none; the section is gone with the last region of it. `create` leaves a ring that it finds as
it is. A section that `open` has made gets no capacity, and never does. Here too no two calls
overlap.
-/
namespace GgmlViz.Ring
open LittleEndian SharedRegion RingHeader RingWindow NameTable

structure WindowsWorld extends NamedWorld where
  /-- The sections that `create` has made. -/
  created : ℕ → Bool

namespace WindowsWorld

def start : WindowsWorld where
  toNamedWorld := .start
  created _ := false

variable (sz : UInt64)

/-- `createImpl` of the Windows file; `shmOpens` is the outcome of `CreateFileMapping`. -/
def createImpl (create : Bool) (name : Bytes) (o : MapOutcome) (w : WindowsWorld) : WindowsWorld :=
  if !o.shmOpens then w
  else
    match w.names.find name with
    | some object =>
      -- `GetLastError` is `ERROR_ALREADY_EXISTS`
      if !o.maps then w else { w with toNamedWorld := w.toNamedWorld.map sz name object create }
    | none =>
      let (names,object) := w.names.findOrAdd name
      -- the handle that is closed is the only one
      if !o.maps || create && !o.lockFree then { w with names := names.remove name }
      else
        let region := if create then { zeroObject with capacity := sz.toUInt32 } else zeroObject
        let w' := { w.toNamedWorld with names }.renew object region
        { toNamedWorld := w'.map sz name object create
          created := Function.update w.created object create }

/-- A region is unmapped and its handle is closed, by the destructor or with its process. -/
def close (i : ℕ) (w : WindowsWorld) : Option WindowsWorld :=
  w.mappings[i]?.map (fun m =>
    let mappings := w.mappings.eraseIdx i
    let last := mappings.all (fun m' => decide (m'.object ≠ m.object))
    { w with mappings, names := if last then w.names.remove m.name else w.names })

def act : NamedAction → WindowsWorld → Option WindowsWorld
  | .create name o, w => some (w.createImpl sz true name o)
  | .openRegion name o, w => some (w.createImpl sz false name o)
  | .call i c, w =>
    w.mappings[i]?.map (fun m => { w with toNamedWorld := w.toNamedWorld.callBy m c })
  | .destroy i, w | .kill i, w => w.close i

end WindowsWorld

def windowsSystem (sz : UInt64) : Transition.System WindowsWorld NamedAction where
  init w := w = .start
  may _ _ := True
  act := WindowsWorld.act sz

instance (sz : UInt64) (w : WindowsWorld) (a : NamedAction) :
    Decidable ((windowsSystem sz).may w a) :=
  inferInstanceAs (Decidable True)

/-- What the processes can rely on. -/
structure WindowsRegions (sz : UInt64) (w : WindowsWorld) : Prop where
  /-- Regions are one ring if their name is the same. -/
  shares : ∀ m ∈ w.mappings, ∀ m' ∈ w.mappings, m.object = m'.object ↔ m.name = m'.name
  /-- There is a ring under a name as long as there are regions of it. -/
  joins : ∀ name o, w.names.find name = some o ↔ ∃ m ∈ w.mappings, m.name = name ∧ m.object = o
  /-- Nothing that was written to a section is lost, also when it is created again. -/
  order : ∀ m ∈ w.mappings, w.returned m.object <+: w.written m.object
  complete : ∀ m ∈ w.mappings, let unread := (w.written m.object).drop (w.returned m.object).length
    ∀ k ≤ unread.length, ((w.view m).read k).2 = some (unread.take k)
  /-- The calls stay in the mapping if and only if the section was created, or is larger than
  any position. -/
  inBounds : ∀ m ∈ w.mappings,
    (∀ c : Call UInt8, ∀ i ∈ c.touches (w.view m), headerSize.toNat + i < m.mapSize.toNat) ↔
      w.created m.object = true ∨ 2 ^ 32 ≤ sz.toNat

section Sweep
variable {n : ℕ} {r : SharedRegion UInt8} {written returned : Bytes}

/-- In any state of a ring, all cells but the one before the oldest byte can be touched. -/
theorem RingInv.exists_touches (h : RingInv n r written returned) {x : ℕ} (hx : x < n)
    (hne : x ≠ (returned.length + (n - 1)) % n) : ∃ c : Call UInt8, x ∈ c.touches r := by
  have hlo := h.window.lo_le
  have hfits := h.window.fits
  -- how far the cell is from the oldest byte: it holds an unread byte, or a write can reach it
  let d := (x + (n - returned.length % n)) % n
  have hd : d < n := Nat.mod_lt _ (by omega)
  have hat : (returned.length + d) % n = x := by
    have hdiv := Nat.div_add_mod returned.length n
    have hmod := Nat.mod_lt returned.length (Nat.zero_lt_of_lt hx)
    have hsum : returned.length + (x + (n - returned.length % n)) =
        x + n * (returned.length / n + 1) := by
      rw [Nat.mul_add]
      omega
    rw [Nat.add_mod_mod,hsum,Nat.add_mul_mod_self_left,Nat.mod_eq_of_lt hx]
  have hlast : d ≠ n - 1 := fun heq => hne (by rw [← heq,hat])
  by_cases hread : d < written.length - returned.length
  · refine ⟨.read (written.length - returned.length),?_⟩
    rw [Call.touches,(h.read (Nat.le_refl _)).1,Option.isSome_some,if_pos rfl]
    refine List.mem_map.mpr ⟨d,List.mem_range.mpr hread,?_⟩
    rw [h.masks.cellIndex_eq,h.tail,Nat.mod_add_mod,hat]
  · let room := returned.length + (n - 1) - written.length
    let k := d - (written.length - returned.length)
    have hk : k < room := by omega
    refine ⟨.write (List.replicate room 0),?_⟩
    rw [Call.touches_write h (by rw [List.length_replicate]; omega),List.length_replicate]
    refine List.mem_map.mpr ⟨k,List.mem_range.mpr hk,?_⟩
    have hsum : written.length + k = returned.length + d := by omega
    rw [h.masks.cellIndex_eq,h.head,Nat.mod_add_mod,hsum,hat]

/-- A ring without a capacity has more cells than there is memory. -/
theorem RingInv.exists_touches_ge (h : RingInv (2 ^ 32) r written returned) {size : ℕ}
    (hsize : size + 2 ≤ 2 ^ 32) : ∃ c : Call UInt8, ∃ i ∈ c.touches r, size ≤ i := by
  by_cases hlast : 2 ^ 32 - 1 = (returned.length + (2 ^ 32 - 1)) % 2 ^ 32
  · obtain ⟨c,hc⟩ := h.exists_touches (x := 2 ^ 32 - 2) (by omega) (by omega)
    exact ⟨c,_,hc,by omega⟩
  · obtain ⟨c,hc⟩ := h.exists_touches (x := 2 ^ 32 - 1) (by omega) hlast
    exact ⟨c,_,hc,by omega⟩

end Sweep

/-- What every step keeps, where the capacity masks `n` cells. -/
structure WindowsInv (n : ℕ) (sz : UInt64) (w : WindowsWorld) : Prop where
  rings : ∀ m ∈ w.mappings,
    w.toNamedWorld.Holds (if w.created m.object then n else 2 ^ 32) m.object
  mapped : ∀ m ∈ w.mappings, w.names.find m.name = some m.object
  alive : ∀ name o, w.names.find name = some o → ∃ m ∈ w.mappings, m.object = o
  size : ∀ m ∈ w.mappings, m.mapSize = headerSize + sz

namespace WindowsInv
variable {n : ℕ} {sz : UInt64} {w w' : WindowsWorld} (h : WindowsInv n sz w)
include h

theorem name_eq {m : Mapping} (hm : m ∈ w.mappings) {name : Bytes}
    (hfind : w.names.find name = some m.object) : m.name = name := by
  have hbirth := Table.find_eq_some_iff.mp (h.mapped m hm)
  have hbirth' := Table.find_eq_some_iff.mp hfind
  exact congrArg Prod.fst ((Table.eq_iff_birth hbirth hbirth').mp rfl)

/-- A region more, of a section that there is. -/
theorem join {name : Bytes} {object : ℕ} (hfind : w.names.find name = some object)
    (create : Bool) :
    WindowsInv n sz { w with toNamedWorld := w.toNamedWorld.map sz name object create } where
  rings := by
    apply NamedWorld.forall_mem_map sz h.rings
    obtain ⟨m,hm,rfl⟩ := h.alive name object hfind
    exact h.rings m hm
  mapped := NamedWorld.forall_mem_map sz h.mapped hfind
  alive := by
    intro other o ho
    obtain ⟨m,hm,rfl⟩ := h.alive other o ho
    exact ⟨m,List.mem_append_left _ hm,rfl⟩
  size := NamedWorld.forall_mem_map sz h.size rfl

/-- A section that is made now has no region yet. -/
theorem fresh {name : Bytes} (hnone : w.names.find name = none) {m : Mapping}
    (hm : m ∈ w.mappings) : m.object ≠ (w.names.findOrAdd name).2 ∧ m.name ≠ name := by
  have hname : m.name ≠ name := by
    rintro rfl
    rw [h.mapped m hm] at hnone
    cases hnone
  refine ⟨fun hobject => hname ?_,hname⟩
  have hold := h.mapped m hm
  rw [← Table.find_findOrAdd_of_ne hname] at hold
  have hnew := (Table.findOrAdd_spec name w.names).2.2
  rw [← hobject] at hnew
  exact congrArg Prod.fst ((Table.eq_iff_birth (Table.find_eq_some_iff.mp hold)
    (Table.find_eq_some_iff.mp hnew)).mp rfl)

/-- A new section, which holds zeros or an empty ring. -/
theorem make {name : Bytes} (hnone : w.names.find name = none) (create : Bool)
    {region : SharedRegion UInt8} (hring : RingInv (if create then n else 2 ^ 32) region [] []) :
    let (names,object) := w.names.findOrAdd name
    let w' := { w.toNamedWorld with names }.renew object region
    WindowsInv n sz
      { toNamedWorld := w'.map sz name object create
        created := Function.update w.created object create } := by
  have hfresh {m : Mapping} (hm : m ∈ w.mappings) := h.fresh hnone hm
  have hfind := (Table.findOrAdd_spec name w.names).2.2
  have hother {other : Bytes} (hne : other ≠ name) :
      (w.names.findOrAdd name).1.find other = w.names.find other :=
    Table.find_findOrAdd_of_ne hne
  generalize w.names.findOrAdd name = found at hfresh hfind hother ⊢
  obtain ⟨names,object⟩ := found
  dsimp only at hfresh hfind hother ⊢
  exact
    { rings := by
        refine NamedWorld.forall_mem_map sz (fun m hm => ?_) ?_
        · have hne := (hfresh hm).1
          simp only [Function.update_of_ne hne]
          exact .renew_of_ne (h.rings m hm) hne
        · simp only [Function.update_self]
          exact .renew (fun hne => absurd rfl hne) hring
      mapped := by
        refine NamedWorld.forall_mem_map sz (fun m hm => ?_) hfind
        exact (hother (hfresh hm).2).trans (h.mapped m hm)
      alive := by
        intro other o ho
        by_cases hname : other = name
        · subst hname
          refine ⟨_,List.mem_append_right _ List.mem_cons_self,?_⟩
          exact Option.some.inj (hfind.symm.trans ho)
        · obtain ⟨m,hm,rfl⟩ := h.alive other o ((hother hname).symm.trans ho)
          exact ⟨m,List.mem_append_left _ hm,rfl⟩
      size := NamedWorld.forall_mem_map sz h.size rfl }

/-- A section that was made and given up. -/
theorem giveUp {name : Bytes} (hnone : w.names.find name = none) :
    WindowsInv n sz { w with names := (w.names.findOrAdd name).1.remove name } where
  rings := h.rings
  mapped := by
    intro m hm
    have hname := (h.fresh hnone hm).2
    exact (Table.find_remove_of_ne hname).trans
      ((Table.find_findOrAdd_of_ne hname).trans (h.mapped m hm))
  alive := by
    intro other o ho
    by_cases hname : other = name
    · subst hname
      rw [Table.find_remove] at ho
      cases ho
    · rw [Table.find_remove_of_ne hname,Table.find_findOrAdd_of_ne hname] at ho
      exact h.alive other o ho
  size := h.size

theorem createImpl (hmasks : Masks sz.toUInt32 n) (create : Bool) (name : Bytes)
    (o : MapOutcome) : WindowsInv n sz (w.createImpl sz create name o) := by
  unfold WindowsWorld.createImpl
  split
  · exact h
  · split
    · next object hfind =>
      split
      · exact h
      · exact h.join hfind create
    · next hnone =>
      dsimp only
      split
      · exact h.giveUp hnone
      · apply h.make hnone create
        cases create with
        | true => exact RingInv.of_empty hmasks rfl rfl
        | false => exact RingInv.of_empty (Masks.of_zero rfl) rfl rfl

theorem close {i : ℕ} (hact : w.close i = some w') : WindowsInv n sz w' := by
  obtain ⟨m,hm,rfl⟩ := Option.map_eq_some_iff.mp hact
  have hmem := List.mem_of_getElem? hm
  have hother {o : ℕ} (ho : o ≠ m.object) (hex : ∃ m' ∈ w.mappings, m'.object = o) :
      ∃ m' ∈ w.mappings.eraseIdx i, m'.object = o := by
    obtain ⟨m',hm',rfl⟩ := hex
    obtain ⟨j,hj⟩ := List.getElem?_of_mem hm'
    refine ⟨m',List.mem_eraseIdx_iff_getElem?.mpr ⟨j,?_,hj⟩,rfl⟩
    rintro rfl
    exact ho (congrArg Mapping.object (Option.some.inj (hj.symm.trans hm)))
  refine
    { rings := fun m' hm' => h.rings m' (List.mem_of_mem_eraseIdx hm')
      mapped := ?_
      alive := ?_
      size := fun m' hm' => h.size m' (List.mem_of_mem_eraseIdx hm') }
  · intro m' hm'
    have hfind := h.mapped m' (List.mem_of_mem_eraseIdx hm')
    -- a name that goes is not that of a region which is left, or this would be the same section
    dsimp only
    split
    · next hlast =>
      have hne := of_decide_eq_true (List.all_eq_true.mp hlast m' hm')
      have hname : m'.name ≠ m.name := by
        intro heq
        rw [heq,h.mapped m hmem] at hfind
        exact hne (Option.some.inj hfind).symm
      exact (Table.find_remove_of_ne hname).trans hfind
    · exact hfind
  · intro name o ho
    dsimp only at ho
    split at ho
    · by_cases hname : name = m.name
      · subst hname
        rw [Table.find_remove] at ho
        cases ho
      · rw [Table.find_remove_of_ne hname] at ho
        refine hother ?_ (h.alive name o ho)
        rintro rfl
        exact hname (h.name_eq hmem ho).symm
    · next hlast =>
      by_cases hobject : o = m.object
      · subst hobject
        simpa using hlast
      · exact hother hobject (h.alive name o ho)

theorem step (hmasks : Masks sz.toUInt32 n) {a : NamedAction}
    (hact : w.act sz a = some w') : WindowsInv n sz w' := by
  cases a with
  | create name o =>
    cases hact
    exact h.createImpl hmasks true name o
  | openRegion name o =>
    cases hact
    exact h.createImpl hmasks false name o
  | call i c =>
    obtain ⟨m,-,rfl⟩ := Option.map_eq_some_iff.mp hact
    exact
      { rings := fun m' hm' => (h.rings m' hm').callBy m c
        mapped := h.mapped
        alive := h.alive
        size := h.size }
  | destroy i => exact h.close hact
  | kill i => exact h.close hact

/-- Without a capacity a call can be anywhere below 2^32. -/
theorem inBounds_iff (hsize : RingSize sz) (hn : n ≤ sz.toNat) {m : Mapping}
    (hm : m ∈ w.mappings) :
    (∀ c : Call UInt8, ∀ i ∈ c.touches (w.view m), headerSize.toNat + i < m.mapSize.toNat) ↔
      w.created m.object = true ∨ 2 ^ 32 ≤ sz.toNat := by
  have hring := h.rings m hm
  have hmap := h.size m hm
  cases hcreated : w.created m.object with
  | true =>
    rw [hcreated] at hring
    exact iff_of_true (hring.inBounds hsize hn hmap) (Or.inl rfl)
  | false =>
    rw [hcreated] at hring
    constructor
    · intro hin
      refine Or.inr (Nat.le_of_not_lt fun hlt => ?_)
      have hlow := hsize.low_le
      rw [Nat.mod_eq_of_lt hlt] at hlow
      obtain ⟨c,i,hi,hge⟩ := (RingInv.remap hring m.mapSize).exists_touches_ge
        (show sz.toNat + 2 ≤ 2 ^ 32 by omega)
      have hbound := hin c i hi
      rw [hmap,hsize.mapSize] at hbound
      omega
    · rintro (hfalse | hge)
      · cases hfalse
      · exact hring.inBounds hsize hge hmap

end WindowsInv

section OpenedFirst

/-- A region is opened before it is created, and stays without a capacity. -/
def openedFirst : List NamedAction :=
  [.openRegion someName mapsAll,.create someName mapsAll,.call 1 (.write [1,2]),.call 0 (.read 1)]

end OpenedFirst
end GgmlViz.Ring
