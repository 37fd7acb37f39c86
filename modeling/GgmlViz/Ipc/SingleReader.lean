import GgmlViz.Ipc.ManyReaders

/-! # One writer and one reader

A single reader always keeps up: nobody else stores `tail`, and the `head` that it loaded
can only be behind the present one.
-/
namespace GgmlViz.Ring
open LittleEndian SharedRegion RingHeader
variable {α : Type}

/-- Process 0 calls `write` and process 1 `read`. -/
def spscMay (_ : World α) : Action α → Bool
  | .call 0 (.write _) => true
  | .call 1 (.read _) => true
  | .call .. => false
  | .tick _ => true

abbrev spscSystem (sz : ℕ) : Transition.System (World α) (Action α) := ringSystem sz spscMay

namespace Pc

/-- The call has passed its test: it copies or stores. -/
def passed : Pc α → Bool
  | .writeCopy .. | .writeStore .. | .readCopy .. | .readStore .. => true
  | _ => false

theorem passed_writeNext (data : List α) (head : UInt32) (i : ℕ) :
    (writeNext data head i).passed = true := by
  unfold writeNext
  split <;> rfl

theorem passed_readNext (k : ℕ) (tail : UInt32) (dest : List α) :
    (readNext k tail dest).passed = true := by
  unfold readNext
  split <;> rfl

end Pc

/-- Until its test has passed a call changes nothing; afterwards it does not return false. -/
inductive CallStep (w w' : World α) (t : ℕ) : Prop
  | testing : (w.pc t).passed = false → w'.region = w.region → CallStep w w' t
  | copying : (w.pc t).passed = true → (w'.pc t).passed = true → w'.log = w.log → CallStep w w' t
  | returning (o : Obs α) : (w.pc t).passed = true → w'.pc t = .idle →
      w'.log = w.log ++ [(t,o)] → o ≠ .refused → CallStep w w' t

/-- The bytes returned are the first ones written, both positions are below the capacity, no
unread byte is overwritten, a call that returns false changes nothing, and between calls
the two sizes are what they say. -/
structure IsByteQueue (w : World α) : Prop where
  order : w.returned <+: w.written
  head_lt : w.region.head < w.region.capacity
  tail_lt : w.region.tail < w.region.capacity
  noOverwrite : ∀ data head i, w.pc 0 = .writeCopy data head i → ∀ j < w.unread,
    cellIndex w.region.capacity head i ≠ cellIndex w.region.capacity w.region.tail j
  steps : ∀ t w', World.act (.tick t) w = some w' → CallStep w w' t
  sizes : (∀ t, w.pc t = .idle) → w.region.availableData.toNat = w.unread ∧
    w.region.availableData.toNat + w.region.availableSpace.toNat =
      w.region.capacity.toNat - 1

theorem callStep {w w' : World α} {t : ℕ} (hact : World.act (.tick t) w = some w') :
    CallStep w w' t := by
  obtain ⟨m,p,os,hexec,rfl⟩ := World.act_tick hact
  cases hp : w.pc t with
  | idle => rw [hp] at hexec; cases hexec
  | writeHead | readHead =>
    rw [hp] at hexec
    cases hexec
    exact .testing (by rw [hp]; rfl) rfl
  | writeTail | readTail =>
    rw [hp] at hexec
    simp only [exec] at hexec
    split at hexec <;> cases hexec <;> exact .testing (by rw [hp]; rfl) rfl
  | writeCopy data head i =>
    rw [hp] at hexec
    simp only [exec,Option.map_eq_some_iff,Prod.mk.injEq] at hexec
    obtain ⟨x,-,rfl,rfl,rfl⟩ := hexec
    exact .copying (by rw [hp]; rfl) (by simpa using Pc.passed_writeNext _ _ _) (by simp [World.put])
  | readCopy k tail dest =>
    rw [hp] at hexec
    cases hexec
    exact .copying (by rw [hp]; rfl) (by simpa using Pc.passed_readNext _ _ _) (by simp [World.put])
  | writeStore | readStore =>
    rw [hp] at hexec
    cases hexec
    refine .returning _ (by rw [hp]; rfl) (World.put_pc ..) rfl ?_
    simp

theorem exec_capacity {p p' : Pc α} {m m' : SharedRegion α} {os : List (Obs α)}
    (hexec : exec p m = some (m',p',os)) : m'.capacity = m.capacity := by
  cases p with
  | idle => cases hexec
  | writeCopy =>
    simp only [exec,Option.map_eq_some_iff,Prod.mk.injEq] at hexec
    obtain ⟨x,-,rfl,-⟩ := hexec
    rfl
  | writeTail | readTail =>
    simp only [exec] at hexec
    split at hexec <;> cases hexec <;> rfl
  | _ => cases hexec; rfl

/-- What a single reader has loaded: an earlier `head`, or the present `tail`. -/
def Pc.Loaded (n : ℕ) (written lo : ℕ) (fresh : Bool) : Pc α → Prop
  | .readTail _ head => ∃ hi, lo ≤ hi ∧ hi ≤ written ∧ head.toNat = hi % n
  | .readCopy .. | .readStore .. => fresh = true
  | _ => True

theorem Pc.Writes.keepsUp {n lo : ℕ} {m : SharedRegion α} {written : List α} {p : Pc α}
    (h : p.Writes n m written lo) (m' : SharedRegion α) (unread : ℕ) (fresh : Bool) :
    p.keepsUp m' unread fresh = true := by
  cases p with
  | readTail | readStore => exact h.elim
  | _ => rfl

theorem Pc.loaded_readNext {n written lo k : ℕ} {tail : UInt32} {dest : List α} :
    (readNext k tail dest).Loaded n written lo true := by
  unfold readNext
  split <;> rfl

structure SpscInv (n : ℕ) (w : World α) : Prop extends ReadersInv n w where
  loaded : (w.pc 1).Loaded n w.written.length w.returned.length (w.fresh 1)
  idle : ∀ t, t ≠ 0 → t ≠ 1 → w.pc t = .idle
  capacity : w.region.capacity.toNat = n

namespace SpscInv
variable {w w' : World α} {n : ℕ}

theorem start {k : ℕ} (hk : k ≤ 31) (h : w.Created (2 ^ k)) : SpscInv (2 ^ k) w := by
  have hreaders := ReadersInv.start hk h
  obtain ⟨o,old,size,hsize,hcreate,hpc,-⟩ := h
  have hlt : 2 ^ k < 2 ^ 32 := Nat.pow_lt_pow_right (by decide) (by omega)
  exact
    { toReadersInv := hreaders
      loaded := by rw [hpc]; trivial
      idle := fun t _ _ => by rw [hpc]
      capacity := by rw [create_eq_ok hcreate,UInt64.toNat_toUInt32,hsize,Nat.mod_eq_of_lt hlt] }

theorem reader_keepsUp (h : SpscInv n w) :
    (w.pc 1).keepsUp w.region w.unread (w.fresh 1) = true := by
  have hloaded := h.loaded
  cases hp : w.pc 1 with
  | readTail k head =>
    rw [hp] at hloaded
    obtain ⟨hi,hlo,hle,hhead⟩ := hloaded
    have hfits := h.ring.window.fits
    have havail := h.ring.masks.avail_eq hhead h.ring.tail hlo (by omega)
    apply decide_eq_true
    intro hk
    rw [havail] at hk
    exact hk.trans (Nat.sub_le_sub_right hle _)
  | readStore =>
    rw [hp] at hloaded
    exact hloaded
  | _ => rfl

/-- A single reader keeps up. -/
theorem keepsUp (h : SpscInv n w) (a : Action α) : keepsUp w a = true := by
  cases a with
  | call => rfl
  | tick t =>
    change (w.pc t).keepsUp w.region w.unread (w.fresh t) = true
    by_cases h0 : t = 0
    · subst h0
      exact h.writer.keepsUp _ _ _
    · by_cases h1 : t = 1
      · subst h1
        exact h.reader_keepsUp
      · rw [h.idle t h0 h1]
        rfl

theorem readersMay_of {a : Action α} (hmay : spscMay w a = true) : readersMay w a = true := by
  unfold spscMay at hmay
  split at hmay
  · rfl
  · rfl
  · cases hmay
  · rfl

theorem mayCall {t : ℕ} {c : Call α} (hmay : spscMay w (.call t c) = true) :
    t = 0 ∨ t = 1 ∧ ∃ k, c = .read k := by
  unfold spscMay at hmay
  split at hmay
  · next heq => cases heq; exact Or.inl rfl
  · next heq => cases heq; exact Or.inr ⟨rfl,_,rfl⟩
  · cases hmay
  · next heq => cases heq

theorem call (h : SpscInv n w) {t : ℕ} {c : Call α} (hmay : spscMay w (.call t c) = true)
    (hact : World.act (.call t c) w = some w') : SpscInv n w' := by
  have hreaders := h.toReadersInv.call (readersMay_of hmay) hact
  obtain ⟨-,rfl⟩ := World.act_call hact
  have hidle : ∀ u, u ≠ 0 → u ≠ 1 → (w.put t w.region c.entry []).pc u = .idle := by
    intro u h0 h1
    have hne : u ≠ t := by
      rcases mayCall hmay with rfl | ⟨rfl,-⟩
      · exact h0
      · exact h1
    rw [World.put_pc_of_ne _ _ _ _ _ hne]
    exact h.idle u h0 h1
  refine { toReadersInv := hreaders, loaded := ?_, idle := hidle, capacity := h.capacity }
  rcases mayCall hmay with rfl | ⟨rfl,k,rfl⟩
  · rw [World.put_pc_of_ne _ _ _ _ _ Nat.one_ne_zero]
    simpa [writtenIn,returnedIn] using h.loaded
  · rw [World.put_pc]
    trivial

theorem writer_loaded (h : SpscInv n w) (hact : World.act (.tick 0) w = some w') :
    (w'.pc 1).Loaded n w'.written.length w'.returned.length (w'.fresh 1) := by
  obtain ⟨m,p,os,hexec,rfl⟩ := World.act_tick hact
  have hstep := h.ring.writer_step (t := 0) h.writer hexec
  have hloaded := h.loaded
  rw [World.put_pc_of_ne _ _ _ _ _ Nat.one_ne_zero,World.put_fresh,hstep.fresh,World.put_written,
    World.put_returned,hstep.silent,List.append_nil,List.length_append]
  cases hp : w.pc 1 with
  | readTail =>
    rw [hp] at hloaded
    obtain ⟨hi,hlo,hle,hhead⟩ := hloaded
    exact ⟨hi,hlo,Nat.le_add_right_of_le hle,hhead⟩
  | readCopy | readStore =>
    rw [hp] at hloaded
    exact hloaded
  | _ => trivial

theorem reader_loaded (h : SpscInv n w) (hact : World.act (.tick 1) w = some w') :
    (w'.pc 1).Loaded n w'.written.length w'.returned.length (w'.fresh 1) := by
  obtain ⟨m,p,os,hexec,rfl⟩ := World.act_tick hact
  have hplace := h.readers 1 Nat.one_ne_zero
  have hloaded := h.loaded
  rw [World.put_pc]
  cases hp : w.pc 1 with
  | idle => rw [hp] at hexec; cases hexec
  | readHead k =>
    rw [hp] at hexec
    cases hexec
    refine ⟨w.written.length,?_,?_,h.ring.head⟩
    · simpa [returnedIn] using h.ring.window.lo_le
    · simp [writtenIn]
  | readTail k head =>
    rw [hp] at hexec
    simp only [exec] at hexec
    split at hexec
    · cases hexec
      trivial
    · cases hexec
      simpa [freshStep] using Pc.loaded_readNext
  | readCopy k tail dest =>
    rw [hp] at hexec hloaded
    cases hexec
    have hfresh : w.fresh 1 = true := hloaded
    rw [World.put_fresh,List.map_nil,List.foldl_nil,hfresh]
    exact Pc.loaded_readNext
  | readStore =>
    rw [hp] at hexec
    cases hexec
    trivial
  | _ =>
    rw [hp] at hplace
    exact hplace.elim

theorem step (h : SpscInv n w) {a : Action α} (hmay : spscMay w a = true)
    (hact : World.act a w = some w') : SpscInv n w' := by
  cases a with
  | call t c => exact h.call hmay hact
  | tick t =>
    have hreaders := h.toReadersInv.step (readersMay_of hmay) (h.keepsUp _) hact
    have hplace : t = 0 ∨ t = 1 := by
      by_contra hno
      obtain ⟨h0,h1⟩ := not_or.mp hno
      simp [World.act,h.idle t h0 h1,exec] at hact
    refine { toReadersInv := hreaders, loaded := ?_, idle := ?_, capacity := ?_ }
    · rcases hplace with rfl | rfl
      · exact h.writer_loaded hact
      · exact h.reader_loaded hact
    · obtain ⟨m,p,os,-,rfl⟩ := World.act_tick hact
      intro u h0 h1
      have hne : u ≠ t := by rcases hplace with rfl | rfl <;> assumption
      rw [World.put_pc_of_ne _ _ _ _ _ hne]
      exact h.idle u h0 h1
    · obtain ⟨m,p,os,hexec,rfl⟩ := World.act_tick hact
      rw [World.put_region,exec_capacity hexec]
      exact h.capacity

theorem noOverwrite (h : SpscInv n w) {data : List α} {head : UInt32} {i : ℕ}
    (hp : w.pc 0 = .writeCopy data head i) {j : ℕ} (hj : j < w.unread) :
    cellIndex w.region.capacity head i ≠ cellIndex w.region.capacity w.region.tail j := by
  have hplace := h.writer
  rw [hp] at hplace
  obtain ⟨rfl,hi,hroom,-⟩ := hplace
  rw [h.ring.masks.cellIndex_eq,h.ring.masks.cellIndex_eq,h.ring.head,h.ring.tail,
    Nat.mod_add_mod,Nat.mod_add_mod]
  simp only [World.unread] at hj
  exact (RingWindow.mod_ne_mod_of_lt (by omega) (by omega)).symm

theorem isByteQueue (h : SpscInv n w) : IsByteQueue w where
  order := h.ring.order
  head_lt := by
    rw [UInt32.lt_iff_toNat_lt,h.ring.head,h.capacity]
    exact Nat.mod_lt _ h.ring.masks.pos
  tail_lt := by
    rw [UInt32.lt_iff_toNat_lt,h.ring.tail,h.capacity]
    exact Nat.mod_lt _ h.ring.masks.pos
  noOverwrite := fun _ _ _ hp _ hj => h.noOverwrite hp hj
  steps := fun _ _ hact => callStep hact
  sizes := by
    intro _
    have hlo := h.ring.window.lo_le
    have hfits := h.ring.window.fits
    have hdata : w.region.availableData.toNat = w.unread := h.ring.avail_eq
    have hspace : w.region.availableSpace.toNat = n - 1 - w.unread :=
      h.ring.masks.freeSpace_eq h.ring.head h.ring.tail hlo hfits
    refine ⟨hdata,?_⟩
    rw [hdata,hspace,h.capacity]
    simp only [World.unread]
    omega

end SpscInv

theorem spscInv_reachable {k : ℕ} (hk : k ≤ 31) {w : World α}
    (h : (spscSystem (2 ^ k)).Reachable w) : SpscInv (2 ^ k) w := by
  apply Transition.System.Reachable.invariant _ _ h
  · intro s hs
    exact SpscInv.start hk hs
  · intro s a s' hinv hmay hact
    exact hinv.step hmay hact

/-- With a capacity that is a power of two, one writer and one reader have a queue of bytes. -/
theorem spsc_isByteQueue {k : ℕ} (hk : k ≤ 31) {w : World α}
    (h : (spscSystem (2 ^ k)).Reachable w) : IsByteQueue w :=
  (spscInv_reachable hk h).isByteQueue

/-- Three bytes are written and two returned where there is room for one. -/
theorem spsc_isByteQueue_three :
    ∃ w : World UInt8, (spscSystem (2 ^ 1)).Reachable w ∧
      (w.written,w.returned) = ([7,8,9],[7,8]) ∧ IsByteQueue w := by
  have hinit : (spscSystem (2 ^ 1)).init (zeroWorld 2) := zeroWorld_created 2
  obtain ⟨w,hw,hview⟩ := Transition.System.Reachable.of_replay hinit
    (List.flatten [.call 0 (.write [7]) :: List.replicate 4 (.tick 0),
      .call 1 (.read 1) :: List.replicate 4 (.tick 1),
      .call 0 (.write [8]) :: List.replicate 4 (.tick 0),
      .call 1 (.read 1) :: List.replicate 4 (.tick 1),
      .call 0 (.write [9]) :: List.replicate 4 (.tick 0)])
    (fun w => (w.written,w.returned)) (v := ([7,8,9],[7,8])) (by decide +kernel)
  exact ⟨w,hw,hview,spsc_isByteQueue (by decide) hw⟩

end GgmlViz.Ring
