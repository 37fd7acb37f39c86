import GgmlViz.Ipc.RingMachine

/-! # What holds between the writer and the ring

The positions count all bytes ever written and returned; the header holds them modulo the
number of cells. The writer fills cells behind the last written byte, a reader copies the
oldest unread ones.
-/
namespace GgmlViz.Ring
open LittleEndian SharedRegion RingHeader RingWindow
variable {α : Type} {n : ℕ} {m m' : SharedRegion α} {written returned : List α} {p p' : Pc α}
variable {os : List (Obs α)} {t : ℕ}

/-- The ring holds the bytes that were written and not yet returned. -/
structure RingInv (n : ℕ) (m : SharedRegion α) (written returned : List α) : Prop where
  masks : Masks m.capacity n
  head : m.head.toNat = written.length % n
  tail : m.tail.toNat = returned.length % n
  window : Window n m.base written returned.length
  order : returned <+: written

namespace Pc

/-- A place in `write`; behind the test there is room for the data, and the bytes copied so
far are in the cells behind the written ones. -/
def Writes (n : ℕ) (m : SharedRegion α) (written : List α) (lo : ℕ) : Pc α → Prop
  | .idle | .writeHead _ => True
  | .writeTail _ head => head = m.head
  | .writeCopy data head i => head = m.head ∧ i < data.length ∧
      written.length + data.length < lo + n ∧
      ∀ j < i, data[j]? = some (m.base ((written.length + j) % n))
  | .writeStore data head => head = m.head ∧ written.length + data.length < lo + n ∧
      ∀ j < data.length, data[j]? = some (m.base ((written.length + j) % n))
  | _ => False

/-- A place in `read`. -/
def Reads : Pc α → Prop
  | .idle | .readHead _ | .readTail .. | .readCopy .. | .readStore .. => True
  | _ => False

/-- What a reader has copied is the oldest unread bytes. -/
def Copies (n : ℕ) (written : List α) (lo : ℕ) : Pc α → Prop
  | .readCopy k tail dest => tail.toNat = lo % n ∧ lo + k ≤ written.length ∧ dest.length < k ∧
      dest = (written.drop lo).take dest.length
  | .readStore k tail dest => tail.toNat = lo % n ∧ lo + k ≤ written.length ∧
      dest = (written.drop lo).take k
  | _ => True

/-- A reader that passes its test has that many bytes to read, and one that stores `tail`
has loaded it after all that was returned. -/
def keepsUp (m : SharedRegion α) (unread : ℕ) (fresh : Bool) : Pc α → Bool
  | .readTail k head => decide (k ≤ (avail m.capacity head m.tail).toNat → k ≤ unread)
  | .readStore .. => fresh
  | _ => true

theorem writes_writeNext {data : List α} {head : UInt32} {i : ℕ} (hhead : head = m.head)
    (hi : i ≤ data.length) (hroom : written.length + data.length < returned.length + n)
    (hcells : ∀ j < i, data[j]? = some (m.base ((written.length + j) % n))) :
    (writeNext data head i).Writes n m written returned.length := by
  unfold writeNext
  split
  · next hlt => exact ⟨hhead,hlt,hroom,hcells⟩
  · next hge =>
    have hi' : i = data.length := by omega
    subst hi'
    exact ⟨hhead,hroom,hcells⟩

/-- The writer does not mind a reader that moves on. -/
theorem Writes.mono {lo lo' : ℕ} (h : p.Writes n m written lo) (hbase : m'.base = m.base)
    (hhead : m'.head = m.head) (hlo : lo ≤ lo') : p.Writes n m' written lo' := by
  cases p with
  | idle | writeHead => trivial
  | writeTail => exact h.trans hhead.symm
  | writeCopy data head i =>
    obtain ⟨hh,hi,hroom,hcells⟩ := h
    rw [← hhead] at hh
    rw [← hbase] at hcells
    exact ⟨hh,hi,by omega,hcells⟩
  | writeStore data head =>
    obtain ⟨hh,hroom,hcells⟩ := h
    rw [← hhead] at hh
    rw [← hbase] at hcells
    exact ⟨hh,by omega,hcells⟩
  | _ => exact h.elim

/-- Nor does a reader mind what is written behind. -/
theorem Copies.append {lo : ℕ} (h : p.Copies n written lo) (xs : List α) :
    p.Copies n (written ++ xs) lo := by
  have htake {k j : ℕ} (hk : lo + k ≤ written.length) (hj : j ≤ k) :
      ((written ++ xs).drop lo).take j = (written.drop lo).take j := by
    rw [List.drop_append_of_le_length (by omega),
      List.take_append_of_le_length (by rw [List.length_drop]; omega)]
  cases p with
  | readCopy k tail dest =>
    obtain ⟨ht,hk,hlt,hd⟩ := h
    refine ⟨ht,by rw [List.length_append]; omega,hlt,?_⟩
    rw [htake hk (Nat.le_of_lt hlt)]
    exact hd
  | readStore k tail dest =>
    obtain ⟨ht,hk,hd⟩ := h
    refine ⟨ht,by rw [List.length_append]; omega,?_⟩
    rw [htake hk (Nat.le_refl _)]
    exact hd
  | _ => trivial

theorem copies_readNext {k lo : ℕ} {tail : UInt32} {dest : List α} (ht : tail.toNat = lo % n)
    (hk : lo + k ≤ written.length) (hle : dest.length ≤ k)
    (hd : dest = (written.drop lo).take dest.length) :
    (readNext k tail dest).Copies n written lo := by
  unfold readNext
  split
  · next hlt => exact ⟨ht,hk,hlt,hd⟩
  · next hge =>
    have hlen : dest.length = k := by omega
    rw [hlen] at hd
    exact ⟨ht,hk,hd⟩

theorem reads_readNext (k : ℕ) (tail : UInt32) (dest : List α) : (readNext k tail dest).Reads := by
  unfold readNext
  split <;> trivial

end Pc

/-- What a step of the writer does to the ring, its own place and the account. -/
structure WriterStep (n : ℕ) (m' : SharedRegion α) (p' : Pc α) (os : List (Obs α))
    (written returned : List α) (t : ℕ) : Prop where
  ring : RingInv n m' (written ++ writtenIn (os.map (fun o => (t,o)))) returned
  place : p'.Writes n m' (written ++ writtenIn (os.map (fun o => (t,o)))) returned.length
  silent : returnedIn (os.map (fun o => (t,o))) = []
  fresh : ∀ u b, (os.map (fun o => (t,o))).foldl (freshStep u) b = b

namespace RingInv

theorem of_empty {r : SharedRegion α} (hmasks : Masks r.capacity n) (hhead : r.head = 0)
    (htail : r.tail = 0) : RingInv n r [] [] where
  masks := hmasks
  head := by
    rw [hhead]
    exact (Nat.zero_mod _).symm
  tail := by
    rw [htail]
    exact (Nat.zero_mod _).symm
  window := Window.nil hmasks.pos _
  order := List.prefix_refl _

/-- A created region is empty. -/
theorem of_create {o : MapOutcome} {old r : SharedRegion α} {sz : UInt64}
    (hcreate : create o old sz = .ok r) (hmasks : Masks r.capacity n) : RingInv n r [] [] := by
  rw [create_eq_ok hcreate] at hmasks ⊢
  exact of_empty hmasks rfl rfl

/-- The cell that the writer fills next holds no unread byte. -/
theorem copied (h : RingInv n m written returned) {data : List α} {head : UInt32} {i : ℕ} {x : α}
    (hp : (Pc.writeCopy data head i).Writes n m written returned.length) (hx : data[i]? = some x) :
    let m' := { m with base := Function.update m.base (cellIndex m.capacity head i) x }
    RingInv n m' written returned ∧
      (Pc.writeNext data head (i + 1)).Writes n m' written returned.length := by
  intro m'
  obtain ⟨rfl,hi,hroom,hcells⟩ := hp
  have hcell : cellIndex m.capacity m.head i = (written.length + i) % n := by
    rw [h.masks.cellIndex_eq,h.head,Nat.mod_add_mod]
  have hbase : m'.base = Function.update m.base ((written.length + i) % n) x := by
    rw [← hcell]
  constructor
  · exact
      { masks := h.masks
        head := h.head
        tail := h.tail
        window := by
          rw [hbase]
          exact h.window.write_at (by omega) (by omega) x
        order := h.order }
  · apply Pc.writes_writeNext (m := m') rfl hi hroom
    intro j hj
    rw [hbase]
    rcases Nat.lt_or_eq_of_le (Nat.le_of_lt_succ hj) with hlt | rfl
    · have hlo := h.window.lo_le
      rw [Function.update_of_ne (mod_ne_mod_of_lt (by omega) (by omega))]
      exact hcells j hlt
    · rw [Function.update_self]
      exact hx

theorem stored (h : RingInv n m written returned) {data : List α} {head : UInt32}
    (hp : (Pc.writeStore data head).Writes n m written returned.length) :
    RingInv n { m with head := UInt32.ofNat (cellIndex m.capacity head data.length) }
      (written ++ data) returned := by
  obtain ⟨rfl,hroom,hcells⟩ := hp
  exact
    { masks := h.masks
      head := by
        rw [h.masks.stored_cellIndex,h.head,Nat.mod_add_mod,List.length_append]
      tail := h.tail
      window := h.window.publish_list hcells hroom
      order := h.order.trans (List.prefix_append _ _) }

/-- The test of `write` passes exactly if there is room. -/
theorem room_iff (h : RingInv n m written returned) (k : ℕ) :
    k ≤ (freeSpace m.capacity m.head m.tail).toNat ↔
      written.length + k < returned.length + n := by
  have hlo := h.window.lo_le
  have hfits := h.window.fits
  rw [h.masks.freeSpace_eq h.head h.tail hlo hfits]
  omega

theorem avail_eq (h : RingInv n m written returned) :
    (avail m.capacity m.head m.tail).toNat = written.length - returned.length :=
  h.masks.avail_eq h.head h.tail h.window.lo_le h.window.fits

/-- The steps of the writer, one case for each place in the code. -/
theorem writer_step (h : RingInv n m written returned)
    (hp : p.Writes n m written returned.length) (hexec : exec p m = some (m',p',os)) :
    WriterStep n m' p' os written returned t := by
  cases p with
  | idle => cases hexec
  | writeHead data =>
    cases hexec
    exact ⟨by simpa [writtenIn] using h,rfl,rfl,fun _ _ => rfl⟩
  | writeTail data head =>
    cases hp
    simp only [exec] at hexec
    split at hexec
    · cases hexec
      exact ⟨by simpa [writtenIn] using h,trivial,rfl,fun _ _ => rfl⟩
    · next hpass =>
      cases hexec
      have hroom := (h.room_iff data.length).mp (Nat.le_of_not_lt hpass)
      have hplace : (Pc.writeNext data m.head 0).Writes n m written returned.length :=
        Pc.writes_writeNext rfl (Nat.zero_le _) hroom (fun j hj => absurd hj (Nat.not_lt_zero j))
      exact ⟨by simpa [writtenIn] using h,by simpa [writtenIn] using hplace,rfl,fun _ _ => rfl⟩
  | writeCopy data head i =>
    simp only [exec,Option.map_eq_some_iff,Prod.mk.injEq] at hexec
    obtain ⟨x,hx,rfl,rfl,rfl⟩ := hexec
    obtain ⟨hring,hplace⟩ := h.copied hp hx
    exact ⟨by simpa [writtenIn] using hring,by simpa [writtenIn] using hplace,rfl,fun _ _ => rfl⟩
  | writeStore data head =>
    cases hexec
    exact ⟨by simpa [writtenIn] using h.stored hp,trivial,rfl,fun _ _ => rfl⟩
  | _ => exact hp.elim

end RingInv

/-- What a step of a reader does to the ring, its own place and the account. -/
structure ReaderStep (n : ℕ) (m m' : SharedRegion α) (p' : Pc α) (os : List (Obs α))
    (written returned : List α) (t : ℕ) (fresh : Bool) : Prop where
  ring : RingInv n m' written (returned ++ returnedIn (os.map (fun o => (t,o))))
  silent : writtenIn (os.map (fun o => (t,o))) = []
  place : p'.Reads
  copies : (os.map (fun o => (t,o))).foldl (freshStep t) fresh = true →
    p'.Copies n written (returned ++ returnedIn (os.map (fun o => (t,o)))).length
  base : m'.base = m.base
  head : m'.head = m.head
  others : ∀ u, u ≠ t → ∀ b, (os.map (fun o => (t,o))).foldl (freshStep u) b = true →
    b = true ∧ returnedIn (os.map (fun o => (t,o))) = []

namespace RingInv

theorem returned_stored (h : RingInv n m written returned) {k : ℕ} {tail : UInt32} {dest : List α}
    (hp : (Pc.readStore k tail dest).Copies n written returned.length) :
    RingInv n { m with tail := UInt32.ofNat (cellIndex m.capacity tail k) } written
      (returned ++ dest) := by
  obtain ⟨ht,hk,hd⟩ := hp
  have hlen : dest.length = k := by
    rw [hd,List.length_take,List.length_drop]
    omega
  have hsplit : returned ++ dest = written.take (returned.length + k) := by
    rw [List.take_add,← List.prefix_iff_eq_take.mp h.order,← hd]
  exact
    { masks := h.masks
      head := h.head
      tail := by
        rw [h.masks.stored_cellIndex,ht,Nat.mod_add_mod,List.length_append,hlen]
      window := by
        rw [List.length_append,hlen]
        exact h.window.advance (Nat.le_add_right _ _) hk
      order := by
        rw [hsplit]
        exact List.take_prefix _ _ }

/-- The next cell that a reader copies holds the next unread byte. -/
theorem copies_next (h : RingInv n m written returned) {k : ℕ} {tail : UInt32} {dest : List α}
    (hp : (Pc.readCopy k tail dest).Copies n written returned.length) :
    (Pc.readNext k tail (dest ++ [m.base (cellIndex m.capacity tail dest.length)])).Copies n
      written returned.length := by
  obtain ⟨ht,hk,hlt,hd⟩ := hp
  have hcell : cellIndex m.capacity tail dest.length = (returned.length + dest.length) % n := by
    rw [h.masks.cellIndex_eq,ht,Nat.mod_add_mod]
  have hat := h.window.holds (returned.length + dest.length) (by omega) (by omega)
  have hget : (written.drop returned.length)[dest.length]? =
      some (m.base (cellIndex m.capacity tail dest.length)) := by
    rw [List.getElem?_drop,hat,hcell]
  apply Pc.copies_readNext ht hk
  · simpa using Nat.succ_le_of_lt hlt
  · rw [List.length_append,List.length_singleton,List.take_add_one,← hd,hget]
    rfl

/-- The steps of a reader that keeps up, one case for each place in the code. -/
theorem reader_step (h : RingInv n m written returned) (hp : p.Reads) {fresh : Bool}
    (hcopies : fresh = true → p.Copies n written returned.length)
    (hguard : p.keepsUp m (written.length - returned.length) fresh = true)
    (hexec : exec p m = some (m',p',os)) : ReaderStep n m m' p' os written returned t fresh := by
  have hquiet {p' : Pc α} (hplace : p'.Reads)
      (hc : fresh = true → p'.Copies n written returned.length) :
      ReaderStep n m m p' [] written returned t fresh :=
    { ring := by simpa [returnedIn] using h
      silent := rfl
      place := hplace
      copies := by simpa [returnedIn] using hc
      base := rfl
      head := rfl
      others := fun _ _ _ hb => ⟨hb,rfl⟩ }
  cases p with
  | idle => cases hexec
  | readHead k =>
    cases hexec
    exact hquiet trivial (fun _ => trivial)
  | readTail k head =>
    have hloads {p' : Pc α} {os : List (Obs α)} (hos : os = [.loadedTail] ∨
        os = [.loadedTail,.refused]) (hplace : p'.Reads)
        (hc : p'.Copies n written returned.length) :
        ReaderStep n m m p' os written returned t fresh := by
      rcases hos with rfl | rfl
      all_goals
        exact
          { ring := by simpa [returnedIn] using h
            silent := rfl
            place := hplace
            copies := by simpa [returnedIn] using fun _ => hc
            base := rfl
            head := rfl
            others := by
              intro u hu b hb
              simpa [freshStep,hu,Ne.symm hu,returnedIn] using hb }
    simp only [exec] at hexec
    split at hexec
    · cases hexec
      exact hloads (Or.inr rfl) trivial trivial
    · next hpass =>
      cases hexec
      have hunread := of_decide_eq_true hguard (Nat.le_of_not_lt hpass)
      have hlo := h.window.lo_le
      apply hloads (Or.inl rfl) (Pc.reads_readNext _ _ _)
      exact Pc.copies_readNext h.tail (by omega) (Nat.zero_le _) rfl
  | readCopy k tail dest =>
    cases hexec
    apply hquiet (Pc.reads_readNext _ _ _)
    intro hf
    exact h.copies_next (hcopies hf)
  | readStore k tail dest =>
    cases hexec
    have hring := h.returned_stored (hcopies hguard)
    exact
      { ring := by simpa [returnedIn] using hring
        silent := rfl
        place := trivial
        copies := fun _ => trivial
        base := rfl
        head := rfl
        others := by
          intro u _ b hb
          simpa [freshStep,returnedIn] using hb }
  | _ => exact hp.elim

end RingInv
end GgmlViz.Ring
