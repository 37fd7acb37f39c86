import GgmlViz.Ipc.RingInvariant
import Mathlib.Logic.Relation

/-! # Whole calls on the ring

A call that no other process interrupts does what its function does in one process, and
the functions keep the account of the ring.
-/
namespace GgmlViz.Ring
open LittleEndian SharedRegion RingHeader RingWindow Relation
variable {α : Type} {n : ℕ} {m : SharedRegion α} {written returned : List α} {log : List (Obs α)}

section Alone

/-- One step of a process, with what it has contributed so far. -/
def AloneStep (a b : Pc α × SharedRegion α × List (Obs α)) : Prop :=
  ∃ os, exec a.1 a.2.1 = some (b.2.1,b.1,os) ∧ b.2.2 = a.2.2 ++ os

abbrev Alone (a b : Pc α × SharedRegion α × List (Obs α)) : Prop := ReflTransGen AloneStep a b

theorem AloneStep.quiet {p p' : Pc α} {m' : SharedRegion α}
    (hexec : exec p m = some (m',p',[])) : AloneStep (p,m,log) (p',m',log) :=
  ⟨[],hexec,(List.append_nil _).symm⟩

theorem alone_copyIn (data : List α) (head : UInt32) (i : ℕ) (base : ℕ → α) :
    Alone (Pc.writeNext data head i,{ m with base := base },log) (.writeStore data head,
      { m with base := copyIn m.capacity head i (data.drop i) base },log) := by
  by_cases hi : i < data.length
  · have hx : data[i]? = some data[i] := List.getElem?_eq_getElem hi
    rw [Pc.writeNext,if_pos hi,List.drop_eq_getElem_cons hi,copyIn]
    refine .head (.quiet ?_) (alone_copyIn data head (i + 1) _)
    simp only [exec,hx,Option.map_some]
  · rw [Pc.writeNext,if_neg hi,List.drop_eq_nil_of_le (by omega),copyIn]
termination_by data.length - i

theorem alone_write (data : List α) : Alone (.writeHead data,m,log)
    (.idle,(m.write data).1,log ++ [if (m.write data).2 then .written data else .refused]) := by
  refine .head (b := (.writeTail data m.head,m,log)) (.quiet rfl) ?_
  unfold SharedRegion.write
  dsimp only
  split
  · next hfull => exact .single ⟨[.refused],by simp only [exec,if_pos hfull],rfl⟩
  · next hroom =>
    refine .head (b := (Pc.writeNext data m.head 0,m,log))
      (.quiet (by simp only [exec,if_neg hroom])) ?_
    have hcopy : Alone (Pc.writeNext data m.head 0,m,log) (.writeStore data m.head,
        { m with base := copyIn m.capacity m.head 0 data m.base },log) :=
      alone_copyIn data m.head 0 m.base
    exact hcopy.tail ⟨[.written data],rfl,rfl⟩

theorem alone_copyOut (k : ℕ) (tail : UInt32) (i : ℕ) (hi : i ≤ k) :
    Alone (Pc.readNext k tail ((List.range i).map (fun j => m.base (cellIndex m.capacity tail j))),
      m,log) (.readStore k tail
        ((List.range k).map (fun j => m.base (cellIndex m.capacity tail j))),m,log) := by
  by_cases hlt : i < k
  · rw [Pc.readNext,if_pos (by simpa using hlt)]
    refine .head (.quiet ?_) (alone_copyOut k tail (i + 1) hlt)
    simp [exec,List.range_succ]
  · have hik : i = k := by omega
    rw [hik,Pc.readNext,if_neg (by simp)]
termination_by k - i

theorem alone_read (k : ℕ) : Alone (.readHead k,m,log)
    (.idle,(m.read k).1,log ++
      [.loadedTail,((m.read k).2).elim .refused Obs.returned]) := by
  refine .head (b := (.readTail k m.head,m,log)) (.quiet rfl) ?_
  unfold SharedRegion.read
  dsimp only
  split
  · next hshort => exact .single ⟨_,by simp [exec,hshort],rfl⟩
  · next havail =>
    refine .head (b := (Pc.readNext k m.tail [],m,log ++ [.loadedTail])) ⟨_,?_,rfl⟩ ?_
    · simp only [exec,if_neg havail]
    · refine (alone_copyOut k m.tail 0 (Nat.zero_le k)).tail ⟨_,rfl,?_⟩
      simp

end Alone

/-- The copy loop fills the cells behind the written ones, in order. -/
theorem copyIn_cells {cap head : UInt32} {lo : ℕ} (hmasks : Masks cap n)
    (hhead : head.toNat = written.length % n) (xs : List α) (i : ℕ) {base : ℕ → α}
    (hw : Window n base written lo) (hroom : written.length + i + xs.length < lo + n) :
    Window n (copyIn cap head i xs base) written lo ∧
      (∀ j < i, copyIn cap head i xs base ((written.length + j) % n) =
        base ((written.length + j) % n)) ∧
      ∀ j < xs.length, xs[j]? = some (copyIn cap head i xs base ((written.length + i + j) % n)) := by
  induction xs generalizing i base with
  | nil => exact ⟨hw,fun _ _ => rfl,fun j hj => absurd hj (Nat.not_lt_zero j)⟩
  | cons x xs ih =>
    have hlo := hw.lo_le
    rw [List.length_cons] at hroom
    have hcell : cellIndex cap head i = (written.length + i) % n := by
      rw [hmasks.cellIndex_eq,hhead,Nat.mod_add_mod]
    have hwrite := hw.write_at (p := written.length + i) (by omega) (by omega) x
    rw [← hcell] at hwrite
    obtain ⟨hwindow,hbefore,hcells⟩ := ih (i + 1) hwrite (by omega)
    rw [copyIn]
    refine ⟨hwindow,?_,?_⟩
    · intro j hj
      rw [hbefore j (by omega),hcell,
        Function.update_of_ne (mod_ne_mod_of_lt (by omega) (by omega))]
    · intro j hj
      cases j with
      | zero =>
        rw [Nat.add_zero (written.length + i),hbefore i (Nat.lt_succ_self i),hcell,Function.update_self]
        rfl
      | succ j =>
        rw [List.getElem?_cons_succ,show written.length + i + (j + 1) = written.length + (i + 1) + j
          by omega]
        exact hcells j (by simpa using hj)

namespace RingInv
variable (h : RingInv n m written returned)
include h

theorem write {data : List α} (hroom : written.length + data.length < returned.length + n) :
    (m.write data).2 = true ∧ RingInv n (m.write data).1 (written ++ data) returned := by
  have hpass := (h.room_iff data.length).mpr hroom
  obtain ⟨hwindow,-,hcells⟩ := copyIn_cells h.masks h.head data 0 h.window hroom
  have hfilled : RingInv n { m with base := copyIn m.capacity m.head 0 data m.base } written
      returned :=
    { masks := h.masks, head := h.head, tail := h.tail, window := hwindow, order := h.order }
  have hplace : (Pc.writeStore data m.head).Writes n
      { m with base := copyIn m.capacity m.head 0 data m.base } written returned.length :=
    ⟨rfl,hroom,hcells⟩
  have hstored := hfilled.stored hplace
  rw [SharedRegion.write,if_neg (Nat.not_lt.mpr hpass)]
  exact ⟨rfl,hstored⟩

theorem write_refused {data : List α}
    (hfull : ¬written.length + data.length < returned.length + n) : m.write data = (m,false) := by
  rw [SharedRegion.write,if_pos]
  exact Nat.lt_of_not_le (fun hle => hfull ((h.room_iff data.length).mp hle))

theorem read {k : ℕ} (hk : k ≤ written.length - returned.length) :
    (m.read k).2 = some ((written.drop returned.length).take k) ∧
      RingInv n (m.read k).1 written (returned ++ (written.drop returned.length).take k) := by
  have hlo := h.window.lo_le
  have hdest : (List.range k).map (fun i => m.base (cellIndex m.capacity m.tail i)) =
      (written.drop returned.length).take k := by
    have hcells := h.window.cells_eq (Nat.le_add_right returned.length k) (by omega)
    rw [Nat.add_sub_cancel_left] at hcells
    rw [← hcells,cells,Nat.add_sub_cancel_left,List.range'_eq_map_range,List.map_map]
    apply List.map_congr_left
    intro i _
    rw [Function.comp_apply,h.masks.cellIndex_eq,h.tail,Nat.mod_add_mod]
  have hplace : (Pc.readStore k m.tail ((written.drop returned.length).take k)).Copies n written
      returned.length := ⟨h.tail,by omega,rfl⟩
  have hstored := h.returned_stored hplace
  rw [SharedRegion.read,if_neg (by rw [h.avail_eq]; omega)]
  exact ⟨congrArg some hdest,hstored⟩

theorem read_refused {k : ℕ} (hk : ¬k ≤ written.length - returned.length) :
    m.read k = (m,none) := by
  rw [SharedRegion.read,if_pos (by rw [h.avail_eq]; omega)]

end RingInv
end GgmlViz.Ring
