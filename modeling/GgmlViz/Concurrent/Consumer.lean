import GgmlViz.Concurrent.RecordingThread

/-! # The live consumer

`consume_available_events` copies the slots between two loaded positions and then stores
the read position. What it has copied is what was accepted there, as long as the read
position is still the one that it loaded.
-/
namespace GgmlViz
open LittleEndian RingWindow
variable {L : Type}

namespace Pc

/-- The `read_pos` that a consumer has loaded and not yet stored. -/
def loadedTail : Pc L → Option ℕ
  | conHead tail | conCopy tail _ _ _ | conStore tail _ _ => some tail
  | _ => none

/-- A place in `consume_available_events`, with what the local variables mean. -/
def Consumes (readPos : ℕ) (acc : List (Event L)) : Pc L → Prop
  | idle | conActive | conTail => True
  | conHead tail => tail ≤ readPos
  | conCopy tail head i events => tail ≤ readPos ∧ tail ≤ i ∧ i < head ∧ head ≤ acc.length ∧
      (tail = readPos → events = (acc.drop tail).take (i - tail))
  | conStore tail head events => tail ≤ readPos ∧ tail ≤ head ∧ head ≤ acc.length ∧
      (tail = readPos → events = (acc.drop tail).take (head - tail))
  | _ => False

end Pc

variable {text : L → Bytes} {cfg : Config} {m m' : Mem L} {p p' : Pc L} {acc : List (Event L)}
  {os : List (Obs L)}

/-- More accepted events and a later read position change nothing for the consumer. -/
theorem Pc.Consumes.mono {readPos readPos' : ℕ} (h : p.Consumes readPos acc)
    (hread : readPos ≤ readPos') (more : List (Event L)) : p.Consumes readPos' (acc ++ more) := by
  have hsame {tail n : ℕ} (hn : tail + n ≤ acc.length) :
      (acc.drop tail).take n = ((acc ++ more).drop tail).take n := by
    rw [List.drop_append_of_le_length (by omega),List.take_append_of_le_length (by simp; omega)]
  cases p with
  | conHead tail => exact Nat.le_trans h hread
  | conCopy tail head i events =>
    obtain ⟨htail,hlo,hhi,hhead,hevents⟩ := h
    refine ⟨by omega,hlo,hhi,by rw [List.length_append]; omega,?_⟩
    intro heq
    rw [← hsame (by omega)]
    exact hevents (by omega)
  | conStore tail head events =>
    obtain ⟨htail,hlo,hhead,hevents⟩ := h
    refine ⟨by omega,hlo,by rw [List.length_append]; omega,?_⟩
    intro heq
    rw [← hsame (by omega)]
    exact hevents (by omega)
  | idle | conActive | conTail => trivial
  | _ => exact h.elim

theorem consumes_copyNext {readPos tail head i : ℕ} {events : List (Event L)}
    (htail : tail ≤ readPos) (hlo : tail ≤ i) (hhi : i ≤ head) (hhead : head ≤ acc.length)
    (hevents : tail = readPos → events = (acc.drop tail).take (i - tail)) :
    (Pc.copyNext tail head i events).Consumes readPos acc := by
  unfold Pc.copyNext
  split
  · next hlt => exact ⟨htail,hlo,hlt,hhead,hevents⟩
  · next hge =>
    have hi : i = head := by omega
    subst hi
    exact ⟨htail,hlo,hhead,hevents⟩

/-- The consumer's steps before its store: the hook is left as it is. -/
theorem consume_step (h : p.Consumes m.readPos acc) (hposition : m.writePos = acc.length)
    (hwindow : Window bufferSize m.eventBuffer acc m.readPos)
    (hstore : ∀ tail head events, p ≠ .conStore tail head events)
    (hexec : exec text cfg p m = some (m',p',os)) :
    m' = m ∧ p'.Consumes m.readPos acc ∧ (os = [] ∨ os = [.threw]) := by
  have hle := hwindow.lo_le
  cases p with
  | idle => cases hexec
  | conActive =>
    cases hexec
    refine ⟨rfl,?_,Or.inl rfl⟩
    split <;> trivial
  | conTail =>
    cases hexec
    exact ⟨rfl,Nat.le_refl _,Or.inl rfl⟩
  | conHead tail =>
    have htail : tail ≤ m.readPos := h
    simp only [exec] at hexec
    split at hexec
    · cases hexec
      exact ⟨rfl,trivial,Or.inl rfl⟩
    · split at hexec
      · cases hexec
        exact ⟨rfl,trivial,Or.inr rfl⟩
      · cases hexec
        refine ⟨rfl,?_,Or.inl rfl⟩
        exact consumes_copyNext htail (Nat.le_refl _) (by omega) (by omega) (by simp)
  | conCopy tail head i events =>
    obtain ⟨htail,hlo,hhi,hhead,hevents⟩ := h
    cases hexec
    refine ⟨rfl,consumes_copyNext htail (by omega) hhi hhead ?_,Or.inl rfl⟩
    intro heq
    have hslot := hwindow.holds i (by omega) (by omega)
    rw [← slot_eq_mod] at hslot
    have hget : (acc.drop tail)[i - tail]? = some (m.eventBuffer (slot i)) := by
      rw [List.getElem?_drop,show tail + (i - tail) = i by omega]
      exact hslot
    rw [hevents heq,show i + 1 - tail = (i - tail) + 1 by omega,List.take_add_one,hget]
    rfl
  | conStore tail head events => exact absurd rfl (hstore tail head events)
  | _ => exact h.elim

/-- A consumer keeps the read position that it has loaded, or loads the present one. -/
theorem loadedTail_exec {readPos : ℕ} (h : p.Consumes readPos acc)
    (hfresh : ∀ tail, p.loadedTail = some tail → tail = m.readPos)
    (hexec : exec text cfg p m = some (m',p',os)) :
    ∀ tail, p'.loadedTail = some tail → tail = m.readPos := by
  have hcopy (tail head i : ℕ) (events : List (Event L)) :
      (Pc.copyNext tail head i events).loadedTail = some tail := by
    unfold Pc.copyNext
    split <;> rfl
  cases p with
  | idle => cases hexec
  | conActive =>
    cases hexec
    split <;> simp [Pc.loadedTail]
  | conTail =>
    cases hexec
    simp [Pc.loadedTail]
  | conHead tail =>
    have htail := hfresh tail rfl
    simp only [exec] at hexec
    split at hexec
    · cases hexec
      simp [Pc.loadedTail]
    · split at hexec
      · cases hexec
        simp [Pc.loadedTail]
      · cases hexec
        simp [hcopy,htail]
  | conCopy tail head i events =>
    have htail := hfresh tail rfl
    cases hexec
    simp [hcopy,htail]
  | conStore tail head events =>
    cases hexec
    simp [Pc.loadedTail]
  | _ => exact h.elim

end GgmlViz
