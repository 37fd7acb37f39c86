import GgmlViz.Foundation.Keyed

/-! # Cells that are given values and cleared

A command gives a cell a value or clears it, and a cell holds what the last command on it has
given. Commands are orderly if they give to empty cells only, or clear full ones only.
-/
namespace Heap
open Keyed
variable {κ α β : Type*} [DecidableEq κ]

/-- Every element of a list fits to those before it. -/
def AtEach (P : List α → α → Prop) (xs : List α) : Prop :=
  ∀ pre x post, xs = pre ++ x :: post → P pre x

theorem atEach_nil (P : List α → α → Prop) : AtEach P [] := by
  intro pre x post h
  cases pre <;> cases h

theorem atEach_concat {P : List α → α → Prop} {xs : List α} {x : α} :
    AtEach P (xs ++ [x]) ↔ AtEach P xs ∧ P xs x := by
  constructor
  · intro h
    refine ⟨?_,h xs x [] rfl⟩
    rintro pre y post rfl
    exact h pre y (post ++ [x]) (by simp)
  · rintro ⟨h,hx⟩ pre y post heq
    rcases List.eq_nil_or_concat post with rfl | ⟨post,z,rfl⟩
    · obtain ⟨rfl,hlast⟩ := List.append_inj' heq rfl
      cases hlast
      exact hx
    · have hlast : xs ++ [x] = (pre ++ y :: post) ++ [z] := by simpa using heq
      obtain ⟨rfl,-⟩ := List.append_inj' hlast rfl
      exact h pre y post rfl

theorem AtEach.initial {P : List α → α → Prop} {xs ys : List α} (h : AtEach P ys)
    (hxs : xs <+: ys) : AtEach P xs := by
  obtain ⟨more,rfl⟩ := hxs
  rintro pre x post rfl
  exact h pre x (post ++ more) (by simp)

theorem atEach_iff_get {P : List α → α → Prop} {xs : List α} :
    AtEach P xs ↔ ∀ i : Fin xs.length, P (xs.take i) (xs.get i) := by
  constructor
  · intro h i
    refine h _ _ (xs.drop (i + 1)) ?_
    simp
  · rintro h pre x post rfl
    have hget := h ⟨pre.length,by simp⟩
    simpa using hget

instance {P : List α → α → Prop} [∀ pre x, Decidable (P pre x)] (xs : List α) :
    Decidable (AtEach P xs) := decidable_of_iff _ atEach_iff_get.symm

variable (given : α → Option β)

/-- What the cells hold after these commands. -/
def cells (commands : List (κ × α)) : κ → Option β :=
  commands.foldl (fun held c => Function.update held c.1 (given c.2)) (fun _ => none)

/-- Only an empty cell is given something. -/
def GivesToEmpty (commands : List (κ × α)) : Prop :=
  AtEach (fun pre c => given c.2 ≠ none → cells given pre c.1 = none) commands

/-- Only a full cell is cleared. -/
def ClearsFull (commands : List (κ × α)) : Prop :=
  AtEach (fun pre c => given c.2 = none → cells given pre c.1 ≠ none) commands

variable {given} {commands : List (κ × α)} {c : κ × α}

theorem givesToEmpty_concat : GivesToEmpty given (commands ++ [c]) ↔
    GivesToEmpty given commands ∧ (given c.2 ≠ none → cells given commands c.1 = none) :=
  atEach_concat

theorem clearsFull_concat : ClearsFull given (commands ++ [c]) ↔
    ClearsFull given commands ∧ (given c.2 = none → cells given commands c.1 ≠ none) :=
  atEach_concat

theorem cells_concat : cells given (commands ++ [c]) =
    Function.update (cells given commands) c.1 (given c.2) := List.foldl_concat ..

theorem cells_eq (commands : List (κ × α)) (k : κ) :
    cells given commands k = (onKey k commands).getLast?.bind given := by
  induction commands using List.reverseRecOn with
  | nil => rfl
  | append_singleton commands c ih =>
    rw [cells_concat,onKey_concat]
    by_cases hk : c.1 = k
    · subst hk
      simp
    · rw [Function.update_of_ne (Ne.symm hk),if_neg hk,ih]

end Heap
