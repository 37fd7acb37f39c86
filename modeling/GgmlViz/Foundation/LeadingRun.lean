import Mathlib.Data.List.TakeWhile
import Mathlib.Data.List.Infix

/-! # Longest runs from the front of a list

A run of a list is a prefix whose elements have a property. The longest run of a weaker
property is the longest run of the stronger one, and that of the rest behind it.
-/
namespace LeadingRun
variable {α : Type*} {p q : α → Prop} {l run run' rest : List α}

structure IsLongestRun (p : α → Prop) (l run : List α) : Prop where
  isPrefix : run <+: l
  all : ∀ a ∈ run, p a
  longest : ∀ run', run' <+: l → (∀ a ∈ run', p a) → run' <+: run

namespace IsLongestRun

theorem eq (h : IsLongestRun p l run) (h' : IsLongestRun p l run') : run = run' := by
  have hle := (h'.longest run h.isPrefix h.all).length_le
  have hge := h.longest run' h'.isPrefix h'.all
  exact (hge.eq_of_length_le hle).symm

theorem append (hpq : ∀ a, p a → q a) (h : IsLongestRun p (run ++ rest) run)
    (h' : IsLongestRun q rest run') : IsLongestRun q (run ++ rest) (run ++ run') where
  isPrefix := (List.prefix_append_right_inj run).mpr h'.isPrefix
  all := by
    intro a ha
    rcases List.mem_append.mp ha with ha | ha
    · exact hpq a (h.all a ha)
    · exact h'.all a ha
  longest := by
    intro other hother hall
    rcases List.prefix_or_prefix_of_prefix hother (List.prefix_append run rest) with hle | hle
    · exact hle.trans (List.prefix_append run run')
    · obtain ⟨more,rfl⟩ := hle
      rw [List.prefix_append_right_inj] at hother ⊢
      exact h'.longest more hother (fun a ha => hall a (List.mem_append_right _ ha))

end IsLongestRun

theorem isLongestRun_takeWhile (p : α → Bool) (l : List α) :
    IsLongestRun (fun a => p a = true) l (l.takeWhile p) where
  isPrefix := List.takeWhile_prefix p
  all := fun _ => List.mem_takeWhile_imp
  longest := by
    rintro run ⟨rest,rfl⟩ hall
    rw [List.takeWhile_append_of_pos hall]
    exact List.prefix_append run _

end LeadingRun
