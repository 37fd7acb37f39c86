import Mathlib.Data.List.Sort

/-! # Sorting that may reorder equals

`std::sort` is not stable: in which order it leaves elements that compare equal depends on the
library and on all of the list. So it is a parameter, of which this is known.
-/

/-- The comparisons that a sort may be given. -/
structure StrictWeak {α : Type} (lt : α → α → Bool) : Prop where
  asymm : ∀ {a b}, lt a b = true → lt b a = false
  negTrans : ∀ {a b c}, lt a b = false → lt b c = false → lt a c = false

/-- `std::sort`: it moves elements only, and leaves them in order. -/
class StdSort where
  sort {α : Type} : (α → α → Bool) → List α → List α
  perm {α : Type} (lt : α → α → Bool) (xs : List α) : (sort lt xs).Perm xs
  sorted {α : Type} {lt : α → α → Bool} (h : StrictWeak lt) (xs : List α) :
    (sort lt xs).Pairwise (fun a b => lt b a = false)

/-- A library whose sort is stable. -/
@[reducible] def mergeSorting : StdSort where
  sort lt xs := xs.mergeSort (fun a b => !lt b a)
  perm lt xs := List.mergeSort_perm xs _
  sorted := by
    intro α lt h xs
    have hsorted : (xs.mergeSort (fun a b => !lt b a)).Pairwise (fun a b => (!lt b a) = true) := by
      apply List.pairwise_mergeSort
      · intro a b c hab hbc
        simp only [Bool.not_eq_true'] at hab hbc ⊢
        exact h.negTrans hbc hab
      · intro a b
        cases hba : lt b a with
        | false => rfl
        | true => simp [h.asymm hba]
    simpa using hsorted
