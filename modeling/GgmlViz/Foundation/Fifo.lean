import Mathlib.Data.List.Perm.Subperm

/-! # Histories of a queue

Entries are pushed at the back of a queue and removed from its front, each by someone. What
was removed and what is still there are together what was pushed, in this order, and what
one of the removers got keeps the order.
-/
namespace Fifo
variable {α ρ : Type*} {pushed queue xs : List α} {removed : List (α × ρ)}

def Linear (pushed : List α) (removed : List (α × ρ)) (queue : List α) : Prop :=
  removed.map Prod.fst ++ queue = pushed

theorem Linear.push (h : Linear pushed removed queue) (xs : List α) :
    Linear (pushed ++ xs) removed (queue ++ xs) := by
  rw [Linear,← List.append_assoc,h]

/-- The first entries are removed, all by the same one. -/
theorem Linear.remove (h : Linear pushed removed (xs ++ queue)) (r : ρ) :
    Linear pushed (removed ++ xs.map (fun x => (x,r))) queue := by
  rw [Linear,List.map_append,List.map_map,List.append_assoc]
  have hxs : xs.map (Prod.fst ∘ fun x => (x,r)) = xs := List.map_id xs
  rw [hxs]
  exact h

section TakenBy
variable [DecidableEq ρ]

/-- What one of the removers got. -/
def takenBy (r : ρ) (removed : List (α × ρ)) : List α :=
  (removed.filter (fun x => x.2 = r)).map Prod.fst

theorem takenBy_append (r : ρ) (removed more : List (α × ρ)) :
    takenBy r (removed ++ more) = takenBy r removed ++ takenBy r more := by
  rw [takenBy,List.filter_append,List.map_append]
  rfl

theorem takenBy_self (r : ρ) (xs : List α) : takenBy r (xs.map (fun x => (x,r))) = xs := by
  induction xs with
  | nil => rfl
  | cons x xs ih => simpa [takenBy] using ih

theorem takenBy_of_ne {r r' : ρ} (h : r' ≠ r) (xs : List α) :
    takenBy r (xs.map (fun x => (x,r'))) = [] := by
  induction xs with
  | nil => rfl
  | cons x xs ih => simp [takenBy,h]

theorem Linear.takenBy_sublist (h : Linear pushed removed queue) (r : ρ) :
    (takenBy r removed).Sublist pushed := by
  have htaken : (takenBy r removed).Sublist (removed.map Prod.fst) :=
    List.filter_sublist.map Prod.fst
  rw [← h]
  exact htaken.trans (List.sublist_append_left _ _)

/-- What several removers got are different entries. -/
theorem takenBy_subperm {rs : List ρ} (hrs : rs.Nodup) (removed : List (α × ρ)) :
    (rs.flatMap (fun r => takenBy r removed)).Subperm (removed.map Prod.fst) := by
  induction rs generalizing removed with
  | nil => exact List.nil_subperm
  | cons r rs ih =>
    obtain ⟨hr,hrs⟩ := List.nodup_cons.mp hrs
    let rest := removed.filter (fun x => ¬x.2 = r)
    have hrest : ∀ r' ∈ rs, takenBy r' removed = takenBy r' rest := by
      intro r' hr'
      have hne : r' ≠ r := fun heq => hr (heq ▸ hr')
      rw [takenBy,takenBy,List.filter_filter]
      congr 2
      funext x
      by_cases hx : x.2 = r' <;> simp [hx,hne]
    have hsplit : (takenBy r removed ++ rest.map Prod.fst).Perm (removed.map Prod.fst) := by
      rw [takenBy,← List.map_append]
      apply List.Perm.map
      simpa [rest] using List.filter_append_perm (fun x => decide (x.2 = r)) removed
    rw [List.flatMap_cons,List.flatMap_congr hrest]
    exact ((List.subperm_append_left _).mpr (ih hrs rest)).trans hsplit.subperm

end TakenBy
end Fifo
