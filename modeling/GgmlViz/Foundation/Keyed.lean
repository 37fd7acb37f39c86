import Mathlib.Algebra.BigOperators.Group.Finset.Basic
import Mathlib.Algebra.BigOperators.Group.Finset.Piecewise
import Mathlib.Algebra.GroupWithZero.Nat
import Mathlib.Data.List.AList

/-! # Lists of keyed entries

A list of entries with keys is, for each key, the list of the entries on that key. What is
summed over all keys changes with a further entry as it changes on the key of that entry.
Neighbours in a list are found from its end.
-/
namespace Keyed
variable {κ α β : Type*}

/-- Each entry with the one directly behind it. -/
def neighbours (l : List α) : List (α × α) := l.zip l.tail

theorem neighbours_concat (l : List α) (x : α) :
    neighbours (l ++ [x]) = neighbours l ++ l.getLast?.toList.map (fun y => (y,x)) := by
  induction l with
  | nil => rfl
  | cons a l ih =>
    cases l with
    | nil => rfl
    | cons b l =>
      have hcons (m : List α) : neighbours (a :: b :: m) = (a,b) :: neighbours (b :: m) := rfl
      rw [List.cons_append,List.cons_append,hcons,hcons,← List.cons_append,ih]
      simp

theorem neighbours_map (f : α → β) (l : List α) :
    neighbours (l.map f) = (neighbours l).map (Prod.map f f) := by
  rw [neighbours,neighbours,← List.map_tail,List.zip_map]

variable [DecidableEq κ]

def onKey (k : κ) (xs : List (κ × α)) : List α := (xs.filter (fun x => x.1 = k)).map Prod.snd

@[simp] theorem onKey_nil (k : κ) : onKey k ([] : List (κ × α)) = [] := rfl

theorem onKey_concat (k : κ) (xs : List (κ × α)) (x : κ × α) :
    onKey k (xs ++ [x]) = if x.1 = k then onKey k xs ++ [x.2] else onKey k xs := by
  unfold onKey
  split <;> simp_all

/-- A further entry changes a sum over the keys on its own key. -/
theorem sum_onKey_concat {keys : Finset κ} {x : κ × α} (hx : x.1 ∈ keys) (f : List α → ℕ)
    (xs : List (κ × α)) :
    ∑ k ∈ keys, f (onKey k (xs ++ [x])) + f (onKey x.1 xs) =
      ∑ k ∈ keys, f (onKey k xs) + f (onKey x.1 xs ++ [x.2]) := by
  have hrest : ∑ k ∈ keys.erase x.1, f (onKey k (xs ++ [x])) =
      ∑ k ∈ keys.erase x.1, f (onKey k xs) := by
    apply Finset.sum_congr rfl
    intro k hk
    rw [onKey_concat,if_neg (Finset.ne_of_mem_erase hk).symm]
  rw [← Finset.add_sum_erase keys _ hx,← Finset.add_sum_erase keys _ hx,hrest,onKey_concat,
    if_pos rfl]
  omega

/-- Summing key by key is summing all entries. -/
theorem sum_sum_onKey (f : α → ℕ) {keys : Finset κ} (xs : List (κ × α))
    (hkeys : ∀ x ∈ xs, x.1 ∈ keys) :
    ∑ k ∈ keys, ((onKey k xs).map f).sum = (xs.map (fun x => f x.2)).sum := by
  induction xs using List.reverseRecOn with
  | nil => simp
  | append_singleton xs x ih =>
    have hprev := ih (fun y hy => hkeys y (List.mem_append_left _ hy))
    have hstep := sum_onKey_concat (hkeys x (by simp)) (fun l => (l.map f).sum) xs
    simp only [List.map_append,List.sum_append,List.map_cons,List.map_nil,List.sum_cons,
      List.sum_nil] at hstep ⊢
    omega

/-- The values of a map are summed key by key. -/
theorem sum_lookup (l : AList (fun _ : κ => β)) (f : β → ℕ) {keys : Finset κ}
    (hkeys : ∀ k ∈ l.keys, k ∈ keys) :
    ∑ k ∈ keys, ((l.lookup k).map f).getD 0 = (l.entries.map (fun entry => f entry.2)).sum := by
  obtain ⟨entries,hnodup⟩ := l
  simp only [AList.lookup,AList.keys] at hkeys ⊢
  induction entries with
  | nil => simp
  | cons entry entries ih =>
    obtain ⟨a,b⟩ := entry
    obtain ⟨hfresh,hnodup'⟩ := List.nodupKeys_cons.mp hnodup
    have hnext := ih hnodup' (fun k hk => hkeys k (List.mem_cons_of_mem _ hk))
    have hsplit (k : κ) : ((List.dlookup k (⟨a,b⟩ :: entries)).map f).getD 0 =
        (if k = a then f b else 0) + ((List.dlookup k entries).map f).getD 0 := by
      by_cases hk : k = a
      · subst hk
        simp [List.dlookup_eq_none.mpr hfresh]
      · rw [List.dlookup_cons_ne _ _ hk,if_neg hk,Nat.zero_add]
    simp only [hsplit,Finset.sum_add_distrib,Finset.sum_ite_eq',hnext]
    rw [if_pos (hkeys a List.mem_cons_self),List.map_cons,List.sum_cons]

end Keyed
