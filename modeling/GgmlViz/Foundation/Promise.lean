import Mathlib.Data.List.Induction

/-! # Bounds that are granted and used

A history of results, some of which grant a bound and some of which tell whether a use
of some amount succeeded. The grants are kept if every use within a bound that was
granted after the previous use succeeded.
-/
namespace Promise
variable {ρ : Type*} (grants : ρ → Option ℕ) (uses : ρ → Option (ℕ × Bool))

def Kept (rs : List ρ) : Prop :=
  ∀ pre r mid u post s k success, rs = pre ++ r :: (mid ++ u :: post) → grants r = some s →
    (∀ x ∈ mid, uses x = none) → uses u = some (k,success) → k ≤ s → success = true

def outstandingStep (bounds : List ℕ) (r : ρ) : List ℕ :=
  (if (uses r).isSome then [] else bounds) ++ (grants r).toList

/-- The bounds granted since the last use. -/
def outstanding (rs : List ρ) : List ℕ := rs.foldl (outstandingStep grants uses) []

variable {grants uses} {rs : List ρ}

theorem outstanding_concat (rs : List ρ) (r : ρ) :
    outstanding grants uses (rs ++ [r]) =
      outstandingStep grants uses (outstanding grants uses rs) r := by
  rw [outstanding,List.foldl_append]
  rfl

theorem mem_outstanding {pre mid : List ρ} {r : ρ} {s : ℕ} (hs : grants r = some s)
    (hmid : ∀ x ∈ mid, uses x = none) : s ∈ outstanding grants uses (pre ++ r :: mid) := by
  induction mid using List.reverseRecOn with
  | nil =>
    rw [outstanding_concat,outstandingStep,hs]
    exact List.mem_append_right _ List.mem_cons_self
  | append_singleton mid x ih =>
    have hx : uses x = none := hmid x (by simp)
    rw [← List.cons_append,← List.append_assoc,outstanding_concat,outstandingStep,hx]
    exact List.mem_append_left _ (ih (fun y hy => hmid y (List.mem_append_left _ hy)))

theorem kept_nil : Kept grants uses [] := by
  intro pre r mid u post s k success h
  simp at h

/-- A result keeps the grants if it is no failed use within an outstanding bound. -/
theorem Kept.concat (h : Kept grants uses rs) {r : ρ} (hr : ∀ k success, uses r = some (k,success) →
    ∀ s ∈ outstanding grants uses rs, k ≤ s → success = true) : Kept grants uses (rs ++ [r]) := by
  intro pre x mid u post s k success heq hs hmid hu hk
  rcases List.eq_nil_or_concat post with rfl | ⟨post,y,rfl⟩
  · have hsplit : rs ++ [r] = (pre ++ x :: mid) ++ [u] := by simpa using heq
    obtain ⟨rfl,hru⟩ := List.append_inj' hsplit rfl
    cases hru
    exact hr k success hu s (mem_outstanding hs hmid) hk
  · have hsplit : rs ++ [r] = (pre ++ x :: (mid ++ u :: post)) ++ [y] := by simpa using heq
    obtain ⟨rfl,-⟩ := List.append_inj' hsplit rfl
    exact h pre x mid u post s k success rfl hs hmid hu hk

/-- A result that uses nothing. -/
theorem Kept.concat_quiet (h : Kept grants uses rs) {r : ρ} (hr : uses r = none) :
    Kept grants uses (rs ++ [r]) := by
  apply h.concat
  intro k success hu
  cases hr.symm.trans hu

theorem mem_outstanding_quiet {r : ρ} {s : ℕ} (hr : uses r = none)
    (hs : s ∈ outstanding grants uses (rs ++ [r])) :
    s ∈ outstanding grants uses rs ∨ grants r = some s := by
  rw [outstanding_concat,outstandingStep,hr] at hs
  exact (List.mem_append.mp hs).imp_right Option.mem_toList.mp

end Promise
