import Mathlib.Algebra.BigOperators.Group.List.Basic

/-! # Grouping a product

A bracketing of a list of values is a binary tree with the values at its leaves. In a
monoid every bracketing has the value of the list.
-/

/-- A bracketing of one value or more. -/
inductive Grouping (α : Type*)
  | single (a : α)
  | group (s t : Grouping α)

namespace Grouping
variable {α β M : Type*}

def leaves : Grouping α → List α
  | single a => [a]
  | group s t => s.leaves ++ t.leaves

def eval (op : α → α → α) : Grouping α → α
  | single a => a
  | group s t => op (s.eval op) (t.eval op)

def map (f : α → β) : Grouping α → Grouping β
  | single a => single (f a)
  | group s t => group (s.map f) (t.map f)

@[simp] theorem leaves_map (f : α → β) (t : Grouping α) : (t.map f).leaves = t.leaves.map f := by
  induction t with
  | single a => rfl
  | group s t hs ht => simp [map,leaves,hs,ht]

/-- A homomorphism goes through the brackets. -/
theorem eval_map {op : α → α → α} {op' : β → β → β} {f : α → β}
    (hf : ∀ a b, f (op a b) = op' (f a) (f b)) (t : Grouping α) :
    (t.map f).eval op' = f (t.eval op) := by
  induction t with
  | single a => rfl
  | group s t hs ht => rw [map,eval,eval,hs,ht,hf]

/-- Values that all have a property are values of the subtype. -/
theorem exists_map_val {P : α → Prop} (t : Grouping α) (h : ∀ a ∈ t.leaves, P a) :
    ∃ s : Grouping {a // P a}, s.map Subtype.val = t := by
  induction t with
  | single a => exact ⟨single ⟨a,h a List.mem_cons_self⟩,rfl⟩
  | group s t hs ht =>
    obtain ⟨s',rfl⟩ := hs (fun a ha => h a (List.mem_append_left _ ha))
    obtain ⟨t',rfl⟩ := ht (fun a ha => h a (List.mem_append_right _ ha))
    exact ⟨group s' t',rfl⟩

variable [Monoid M]

theorem eval_mul (t : Grouping M) : t.eval (· * ·) = t.leaves.prod := by
  induction t with
  | single a => exact (List.prod_singleton).symm
  | group s t hs ht => rw [eval,leaves,List.prod_append,hs,ht]

/-- Where the last factor is idempotent, it may be repeated. -/
theorem prod_concat_mul_self {a : M} (h : a * a = a) (l : List M) :
    (l ++ [a]).prod * a = (l ++ [a]).prod := by
  rw [List.prod_append,List.prod_singleton,mul_assoc,h]

end Grouping
