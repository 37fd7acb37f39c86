import Mathlib.Data.List.Basic

/-! # Layers of settings

A setting has a default and may be given by several layers, listed from the highest to
the lowest. The intended value is the one of the highest layer that gives the setting.
A merge of fully populated records cannot tell what a layer gives from what it leaves at
the default, so it skips a layer that comes with the default; only a forced layer always
counts. The two agree exactly where no skipped layer was needed.
-/
namespace Layers
variable {α : Type*}

structure Layer (α : Type*) where
  given : Option α
  /-- Its value counts even where it is the default. -/
  forced : Bool

/-- The highest layer that gives the setting decides. -/
def highest (d : α) : List (Layer α) → α
  | [] => d
  | l :: ls => l.given.getD (highest d ls)

section Merge
variable [DecidableEq α]

/-- The value of a record over the value so far, unless it is the default. -/
def overlay (d v below : α) : α := if v ≠ d then v else below

def merged (d : α) : List (Layer α) → α
  | [] => d
  | l :: ls =>
    if l.forced then l.given.getD (merged d ls) else overlay d (l.given.getD d) (merged d ls)

end Merge

/-- No layer moves the setting from its default, except below a forced layer that sets it
back. -/
def StaysDefault (d : α) : List (Layer α) → Prop
  | [] => True
  | l :: ls =>
    match l.given with
    | none => StaysDefault d ls
    | some v => v = d ∧ (l.forced = true ∨ StaysDefault d ls)

/-- If the highest layer that gives the setting gives the default and is not forced, the
setting stays at the default below it. -/
def Respected (d : α) : List (Layer α) → Prop
  | [] => True
  | l :: ls =>
    match l.given with
    | none => Respected d ls
    | some v => l.forced = true ∨ v ≠ d ∨ StaysDefault d ls

variable [DecidableEq α] {d : α}

@[simp] theorem overlay_default (below : α) : overlay d d below = below := if_neg (not_not.mpr rfl)

theorem overlay_of_ne {v : α} (h : v ≠ d) (below : α) : overlay d v below = v := if_pos h

/-- A record over the default is the record. -/
@[simp] theorem overlay_self (v : α) : overlay d v d = v := by
  by_cases h : v = d
  · rw [h,overlay_default]
  · rw [overlay_of_ne h]

/-- A layer counts if it gives something other than the default. -/
theorem overlay_getD (given : Option α) (below : α) :
    overlay d (given.getD d) below = (given.filter (fun v => v ≠ d)).getD below := by
  cases given with
  | none => exact overlay_default below
  | some v => by_cases h : v = d <;> simp [overlay,Option.filter,h]

/-- A record over itself is the record. -/
@[simp] theorem overlay_idem (v : α) : overlay d v v = v := ite_self v

theorem overlay_assoc (u v w : α) : overlay d u (overlay d v w) = overlay d (overlay d u v) w := by
  by_cases h : u = d
  · rw [h,overlay_default,overlay_default]
  · rw [overlay_of_ne h,overlay_of_ne h,overlay_of_ne h]

/-- Whatever holds of a record's value and of the value so far is kept. -/
theorem overlay_cases {P : α → Prop} {v below : α} (hv : P v) (hb : P below) :
    P (overlay d v below) := by
  unfold overlay
  split
  · exact hv
  · exact hb

theorem merged_eq_default_iff (ls : List (Layer α)) : merged d ls = d ↔ StaysDefault d ls := by
  induction ls with
  | nil => exact iff_of_true rfl trivial
  | cons l ls ih =>
    obtain ⟨given,forced⟩ := l
    cases given with
    | none => cases forced <;> simpa [merged,StaysDefault] using ih
    | some v =>
      cases forced with
      | true => simp [merged,StaysDefault]
      | false =>
        simp only [merged,StaysDefault,Option.getD_some]
        by_cases hv : v = d
        · rw [hv,if_neg Bool.false_ne_true,overlay_default,ih]
          simp
        · rw [if_neg Bool.false_ne_true,overlay_of_ne hv]
          simp [hv]

/-- The merge computes the intended value exactly where the default is respected. -/
theorem merged_eq_highest_iff (ls : List (Layer α)) :
    merged d ls = highest d ls ↔ Respected d ls := by
  induction ls with
  | nil => exact iff_of_true rfl trivial
  | cons l ls ih =>
    obtain ⟨given,forced⟩ := l
    cases given with
    | none => cases forced <;> simpa [merged,highest,Respected] using ih
    | some v =>
      simp only [merged,highest,Respected,Option.getD_some]
      cases forced with
      | true => simp
      | false =>
        rw [if_neg Bool.false_ne_true]
        by_cases hv : v = d
        · -- the layer is skipped, and what is below it comes out
          rw [hv,overlay_default,merged_eq_default_iff]
          simp
        · rw [overlay_of_ne hv]
          simp [hv]

end Layers
