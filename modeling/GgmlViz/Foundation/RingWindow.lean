import Mathlib.Logic.Function.Basic
import Mathlib.Data.List.Basic
import Mathlib.Tactic.Ring

/-! # Circular arrays as windows on a log

A circular array of `n` cells, addressed by unbounded positions modulo `n`, holds
the positions `lo, …, log.length - 1` of an ever growing log. One cell always stays
free, so at most `n - 1` positions are held. Writing the free cell disturbs no held
position; publishing it extends the log; advancing `lo` forgets old positions.
-/
namespace RingWindow
variable {α : Type*} {n lo : ℕ} {slots : ℕ → α} {log : List α}

theorem mod_ne_mod_of_lt {a b : ℕ} (hab : a < b) (hb : b < a + n) : a % n ≠ b % n := by
  intro h
  have hz : (b - a) % n = 0 := Nat.sub_mod_eq_zero_of_mod_eq h.symm
  rw [Nat.mod_eq_of_lt (by omega)] at hz
  omega

/-- The one-empty-slot test: the next position falls on the oldest one exactly when
`n - 1` positions are held. -/
theorem next_mod_eq_iff {hi : ℕ} (hlo : lo ≤ hi) (hhi : hi < lo + n) :
    (hi + 1) % n = lo % n ↔ hi + 1 = lo + n := by
  constructor
  · intro h
    by_contra hne
    exact mod_ne_mod_of_lt (by omega : lo < hi + 1) (by omega) h.symm
  · intro h
    rw [h,Nat.add_mod_right]

/-- The positions from `lo` on of `log` are in their cells. -/
structure Window (n : ℕ) (slots : ℕ → α) (log : List α) (lo : ℕ) : Prop where
  lo_le : lo ≤ log.length
  fits : log.length < lo + n
  holds : ∀ i, lo ≤ i → i < log.length → log[i]? = some (slots (i % n))

/-- The cells from `lo` to `hi`, read in order. -/
def cells (n : ℕ) (slots : ℕ → α) (lo hi : ℕ) : List α :=
  (List.range' lo (hi - lo)).map (fun i => slots (i % n))

@[simp] theorem length_cells (hi : ℕ) : (cells n slots lo hi).length = hi - lo := by simp [cells]

@[simp] theorem cells_self (hi : ℕ) : cells n slots hi hi = [] := by simp [cells]

namespace Window

theorem nil (hn : 0 < n) (slots : ℕ → α) : Window n slots [] 0 where
  lo_le := by simp
  fits := by simpa using hn
  holds := by simp

/-- A new value in a cell that no held position uses. -/
theorem write_at (h : Window n slots log lo) {p : ℕ} (hp : log.length ≤ p) (hroom : p < lo + n)
    (x : α) : Window n (Function.update slots (p % n) x) log lo where
  lo_le := h.lo_le
  fits := h.fits
  holds := by
    intro i hlo hi
    rw [Function.update_of_ne (mod_ne_mod_of_lt (by omega) (by omega))]
    exact h.holds i hlo hi

theorem write (h : Window n slots log lo) (x : α) :
    Window n (Function.update slots (log.length % n) x) log lo :=
  h.write_at (Nat.le_refl _) h.fits x

/-- Publishing the cells behind the log extends it, as long as one more cell stays free. -/
theorem publish_list (h : Window n slots log lo) {xs : List α}
    (hx : ∀ i < xs.length, xs[i]? = some (slots ((log.length + i) % n)))
    (hroom : log.length + xs.length < lo + n) : Window n slots (log ++ xs) lo where
  lo_le := by
    have hl := h.lo_le
    simp only [List.length_append]
    omega
  fits := by simpa using hroom
  holds := by
    intro i hlo hi
    rw [List.length_append] at hi
    by_cases hlt : i < log.length
    · rw [List.getElem?_append_left hlt]
      exact h.holds i hlo hlt
    · have hat := hx (i - log.length) (by omega)
      rwa [List.getElem?_append_right (by omega),← Nat.add_sub_of_le (Nat.le_of_not_lt hlt),
        Nat.add_sub_cancel_left]

theorem publish (h : Window n slots log lo) {x : α} (hx : slots (log.length % n) = x)
    (hroom : log.length + 1 < lo + n) : Window n slots (log ++ [x]) lo := by
  apply h.publish_list
  · intro i hi
    have hz : i = 0 := by simpa using hi
    subst hz
    simp [hx]
  · exact hroom

theorem push (h : Window n slots log lo) (x : α) (hroom : log.length + 1 < lo + n) :
    Window n (Function.update slots (log.length % n) x) (log ++ [x]) lo :=
  (h.write x).publish (Function.update_self ..) hroom

theorem advance (h : Window n slots log lo) {lo' : ℕ} (hlo : lo ≤ lo') (hle : lo' ≤ log.length) :
    Window n slots log lo' where
  lo_le := hle
  fits := by
    have hf := h.fits
    omega
  holds := fun i hi => h.holds i (by omega)

/-- The cells between the two ends spell the log from `lo` on. -/
theorem cells_eq (h : Window n slots log lo) {hi : ℕ} (hlo : lo ≤ hi) (hle : hi ≤ log.length) :
    cells n slots lo hi = (log.drop lo).take (hi - lo) := by
  apply List.ext_getElem?
  intro i
  by_cases hi' : i < hi - lo
  · have hh := h.holds (lo + i) (by omega) (by omega)
    have hr : (List.range' lo (hi - lo))[i]? = some (lo + i) := by
      simp [hi']
    rw [cells,List.getElem?_map,hr,List.getElem?_take_of_lt hi',List.getElem?_drop,hh]
    rfl
  · rw [List.getElem?_eq_none (by simp; omega),List.getElem?_eq_none (by simp; omega)]

theorem unread_eq (h : Window n slots log lo) : cells n slots lo log.length = log.drop lo := by
  rw [h.cells_eq h.lo_le (Nat.le_refl _),List.take_of_length_le (by simp)]

end Window
end RingWindow
