import Mathlib.Data.List.DropRight

/-! # The last entries of a list

A bounded buffer that is appended to and then cut from the front keeps the last entries of
all that was ever appended. A reader of a growing list that appends what is beyond the
entries it has seen has appended the list.
-/
namespace Recent
variable {α β : Type*} {l m : List α} {n : ℕ}

theorem rtake_of_length_le (h : l.length ≤ n) : l.rtake n = l := by
  rw [List.rtake,Nat.sub_eq_zero_of_le h,List.drop_zero]

theorem length_rtake_le (l : List α) (n : ℕ) : (l.rtake n).length ≤ n := by
  rw [List.rtake,List.length_drop]
  omega

theorem mem_of_mem_rtake {x : α} (h : x ∈ l.rtake n) : x ∈ l := List.mem_of_mem_drop h

theorem map_rtake (f : α → β) (l : List α) (n : ℕ) : (l.rtake n).map f = (l.map f).rtake n := by
  rw [List.rtake,List.rtake,List.map_drop,List.length_map]

/-- What is appended takes the last places, the older entries share the others. -/
theorem rtake_append (l m : List α) (n : ℕ) :
    (l ++ m).rtake n = l.rtake (n - m.length) ++ m.rtake n := by
  rw [List.rtake,List.rtake,List.rtake,List.length_append,List.drop_append]
  have hcut : l.length + m.length - n - l.length = m.length - n := by omega
  have hold : l.drop (l.length + m.length - n) = l.drop (l.length - (n - m.length)) := by
    by_cases hm : m.length ≤ n
    · rw [show l.length + m.length - n = l.length - (n - m.length) by omega]
    · rw [List.drop_eq_nil_of_le (by omega),List.drop_eq_nil_of_le (by omega)]
  rw [hcut,hold]

/-- Cutting before appending loses nothing that cutting afterwards keeps. -/
theorem rtake_rtake_append (l m : List α) (n : ℕ) :
    (l.rtake n ++ m).rtake n = (l ++ m).rtake n := by
  rw [rtake_append,rtake_append l]
  congr 1
  rw [List.rtake,List.rtake,List.rtake,List.drop_drop,List.length_drop]
  congr 1
  omega

/-- A buffer with the last entries of a list catches up when the list has grown. -/
theorem rtake_catchUp (h : l <+: m) (n : ℕ) :
    (l.rtake n ++ m.drop l.length).rtake n = m.rtake n := by
  obtain ⟨more,rfl⟩ := h
  rw [rtake_rtake_append,List.drop_left]

end Recent
