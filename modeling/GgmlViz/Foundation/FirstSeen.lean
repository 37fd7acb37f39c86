import Mathlib.Data.Finset.Dedup
import Mathlib.Data.Finset.Card
import Mathlib.Data.Finset.Image

/-! # Numbering values in the order they are first seen

`eraseDups` keeps the first occurrence of each value. The index of a value in it is the
number of the other values that occur before the first occurrence.
-/
namespace FirstSeen
variable {α β : Type*} [DecidableEq α] [DecidableEq β] {l : List α} {x y : α}

/-- How many values occur before a value does. -/
def rank (l : List α) (x : α) : ℕ := (l.take (l.idxOf x)).toFinset.card

theorem eraseDups_concat (l : List α) (x : α) :
    (l ++ [x]).eraseDups = if x ∈ l then l.eraseDups else l.eraseDups ++ [x] := by
  rw [List.eraseDups_append]
  split
  · next h => simp [List.removeAll,h]
  · next h => simp [List.removeAll,h,List.eraseDups_cons]

theorem nodup_eraseDups (l : List α) : l.eraseDups.Nodup := by
  induction l using List.reverseRecOn with
  | nil => exact List.nodup_nil
  | append_singleton l x ih =>
    rw [eraseDups_concat]
    split
    · exact ih
    · next h =>
      rw [List.nodup_append]
      refine ⟨ih,List.nodup_singleton x,?_⟩
      intro y hy z hz hyz
      rw [List.mem_singleton.mp hz] at hyz
      exact h (hyz ▸ List.mem_eraseDups.mp hy)

theorem toFinset_eraseDups (l : List α) : l.eraseDups.toFinset = l.toFinset := by
  ext x
  simp [List.mem_eraseDups]

theorem length_eraseDups (l : List α) : l.eraseDups.length = l.toFinset.card := by
  rw [← toFinset_eraseDups,List.toFinset_card_of_nodup (nodup_eraseDups l)]

theorem rank_append_cons {pre post : List α} (h : x ∉ pre) :
    rank (pre ++ x :: post) x = pre.toFinset.card := by
  have hidx : (pre ++ x :: post).idxOf x = pre.length := by
    rw [List.idxOf_append_of_notMem h,List.idxOf_cons_self,Nat.add_zero]
  rw [rank,hidx,List.take_left']
  rfl

theorem idxOf_eraseDups (h : x ∈ l) : l.eraseDups.idxOf x = rank l x := by
  obtain ⟨pre,post,rfl,hpre⟩ := List.eq_append_cons_of_mem h
  have hfirst : ((x :: post).removeAll pre) = x :: post.removeAll pre := by
    simp [List.removeAll,hpre]
  rw [rank_append_cons hpre,List.eraseDups_append,hfirst,List.eraseDups_cons,
    List.idxOf_append_of_notMem (by rwa [List.mem_eraseDups]),List.idxOf_cons_self,
    Nat.add_zero,length_eraseDups]

/-- What is seen later leaves the ranks as they are. -/
theorem rank_append (h : x ∈ l) (m : List α) : rank (l ++ m) x = rank l x := by
  rw [← idxOf_eraseDups (List.mem_append_left m h),← idxOf_eraseDups h,List.eraseDups_append,
    List.idxOf_append_of_mem (List.mem_eraseDups.mpr h)]

theorem rank_lt (h : x ∈ l) : rank l x < l.toFinset.card := by
  rw [← idxOf_eraseDups h,← length_eraseDups]
  exact List.idxOf_lt_length_of_mem (List.mem_eraseDups.mpr h)

theorem rank_inj (hx : x ∈ l) (h : rank l x = rank l y) (hy : y ∈ l) : x = y := by
  rw [← idxOf_eraseDups hx,← idxOf_eraseDups hy] at h
  exact (List.idxOf_inj (List.mem_eraseDups.mpr hx)).mp h

/-- Renaming the values keeps their ranks. -/
theorem rank_map {f : α → β} (hf : Function.Injective f) (h : x ∈ l) :
    rank (l.map f) (f x) = rank l x := by
  obtain ⟨pre,post,rfl,hpre⟩ := List.eq_append_cons_of_mem h
  have hpre' : f x ∉ pre.map f := by
    rwa [List.mem_map_of_injective hf]
  rw [List.map_append,List.map_cons,rank_append_cons hpre',rank_append_cons hpre]
  have himage : (pre.map f).toFinset = pre.toFinset.image f := by
    ext y
    simp
  rw [himage,Finset.card_image_of_injective _ hf]

end FirstSeen
