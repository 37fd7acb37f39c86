import Mathlib.Data.List.Nodup
import Mathlib.Logic.Function.Basic

/-! # Names of objects

A table in which a name stands for one object at most. Objects are numbered as they are born.
A name can be removed; its object lives on without a name, and the next one to be born under
this name is another.
-/
namespace NameTable
variable {N : Type*}

/-- The birth of an object: its name, and how often this had been removed before. -/
abbrev Birth (N : Type*) := N × ℕ

structure Table (N : Type*) where
  births : List (Birth N)
  removals : N → ℕ
  nodup : births.Nodup
  past : ∀ b ∈ births, b.2 ≤ removals b.1

namespace Table

/-- An object is told by its birth. -/
theorem eq_iff_birth {t : Table N} {i j : ℕ} {a b : Birth N} (hi : t.births[i]? = some a)
    (hj : t.births[j]? = some b) : i = j ↔ a = b := by
  obtain ⟨hlt,-⟩ := List.getElem?_eq_some_iff.mp hi
  constructor
  · rintro rfl
    exact Option.some.inj (hi.symm.trans hj)
  · rintro rfl
    exact (List.getElem?_inj hlt t.nodup).mp (hi.trans hj.symm)

def empty : Table N where
  births := []
  removals _ := 0
  nodup := List.nodup_nil
  past := fun _ h => absurd h List.not_mem_nil

variable [DecidableEq N]

/-- The object of a name. -/
def find (name : N) (t : Table N) : Option ℕ := t.births.idxOf? (name,t.removals name)

/-- An object is born. -/
def add (name : N) (t : Table N) (h : (name,t.removals name) ∉ t.births) : Table N where
  births := t.births ++ [(name,t.removals name)]
  removals := t.removals
  nodup := List.nodup_append.mpr ⟨t.nodup,List.nodup_singleton _,by
    rintro b hb _ hb' rfl
    exact h (List.mem_singleton.mp hb' ▸ hb)⟩
  past := by
    intro b hb
    rcases List.mem_append.mp hb with hb | hb
    · exact t.past b hb
    · cases List.mem_singleton.mp hb
      exact Nat.le_refl _

/-- The object of a name, born now if there is none. -/
def findOrAdd (name : N) (t : Table N) : Table N × ℕ :=
  if h : (name,t.removals name) ∈ t.births then (t,t.births.idxOf (name,t.removals name))
  else (t.add name h,t.births.length)

def remove (name : N) (t : Table N) : Table N where
  births := t.births
  removals := Function.update t.removals name (t.removals name + 1)
  nodup := t.nodup
  past := by
    intro b hb
    have hle := t.past b hb
    by_cases hname : b.1 = name
    · rw [hname,Function.update_self]
      exact Nat.le_succ_of_le (hname ▸ hle)
    · rwa [Function.update_of_ne hname]

variable {t : Table N} {name other : N} {i j : ℕ}

theorem find_eq_some_iff : t.find name = some i ↔ t.births[i]? = some (name,t.removals name) := by
  rw [find,List.idxOf?_eq_some_iff]
  constructor
  · rintro ⟨hlt,hi,-⟩
    exact List.getElem?_eq_some_iff.mpr ⟨hlt,hi⟩
  · intro hi
    obtain ⟨hlt,hbirth⟩ := List.getElem?_eq_some_iff.mp hi
    refine ⟨hlt,hbirth,fun j hj heq => ?_⟩
    have hj' : t.births[j]? = some (name,t.removals name) :=
      List.getElem?_eq_some_iff.mpr ⟨Nat.lt_trans hj hlt,heq⟩
    exact Nat.ne_of_lt hj ((eq_iff_birth hj' hi).mpr rfl)

/-- What there is stays there, and the name has its object. -/
theorem findOrAdd_spec (name : N) (t : Table N) : t.births <+: (t.findOrAdd name).1.births ∧
    (t.findOrAdd name).1.removals = t.removals ∧
      (t.findOrAdd name).1.find name = some (t.findOrAdd name).2 := by
  unfold findOrAdd
  split
  · next hmem =>
    refine ⟨List.prefix_refl _,rfl,find_eq_some_iff.mpr ?_⟩
    exact List.getElem?_eq_some_iff.mpr
      ⟨List.idxOf_lt_length_of_mem hmem,List.getElem_idxOf _⟩
  · exact ⟨List.prefix_append _ _,rfl,find_eq_some_iff.mpr List.getElem?_concat_length⟩

/-- Other names stand for what they did. -/
theorem find_findOrAdd_of_ne (hne : other ≠ name) :
    (t.findOrAdd name).1.find other = t.find other := by
  unfold findOrAdd
  split
  · rfl
  · next hmem =>
    have hbirth : (other,t.removals other) ≠ (name,t.removals name) :=
      fun heq => hne (congrArg Prod.fst heq)
    apply Option.ext
    intro i
    rw [find_eq_some_iff,find_eq_some_iff]
    change (t.births ++ [(name,t.removals name)])[i]? = some (other,t.removals other) ↔ _
    rw [List.getElem?_append]
    split
    · rfl
    · next hge =>
      rw [List.getElem?_eq_none (Nat.not_lt.mp hge)]
      refine iff_of_false (fun heq => ?_) nofun
      exact hbirth (List.mem_singleton.mp (List.mem_of_getElem? heq))

theorem find_remove : (t.remove name).find name = none := by
  rw [find,List.idxOf?_eq_none_iff]
  intro hmem
  have hremovals : (t.remove name).removals name = t.removals name + 1 :=
    Function.update_self name _ t.removals
  have hle := t.past _ hmem
  dsimp only at hle
  omega

theorem find_remove_of_ne (hne : other ≠ name) : (t.remove name).find other = t.find other := by
  rw [find,find,remove]
  dsimp only
  rw [Function.update_of_ne hne]

end Table
end NameTable
