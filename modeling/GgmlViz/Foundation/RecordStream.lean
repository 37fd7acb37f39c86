import Mathlib.Data.List.Basic
import Mathlib.Data.List.TakeDrop

/-! # Streams of self-delimiting records

A record reader takes one record off the front of a stream. The two laws it
carries are what a reader of an append-only stream relies on: a successful read
consumes something, and its result does not depend on what comes later. Reading a
whole stream stops silently at the first record that is not there in full, so the
records read from a prefix are a prefix of the records read from the whole.
-/
namespace RecordStream
variable {α β : Type*}

/-- One record off the front of a stream, together with the rest. -/
structure RecordReader (α β : Type*) where
  read : List β → Option (α × List β)
  consumes : ∀ {bs : List β} {a : α} {rest : List β},
    read bs = some (a,rest) → rest.length < bs.length
  stable : ∀ {bs : List β} {a : α} {rest : List β} (more : List β),
    read bs = some (a,rest) → read (bs ++ more) = some (a,rest ++ more)

namespace RecordReader
variable (R : RecordReader α β)

/-- Read records until one is missing; `none` only when the fuel runs out. -/
def readMany : ℕ → List β → Option (List α)
  | 0, _ => none
  | n + 1, bs =>
    match R.read bs with
    | none => some []
    | some (a,rest) => (readMany n rest).map (a :: ·)

theorem read_nil : R.read [] = none := by
  cases h : R.read [] with
  | none => rfl
  | some p => exact absurd (R.consumes h) (by simp)

theorem readMany_of_none {bs : List β} (h : R.read bs = none) (n : ℕ) :
    R.readMany (n + 1) bs = some [] := by simp [readMany,h]

theorem readMany_of_some {bs rest : List β} {a : α} (h : R.read bs = some (a,rest)) (n : ℕ) :
    R.readMany (n + 1) bs = (R.readMany n rest).map (a :: ·) := by simp [readMany,h]

/-- Every stream is read to its end: the reader is total, whatever the symbols. -/
theorem readMany_total {n : ℕ} {bs : List β} (h : bs.length < n) :
    ∃ xs, R.readMany n bs = some xs := by
  induction n generalizing bs with
  | zero => omega
  | succ n ih =>
    cases hr : R.read bs with
    | none => exact ⟨[],R.readMany_of_none hr n⟩
    | some p =>
      obtain ⟨a,rest⟩ := p
      have hlt := R.consumes hr
      obtain ⟨xs,hxs⟩ := ih (show rest.length < n by omega)
      exact ⟨a :: xs,by rw [R.readMany_of_some hr,hxs]; rfl⟩

/-- Records read from a prefix of a stream are a prefix of those read from it. -/
theorem readMany_prefix {n m : ℕ} {bs more : List β} {xs ys : List α}
    (hx : R.readMany n bs = some xs) (hy : R.readMany m (bs ++ more) = some ys) : xs <+: ys := by
  induction n generalizing m bs xs ys with
  | zero => simp [readMany] at hx
  | succ n ih =>
    cases hr : R.read bs with
    | none =>
      rw [R.readMany_of_none hr] at hx
      cases hx
      exact List.nil_prefix
    | some p =>
      obtain ⟨a,rest⟩ := p
      cases m with
      | zero => simp [readMany] at hy
      | succ m =>
        rw [R.readMany_of_some hr,Option.map_eq_some_iff] at hx
        rw [R.readMany_of_some (R.stable more hr),Option.map_eq_some_iff] at hy
        obtain ⟨xs',hx',rfl⟩ := hx
        obtain ⟨ys',hy',rfl⟩ := hy
        exact (List.prefix_cons_inj a).mpr (ih hx' hy')

section Encoded
variable {R} {encode : α → List β}

/-- A cut inside a record leaves nothing to read. -/
theorem read_cut {x : α} (hx : R.read (encode x) = some (x,[])) {bs : List β}
    (hp : bs <+: encode x) (hlt : bs.length < (encode x).length) : R.read bs = none := by
  obtain ⟨more,hmore⟩ := hp
  cases hr : R.read bs with
  | none => rfl
  | some p =>
    obtain ⟨a,rest⟩ := p
    have hs := R.stable more hr
    rw [hmore,hx] at hs
    have hnil : [] = rest ++ more := congrArg Prod.snd (Option.some.inj hs)
    have hm : more = [] := (List.append_eq_nil_iff.mp hnil.symm).2
    rw [hm,List.append_nil] at hmore
    rw [hmore] at hlt
    omega

/-- Reading a stream of encoded records that was cut anywhere gives exactly the
records that end at or before the cut. -/
theorem readMany_cut {xs : List α} (hx : ∀ x ∈ xs, R.read (encode x) = some (x,[]))
    {bs : List β} (hp : bs <+: xs.flatMap encode) {n : ℕ} (hn : bs.length < n) :
    ∃ j ≤ xs.length, R.readMany n bs = some (xs.take j) ∧
      ∀ i ≤ xs.length, i ≤ j ↔ ((xs.take i).flatMap encode).length ≤ bs.length := by
  induction xs generalizing bs n with
  | nil =>
    obtain ⟨n,rfl⟩ : ∃ k, n = k + 1 := ⟨n - 1,by omega⟩
    have hnil : bs = [] := by simpa using hp
    subst hnil
    exact ⟨0,(Nat.le_refl _),by simpa using R.readMany_of_none R.read_nil n,by simp⟩
  | cons x xs ih =>
    obtain ⟨n,rfl⟩ : ∃ k, n = k + 1 := ⟨n - 1,by omega⟩
    have hxr := hx x List.mem_cons_self
    rw [List.flatMap_cons] at hp
    by_cases hlen : (encode x).length ≤ bs.length
    · -- the first record is complete
      have hpre : encode x <+: bs := List.prefix_of_prefix_length_le (List.prefix_append _ _) hp hlen
      obtain ⟨rest,rfl⟩ := hpre
      have hrest : rest <+: xs.flatMap encode := (List.prefix_append_right_inj _).mp hp
      have hread := R.stable rest hxr
      have hpos := R.consumes hread
      obtain ⟨j,hj,hm,hi⟩ := ih (fun y hy => hx y (List.mem_cons_of_mem _ hy)) hrest
        (n := n) (by simp only [List.nil_append] at hpos; omega)
      refine ⟨j + 1,by simpa using hj,?_,?_⟩
      · rw [R.readMany_of_some hread,List.nil_append,hm]
        rfl
      · intro i hle
        cases i with
        | zero => simp
        | succ i =>
          have := hi i (by simpa using hle)
          simp only [List.take_succ_cons,List.flatMap_cons,List.length_append]
          omega
    · -- the cut falls inside the first record
      have hpre : bs <+: encode x :=
        List.prefix_of_prefix_length_le hp (List.prefix_append _ _) (by omega)
      refine ⟨0,Nat.zero_le _,?_,?_⟩
      · simpa using R.readMany_of_none (read_cut hxr hpre (by omega)) n
      · intro i hle
        cases i with
        | zero => simp
        | succ i =>
          simp only [List.take_succ_cons,List.flatMap_cons,List.length_append]
          omega

end Encoded
end RecordReader
end RecordStream
