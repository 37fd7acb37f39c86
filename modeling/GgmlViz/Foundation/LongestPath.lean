import Mathlib.Data.Fintype.Card
import Mathlib.Data.Fintype.BigOperators
import Mathlib.Order.Bounds.Basic
import Mathlib.Data.Fintype.EquivFin
import Mathlib.Order.WellFounded
import Mathlib.Algebra.Order.BigOperators.Group.Finset

/-! # Longest paths by a work list

The sources of a finite acyclic graph get depth 0. A vertex that is taken from the queue
raises each of its successors above itself, and a vertex that was raised is queued again.
The queue runs empty, and then the depths are the lengths of the longest paths from sources.
-/
namespace LongestPath
variable {V : Type*}

section Paths
variable (R : V → V → Prop)

/-- A path with so many edges. -/
inductive Path : V → V → ℕ → Prop
  | nil (v : V) : Path v v 0
  | snoc {u v w : V} {k : ℕ} : Path u v k → R v w → Path u w (k + 1)

def Acyclic : Prop := ∀ v k, ¬Path R v v (k + 1)

def IsSource (v : V) : Prop := ∀ u, ¬R u v

variable {R} {u v w : V} {j k : ℕ}

theorem Path.trans (h : Path R u v j) (h' : Path R v w k) : Path R u w (j + k) := by
  induction h' with
  | nil => exact h
  | snoc _ hedge ih => exact ih.snoc hedge

theorem Path.single (h : R v w) : Path R v w 1 := (Path.nil v).snoc h

theorem Path.rank_add_le {rank : V → ℕ} (hrank : ∀ x y, R x y → rank x < rank y)
    (h : Path R u v k) : rank u + k ≤ rank v := by
  induction h with
  | nil => exact le_refl _
  | snoc _ hedge ih =>
    have hlt := hrank _ _ hedge
    omega

theorem acyclic_of_rank (rank : V → ℕ) (hrank : ∀ x y, R x y → rank x < rank y) : Acyclic R := by
  intro v k hpath
  have hle := hpath.rank_add_le hrank
  omega

/-- The vertices of a path are different, and all of them lead to its end. -/
theorem Path.vertices (hacyclic : Acyclic R) (h : Path R u v k) :
    ∃ vs : List V, vs.length = k + 1 ∧ vs.Nodup ∧ ∀ x ∈ vs, ∃ n, Path R x v n := by
  induction h with
  | nil => exact ⟨[u],rfl,List.nodup_singleton u,by simpa using ⟨0,.nil u⟩⟩
  | @snoc v w k _ hedge ih =>
    obtain ⟨vs,hlen,hnodup,hlead⟩ := ih
    refine ⟨w :: vs,by rw [List.length_cons,hlen],?_,?_⟩
    · refine List.nodup_cons.mpr ⟨?_,hnodup⟩
      intro hmem
      obtain ⟨n,hn⟩ := hlead w hmem
      exact hacyclic w n (hn.snoc hedge)
    · intro x hx
      rcases List.mem_cons.mp hx with rfl | hx
      · exact ⟨0,.nil x⟩
      · obtain ⟨n,hn⟩ := hlead x hx
        exact ⟨n + 1,hn.snoc hedge⟩

theorem Path.length_lt_card [Fintype V] (hacyclic : Acyclic R) (h : Path R u v k) :
    k < Fintype.card V := by
  obtain ⟨vs,hlen,hnodup,-⟩ := h.vertices hacyclic
  have hcard := hnodup.length_le_card
  omega

/-- Going back from a vertex, one comes to a source. -/
theorem exists_source [Finite V] (hacyclic : Acyclic R) (v : V) :
    ∃ u, IsSource R u ∧ ∃ k, Path R u v k := by
  let before (u v : V) : Prop := ∃ k, Path R u v (k + 1)
  have : IsTrans V before := ⟨fun u v w ⟨j,hj⟩ ⟨k,hk⟩ => ⟨j + 1 + k,hj.trans hk⟩⟩
  have : Std.Irrefl before := ⟨fun v ⟨k,hk⟩ => hacyclic v k hk⟩
  have hwf : WellFounded before := Finite.wellFounded_of_trans_of_irrefl before
  induction v using hwf.induction with
  | h v ih =>
    by_cases hsource : IsSource R v
    · exact ⟨v,hsource,0,.nil v⟩
    · simp only [IsSource,not_forall,not_not] at hsource
      obtain ⟨x,hx⟩ := hsource
      obtain ⟨u,hu,k,hk⟩ := ih x ⟨0,.single hx⟩
      exact ⟨u,hu,k + 1,hk.snoc hx⟩

end Paths

section WorkList
variable [DecidableEq V]

/-- A vertex that was not reached has a negative depth. -/
structure Work (V : Type*) where
  depth : V → ℤ
  queue : List V

/-- Raises a successor of a vertex of depth `d`. -/
def relax (d : ℤ) (s : Work V) (w : V) : Work V :=
  if s.depth w < d + 1 then
    { depth := Function.update s.depth w (d + 1), queue := s.queue ++ [w] }
  else s

/-- Takes a vertex from the front of the queue. -/
def visit (out : V → List V) (v : V) (rest : List V) (s : Work V) : Work V :=
  (out v).foldl (relax (s.depth v)) { s with queue := rest }

/-- Visits until the queue is empty, at most so many times. -/
def run (out : V → List V) : ℕ → Work V → Option (Work V)
  | n, s =>
    match n, s.queue with
    | _, [] => some s
    | 0, _ :: _ => none
    | n + 1, v :: rest => run out n (visit out v rest s)

/-- What raising some vertices does. -/
structure Raised (d : ℤ) (ws : List V) (s t : Work V) : Prop where
  mono : ∀ w, s.depth w ≤ t.depth w
  above : ∀ w ∈ ws, d + 1 ≤ t.depth w
  cases : ∀ w, t.depth w = s.depth w ∨ (w ∈ ws ∧ t.depth w = d + 1 ∧ w ∈ t.queue)
  kept : ∀ w ∈ s.queue, w ∈ t.queue
  queued : ∀ w ∈ t.queue, w ∈ s.queue ∨ d + 1 ≤ t.depth w

section Raising
variable {d : ℤ} {ws : List V} {s t u : Work V}

omit [DecidableEq V] in
theorem Raised.refl (d : ℤ) (s : Work V) : Raised d [] s s where
  mono := fun _ => le_refl _
  above := fun _ h => absurd h List.not_mem_nil
  cases := fun _ => .inl rfl
  kept := fun _ h => h
  queued := fun _ h => .inl h

theorem raised_relax (d : ℤ) (s : Work V) (w : V) : Raised d [w] s (relax d s w) := by
  unfold relax
  split
  · next hlow =>
    refine ⟨?_,?_,?_,?_,?_⟩
    · intro x
      by_cases hx : x = w
      · subst hx
        simpa using hlow.le
      · simp [Function.update_of_ne hx]
    · simp
    · intro x
      by_cases hx : x = w
      · exact .inr (by simp [hx])
      · exact .inl (Function.update_of_ne hx _ _)
    · exact fun x hx => List.mem_append_left _ hx
    · intro x hx
      rcases List.mem_append.mp hx with hx | hx
      · exact .inl hx
      · rw [List.mem_singleton.mp hx]
        exact .inr (by simp)
  · next hhigh =>
    exact
      { mono := fun _ => le_refl _
        above := by simpa using hhigh
        cases := fun _ => .inl rfl
        kept := fun _ h => h
        queued := fun _ h => .inl h }

omit [DecidableEq V] in
theorem Raised.cons {w : V} (h : Raised d [w] s t) (h' : Raised d ws t u) :
    Raised d (w :: ws) s u where
  mono := fun x => (h.mono x).trans (h'.mono x)
  above := by
    intro x hx
    rcases List.mem_cons.mp hx with rfl | hx
    · exact (h.above x List.mem_cons_self).trans (h'.mono x)
    · exact h'.above x hx
  cases := by
    intro x
    rcases h'.cases x with hsame | ⟨hx,hdepth,hqueue⟩
    · rcases h.cases x with hfirst | ⟨hx,hdepth,hqueue⟩
      · exact .inl (hsame.trans hfirst)
      · obtain rfl := List.mem_singleton.mp hx
        exact .inr ⟨List.mem_cons_self,hsame.trans hdepth,h'.kept x hqueue⟩
    · exact .inr ⟨List.mem_cons_of_mem w hx,hdepth,hqueue⟩
  kept := fun x hx => h'.kept x (h.kept x hx)
  queued := by
    intro x hx
    rcases h'.queued x hx with hx | hx
    · exact (h.queued x hx).imp_right (fun hle => hle.trans (h'.mono x))
    · exact .inr hx

theorem raised_foldl (d : ℤ) (ws : List V) (s : Work V) : Raised d ws s (ws.foldl (relax d) s) := by
  induction ws generalizing s with
  | nil => exact .refl d s
  | cons w ws ih => exact (raised_relax d s w).cons (ih (relax d s w))

theorem raised_visit (out : V → List V) (v : V) (rest : List V) (s : Work V) :
    Raised (s.depth v) (out v) { s with queue := rest } (visit out v rest s) :=
  raised_foldl _ _ _

end Raising

/-- The depths are lengths of paths from sources, and a vertex that is not queued has raised
its successors. -/
structure Labelled (R : V → V → Prop) (s : Work V) : Prop where
  sound : ∀ v, 0 ≤ s.depth v → ∃ u, IsSource R u ∧ Path R u v (s.depth v).toNat
  sources : ∀ v, IsSource R v → 0 ≤ s.depth v
  queued : ∀ v ∈ s.queue, 0 ≤ s.depth v
  closed : ∀ v, 0 ≤ s.depth v → v ∉ s.queue → ∀ w, R v w → s.depth v + 1 ≤ s.depth w

section Labelling
variable {R : V → V → Prop} {out : V → List V} {s : Work V} {v : V} {rest : List V}

theorem Labelled.visit (h : Labelled R s) (hout : ∀ v w, w ∈ out v ↔ R v w)
    (hqueue : s.queue = v :: rest) : Labelled R (visit out v rest s) := by
  have hraised := raised_visit out v rest s
  have hv : 0 ≤ s.depth v := h.queued v (hqueue ▸ List.mem_cons_self)
  exact
    { sound := by
        intro w hw
        rcases hraised.cases w with hsame | ⟨hmem,hdepth,-⟩
        · rw [hsame] at hw ⊢
          exact h.sound w hw
        · obtain ⟨u,hu,hpath⟩ := h.sound v hv
          refine ⟨u,hu,?_⟩
          have hlength : (s.depth v + 1).toNat = (s.depth v).toNat + 1 := by omega
          rw [hdepth,hlength]
          exact hpath.snoc ((hout v w).mp hmem)
      sources := fun w hw => (h.sources w hw).trans (hraised.mono w)
      queued := by
        intro w hw
        rcases hraised.queued w hw with hw | hw
        · exact (h.queued w (hqueue ▸ List.mem_cons_of_mem v hw)).trans (hraised.mono w)
        · omega
      closed := by
        intro w hw hnot x hx
        have hsame : (LongestPath.visit out v rest s).depth w = s.depth w := by
          rcases hraised.cases w with hsame | ⟨-,-,hmem⟩
          · exact hsame
          · exact absurd hmem hnot
        rw [hsame] at hw ⊢
        by_cases hwv : w = v
        · subst hwv
          exact hraised.above x ((hout w x).mpr hx)
        · have hold : w ∉ s.queue := by
            rw [hqueue]
            intro hmem
            rcases List.mem_cons.mp hmem with hmem | hmem
            · exact hwv hmem
            · exact hnot (hraised.kept w hmem)
          exact (h.closed w hw hold x hx).trans (hraised.mono x) }

omit [DecidableEq V] in
/-- When the queue is empty, the depths are the lengths of the longest paths from sources. -/
theorem Labelled.isGreatest [Finite V] (h : Labelled R s) (hacyclic : Acyclic R)
    (hqueue : s.queue = []) (v : V) : 0 ≤ s.depth v ∧
      IsGreatest {k | ∃ u, IsSource R u ∧ Path R u v k} (s.depth v).toNat := by
  have hpath : ∀ {u v k}, IsSource R u → Path R u v k → (k : ℤ) ≤ s.depth v := by
    intro u v k hu hpath
    induction hpath with
    | nil => exact h.sources u hu
    | @snoc v w k _ hedge ih =>
      have hstep := h.closed v (by omega) (by simp [hqueue]) w hedge
      push_cast
      omega
  obtain ⟨u,hu,k,hk⟩ := exists_source hacyclic v
  have hreached := hpath hu hk
  have hnonneg : 0 ≤ s.depth v := by omega
  refine ⟨hnonneg,h.sound v hnonneg,?_⟩
  rintro k ⟨u,hu,hk⟩
  have hle := hpath hu hk
  omega

end Labelling

section Termination
variable [Fintype V] {R : V → V → Prop} {out : V → List V} {s : Work V}

/-- Twice what the depths can still grow, and the length of the queue. -/
def weight (s : Work V) : ℕ :=
  2 * ∑ v, (Fintype.card V - s.depth v).toNat + s.queue.length

theorem weight_relax {d : ℤ} (hd : d + 1 ≤ Fintype.card V) (s : Work V) (w : V) :
    weight (relax d s w) ≤ weight s := by
  unfold relax
  split
  · next hlow =>
    let depth := Function.update s.depth w (d + 1)
    have hle : ∀ v ∈ Finset.univ, (Fintype.card V - depth v).toNat ≤
        (Fintype.card V - s.depth v).toNat := by
      intro v _
      by_cases hv : v = w
      · subst hv
        simp only [depth,Function.update_self]
        omega
      · simp [depth,Function.update_of_ne hv]
    have hlt : (Fintype.card V - depth w).toNat < (Fintype.card V - s.depth w).toNat := by
      simp only [depth,Function.update_self]
      omega
    have hsum := Finset.sum_lt_sum hle ⟨w,Finset.mem_univ w,hlt⟩
    change 2 * ∑ v, (Fintype.card V - depth v).toNat + (s.queue ++ [w]).length ≤ _
    rw [weight,List.length_append,List.length_singleton]
    omega
  · exact le_refl _

theorem weight_foldl {d : ℤ} {ws : List V} (hd : ws ≠ [] → d + 1 ≤ Fintype.card V) (s : Work V) :
    weight (ws.foldl (relax d) s) ≤ weight s := by
  induction ws generalizing s with
  | nil => exact le_refl _
  | cons w ws ih =>
    have hbound := hd (List.cons_ne_nil w ws)
    exact (ih (fun _ => hbound) (relax d s w)).trans (weight_relax hbound s w)

omit [DecidableEq V] in
/-- A successor of a vertex is not deeper than there are vertices. -/
theorem Labelled.depth_lt (h : Labelled R s) (hacyclic : Acyclic R) {v w : V}
    (hv : 0 ≤ s.depth v) (hedge : R v w) : s.depth v + 1 < Fintype.card V := by
  obtain ⟨u,-,hpath⟩ := h.sound v hv
  have hlt := (hpath.snoc hedge).length_lt_card hacyclic
  omega

theorem Labelled.weight_visit (h : Labelled R s) (hacyclic : Acyclic R)
    (hout : ∀ v w, w ∈ out v ↔ R v w) {v : V} {rest : List V} (hqueue : s.queue = v :: rest) :
    weight (LongestPath.visit out v rest s) < weight s := by
  have hv : 0 ≤ s.depth v := h.queued v (hqueue ▸ List.mem_cons_self)
  have hbound : out v ≠ [] → s.depth v + 1 ≤ Fintype.card V := by
    intro hne
    obtain ⟨w,hw⟩ := List.exists_mem_of_ne_nil _ hne
    exact (h.depth_lt hacyclic hv ((hout v w).mp hw)).le
  apply (weight_foldl hbound { s with queue := rest }).trans_lt
  simp only [weight,hqueue,List.length_cons]
  omega

/-- On an acyclic graph the queue runs empty. -/
theorem Labelled.run (h : Labelled R s) (hacyclic : Acyclic R) (hout : ∀ v w, w ∈ out v ↔ R v w)
    {n : ℕ} (hn : weight s ≤ n) :
    ∃ t, LongestPath.run out n s = some t ∧ Labelled R t ∧ t.queue = [] := by
  induction n generalizing s with
  | zero =>
    have hqueue : s.queue = [] := by
      apply List.eq_nil_of_length_eq_zero
      unfold weight at hn
      omega
    exact ⟨s,by unfold LongestPath.run; rw [hqueue],h,hqueue⟩
  | succ n ih =>
    cases hqueue : s.queue with
    | nil => exact ⟨s,by unfold LongestPath.run; rw [hqueue],h,hqueue⟩
    | cons v rest =>
      have hlt := h.weight_visit hacyclic hout hqueue
      obtain ⟨t,hrun,ht⟩ := ih (h.visit hout hqueue) (by omega)
      refine ⟨t,?_,ht⟩
      unfold LongestPath.run
      rw [hqueue]
      exact hrun

end Termination
end WorkList
end LongestPath
