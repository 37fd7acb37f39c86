import Mathlib.Logic.Basic
import Mathlib.Data.List.Basic

/-! # Guarded transition systems

A system has partial actions, and a permission that says which action may be taken
in which state. Restricting the permission restricts the runs; an invariant is
proved once for the start states and once for every permitted action. A list of
actions can be replayed, which turns a computation into a reachable state.
-/
namespace Transition
variable {σ α : Type*}

structure System (σ α : Type*) where
  init : σ → Prop
  may : σ → α → Prop
  act : α → σ → Option σ

namespace System

/-- The states of all finite runs. -/
inductive Reachable (S : System σ α) : σ → Prop
  | start {s : σ} : S.init s → Reachable S s
  | step {s s' : σ} (a : α) : Reachable S s → S.may s a → S.act a s = some s' → Reachable S s'

/-- The same system, taking only actions that a further condition admits. -/
def restrict (S : System σ α) (admits : σ → α → Prop) : System σ α where
  init := S.init
  may s a := S.may s a ∧ admits s a
  act := S.act

/-- What holds at the start and is kept by every permitted action always holds. -/
theorem Reachable.invariant {S : System σ α} {P : σ → Prop} (hinit : ∀ s, S.init s → P s)
    (hstep : ∀ s a s', P s → S.may s a → S.act a s = some s' → P s')
    {s : σ} (h : S.Reachable s) : P s := by
  induction h with
  | start hs => exact hinit _ hs
  | step a _ hmay hact ih => exact hstep _ a _ ih hmay hact

/-- Where the condition always holds, restricting changes no run. -/
theorem Reachable.restrict {S : System σ α} {admits : σ → α → Prop}
    (hall : ∀ s a, S.Reachable s → S.may s a → admits s a) {s : σ} (h : S.Reachable s) :
    (S.restrict admits).Reachable s := by
  induction h with
  | start hs => exact .start hs
  | step a hr hmay hact ih => exact .step a ih ⟨hmay,hall _ a hr hmay⟩ hact

instance {S : System σ α} {admits : σ → α → Prop} [∀ s a, Decidable (S.may s a)]
    [∀ s a, Decidable (admits s a)] (s : σ) (a : α) : Decidable ((S.restrict admits).may s a) :=
  inferInstanceAs (Decidable (_ ∧ _))

section Replay
variable (S : System σ α) [∀ s a, Decidable (S.may s a)]

/-- Take the listed actions in order, if all of them are permitted and enabled. -/
def replay : List α → σ → Option σ
  | [], s => some s
  | a :: as, s => if S.may s a then (S.act a s).bind (replay as) else none

variable {S}

theorem Reachable.replay {as : List α} {s s' : σ} (h : S.Reachable s)
    (hr : S.replay as s = some s') : S.Reachable s' := by
  induction as generalizing s with
  | nil =>
    cases hr
    exact h
  | cons a as ih =>
    simp only [System.replay] at hr
    split at hr
    · next hmay =>
      obtain ⟨t,hact,ht⟩ := Option.bind_eq_some_iff.mp hr
      exact ih (.step a h hmay hact) ht
    · cases hr

/-- A replay that ends in a state with a given view reaches such a state. -/
theorem Reachable.of_replay {γ : Type*} {s : σ} (h : S.init s) (as : List α) (view : σ → γ)
    {v : γ} (hv : (S.replay as s).map view = some v) : ∃ s', S.Reachable s' ∧ view s' = v := by
  obtain ⟨s',hs',rfl⟩ := Option.map_eq_some_iff.mp hv
  exact ⟨s',(Reachable.start h).replay hs',rfl⟩

/-- A rank that the counted actions lower, and that no other listed action raises, bounds how
many of them there can be. -/
theorem countP_le_rank {P : σ → Prop} (rank : σ → ℕ) (counted : α → Bool) {as : List α}
    (hstep : ∀ a ∈ as, ∀ s s', P s → S.may s a → S.act a s = some s' →
      P s' ∧ rank s' + (if counted a then 1 else 0) ≤ rank s) {s s' : σ} (hs : P s)
    (hr : S.replay as s = some s') : P s' ∧ rank s' + as.countP counted ≤ rank s := by
  induction as generalizing s with
  | nil =>
    cases hr
    exact ⟨hs,Nat.le_refl _⟩
  | cons a as ih =>
    simp only [System.replay] at hr
    split at hr
    · next hmay =>
      obtain ⟨t,hact,ht⟩ := Option.bind_eq_some_iff.mp hr
      obtain ⟨hPt,hrank⟩ := hstep a List.mem_cons_self s t hs hmay hact
      obtain ⟨hPs',hcount⟩ := ih (fun b hb => hstep b (List.mem_cons_of_mem a hb)) hPt ht
      rw [List.countP_cons]
      exact ⟨hPs',by omega⟩
    · cases hr

end Replay
end System
end Transition
