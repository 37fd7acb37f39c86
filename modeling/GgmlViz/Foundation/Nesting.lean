import Mathlib.Data.List.Nodup
import Mathlib.Logic.Function.Basic

/-! # Nested calls

A call may make further calls before it returns. What a call leaves behind when it is
entered and when it is left brackets what the calls within it leave. A key that is opened
and closed is matched with the latest opening, so a call keeps only the keys that no call
within it opens.
-/
namespace Nesting
variable {α β κ σ : Type*}

/-- Calls one after the other, each with the calls that it makes before it returns. -/
inductive Calls (α : Type*)
  | done
  | call (a : α) (within next : Calls α)

namespace Calls

/-- The calls in the order in which they return. -/
def toList : Calls α → List α
  | .done => []
  | .call a within next => within.toList ++ a :: next.toList

section Visits
variable (enter leave : α → List β)

/-- What is left behind, from the first entry to the last return. -/
def visits : Calls α → List β
  | .done => []
  | .call a within next => enter a ++ (within.visits ++ (leave a ++ next.visits))

variable {enter leave}

theorem mem_visits {c : Calls α} {x : β} :
    x ∈ c.visits enter leave ↔ ∃ a ∈ c.toList, x ∈ enter a ∨ x ∈ leave a := by
  induction c with
  | done => simp [visits,toList]
  | call a within next ihWithin ihNext =>
    simp only [visits,toList,List.mem_append,List.mem_cons,ihWithin,ihNext]
    constructor
    · rintro (h | ⟨b,hb,h⟩ | h | ⟨b,hb,h⟩)
      · exact ⟨a,.inr (.inl rfl),.inl h⟩
      · exact ⟨b,.inl hb,h⟩
      · exact ⟨a,.inr (.inl rfl),.inr h⟩
      · exact ⟨b,.inr (.inr hb),h⟩
    · rintro ⟨b,hb | rfl | hb,h⟩
      · exact .inr (.inl ⟨b,hb,h⟩)
      · rcases h with h | h
        · exact .inl h
        · exact .inr (.inr (.inl h))
      · exact .inr (.inr (.inr ⟨b,hb,h⟩))

theorem flatMap_visits {γ : Type*} (f : β → List γ) (c : Calls α) :
    (c.visits enter leave).flatMap f =
      c.visits (fun a => (enter a).flatMap f) (fun a => (leave a).flatMap f) := by
  induction c with
  | done => rfl
  | call a within next ihWithin ihNext =>
    simp only [visits,List.flatMap_append,ihWithin,ihNext]

theorem filterMap_visits {γ : Type*} (f : β → Option γ) (c : Calls α) :
    (c.visits enter leave).filterMap f =
      c.visits (fun a => (enter a).filterMap f) (fun a => (leave a).filterMap f) := by
  induction c with
  | done => rfl
  | call a within next ihWithin ihNext =>
    simp only [visits,List.filterMap_append,ihWithin,ihNext]

end Visits

section Run
variable (before after : α → σ → σ)

/-- A machine that does something when a call is entered and when it is left. -/
def run : Calls α → σ → σ
  | .done, s => s
  | .call a within next, s => next.run (after a (within.run (before a s)))

variable {before after} {enter leave : α → List β}

/-- What holds of the visits so far and the state, and is kept at every entry and return,
holds at the end. Only the visits of the whole need be considered. -/
theorem run_visits {P : List β → σ → Prop} (all : List β)
    (hbefore : ∀ a past s, past ++ enter a <+: all → P past s → P (past ++ enter a) (before a s))
    (hafter : ∀ a past s, past ++ leave a <+: all → P past s → P (past ++ leave a) (after a s))
    (c : Calls α) {past : List β} {s : σ} (hall : past ++ c.visits enter leave <+: all)
    (h : P past s) : P (past ++ c.visits enter leave) (c.run before after s) := by
  induction c generalizing past s with
  | done => simpa [visits,run] using h
  | call a within next ihWithin ihNext =>
    have hpre {l r : List β} (hl : l ++ r <+: all) : l <+: all := (List.prefix_append l r).trans hl
    simp only [visits,← List.append_assoc] at hall ⊢
    have hentered := hbefore a past s (hpre (hpre (hpre hall))) h
    have hwithin := ihWithin (hpre (hpre hall)) hentered
    have hleft := hafter a _ _ (hpre hall) hwithin
    exact ihNext hall hleft

end Run
end Calls

/-- What a visit does to the keys. -/
inductive Mark (κ : Type*)
  | opens (k : κ)
  | closes (k : κ)
  | plain

def Mark.key : Mark κ → Option κ
  | .opens k | .closes k => some k
  | .plain => none

section Marks
variable (mark : β → Mark κ)

def keys (xs : List β) : List κ := xs.filterMap (fun x => (mark x).key)

/-- The keys with their places, counted from a first place. -/
def places : ℕ → List β → List (κ × ℕ)
  | _, [] => []
  | i, x :: xs =>
    match (mark x).key with
    | some k => (k,i) :: places (i + 1) xs
    | none => places (i + 1) xs

variable [DecidableEq κ]

/-- Each closing place with the latest opening place of its key that is still open. -/
def spans : ℕ → (κ → Option ℕ) → List β → List (κ × ℕ × ℕ)
  | _, _, [] => []
  | i, pending, x :: xs =>
    match mark x with
    | .opens k => spans (i + 1) (Function.update pending k (some i)) xs
    | .closes k =>
      match pending k with
      | some b => (k,b,i) :: spans (i + 1) (Function.update pending k none) xs
      | none => spans (i + 1) pending xs
    | .plain => spans (i + 1) pending xs

/-- A call opens each of its keys once when it is entered and closes it when it is left. -/
structure Brackets (entered left : List β) : Prop where
  opening : ∀ x ∈ entered, ∀ k, mark x ≠ .closes k
  closing : ∀ x ∈ left, ∀ k, mark x ≠ .opens k
  same : keys mark left = keys mark entered
  nodup : (keys mark entered).Nodup

omit [DecidableEq κ] in
theorem Brackets.mark_entered {entered left : List β} {mark : β → Mark κ}
    (h : Brackets mark entered left) {x : β} {k : κ} (hx : x ∈ entered)
    (hkey : (mark x).key = some k) : mark x = .opens k := by
  cases hm : mark x with
  | opens k' => simpa [Mark.key,hm] using hkey
  | closes k' => exact absurd hm (h.opening x hx k')
  | plain => simp [Mark.key,hm] at hkey

omit [DecidableEq κ] in
theorem Brackets.mark_left {entered left : List β} {mark : β → Mark κ}
    (h : Brackets mark entered left) {x : β} {k : κ} (hx : x ∈ left)
    (hkey : (mark x).key = some k) : mark x = .closes k := by
  cases hm : mark x with
  | opens k' => exact absurd hm (h.closing x hx k')
  | closes k' => simpa [Mark.key,hm] using hkey
  | plain => simp [Mark.key,hm] at hkey

namespace Calls
variable (enter leave : α → List β)

/-- The spans of each call, without the keys that a call within it has. -/
def spans : ℕ → Calls α → List (α × κ × ℕ × ℕ)
  | _, .done => []
  | i, .call a within next =>
    let inside := within.visits enter leave
    let first := i + (enter a).length
    let last := first + inside.length
    within.spans first ++ ((places mark last (leave a)).filterMap (fun x =>
      if x.1 ∈ keys mark inside then none
      else ((places mark i (enter a)).lookup x.1).map (fun b => (a,x.1,b,x.2))) ++
        next.spans (last + (leave a).length))

/-- Each call with each of its keys that no call within it has. -/
def innermost : Calls α → List (α × κ)
  | .done => []
  | .call a within next =>
    within.innermost ++ (((keys mark (leave a)).filter
      (fun k => k ∉ keys mark (within.visits enter leave))).map (fun k => (a,k)) ++
        next.innermost)

end Calls
section Positions
variable {mark} {i : ℕ} {pending : κ → Option ℕ} {xs rest : List β}

omit [DecidableEq κ] in
theorem keys_append (xs ys : List β) : keys mark (xs ++ ys) = keys mark xs ++ keys mark ys :=
  List.filterMap_append

omit [DecidableEq κ] in
theorem fst_places (i : ℕ) (xs : List β) : (places mark i xs).map Prod.fst = keys mark xs := by
  induction xs generalizing i with
  | nil => rfl
  | cons x xs ih =>
    rw [places,keys,List.filterMap_cons]
    cases (mark x).key with
    | none => exact ih _
    | some k => exact congrArg (List.cons k) (ih _)

omit [DecidableEq κ] in
theorem getElem?_of_mem_places (pre rest : List β) {k : κ} {j : ℕ}
    (h : (k,j) ∈ places mark pre.length xs) :
    ∃ x ∈ xs, (pre ++ (xs ++ rest))[j]? = some x ∧ (mark x).key = some k := by
  induction xs generalizing pre with
  | nil => cases h
  | cons x xs ih =>
    have hnext (h : (k,j) ∈ places mark (pre.length + 1) xs) :
        ∃ y ∈ x :: xs, (pre ++ (x :: xs ++ rest))[j]? = some y ∧ (mark y).key = some k := by
      obtain ⟨y,hy,hget,hkey⟩ := ih (pre ++ [x]) (by simpa using h)
      exact ⟨y,List.mem_cons_of_mem _ hy,by simpa using hget,hkey⟩
    rw [places] at h
    split at h
    · next k' hkey =>
      rcases List.mem_cons.mp h with hfirst | h
      · cases hfirst
        exact ⟨x,List.mem_cons_self,by simp,hkey⟩
      · exact hnext h
    · exact hnext h

theorem lookup_places_none {k : κ} (h : k ∉ keys mark xs) : (places mark i xs).lookup k = none := by
  rw [List.lookup_eq_none_iff]
  intro x hx
  have hmem := List.mem_map_of_mem (f := Prod.fst) hx
  rw [fst_places] at hmem
  simp only [bne_iff_ne]
  rintro rfl
  exact h hmem

theorem mem_of_lookup_places {k : κ} {b : ℕ} (h : (places mark i xs).lookup k = some b) :
    (k,b) ∈ places mark i xs := by
  obtain ⟨l,r,hsplit,-⟩ := List.lookup_eq_some_iff.mp h
  rw [hsplit]
  simp

theorem exists_lookup_places {k : κ} (h : k ∈ keys mark xs) :
    ∃ b, (places mark i xs).lookup k = some b := by
  rw [← Option.isSome_iff_exists,List.lookup_isSome_iff]
  rw [← fst_places i xs] at h
  obtain ⟨x,hx,rfl⟩ := List.mem_map.mp h
  exact ⟨x,hx,beq_self_eq_true _⟩

theorem lookup_places_cons {k k' : κ} {x : β} (hkey : (mark x).key = some k') :
    (places mark i (x :: xs)).lookup k =
      if k = k' then some i else (places mark (i + 1) xs).lookup k := by
  rw [places,hkey]
  dsimp only
  split
  · next h => simp [h]
  · next h => rw [List.lookup_cons,beq_eq_false_iff_ne.mpr h]

/-- Entering a call opens its keys, each at its place. -/
theorem spans_entered (hopening : ∀ x ∈ xs, ∀ k, mark x ≠ .closes k)
    (hnodup : (keys mark xs).Nodup) :
    spans mark i pending (xs ++ rest) = spans mark (i + xs.length)
      (fun k => ((places mark i xs).lookup k).or (pending k)) rest := by
  induction xs generalizing i pending with
  | nil => rfl
  | cons x xs ih =>
    have hrest (pending' : κ → Option ℕ) (hn : (keys mark xs).Nodup) :
        spans mark (i + 1) pending' (xs ++ rest) = spans mark (i + 1 + xs.length)
          (fun k => ((places mark (i + 1) xs).lookup k).or (pending' k)) rest :=
      ih (fun y hy => hopening y (List.mem_cons_of_mem _ hy)) hn
    have hlen : i + (x :: xs).length = i + 1 + xs.length := by simp; omega
    rw [List.cons_append,spans,hlen]
    cases hx : mark x with
    | closes k => exact absurd hx (hopening x List.mem_cons_self k)
    | plain =>
      have hkeys : keys mark (x :: xs) = keys mark xs := by simp [keys,hx,Mark.key]
      dsimp only
      rw [hrest _ (hkeys ▸ hnodup),places,hx]
      rfl
    | opens k =>
      have hkeys : keys mark (x :: xs) = k :: keys mark xs := by simp [keys,hx,Mark.key]
      rw [hkeys] at hnodup
      obtain ⟨hfresh,hnodup⟩ := List.nodup_cons.mp hnodup
      dsimp only
      rw [hrest _ hnodup]
      congr 1
      funext k'
      rw [lookup_places_cons (by rw [hx]; rfl)]
      split
      · next h =>
        subst h
        simp [lookup_places_none hfresh]
      · next h => rw [Function.update_of_ne h]

/-- Leaving a call closes its keys, those that are still open with a span. -/
theorem spans_left (hclosing : ∀ x ∈ xs, ∀ k, mark x ≠ .opens k)
    (hnodup : (keys mark xs).Nodup) :
    spans mark i pending (xs ++ rest) =
      (places mark i xs).filterMap (fun x => (pending x.1).map (fun b => (x.1,b,x.2))) ++
        spans mark (i + xs.length) (fun k => if k ∈ keys mark xs then none else pending k) rest := by
  induction xs generalizing i pending with
  | nil => simp [places,keys]
  | cons x xs ih =>
    have hrest (pending' : κ → Option ℕ) (hn : (keys mark xs).Nodup) :
        spans mark (i + 1) pending' (xs ++ rest) =
          (places mark (i + 1) xs).filterMap
            (fun x => (pending' x.1).map (fun b => (x.1,b,x.2))) ++
          spans mark (i + 1 + xs.length)
            (fun k => if k ∈ keys mark xs then none else pending' k) rest :=
      ih (fun y hy => hclosing y (List.mem_cons_of_mem _ hy)) hn
    have hlen : i + (x :: xs).length = i + 1 + xs.length := by simp; omega
    rw [List.cons_append,spans,hlen]
    cases hx : mark x with
    | opens k => exact absurd hx (hclosing x List.mem_cons_self k)
    | plain =>
      have hkeys : keys mark (x :: xs) = keys mark xs := by simp [keys,hx,Mark.key]
      dsimp only
      rw [hrest _ (hkeys ▸ hnodup),places,hx,hkeys]
      rfl
    | closes k =>
      have hkeys : keys mark (x :: xs) = k :: keys mark xs := by simp [keys,hx,Mark.key]
      rw [hkeys] at hnodup ⊢
      obtain ⟨hfresh,hnodup⟩ := List.nodup_cons.mp hnodup
      have hplaces : places mark i (x :: xs) = (k,i) :: places mark (i + 1) xs := by
        simp [places,hx,Mark.key]
      -- the keys that follow are others
      have hothers : (places mark (i + 1) xs).filterMap
          (fun y => (Function.update pending k none y.1).map (fun b => (y.1,b,y.2))) =
          (places mark (i + 1) xs).filterMap
            (fun y => (pending y.1).map (fun b => (y.1,b,y.2))) := by
        apply List.filterMap_congr
        intro y hy
        have hmem := List.mem_map_of_mem (f := Prod.fst) hy
        rw [fst_places] at hmem
        have hne : y.1 ≠ k := by
          rintro rfl
          exact hfresh hmem
        rw [Function.update_of_ne hne]
      have hclosed : (fun k' => if k' ∈ keys mark xs then none
          else Function.update pending k none k') =
          (fun k' => if k' ∈ k :: keys mark xs then none else pending k') := by
        funext k'
        by_cases h : k' = k
        · subst h
          simp
        · simp [h]
      have hnext := hrest (Function.update pending k none) hnodup
      rw [hothers,hclosed] at hnext
      rw [hplaces,List.filterMap_cons]
      cases hpending : pending k with
      | none =>
        have hsame : Function.update pending k none = pending := by
          rw [← hpending,Function.update_eq_self]
        rw [hsame] at hnext
        simpa [hpending] using hnext
      | some b => simpa [hpending] using hnext

end Positions

section Bracketed
variable {mark} {enter leave : α → List β}

/-- What is matched in nested calls are the spans of each call. -/
theorem spans_visits {c : Calls α} (h : ∀ a ∈ c.toList, Brackets mark (enter a) (leave a)) (i : ℕ)
    (pending : κ → Option ℕ) (rest : List β) :
    spans mark i pending (c.visits enter leave ++ rest) =
      (c.spans mark enter leave i).map Prod.snd ++
        spans mark (i + (c.visits enter leave).length)
          (fun k => if k ∈ keys mark (c.visits enter leave) then none else pending k) rest := by
  induction c generalizing i pending rest with
  | done => simp [Calls.visits,Calls.spans,keys]
  | call a within next ihWithin ihNext =>
    have ha := h a (by simp [Calls.toList])
    have hwithin := ihWithin (fun b hb => h b (by simp [Calls.toList,hb]))
    have hnext := ihNext (fun b hb => h b (by simp [Calls.toList,hb]))
    have hnodup : (keys mark (leave a)).Nodup := ha.same ▸ ha.nodup
    simp only [Calls.visits,List.append_assoc]
    rw [spans_entered ha.opening ha.nodup,hwithin,spans_left ha.closing hnodup,hnext]
    have hown : (places mark (i + (enter a).length + (within.visits enter leave).length)
        (leave a)).filterMap (fun x => Option.map (fun b => (x.1,b,x.2))
          (if x.1 ∈ keys mark (within.visits enter leave) then none
          else ((places mark i (enter a)).lookup x.1).or (pending x.1))) =
        ((places mark (i + (enter a).length + (within.visits enter leave).length)
          (leave a)).filterMap (fun x =>
            if x.1 ∈ keys mark (within.visits enter leave) then none
            else ((places mark i (enter a)).lookup x.1).map (fun b => (a,x.1,b,x.2)))).map
              Prod.snd := by
      rw [List.map_filterMap]
      apply List.filterMap_congr
      intro x hx
      have hmem := List.mem_map_of_mem (f := Prod.fst) hx
      rw [fst_places,ha.same] at hmem
      obtain ⟨b,hb⟩ := exists_lookup_places (i := i) hmem
      rw [hb]
      split <;> simp
    have hpending : (fun k => if k ∈ keys mark (next.visits enter leave) then none
        else if k ∈ keys mark (leave a) then none
        else if k ∈ keys mark (within.visits enter leave) then none
        else ((places mark i (enter a)).lookup k).or (pending k)) =
        (fun k => if k ∈ keys mark (enter a ++ (within.visits enter leave ++
          (leave a ++ next.visits enter leave))) then none else pending k) := by
      funext k
      by_cases hk : k ∈ keys mark (enter a)
      · have hleft : k ∈ keys mark (leave a) := ha.same ▸ hk
        simp [keys_append,hk,hleft]
      · have hleft : k ∉ keys mark (leave a) := ha.same ▸ hk
        simp only [keys_append,List.mem_append,hk,hleft,lookup_places_none hk,false_or,if_false,
          Option.none_or]
        by_cases hw : k ∈ keys mark (within.visits enter leave) <;>
          by_cases hn : k ∈ keys mark (next.visits enter leave) <;> simp [hw,hn]
    have hlen : i + (enter a).length + (within.visits enter leave).length + (leave a).length +
        (next.visits enter leave).length = i + (enter a ++ (within.visits enter leave ++
          (leave a ++ next.visits enter leave))).length := by
      simp only [List.length_append]
      omega
    rw [hown,hpending,hlen]
    simp only [Calls.spans,List.map_append,List.append_assoc]
    rfl

/-- Each call has one span for each of its keys that no call within it has. -/
theorem spans_innermost {c : Calls α} (h : ∀ a ∈ c.toList, Brackets mark (enter a) (leave a))
    (i : ℕ) : (c.spans mark enter leave i).map (fun x => (x.1,x.2.1)) =
      c.innermost mark enter leave := by
  induction c generalizing i with
  | done => rfl
  | call a within next ihWithin ihNext =>
    have ha := h a (by simp [Calls.toList])
    have hown (j : ℕ) : ((places mark j (leave a)).filterMap (fun x =>
          if x.1 ∈ keys mark (within.visits enter leave) then none
          else ((places mark i (enter a)).lookup x.1).map (fun b => (a,x.1,b,x.2)))).map
        (fun x => (x.1,x.2.1)) =
        ((keys mark (leave a)).filter (fun k => k ∉ keys mark (within.visits enter leave))).map
          (fun k => (a,k)) := by
      rw [List.map_filterMap,← fst_places j (leave a),List.filter_map,List.map_map,
        ← List.filterMap_eq_map,List.filterMap_filter]
      apply List.filterMap_congr
      intro x hx
      have hmem := List.mem_map_of_mem (f := Prod.fst) hx
      rw [fst_places,ha.same] at hmem
      obtain ⟨b,hb⟩ := exists_lookup_places (i := i) hmem
      rw [hb]
      by_cases hw : x.1 ∈ keys mark (within.visits enter leave) <;> simp [hw]
    simp only [Calls.spans,Calls.innermost,List.map_append,hown,
      ihWithin (fun b hb => h b (by simp [Calls.toList,hb])),
      ihNext (fun b hb => h b (by simp [Calls.toList,hb]))]

/-- The two ends of a span were left behind by its call. -/
theorem getElem?_of_mem_spans {c : Calls α} (h : ∀ a ∈ c.toList, Brackets mark (enter a) (leave a))
    (pre rest : List β) {a : α} {k : κ} {b e : ℕ}
    (hx : (a,k,b,e) ∈ c.spans mark enter leave pre.length) :
    a ∈ c.toList ∧
      (∃ x ∈ enter a, (pre ++ (c.visits enter leave ++ rest))[b]? = some x ∧ mark x = .opens k) ∧
      ∃ y ∈ leave a, (pre ++ (c.visits enter leave ++ rest))[e]? = some y ∧ mark y = .closes k := by
  induction c generalizing pre rest with
  | done => cases hx
  | call a' within next ihWithin ihNext =>
    have ha' := h a' (by simp [Calls.toList])
    simp only [Calls.spans,List.mem_append] at hx
    rcases hx with hx | hx | hx
    · obtain ⟨hmem,hb,he⟩ := ihWithin (fun b hb => h b (by simp [Calls.toList,hb]))
        (pre ++ enter a') (leave a' ++ (next.visits enter leave ++ rest)) (by simpa using hx)
      exact ⟨by simp [Calls.toList,hmem],by simpa [Calls.visits] using hb,
        by simpa [Calls.visits] using he⟩
    · obtain ⟨⟨k',e'⟩,hplace,hown⟩ := List.mem_filterMap.mp hx
      dsimp only at hown
      split at hown
      · cases hown
      · obtain ⟨b',hlookup,hsame⟩ := Option.map_eq_some_iff.mp hown
        cases hsame
        have hb := getElem?_of_mem_places pre
          (within.visits enter leave ++ (leave a ++ (next.visits enter leave ++ rest)))
          (mem_of_lookup_places hlookup)
        have he := getElem?_of_mem_places (pre ++ (enter a ++ within.visits enter leave))
          (next.visits enter leave ++ rest) (by simpa [Nat.add_assoc] using hplace)
        obtain ⟨x,hx,hget,hkey⟩ := hb
        obtain ⟨y,hy,hget',hkey'⟩ := he
        exact ⟨by simp [Calls.toList],
          ⟨x,hx,by simpa [Calls.visits] using hget,ha'.mark_entered hx hkey⟩,
          ⟨y,hy,by simpa [Calls.visits] using hget',ha'.mark_left hy hkey'⟩⟩
    · obtain ⟨hmem,hb,he⟩ := ihNext (fun b hb => h b (by simp [Calls.toList,hb]))
        (pre ++ (enter a' ++ (within.visits enter leave ++ leave a'))) rest
        (by simpa [Nat.add_assoc] using hx)
      exact ⟨by simp [Calls.toList,hmem],by simpa [Calls.visits] using hb,
        by simpa [Calls.visits] using he⟩

end Bracketed
end Marks
end Nesting
