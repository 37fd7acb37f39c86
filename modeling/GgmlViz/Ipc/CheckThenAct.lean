import GgmlViz.Ipc.SingleReader
import GgmlViz.Foundation.Promise

/-! # Asking before acting

`available_space` and `available_data` load the two counters one after the other while the
other side goes on. What the writer is told can only get larger until it writes, and what
the reader is told until it reads.
-/
namespace GgmlViz.Ring
open LittleEndian SharedRegion RingHeader
variable {α : Type}

inductive Query
  | availableSpace
  | availableData

/-- The next load of a query. -/
inductive QueryPc
  -- available_space
  | spaceHead
  | spaceTail (head : UInt32)
  -- available_data
  | dataTail
  | dataHead (tail : UInt32)

def Query.entry : Query → QueryPc
  | .availableSpace => .spaceHead
  | .availableData => .dataTail

/-- What a call returned to its process. -/
inductive Result
  | space (s : UInt32)
  | data (a : UInt32)
  | wrote (k : ℕ) (success : Bool)
  | gave (k : ℕ) (success : Bool)
  deriving DecidableEq

namespace Result

/-- The value of `available_space`. -/
def spaceOf : Result → Option ℕ
  | .space s => some s.toNat
  | _ => none

def wroteOf : Result → Option (ℕ × Bool)
  | .wrote k success => some (k,success)
  | _ => none

/-- The value of `available_data`. -/
def dataOf : Result → Option ℕ
  | .data a => some a.toNat
  | _ => none

def gaveOf : Result → Option (ℕ × Bool)
  | .gave k success => some (k,success)
  | _ => none

end Result

/-- One load of a query: the next place, or the result. -/
def QueryPc.exec (m : SharedRegion α) : QueryPc → QueryPc ⊕ Result
  | .spaceHead => .inl (.spaceTail m.head)
  | .spaceTail head => .inr (.space (freeSpace m.capacity head m.tail))
  | .dataTail => .inl (.dataHead m.tail)
  | .dataHead tail => .inr (.data (avail m.capacity m.head tail))

/-- What `write` or `read` returns with this step, if it returns. -/
def Pc.returns : Pc α → List (Obs α) → Option Result
  | .writeTail data _, [.refused] => some (.wrote data.length false)
  | .writeStore data _, _ => some (.wrote data.length true)
  | .readTail k _, [_,.refused] => some (.gave k false)
  | .readStore k _ _, _ => some (.gave k true)
  | _, _ => none

/-- The ring and its processes, the queries under way, and what was returned so far. -/
structure CheckWorld (α : Type) where
  ring : World α
  query : ℕ → Option QueryPc
  results : List (ℕ × Result)

inductive CheckAction (α : Type)
  | call (t : ℕ) (c : Call α)
  | tick (t : ℕ)
  | ask (t : ℕ) (q : Query)
  | look (t : ℕ)

namespace CheckWorld

def act : CheckAction α → CheckWorld α → Option (CheckWorld α)
  | .call t c, w =>
    match w.query t with
    | none => (World.act (.call t c) w.ring).map (fun r => { w with ring := r })
    | some _ => none
  | .tick t, w =>
    (exec (w.ring.pc t) w.ring.region).map (fun (m,p,os) =>
      { w with
        ring := w.ring.put t m p os
        results := w.results ++ ((w.ring.pc t).returns os).toList.map (fun r => (t,r)) })
  | .ask t q, w =>
    match w.ring.pc t, w.query t with
    | .idle, none => some { w with query := Function.update w.query t (some q.entry) }
    | _, _ => none
  | .look t, w =>
    (w.query t).map (fun place =>
      match place.exec w.ring.region with
      | .inl place' => { w with query := Function.update w.query t (some place') }
      | .inr r =>
        { w with query := Function.update w.query t none, results := w.results ++ [(t,r)] })

end CheckWorld

/-- The results of one process, in order. -/
def own (results : List (ℕ × Result)) (t : ℕ) : List Result :=
  (results.filter (fun r => r.1 = t)).map Prod.snd

/-- Process 0 calls `write`, process 1 `read`, and both may ask. -/
def checkMay (w : CheckWorld α) : CheckAction α → Bool
  | .call t c => spscMay w.ring (.call t c)
  | .ask t _ => t = 0 || t = 1
  | .tick _ | .look _ => true

def checkSystem (sz : ℕ) : Transition.System (CheckWorld α) (CheckAction α) where
  init w := w.ring.Created sz ∧ w.query = (fun _ => none) ∧ w.results = []
  may w a := checkMay w a = true
  act := CheckWorld.act

instance (sz : ℕ) (w : CheckWorld α) (a : CheckAction α) : Decidable ((checkSystem sz).may w a) :=
  inferInstanceAs (Decidable (checkMay w a = true))

/-- How many more steps a call takes at most. -/
def Pc.left : Pc α → ℕ
  | .idle => 0
  | .writeHead data => data.length + 3
  | .writeTail data _ => data.length + 2
  | .writeCopy data _ i => data.length - i + 1
  | .writeStore .. => 1
  | .readHead k => k + 3
  | .readTail k _ => k + 2
  | .readCopy k _ dest => k - dest.length + 1
  | .readStore .. => 1

/-- A write of no more than `available_space` returned since the previous write succeeds, and
a read of no more than `available_data` returned since the previous read; and a call that is
under way can go on and comes to its end. -/
structure ChecksHold (w : CheckWorld α) : Prop where
  writer : Promise.Kept Result.spaceOf Result.wroteOf (own w.results 0)
  reader : Promise.Kept Result.dataOf Result.gaveOf (own w.results 1)
  goesOn : ∀ t, w.ring.pc t ≠ .idle → ∃ w', CheckWorld.act (.tick t) w = some w'
  ends : ∀ t w', CheckWorld.act (.tick t) w = some w' → (w'.ring.pc t).left < (w.ring.pc t).left

section Returns
variable {n : ℕ} {m m' : SharedRegion α} {p p' : Pc α} {os : List (Obs α)}
variable {written returned : List α} {t : ℕ}

/-- What the writer returns with a step: nothing, or success, or that there is no room. -/
theorem writer_returns (h : RingInv n m written returned)
    (hp : p.Writes n m written returned.length) (hexec : exec p m = some (m',p',os)) :
    m'.tail = m.tail ∧
      (p.returns os = none ∧ writtenIn (os.map (fun o => (t,o))) = [] ∨
      (∃ k, p.returns os = some (.wrote k true)) ∨
      ∃ k, p.returns os = some (.wrote k false) ∧ writtenIn (os.map (fun o => (t,o))) = [] ∧
        ¬written.length + k < returned.length + n) := by
  cases p with
  | idle => cases hexec
  | writeHead data =>
    cases hexec
    exact ⟨rfl,Or.inl ⟨rfl,rfl⟩⟩
  | writeTail data head =>
    cases hp
    simp only [exec] at hexec
    split at hexec
    · next hfull =>
      cases hexec
      refine ⟨rfl,Or.inr (Or.inr ⟨data.length,rfl,rfl,?_⟩)⟩
      rw [← h.room_iff]
      exact Nat.not_le_of_lt hfull
    · cases hexec
      exact ⟨rfl,Or.inl ⟨rfl,rfl⟩⟩
  | writeCopy data head i =>
    simp only [exec,Option.map_eq_some_iff,Prod.mk.injEq] at hexec
    obtain ⟨x,-,rfl,rfl,rfl⟩ := hexec
    exact ⟨rfl,Or.inl ⟨rfl,rfl⟩⟩
  | writeStore data head =>
    cases hexec
    exact ⟨rfl,Or.inr (Or.inl ⟨data.length,rfl⟩)⟩
  | _ => exact hp.elim

/-- What the reader returns with a step: nothing, or success, or that there is too little. -/
theorem reader_returns (hp : p.Reads) (hexec : exec p m = some (m',p',os)) :
    m'.head = m.head ∧
      (p.returns os = none ∧ returnedIn (os.map (fun o => (t,o))) = [] ∨
      (∃ k, p.returns os = some (.gave k true)) ∨
      ∃ k head, p = .readTail k head ∧ p.returns os = some (.gave k false) ∧
        returnedIn (os.map (fun o => (t,o))) = [] ∧ (avail m.capacity head m.tail).toNat < k) := by
  cases p with
  | idle => cases hexec
  | readHead k =>
    cases hexec
    exact ⟨rfl,Or.inl ⟨rfl,rfl⟩⟩
  | readTail k head =>
    simp only [exec] at hexec
    split at hexec
    · next hshort =>
      cases hexec
      exact ⟨rfl,Or.inr (Or.inr ⟨k,head,rfl,rfl,rfl,hshort⟩)⟩
    · cases hexec
      exact ⟨rfl,Or.inl ⟨rfl,rfl⟩⟩
  | readCopy k tail dest =>
    cases hexec
    exact ⟨rfl,Or.inl ⟨rfl,rfl⟩⟩
  | readStore k tail dest =>
    cases hexec
    exact ⟨rfl,Or.inr (Or.inl ⟨k,rfl⟩)⟩
  | _ => exact hp.elim

/-- A reader about to load `tail` has just loaded `head`. -/
theorem loads_head {k : ℕ} {head : UInt32} (hp : p.Reads)
    (hexec : exec p m = some (m',.readTail k head,os)) : m' = m ∧ head = m.head ∧ os = [] := by
  cases p with
  | idle => cases hexec
  | readHead =>
    cases hexec
    exact ⟨rfl,rfl,rfl⟩
  | readTail =>
    simp only [exec] at hexec
    split at hexec
    · cases hexec
    · unfold Pc.readNext at hexec
      split at hexec <;> cases hexec
  | readCopy =>
    simp only [exec] at hexec
    unfold Pc.readNext at hexec
    split at hexec <;> cases hexec
  | readStore => cases hexec
  | _ => exact hp.elim

theorem left_writeNext (data : List α) (head : UInt32) (i : ℕ) :
    (Pc.writeNext data head i).left = data.length - i + 1 := by
  unfold Pc.writeNext
  split
  · rfl
  · next hge => rw [Pc.left,Nat.sub_eq_zero_of_le (Nat.le_of_not_lt hge)]

theorem left_readNext (k : ℕ) (tail : UInt32) (dest : List α) :
    (Pc.readNext k tail dest).left = k - dest.length + 1 := by
  unfold Pc.readNext
  split
  · rfl
  · next hge => rw [Pc.left,Nat.sub_eq_zero_of_le (Nat.le_of_not_lt hge)]

theorem left_lt (hp : ∀ k tail dest, p = .readCopy k tail dest → dest.length < k)
    (hexec : exec p m = some (m',p',os)) : p'.left < p.left := by
  cases p with
  | idle => cases hexec
  | writeTail =>
    simp only [exec] at hexec
    split at hexec
    · cases hexec
      exact Nat.succ_pos _
    · cases hexec
      rw [left_writeNext,Pc.left]
      omega
  | readTail =>
    simp only [exec] at hexec
    split at hexec
    · cases hexec
      exact Nat.succ_pos _
    · cases hexec
      rw [left_readNext,Pc.left,List.length_nil]
      omega
  | writeCopy data head i =>
    simp only [exec,Option.map_eq_some_iff,Prod.mk.injEq] at hexec
    obtain ⟨x,hx,-,rfl,-⟩ := hexec
    obtain ⟨hi,-⟩ := List.getElem?_eq_some_iff.mp hx
    rw [left_writeNext,Pc.left]
    omega
  | readCopy k tail dest =>
    have hlt := hp k tail dest rfl
    cases hexec
    rw [left_readNext,List.length_append,List.length_singleton,Pc.left]
    omega
  | _ =>
    cases hexec
    simp [Pc.left]

end Returns

namespace SpscInv
variable {n : ℕ} {w : World α} (h : SpscInv n w)
include h

theorem exec_of_ne_idle {t : ℕ} (ht : w.pc t ≠ .idle) :
    ∃ next, exec (w.pc t) w.region = some next := by
  cases hp : w.pc t with
  | idle => exact absurd hp ht
  | writeTail | readTail =>
    simp only [exec]
    split <;> exact ⟨_,rfl⟩
  | writeCopy data head i =>
    have h0 : t = 0 := by
      by_contra hne
      have hreads := h.readers t hne
      rw [hp] at hreads
      exact hreads
    subst h0
    have hplace := h.toReadersInv.writer
    rw [hp] at hplace
    rw [exec,List.getElem?_eq_getElem hplace.2.1]
    exact ⟨_,rfl⟩
  | _ => exact ⟨_,rfl⟩

/-- A reader that copies has bytes left to copy. -/
theorem copying {t k : ℕ} {tail : UInt32} {dest : List α} (hp : w.pc t = .readCopy k tail dest) :
    dest.length < k := by
  have h0 : t ≠ 0 := by
    rintro rfl
    have hplace := h.toReadersInv.writer
    rw [hp] at hplace
    exact hplace
  have h1 : t = 1 := by
    by_contra hne
    rw [h.idle t h0 hne] at hp
    cases hp
  subst h1
  have hfresh := h.loaded
  rw [hp] at hfresh
  have hcopies := h.copies 1 h0 hfresh
  rw [hp] at hcopies
  exact hcopies.2.2.1

end SpscInv

/-- The bounds that the writer may rely on. -/
def spaces (results : List (ℕ × Result)) : List ℕ :=
  Promise.outstanding Result.spaceOf Result.wroteOf (own results 0)

/-- The bounds that the reader may rely on. -/
def datas (results : List (ℕ × Result)) : List ℕ :=
  Promise.outstanding Result.dataOf Result.gaveOf (own results 1)

section Own
variable (results : List (ℕ × Result)) {t u : ℕ} (r : Result)

theorem own_concat_self : own (results ++ [(t,r)]) t = own results t ++ [r] := by
  simp [own,List.filter_append]

theorem own_concat_of_ne (h : u ≠ t) : own (results ++ [(t,r)]) u = own results u := by
  simp [own,List.filter_append,h.symm]

theorem own_append_of_ne (h : u ≠ t) (o : Option Result) :
    own (results ++ o.toList.map (fun r => (t,r))) u = own results u := by
  cases o with
  | none => simp
  | some r => exact own_concat_of_ne results r h

section Quiet
variable {grants : Result → Option ℕ} {uses : Result → Option (ℕ × Bool)} {r}

/-- A result that uses nothing keeps what was granted to any side. -/
theorem kept_own_concat (hr : uses r = none) (h : Promise.Kept grants uses (own results u)) :
    Promise.Kept grants uses (own (results ++ [(t,r)]) u) := by
  by_cases hut : u = t
  · subst hut
    rw [own_concat_self]
    exact h.concat_quiet hr
  · rwa [own_concat_of_ne _ _ hut]

/-- It may grant something to its own side. -/
theorem mem_outstanding_own {s : ℕ} (hr : uses r = none)
    (hs : s ∈ Promise.outstanding grants uses (own (results ++ [(t,r)]) u)) :
    s ∈ Promise.outstanding grants uses (own results u) ∨ u = t ∧ grants r = some s := by
  by_cases hut : u = t
  · subst hut
    rw [own_concat_self] at hs
    exact (Promise.mem_outstanding_quiet hr hs).imp_right (fun hs => ⟨rfl,hs⟩)
  · rw [own_concat_of_ne _ _ hut] at hs
    exact Or.inl hs

end Quiet

theorem query_update {query : ℕ → Option QueryPc} {x : Option QueryPc} {place : QueryPc}
    (hu : Function.update query t x u = some place) : u = t ∧ x = some place ∨ query u = some place := by
  by_cases hut : u = t
  · subst hut
    rw [Function.update_self] at hu
    exact Or.inl ⟨rfl,hu⟩
  · rw [Function.update_of_ne hut] at hu
    exact Or.inr hu

end Own

/-- What holds between the queries and the ring. A reader that has loaded `head` has loaded
it after the answers it relies on. -/
structure CheckInv (n : ℕ) (w : CheckWorld α) : Prop where
  spsc : SpscInv n w.ring
  quiet : ∀ t place, w.query t = some place → w.ring.pc t = .idle
  spaceTail : ∀ head, w.query 0 = some (.spaceTail head) → head = w.ring.region.head
  dataHead : ∀ tail, w.query 1 = some (.dataHead tail) → tail = w.ring.region.tail
  space : ∀ s ∈ spaces w.results, w.ring.written.length + s < w.ring.returned.length + n
  data : ∀ a ∈ datas w.results, w.ring.returned.length + a ≤ w.ring.written.length
  tested : ∀ k head, w.ring.pc 1 = .readTail k head → ∀ a ∈ datas w.results,
    a ≤ (avail w.ring.region.capacity head w.ring.region.tail).toNat
  writer : Promise.Kept Result.spaceOf Result.wroteOf (own w.results 0)
  reader : Promise.Kept Result.dataOf Result.gaveOf (own w.results 1)

namespace CheckInv
variable {n : ℕ} {w w' : CheckWorld α}

theorem start {k : ℕ} (hk : k ≤ 31) (h : (checkSystem (2 ^ k)).init w) : CheckInv (2 ^ k) w := by
  obtain ⟨hcreated,hquery,hresults⟩ := h
  have hown (t : ℕ) : own w.results t = [] := by
    rw [own,hresults]
    rfl
  have hnone (t : ℕ) (place : QueryPc) : w.query t ≠ some place := by
    rw [hquery]
    exact (Option.some_ne_none place).symm
  have hspaces : spaces w.results = [] := by
    rw [spaces,hown]
    rfl
  have hdatas : datas w.results = [] := by
    rw [datas,hown]
    rfl
  exact
    { spsc := SpscInv.start hk hcreated
      quiet := fun t place h => absurd h (hnone t place)
      spaceTail := fun head h => absurd h (hnone 0 _)
      dataHead := fun tail h => absurd h (hnone 1 _)
      space := by
        rw [hspaces]
        exact fun s hs => absurd hs List.not_mem_nil
      data := by
        rw [hdatas]
        exact fun a ha => absurd ha List.not_mem_nil
      tested := by
        rw [hdatas]
        exact fun _ _ _ a ha => absurd ha List.not_mem_nil
      writer := by
        rw [hown]
        exact Promise.kept_nil
      reader := by
        rw [hown]
        exact Promise.kept_nil }

theorem call (h : CheckInv n w) {t : ℕ} {c : Call α} (hmay : checkMay w (.call t c) = true)
    (hact : CheckWorld.act (.call t c) w = some w') : CheckInv n w' := by
  simp only [CheckWorld.act] at hact
  split at hact
  · next hnone =>
    obtain ⟨r,hr,rfl⟩ := Option.map_eq_some_iff.mp hact
    have hspsc := h.spsc.step (a := .call t c) hmay hr
    obtain ⟨-,rfl⟩ := World.act_call hr
    have hother {u : ℕ} {place : QueryPc} (hu : w.query u = some place) : u ≠ t := by
      rintro rfl
      rw [hnone] at hu
      cases hu
    exact
      { spsc := hspsc
        quiet := by
          intro u place hu
          rw [World.put_pc_of_ne _ _ _ _ _ (hother hu)]
          exact h.quiet u place hu
        spaceTail := h.spaceTail
        dataHead := h.dataHead
        space := by simpa [writtenIn,returnedIn] using h.space
        data := by simpa [writtenIn,returnedIn] using h.data
        tested := by
          intro k head hp
          by_cases ht : 1 = t
          · subst ht
            rw [World.put_pc] at hp
            cases c <;> cases hp
          · rw [World.put_pc_of_ne _ _ _ _ _ ht] at hp
            exact h.tested k head hp
        writer := h.writer
        reader := h.reader }
  · cases hact

theorem ask (h : CheckInv n w) {t : ℕ} {q : Query}
    (hact : CheckWorld.act (.ask t q) w = some w') : CheckInv n w' := by
  simp only [CheckWorld.act] at hact
  split at hact
  · next hidle hnone =>
    cases hact
    exact
      { spsc := h.spsc
        quiet := by
          intro u place hu
          rcases query_update hu with ⟨rfl,-⟩ | hu
          · exact hidle
          · exact h.quiet u place hu
        spaceTail := by
          intro head hu
          rcases query_update hu with ⟨-,hplace⟩ | hu
          · cases q <;> cases hplace
          · exact h.spaceTail head hu
        dataHead := by
          intro tail hu
          rcases query_update hu with ⟨-,hplace⟩ | hu
          · cases q <;> cases hplace
          · exact h.dataHead tail hu
        space := h.space
        data := h.data
        tested := h.tested
        writer := h.writer
        reader := h.reader }
  · cases hact

section Look
variable (h : CheckInv n w) {t : ℕ} {place : QueryPc} (hq : w.query t = some place)
include h hq

theorem load {place' : QueryPc} (hexec : place.exec w.ring.region = .inl place') :
    CheckInv n { w with query := Function.update w.query t (some place') } := by
  exact
    { spsc := h.spsc
      quiet := by
        intro u x hu
        rcases query_update hu with ⟨rfl,-⟩ | hu
        · exact h.quiet u place hq
        · exact h.quiet u x hu
      spaceTail := by
        intro head hu
        rcases query_update hu with ⟨-,⟨⟩⟩ | hu
        · cases place <;> cases hexec
          rfl
        · exact h.spaceTail head hu
      dataHead := by
        intro tail hu
        rcases query_update hu with ⟨-,⟨⟩⟩ | hu
        · cases place <;> cases hexec
          rfl
        · exact h.dataHead tail hu
      space := h.space
      data := h.data
      tested := h.tested
      writer := h.writer
      reader := h.reader }

theorem answer {r : Result} (hexec : place.exec w.ring.region = .inr r) :
    CheckInv n { w with
      query := Function.update w.query t none, results := w.results ++ [(t,r)] } := by
  have huses : r.wroteOf = none ∧ r.gaveOf = none := by
    cases place <;> cases hexec <;> exact ⟨rfl,rfl⟩
  have hold {u : ℕ} {x : QueryPc} (hu : Function.update w.query t none u = some x) :
      w.query u = some x := by
    rcases query_update hu with ⟨-,⟨⟩⟩ | hu
    exact hu
  have hring := h.spsc.ring
  exact
    { spsc := h.spsc
      quiet := fun u x hu => h.quiet u x (hold hu)
      spaceTail := fun head hu => h.spaceTail head (hold hu)
      dataHead := fun tail hu => h.dataHead tail (hold hu)
      space := by
        intro s hs
        rcases mem_outstanding_own _ huses.1 hs with hs | ⟨rfl,hgrant⟩
        · exact h.space s hs
        · cases place <;> cases hexec <;> cases hgrant
          rw [h.spaceTail _ hq]
          exact (hring.room_iff _).mp (Nat.le_refl _)
      data := by
        intro a ha
        rcases mem_outstanding_own _ huses.2 ha with ha | ⟨rfl,hgrant⟩
        · exact h.data a ha
        · cases place <;> cases hexec <;> cases hgrant
          rw [h.dataHead _ hq,hring.avail_eq]
          exact Nat.le_of_eq (Nat.add_sub_of_le hring.window.lo_le)
      tested := by
        intro k head hp a ha
        rcases mem_outstanding_own _ huses.2 ha with ha | ⟨rfl,-⟩
        · exact h.tested k head hp a ha
        · cases hp.symm.trans (h.quiet 1 place hq)
      writer := kept_own_concat _ huses.1 h.writer
      reader := kept_own_concat _ huses.2 h.reader }

end Look

section Tick
variable (h : CheckInv n w) {m : SharedRegion α} {p : Pc α} {os : List (Obs α)}
include h

theorem not_asking {t : ℕ} (hexec : exec (w.ring.pc t) w.ring.region = some (m,p,os))
    (place : QueryPc) : w.query t ≠ some place := by
  intro hq
  rw [h.quiet t place hq] at hexec
  cases hexec

theorem quiet_put {t : ℕ} (hexec : exec (w.ring.pc t) w.ring.region = some (m,p,os)) :
    ∀ u place, w.query u = some place → (w.ring.put t m p os).pc u = .idle := by
  intro u place hq
  have hut : u ≠ t := by
    rintro rfl
    exact h.not_asking hexec place hq
  rw [World.put_pc_of_ne _ _ _ _ _ hut]
  exact h.quiet u place hq

theorem writer_tick (hexec : exec (w.ring.pc 0) w.ring.region = some (m,p,os)) :
    CheckInv n { w with
      ring := w.ring.put 0 m p os
      results := w.results ++ ((w.ring.pc 0).returns os).toList.map (fun r => (0,r)) } := by
  have hact : World.act (.tick 0) w.ring = some (w.ring.put 0 m p os) := by
    rw [World.act,hexec]
    rfl
  have hstep := h.spsc.ring.writer_step (t := 0) h.spsc.writer hexec
  obtain ⟨htail,hreturns⟩ := writer_returns (t := 0) h.spsc.ring h.spsc.writer hexec
  have hreader := own_append_of_ne w.results Nat.one_ne_zero ((w.ring.pc 0).returns os)
  have hdatas : datas (w.results ++ ((w.ring.pc 0).returns os).toList.map (fun r => (0,r))) =
      datas w.results := by rw [datas,hreader,datas]
  have hnone {k : ℕ} {success : Bool} :
      spaces (w.results ++ [(0,Result.wrote k success)]) = [] := by
    rw [spaces,own_concat_self,Promise.outstanding_concat]
    rfl
  exact
    { spsc := h.spsc.step (a := .tick 0) rfl hact
      quiet := h.quiet_put hexec
      spaceTail := fun head hq => absurd hq (h.not_asking hexec _)
      dataHead := by
        intro tail hq
        rw [World.put_region,htail]
        exact h.dataHead tail hq
      space := by
        intro s hs
        rcases hreturns with ⟨hr,hwritten⟩ | ⟨k,hr⟩ | ⟨k,hr,-⟩
        · rw [hr,Option.toList_none,List.map_nil,List.append_nil] at hs
          rw [World.put_written,World.put_returned,hwritten,hstep.silent,List.append_nil,
            List.append_nil]
          exact h.space s hs
        · rw [hr,Option.toList_some,List.map_singleton,hnone] at hs
          exact absurd hs List.not_mem_nil
        · rw [hr,Option.toList_some,List.map_singleton,hnone] at hs
          exact absurd hs List.not_mem_nil
      data := by
        intro a ha
        rw [hdatas] at ha
        rw [World.put_written,World.put_returned,hstep.silent,List.append_nil,List.length_append]
        exact (h.data a ha).trans (Nat.le_add_right _ _)
      tested := by
        intro k head hp a ha
        rw [World.put_pc_of_ne _ _ _ _ _ Nat.one_ne_zero] at hp
        rw [hdatas] at ha
        rw [World.put_region,exec_capacity hexec,htail]
        exact h.tested k head hp a ha
      writer := by
        rcases hreturns with ⟨hr,-⟩ | ⟨k,hr⟩ | ⟨k,hr,-,hfull⟩
        · rw [hr,Option.toList_none,List.map_nil,List.append_nil]
          exact h.writer
        · rw [hr,Option.toList_some,List.map_singleton,own_concat_self]
          apply h.writer.concat
          intro k' success hu
          cases hu
          exact fun _ _ _ => rfl
        · rw [hr,Option.toList_some,List.map_singleton,own_concat_self]
          apply h.writer.concat
          intro k' success hu s hs hle
          cases hu
          have hroom := h.space s hs
          omega
      reader := by
        rw [hreader]
        exact h.reader }

theorem reader_tick (hexec : exec (w.ring.pc 1) w.ring.region = some (m,p,os)) :
    CheckInv n { w with
      ring := w.ring.put 1 m p os
      results := w.results ++ ((w.ring.pc 1).returns os).toList.map (fun r => (1,r)) } := by
  have hact : World.act (.tick 1) w.ring = some (w.ring.put 1 m p os) := by
    rw [World.act,hexec]
    rfl
  have hplace := h.spsc.readers 1 Nat.one_ne_zero
  have hstep := h.spsc.ring.reader_step (t := 1) hplace (h.spsc.copies 1 Nat.one_ne_zero)
    h.spsc.reader_keepsUp hexec
  obtain ⟨hhead,hreturns⟩ := reader_returns (t := 1) hplace hexec
  have hwriter := own_append_of_ne w.results Nat.zero_ne_one ((w.ring.pc 1).returns os)
  have hspaces : spaces (w.results ++ ((w.ring.pc 1).returns os).toList.map (fun r => (1,r))) =
      spaces w.results := by rw [spaces,hwriter,spaces]
  have hnone {k : ℕ} {success : Bool} :
      datas (w.results ++ [(1,Result.gave k success)]) = [] := by
    rw [datas,own_concat_self,Promise.outstanding_concat]
    rfl
  have hdata : ∀ a ∈ datas (w.results ++ ((w.ring.pc 1).returns os).toList.map (fun r => (1,r))),
      a ∈ datas w.results ∧ returnedIn (os.map (fun o => (1,o))) = [] := by
    intro a ha
    rcases hreturns with ⟨hr,hreturned⟩ | ⟨k,hr⟩ | ⟨k,head,-,hr,-⟩
    · rw [hr,Option.toList_none,List.map_nil,List.append_nil] at ha
      exact ⟨ha,hreturned⟩
    · rw [hr,Option.toList_some,List.map_singleton,hnone] at ha
      exact absurd ha List.not_mem_nil
    · rw [hr,Option.toList_some,List.map_singleton,hnone] at ha
      exact absurd ha List.not_mem_nil
  exact
    { spsc := h.spsc.step (a := .tick 1) rfl hact
      quiet := h.quiet_put hexec
      spaceTail := by
        intro head hq
        rw [World.put_region,hhead]
        exact h.spaceTail head hq
      dataHead := fun tail hq => absurd hq (h.not_asking hexec _)
      space := by
        intro s hs
        rw [hspaces] at hs
        have hroom := h.space s hs
        rw [World.put_written,World.put_returned,hstep.silent,List.append_nil,List.length_append]
        omega
      data := by
        intro a ha
        obtain ⟨ha,hreturned⟩ := hdata a ha
        rw [World.put_written,World.put_returned,hstep.silent,hreturned,List.append_nil,
          List.append_nil]
        exact h.data a ha
      tested := by
        intro k head hp a ha
        rw [World.put_pc] at hp
        subst hp
        obtain ⟨rfl,rfl,rfl⟩ := loads_head hplace hexec
        have hle := h.data a (hdata a ha).1
        rw [World.put_region,h.spsc.ring.avail_eq]
        omega
      writer := by
        rw [hwriter]
        exact h.writer
      reader := by
        rcases hreturns with ⟨hr,-⟩ | ⟨k,hr⟩ | ⟨k,head,hp,hr,-,hshort⟩
        · rw [hr,Option.toList_none,List.map_nil,List.append_nil]
          exact h.reader
        · rw [hr,Option.toList_some,List.map_singleton,own_concat_self]
          apply h.reader.concat
          intro k' success hu
          cases hu
          exact fun _ _ _ => rfl
        · rw [hr,Option.toList_some,List.map_singleton,own_concat_self]
          apply h.reader.concat
          intro k' success hu a ha hle
          cases hu
          have havail := h.tested k head hp a ha
          omega }

end Tick

theorem step (h : CheckInv n w) {a : CheckAction α} (hmay : checkMay w a = true)
    (hact : CheckWorld.act a w = some w') : CheckInv n w' := by
  cases a with
  | call t c => exact h.call hmay hact
  | ask t q => exact h.ask hact
  | look t =>
    obtain ⟨place,hq,hw⟩ := Option.map_eq_some_iff.mp hact
    split at hw
    · next place' hexec =>
      cases hw
      exact h.load hq hexec
    · next r hexec =>
      cases hw
      exact h.answer hq hexec
  | tick t =>
    obtain ⟨⟨m,p,os⟩,hexec,rfl⟩ := Option.map_eq_some_iff.mp hact
    by_cases h0 : t = 0
    · subst h0
      exact h.writer_tick hexec
    · by_cases h1 : t = 1
      · subst h1
        exact h.reader_tick hexec
      · rw [h.spsc.idle t h0 h1] at hexec
        cases hexec

theorem checksHold (h : CheckInv n w) : ChecksHold w where
  writer := h.writer
  reader := h.reader
  goesOn := by
    intro t ht
    obtain ⟨next,hexec⟩ := h.spsc.exec_of_ne_idle ht
    exact ⟨_,by rw [CheckWorld.act,hexec,Option.map_some]⟩
  ends := by
    intro t w' hact
    obtain ⟨⟨m,p,os⟩,hexec,rfl⟩ := Option.map_eq_some_iff.mp hact
    change ((w.ring.put t m p os).pc t).left < _
    rw [World.put_pc]
    exact left_lt (fun k tail dest hp => h.spsc.copying hp) hexec

end CheckInv

/-- Asking before acting is safe: what one side does in between takes nothing away from what
the other was told. -/
theorem checkThenAct {k : ℕ} (hk : k ≤ 31) {w : CheckWorld α}
    (h : (checkSystem (2 ^ k)).Reachable w) : ChecksHold w := by
  have hinv : CheckInv (2 ^ k) w := by
    apply Transition.System.Reachable.invariant _ _ h
    · intro s hs
      exact CheckInv.start hk hs
    · intro s a s' hinv hmay hact
      exact hinv.step hmay hact
  exact hinv.checksHold

/-- The writer asks, the reader reads, and the writer fills exactly what it was told. -/
theorem checkThenAct_three :
    ∃ w : CheckWorld UInt8, (checkSystem (2 ^ 2)).Reachable w ∧
      (own w.results 0,w.ring.written,w.ring.returned) =
        ([.wrote 2 true,.space 1,.wrote 1 true],[7,8,9],[7]) ∧ ChecksHold w := by
  have hinit : (checkSystem (2 ^ 2)).init
      { ring := zeroWorld 4, query := fun _ => none, results := [] } := ⟨zeroWorld_created 4,rfl,rfl⟩
  obtain ⟨w,hw,hview⟩ := Transition.System.Reachable.of_replay hinit
    (List.flatten [.call 0 (.write [7,8]) :: List.replicate 5 (.tick 0),
      [.ask 0 .availableSpace,.look 0,.look 0],
      .call 1 (.read 1) :: List.replicate 4 (.tick 1),
      .call 0 (.write [9]) :: List.replicate 4 (.tick 0)])
    (fun w => (own w.results 0,w.ring.written,w.ring.returned))
    (v := ([.wrote 2 true,.space 1,.wrote 1 true],[7,8,9],[7])) (by decide +kernel)
  exact ⟨w,hw,hview,checkThenAct (by decide) hw⟩

end GgmlViz.Ring
