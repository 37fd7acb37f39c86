import GgmlViz.Ipc.RingInvariant

/-! # One writer and several readers

`read` loads both counters, copies, and stores `tail`, and no reader keeps another one out.
As long as every reader that stores `tail` has loaded it after all that was returned, and
no reader believes an old `head`, each byte is returned once.
-/
namespace GgmlViz.Ring
open LittleEndian SharedRegion RingHeader
variable {α : Type}

/-- Process 0 calls `write` and every other process `read`. -/
def readersMay (_ : World α) : Action α → Bool
  | .call 0 (.write _) => true
  | .call (_ + 1) (.read _) => true
  | .call .. => false
  | .tick _ => true

abbrev readersSystem (sz : ℕ) : Transition.System (World α) (Action α) := ringSystem sz readersMay

/-- A reader whose test passes has that many unread bytes, and when it stores `tail` nothing
was returned since it loaded `tail`. -/
def keepsUp (w : World α) : Action α → Bool
  | .tick t => (w.pc t).keepsUp w.region w.unread (w.fresh t)
  | .call .. => true

abbrev keepUpSystem (sz : ℕ) : Transition.System (World α) (Action α) :=
  (readersSystem sz).restrict (fun w a => keepsUp w a = true)

/-- The bytes of the successful reads, in the order of their stores of `tail`, are those
written first, so no written byte is returned twice; and `tail` is behind them. -/
structure ReadsOnce (n : ℕ) (w : World α) : Prop where
  order : w.returned <+: w.written
  once : w.written.Nodup → w.returned.Nodup
  tail : w.region.tail.toNat = w.returned.length % n

/-- What holds between the writer, the readers and the ring. -/
structure ReadersInv (n : ℕ) (w : World α) : Prop where
  ring : RingInv n w.region w.written w.returned
  writer : (w.pc 0).Writes n w.region w.written w.returned.length
  readers : ∀ t, t ≠ 0 → (w.pc t).Reads
  copies : ∀ t, t ≠ 0 → w.fresh t = true → (w.pc t).Copies n w.written w.returned.length

theorem RingInv.start {sz k : ℕ} (hk : k ≤ 31) (hsz : sz = 2 ^ k) {w : World α}
    (h : w.Created sz) : RingInv (2 ^ k) w.region [] [] := by
  obtain ⟨o,old,size,hsize,hcreate,-,-⟩ := h
  have hlt : 2 ^ k < 2 ^ 32 := Nat.pow_lt_pow_right (by decide) (by omega)
  have hcap : size.toUInt32.toNat = 2 ^ k := by
    rw [UInt64.toNat_toUInt32,hsize,hsz,Nat.mod_eq_of_lt hlt]
  apply RingInv.of_create hcreate
  rw [create_eq_ok hcreate]
  exact Masks.of_power hk hcap

namespace ReadersInv
variable {w w' : World α} {n : ℕ}

theorem start {k : ℕ} (hk : k ≤ 31) (h : w.Created (2 ^ k)) : ReadersInv (2 ^ k) w := by
  have hring := RingInv.start hk rfl h
  obtain ⟨-,-,-,-,-,hpc,hlog⟩ := h
  have hwritten : w.written = [] := by rw [World.written,hlog]; rfl
  have hreturned : w.returned = [] := by rw [World.returned,hlog]; rfl
  exact
    { ring := by rwa [hwritten,hreturned]
      writer := by rw [hpc]; trivial
      readers := fun t _ => by rw [hpc]; trivial
      copies := fun t _ _ => by rw [hpc]; trivial }

theorem mayCall {t : ℕ} {c : Call α} (hmay : readersMay w (.call t c) = true) :
    (t = 0 ∧ ∃ data, c = .write data) ∨ (t ≠ 0 ∧ ∃ k, c = .read k) := by
  unfold readersMay at hmay
  split at hmay
  · next heq => cases heq; exact Or.inl ⟨rfl,_,rfl⟩
  · next heq => cases heq; exact Or.inr ⟨Nat.succ_ne_zero _,_,rfl⟩
  · cases hmay
  · next heq => cases heq

theorem call (h : ReadersInv n w) {t : ℕ} {c : Call α} (hmay : readersMay w (.call t c) = true)
    (hact : World.act (.call t c) w = some w') : ReadersInv n w' := by
  obtain ⟨-,rfl⟩ := World.act_call hact
  have hplace (u : ℕ) : (w.put t w.region c.entry []).pc u = w.pc u ∨
      u = t ∧ (w.put t w.region c.entry []).pc u = c.entry := by
    by_cases hu : u = t
    · subst hu
      exact Or.inr ⟨rfl,World.put_pc ..⟩
    · exact Or.inl (World.put_pc_of_ne _ _ _ _ _ hu)
  have hentry : (t = 0 → ∃ data, c = .write data) ∧ (t ≠ 0 → ∃ k, c = .read k) := by
    rcases mayCall hmay with ⟨ht,hc⟩ | ⟨ht,hc⟩
    · exact ⟨fun _ => hc,fun hne => absurd ht hne⟩
    · exact ⟨fun h0 => absurd h0 ht,fun _ => hc⟩
  exact
    { ring := by simpa [writtenIn,returnedIn] using h.ring
      writer := by
        rcases hplace 0 with hp | ⟨ht,hp⟩
        · rw [hp]
          simpa [writtenIn,returnedIn] using h.writer
        · obtain ⟨data,rfl⟩ := hentry.1 ht.symm
          rw [hp]
          trivial
      readers := by
        intro u hu
        rcases hplace u with hp | ⟨ht,hp⟩
        · rw [hp]
          exact h.readers u hu
        · obtain ⟨k,rfl⟩ := hentry.2 (ht ▸ hu)
          rw [hp]
          trivial
      copies := by
        intro u hu hf
        rcases hplace u with hp | ⟨ht,hp⟩
        · rw [hp]
          simpa [writtenIn,returnedIn] using h.copies u hu (by simpa using hf)
        · obtain ⟨k,rfl⟩ := hentry.2 (ht ▸ hu)
          rw [hp]
          trivial }

theorem writer_tick (h : ReadersInv n w) (hact : World.act (.tick 0) w = some w') :
    ReadersInv n w' := by
  obtain ⟨m,p,os,hexec,rfl⟩ := World.act_tick hact
  have hstep := h.ring.writer_step (t := 0) h.writer hexec
  exact
    { ring := by simpa [hstep.silent] using hstep.ring
      writer := by simpa [hstep.silent] using hstep.place
      readers := by
        intro u hu
        rw [World.put_pc_of_ne _ _ _ _ _ hu]
        exact h.readers u hu
      copies := by
        intro u hu hf
        rw [World.put_fresh,hstep.fresh] at hf
        rw [World.put_pc_of_ne _ _ _ _ _ hu,World.put_written,World.put_returned,hstep.silent,
          List.append_nil]
        exact (h.copies u hu hf).append _ }

theorem reader_tick (h : ReadersInv n w) {t : ℕ} (ht : t ≠ 0)
    (hkeeps : keepsUp w (.tick t) = true) (hact : World.act (.tick t) w = some w') :
    ReadersInv n w' := by
  obtain ⟨m,p,os,hexec,rfl⟩ := World.act_tick hact
  have hstep := h.ring.reader_step (t := t) (h.readers t ht) (h.copies t ht) hkeeps hexec
  exact
    { ring := by simpa [hstep.silent] using hstep.ring
      writer := by
        rw [World.put_pc_of_ne _ _ _ _ _ ht.symm,World.put_region,World.put_written,
          World.put_returned,hstep.silent,List.append_nil]
        apply h.writer.mono hstep.base hstep.head
        rw [List.length_append]
        exact Nat.le_add_right _ _
      readers := by
        intro u hu
        by_cases hut : u = t
        · subst hut
          rw [World.put_pc]
          exact hstep.place
        · rw [World.put_pc_of_ne _ _ _ _ _ hut]
          exact h.readers u hu
      copies := by
        intro u hu hf
        rw [World.put_fresh] at hf
        rw [World.put_written,World.put_returned,hstep.silent,List.append_nil]
        by_cases hut : u = t
        · subst hut
          rw [World.put_pc]
          exact hstep.copies hf
        · obtain ⟨hfresh,hnone⟩ := hstep.others u hut _ hf
          rw [World.put_pc_of_ne _ _ _ _ _ hut,hnone,List.append_nil]
          exact h.copies u hu hfresh }

theorem step (h : ReadersInv n w) {a : Action α} (hmay : readersMay w a = true)
    (hkeeps : keepsUp w a = true) (hact : World.act a w = some w') : ReadersInv n w' := by
  cases a with
  | call t c => exact h.call hmay hact
  | tick t =>
    by_cases ht : t = 0
    · subst ht
      exact h.writer_tick hact
    · exact h.reader_tick ht hkeeps hact

theorem readsOnce (h : ReadersInv n w) : ReadsOnce n w where
  order := h.ring.order
  once := fun hnodup => hnodup.sublist h.ring.order.sublist
  tail := h.ring.tail

end ReadersInv

theorem readersInv_reachable {k : ℕ} (hk : k ≤ 31) {w : World α}
    (h : (keepUpSystem (2 ^ k)).Reachable w) : ReadersInv (2 ^ k) w := by
  apply Transition.System.Reachable.invariant _ _ h
  · intro s hs
    exact ReadersInv.start hk hs
  · intro s a s' hinv hmay hact
    exact hinv.step hmay.1 hmay.2 hact

/-- With any number of readers that keep up, every byte is returned at most once and in
order. -/
theorem manyReaders_readsOnce {k : ℕ} (hk : k ≤ 31) {w : World α}
    (h : (keepUpSystem (2 ^ k)).Reachable w) : ReadsOnce (2 ^ k) w :=
  (readersInv_reachable hk h).readsOnce

section Run

/-- A mapping that succeeds. -/
def mapped : MapOutcome := { shmOpens := true, truncates := true, maps := true, lockFree := true }

/-- The world after `create` on an object full of zeros. -/
def zeroWorld (sz : UInt64) : World UInt8 where
  region := { head := 0, tail := 0, capacity := sz.toUInt32, base := fun _ => 0,
              mapSize := headerSize + sz }
  pc := fun _ => .idle
  log := []

theorem zeroWorld_created (sz : UInt64) : (zeroWorld sz).Created sz.toNat :=
  ⟨mapped,(zeroWorld sz).region,sz,rfl,rfl,rfl,rfl⟩

/-- Two readers take turns. -/
theorem manyReaders_readsOnce_two :
    ∃ w : World UInt8, (keepUpSystem (2 ^ 2)).Reachable w ∧
      (w.written,w.returned) = ([7,8],[7,8]) ∧ ReadsOnce (2 ^ 2) w := by
  have hinit : (keepUpSystem (2 ^ 2)).init (zeroWorld 4) := zeroWorld_created 4
  obtain ⟨w,hw,hview⟩ := Transition.System.Reachable.of_replay hinit
    (List.flatten [.call 0 (.write [7,8]) :: List.replicate 5 (.tick 0),
      .call 1 (.read 1) :: List.replicate 4 (.tick 1),
      .call 2 (.read 1) :: List.replicate 4 (.tick 2)])
    (fun w => (w.written,w.returned)) (v := ([7,8],[7,8])) (by decide +kernel)
  exact ⟨w,hw,hview,manyReaders_readsOnce (by decide) hw⟩

/-- Both readers have loaded the counters before either of them stores `tail`. -/
def sameTail : List (Action UInt8) :=
  List.flatten [.call 0 (.write [7]) :: List.replicate 4 (.tick 0),
    .call 1 (.read 1) :: List.replicate 3 (.tick 1),
    .call 2 (.read 1) :: List.replicate 4 (.tick 2),[.tick 1]]

/-- The one byte written is returned twice. -/
theorem not_readsOnce_sameTail :
    ∃ w : World UInt8, (readersSystem (2 ^ 2)).Reachable w ∧ ¬ReadsOnce (2 ^ 2) w := by
  have hinit : (readersSystem (2 ^ 2)).init (zeroWorld 4) := zeroWorld_created 4
  obtain ⟨w,hw,hview⟩ := Transition.System.Reachable.of_replay hinit sameTail
    (fun w => (w.written,w.returned)) (v := ([7],[7,7])) (by decide +kernel)
  refine ⟨w,hw,?_⟩
  intro h
  obtain ⟨hwritten,hreturned⟩ := Prod.mk.inj hview
  have hle := h.order.length_le
  rw [hwritten,hreturned] at hle
  exact absurd hle (by decide)

end Run
end GgmlViz.Ring
