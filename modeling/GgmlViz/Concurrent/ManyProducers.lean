import GgmlViz.Concurrent.RecordingThread
import Mathlib.Data.List.Perm.Subperm

/-! # Many producers and one consumer

Every thread but thread 0 records, thread 0 consumes. Two producers can load the same write
position, and the later store then moves it back. As long as no store moves a position
back, the read position stays behind the write position and the consumer returns no more
events than were recorded.
-/
namespace GgmlViz
open LittleEndian
variable {L : Type} {text : L → Bytes}

/-- A configuration that lets the hook start. -/
structure EnabledConfig extends Config where
  enabled : toConfig.hooksEnabled = true

/-- Thread 0 calls `consume_available_events` and every other thread `record_event`. -/
def manyMay : Action L → Bool
  | .call 0 .consume => true
  | .call (_ + 1) (.record _) => true
  | .call _ _ => false
  | .tick _ => true

abbrev manySystem (text : L → Bytes) (cfg : Config) : Transition.System (World L) (Action L) :=
  hookSystem text cfg (World.Started cfg) (fun _ => manyMay)

/-- A producer does not store an older write position than the present one, nor a flush an
older read position. -/
def Pc.storesForward (m : Mem L) : Pc L → Bool
  | recPublish _ _ head => m.writePos ≤ increment head
  | flushStore _ currentRead => m.readPos ≤ currentRead
  | _ => true

def forward (w : World L) : Action L → Bool
  | .tick t => (w.pc t).storesForward w.mem
  | .call _ _ => true

/-- The runs in which no store moves a position back. -/
abbrev forwardSystem (text : L → Bytes) (cfg : Config) : Transition.System (World L) (Action L) :=
  (manySystem text cfg).restrict (fun w a => forward w a = true)

namespace World

/-- The threads that called `record_event`, one entry for each call. -/
def callers (w : World L) : List ℕ :=
  w.log.filterMap (fun (t,o) => match o with | .called => if t = 0 then none else some t | _ => none)

/-- The threads that stored `write_pos`, one entry for each accepted event. -/
def publishers (w : World L) : List ℕ :=
  w.log.filterMap (fun (t,o) => match o with | .accepted _ => some t | _ => none)

variable (w : World L) (t : ℕ) (m : Mem L) (p : Pc L) (os : List (Obs L))

theorem length_publishers : w.publishers.length = w.accepted.length := by
  unfold publishers accepted obs acceptedIn
  induction w.log with
  | nil => rfl
  | cons entry log ih =>
    obtain ⟨u,o⟩ := entry
    cases o <;> simpa using ih

theorem put_publishers : (w.put t m p os).publishers =
    w.publishers ++ List.replicate (acceptedIn os).length t := by
  have hnew : (os.map (fun o => (t,o))).filterMap
      (fun (u,o) => match o with | .accepted _ => some u | _ => none) =
        List.replicate (acceptedIn os).length t := by
    induction os with
    | nil => rfl
    | cons o os ih =>
      cases o with
      | accepted e => simpa [acceptedIn,List.replicate_succ] using ih
      | _ => simpa [acceptedIn] using ih
  rw [publishers,put,List.filterMap_append,hnew]
  rfl

theorem count_callers_le (u : ℕ) : w.callers.count u ≤ (w.put t m p os).callers.count u := by
  rw [callers,callers,put,List.filterMap_append,List.count_append]
  exact Nat.le_add_right _ _

theorem put_callers_called (ht : t ≠ 0) : (w.put t m p [.called]).callers = w.callers ++ [t] := by
  simp [callers,put,ht]

end World

/-- The positions between the events returned and the events accepted. -/
structure Ordered (m : Mem L) (accepted returned : ℕ) : Prop where
  returned_le : returned ≤ m.readPos
  lo_le : m.readPos ≤ m.writePos
  writePos_le : m.writePos ≤ accepted

namespace Pc

/-- An event is in hand and its position not yet published. -/
def offers : Pc L → ℕ
  | hookActive _ _ | recActive _ _ | recLimit _ _ | recHead _ _ | recTail _ _ _ | recSlot _ _ _
  | recPublish _ _ _ => 1
  | _ => 0

/-- A place of a recording thread, with the bounds on what it has loaded. -/
def Produces (writePos accepted : ℕ) : Pc L → Prop
  | recTail _ _ head | recSlot _ _ head | recPublish _ _ head => head ≤ accepted
  | flushTail _ currentWrite => currentWrite ≤ writePos
  | flushField _ currentWrite currentRead _ => currentRead < currentWrite ∧ currentWrite ≤ writePos
  | flushStore _ currentRead => currentRead ≤ writePos
  | p => p.Records

/-- A place of the consumer, with the bounds on what it has loaded and copied. -/
def Drains (writePos returned : ℕ) : Pc L → Prop
  | idle | conActive | conTail => True
  | conHead tail => returned ≤ tail ∧ tail ≤ writePos
  | conCopy tail head i events => returned ≤ tail ∧ tail ≤ i ∧ i < head ∧ head ≤ writePos ∧
      events.length = i - tail
  | conStore tail head events => returned ≤ tail ∧ tail ≤ head ∧ head ≤ writePos ∧
      events.length = head - tail
  | _ => False

/-- A place of a recording thread with nothing loaded and no event in hand. -/
structure Quiet (p : Pc L) : Prop where
  produces : ∀ writePos accepted, p.Produces writePos accepted
  offers : p.offers = 0

end Pc

variable {cfg : Config} {m m' : Mem L} {p p' : Pc L} {os : List (Obs L)} {accepted returned : ℕ}

theorem quiet_finish (k : After) : (Pc.finish cfg k : Pc L).Quiet :=
  finish_of k ⟨fun _ _ => trivial,rfl⟩ ⟨fun _ _ => trivial,rfl⟩

theorem quiet_flushed (h : Holder) : (Pc.flushed h : Pc L).Quiet :=
  flushed_of h (fun _ => ⟨fun _ _ => trivial,rfl⟩) (fun _ => ⟨fun _ _ => trivial,rfl⟩)

/-- Later positions and more accepted events loosen the bounds. -/
theorem Pc.Produces.mono {writePos writePos' accepted' : ℕ} (h : p.Produces writePos accepted)
    (hw : writePos ≤ writePos') (ha : accepted ≤ accepted') : p.Produces writePos' accepted' := by
  cases p with
  | recTail | recSlot | recPublish => exact Nat.le_trans h ha
  | flushTail | flushStore => exact Nat.le_trans h hw
  | flushField => exact ⟨h.1,Nat.le_trans h.2 hw⟩
  | _ => exact h

theorem Pc.Drains.mono {writePos writePos' : ℕ} (h : p.Drains writePos returned)
    (hw : writePos ≤ writePos') : p.Drains writePos' returned := by
  cases p with
  | conHead => exact ⟨h.1,Nat.le_trans h.2 hw⟩
  | conCopy =>
    obtain ⟨hret,hlo,hhi,hhead,hlen⟩ := h
    exact ⟨hret,hlo,hhi,Nat.le_trans hhead hw,hlen⟩
  | conStore =>
    obtain ⟨hret,hlo,hhead,hlen⟩ := h
    exact ⟨hret,hlo,Nat.le_trans hhead hw,hlen⟩
  | _ => exact h

theorem Pc.Produces.records {writePos : ℕ} (h : p.Produces writePos accepted) : p.Records := by
  cases p with
  | recTail | recSlot | recPublish | flushTail | flushField | flushStore => trivial
  | _ => exact h

theorem Pc.Drains.offers {writePos : ℕ} (h : p.Drains writePos returned) : p.offers = 0 := by
  cases p with
  | hookActive | recActive | recLimit | recHead | recTail | recSlot | recPublish => exact h.elim
  | _ => rfl

theorem produces_flushNext {writePos currentWrite currentRead : ℕ} (holder : Holder)
    (hw : currentWrite ≤ writePos) (hr : currentRead ≤ writePos) :
    (Pc.flushNext holder currentWrite currentRead : Pc L).Produces writePos accepted :=
  flushNext_of (P := fun p => p.Produces writePos accepted) holder (fun hlt => ⟨hlt,hw⟩) (fun _ => hr)

theorem offers_flushNext (holder : Holder) (currentWrite currentRead : ℕ) :
    (Pc.flushNext holder currentWrite currentRead : Pc L).offers = 0 :=
  flushNext_of (P := fun p => p.offers = 0) holder (fun _ => rfl) (fun _ => rfl)

/-- What one step of a producer does to the positions and to its bounds. -/
structure Produced (m m' : Mem L) (p p' : Pc L) (os : List (Obs L)) (accepted returned : ℕ) :
    Prop where
  produces : p'.Produces m'.writePos (accepted + (acceptedIn os).length)
  ordered : Ordered m' (accepted + (acceptedIn os).length) returned
  writePos_le : m.writePos ≤ m'.writePos
  offers : p'.offers + (acceptedIn os).length ≤ p.offers

theorem Ordered.produced (h : Ordered m accepted returned) (hos : acceptedIn os = [])
    (hw : m'.writePos = m.writePos) (hr : m'.readPos = m.readPos)
    (hp' : p'.Produces m.writePos accepted) (hoffers : p'.offers ≤ p.offers) :
    Produced m m' p p' os accepted returned := by
  obtain ⟨hret,hlo,hacc⟩ := h
  exact
    { produces := by rw [hos,hw]; exact hp'
      ordered := by rw [hos]; exact ⟨by omega,by omega,by simp; omega⟩
      writePos_le := by omega
      offers := by simpa [hos] using hoffers }

theorem Ordered.quiet (h : Ordered m accepted returned) (hos : acceptedIn os = [])
    (hw : m'.writePos = m.writePos) (hr : m'.readPos = m.readPos) (hp' : p'.Quiet) :
    Produced m m' p p' os accepted returned :=
  h.produced hos hw hr (hp'.produces _ _) (by rw [hp'.offers]; exact Nat.zero_le _)

theorem produces_exec (hp : p.Produces m.writePos accepted) (h : Ordered m accepted returned)
    (hforward : p.storesForward m = true) (hexec : exec text cfg p m = some (m',p',os)) :
    Produced m m' p p' os accepted returned := by
  cases p with
  | idle => cases hexec
  | hookActive e k =>
    cases hexec
    refine h.produced rfl rfl rfl ?_ ?_
    · split <;> trivial
    · split <;> simp [Pc.offers]
  | recActive e k =>
    cases hexec
    split
    · exact h.produced rfl rfl rfl trivial (Nat.le_refl _)
    · exact h.quiet rfl rfl rfl (quiet_finish k)
  | recLimit e k =>
    cases hexec
    refine h.produced rfl rfl rfl ?_ ?_
    · split <;> trivial
    · split <;> simp [Pc.offers]
  | recHead e k =>
    cases hexec
    exact h.produced rfl rfl rfl h.writePos_le (Nat.le_refl _)
  | recTail e k head =>
    simp only [exec] at hexec
    split at hexec
    · cases hexec
      exact h.produced rfl rfl rfl trivial (Nat.zero_le _)
    · cases hexec
      exact h.produced rfl rfl rfl hp (Nat.le_refl _)
  | recDrop k unread =>
    cases hexec
    exact h.quiet rfl rfl rfl (quiet_finish k)
  | recSlot e k head =>
    cases hexec
    exact h.produced rfl rfl rfl hp (Nat.le_refl _)
  | recPublish e k head =>
    cases hexec
    obtain ⟨hret,hlo,hacc⟩ := h
    have hhead : head ≤ accepted := hp
    have hnext : increment head ≤ head + 1 := Nat.mod_le _ _
    have hstore : m.writePos ≤ increment head := of_decide_eq_true hforward
    exact
      { produces := trivial
        ordered := by
          refine ⟨hret,Nat.le_trans hlo hstore,?_⟩
          simp only [acceptedIn,List.filterMap_cons,List.filterMap_nil,List.length_singleton]
          omega
        writePos_le := hstore
        offers := Nat.le_refl _ }
  | recCount e k =>
    cases hexec
    refine h.quiet rfl rfl rfl ?_
    split
    · exact ⟨fun _ _ => trivial,rfl⟩
    · exact quiet_finish k
  | lock holder =>
    simp only [exec] at hexec
    split at hexec
    · cases hexec
    · cases hexec
      exact h.quiet rfl rfl rfl ⟨fun _ _ => trivial,rfl⟩
  | flushFile holder =>
    cases hexec
    refine h.quiet rfl rfl rfl ?_
    split
    · exact quiet_flushed holder
    · exact ⟨fun _ _ => trivial,rfl⟩
  | flushHead holder =>
    cases hexec
    exact h.produced rfl rfl rfl (Nat.le_refl _) (Nat.le_refl _)
  | flushTail holder currentWrite =>
    cases hexec
    exact h.produced rfl rfl rfl (produces_flushNext holder hp h.lo_le)
      (Nat.le_of_eq (offers_flushNext ..))
  | flushField holder currentWrite currentRead f =>
    obtain ⟨hlt,hw⟩ := hp
    simp only [exec] at hexec
    split at hexec
    · cases hexec
      exact h.produced rfl (by simp) (by simp) ⟨hlt,hw⟩ (Nat.le_refl _)
    · cases hexec
      exact h.produced rfl (by simp) (by simp) (produces_flushNext holder hw (by omega))
        (Nat.le_of_eq (offers_flushNext ..))
  | flushStore holder currentRead =>
    cases hexec
    have hstore : m.readPos ≤ currentRead := of_decide_eq_true hforward
    have hquiet := quiet_flushed (L := L) holder
    exact
      { produces := hquiet.produces _ _
        ordered := ⟨Nat.le_trans h.returned_le hstore,hp,h.writePos_le⟩
        writePos_le := Nat.le_refl _
        offers := Nat.le_of_eq hquiet.offers }
  | fclose k =>
    cases hexec
    exact h.quiet rfl rfl rfl ⟨fun _ _ => trivial,rfl⟩
  | unlock k =>
    cases hexec
    exact h.quiet rfl rfl rfl (quiet_finish k)
  | stopExchange k =>
    cases hexec
    refine h.quiet rfl rfl rfl ?_
    split
    · exact ⟨fun _ _ => trivial,rfl⟩
    · exact quiet_finish k
  | stopTest k =>
    cases hexec
    refine h.quiet rfl rfl rfl ?_
    split
    · exact ⟨fun _ _ => trivial,rfl⟩
    · exact quiet_finish k
  | _ => exact hp.elim

theorem drains_copyNext {writePos tail head i : ℕ} {events : List (Event L)}
    (hret : returned ≤ tail) (hlo : tail ≤ i) (hhi : i ≤ head) (hhead : head ≤ writePos)
    (hlen : events.length = i - tail) :
    (Pc.copyNext tail head i events).Drains writePos returned := by
  unfold Pc.copyNext
  split
  · next hlt => exact ⟨hret,hlo,hlt,hhead,hlen⟩
  · next hge =>
    have hi : i = head := by omega
    subst hi
    exact ⟨hret,hlo,hhead,hlen⟩

/-- What one step of the consumer does to the positions and to its bounds. -/
structure Drained (m m' : Mem L) (p' : Pc L) (os : List (Obs L)) (accepted returned : ℕ) :
    Prop where
  drains : p'.Drains m'.writePos (returned + (returnedIn os).length)
  ordered : Ordered m' accepted (returned + (returnedIn os).length)
  writePos_eq : m'.writePos = m.writePos
  acceptedIn_eq : acceptedIn os = []

/-- The steps of the consumer: what it returns begins at a position behind all that was
returned before, and it ends at the position that it stores. -/
theorem drains_exec (hp : p.Drains m.writePos returned) (h : Ordered m accepted returned)
    (hexec : exec text cfg p m = some (m',p',os)) : Drained m m' p' os accepted returned := by
  have hstay (hp' : p'.Drains m.writePos returned) (hm : m' = m)
      (hos : os = [] ∨ os = [.threw]) : Drained m m' p' os accepted returned := by
    subst hm
    rcases hos with rfl | rfl <;> exact ⟨hp',h,rfl,rfl⟩
  cases p with
  | idle => cases hexec
  | conActive =>
    cases hexec
    refine hstay ?_ rfl (Or.inl rfl)
    split <;> trivial
  | conTail =>
    cases hexec
    exact hstay ⟨h.returned_le,h.lo_le⟩ rfl (Or.inl rfl)
  | conHead tail =>
    obtain ⟨hret,htail⟩ := hp
    simp only [exec] at hexec
    split at hexec
    · cases hexec
      exact hstay trivial rfl (Or.inl rfl)
    · split at hexec
      · cases hexec
        exact hstay trivial rfl (Or.inr rfl)
      · cases hexec
        exact hstay (drains_copyNext hret (Nat.le_refl _) htail (Nat.le_refl _) (by simp)) rfl
          (Or.inl rfl)
  | conCopy tail head i events =>
    obtain ⟨hret,hlo,hhi,hhead,hlen⟩ := hp
    cases hexec
    refine hstay (drains_copyNext hret (by omega) hhi hhead ?_) rfl (Or.inl rfl)
    simp only [List.length_append,List.length_singleton]
    omega
  | conStore tail head events =>
    obtain ⟨hret,hlo,hhead,hlen⟩ := hp
    cases hexec
    refine ⟨trivial,⟨?_,hhead,h.writePos_le⟩,rfl,rfl⟩
    simp only [returnedIn,List.flatMap_cons,List.flatMap_nil,List.append_nil]
    omega
  | _ => exact hp.elim

/-- What holds between the producers, the consumer and the positions. -/
structure ManyInv (w : World L) : Prop where
  ordered : Ordered w.mem w.accepted.length w.returned.length
  consumer : (w.pc 0).Drains w.mem.writePos w.returned.length
  producer : ∀ t, t ≠ 0 → (w.pc t).Produces w.mem.writePos w.accepted.length
  calls : ∀ t, w.publishers.count t + (w.pc t).offers ≤ w.callers.count t

namespace ManyInv
variable {w w' : World L}

theorem start (cfg : EnabledConfig) (h : w.Started cfg.toConfig) : ManyInv w := by
  obtain ⟨s,hs,-,rfl⟩ := h
  have hzero : (s.start cfg.toConfig true).writePos = 0 ∧ (s.start cfg.toConfig true).readPos = 0 := by
    rw [HookState.start_eq cfg.enabled hs]
    dsimp only
    split <;> simp [HookState.fopen]
  exact
    { ordered := ⟨Nat.zero_le _,by simp [World.started,hzero],by simp [World.started,hzero]⟩
      consumer := trivial
      producer := fun _ _ => trivial
      calls := fun _ => Nat.zero_le _ }

theorem mayCall {t : ℕ} {c : Call L} (hmay : manyMay (.call t c) = true) :
    (t = 0 ∧ c = .consume) ∨ (t ≠ 0 ∧ ∃ e, c = .record e) := by
  unfold manyMay at hmay
  split at hmay
  · next heq => cases heq; exact Or.inl ⟨rfl,rfl⟩
  · next heq => cases heq; exact Or.inr ⟨Nat.succ_ne_zero _,_,rfl⟩
  · cases hmay
  · next heq => cases heq

theorem call (h : ManyInv w) {t : ℕ} {c : Call L} (hmay : manyMay (.call t c) = true)
    (hact : World.act text cfg (.call t c) w = some w') : ManyInv w' := by
  obtain ⟨hidle,rfl⟩ := World.act_call hact
  rcases mayCall hmay with ⟨rfl,rfl⟩ | ⟨ht,e,rfl⟩
  · exact
      { ordered := by simpa using h.ordered
        consumer := by simp [Call.entry,Pc.Drains]
        producer := by
          intro u hu
          simpa [hu] using h.producer u hu
        calls := by
          intro u
          have hcalls := h.calls u
          have hle := w.count_callers_le 0 w.mem (Call.entry cfg .consume) [.called] u
          rw [World.put_publishers,acceptedIn_called,List.length_nil,List.replicate_zero,
            List.append_nil]
          by_cases hu : u = 0
          · subst hu
            rw [World.put_pc]
            simp only [Call.entry,Pc.offers] at hle ⊢
            omega
          · rw [World.put_pc_of_ne _ _ _ _ _ hu]
            omega }
  · have h0 : (0 : ℕ) ≠ t := ht.symm
    exact
      { ordered := by simpa using h.ordered
        consumer := by simpa [h0] using h.consumer
        producer := by
          intro u hu
          by_cases hut : u = t
          · subst hut
            rw [World.put_pc]
            trivial
          · simpa [hut] using h.producer u hu
        calls := by
          intro u
          have hcalls := h.calls u
          rw [World.put_publishers,World.put_callers_called _ _ _ _ ht,acceptedIn_called,
            List.length_nil,List.replicate_zero,List.append_nil,List.count_append]
          by_cases hut : u = t
          · subst hut
            rw [World.put_pc,List.count_singleton_self]
            simp only [Call.entry,Pc.offers]
            omega
          · rw [World.put_pc_of_ne _ _ _ _ _ hut]
            omega }

/-- The account of the calls after a step: an accepted event was in hand. -/
theorem calls_tick (h : ManyInv w) {t : ℕ}
    (hoffers : p'.offers + (acceptedIn os).length ≤ (w.pc t).offers) (u : ℕ) :
    (w.put t m' p' os).publishers.count u + ((w.put t m' p' os).pc u).offers ≤
      (w.put t m' p' os).callers.count u := by
  have hcalls := h.calls u
  have hle := w.count_callers_le t m' p' os u
  rw [World.put_publishers,List.count_append]
  by_cases hut : u = t
  · subst hut
    rw [World.put_pc,List.count_replicate_self]
    omega
  · have hother : (List.replicate (acceptedIn os).length t).count u = 0 := by
      rw [List.count_eq_zero]
      exact fun hmem => hut (List.mem_replicate.mp hmem).2
    rw [World.put_pc_of_ne _ _ _ _ _ hut]
    omega

theorem tick (h : ManyInv w) {t : ℕ} (hforward : forward w (.tick t) = true)
    (hact : World.act text cfg (.tick t) w = some w') : ManyInv w' := by
  obtain ⟨m,p,os,hexec,rfl⟩ := World.act_tick hact
  by_cases ht : t = 0
  · subst ht
    obtain ⟨hdrains,hordered,hw,hnone⟩ := drains_exec h.consumer h.ordered hexec
    exact
      { ordered := by simpa [hnone] using hordered
        consumer := by simpa using hdrains
        producer := by
          intro u hu
          simpa [hu,hnone,hw] using h.producer u hu
        calls := h.calls_tick (by
          rw [hnone,List.length_nil,h.consumer.offers,hdrains.offers]) }
  · have h0 : (0 : ℕ) ≠ t := fun heq => ht heq.symm
    have hp := h.producer t ht
    have hret := (exec_frame hp.records hexec).returned
    obtain ⟨hproduces,hordered,hw,hoffers⟩ := produces_exec hp h.ordered hforward hexec
    exact
      { ordered := by simpa [hret] using hordered
        consumer := by simpa [h0,hret] using h.consumer.mono hw
        producer := by
          intro u hu
          by_cases hut : u = t
          · subst hut
            simpa using hproduces
          · simpa [hut] using (h.producer u hu).mono hw (Nat.le_add_right _ _)
        calls := h.calls_tick hoffers }

theorem step (h : ManyInv w) {a : Action L} (hmay : manyMay a = true) (hforward : forward w a = true)
    (hact : World.act text cfg a w = some w') : ManyInv w' := by
  cases a with
  | call t c => exact h.call hmay hact
  | tick t => exact h.tick hforward hact

theorem accepted_le (h : ManyInv w) : w.accepted.length ≤ w.callers.length := by
  have hsub : w.publishers.Subperm w.callers := by
    rw [List.subperm_ext_iff]
    intro t _
    have hcalls := h.calls t
    omega
  rw [← w.length_publishers]
  exact hsub.length_le

end ManyInv

theorem manyInv_reachable (cfg : EnabledConfig) {w : World L}
    (h : (forwardSystem text cfg.toConfig).Reachable w) : ManyInv w :=
  h.invariant (fun _ hw => .start cfg hw) (fun _ _ _ hinv hmay hact => hinv.step hmay.1 hmay.2 hact)

/-- The read position is behind the write position, also as the consumer loaded it, and no
more events were returned than `record_event` was called. -/
structure WithinCalls (w : World L) : Prop where
  lo_le : w.mem.readPos ≤ w.mem.writePos
  noWrap : ∀ tail, w.pc 0 = .conHead tail → tail ≤ w.mem.writePos
  returned_le : w.returned.length ≤ w.callers.length

/-- With any number of producers, as long as no store moves a position back. -/
theorem manyProducers_withinCalls (cfg : EnabledConfig) {w : World L}
    (h : (forwardSystem text cfg.toConfig).Reachable w) : WithinCalls w := by
  have hinv := manyInv_reachable cfg h
  obtain ⟨hret,hlo,hw⟩ := hinv.ordered
  have haccepted := hinv.accepted_le
  exact
    { lo_le := hlo
      noWrap := by
        intro tail hp
        have hcon := hinv.consumer
        rw [hp] at hcon
        exact hcon.2
      returned_le := by omega }

/-- The default configuration, which lets the hook start. -/
def defaultEnabled : EnabledConfig where
  toConfig := Config.defaultConfig
  enabled := rfl

/-- Two producers take turns and the consumer returns both events. -/
theorem manyProducers_withinCalls_two :
    ∃ w : World Unit, (forwardSystem (fun _ => []) defaultEnabled.toConfig).Reachable w ∧
      (w.callers,w.returned.length) = ([1,2],2) ∧ WithinCalls w := by
  have hinit : (forwardSystem (fun _ => []) defaultEnabled.toConfig).init
      (World.started defaultEnabled.toConfig (HookState.initial (fun _ => none)) : World Unit) :=
    ⟨_,rfl,rfl,rfl⟩
  obtain ⟨w,hw,hview⟩ := Transition.System.Reachable.of_replay hinit
    (List.flatten [.call 1 (.record HookState.zeroEvent) :: List.replicate 7 (.tick 1),
      .call 2 (.record HookState.zeroEvent) :: List.replicate 7 (.tick 2),
      .call 0 .consume :: List.replicate 6 (.tick 0)])
    (fun w => (w.callers,w.returned.length)) (v := ([1,2],2)) (by decide +kernel)
  exact ⟨w,hw,hview,manyProducers_withinCalls defaultEnabled hw⟩

/-- Thread 1 loads the write position; thread 2 records two events and thread 0 returns
them; then thread 1 stores. -/
def staleStore : List (Action Unit) :=
  List.flatten [.call 1 (.record HookState.zeroEvent) :: List.replicate 3 (.tick 1),
    .call 2 (.record HookState.zeroEvent) :: List.replicate 7 (.tick 2),
    .call 2 (.record HookState.zeroEvent) :: List.replicate 7 (.tick 2),
    .call 0 .consume :: List.replicate 6 (.tick 0),List.replicate 3 (.tick 1)]

/-- The write position falls below the read position. -/
theorem not_withinCalls_staleStore :
    ∃ w : World Unit, (manySystem (fun _ => []) defaultEnabled.toConfig).Reachable w ∧
      ¬WithinCalls w := by
  have hinit : (manySystem (fun _ => []) defaultEnabled.toConfig).init
      (World.started defaultEnabled.toConfig (HookState.initial (fun _ => none)) : World Unit) :=
    ⟨_,rfl,rfl,rfl⟩
  obtain ⟨w,hw,hview⟩ := Transition.System.Reachable.of_replay hinit staleStore
    (fun w => (w.mem.writePos,w.mem.readPos)) (v := (1,2)) (by decide +kernel)
  refine ⟨w,hw,?_⟩
  intro h
  have hlo := h.lo_le
  simp only [Prod.mk.injEq] at hview
  omega

end GgmlViz
