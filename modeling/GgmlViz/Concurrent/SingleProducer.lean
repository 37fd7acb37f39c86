import GgmlViz.Concurrent.Consumer

/-! # One producer and one consumer

Thread 0 records and thread 1 consumes, without a trace file. The ring is a queue: what
was returned and what is unread make up what was accepted.
-/
namespace GgmlViz
open LittleEndian RingWindow
variable {L : Type} {text : L → Bytes}

/-- A configuration that lets the hook start and has it write no file. -/
structure FilelessConfig extends Config where
  enabled : toConfig.hooksEnabled = true
  noFile : output.writeToFile = false

/-- Thread 0 calls `record_event` and thread 1 `consume_available_events`. -/
def spscMay : Action L → Bool
  | .call 0 (.record _) => true
  | .call 1 .consume => true
  | .call _ _ => false
  | .tick _ => true

abbrev spscSystem (text : L → Bytes) (cfg : Config) : Transition.System (World L) (Action L) :=
  hookSystem text cfg (World.Started cfg) (fun _ => spscMay)

/-- A place in `flush_to_file` or under the lock. -/
def Pc.Flushes : Pc L → Prop
  | lock _ | flushFile _ | flushHead _ | flushTail _ _ | flushField _ _ _ _ | flushStore _ _
  | fclose _ | unlock _ => True
  | _ => False

theorem Pc.not_draining {p : Pc L} (h : ¬p.Flushes) : p.draining = false := by
  cases p with
  | flushField | flushStore => exact (h trivial).elim
  | _ => rfl

section NoFile
variable {cfg : Config} {m m' : Mem L} {p p' : Pc L} {os : List (Obs L)}

theorem finish_noFile (hfile : cfg.output.writeToFile = false) (k : After) :
    ¬(Pc.finish cfg k : Pc L).Flushes := by
  cases k <;> simp [Pc.finish,hfile,Pc.Flushes]

/-- Without a file a recording thread never comes to a flush. -/
theorem exec_notFlushes (hfile : cfg.output.writeToFile = false) (hm : m.outputFile = none)
    (hrecords : p.Records) (hp : ¬p.Flushes) (hexec : exec text cfg p m = some (m',p',os)) :
    ¬p'.Flushes := by
  cases exec_next hrecords hexec with
  | hookOff | hookOn | active | atLimit | belowLimit | loadHead | full | room | fill | publish
  | stops => exact id
  | inactive | drop | count | stopped | nothingOpen => exact finish_noFile hfile _
  | countFlush h => cases hfile.symm.trans h
  | closes h => simp [hm] at h
  | locked | noFile | file | flushHead | flushTail | field | record | flushStore | fclose
  | unlock => exact (hp trivial).elim

theorem exec_noFile (hfile : cfg.output.writeToFile = false) (hm : m.outputFile = none)
    (hrecords : p.Records) (hp : ¬p.Flushes) (hexec : exec text cfg p m = some (m',p',os)) :
    m'.outputFile = none ∧ m'.readPos = m.readPos ∧ ¬p'.Flushes := by
  have hframe := exec_frame hrecords hexec
  refine ⟨?_,?_,exec_notFlushes hfile hm hrecords hp hexec⟩
  · rcases hframe.outputFile with hsame | ⟨k,rfl⟩
    · exact hsame.trans hm
    · exact (hp trivial).elim
  · rcases hframe.readPos with hsame | ⟨holder,currentRead,rfl⟩
    · exact hsame
    · exact (hp trivial).elim

theorem droppedEvents_exec (hrecords : p.Records) (hexec : exec text cfg p m = some (m',p',os)) {n : ℕ}
    (h : m.droppedEvents = n % 2 ^ 64) :
    m'.droppedEvents = (n + (droppedIn os).length) % 2 ^ 64 := by
  rcases (exec_frame hrecords hexec).droppedEvents with ⟨hsame,hnone⟩ | ⟨k,unread,rfl⟩
  · rw [hsame,hnone]
    exact h
  · cases hexec
    simp only [increment,h,droppedIn,List.filterMap_cons,List.filterMap_nil,List.length_singleton]
    omega

end NoFile

/-- What holds between the two threads and the ring. -/
structure SpscInv (text : L → Bytes) (cfg : Config) (w : World L) : Prop where
  recording : RecordingInv text cfg w.mem (w.pc 0) w.accepted
  consuming : (w.pc 1).Consumes w.mem.readPos w.accepted
  fresh : ∀ tail, (w.pc 1).loadedTail = some tail → tail = w.mem.readPos
  returned : w.returned = w.accepted.take w.mem.readPos
  noOutput : w.mem.outputFile = none
  noFlush : ¬(w.pc 0).Flushes
  idle : ∀ t, t ≠ 0 → t ≠ 1 → w.pc t = .idle
  dropped : ∀ n ∈ w.dropped, n = bufferSize - 1
  droppedEvents : w.mem.droppedEvents = w.dropped.length % 2 ^ 64

namespace SpscInv
variable {cfg : Config} {w w' : World L}

theorem start (cfg : FilelessConfig) (h : w.Started cfg.toConfig) : SpscInv text cfg.toConfig w := by
  obtain ⟨s,hs,hclosed,rfl⟩ := h
  have hstart : s.start cfg.toConfig true =
      { s with active := true, eventCount := 0, writePos := 0, readPos := 0, droppedEvents := 0 } := by
    simp [HookState.start_eq cfg.enabled hs,cfg.noFile]
  rw [World.started,hstart]
  exact
    { recording := .begin rfl rfl rfl
      consuming := trivial
      fresh := by simp [Pc.loadedTail]
      returned := rfl
      noOutput := hclosed
      noFlush := id
      idle := fun _ _ _ => rfl
      dropped := by simp [World.dropped,World.obs,droppedIn]
      droppedEvents := rfl }

theorem mayCall {t : ℕ} {c : Call L} (hmay : spscMay (.call t c) = true) :
    (t = 0 ∧ c.Records) ∨ (t = 1 ∧ c = .consume) := by
  unfold spscMay at hmay
  split at hmay
  · next heq =>
    cases heq
    exact Or.inl ⟨rfl,trivial⟩
  · next heq =>
    cases heq
    exact Or.inr ⟨rfl,rfl⟩
  · cases hmay
  · next heq => cases heq

theorem call (h : SpscInv text cfg w) {t : ℕ} {c : Call L} (hmay : spscMay (.call t c) = true)
    (hact : World.act text cfg (.call t c) w = some w') : SpscInv text cfg w' := by
  obtain ⟨hidle,rfl⟩ := World.act_call hact
  have hother : t = 0 ∨ t = 1 := by
    rcases mayCall hmay with ⟨ht,-⟩ | ⟨ht,-⟩
    · exact Or.inl ht
    · exact Or.inr ht
  have hrest : ∀ u, u ≠ 0 → u ≠ 1 → (w.put t w.mem (c.entry cfg) [.called]).pc u = .idle := by
    intro u h0 h1
    have hne : u ≠ t := by rcases hother with rfl | rfl <;> assumption
    rw [World.put_pc_of_ne _ _ _ _ _ hne]
    exact h.idle u h0 h1
  rcases mayCall hmay with ⟨rfl,hrec⟩ | ⟨rfl,rfl⟩
  · have hcall := (hidle ▸ h.recording).call hrec
    have hnoFlush : ¬(c.entry cfg).Flushes := by
      cases c with
      | record | hook | stop => exact id
      | consume | start => exact hrec.elim
    exact
      { recording := by simpa using hcall
        consuming := by simpa using h.consuming
        fresh := by simpa using h.fresh
        returned := by simpa using h.returned
        noOutput := h.noOutput
        noFlush := by simpa using hnoFlush
        idle := hrest
        dropped := by simpa using h.dropped
        droppedEvents := by simpa using h.droppedEvents }
  · exact
      { recording := by simpa using h.recording
        consuming := by simp [Call.entry,Pc.Consumes]
        fresh := by simp [Call.entry,Pc.loadedTail]
        returned := by simpa using h.returned
        noOutput := h.noOutput
        noFlush := by simpa using h.noFlush
        idle := hrest
        dropped := by simpa using h.dropped
        droppedEvents := by simpa using h.droppedEvents }

theorem producer (h : SpscInv text cfg w) (hfile : cfg.output.writeToFile = false)
    (hact : World.act text cfg (.tick 0) w = some w') : SpscInv text cfg w' := by
  obtain ⟨m,p,os,hexec,rfl⟩ := World.act_tick hact
  obtain ⟨hout,hread,hflush⟩ := exec_noFile hfile h.noOutput h.recording.records h.noFlush hexec
  have hret := (exec_frame h.recording.records hexec).returned
  have hcount := droppedEvents_exec h.recording.records hexec h.droppedEvents
  exact
    { recording := by simpa using h.recording.step hexec
      consuming := by simpa [hread] using h.consuming.mono (Nat.le_refl _) (acceptedIn os)
      fresh := by simpa [hread] using h.fresh
      returned := by
        rw [World.put_returned,World.put_accepted,World.put_mem,hret,List.append_nil,hread,
          List.take_append_of_le_length h.recording.window.lo_le]
        exact h.returned
      noOutput := hout
      noFlush := by simpa using hflush
      idle := by
        intro t h0 h1
        rw [World.put_pc_of_ne _ _ _ _ _ h0]
        exact h.idle t h0 h1
      dropped := by
        intro n hn
        rw [World.put_dropped,List.mem_append] at hn
        rcases hn with hn | hn
        · exact h.dropped n hn
        · exact h.recording.dropped hexec n hn
      droppedEvents := by simpa using hcount }

/-- The consumer returns the oldest unread events and moves the read position behind them. -/
theorem consumer_store (h : SpscInv text cfg w) {tail head : ℕ} {events : List (Event L)}
    (hp : w.pc 1 = .conStore tail head events)
    (hact : World.act text cfg (.tick 1) w = some w') : SpscInv text cfg w' := by
  obtain ⟨m,p,os,hexec,rfl⟩ := World.act_tick hact
  rw [hp] at hexec
  cases hexec
  have htail : tail = w.mem.readPos := h.fresh tail (by rw [hp]; rfl)
  obtain ⟨-,hlo,hhead,hevents⟩ := hp ▸ h.consuming
  have hadvance := h.recording.advance (v := head) (by omega) hhead (Pc.not_draining h.noFlush)
  exact
    { recording := by simpa [acceptedIn] using hadvance
      consuming := by simp [Pc.Consumes]
      fresh := by simp [Pc.loadedTail]
      returned := by
        rw [World.put_returned,World.put_accepted,World.put_mem,h.returned,← htail]
        simp only [returnedIn,acceptedIn,List.flatMap_cons,List.flatMap_nil,List.append_nil,
          List.filterMap_cons,List.filterMap_nil]
        rw [hevents htail,← List.take_add,show tail + (head - tail) = head by omega]
      noOutput := h.noOutput
      noFlush := by simpa using h.noFlush
      idle := by
        intro t h0 h1
        rw [World.put_pc_of_ne _ _ _ _ _ h1]
        exact h.idle t h0 h1
      dropped := by simpa [droppedIn] using h.dropped
      droppedEvents := by simpa [droppedIn] using h.droppedEvents }

theorem consumer (h : SpscInv text cfg w)
    (hact : World.act text cfg (.tick 1) w = some w') : SpscInv text cfg w' := by
  by_cases hstore : ∃ tail head events, w.pc 1 = .conStore tail head events
  · obtain ⟨tail,head,events,hp⟩ := hstore
    exact h.consumer_store hp hact
  · obtain ⟨m,p,os,hexec,rfl⟩ := World.act_tick hact
    have hfresh := loadedTail_exec h.consuming h.fresh hexec
    obtain ⟨rfl,hcon,hos⟩ := consume_step h.consuming h.recording.position h.recording.window
      (fun tail head events hp => hstore ⟨tail,head,events,hp⟩) hexec
    have hnone : acceptedIn os = [] ∧ returnedIn os = [] ∧ droppedIn os = [] := by
      rcases hos with rfl | rfl <;> exact ⟨rfl,rfl,rfl⟩
    exact
      { recording := by simpa [hnone.1] using h.recording
        consuming := by simpa [hnone.1] using hcon
        fresh := by simpa using hfresh
        returned := by simpa [hnone.1,hnone.2.1] using h.returned
        noOutput := h.noOutput
        noFlush := by simpa using h.noFlush
        idle := by
          intro t h0 h1
          rw [World.put_pc_of_ne _ _ _ _ _ h1]
          exact h.idle t h0 h1
        dropped := by simpa [hnone.2.2] using h.dropped
        droppedEvents := by simpa [hnone.2.2] using h.droppedEvents }

theorem step (cfg : FilelessConfig) (h : SpscInv text cfg.toConfig w) {a : Action L}
    (hmay : spscMay a = true) (hact : World.act text cfg.toConfig a w = some w') :
    SpscInv text cfg.toConfig w' := by
  cases a with
  | call t c => exact h.call hmay hact
  | tick t =>
    by_cases h0 : t = 0
    · subst h0
      exact h.producer cfg.noFile hact
    · by_cases h1 : t = 1
      · subst h1
        exact h.consumer hact
      · simp [World.act,h.idle t h0 h1,exec] at hact

end SpscInv

theorem spscInv_reachable (cfg : FilelessConfig) {w : World L}
    (h : (spscSystem text cfg.toConfig).Reachable w) : SpscInv text cfg.toConfig w :=
  h.invariant (fun _ hw => .start cfg hw) (fun _ _ _ hinv hmay hact => hinv.step cfg hmay hact)

/-- The ring is a queue: at most 65535 events are unread; what was returned and what is
unread make up what was accepted, in order; no slot is written that holds an unread event
or is being copied; and an event is dropped only when 65535 events were unread as the
producer loaded the read position. -/
structure IsQueue (w : World L) : Prop where
  lo_le : w.mem.readPos ≤ w.mem.writePos
  fits : w.mem.writePos ≤ w.mem.readPos + 65535
  complete : w.returned ++ w.unread = w.accepted
  notUnread : ∀ e k head i, w.pc 0 = .recSlot e k head → w.mem.readPos ≤ i → i < w.mem.writePos →
    slot i ≠ slot head
  notCopied : ∀ e k head tail top j events i, w.pc 0 = .recSlot e k head →
    w.pc 1 = .conCopy tail top j events → tail ≤ i → i < top → slot i ≠ slot head
  droppedEvents : w.mem.droppedEvents = w.dropped.length % 2 ^ 64
  dropped : ∀ n ∈ w.dropped, n = 65535

/-- With one producer, one consumer and no file the ring is a queue in every reachable
state. -/
theorem spsc_isQueue (cfg : FilelessConfig) {w : World L}
    (h : (spscSystem text cfg.toConfig).Reachable w) : IsQueue w := by
  have hinv := spscInv_reachable cfg h
  have hlo := hinv.recording.window.lo_le
  have hfits := hinv.recording.window.fits
  have hpos := hinv.recording.position
  simp only [bufferSize] at hfits
  have hfree : ∀ e k head i, w.pc 0 = .recSlot e k head → w.mem.readPos ≤ i →
      i < w.mem.writePos → slot i ≠ slot head := by
    intro e k head i hp hl hh
    exact (hp ▸ hinv.recording).slot_free hl hh
  have hunread : w.unread = w.accepted.drop w.mem.readPos := by
    rw [← hinv.recording.window.unread_eq,← hpos]
    simp only [World.unread,cells,slot_eq_mod]
  exact
    { lo_le := by omega
      fits := by omega
      complete := by rw [hinv.returned,hunread,List.take_append_drop]
      notUnread := hfree
      notCopied := by
        intro e k head tail top j events i hp hcopy hl hh
        have htail : tail = w.mem.readPos := hinv.fresh tail (by rw [hcopy]; rfl)
        obtain ⟨-,-,-,htop,-⟩ := hcopy ▸ hinv.consuming
        exact hfree e k head i hp (by omega) (by omega)
      droppedEvents := hinv.droppedEvents
      dropped := hinv.dropped }

/-- The default configuration without a trace file. -/
def defaultFileless : FilelessConfig where
  output := { writeToFile := false }
  enabled := rfl
  noFile := rfl

/-- One event goes through the ring while the producer begins the next one. -/
theorem spsc_isQueue_one :
    ∃ w : World Unit, (spscSystem (fun _ => []) defaultFileless.toConfig).Reachable w ∧
      (w.accepted.length,w.returned.length,w.mem.writePos) = (1,1,1) ∧ IsQueue w := by
  have hinit : (spscSystem (fun _ => []) defaultFileless.toConfig).init
      (World.started defaultFileless.toConfig (HookState.initial (fun _ => none)) : World Unit) :=
    ⟨_,rfl,rfl,rfl⟩
  obtain ⟨w,hw,hview⟩ := Transition.System.Reachable.of_replay hinit
    (List.flatten [.call 0 (.record HookState.zeroEvent) :: List.replicate 7 (.tick 0),
      [.call 0 (.record HookState.zeroEvent),.call 1 .consume],
      [.tick 1,.tick 0,.tick 1,.tick 0,.tick 1,.tick 0,.tick 1,.tick 0,.tick 1]])
    (fun w => (w.accepted.length,w.returned.length,w.mem.writePos))
    (v := (1,1,1)) (by decide +kernel)
  exact ⟨w,hw,hview,spsc_isQueue defaultFileless hw⟩

end GgmlViz
