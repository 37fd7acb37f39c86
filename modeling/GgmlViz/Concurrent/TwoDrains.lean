import GgmlViz.Concurrent.Consumer
import GgmlViz.Concurrent.FlushingThread
import GgmlViz.Hook.Session

/-! # File flush and live consumer together

Thread 0 records and flushes to the trace file, thread 1 consumes. Both move the same read
position with a load and a later store, and only the flush takes the lock.
-/
namespace GgmlViz
open LittleEndian RingWindow
variable {L : Type} {text : L → Bytes}

/-- Thread 0 records, ends graphs and stops; thread 1 calls `consume_available_events`. -/
def twoDrainsMay : Action L → Bool
  | .call 0 (.record _) => true
  | .call 0 (.hook _ _) => true
  | .call 0 .stop => true
  | .call 1 .consume => true
  | .call _ _ => false
  | .tick _ => true

abbrev twoDrainsSystem (text : L → Bytes) (cfg : Config) :
    Transition.System (World L) (Action L) :=
  hookSystem text cfg (World.Started cfg) (fun _ => twoDrainsMay)

/-- The consumer stores the read position only when it is still the one it loaded and no
flush is between its own load and store of it. -/
def consumesAlone (w : World L) : Action L → Bool
  | .tick t =>
    match w.pc t with
    | .conStore tail _ _ => tail = w.mem.readPos && !(w.pc 0).draining
    | _ => true
  | .call _ _ => true

/-- The runs in which that is so. -/
abbrev aloneSystem (text : L → Bytes) (cfg : Config) : Transition.System (World L) (Action L) :=
  (twoDrainsSystem text cfg).restrict (fun w a => consumesAlone w a = true)

/-- The slots that neither drain has delivered yet. -/
def World.undelivered (w : World L) : List (Event L) :=
  (List.range' ((w.pc 0).frontier w.mem.readPos)
    (w.mem.writePos - (w.pc 0).frontier w.mem.readPos)).map (fun i => w.mem.eventBuffer (slot i))

/-- Every accepted event is in the file or was returned, once in total, or it is still to
be delivered; the file holds the records of those that were written. -/
structure DeliversOnce (text : L → Bytes) (cfg : Config) (w : World L) : Prop where
  once : (w.wrote ++ w.returned ++ w.undelivered).Perm w.accepted
  file : w.mem.files cfg.output.filename = some (traceHeader ++
    (w.wrote.flatMap (Event.encode text) ++ (w.pc 0).partialRecord text w.mem.eventBuffer))
  lo_le : w.mem.readPos ≤ w.mem.writePos
  fits : w.mem.writePos ≤ w.mem.readPos + 65535

structure TwoDrainsInv (text : L → Bytes) (cfg : Config) (w : World L) : Prop where
  recording : RecordingInv text cfg w.mem (w.pc 0) w.accepted
  consuming : (w.pc 1).Consumes w.mem.readPos w.accepted
  delivered : (w.wrote ++ w.returned).Perm (w.accepted.take ((w.pc 0).frontier w.mem.readPos))
  file : FileInv text cfg.output.filename traceHeader w.mem (w.pc 0) w.wrote
  idle : ∀ t, t ≠ 0 → t ≠ 1 → w.pc t = .idle

theorem alone_store {w : World L} {t tail head : ℕ} {events : List (Event L)}
    (hp : w.pc t = .conStore tail head events) (h : consumesAlone w (.tick t) = true) :
    tail = w.mem.readPos ∧ (w.pc 0).draining = false := by
  simpa [consumesAlone,hp] using h

namespace TwoDrainsInv
variable {cfg : Config} {w w' : World L}

theorem start (cfg : TracingConfig) (h : w.Started cfg.toConfig) :
    TwoDrainsInv text cfg.toConfig w := by
  obtain ⟨s,hs,-,rfl⟩ := h
  rw [World.started,start_writing cfg.enabled cfg.writes hs]
  exact
    { recording := .begin rfl rfl rfl
      consuming := trivial
      delivered := List.Perm.refl _
      file := ⟨by simp [Pc.partialRecord,World.wrote,World.obs,wroteIn],Or.inl rfl⟩
      idle := fun _ _ _ => rfl }

theorem mayCall {t : ℕ} {c : Call L} (hmay : twoDrainsMay (.call t c) = true) :
    (t = 0 ∧ c.Records) ∨ (t = 1 ∧ c = .consume) := by
  unfold twoDrainsMay at hmay
  split at hmay
  · next heq => cases heq; exact Or.inl ⟨rfl,trivial⟩
  · next heq => cases heq; exact Or.inl ⟨rfl,trivial⟩
  · next heq => cases heq; exact Or.inl ⟨rfl,trivial⟩
  · next heq => cases heq; exact Or.inr ⟨rfl,rfl⟩
  · cases hmay
  · next heq => cases heq

theorem entry_notWrites {c : Call L} (hc : c.Records) : ¬(c.entry cfg).Writes := by
  cases c with
  | record | hook | stop => exact id
  | consume | start => exact hc.elim

theorem call (h : TwoDrainsInv text cfg w) {t : ℕ} {c : Call L}
    (hmay : twoDrainsMay (.call t c) = true)
    (hact : World.act text cfg (.call t c) w = some w') : TwoDrainsInv text cfg w' := by
  obtain ⟨hidle,rfl⟩ := World.act_call hact
  rcases mayCall hmay with ⟨rfl,hrec⟩ | ⟨rfl,rfl⟩
  · have hcall := (hidle ▸ h.recording).call hrec
    have hnot : ¬(c.entry cfg).Writes := entry_notWrites hrec
    have hfile := h.file
    have hdelivered := h.delivered
    rw [hidle] at hfile hdelivered
    exact
      { recording := by simpa using hcall
        consuming := by simpa using h.consuming
        delivered := by
          rw [World.put_pc,World.put_mem,frontier_of_notWrites hnot]
          simpa [Pc.frontier] using hdelivered
        file := by
          refine ⟨?_,?_⟩
          · rw [World.put_pc,World.put_mem,partialRecord_of_notWrites hnot]
            simpa [Pc.partialRecord] using hfile.content
          · rcases hfile.output with ho | ⟨ho,-⟩
            · exact Or.inl ho
            · exact Or.inr ⟨ho,by simpa using hnot⟩
        idle := fun u h0 h1 => by simpa [h0] using h.idle u h0 h1 }
  · exact
      { recording := by simpa using h.recording
        consuming := by simp [Call.entry,Pc.Consumes]
        delivered := by simpa using h.delivered
        file := by simpa using h.file
        idle := fun u h0 h1 => by simpa [h1] using h.idle u h0 h1 }

theorem recorder (h : TwoDrainsInv text cfg w)
    (hact : World.act text cfg (.tick 0) w = some w') : TwoDrainsInv text cfg w' := by
  obtain ⟨m,p,os,hexec,rfl⟩ := World.act_tick hact
  have hret := (exec_frame h.recording.records hexec).returned
  exact
    { recording := by simpa using h.recording.step hexec
      consuming := by
        simpa using h.consuming.mono (h.recording.readPos_le hexec) (acceptedIn os)
      delivered := by simpa [hret] using delivered_step h.recording h.delivered hexec
      file := by simpa using h.file.step h.recording hexec
      idle := fun u h0 h1 => by simpa [h0] using h.idle u h0 h1 }

theorem consumer_store (h : TwoDrainsInv text cfg w) {tail head : ℕ} {events : List (Event L)}
    (hp : w.pc 1 = .conStore tail head events) (htail : tail = w.mem.readPos)
    (hnot : (w.pc 0).draining = false) (hact : World.act text cfg (.tick 1) w = some w') :
    TwoDrainsInv text cfg w' := by
  obtain ⟨m,p,os,hexec,rfl⟩ := World.act_tick hact
  rw [hp] at hexec
  cases hexec
  obtain ⟨-,hlo,hhead,hevents⟩ := hp ▸ h.consuming
  have hadvance := h.recording.advance (v := head) (by omega) hhead hnot
  have hfrontier (v : ℕ) : (w.pc 0).frontier v = v := by
    cases hpc : w.pc 0 with
    | flushField | flushStore =>
      rw [hpc] at hnot
      cases hnot
    | _ => rfl
  have hdelivered := h.delivered
  rw [hfrontier,← htail] at hdelivered
  exact
    { recording := by simpa [acceptedIn] using hadvance
      consuming := by simp [Pc.Consumes]
      delivered := by
        have hsplit : w.accepted.take head = w.accepted.take tail ++ events := by
          rw [hevents htail,← List.take_add,show tail + (head - tail) = head by omega]
        have hperm := hdelivered.append_right events
        rw [← hsplit,List.append_assoc] at hperm
        simpa [wroteIn,returnedIn,acceptedIn,hfrontier] using hperm
      file := by
        have hfile := h.file
        exact ⟨by simpa [wroteIn] using hfile.content,by simpa using hfile.output⟩
      idle := fun u h0 h1 => by simpa [h1] using h.idle u h0 h1 }

theorem consumer (h : TwoDrainsInv text cfg w) (halone : consumesAlone w (.tick 1) = true)
    (hact : World.act text cfg (.tick 1) w = some w') : TwoDrainsInv text cfg w' := by
  by_cases hstore : ∃ tail head events, w.pc 1 = .conStore tail head events
  · obtain ⟨tail,head,events,hp⟩ := hstore
    obtain ⟨htail,hnot⟩ := alone_store hp halone
    exact h.consumer_store hp htail hnot hact
  · obtain ⟨m,p,os,hexec,rfl⟩ := World.act_tick hact
    obtain ⟨rfl,hcon,hos⟩ := consume_step h.consuming h.recording.position h.recording.window
      (fun tail head events hp => hstore ⟨tail,head,events,hp⟩) hexec
    have hnone : acceptedIn os = [] ∧ returnedIn os = [] ∧ wroteIn os = [] := by
      rcases hos with rfl | rfl <;> exact ⟨rfl,rfl,rfl⟩
    exact
      { recording := by simpa [hnone.1] using h.recording
        consuming := by simpa [hnone.1] using hcon
        delivered := by simpa [hnone.1,hnone.2.1,hnone.2.2] using h.delivered
        file := by simpa [hnone.2.2] using h.file
        idle := fun u h0 h1 => by simpa [h1] using h.idle u h0 h1 }

theorem step (h : TwoDrainsInv text cfg w) {a : Action L} (hmay : twoDrainsMay a = true)
    (halone : consumesAlone w a = true) (hact : World.act text cfg a w = some w') :
    TwoDrainsInv text cfg w' := by
  cases a with
  | call t c => exact h.call hmay hact
  | tick t =>
    by_cases h0 : t = 0
    · subst h0
      exact h.recorder hact
    · by_cases h1 : t = 1
      · subst h1
        exact h.consumer halone hact
      · simp [World.act,h.idle t h0 h1,exec] at hact

theorem readPos_le (h : TwoDrainsInv text cfg w) {a : Action L}
    (halone : consumesAlone w a = true) (hact : World.act text cfg a w = some w') :
    w.mem.readPos ≤ w'.mem.readPos := by
  cases a with
  | call t c =>
    obtain ⟨-,rfl⟩ := World.act_call hact
    exact Nat.le_refl _
  | tick t =>
    obtain ⟨m,p,os,hexec,rfl⟩ := World.act_tick hact
    by_cases h0 : t = 0
    · subst h0
      exact h.recording.readPos_le hexec
    · by_cases h1 : t = 1
      · subst h1
        by_cases hstore : ∃ tail head events, w.pc 1 = .conStore tail head events
        · obtain ⟨tail,head,events,hp⟩ := hstore
          obtain ⟨htail,-⟩ := alone_store hp halone
          obtain ⟨-,hlo,-⟩ := hp ▸ h.consuming
          rw [hp] at hexec
          cases hexec
          dsimp only [World.put_mem]
          omega
        · obtain ⟨rfl,-⟩ := consume_step h.consuming h.recording.position h.recording.window
            (fun tail head events hp => hstore ⟨tail,head,events,hp⟩) hexec
          exact Nat.le_refl _
      · simp [World.act,h.idle t h0 h1,exec] at hact

theorem frontier_le (h : TwoDrainsInv text cfg w) :
    w.mem.readPos ≤ (w.pc 0).frontier w.mem.readPos ∧
      (w.pc 0).frontier w.mem.readPos ≤ w.accepted.length := by
  have hlo := h.recording.window.lo_le
  have hl := h.recording.locals
  cases hp : w.pc 0 with
  | flushField holder currentWrite currentRead f =>
    rw [hp] at hl
    obtain ⟨-,hread,hlt,-⟩ := hl
    exact ⟨hread,Nat.le_of_lt hlt⟩
  | flushStore holder currentRead =>
    rw [hp] at hl
    have hr : currentRead = w.accepted.length := hl
    exact ⟨by simp only [Pc.frontier]; omega,by simp only [Pc.frontier]; omega⟩
  | _ => exact ⟨Nat.le_refl _,hlo⟩

theorem deliversOnce (h : TwoDrainsInv text cfg w) : DeliversOnce text cfg w := by
  have hlo := h.recording.window.lo_le
  have hfits := h.recording.window.fits
  have hpos := h.recording.position
  simp only [bufferSize] at hfits
  obtain ⟨hfrom,hto⟩ := h.frontier_le
  have hundelivered : w.undelivered = w.accepted.drop ((w.pc 0).frontier w.mem.readPos) := by
    rw [← (h.recording.window.advance hfrom hto).unread_eq,← hpos]
    simp only [World.undelivered,cells,slot_eq_mod]
  exact
    { once := by
        rw [hundelivered]
        have hperm := h.delivered.append_right
          (w.accepted.drop ((w.pc 0).frontier w.mem.readPos))
        rwa [List.take_append_drop] at hperm
      file := h.file.content
      lo_le := by omega
      fits := by omega }

end TwoDrainsInv

theorem twoDrainsInv_reachable (cfg : TracingConfig) {w : World L}
    (h : (aloneSystem text cfg.toConfig).Reachable w) :
    TwoDrainsInv text cfg.toConfig w :=
  h.invariant (fun _ hw => .start cfg hw) (fun _ _ _ hinv hmay hact => hinv.step hmay.1 hmay.2 hact)

/-- In every run in which the consumer stores the read position only alone, each accepted
event is delivered once in total, at most 65535 events are unread, and the read position
only moves forward. -/
theorem twoDrains_deliverOnce (cfg : TracingConfig) {w : World L}
    (h : (aloneSystem text cfg.toConfig).Reachable w) :
    DeliversOnce text cfg.toConfig w ∧
      ∀ a w', twoDrainsMay a = true → consumesAlone w a = true →
        World.act text cfg.toConfig a w = some w' → w.mem.readPos ≤ w'.mem.readPos := by
  have hinv := twoDrainsInv_reachable cfg h
  exact ⟨hinv.deliversOnce,fun _ _ _ halone hact => hinv.readPos_le halone hact⟩

/-- An event that is returned before the flush begins. -/
def returnThenFlush : List (Action Unit) :=
  List.flatten [.call 0 (.hook HookState.zeroEvent .graphEndFlush) :: List.replicate 8 (.tick 0),
    .call 1 .consume :: List.replicate 5 (.tick 1),List.replicate 6 (.tick 0)]

theorem twoDrains_deliverOnce_returned :
    ∃ w : World Unit, (aloneSystem (fun _ => []) defaultTracing.toConfig).Reachable w ∧
      (w.wrote.length,w.returned.length,w.accepted.length,w.mem.fileMutex) = (0,1,1,false) ∧
      DeliversOnce (fun _ => []) defaultTracing.toConfig w ∧
      ∀ a w', twoDrainsMay a = true → consumesAlone w a = true →
        World.act (fun _ => []) defaultTracing.toConfig a w = some w' →
        w.mem.readPos ≤ w'.mem.readPos := by
  have hinit : (aloneSystem (fun _ => []) defaultTracing.toConfig).init
      (World.started defaultTracing.toConfig (HookState.initial (fun _ => none)) : World Unit) :=
    ⟨_,rfl,rfl,rfl⟩
  obtain ⟨w,hw,hview⟩ := Transition.System.Reachable.of_replay hinit returnThenFlush
    (fun w => (w.wrote.length,w.returned.length,w.accepted.length,w.mem.fileMutex))
    (v := (0,1,1,false)) (by decide +kernel)
  exact ⟨w,hw,hview,twoDrains_deliverOnce defaultTracing hw⟩

/-- Thread 0 records an event and begins to flush it; thread 1 returns it meanwhile; then
thread 0 writes it. -/
def bothDeliver : List (Action Unit) :=
  List.flatten [.call 0 (.hook HookState.zeroEvent .graphEndFlush) :: List.replicate 12 (.tick 0),
    .call 1 .consume :: List.replicate 5 (.tick 1),List.replicate 5 (.tick 0)]

/-- One accepted event is both written and returned. -/
theorem not_deliversOnce_bothDeliver :
    ∃ w : World Unit, (twoDrainsSystem (fun _ => []) defaultTracing.toConfig).Reachable w ∧
      ¬DeliversOnce (fun _ => []) defaultTracing.toConfig w := by
  have hinit : (twoDrainsSystem (fun _ => []) defaultTracing.toConfig).init
      (World.started defaultTracing.toConfig (HookState.initial (fun _ => none)) : World Unit) :=
    ⟨_,rfl,rfl,rfl⟩
  obtain ⟨w,hw,hview⟩ := Transition.System.Reachable.of_replay hinit bothDeliver
    (fun w => (w.wrote.length,w.returned.length,w.accepted.length))
    (v := (1,1,1)) (by decide +kernel)
  refine ⟨w,hw,?_⟩
  intro h
  have hlen := h.once.length_eq
  simp only [List.length_append] at hlen
  simp only [Prod.mk.injEq] at hview
  omega

end GgmlViz
