import GgmlViz.Server.LiveServer
import Mathlib.Data.List.Flatten
import Mathlib.Data.List.Nodup

/-! # What the live server delivers

Every event that the ring accepted is unread, in the hands of the collector, queued, or
popped from the queue, in this order, however often the server was stopped and started.
-/
namespace GgmlViz
open LittleEndian RingWindow Fifo
variable {L : Type} {text : L → Bytes}

/-- The events that the collector has taken from the ring and not yet queued. -/
def CollectorThread.inHand : CollectorThread L → List (Event L)
  | .calling newEvents => newEvents
  | _ => []

/-- Nothing is lost or sent twice between the ring and the clients, other than what the
handler dropped from a queue that was too long. -/
structure Delivers (w : LiveServer L) : Prop where
  complete : w.stream.removed.map Prod.fst ++ w.stream.eventQueue ++ w.collector.inHand ++
    w.hook.unread = w.hook.accepted
  queued : w.stream.eventQueue.length ≤ queueLimit
  unread : w.hook.unread.length ≤ 65535
  inOrder : ∀ i, (w.stream.received i).Sublist w.hook.accepted
  once : ∀ clients : List ℕ, clients.Nodup →
    (clients.flatMap w.stream.received).Subperm w.hook.accepted
  notThrown : w.collector ≠ .threw

section Consumer
variable {cfg : Config} {w : World L} {m : Mem L} {p : Pc L} {os : List (Obs L)}

/-- The consumer returns with a batch, or it has returned nothing yet; it never throws. -/
theorem SpscInv.consumer_obs (h : SpscInv text cfg w)
    (hexec : exec text cfg (w.pc 1) w.mem = some (m,p,os)) :
    os = [] ∨ ∃ events, os = [.returned events] ∧ p = .idle := by
  have hfits := h.recording.window.fits
  have hpos := h.recording.position
  have hlo := h.recording.window.lo_le
  have hcon := h.consuming
  have hfresh := h.fresh
  simp only [bufferSize] at hfits
  generalize w.pc 1 = q at hexec hcon hfresh
  cases q with
  | conHead tail =>
    have htail : tail = w.mem.readPos := hfresh tail rfl
    simp only [exec] at hexec
    split at hexec
    · cases hexec
      exact .inl rfl
    · split at hexec
      · next hbig =>
        simp only [HookState.maxBatch] at hbig
        omega
      · cases hexec
        exact .inl rfl
  | conStore tail head events =>
    cases hexec
    exact .inr ⟨events,rfl,rfl⟩
  | conActive | conTail | conCopy =>
    cases hexec
    exact .inl rfl
  | idle => cases hexec
  | _ => exact hcon.elim

/-- A consumer that has not returned can take its next step. -/
theorem SpscInv.consumer_enabled (h : SpscInv text cfg w) (hp : w.pc 1 ≠ .idle) :
    ∃ r, exec text cfg (w.pc 1) w.mem = some r := by
  have hcon := h.consuming
  generalize w.pc 1 = q at hcon hp
  cases q with
  | idle => exact absurd rfl hp
  | conActive | conTail | conCopy | conStore => exact ⟨_,rfl⟩
  | conHead tail =>
    simp only [exec]
    split
    · exact ⟨_,rfl⟩
    · split <;> exact ⟨_,rfl⟩
  | _ => exact hcon.elim

theorem SpscInv.unread_eq (h : SpscInv text cfg w) :
    w.unread = w.accepted.drop w.mem.readPos := by
  rw [← h.recording.window.unread_eq,← h.recording.position]
  simp only [World.unread,cells,slot_eq_mod]

theorem SpscInv.complete (h : SpscInv text cfg w) : w.returned ++ w.unread = w.accepted := by
  rw [h.returned,h.unread_eq,List.take_append_drop]

theorem SpscInv.unread_length (h : SpscInv text cfg w) : w.unread.length ≤ 65535 := by
  have hfits := h.recording.window.fits
  have hpos := h.recording.position
  simp only [bufferSize] at hfits
  rw [h.unread_eq,List.length_drop]
  omega

end Consumer

/-- Where the collector is after a step that returned nothing. -/
theorem afterConsume_nil (p : Pc L) : LiveServer.afterConsume p [] = .sleeping ∧ p = .idle ∨
    LiveServer.afterConsume p [] = .consuming ∧ p ≠ .idle := by
  cases p with
  | idle => exact .inl ⟨rfl,rfl⟩
  | _ => exact .inr ⟨rfl,nofun⟩

theorem afterConsume_returned (events : List (Event L)) :
    (LiveServer.afterConsume .idle [.returned events]).inHand = events ∧
      LiveServer.afterConsume .idle [.returned events] ≠ .consuming ∧
      LiveServer.afterConsume .idle [.returned events] ≠ .threw := by
  cases events with
  | nil => simp [LiveServer.afterConsume,returnedIn,CollectorThread.inHand]
  | cons e events => simp [LiveServer.afterConsume,returnedIn,CollectorThread.inHand]

/-- What holds between the hook, the collector and the queue. -/
structure DeliveryInv (text : L → Bytes) (cfg : Config) (w : LiveServer L) : Prop where
  hook : SpscInv text cfg w.hook
  stream : StreamInv w.stream
  handed : w.hook.returned = w.stream.enqueued ++ w.collector.inHand
  resting : w.hook.pc 1 = .idle ↔ w.collector ≠ .consuming
  notThrown : w.collector ≠ .threw

namespace DeliveryInv
variable {cfg : Config} {w w' : LiveServer L} (h : DeliveryInv text cfg w)
include h

/-- The collector goes on, and takes nothing along. -/
theorem move {c : CollectorThread L} (hold : w.collector.inHand = []) (hc : c.inHand = [])
    (hthrew : c ≠ .threw) (hrest : w.collector ≠ .consuming) (hc' : c ≠ .consuming) :
    DeliveryInv text cfg { w with collector := c } where
  hook := h.hook
  stream := h.stream
  handed := by rw [h.handed,hold,hc]
  resting := iff_of_true (h.resting.mpr hrest) hc'
  notThrown := hthrew

theorem ofStream {stream : StreamWorld (Event L)} (hstream : StreamInv stream)
    (hsame : stream.enqueued = w.stream.enqueued) (server : ServerThread) :
    DeliveryInv text cfg { w with stream, server } where
  hook := h.hook
  stream := hstream
  handed := hsame ▸ h.handed
  resting := h.resting
  notThrown := h.notThrown

/-- A step of the recording thread. -/
theorem ofHook {hook : World L} (hhook : SpscInv text cfg hook)
    (hret : hook.returned = w.hook.returned) (hpc : hook.pc 1 = w.hook.pc 1) :
    DeliveryInv text cfg { w with hook } where
  hook := hhook
  stream := h.stream
  handed := hret.trans h.handed
  resting := by
    change hook.pc 1 = .idle ↔ _
    rw [hpc]
    exact h.resting
  notThrown := h.notThrown

theorem consuming (hc : w.collector = .consuming) {m : Mem L} {p : Pc L} {os : List (Obs L)}
    (hexec : exec text cfg (w.hook.pc 1) w.hook.mem = some (m,p,os)) : DeliveryInv text cfg
      { w with hook := w.hook.put 1 m p os, collector := LiveServer.afterConsume p os } := by
  have hact : World.act text cfg (.tick 1) w.hook = some (w.hook.put 1 m p os) := by
    simp only [World.act,hexec,Option.map_some]
  have hnew := h.hook.consumer hact
  have hhand : w.collector.inHand = [] := by rw [hc]; rfl
  have hret : w.hook.returned = w.stream.enqueued := by simpa [hhand] using h.handed
  rcases h.hook.consumer_obs hexec with rfl | ⟨events,rfl,rfl⟩
  · rcases afterConsume_nil p with ⟨hafter,rfl⟩ | ⟨hafter,hp⟩
    · rw [hafter]
      exact
        { hook := hnew
          stream := h.stream
          handed := by simp [returnedIn,hret,CollectorThread.inHand]
          resting := by simp
          notThrown := by simp }
    · rw [hafter]
      exact
        { hook := hnew
          stream := h.stream
          handed := by simp [returnedIn,hret,CollectorThread.inHand]
          resting := by simpa using hp
          notThrown := by simp }
  · obtain ⟨hin,hrest,hthrew⟩ := afterConsume_returned events
    exact
      { hook := hnew
        stream := h.stream
        handed := by simp [returnedIn,hret,hin]
        resting := by simpa using hrest
        notThrown := hthrew }

theorem handle {newEvents : List (Event L)} {stream : StreamWorld (Event L)}
    (hc : w.collector = .calling newEvents)
    (hact : w.stream.act (.handleNewEvents newEvents) = some stream) :
    DeliveryInv text cfg { w with stream, collector := .sleeping } where
  hook := h.hook
  stream := h.stream.handleNewEvents hact
  handed := by
    have henqueued : stream.enqueued = w.stream.enqueued ++ newEvents := by
      rw [act_handleNewEvents hact]
    rw [h.handed,hc,henqueued]
    exact (List.append_nil _).symm
  resting := iff_of_true (h.resting.mpr (by simp [hc])) nofun
  notThrown := nofun

/-- Starting and stopping joins a thread that has nothing in hand. -/
theorem control (hact : w.controlStep = some w') : DeliveryInv text cfg w' := by
  unfold LiveServer.controlStep at hact
  split at hact
  · cases hact
    exact { h with }
  · cases hact
    exact { h with stream := { h.stream with } }
  · cases hact
    exact { h with }
  · cases hact
    exact { h with }
  · split at hact
    · next hc =>
      cases hact
      have hrest : w.collector ≠ .consuming := by simp [hc]
      exact { h.move (c := .testRunning) (by rw [hc]; rfl) rfl nofun hrest nofun with }
    · cases hact
      exact { h with }
  · split at hact
    · cases hact
      exact { h with }
    · cases hact
      exact { h with }
  · cases hact
    exact { h with }
  · cases hact
    exact { h with stream := { h.stream with } }
  · cases hact
    exact { h with }
  · cases hact
    exact { h with }
  · split at hact
    · cases hact
      exact { h with }
    · next hc =>
      cases hact
      have hrest : w.collector ≠ .consuming := by simp [hc]
      exact { h.move (c := .none) (by rw [hc]; rfl) rfl nofun hrest nofun with }
    · cases hact
  · split at hact
    · cases hact
      exact { h with }
    · cases hact
      exact { h with }
    · cases hact
  · cases hact
  · cases hact

theorem next (hfile : cfg.output.writeToFile = false) {t : LiveThread}
    (hnext : w.Next text cfg t w') : DeliveryInv text cfg w' := by
  cases hnext with
  | record e hact =>
    obtain ⟨-,hw⟩ := World.act_call hact
    have hret := congrArg World.returned hw
    rw [World.put_returned,returnedIn_called,List.append_nil] at hret
    apply h.ofHook (h.hook.call rfl hact) hret
    rw [hw]
    exact World.put_pc_of_ne _ _ _ _ _ (by decide)
  | producer hact =>
    obtain ⟨m,p,os,hexec,hw⟩ := World.act_tick hact
    have hnone := (exec_frame h.hook.recording.records hexec).returned
    have hret := congrArg World.returned hw
    rw [World.put_returned,hnone,List.append_nil] at hret
    apply h.ofHook (h.hook.producer hfile hact) hret
    rw [hw]
    exact World.put_pc_of_ne _ _ _ _ _ (by decide)
  | testRunning hc =>
    have hrest : w.collector ≠ .consuming := by simp [hc]
    apply h.move (by rw [hc]; rfl) _ _ hrest
    · split <;> nofun
    · split <;> rfl
    · split <;> nofun
  | inactive hc | wake hc =>
    exact h.move (by rw [hc]; rfl) rfl nofun (by simp [hc]) nofun
  | consume hc hact =>
    obtain ⟨-,hw⟩ := World.act_call hact
    have hret := congrArg World.returned hw
    rw [World.put_returned,returnedIn_called,List.append_nil] at hret
    exact
      { hook := h.hook.call rfl hact
        stream := h.stream
        handed := by
          rw [hret,h.handed,hc]
          rfl
        resting := by
          rw [hw]
          simp [Call.entry]
        notThrown := nofun }
  | consuming hc hexec => exact h.consuming hc hexec
  | handle hc hact => exact h.handle hc hact
  | bind | testServerRunning | timeout => exact { h with }
  | accept hs hact =>
    exact h.ofStream (h.stream.step hact) (act_cases hact (by simp)).1 _
  | client _ ha _ hact => exact h.ofStream (h.stream.step hact) (act_cases hact ha).1 _
  | call => exact { h with }
  | control hact => exact h.control hact

theorem delivers : Delivers w where
  complete := by
    rw [h.stream.linear,← h.handed]
    exact h.hook.complete
  queued := h.stream.bounded
  unread := h.hook.unread_length
  inOrder := by
    intro i
    have hreturned : w.stream.enqueued.Sublist w.hook.returned := by
      rw [h.handed]
      exact List.sublist_append_left _ _
    have haccepted : w.hook.returned.Sublist w.hook.accepted := by
      rw [← h.hook.complete]
      exact List.sublist_append_left _ _
    exact ((h.stream.history.inOrder i).trans hreturned).trans haccepted
  once := by
    intro clients hclients
    have hreceived : (clients.flatMap w.stream.received).Subperm
        (clients.flatMap (fun i => takenBy (.client i) w.stream.removed)) :=
      (List.Sublist.flatMap_right clients (fun i _ => (h.stream.received i).sublist)).subperm
    have htaken : (clients.flatMap (fun i => takenBy (.client i) w.stream.removed)).Subperm
        (w.stream.removed.map Prod.fst) := by
      have hnodup : (clients.map Remover.client).Nodup :=
        List.Nodup.map (fun _ _ heq => Remover.client.inj heq) hclients
      simpa only [List.flatMap_map] using takenBy_subperm hnodup w.stream.removed
    have haccepted : (w.stream.removed.map Prod.fst).Sublist w.hook.accepted := by
      rw [← h.hook.complete,h.handed,← h.stream.linear,List.append_assoc,List.append_assoc]
      exact List.sublist_append_left _ _
    exact (hreceived.trans htaken).trans haccepted.subperm
  notThrown := h.notThrown

end DeliveryInv

theorem DeliveryInv.start (cfg : FilelessConfig) {w : LiveServer L}
    (h : LiveServer.Started cfg.toConfig w) : DeliveryInv text cfg.toConfig w := by
  obtain ⟨hook,hhook,rfl⟩ := h
  have hinv : SpscInv text cfg.toConfig hook := .start cfg hhook
  obtain ⟨s,-,-,rfl⟩ := hhook
  exact
    { hook := hinv
      stream := { StreamInv.start with }
      handed := rfl
      resting := iff_of_true rfl nofun
      notThrown := nofun }

theorem deliveryInv_reachable (cfg : FilelessConfig) {w : LiveServer L}
    (h : (liveSystem text cfg.toConfig).Reachable w) : DeliveryInv text cfg.toConfig w := by
  apply h.invariant
  · intro w hw
    exact .start cfg hw
  · intro w a w' hw _ hact
    exact hw.next cfg.noFile (LiveServer.act_next hact)

/-- Without a trace file, in every interleaving of the recording thread, the collector, the
clients and a thread that starts and stops the server. -/
theorem liveServer_delivers (cfg : FilelessConfig) {w : LiveServer L}
    (h : (liveSystem text cfg.toConfig).Reachable w) : Delivers w :=
  (deliveryInv_reachable cfg h).delivers

/-- A hook was started, and a server was just made. -/
def LiveServer.fresh : LiveServer Unit where
  hook := World.started defaultFileless.toConfig (HookState.initial (fun _ => none))
  stream := { StreamWorld.start with serverRunning := false }
  running := false
  collector := .none
  server := .none
  control := .idle

theorem LiveServer.fresh_started : LiveServer.Started defaultFileless.toConfig .fresh :=
  ⟨_,⟨_,rfl,rfl,rfl⟩,rfl⟩

/-- One event is sent; the next one waits until the server is started again. -/
theorem liveServer_delivers_restart : ∃ w : LiveServer Unit,
    (liveSystem (fun _ => []) defaultFileless.toConfig).Reachable w ∧
      (w.hook.accepted.length,(w.stream.received 0).length,w.stream.eventQueue.length) = (2,1,1) ∧
      Delivers w := by
  let record : List (LiveAction Unit) :=
    .record HookState.zeroEvent :: List.replicate 7 .producer
  let start : List (LiveAction Unit) := .start :: List.replicate 6 .control
  let stop : List (LiveAction Unit) := .stop :: List.replicate 4 .control
  obtain ⟨w,hw,hview⟩ := Transition.System.Reachable.of_replay
    (S := liveSystem (fun _ => []) defaultFileless.toConfig) LiveServer.fresh_started
    (List.flatten [start,record,[.bind true,.server none,.server (some 0)],
      List.replicate 8 .collector,[.testRunning 0,.drain 0,.send 0 true],stop,record,
      [.collector,.collector,.control,.server none,.control],start,List.replicate 8 .collector])
    (fun w => (w.hook.accepted.length,(w.stream.received 0).length,w.stream.eventQueue.length))
    (v := (2,1,1)) (by decide +kernel)
  exact ⟨w,hw,hview,liveServer_delivers defaultFileless hw⟩

end GgmlViz
