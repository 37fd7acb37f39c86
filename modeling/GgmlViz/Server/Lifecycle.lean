import GgmlViz.Server.Delivery

/-! # Starting and stopping the live server

Between two calls the server is up, with both threads running, or down, with no thread and
nothing in hand. A call that joins a thread waits for a bounded number of that thread's steps.
-/
namespace GgmlViz
open LittleEndian
variable {L : Type} {text : L → Bytes} {cfg : Config}

namespace CollectorThread

/-- The thread is in `collector_loop`. -/
def Alive : CollectorThread L → Prop
  | none | ended | threw => False
  | _ => True

/-- The thread is there, and was not killed by an exception. -/
def Joinable : CollectorThread L → Prop
  | none | threw => False
  | _ => True

end CollectorThread

namespace LiveServer

/-- The flags, and what holds of the two threads. -/
structure Threads (serverRunning running : Bool) (collector : CollectorThread L → Prop)
    (server : ServerThread → Prop) (w : LiveServer L) : Prop where
  serverRunning : w.stream.serverRunning = serverRunning
  running : w.running = running
  collector : collector w.collector
  server : server w.server

def Down (w : LiveServer L) : Prop := w.Threads false false (· = .none) (· = .none)

def Up (w : LiveServer L) : Prop := w.Threads true true CollectorThread.Alive (· ≠ .none)

/-- What holds at each place of the controlling thread. -/
def Lifecycle (w : LiveServer L) : Prop :=
  match w.control with
  | .idle | .startTest | .stopTest => w.Down ∨ w.Up
  | .startSet => w.Down
  | .collectorTest | .collectorSet => w.Threads true false (· = .none) (· = .none)
  | .collectorSpawn => w.Threads true true (· = .none) (· = .none)
  | .serverSpawn => w.Threads true true CollectorThread.Alive (· = .none)
  | .stopSet => w.Up
  | .collectorStopTest .serverStop | .collectorStopSet .serverStop =>
    w.Threads false true CollectorThread.Alive (· ≠ .none)
  | .collectorJoin .serverStop => w.Threads false false CollectorThread.Joinable (· ≠ .none)
  | .serverJoin => w.Threads false false (· = .none) (· ≠ .none)
  | .collectorStopTest .start | .collectorStopSet .start | .collectorJoin .start
  | .terminated => False

/-- A step of another thread: the flags stay, and the threads go on. -/
structure Elsewhere (w w' : LiveServer L) : Prop where
  control : w'.control = w.control
  serverRunning : w'.stream.serverRunning = w.stream.serverRunning
  running : w'.running = w.running
  absent : w.collector = .none → w'.collector = .none
  alive : w.running = true → w.collector.Alive → w'.collector.Alive
  joinable : w.collector.Joinable → w'.collector.Joinable
  server : w'.server = .none ↔ w.server = .none

section Steps
variable {w w' : LiveServer L}

theorem Threads.elsewhere {b c : Bool} {P : CollectorThread L → Prop} {Q : ServerThread → Prop}
    (h : w.Threads b c P Q) (he : Elsewhere w w') (hP : P w.collector → P w'.collector)
    (hQ : Q = (· = .none) ∨ Q = (· ≠ .none)) : w'.Threads b c P Q where
  serverRunning := he.serverRunning.trans h.serverRunning
  running := he.running.trans h.running
  collector := hP h.collector
  server := by
    have hs := h.server
    rcases hQ with rfl | rfl
    · exact he.server.mpr hs
    · exact fun heq => hs (he.server.mp heq)

theorem Lifecycle.elsewhere (h : w.Lifecycle) (he : Elsewhere w w') : w'.Lifecycle := by
  have hdown (hd : w.Down) : w'.Down := Threads.elsewhere hd he he.absent (.inl rfl)
  have hup (hu : w.Up) : w'.Up := Threads.elsewhere hu he (he.alive hu.running) (.inr rfl)
  unfold Lifecycle at h ⊢
  rw [he.control]
  split at h
  · exact h.imp hdown hup
  · exact h.imp hdown hup
  · exact h.imp hdown hup
  · exact hdown h
  · exact h.elsewhere he he.absent (.inl rfl)
  · exact h.elsewhere he he.absent (.inl rfl)
  · exact h.elsewhere he he.absent (.inl rfl)
  · exact h.elsewhere he (he.alive h.running) (.inl rfl)
  · exact hup h
  · exact h.elsewhere he (he.alive h.running) (.inr rfl)
  · exact h.elsewhere he (he.alive h.running) (.inr rfl)
  · exact h.elsewhere he he.joinable (.inr rfl)
  · exact h.elsewhere he he.absent (.inr rfl)
  · exact h.elim
  · exact h.elim
  · exact h.elim
  · exact h.elim

/-- Only the controlling thread stores `server_running_`. -/
theorem act_serverRunning {s s' : StreamWorld (Event L)} {a : StreamAction (Event L)}
    (h : s.act a = some s') (ha : a ≠ .stop) : s'.serverRunning = s.serverRunning := by
  cases a with
  | handleNewEvents events => rw [act_handleNewEvents h]
  | stop => exact absurd rfl ha
  | connect i | testRunning i | drain i =>
    simp only [StreamWorld.act] at h
    split at h
    · cases h
      rfl
    · cases h
  | send i succeeds =>
    simp only [StreamWorld.act] at h
    split at h
    · split at h <;> cases h <;> rfl
    · cases h

theorem afterConsume_alive {p : Pc L} {os : List (Obs L)}
    (h : os = [] ∨ ∃ events, os = [.returned events] ∧ p = .idle) :
    (afterConsume p os).Alive := by
  rcases h with rfl | ⟨events,rfl,rfl⟩
  · rcases afterConsume_nil p with ⟨hafter,-⟩ | ⟨hafter,-⟩
    · rw [hafter]
      trivial
    · rw [hafter]
      trivial
  · cases events <;> trivial

namespace Elsewhere

theorem ofHook (hook : World L) : Elsewhere w { w with hook } where
  control := rfl
  serverRunning := rfl
  running := rfl
  absent := id
  alive := fun _ => id
  joinable := id
  server := Iff.rfl

theorem ofCollector {hook : World L} {stream : StreamWorld (Event L)} {c : CollectorThread L}
    (hsame : stream.serverRunning = w.stream.serverRunning) (hold : w.collector.Joinable)
    (hc : c.Joinable) (halive : w.running = true → c.Alive) :
    Elsewhere w { w with hook, stream, collector := c } where
  control := rfl
  serverRunning := hsame
  running := rfl
  absent := by
    intro hnone
    rw [hnone] at hold
    exact hold.elim
  alive := fun hrun _ => halive hrun
  joinable := fun _ => hc
  server := Iff.rfl

theorem ofServer {stream : StreamWorld (Event L)} {server : ServerThread}
    (hsame : stream.serverRunning = w.stream.serverRunning)
    (hserver : server = .none ↔ w.server = .none) : Elsewhere w { w with stream, server } where
  control := rfl
  serverRunning := hsame
  running := rfl
  absent := id
  alive := fun _ => id
  joinable := id
  server := hserver

end Elsewhere

theorem Alive.joinable {c : CollectorThread L} (h : c.Alive) : c.Joinable := by
  cases c with
  | none | ended | threw => exact h.elim
  | _ => trivial

/-- The other threads leave the flags alone; a call and the controlling thread are left. -/
theorem Next.elsewhere (hinv : DeliveryInv text cfg w) {t : LiveThread}
    (h : w.Next text cfg t w') : Elsewhere w w' ∨ t = .controller ∧
      ((w.control = .idle ∧ ∃ c, (c = .startTest ∨ c = .stopTest) ∧ w' = { w with control := c }) ∨
        w.controlStep = some w') := by
  cases h with
  | record | producer => exact .inl (.ofHook _)
  | testRunning hc =>
    left
    apply Elsewhere.ofCollector rfl (by rw [hc]; trivial)
    · split <;> trivial
    · intro hrun
      rw [if_pos hrun]
      trivial
  | inactive hc | wake hc | consume hc =>
    exact .inl (.ofCollector rfl (by rw [hc]; trivial) trivial (fun _ => trivial))
  | consuming hc hexec =>
    have halive := afterConsume_alive (hinv.hook.consumer_obs hexec)
    exact .inl (.ofCollector rfl (by rw [hc]; trivial) (Alive.joinable halive) (fun _ => halive))
  | handle hc hact =>
    have hsame := act_serverRunning hact nofun
    exact .inl (.ofCollector hsame (by rw [hc]; trivial) trivial (fun _ => trivial))
  | bind succeeds hs =>
    left
    apply Elsewhere.ofServer rfl
    cases succeeds <;> simp [hs]
  | testServerRunning hs =>
    left
    apply Elsewhere.ofServer rfl
    split <;> simp [hs]
  | timeout hs => exact .inl (.ofServer rfl (by simp [hs]))
  | accept hs hact => exact .inl (.ofServer (act_serverRunning hact nofun) (by simp [hs]))
  | client _ _ hstop hact => exact .inl (.ofServer (act_serverRunning hact hstop) Iff.rfl)
  | call hc hidle => exact .inr ⟨rfl,.inl ⟨hidle,_,hc,rfl⟩⟩
  | control hact => exact .inr ⟨rfl,.inr hact⟩

/-- A thread is joined when it has ended, and started when there is none. -/
theorem Lifecycle.control (h : w.Lifecycle) (hact : w.controlStep = some w') : w'.Lifecycle := by
  unfold Lifecycle at h
  unfold controlStep at hact
  split at hact
  · next hc =>
    rw [hc] at h
    cases hact
    rcases h with hdown | hup
    · rw [hdown.serverRunning]
      exact { hdown with }
    · rw [hup.serverRunning]
      exact .inr { hup with }
  · next hc =>
    rw [hc] at h
    cases hact
    exact { h with serverRunning := rfl }
  · next hc =>
    rw [hc] at h
    cases hact
    rw [if_neg (Bool.eq_false_iff.mp h.running)]
    exact { h with }
  · next hc =>
    rw [hc] at h
    cases hact
    exact { h with running := rfl }
  · next hc =>
    rw [hc] at h
    rw [h.collector] at hact
    cases hact
    exact { h with collector := trivial }
  · next hc =>
    rw [hc] at h
    rw [h.server] at hact
    cases hact
    exact .inr { h with server := nofun }
  · next hc =>
    rw [hc] at h
    cases hact
    rcases h with hdown | hup
    · rw [hdown.serverRunning]
      exact .inl { hdown with }
    · rw [hup.serverRunning]
      exact { hup with }
  · next hc =>
    rw [hc] at h
    cases hact
    exact { h with serverRunning := rfl }
  · next s hc =>
    rw [hc] at h
    cases s with
    | start => exact h.elim
    | serverStop =>
      cases hact
      rw [if_pos h.running]
      exact { h with }
  · next s hc =>
    rw [hc] at h
    cases s with
    | start => exact h.elim
    | serverStop =>
      cases hact
      exact { h with running := rfl, collector := Alive.joinable h.collector }
  · next s hc =>
    rw [hc] at h
    cases s with
    | start => exact h.elim
    | serverStop =>
      split at hact
      · next hnone =>
        have hjoinable := h.collector
        rw [hnone] at hjoinable
        exact hjoinable.elim
      · cases hact
        exact { h with collector := rfl }
      · cases hact
  · next hc =>
    rw [hc] at h
    split at hact
    · next hnone => exact absurd hnone h.server
    · cases hact
      exact .inl { h with server := rfl }
    · cases hact
  · cases hact
  · cases hact

theorem Lifecycle.next (h : w.Lifecycle) (hinv : DeliveryInv text cfg w) {t : LiveThread}
    (hnext : w.Next text cfg t w') : w'.Lifecycle := by
  rcases hnext.elsewhere hinv with he | ⟨-,⟨hidle,c,hc,rfl⟩ | hact⟩
  · exact h.elsewhere he
  · unfold Lifecycle at h
    rw [hidle] at h
    rcases hc with rfl | rfl
    · exact h.imp (fun hd => { hd with }) (fun hu => { hu with })
    · exact h.imp (fun hd => { hd with }) (fun hu => { hu with })
  · exact h.control hact

end Steps
end LiveServer

theorem lifecycle_reachable (cfg : FilelessConfig) {w : LiveServer L}
    (h : (liveSystem text cfg.toConfig).Reachable w) : w.Lifecycle := by
  induction h with
  | start hs =>
    obtain ⟨hook,-,rfl⟩ := hs
    exact .inl { serverRunning := rfl, running := rfl, collector := rfl, server := rfl }
  | step a hr _ hact ih => exact ih.next (deliveryInv_reachable cfg hr) (LiveServer.act_next hact)

section Waiting

/-- So many steps at most are left of `consume_available_events`. -/
def Pc.consumerRank : Pc L → ℕ
  | .conActive => 65539
  | .conTail => 65538
  | .conHead _ => 65537
  | .conCopy _ head i _ => head - i + 1
  | .conStore _ _ _ => 1
  | _ => 0

/-- So many steps at most are left of a collector that has been told to stop. -/
def LiveServer.collectorRank (w : LiveServer L) : ℕ :=
  match w.collector with
  | .testRunning => 1
  | .sleeping => 2
  | .calling _ => 3
  | .consuming => (w.hook.pc 1).consumerRank + 3
  | .testActive => 65543
  | .none | .ended | .threw => 0

def LiveServer.serverRank (w : LiveServer L) : ℕ :=
  match w.server with
  | .testRunning => 1
  | .binding | .selecting => 2
  | .none | .ended => 0

theorem copyNext_rank {tail head i : ℕ} {events : List (Event L)} (h : i ≤ head) :
    (Pc.copyNext tail head i events).consumerRank = head - i + 1 := by
  unfold Pc.copyNext
  split
  · rfl
  · have hi : head - i = 0 := by omega
    rw [hi]
    rfl

/-- The copied range is never longer than the ring, so the consumer soon returns. -/
theorem consumerRank_exec {w : World L} {m : Mem L} {p : Pc L} {os : List (Obs L)}
    (h : SpscInv text cfg w) (hexec : exec text cfg (w.pc 1) w.mem = some (m,p,os)) :
    p.consumerRank < (w.pc 1).consumerRank := by
  have hfits := h.recording.window.fits
  have hpos := h.recording.position
  have hlo := h.recording.window.lo_le
  have hcon := h.consuming
  have hfresh := h.fresh
  simp only [bufferSize] at hfits
  generalize w.pc 1 = q at hexec hcon hfresh
  cases q with
  | conActive =>
    cases hexec
    split <;> simp [Pc.consumerRank]
  | conTail =>
    cases hexec
    exact Nat.lt_succ_self _
  | conHead tail =>
    have htail : tail = w.mem.readPos := hfresh tail rfl
    simp only [exec] at hexec
    split at hexec
    · cases hexec
      simp [Pc.consumerRank]
    · split at hexec
      · cases hexec
        simp [Pc.consumerRank]
      · cases hexec
        rw [copyNext_rank (by omega)]
        simp only [Pc.consumerRank]
        omega
  | conCopy tail head i events =>
    obtain ⟨-,-,hi,-,-⟩ := hcon
    cases hexec
    rw [copyNext_rank (by omega)]
    simp only [Pc.consumerRank]
    omega
  | conStore tail head events =>
    cases hexec
    exact Nat.one_pos
  | idle => cases hexec
  | _ => exact hcon.elim

theorem consumerRank_le {w : World L} (h : SpscInv text cfg w) :
    (w.pc 1).consumerRank ≤ 65539 := by
  have hfits := h.recording.window.fits
  have hpos := h.recording.position
  have hcon := h.consuming
  have hfresh := h.fresh
  simp only [bufferSize] at hfits
  generalize w.pc 1 = q at hcon hfresh
  cases q with
  | conCopy tail head i events =>
    have htail : tail = w.mem.readPos := hfresh tail rfl
    obtain ⟨-,hlo,-,hhead,-⟩ := hcon
    simp only [Pc.consumerRank]
    omega
  | _ => simp [Pc.consumerRank]

namespace LiveServer
variable {w w' : LiveServer L} {t : LiveThread}

theorem collectorRank_le (h : DeliveryInv text cfg w) : w.collectorRank ≤ 65543 := by
  have hpc := consumerRank_le h.hook
  unfold collectorRank
  split <;> omega

theorem serverRank_le (w : LiveServer L) : w.serverRank ≤ 2 := by
  unfold serverRank
  split <;> omega

/-- Once `running_` is unset, each step of the collector brings it nearer to its end. -/
theorem collectorRank_next (hinv : DeliveryInv text cfg w) (hrun : w.running = false)
    (h : w.Next text cfg t w') (ht : t ≠ .controller) :
    w'.collectorRank + (if t = .collector then 1 else 0) ≤ w.collectorRank := by
  cases h with
  | record e hact =>
    obtain ⟨-,hw⟩ := World.act_call hact
    have hpc := congrArg (fun hook => hook.pc 1) hw
    rw [World.put_pc_of_ne _ _ _ _ _ (by decide)] at hpc
    simp only [collectorRank,hpc]
    exact Nat.le_refl _
  | producer hact =>
    obtain ⟨m,p,os,-,hw⟩ := World.act_tick hact
    have hpc := congrArg (fun hook => hook.pc 1) hw
    rw [World.put_pc_of_ne _ _ _ _ _ (by decide)] at hpc
    simp only [collectorRank,hpc]
    exact Nat.le_refl _
  | testRunning hc => simp [collectorRank,hc,hrun]
  | inactive hc | wake hc => simp [collectorRank,hc]
  | handle hc hact => simp [collectorRank,hc]
  | consume hc hact =>
    obtain ⟨-,hw⟩ := World.act_call hact
    have hpc := congrArg (fun hook => hook.pc 1) hw
    rw [World.put_pc] at hpc
    simp only [collectorRank,hpc,hc]
    exact Nat.le_refl _
  | consuming hc hexec =>
    have hlt := consumerRank_exec hinv.hook hexec
    simp only [collectorRank,hc,if_true]
    rcases hinv.hook.consumer_obs hexec with rfl | ⟨events,rfl,rfl⟩
    · rename_i p
      rcases afterConsume_nil p with ⟨hafter,-⟩ | ⟨hafter,-⟩
      · rw [hafter]
        dsimp only
        omega
      · rw [hafter,World.put_pc]
        dsimp only
        omega
    · cases events with
      | nil =>
        simp only [afterConsume,returnedIn,List.flatMap_cons,List.flatMap_nil,List.append_nil,
          List.isEmpty_nil,if_true]
        omega
      | cons e events =>
        simp only [afterConsume,returnedIn,List.flatMap_cons,List.flatMap_nil,List.append_nil,
          List.isEmpty_cons,Bool.false_eq_true,if_false]
        omega
  | bind | testServerRunning | timeout | accept | client => exact Nat.le_refl _
  | call | control => exact absurd rfl ht

theorem serverRank_next (hserver : w.stream.serverRunning = false)
    (h : w.Next text cfg t w') (ht : t ≠ .controller) :
    w'.serverRank + (if t = .server then 1 else 0) ≤ w.serverRank := by
  cases h with
  | bind succeeds hs => cases succeeds <;> simp [serverRank,hs]
  | testServerRunning hs => simp [serverRank,hs,hserver]
  | timeout hs | accept hs _ => simp [serverRank,hs]
  | record | producer | testRunning | inactive | consume | consuming | handle | wake
  | client => exact Nat.le_refl _
  | call | control => exact absurd rfl ht

/-- While the collector is in its loop, it can take its next step. -/
theorem collectorStep_enabled (h : DeliveryInv text cfg w) (hjoin : w.collector.Joinable) :
    w.collector = .ended ∨ ∃ w', act text cfg .collector w = some w' := by
  have hrest := h.resting
  simp only [act,collectorStep]
  cases hc : w.collector with
  | none | threw =>
    rw [hc] at hjoin
    exact hjoin.elim
  | ended => exact .inl rfl
  | testRunning | sleeping => exact .inr ⟨_,rfl⟩
  | testActive =>
    have hidle : w.hook.pc 1 = .idle := hrest.mpr (by simp [hc])
    right
    dsimp only
    split
    · simp [World.act,hidle]
    · exact ⟨_,rfl⟩
  | consuming =>
    have hbusy : w.hook.pc 1 ≠ .idle := fun hidle => hrest.mp hidle hc
    obtain ⟨r,hexec⟩ := h.hook.consumer_enabled hbusy
    exact .inr ⟨_,by rw [hexec]; rfl⟩
  | calling newEvents => exact .inr ⟨_,rfl⟩

theorem serverStep_enabled (h : w.server ≠ .none) :
    w.server = .ended ∨
      ∃ a : LiveAction L, a.thread = .server ∧ ∃ w', act text cfg a w = some w' := by
  cases hs : w.server with
  | none => exact absurd hs h
  | ended => exact .inl rfl
  | binding => exact .inr ⟨.bind true,rfl,by simp [act,hs]⟩
  | testRunning | selecting => exact .inr ⟨.server none,rfl,by simp [act,serverStep,hs]⟩

end LiveServer
end Waiting

/-- The calls of `start` and `stop`, at any time and again and again. -/
structure Orderly (w : LiveServer L) : Prop where
  /-- No thread is started over a joinable one. -/
  notTerminated : w.control ≠ .terminated
  /-- `LiveDataCollector::start` never finds a collector that is running. -/
  noRestart : w.control ≠ .collectorStopTest .start
  steady : w.control = .idle → w.Down ∨ w.Up
  /-- Once `stop` has returned, everything that was taken from the ring is in the queue, and
  nobody reads the ring. -/
  stopped : w.control = .idle → w.stream.serverRunning = false →
    w.hook.returned = w.stream.enqueued ∧ w.hook.pc 1 = .idle

/-- Without a trace file, in every interleaving, the server is up or down between two calls. -/
theorem liveServer_orderly (cfg : FilelessConfig) {w : LiveServer L}
    (h : (liveSystem text cfg.toConfig).Reachable w) : Orderly w := by
  have hlife := lifecycle_reachable cfg h
  have hinv := deliveryInv_reachable cfg h
  have hsteady (hidle : w.control = .idle) : w.Down ∨ w.Up := by
    unfold LiveServer.Lifecycle at hlife
    rwa [hidle] at hlife
  exact
    { notTerminated := by
        intro hc
        unfold LiveServer.Lifecycle at hlife
        rwa [hc] at hlife
      noRestart := by
        intro hc
        unfold LiveServer.Lifecycle at hlife
        rwa [hc] at hlife
      steady := hsteady
      stopped := by
        intro hidle hstopped
        rcases hsteady hidle with hdown | hup
        · have hnone : w.collector = .none := hdown.collector
          have hreturned := hinv.handed
          rw [hnone] at hreturned
          exact ⟨by simpa [CollectorThread.inHand] using hreturned,
            hinv.resting.mpr (by simp [hnone])⟩
        · rw [hup.serverRunning] at hstopped
          cases hstopped }

/-- The server is started and stopped, and the socket could not be bound. -/
theorem liveServer_orderly_stopped : ∃ w : LiveServer Unit,
    (liveSystem (fun _ => []) defaultFileless.toConfig).Reachable w ∧
      (w.control,w.stream.serverRunning,w.server) = (.idle,false,.none) ∧ Orderly w := by
  obtain ⟨w,hw,hview⟩ := Transition.System.Reachable.of_replay (S := liveSystem (fun _ => [])
      defaultFileless.toConfig) LiveServer.fresh_started
    (.start :: List.replicate 6 .control ++ [.bind false,.stop] ++ List.replicate 4 .control ++
      [.collector,.control,.control])
    (fun w => (w.control,w.stream.serverRunning,w.server))
    (v := (.idle,false,.none)) (by decide +kernel)
  exact ⟨w,hw,hview,liveServer_orderly defaultFileless hw⟩

section Joining
variable {w w' : LiveServer L} {as : List (LiveAction L)}

/-- The controlling thread waits, and the others go on. -/
theorem replay_waiting (cfg : FilelessConfig) (h : (liveSystem text cfg.toConfig).Reachable w)
    (rank : LiveServer L → ℕ) (t : LiveThread)
    (hrank : ∀ v v' u, (liveSystem text cfg.toConfig).Reachable v → v.control = w.control →
      v.Next text cfg.toConfig u v' → u ≠ .controller →
      rank v' + (if u = t then 1 else 0) ≤ rank v)
    (has : ∀ a ∈ as, a.thread ≠ .controller)
    (hr : (liveSystem text cfg.toConfig).replay as w = some w') :
    (liveSystem text cfg.toConfig).Reachable w' ∧ w'.control = w.control ∧
      as.countP (fun a => a.thread = t) ≤ rank w := by
  have hstep : ∀ a ∈ as, ∀ v v',
      (liveSystem text cfg.toConfig).Reachable v ∧ v.control = w.control →
      (liveSystem text cfg.toConfig).may v a → (liveSystem text cfg.toConfig).act a v = some v' →
      ((liveSystem text cfg.toConfig).Reachable v' ∧ v'.control = w.control) ∧
        rank v' + (if decide (a.thread = t) then 1 else 0) ≤ rank v := by
    rintro a ha v v' ⟨hv,hcontrol⟩ hmay hact
    have hnext := LiveServer.act_next hact
    rcases hnext.elsewhere (deliveryInv_reachable cfg hv) with he | ⟨hcontroller,-⟩
    · refine ⟨⟨.step a hv hmay hact,he.control.trans hcontrol⟩,?_⟩
      simpa using hrank v v' a.thread hv hcontrol hnext (has a ha)
    · exact absurd hcontroller (has a ha)
  obtain ⟨⟨hreach,hcontrol⟩,hcount⟩ :=
    Transition.System.countP_le_rank rank (fun a => decide (a.thread = t)) hstep ⟨h,rfl⟩ hr
  exact ⟨hreach,hcontrol,by omega⟩

end Joining
end GgmlViz
