import GgmlViz.Concurrent.SingleProducer
import GgmlViz.Server.StreamQueue

/-! # The live server

`LiveDataCollector` drains the ring of the hook in a thread of its own and hands each batch to
`LiveStreamServer`, whose clients take the events from the queue. One thread starts and stops
the server; it joins the others. Everything else is interleaved.
-/
namespace GgmlViz
open LittleEndian Fifo
variable {L : Type}

/-- `collector_thread_`, with the place in `collector_loop`. -/
inductive CollectorThread (L : Type)
  /-- The handle is not joinable. -/
  | none
  | testRunning
  | testActive
  | consuming
  | calling (newEvents : List (Event L))
  | sleeping
  | ended
  /-- An exception has left the loop. -/
  | threw

/-- `server_thread_`, with the place in `start_http_server`. -/
inductive ServerThread
  | none
  | binding
  | testRunning
  | selecting
  | ended
  deriving DecidableEq

/-- Who has called `LiveDataCollector::stop`. -/
inductive Stopper
  | start
  | serverStop
  deriving DecidableEq

/-- The place of the controlling thread in `LiveStreamServer::start` or `stop`. -/
inductive Control
  | idle
  -- LiveStreamServer::start
  | startTest
  | startSet
  -- LiveDataCollector::start
  | collectorTest
  | collectorSet
  | collectorSpawn
  | serverSpawn
  -- LiveStreamServer::stop
  | stopTest
  | stopSet
  -- LiveDataCollector::stop
  | collectorStopTest (s : Stopper)
  | collectorStopSet (s : Stopper)
  | collectorJoin (s : Stopper)
  | serverJoin
  /-- A `std::thread` was assigned to a joinable handle. -/
  | terminated
  deriving DecidableEq

/-- The hook, whose thread 0 records and whose thread 1 is the collector, and the server. -/
structure LiveServer (L : Type) where
  hook : World L
  stream : StreamWorld (Event L)
  running : Bool
  collector : CollectorThread L
  server : ServerThread
  control : Control

inductive LiveAction (L : Type)
  | record (e : Event L)
  | producer
  | collector
  | bind (succeeds : Bool)
  /-- `select` times out, or this client is accepted. -/
  | server (accepted : Option ℕ)
  | testRunning (i : ℕ)
  | drain (i : ℕ)
  | send (i : ℕ) (succeeds : Bool)
  | start
  | stop
  | control

inductive LiveThread
  | recorder
  | collector
  | server
  | client (i : ℕ)
  | controller
  deriving DecidableEq

def LiveAction.thread : LiveAction L → LiveThread
  | .record _ | .producer => .recorder
  | .collector => .collector
  | .bind _ | .server _ => .server
  | .testRunning i | .drain i | .send i _ => .client i
  | .start | .stop | .control => .controller

namespace LiveServer
variable (text : L → Bytes) (cfg : Config)

/-- After a step of `consume_available_events`. -/
def afterConsume : Pc L → List (Obs L) → CollectorThread L
  | _, [.threw] => .threw
  | .idle, os => if (returnedIn os).isEmpty then .sleeping else .calling (returnedIn os)
  | _, _ => .consuming

/-- The next step of `collector_loop`. -/
def collectorStep (w : LiveServer L) : Option (LiveServer L) :=
  match w.collector with
  | .testRunning => some { w with collector := if w.running then .testActive else .ended }
  | .testActive =>
    if w.hook.mem.active then
      (World.act text cfg (.call 1 .consume) w.hook).map
        (fun hook => { w with hook, collector := .consuming })
    else some { w with collector := .sleeping }
  | .consuming =>
    (exec text cfg (w.hook.pc 1) w.hook.mem).map
      (fun (m,p,os) => { w with hook := w.hook.put 1 m p os, collector := afterConsume p os })
  | .calling newEvents =>
    (w.stream.act (.handleNewEvents newEvents)).map
      (fun stream => { w with stream, collector := .sleeping })
  | .sleeping => some { w with collector := .testRunning }
  | .none | .ended | .threw => none

/-- The next step of the accept loop. -/
def serverStep (accepted : Option ℕ) (w : LiveServer L) : Option (LiveServer L) :=
  match w.server with
  | .testRunning =>
    some { w with server := if w.stream.serverRunning then .selecting else .ended }
  | .selecting =>
    match accepted with
    | none => some { w with server := .testRunning }
    | some i =>
      (w.stream.act (.connect i)).map (fun stream => { w with stream, server := .testRunning })
  | .none | .binding | .ended => none

def setServerRunning (b : Bool) (w : LiveServer L) : LiveServer L :=
  { w with stream := { w.stream with serverRunning := b } }

/-- The next step of `LiveStreamServer::start` or `stop`. -/
def controlStep (w : LiveServer L) : Option (LiveServer L) :=
  match w.control with
  | .startTest => some { w with control := if w.stream.serverRunning then .idle else .startSet }
  | .startSet => some { w.setServerRunning true with control := .collectorTest }
  | .collectorTest =>
    some { w with control := if w.running then .collectorStopTest .start else .collectorSet }
  | .collectorSet => some { w with running := true, control := .collectorSpawn }
  | .collectorSpawn =>
    match w.collector with
    | .none => some { w with collector := .testRunning, control := .serverSpawn }
    | _ => some { w with control := .terminated }
  | .serverSpawn =>
    match w.server with
    | .none => some { w with server := .binding, control := .idle }
    | _ => some { w with control := .terminated }
  | .stopTest => some { w with control := if w.stream.serverRunning then .stopSet else .idle }
  | .stopSet => some { w.setServerRunning false with control := .collectorStopTest .serverStop }
  | .collectorStopTest s =>
    some { w with control := if w.running then .collectorStopSet s else afterStop s }
  | .collectorStopSet s => some { w with running := false, control := .collectorJoin s }
  | .collectorJoin s =>
    match w.collector with
    | .none => some { w with control := afterStop s }
    | .ended => some { w with collector := .none, control := afterStop s }
    | _ => none
  | .serverJoin =>
    match w.server with
    | .none => some { w with control := .idle }
    | .ended => some { w with server := .none, control := .idle }
    | _ => none
  | .idle | .terminated => none
where
  afterStop : Stopper → Control
    | .start => .collectorSet
    | .serverStop => .serverJoin

def act : LiveAction L → LiveServer L → Option (LiveServer L)
  | .record e, w =>
    (World.act text cfg (.call 0 (.record e)) w.hook).map (fun hook => { w with hook })
  | .producer, w => (World.act text cfg (.tick 0) w.hook).map (fun hook => { w with hook })
  | .collector, w => w.collectorStep text cfg
  | .bind succeeds, w =>
    match w.server with
    | .binding => some { w with server := if succeeds then .testRunning else .ended }
    | _ => none
  | .server accepted, w => w.serverStep accepted
  | .testRunning i, w => (w.stream.act (.testRunning i)).map (fun stream => { w with stream })
  | .drain i, w => (w.stream.act (.drain i)).map (fun stream => { w with stream })
  | .send i succeeds, w => (w.stream.act (.send i succeeds)).map (fun stream => { w with stream })
  | .start, w => match w.control with
    | .idle => some { w with control := .startTest }
    | _ => none
  | .stop, w => match w.control with
    | .idle => some { w with control := .stopTest }
    | _ => none
  | .control, w => w.controlStep

/-- The hook was started, and the server was just made. -/
def Started (cfg : Config) (w : LiveServer L) : Prop :=
  ∃ hook : World L, hook.Started cfg ∧
    w = { hook, stream := { StreamWorld.start with serverRunning := false }, running := false
          collector := .none, server := .none, control := .idle }

end LiveServer

/-- Everything happens in any order. -/
def liveSystem (text : L → Bytes) (cfg : Config) :
    Transition.System (LiveServer L) (LiveAction L) where
  init := LiveServer.Started cfg
  may _ _ := True
  act := LiveServer.act text cfg

instance (text : L → Bytes) (cfg : Config) (w : LiveServer L) (a : LiveAction L) :
    Decidable ((liveSystem text cfg).may w a) :=
  inferInstanceAs (Decidable True)

namespace LiveServer
variable (text : L → Bytes) (cfg : Config)

/-- What a step can be. -/
inductive Next (w : LiveServer L) : LiveThread → LiveServer L → Prop
  | record (e : Event L) {hook : World L} :
    World.act text cfg (.call 0 (.record e)) w.hook = some hook → Next w .recorder { w with hook }
  | producer {hook : World L} :
    World.act text cfg (.tick 0) w.hook = some hook → Next w .recorder { w with hook }
  | testRunning : w.collector = .testRunning →
    Next w .collector { w with collector := if w.running then .testActive else .ended }
  | inactive : w.collector = .testActive → Next w .collector { w with collector := .sleeping }
  | consume {hook : World L} : w.collector = .testActive →
    World.act text cfg (.call 1 .consume) w.hook = some hook →
    Next w .collector { w with hook, collector := .consuming }
  | consuming {m : Mem L} {p : Pc L} {os : List (Obs L)} : w.collector = .consuming →
    exec text cfg (w.hook.pc 1) w.hook.mem = some (m,p,os) →
    Next w .collector { w with hook := w.hook.put 1 m p os, collector := afterConsume p os }
  | handle {newEvents : List (Event L)} {stream : StreamWorld (Event L)} :
    w.collector = .calling newEvents → w.stream.act (.handleNewEvents newEvents) = some stream →
    Next w .collector { w with stream, collector := .sleeping }
  | wake : w.collector = .sleeping → Next w .collector { w with collector := .testRunning }
  | bind (succeeds : Bool) : w.server = .binding →
    Next w .server { w with server := if succeeds then .testRunning else .ended }
  | testServerRunning : w.server = .testRunning →
    Next w .server { w with server := if w.stream.serverRunning then .selecting else .ended }
  | timeout : w.server = .selecting → Next w .server { w with server := .testRunning }
  | accept {i : ℕ} {stream : StreamWorld (Event L)} : w.server = .selecting →
    w.stream.act (.connect i) = some stream →
    Next w .server { w with stream, server := .testRunning }
  | client (i : ℕ) {a : StreamAction (Event L)} {stream : StreamWorld (Event L)} :
    (∀ events, a ≠ .handleNewEvents events) → a ≠ .stop → w.stream.act a = some stream →
    Next w (.client i) { w with stream }
  | call {c : Control} : c = .startTest ∨ c = .stopTest → w.control = .idle →
    Next w .controller { w with control := c }
  | control {w' : LiveServer L} : w.controlStep = some w' → Next w .controller w'

variable {text cfg} {w w' : LiveServer L}

theorem collectorStep_next (h : w.collectorStep text cfg = some w') :
    Next text cfg w .collector w' := by
  unfold collectorStep at h
  split at h
  · next hc =>
    cases h
    exact .testRunning hc
  · next hc =>
    split at h
    · obtain ⟨hook,hact,rfl⟩ := Option.map_eq_some_iff.mp h
      exact .consume hc hact
    · cases h
      exact .inactive hc
  · next hc =>
    obtain ⟨⟨m,p,os⟩,hexec,rfl⟩ := Option.map_eq_some_iff.mp h
    exact .consuming hc hexec
  · next hc =>
    obtain ⟨stream,hact,rfl⟩ := Option.map_eq_some_iff.mp h
    exact .handle hc hact
  · next hc =>
    cases h
    exact .wake hc
  · cases h
  · cases h
  · cases h

theorem serverStep_next {accepted : Option ℕ} (h : w.serverStep accepted = some w') :
    Next text cfg w .server w' := by
  unfold serverStep at h
  split at h
  · next hs =>
    cases h
    exact .testServerRunning hs
  · next hs =>
    cases accepted with
    | none =>
      cases h
      exact .timeout hs
    | some i =>
      obtain ⟨stream,hact,rfl⟩ := Option.map_eq_some_iff.mp h
      exact .accept hs hact
  · cases h
  · cases h
  · cases h

theorem act_next {a : LiveAction L} (h : act text cfg a w = some w') :
    Next text cfg w a.thread w' := by
  cases a with
  | record e =>
    obtain ⟨hook,hact,rfl⟩ := Option.map_eq_some_iff.mp h
    exact .record e hact
  | producer =>
    obtain ⟨hook,hact,rfl⟩ := Option.map_eq_some_iff.mp h
    exact .producer hact
  | collector => exact collectorStep_next h
  | bind succeeds =>
    simp only [act] at h
    split at h
    · next hs =>
      cases h
      exact .bind succeeds hs
    · cases h
  | server accepted => exact serverStep_next h
  | testRunning i | drain i | send i succeeds =>
    obtain ⟨stream,hact,rfl⟩ := Option.map_eq_some_iff.mp h
    exact .client i (by simp) (by simp) hact
  | start | stop =>
    simp only [act] at h
    split at h
    · next hidle =>
      cases h
      exact .call (by simp) hidle
    · cases h
  | control => exact .control h

end LiveServer
end GgmlViz
