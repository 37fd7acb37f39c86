import GgmlViz.Foundation.Fifo
import GgmlViz.Foundation.Transition
import Mathlib.Logic.Function.Basic

/-! # The streaming queue

The collector's handler and the streaming clients share `event_queue_` under `queue_mutex_`.
A step is a critical section, a `send`, or a test of `server_running_`; the histories are
kept beside the state.
-/
namespace GgmlViz
open Fifo
variable {E : Type}

/-- The limit of `event_queue_`. -/
def queueLimit : ℕ := 10000

/-- How many events a client takes at once. -/
def eventsAtOnce : ℕ := 10

/-- `event_queue_.push` for each event. -/
def pushEvents (events queue : List E) : List E := events.foldl (fun q e => q ++ [e]) queue

/-- Pops while the queue is too long: what is popped, and what is left. -/
def trimQueue : List E → List E × List E
  | [] => ([],[])
  | e :: queue =>
    if queueLimit < (e :: queue).length then
      let (popped,left) := trimQueue queue
      (e :: popped,left)
    else ([],e :: queue)

/-- Pops up to so many events, while there are any: `events_to_send`, and what is left. -/
def takeEvents : ℕ → List E → List E × List E
  | 0, queue => ([],queue)
  | _ + 1, [] => ([],[])
  | n + 1, e :: queue =>
    let (taken,left) := takeEvents n queue
    (e :: taken,left)

/-- A thread in `stream_events_to_client`. -/
inductive StreamClient (E : Type)
  | absent
  /-- The server was running, and the client is about to lock. -/
  | draining
  | sending (eventsToSend : List E)
  | gone

inductive Remover
  | overflow
  | client (i : ℕ)
  deriving DecidableEq

structure StreamWorld (E : Type) where
  eventQueue : List E
  serverRunning : Bool
  clients : ℕ → StreamClient E
  /-- All events pushed so far. -/
  enqueued : List E
  /-- All events popped so far, in the order of the critical sections. -/
  removed : List (E × Remover)
  /-- What was sent to each client. -/
  received : ℕ → List E

inductive StreamAction (E : Type)
  | handleNewEvents (events : List E)
  | connect (i : ℕ)
  | testRunning (i : ℕ)
  | drain (i : ℕ)
  | send (i : ℕ) (succeeds : Bool)
  | stop

namespace StreamWorld

def start : StreamWorld E where
  eventQueue := []
  serverRunning := true
  clients _ := .absent
  enqueued := []
  removed := []
  received _ := []

def setClient (i : ℕ) (c : StreamClient E) (w : StreamWorld E) : StreamWorld E :=
  { w with clients := Function.update w.clients i c }

def act : StreamAction E → StreamWorld E → Option (StreamWorld E)
  | .handleNewEvents events, w =>
    let (popped,left) := trimQueue (pushEvents events w.eventQueue)
    some { w with
      eventQueue := left
      enqueued := w.enqueued ++ events
      removed := w.removed ++ popped.map (fun e => (e,.overflow)) }
  | .connect i, w =>
    match w.clients i with
    | .absent => some (w.setClient i (.sending []))
    | _ => none
  | .testRunning i, w =>
    match w.clients i with
    | .sending [] => some (w.setClient i (if w.serverRunning then .draining else .gone))
    | _ => none
  | .drain i, w =>
    match w.clients i with
    | .draining =>
      let (taken,left) := takeEvents eventsAtOnce w.eventQueue
      some { w.setClient i (.sending taken) with
        eventQueue := left
        removed := w.removed ++ taken.map (fun e => (e,.client i)) }
    | _ => none
  | .send i succeeds, w =>
    match w.clients i with
    | .sending (e :: rest) =>
      if succeeds then
        some { w.setClient i (.sending rest) with
          received := Function.update w.received i (w.received i ++ [e]) }
      else some (w.setClient i .gone)
    | _ => none
  | .stop, w => some { w with serverRunning := false }

end StreamWorld

/-- Everything happens in any order. -/
def streamSystem (E : Type) : Transition.System (StreamWorld E) (StreamAction E) where
  init w := w = .start
  may _ _ := True
  act := StreamWorld.act

instance (w : StreamWorld E) (a : StreamAction E) : Decidable ((streamSystem E).may w a) :=
  inferInstanceAs (Decidable True)

/-- The pushed events are the removed ones and those that are queued, in this order, and each
client gets its share of them in this order. Only the handler drops events, and only the
oldest, as many as are too many. -/
structure StreamHistory (w : StreamWorld E) : Prop where
  linear : w.removed.map Prod.fst ++ w.eventQueue = w.enqueued
  bounded : w.eventQueue.length ≤ queueLimit
  overflow : ∀ events w', w.act (.handleNewEvents events) = some w' →
    w'.removed = w.removed ++ ((w.eventQueue ++ events).take
      (w.eventQueue.length + events.length - queueLimit)).map (fun e => (e,.overflow))
  noOverflow : ∀ a w', w.act a = some w' → (∀ events, a ≠ .handleNewEvents events) →
    takenBy .overflow w'.removed = takenBy .overflow w.removed
  received : ∀ i, w.received i <+: takenBy (.client i) w.removed
  inOrder : ∀ i, (w.received i).Sublist w.enqueued

section Loops

theorem pushEvents_eq (events queue : List E) : pushEvents events queue = queue ++ events := by
  induction events generalizing queue with
  | nil => exact (List.append_nil queue).symm
  | cons e events ih => simpa [pushEvents] using ih (queue ++ [e])

theorem trimQueue_eq (queue : List E) : trimQueue queue =
    (queue.take (queue.length - queueLimit),queue.drop (queue.length - queueLimit)) := by
  induction queue with
  | nil => rw [trimQueue,List.take_nil,List.drop_nil]
  | cons e queue ih =>
    rw [trimQueue]
    split
    · next hlong =>
      rw [List.length_cons] at hlong
      have hsub : (e :: queue).length - queueLimit = queue.length - queueLimit + 1 := by
        rw [List.length_cons]
        omega
      rw [ih,hsub,List.take_succ_cons,List.drop_succ_cons]
    · next hfits =>
      rw [Nat.sub_eq_zero_of_le (Nat.not_lt.mp hfits),List.take_zero,List.drop_zero]

theorem takeEvents_eq (n : ℕ) (queue : List E) :
    takeEvents n queue = (queue.take n,queue.drop n) := by
  induction n generalizing queue with
  | zero => rfl
  | succ n ih =>
    cases queue with
    | nil => rfl
    | cons e queue =>
      rw [takeEvents,ih]
      rfl

end Loops

/-- What a client was sent and has still to send is what it took. -/
def StreamClient.Holds (received taken : List E) : StreamClient E → Prop
  | .absent | .draining => received = taken
  | .sending eventsToSend => received ++ eventsToSend = taken
  | .gone => received <+: taken

structure StreamInv (w : StreamWorld E) : Prop where
  linear : Linear w.enqueued w.removed w.eventQueue
  bounded : w.eventQueue.length ≤ queueLimit
  holds : ∀ i, (w.clients i).Holds (w.received i) (takenBy (.client i) w.removed)

section Steps
variable {w w' : StreamWorld E}

/-- The handler pushes the events, and drops the oldest of those that are too many. -/
theorem act_handleNewEvents {events : List E} (h : w.act (.handleNewEvents events) = some w') :
    let queue := w.eventQueue ++ events
    let excess := w.eventQueue.length + events.length - queueLimit
    w' = { w with
      eventQueue := queue.drop excess
      enqueued := w.enqueued ++ events
      removed := w.removed ++ (queue.take excess).map (fun e => (e,.overflow)) } := by
  rw [StreamWorld.act,pushEvents_eq,trimQueue_eq,List.length_append] at h
  exact (Option.some.inj h).symm

/-- The other steps: a client takes events from the front, or it takes none. -/
theorem act_cases {a : StreamAction E} (h : w.act a = some w')
    (ha : ∀ events, a ≠ .handleNewEvents events) :
    w'.enqueued = w.enqueued ∧
      ((w'.eventQueue = w.eventQueue ∧ w'.removed = w.removed) ∨
        ∃ i, w'.eventQueue = w.eventQueue.drop eventsAtOnce ∧ w'.removed =
          w.removed ++ (w.eventQueue.take eventsAtOnce).map (fun e => (e,.client i))) := by
  cases a with
  | handleNewEvents events => exact absurd rfl (ha events)
  | connect i | testRunning i =>
    simp only [StreamWorld.act] at h
    split at h
    · cases h
      exact ⟨rfl,.inl ⟨rfl,rfl⟩⟩
    · cases h
  | drain i =>
    simp only [StreamWorld.act,takeEvents_eq] at h
    split at h
    · cases h
      exact ⟨rfl,.inr ⟨i,rfl,rfl⟩⟩
    · cases h
  | send i succeeds =>
    simp only [StreamWorld.act] at h
    split at h
    · split at h
      · cases h
        exact ⟨rfl,.inl ⟨rfl,rfl⟩⟩
      · cases h
        exact ⟨rfl,.inl ⟨rfl,rfl⟩⟩
    · cases h
  | stop =>
    cases h
    exact ⟨rfl,.inl ⟨rfl,rfl⟩⟩

/-- A step of one client that takes nothing. -/
theorem holds_setClient (h : StreamInv w) {i : ℕ} {c : StreamClient E} {received : List E}
    (hc : c.Holds received (takenBy (.client i) w.removed)) (j : ℕ) :
    ((w.setClient i c).clients j).Holds (Function.update w.received i received j)
      (takenBy (.client j) w.removed) := by
  by_cases hj : j = i
  · subst hj
    simpa [StreamWorld.setClient] using hc
  · simpa [StreamWorld.setClient,hj] using h.holds j

theorem holds_handle (h : StreamInv w) (dropped : List E) (i : ℕ) :
    (w.clients i).Holds (w.received i)
      (takenBy (.client i) (w.removed ++ dropped.map (fun e => (e,.overflow)))) := by
  have hnone : takenBy (.client i) (dropped.map (fun e => (e,Remover.overflow))) = [] :=
    takenBy_of_ne (by simp) dropped
  rw [takenBy_append,hnone,List.append_nil]
  exact h.holds i

namespace StreamInv
variable (h : StreamInv w)
include h

theorem holds_of {i : ℕ} {c : StreamClient E} (hc : w.clients i = c) :
    c.Holds (w.received i) (takenBy (.client i) w.removed) := hc ▸ h.holds i

theorem handleNewEvents {events : List E} (hact : w.act (.handleNewEvents events) = some w') :
    StreamInv w' := by
  have hw := act_handleNewEvents hact
  dsimp only at hw
  rw [hw]
  exact
    { linear := by
        apply Linear.remove
        rw [List.take_append_drop]
        exact h.linear.push events
      bounded := by
        rw [List.length_drop,List.length_append]
        omega
      holds := holds_handle h _ }

theorem setClient {i : ℕ} {c : StreamClient E}
    (hc : c.Holds (w.received i) (takenBy (.client i) w.removed)) : StreamInv (w.setClient i c) where
  linear := h.linear
  bounded := h.bounded
  holds := by
    intro j
    have hj := holds_setClient h hc j
    rwa [Function.update_eq_self] at hj

theorem drain {i : ℕ} (hact : w.act (.drain i) = some w') : StreamInv w' := by
  simp only [StreamWorld.act,takeEvents_eq] at hact
  split at hact
  · next hc =>
    have hold : w.received i = takenBy (.client i) w.removed := h.holds_of hc
    let taken := w.eventQueue.take eventsAtOnce
    have hlinear : Linear w.enqueued w.removed (taken ++ w.eventQueue.drop eventsAtOnce) := by
      rw [List.take_append_drop]
      exact h.linear
    cases hact
    exact
      { linear := hlinear.remove (.client i)
        bounded := by
          have hlen := h.bounded
          rw [List.length_drop]
          omega
        holds := by
          intro j
          change (Function.update w.clients i (.sending taken) j).Holds (w.received j)
            (takenBy (.client j) (w.removed ++ taken.map (fun e => (e,.client i))))
          rw [takenBy_append]
          by_cases hj : j = i
          · subst hj
            rw [Function.update_self,takenBy_self,← hold]
            exact rfl
          · have hne : Remover.client i ≠ .client j := fun heq => hj (Remover.client.inj heq).symm
            rw [Function.update_of_ne hj,takenBy_of_ne hne,List.append_nil]
            exact h.holds j }
  · cases hact

theorem step {a : StreamAction E} (hact : w.act a = some w') : StreamInv w' := by
  cases a with
  | handleNewEvents events => exact h.handleNewEvents hact
  | connect i =>
    simp only [StreamWorld.act] at hact
    split at hact
    · next hc =>
      have hold : w.received i = takenBy (.client i) w.removed := h.holds_of hc
      cases hact
      exact h.setClient ((List.append_nil _).trans hold)
    · cases hact
  | testRunning i =>
    simp only [StreamWorld.act] at hact
    split at hact
    · next hc =>
      have hold : w.received i ++ [] = takenBy (.client i) w.removed := h.holds_of hc
      rw [List.append_nil] at hold
      cases hact
      apply h.setClient
      split
      · exact hold
      · exact hold ▸ List.prefix_refl _
    · cases hact
  | drain i => exact h.drain hact
  | send i succeeds =>
    simp only [StreamWorld.act] at hact
    split at hact
    · next e rest hc =>
      have hold : w.received i ++ e :: rest = takenBy (.client i) w.removed := h.holds_of hc
      split at hact
      · cases hact
        have hsent : (StreamClient.sending rest).Holds (w.received i ++ [e])
            (takenBy (.client i) w.removed) := by
          rw [← hold]
          exact List.append_assoc _ [e] rest
        exact { linear := h.linear, bounded := h.bounded, holds := holds_setClient h hsent }
      · cases hact
        apply h.setClient
        rw [← hold]
        exact List.prefix_append _ _
    · cases hact
  | stop =>
    cases hact
    exact { h with }

theorem received (i : ℕ) : w.received i <+: takenBy (.client i) w.removed := by
  have hi := h.holds i
  cases hc : w.clients i with
  | absent | draining =>
    rw [hc] at hi
    exact hi ▸ List.prefix_refl _
  | sending eventsToSend =>
    rw [hc] at hi
    exact hi ▸ List.prefix_append _ _
  | gone =>
    rw [hc] at hi
    exact hi

theorem history : StreamHistory w where
  linear := h.linear
  bounded := h.bounded
  overflow := by
    intro events w' hact
    rw [act_handleNewEvents hact]
  noOverflow := by
    intro a w' hact ha
    rcases (act_cases hact ha).2 with ⟨-,hremoved⟩ | ⟨i,-,hremoved⟩
    · rw [hremoved]
    · have hne : Remover.client i ≠ .overflow := by simp
      rw [hremoved,takenBy_append,takenBy_of_ne hne,List.append_nil]
  received := h.received
  inOrder := by
    intro i
    exact (h.received i).sublist.trans (h.linear.takenBy_sublist (.client i))

end StreamInv
end Steps

theorem StreamInv.start : StreamInv (StreamWorld.start : StreamWorld E) where
  linear := rfl
  bounded := Nat.zero_le _
  holds := fun _ => rfl

/-- In every interleaving of the handler, the clients and the end of the server. -/
theorem streamQueue_history {w : StreamWorld E} (h : (streamSystem E).Reachable w) :
    StreamHistory w := by
  have hinv : StreamInv w := by
    apply h.invariant
    · rintro w rfl
      exact .start
    · intro w a w' hw _ hact
      exact hw.step hact
  exact hinv.history

/-- Two clients share twelve events; the second one has lost its connection. -/
theorem streamQueue_history_two : ∃ w : StreamWorld ℕ, (streamSystem ℕ).Reachable w ∧
    (w.eventQueue,w.removed.length,w.received 0,w.received 1) = ([13],12,[0,1],[]) ∧
      StreamHistory w := by
  have hinit : (streamSystem ℕ).init .start := rfl
  obtain ⟨w,hw,hview⟩ := Transition.System.Reachable.of_replay hinit
    [.connect 0,.connect 1,.handleNewEvents (List.range 12),.testRunning 1,.testRunning 0,.drain 0,
      .send 0 true,.drain 1,.send 1 false,.handleNewEvents [13],.send 0 true]
    (fun w => (w.eventQueue,w.removed.length,w.received 0,w.received 1))
    (v := ([13],12,[0,1],[])) (by decide +kernel)
  exact ⟨w,hw,hview,streamQueue_history hw⟩

end GgmlViz
