import GgmlViz.Hook.RingLog
import GgmlViz.Foundation.LeadingRun
import GgmlViz.Foundation.Transition

/-! # Draining by timestamp

`get_events_size` returns unread events up to the first one that is too new, and
`consume_available_events` returns all of them. Both move the read position.
-/
namespace GgmlViz
open LittleEndian RingWindow LeadingRun
variable {L : Type}

namespace HookState

/-- The loop of `get_events_size` from a position on, for so many positions. -/
def drainLoop (timestampNs : UInt64) : ℕ → ℕ → HookState L → List (Event L)
  | 0, _, _ => []
  | n + 1, i, s =>
    let e := s.eventBuffer (slot i)
    if e.timestampNs ≤ timestampNs then e :: drainLoop timestampNs n (i + 1) s else []

/-- `get_events_size` -/
def getEventsSize (timestampNs : UInt64) (s : HookState L) : HookState L × List (Event L) :=
  if !s.active then (s,[])
  else
    let head := s.writePos
    let tail := s.readPos
    let events := s.drainLoop timestampNs (head - tail) tail
    ({ s with readPos := (tail + events.length) % 2^64 },events)

end HookState

/-- What the thread of the hook may do. -/
inductive RingCall (L : Type)
  | start (opens : Bool)
  | stop
  | record (e : Event L)
  | graphEndFlush
  | consume
  | getEventsSize (timestampNs : UInt64)

/-- The hook, what its session has recorded, and what drains returned and flushes wrote. -/
structure RingRun (L : Type) where
  hook : HookState L
  recorded : List (Event L)
  delivered : List (Event L)

namespace RingRun
variable (text : L → Bytes)

/-- The hook goes on: it may store an event and write what is unread. -/
def advance (s : HookState L) (r : RingRun L) : RingRun L where
  hook := s
  recorded := r.recorded ++ r.hook.storedSince s
  delivered := r.delivered ++ cells bufferSize s.eventBuffer r.hook.readPos s.readPos

/-- A drain returned these events. -/
def drained (r : RingRun L) (x : HookState L × List (Event L)) : RingRun L :=
  { r with hook := x.1, delivered := r.delivered ++ x.2 }

/-- A call, with the configuration of its moment. -/
def step : Config × RingCall L → RingRun L → Option (RingRun L)
  | (cfg,.start opens), r =>
    if r.hook.active || !cfg.hooksEnabled then some r
    else some { hook := r.hook.start cfg opens, recorded := [], delivered := [] }
  | (_,.stop), r => some (r.advance (r.hook.stop text))
  | (cfg,.record e), r => some (r.advance (r.hook.recordEvent text cfg e))
  | (cfg,.graphEndFlush), r => some (r.advance (r.hook.graphEndFlush text cfg))
  | (_,.consume), r => r.hook.consumeAvailableEvents.map r.drained
  | (_,.getEventsSize t), r => some (r.drained (r.hook.getEventsSize t))

def unread (r : RingRun L) : List (Event L) := r.recorded.drop r.hook.readPos

end RingRun

/-- One thread runs the hook. -/
def ringSystem (text : L → Bytes) : Transition.System (RingRun L) (Config × RingCall L) where
  init r := ∃ files, r = { hook := HookState.initial files, recorded := [], delivered := [] }
  may _ _ := True
  act := RingRun.step text

instance (text : L → Bytes) (r : RingRun L) (x : Config × RingCall L) :
    Decidable ((ringSystem text).may r x) := inferInstanceAs (Decidable True)

/-- No event is lost or delivered twice, and draining up to one timestamp and then up to a later
one is draining up to the later one. -/
structure DrainsCompose (r : RingRun L) : Prop where
  once : r.recorded = r.delivered ++ r.unread
  compose : ∀ t₁ t₂ : UInt64, t₁ ≤ t₂ → ∀ s₁ es₁ s₂ es₂, r.hook.getEventsSize t₁ = (s₁,es₁) →
    s₁.getEventsSize t₂ = (s₂,es₂) → r.hook.getEventsSize t₂ = (s₂,es₁ ++ es₂)

/-- A drain by timestamp returns all unread events up to the first one that is too new, and a
drain of everything returns the others. -/
structure DrainsUnread (r : RingRun L) : Prop where
  longest : ∀ t s es, r.hook.getEventsSize t = (s,es) →
    IsLongestRun (fun e => e.timestampNs ≤ t) r.unread es
  rest : ∀ t s es, r.hook.getEventsSize t = (s,es) → ∃ s' others,
    s.consumeAvailableEvents = some (s',others) ∧ r.unread = es ++ others ∧
      s'.readPos = r.recorded.length

/-- The drains return nothing, and leave the hook alone. -/
structure DrainsNothing (r : RingRun L) : Prop where
  byTimestamp : ∀ t, r.hook.getEventsSize t = (r.hook,[])
  everything : r.hook.consumeAvailableEvents = some (r.hook,[])

variable {text : L → Bytes} {recorded : List (Event L)} {s : HookState L} {r : RingRun L}

section Drain

theorem drainLoop_eq (t : UInt64) (lo n : ℕ) (s : HookState L) : s.drainLoop t n lo =
    (cells bufferSize s.eventBuffer lo (lo + n)).takeWhile (fun e => decide (e.timestampNs ≤ t)) := by
  induction n generalizing lo with
  | zero => simp [HookState.drainLoop]
  | succ n ih =>
    have hcells : cells bufferSize s.eventBuffer lo (lo + (n + 1)) =
        s.eventBuffer (slot lo) :: cells bufferSize s.eventBuffer (lo + 1) (lo + 1 + n) := by
      simp only [cells,slot_eq_mod,Nat.add_sub_cancel_left,List.range'_succ,List.map_cons]
    rw [HookState.drainLoop,hcells,List.takeWhile_cons,ih]
    by_cases hnew : (s.eventBuffer (slot lo)).timestampNs ≤ t
    · simp [hnew]
    · simp [hnew]

theorem getEventsSize_inactive (hactive : s.active = false) (t : UInt64) :
    s.getEventsSize t = (s,[]) := by
  simp [HookState.getEventsSize,hactive]

/-- An active hook returns the longest run, and has read as much. -/
theorem RingSince.getEventsSize (h : RingLog recorded s) (hactive : s.active = true) (t : UInt64) :
    ∃ es, s.getEventsSize t = ({ s with readPos := s.readPos + es.length },es) ∧
      IsLongestRun (fun e => e.timestampNs ≤ t) (recorded.drop s.readPos) es := by
  have hle := h.readPos_le_writePos
  have hsmall := h.small
  have hposition := h.position
  let es := (recorded.drop s.readPos).takeWhile (fun e => decide (e.timestampNs ≤ t))
  have hes : s.drainLoop t (s.writePos - s.readPos) s.readPos = es := by
    rw [drainLoop_eq,Nat.add_sub_of_le hle,h.unread_eq]
  have hlen : es.length ≤ recorded.length - s.readPos := by
    have hprefix := (List.takeWhile_prefix (l := recorded.drop s.readPos)
      (fun e => decide (e.timestampNs ≤ t))).length_le
    rwa [List.length_drop] at hprefix
  refine ⟨es,?_,?_⟩
  · rw [HookState.getEventsSize,if_neg (by simp [hactive])]
    simp only [hes]
    rw [Nat.mod_eq_of_lt (by omega)]
  · have hrun := isLongestRun_takeWhile (fun e : Event L => decide (e.timestampNs ≤ t))
      (recorded.drop s.readPos)
    simpa only [decide_eq_true_eq] using hrun

/-- Two drains by timestamp are one, if the second is not up to an earlier timestamp. -/
theorem RingSince.getEventsSize_compose (h : RingLog recorded s) {t₁ t₂ : UInt64} (hle : t₁ ≤ t₂) :
    (s.getEventsSize t₂) = ((((s.getEventsSize t₁).1).getEventsSize t₂).1,
      (s.getEventsSize t₁).2 ++ (((s.getEventsSize t₁).1).getEventsSize t₂).2) := by
  cases hactive : s.active with
  | false => simp [getEventsSize_inactive hactive]
  | true =>
    obtain ⟨es₁,hfirst,hrun₁⟩ := h.getEventsSize hactive t₁
    obtain ⟨es,hboth,hrun⟩ := h.getEventsSize hactive t₂
    obtain ⟨rest,hrest⟩ := hrun₁.isPrefix
    let s₁ : HookState L := { s with readPos := s.readPos + es₁.length }
    have hlen : s.readPos + es₁.length ≤ s.writePos := by
      have hle := hrun₁.isPrefix.length_le
      have hread := h.readPos_le
      rw [List.length_drop] at hle
      rw [h.position]
      omega
    have h₁ : RingSince s.readPos recorded s₁ := h.read rfl rfl rfl (Nat.le_add_right _ _) hlen
    obtain ⟨es₂,hsecond,hrun₂⟩ := h₁.now.getEventsSize hactive t₂
    have hdrop : recorded.drop s₁.readPos = rest := by
      rw [← List.drop_drop,← hrest,List.drop_left]
    rw [hdrop] at hrun₂
    rw [← hrest] at hrun₁ hrun
    have hes : es = es₁ ++ es₂ := hrun.eq (hrun₁.append (fun e he => UInt64.le_trans he hle) hrun₂)
    have hs₂ : (s₁.getEventsSize t₂).1 = { s with readPos := s.readPos + es.length } := by
      rw [hsecond,hes,List.length_append,← Nat.add_assoc]
    rw [hboth,hfirst]
    change _ = ((s₁.getEventsSize t₂).1,es₁ ++ (s₁.getEventsSize t₂).2)
    rw [hs₂,hsecond,hes]

end Drain

/-- The ring holds what is unread, and the rest was delivered. -/
structure RingInv (r : RingRun L) : Prop where
  log : RingLog r.recorded r.hook
  delivered : r.delivered = r.recorded.take r.hook.readPos

namespace RingInv

theorem initial (files : Bytes → Option Bytes) :
    RingInv ({ hook := HookState.initial files, recorded := [], delivered := [] } : RingRun L) where
  log := ringLog_zero rfl rfl rfl
  delivered := rfl

theorem advance (h : RingInv r)
    (hs : RingSince r.hook.readPos (r.recorded ++ r.hook.storedSince s) s) : RingInv (r.advance s) where
  log := hs.now
  delivered := by
    change r.delivered ++ cells bufferSize s.eventBuffer r.hook.readPos s.readPos =
      (r.recorded ++ r.hook.storedSince s).take s.readPos
    have htake : r.recorded.take r.hook.readPos =
        (r.recorded ++ r.hook.storedSince s).take r.hook.readPos :=
      (List.take_append_of_le_length h.log.readPos_le).symm
    rw [h.delivered,hs.cells_eq,htake,← List.take_add,Nat.add_sub_of_le hs.lo_le]

/-- A drain of events from the front of the unread ones. -/
theorem drained (h : RingInv r) {es : List (Event L)} (hes : es <+: r.unread) :
    RingInv (r.drained ({ r.hook with readPos := r.hook.readPos + es.length },es)) where
  log := by
    have hlen := hes.length_le
    have hread := h.log.readPos_le
    rw [RingRun.unread,List.length_drop] at hlen
    have hwrite : r.hook.readPos + es.length ≤ r.hook.writePos := by
      rw [h.log.position]
      omega
    have hlog : RingSince r.hook.readPos r.recorded
        { r.hook with readPos := r.hook.readPos + es.length } :=
      h.log.read rfl rfl rfl (Nat.le_add_right _ _) hwrite
    exact hlog.now
  delivered := by
    change r.delivered ++ es = r.recorded.take (r.hook.readPos + es.length)
    rw [h.delivered,List.take_add]
    congr 1
    exact List.prefix_iff_eq_take.mp hes

theorem drained_nil (h : RingInv r) : RingInv (r.drained (r.hook,[])) :=
  h.drained List.nil_prefix

theorem consume (h : RingInv r) {x : HookState L × List (Event L)}
    (hconsume : r.hook.consumeAvailableEvents = some x) : RingInv (r.drained x) := by
  cases hactive : r.hook.active with
  | false =>
    rw [HookState.consumeAvailableEvents_inactive hactive] at hconsume
    cases hconsume
    exact h.drained_nil
  | true =>
    rw [h.log.consume hactive] at hconsume
    cases hconsume
    have hwrite : r.hook.writePos = r.hook.readPos + r.unread.length := by
      have hle := h.log.readPos_le
      rw [RingRun.unread,List.length_drop,h.log.position]
      omega
    have hall : ({ r.hook with readPos := r.hook.writePos },r.recorded.drop r.hook.readPos) =
        ({ r.hook with readPos := r.hook.readPos + r.unread.length },r.unread) :=
      congrArg (fun n => ({ r.hook with readPos := n },r.unread)) hwrite
    rw [hall]
    exact h.drained (List.prefix_refl _)

theorem getEventsSize (h : RingInv r) (t : UInt64) : RingInv (r.drained (r.hook.getEventsSize t)) := by
  cases hactive : r.hook.active with
  | false =>
    rw [getEventsSize_inactive hactive]
    exact h.drained_nil
  | true =>
    obtain ⟨es,hdrain,hrun⟩ := h.log.getEventsSize hactive t
    rw [hdrain]
    exact h.drained hrun.isPrefix

theorem step (h : RingInv r) (x : Config × RingCall L) {r' : RingRun L}
    (hstep : r.step text x = some r') : RingInv r' := by
  obtain ⟨cfg,call⟩ := x
  cases call with
  | start opens =>
    rw [RingRun.step] at hstep
    split at hstep
    · cases hstep
      exact h
    · next hfresh =>
      cases hstep
      rw [Bool.not_eq_true,Bool.or_eq_false_iff,Bool.not_eq_false'] at hfresh
      exact { log := ringLog_start hfresh.1 hfresh.2 opens, delivered := List.take_nil.symm }
  | stop =>
    cases hstep
    apply h.advance
    rw [HookState.storedSince,if_pos (HookState.stop_writePos r.hook),List.append_nil]
    exact h.log.stop
  | record e =>
    cases hstep
    exact h.advance (h.log.recordEvent e)
  | graphEndFlush =>
    cases hstep
    apply h.advance
    rw [HookState.storedSince_graphEndFlush,HookState.storedSince,if_pos rfl,List.append_nil]
    exact h.log.graphEndFlush
  | consume =>
    obtain ⟨x,hconsume,rfl⟩ := Option.map_eq_some_iff.mp hstep
    exact h.consume hconsume
  | getEventsSize t =>
    cases hstep
    exact h.getEventsSize t

end RingInv

theorem ringInv_reachable (h : (ringSystem text).Reachable r) : RingInv r := by
  apply h.invariant
  · rintro r ⟨files,rfl⟩
    exact RingInv.initial files
  · exact fun r x r' hr _ hstep => hr.step x hstep

section Laws
variable (h : RingInv r)
include h

theorem RingInv.drainsCompose : DrainsCompose r where
  once := by
    rw [h.delivered]
    exact (List.take_append_drop _ _).symm
  compose := by
    intro t₁ t₂ hle s₁ es₁ s₂ es₂ hfirst hsecond
    rw [h.log.getEventsSize_compose hle,hfirst]
    dsimp only
    rw [hsecond]

theorem RingInv.drainsUnread (hactive : r.hook.active = true) : DrainsUnread r where
  longest := by
    intro t s es hdrain
    obtain ⟨es',hdrain',hrun⟩ := h.log.getEventsSize hactive t
    cases hdrain.symm.trans hdrain'
    exact hrun
  rest := by
    intro t s es hdrain
    obtain ⟨es',hdrain',hrun⟩ := h.log.getEventsSize hactive t
    cases hdrain.symm.trans hdrain'
    have hnext := h.drained hrun.isPrefix
    obtain ⟨others,hothers⟩ := hrun.isPrefix
    have hdrop : r.recorded.drop (r.hook.readPos + es.length) = others := by
      rw [← List.drop_drop,← hothers,List.drop_left]
    refine ⟨{ r.hook with readPos := r.hook.writePos },others,?_,hothers.symm,h.log.position⟩
    rw [← hdrop]
    exact hnext.log.consume hactive

omit h in
theorem drainsNothing (hactive : r.hook.active = false) : DrainsNothing r where
  byTimestamp := getEventsSize_inactive hactive
  everything := HookState.consumeAvailableEvents_inactive hactive

end Laws

/-- In every run of one thread drains by timestamp compose, and while the hook is active they
return what is unread. -/
theorem drains_reachable (h : (ringSystem text).Reachable r) : DrainsCompose r ∧
    (r.hook.active = true → DrainsUnread r) ∧ (r.hook.active = false → DrainsNothing r) :=
  ⟨(ringInv_reachable h).drainsCompose,(ringInv_reachable h).drainsUnread,drainsNothing⟩

section Runs

/-- An event of this time. -/
def eventAt (timestampNs : UInt64) : Event Unit :=
  { (HookState.zeroEvent : Event Unit) with timestampNs := timestampNs }

/-- No file, and one event. -/
def oneEvent : Config :=
  { Config.defaultConfig with
    output := { Config.defaultConfig.output with writeToFile := false }
    instrumentation := { Config.defaultConfig.instrumentation with maxEvents := 1 } }

theorem ringSystem_init : (ringSystem (fun _ : Unit => [])).init
    { hook := HookState.initial (fun _ => none), recorded := [], delivered := [] } :=
  ⟨_,rfl⟩

/-- The second of three events is newer than the third, and a drain has returned the first. -/
def outOfOrder : List (Config × RingCall Unit) :=
  [(Config.defaultConfig,.start true),(Config.defaultConfig,.record (eventAt 5)),
    (Config.defaultConfig,.record (eventAt 9)),(Config.defaultConfig,.record (eventAt 7)),
    (Config.defaultConfig,.getEventsSize 7)]

theorem drains_reachable_outOfOrder : ∃ r, (ringSystem (fun _ : Unit => [])).Reachable r ∧
    (r.delivered.map Event.timestampNs,r.unread.map Event.timestampNs) = ([5],[9,7]) ∧
      DrainsCompose r ∧ (r.hook.active = true → DrainsUnread r) ∧
        (r.hook.active = false → DrainsNothing r) := by
  obtain ⟨r,hr,hview⟩ := Transition.System.Reachable.of_replay ringSystem_init outOfOrder
    (fun r => (r.delivered.map Event.timestampNs,r.unread.map Event.timestampNs)) (v := ([5],[9,7]))
    (by decide +kernel)
  exact ⟨r,hr,hview,drains_reachable hr⟩

/-- The second event stops the session, with the first one unread. -/
def stoppedUnread : List (Config × RingCall Unit) :=
  [(oneEvent,.start true),(oneEvent,.record (eventAt 5)),(oneEvent,.record (eventAt 6))]

theorem not_drainsUnread_stopped : ¬∀ (text : Unit → Bytes) (r : RingRun Unit),
    (ringSystem text).Reachable r → DrainsCompose r ∧ DrainsUnread r := by
  intro hall
  obtain ⟨r,hr,hview⟩ := Transition.System.Reachable.of_replay ringSystem_init stoppedUnread
    (fun r => (r.hook.active,r.unread.map Event.timestampNs)) (v := (false,[5])) (by decide +kernel)
  have hactive : r.hook.active = false := congrArg Prod.fst hview
  have hunread : r.unread.map Event.timestampNs = [5] := congrArg Prod.snd hview
  have hrun := (hall _ r hr).2.longest 5 r.hook [] (getEventsSize_inactive hactive 5)
  have hold : ∀ e ∈ r.unread, e.timestampNs ≤ 5 := by
    intro e he
    have hmem := List.mem_map_of_mem (f := Event.timestampNs) he
    rw [hunread,List.mem_singleton] at hmem
    exact UInt64.le_of_eq hmem
  have hnil := List.prefix_nil.mp (hrun.longest r.unread (List.prefix_refl _) hold)
  rw [hnil] at hunread
  cases hunread

end Runs
end GgmlViz
