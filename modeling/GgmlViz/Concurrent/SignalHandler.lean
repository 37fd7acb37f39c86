import GgmlViz.Concurrent.Machine

/-! # Signals

The handlers of `SIGINT` and `SIGTERM` run on the thread that they interrupt, between any
two of its steps, and call `stop()` if the hook is active. They end the process, so the
interrupted code never goes on and never gives back a lock that it holds.
-/
namespace GgmlViz
open LittleEndian
variable {L : Type} (text : L → Bytes) (cfg : Config)

namespace Pc

/-- `file_mutex_` is held here. -/
def locked : Pc L → Bool
  | flushFile _ | flushHead _ | flushTail _ _ | flushField _ _ _ _ | flushStore _ _ => true
  | fclose _ | unlock _ => true
  | _ => false

/-- `stop()` has cleared `active_` and goes on to close the file. -/
def closing : Pc L → Bool
  | stopTest _ | fclose _ => true
  | lock h | flushFile h | flushHead h | flushTail h _ | flushField h _ _ _ | flushStore h _ =>
    h.closes
  | _ => false

/-- `start()` has set `active_`. -/
def starting : Pc L → Bool
  | startCount | startWrite | startRead | startDropped => true
  | startOpen | startMagic | startVersion => true
  | _ => false

/-- In the locked flush of `record_event` or `on_graph_compute_end`. -/
def flushing : Pc L → Bool
  | flushFile h | flushHead h | flushTail h _ | flushField h _ _ _ | flushStore h _ => !h.closes
  | unlock _ => true
  | _ => false

end Pc

theorem Pc.flushing_eq (p : Pc L) : p.flushing = (p.locked && !p.closing) := by
  cases p <;> rfl

/-- The calls of a program with one thread. -/
def onlyThread : Action L → Bool
  | .call t _ => t = 0
  | .tick t => t = 0

/-- The runs of a program with one thread, after the hook was started. -/
def signalSystem : Transition.System (World L) (Action L) :=
  hookSystem text cfg (World.Started cfg) (fun _ => onlyThread)

instance (w : World L) (a : Action L) : Decidable ((signalSystem text cfg).may w a) :=
  inferInstanceAs (Decidable (onlyThread a = true))

/-- The handler after so many steps, if it gets that far. -/
def handlerRun : ℕ → Mem L → Option (Mem L × Pc L)
  | 0, m => some (m,if m.active then .stopExchange .done else .idle)
  | n + 1, m => (handlerRun n m).bind (fun x => (exec text cfg x.2 x.1).map (fun y => (y.1,y.2.1)))

/-- When a signal arrives now, the handler tries to lock only what nobody holds. -/
def SignalSafe (w : World L) : Prop :=
  ∀ n m h, handlerRun text cfg n w.mem = some (m,.lock h) → m.fileMutex = false

/-- What one thread keeps: who holds the lock, and whether the hook is active with a file open. -/
structure SoloInv (m : Mem L) (p : Pc L) : Prop where
  mutex : m.fileMutex = p.locked
  closing : p.closing = true → m.active = false
  starting : p.starting = true → m.active = true
  closed : p.closing = false → m.active = false → m.outputFile = none

section Steps
variable {text : L → Bytes} {cfg : Config} {m m' : Mem L} {p p' : Pc L} {os : List (Obs L)}

variable (L cfg) in
theorem finish_plain (k : After) : (Pc.finish cfg k : Pc L).locked = false ∧
    (Pc.finish cfg k : Pc L).closing = false ∧ (Pc.finish cfg k : Pc L).starting = false :=
  finish_of (P := fun p => p.locked = false ∧ p.closing = false ∧ p.starting = false) k
    ⟨rfl,rfl,rfl⟩ ⟨rfl,rfl,rfl⟩

theorem flushNext_plain (h : Holder) (currentWrite currentRead : ℕ) :
    (Pc.flushNext h currentWrite currentRead : Pc L).locked = true ∧
      (Pc.flushNext h currentWrite currentRead : Pc L).closing = h.closes ∧
        (Pc.flushNext h currentWrite currentRead : Pc L).starting = false :=
  flushNext_of (P := fun p => p.locked = true ∧ p.closing = h.closes ∧ p.starting = false) h
    (fun _ => ⟨rfl,rfl,rfl⟩) (fun _ => ⟨rfl,rfl,rfl⟩)

theorem flushed_plain (h : Holder) : (Pc.flushed h : Pc L).locked = true ∧
    (Pc.flushed h : Pc L).closing = h.closes ∧ (Pc.flushed h : Pc L).starting = false :=
  flushed_of (P := fun p => p.locked = true ∧ p.closing = h.closes ∧ p.starting = false) h
    (fun hc => ⟨rfl,hc.symm,rfl⟩)
    (fun hc => ⟨rfl,((Bool.not_eq_true _).mp hc).symm,rfl⟩)

theorem copyNext_plain (tail head i : ℕ) (events : List (Event L)) :
    (Pc.copyNext tail head i events).locked = false ∧
      (Pc.copyNext tail head i events).closing = false ∧
        (Pc.copyNext tail head i events).starting = false := by
  unfold Pc.copyNext
  split <;> exact ⟨rfl,rfl,rfl⟩

namespace SoloInv

/-- A place outside of the lock, `stop()` and `start()`. -/
theorem plain (hp : p.locked = false ∧ p.closing = false ∧ p.starting = false)
    (hmutex : m.fileMutex = false) (hclosed : m.active = false → m.outputFile = none) :
    SoloInv m p where
  mutex := hmutex.trans hp.1.symm
  closing := fun hclosing => by cases hp.2.1.symm.trans hclosing
  starting := fun hstarting => by cases hp.2.2.symm.trans hstarting
  closed := fun _ => hclosed

variable (h : SoloInv m p)
include h

/-- A step that leaves the lock, the file and `active_` alone. -/
theorem keep (hmem : m'.fileMutex = m.fileMutex ∧ m'.active = m.active ∧
      m'.outputFile = m.outputFile)
    (hp : p'.locked = p.locked ∧ p'.closing = p.closing)
    (hstarting : p'.starting = true → m.active = true) : SoloInv m' p' := by
  obtain ⟨hmutex,hactive,hfile⟩ := hmem
  obtain ⟨hlocked,hclosing⟩ := hp
  exact
    { mutex := by rw [hmutex,hlocked,h.mutex]
      closing := by rw [hactive,hclosing]; exact h.closing
      starting := by rw [hactive]; exact hstarting
      closed := by rw [hactive,hfile,hclosing]; exact h.closed }

/-- The same, to a place outside of the lock, `stop()` and `start()`. -/
theorem keep_plain (hmem : m'.fileMutex = m.fileMutex ∧ m'.active = m.active ∧
      m'.outputFile = m.outputFile)
    (hold : p.locked = false ∧ p.closing = false)
    (hnew : p'.locked = false ∧ p'.closing = false ∧ p'.starting = false) : SoloInv m' p' := by
  obtain ⟨hmutex,hactive,hfile⟩ := hmem
  apply plain hnew
  · rw [hmutex,h.mutex,hold.1]
  · rw [hactive,hfile]
    exact h.closed hold.2

/-- The same, within a flush. -/
theorem keep_flush {holder : Holder} (hmem : m'.fileMutex = m.fileMutex ∧ m'.active = m.active ∧
      m'.outputFile = m.outputFile)
    (hold : p.locked = true ∧ p.closing = holder.closes)
    (hnew : p'.locked = true ∧ p'.closing = holder.closes ∧ p'.starting = false) :
    SoloInv m' p' := by
  apply h.keep hmem
  · exact ⟨hnew.1.trans hold.1.symm,hnew.2.1.trans hold.2.symm⟩
  · intro hstarting
    cases hnew.2.2.symm.trans hstarting

theorem step (hexec : exec text cfg p m = some (m',p',os)) : SoloInv m' p' := by
  cases p with
  | idle => cases hexec
  | hookActive e k | recLimit e k | recTail e k head =>
    simp only [exec] at hexec
    split at hexec <;> cases hexec <;>
      exact h.keep_plain ⟨rfl,rfl,rfl⟩ ⟨rfl,rfl⟩ ⟨rfl,rfl,rfl⟩
  | recActive e k =>
    cases hexec
    apply h.keep_plain ⟨rfl,rfl,rfl⟩ ⟨rfl,rfl⟩
    split
    · exact ⟨rfl,rfl,rfl⟩
    · exact finish_plain L cfg k
  | recHead e k | recSlot e k head | recPublish e k head | conTail =>
    cases hexec
    exact h.keep_plain ⟨rfl,rfl,rfl⟩ ⟨rfl,rfl⟩ ⟨rfl,rfl,rfl⟩
  | recDrop k unread =>
    cases hexec
    exact h.keep_plain ⟨rfl,rfl,rfl⟩ ⟨rfl,rfl⟩ (finish_plain L cfg k)
  | recCount e k =>
    cases hexec
    refine h.keep_plain ?_ ⟨rfl,rfl⟩ ?_
    · exact ⟨rfl,rfl,rfl⟩
    · split
      · exact ⟨rfl,rfl,rfl⟩
      · exact finish_plain L cfg k
  | lock holder =>
    simp only [exec] at hexec
    split at hexec
    · cases hexec
    · cases hexec
      exact { mutex := rfl, closing := h.closing, starting := h.starting, closed := h.closed }
  | flushFile holder =>
    cases hexec
    apply h.keep_flush ⟨rfl,rfl,rfl⟩ ⟨rfl,rfl⟩
    split
    · exact flushed_plain holder
    · exact ⟨rfl,rfl,rfl⟩
  | flushHead holder =>
    cases hexec
    exact h.keep_flush ⟨rfl,rfl,rfl⟩ ⟨rfl,rfl⟩ ⟨rfl,rfl,rfl⟩
  | flushTail holder currentWrite =>
    cases hexec
    exact h.keep_flush ⟨rfl,rfl,rfl⟩ ⟨rfl,rfl⟩ (flushNext_plain holder _ _)
  | flushField holder currentWrite currentRead f =>
    simp only [exec] at hexec
    split at hexec
    · cases hexec
      exact h.keep_flush ⟨rfl,by simp,by simp⟩ ⟨rfl,rfl⟩ ⟨rfl,rfl,rfl⟩
    · cases hexec
      exact h.keep_flush ⟨rfl,by simp,by simp⟩ ⟨rfl,rfl⟩ (flushNext_plain holder _ _)
  | flushStore holder currentRead =>
    cases hexec
    exact h.keep_flush ⟨rfl,rfl,rfl⟩ ⟨rfl,rfl⟩ (flushed_plain holder)
  | fclose k =>
    cases hexec
    exact
      { mutex := h.mutex
        closing := fun hclosing => by cases hclosing
        starting := fun hstarting => by cases hstarting
        closed := fun _ _ => rfl }
  | unlock k =>
    cases hexec
    exact plain (finish_plain L cfg k) rfl (h.closed rfl)
  | stopExchange k =>
    cases hexec
    cases hactive : m.active with
    | false =>
      rw [if_neg Bool.false_ne_true]
      exact plain (finish_plain L cfg k) h.mutex (fun _ => h.closed rfl hactive)
    | true =>
      exact
        { mutex := h.mutex
          closing := fun _ => rfl
          starting := fun hs => by cases hs
          closed := fun hc => by cases hc }
  | stopTest k =>
    cases hexec
    cases hout : m.outputFile with
    | none => exact plain (finish_plain L cfg k) h.mutex (fun _ => hout)
    | some name =>
      exact
        { mutex := h.mutex
          closing := fun _ => h.closing rfl
          starting := fun hs => by cases hs
          closed := fun hc => by cases hc }
  | conActive =>
    cases hexec
    apply h.keep_plain ⟨rfl,rfl,rfl⟩ ⟨rfl,rfl⟩
    split <;> exact ⟨rfl,rfl,rfl⟩
  | conHead tail =>
    simp only [exec] at hexec
    split at hexec
    · cases hexec
      exact h.keep_plain ⟨rfl,rfl,rfl⟩ ⟨rfl,rfl⟩ ⟨rfl,rfl,rfl⟩
    · split at hexec
      · cases hexec
        exact h.keep_plain ⟨rfl,rfl,rfl⟩ ⟨rfl,rfl⟩ ⟨rfl,rfl,rfl⟩
      · cases hexec
        exact h.keep_plain ⟨rfl,rfl,rfl⟩ ⟨rfl,rfl⟩ (copyNext_plain _ _ _ _)
  | conCopy tail head i events =>
    cases hexec
    exact h.keep_plain ⟨rfl,rfl,rfl⟩ ⟨rfl,rfl⟩ (copyNext_plain _ _ _ _)
  | conStore tail head events =>
    cases hexec
    exact h.keep_plain ⟨rfl,rfl,rfl⟩ ⟨rfl,rfl⟩ ⟨rfl,rfl,rfl⟩
  | startExchange =>
    cases hexec
    exact
      { mutex := by split <;> exact h.mutex
        closing := fun hc => by split at hc <;> cases hc
        starting := fun _ => rfl
        closed := fun _ hactive => by cases hactive }
  | startCount | startWrite | startRead =>
    cases hexec
    exact h.keep ⟨rfl,rfl,rfl⟩ ⟨rfl,rfl⟩ (fun _ => h.starting rfl)
  | startDropped =>
    cases hexec
    refine h.keep ?_ ?_ (fun _ => h.starting rfl)
    · exact ⟨rfl,rfl,rfl⟩
    · split <;> exact ⟨rfl,rfl⟩
  | startOpen =>
    cases hexec
    have hactive : m.active = true := h.starting rfl
    exact
      { mutex := h.mutex
        closing := fun hc => by cases hc
        starting := fun _ => hactive
        closed := fun _ hinactive => by cases hactive.symm.trans hinactive }
  | startMagic =>
    cases hexec
    exact h.keep ⟨rfl,by simp,by simp⟩ ⟨rfl,rfl⟩ (fun _ => h.starting rfl)
  | startVersion =>
    cases hexec
    exact h.keep_plain ⟨rfl,by simp,by simp⟩ ⟨rfl,rfl⟩ ⟨rfl,rfl,rfl⟩

/-- The lock is held, and the hook is active with a file, exactly in the flush of a hook call. -/
theorem hangs_iff : m.fileMutex = true ∧ m.active = true ∧ m.outputFile.isSome = true ↔
    p.flushing = true ∧ m.outputFile.isSome = true := by
  rw [Pc.flushing_eq,h.mutex]
  constructor
  · rintro ⟨hlocked,hactive,hout⟩
    have hclosing : p.closing = false := by
      cases hc : p.closing with
      | false => rfl
      | true => cases hactive.symm.trans (h.closing hc)
    exact ⟨by rw [hlocked,hclosing]; rfl,hout⟩
  · rintro ⟨hflush,hout⟩
    simp only [Bool.and_eq_true,Bool.not_eq_true'] at hflush
    obtain ⟨hlocked,hclosing⟩ := hflush
    refine ⟨hlocked,?_,hout⟩
    cases hactive : m.active with
    | true => rfl
    | false =>
      rw [h.closed hclosing hactive] at hout
      cases hout

end SoloInv
end Steps

section Handler
variable {m : Mem L}

variable {text cfg} in
theorem handlerRun_succ {n : ℕ} {x : Mem L × Pc L} (h : handlerRun text cfg (n + 1) m = some x) :
    ∃ y os, handlerRun text cfg n m = some y ∧ exec text cfg y.2 y.1 = some (x.1,x.2,os) := by
  obtain ⟨y,hy,hx⟩ := Option.bind_eq_some_iff.mp h
  obtain ⟨⟨m',p',os⟩,hexec,rfl⟩ := Option.map_eq_some_iff.mp hx
  exact ⟨y,os,hy,hexec⟩

theorem handlerRun_inactive (h : m.active = false) (n : ℕ) {x : Mem L × Pc L}
    (hx : handlerRun text cfg n m = some x) : x.2 = .idle := by
  induction n generalizing x with
  | zero =>
    rw [handlerRun,h] at hx
    cases hx
    rfl
  | succ n ih =>
    obtain ⟨y,os,hy,hexec⟩ := handlerRun_succ hx
    rw [ih hy] at hexec
    cases hexec

/-- The first steps of `stop()`: it clears `active_` and looks at the file. -/
theorem handlerRun_two (h : m.active = true) : handlerRun text cfg 2 m =
    some ({ m with active := false },
      if m.outputFile.isSome then .lock { closes := true, after := .done } else .idle) := by
  simp [handlerRun,exec,h,Pc.finish]

/-- Without a file the handler does not lock. -/
theorem handlerRun_noFile (hactive : m.active = true) (hout : m.outputFile = none) (n : ℕ)
    {x : Mem L × Pc L} (hx : handlerRun text cfg n m = some x) (h : Holder) : x.2 ≠ .lock h := by
  have hlate : ∀ k, handlerRun text cfg (k + 3) m = none := by
    intro k
    induction k with
    | zero =>
      have htwo := handlerRun_two text cfg hactive
      rw [hout] at htwo
      rw [handlerRun,htwo]
      rfl
    | succ k ih =>
      rw [handlerRun,ih]
      rfl
  match n with
  | 0 =>
    rw [handlerRun,if_pos hactive] at hx
    cases hx
    simp
  | 1 =>
    simp only [handlerRun,hactive,if_true,exec,Option.bind_some,Option.map_some] at hx
    cases hx
    simp
  | 2 =>
    rw [handlerRun_two text cfg hactive,hout] at hx
    cases hx
    simp
  | k + 3 => cases (hlate k).symm.trans hx

/-- Where the lock is free, the handler keeps the invariant. -/
theorem soloInv_handlerRun (hfree : m.fileMutex = false) (hactive : m.active = true) (n : ℕ)
    {x : Mem L × Pc L} (hx : handlerRun text cfg n m = some x) : SoloInv x.1 x.2 := by
  induction n generalizing x with
  | zero =>
    rw [handlerRun,if_pos hactive] at hx
    cases hx
    exact
      { mutex := hfree
        closing := fun hc => by cases hc
        starting := fun hs => by cases hs
        closed := fun _ hinactive => by cases hactive.symm.trans hinactive }
  | succ n ih =>
    obtain ⟨y,os,hy,hexec⟩ := handlerRun_succ hx
    exact (ih hy).step hexec

/-- A signal is safe exactly if it does not find the lock held by code that leaves the hook
active and the file open. -/
theorem signalSafe_iff_mem (w : World L) : SignalSafe text cfg w ↔
    ¬(w.mem.fileMutex = true ∧ w.mem.active = true ∧ w.mem.outputFile.isSome = true) := by
  constructor
  · rintro h ⟨hlocked,hactive,hout⟩
    have htwo := handlerRun_two text cfg hactive
    rw [if_pos hout] at htwo
    have hfree : w.mem.fileMutex = false := h 2 { w.mem with active := false } _ htwo
    cases hlocked.symm.trans hfree
  · intro h n m holder hrun
    cases hactive : w.mem.active with
    | false => cases handlerRun_inactive text cfg hactive n hrun
    | true =>
      cases hlocked : w.mem.fileMutex with
      | false => exact (soloInv_handlerRun text cfg hlocked hactive n hrun).mutex
      | true =>
        have hout : w.mem.outputFile = none := by
          cases hfile : w.mem.outputFile with
          | none => rfl
          | some name => exact absurd ⟨hlocked,hactive,by rw [hfile]; rfl⟩ h
        exact absurd rfl (handlerRun_noFile text cfg hactive hout n hrun holder)

end Handler

section Runs
variable {text cfg} {w w' : World L}

theorem SoloInv.started (hw : World.Started cfg w) : SoloInv w.mem (w.pc 0) := by
  obtain ⟨s,hinactive,hout,rfl⟩ := hw
  exact
    { mutex := rfl
      closing := fun hc => by cases hc
      starting := fun hs => by cases hs
      closed := by
        intro _ hactive
        change (s.start cfg true).active = false at hactive
        change (s.start cfg true).outputFile = none
        revert hactive
        unfold HookState.start
        split
        · exact fun _ => hout
        · split
          · exact fun _ => hout
          · dsimp only
            split
            · intro hactive
              simp [HookState.fopen] at hactive
            · exact fun hactive => by cases hactive }

theorem SoloInv.act {a : Action L} (h : SoloInv w.mem (w.pc 0)) (hmay : onlyThread a = true)
    (hact : World.act text cfg a w = some w') : SoloInv w'.mem (w'.pc 0) := by
  cases a with
  | call t c =>
    obtain rfl : t = 0 := of_decide_eq_true hmay
    obtain ⟨hidle,rfl⟩ := World.act_call hact
    rw [hidle] at h
    rw [World.put_mem,World.put_pc]
    apply h.keep_plain ⟨rfl,rfl,rfl⟩ ⟨rfl,rfl⟩
    cases c with
    | record e | hook e k | consume | stop => exact ⟨rfl,rfl,rfl⟩
    | start =>
      unfold Call.entry
      dsimp only
      split <;> exact ⟨rfl,rfl,rfl⟩
  | tick t =>
    obtain rfl : t = 0 := of_decide_eq_true hmay
    obtain ⟨m,p,os,hexec,rfl⟩ := World.act_tick hact
    rw [World.put_mem,World.put_pc]
    exact h.step hexec

theorem soloInv_reachable (h : (signalSystem text cfg).Reachable w) :
    SoloInv w.mem (w.pc 0) := by
  apply h.invariant
  · exact fun w hw => .started hw
  · exact fun w a w' hw hmay hact => hw.act hmay hact

/-- In every run of one thread a signal is safe exactly outside of the locked flush of
`record_event` and `on_graph_compute_end` with a file open. -/
theorem signalSafe_iff (h : (signalSystem text cfg).Reachable w) : SignalSafe text cfg w ↔
    (w.mem.outputFile.isSome = true → (w.pc 0).flushing = false) := by
  rw [signalSafe_iff_mem,(soloInv_reachable h).hangs_iff]
  cases (w.pc 0).flushing with
  | false => simp
  | true => simp

end Runs

section GraphEnd

theorem started_default : (signalSystem (fun _ => []) Config.defaultConfig).init
    (World.started Config.defaultConfig (HookState.initial (fun _ => none)) : World Unit) :=
  ⟨_,rfl,rfl,rfl⟩

/-- The end of a graph is recorded, and its flush has locked the mutex. -/
def graphEndLocked : List (Action Unit) :=
  .call 0 (.hook HookState.zeroEvent .graphEndFlush) :: List.replicate 9 (.tick 0)

theorem signalSafe_iff_graphEnd : ∃ w : World Unit,
    (signalSystem (fun _ => []) Config.defaultConfig).Reachable w ∧
      (w.mem.outputFile.isSome,(w.pc 0).flushing) = (true,true) ∧
        (SignalSafe (fun _ => []) Config.defaultConfig w ↔
          (w.mem.outputFile.isSome = true → (w.pc 0).flushing = false)) := by
  obtain ⟨w,hw,hview⟩ := Transition.System.Reachable.of_replay started_default graphEndLocked
    (fun w => (w.mem.outputFile.isSome,(w.pc 0).flushing)) (v := (true,true)) (by decide +kernel)
  exact ⟨w,hw,hview,signalSafe_iff hw⟩

/-- A signal during the flush at the end of a graph. -/
theorem not_signalSafe_graphEnd : ¬∀ (text : Unit → Bytes) (cfg : Config) (w : World Unit),
    (signalSystem text cfg).Reachable w → SignalSafe text cfg w := by
  intro hall
  obtain ⟨w,hw,hview⟩ := Transition.System.Reachable.of_replay started_default graphEndLocked
    (fun w => (w.mem.fileMutex,w.mem.active,w.mem.outputFile.isSome)) (v := (true,true,true))
    (by decide +kernel)
  apply (signalSafe_iff_mem _ _ w).mp (hall _ _ w hw)
  exact ⟨congrArg Prod.fst hview,congrArg (fun x => x.2.1) hview,congrArg (fun x => x.2.2) hview⟩

end GraphEnd
end GgmlViz
