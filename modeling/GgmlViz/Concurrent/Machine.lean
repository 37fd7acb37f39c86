import GgmlViz.Hook.Recorder
import GgmlViz.Foundation.Transition

/-! # The hook as several threads run it

Every member function is cut into its single shared accesses: one load, one store, one
slot copied, one `fwrite`. A thread is a program counter with the local variables of the
function it is in; the members of the hook are shared. What a thread did that a property
speaks about is kept in a log.
-/
namespace GgmlViz
open LittleEndian
variable {L : Type}

/-- What follows a call of `record_event`: nothing, or the flush at the end of a graph. -/
inductive After
  | done
  | graphEndFlush
  deriving DecidableEq, Repr

/-- Why the lock is held: `stop()` closes the file after its flush. -/
structure Holder where
  closes : Bool
  after : After
  deriving DecidableEq, Repr

/-- The next shared access of a thread. -/
inductive Pc (L : Type)
  | idle
  -- on_graph_compute_begin/end, on_op_compute_begin/end
  | hookActive (e : Event L) (k : After)
  -- record_event
  | recActive (e : Event L) (k : After)
  | recLimit (e : Event L) (k : After)
  | recHead (e : Event L) (k : After)
  | recTail (e : Event L) (k : After) (head : ℕ)
  | recDrop (k : After) (unread : ℕ)
  | recSlot (e : Event L) (k : After) (head : ℕ)
  | recPublish (e : Event L) (k : After) (head : ℕ)
  | recCount (e : Event L) (k : After)
  -- flush_to_file under the lock
  | lock (h : Holder)
  | flushFile (h : Holder)
  | flushHead (h : Holder)
  | flushTail (h : Holder) (currentWrite : ℕ)
  | flushField (h : Holder) (currentWrite currentRead : ℕ) (f : RecordField)
  | flushStore (h : Holder) (currentRead : ℕ)
  | fclose (k : After)
  | unlock (k : After)
  -- stop
  | stopExchange (k : After)
  | stopTest (k : After)
  -- consume_available_events
  | conActive
  | conTail
  | conHead (tail : ℕ)
  | conCopy (tail head i : ℕ) (events : List (Event L))
  | conStore (tail head : ℕ) (events : List (Event L))
  -- start
  | startExchange
  | startCount
  | startWrite
  | startRead
  | startDropped
  | startOpen
  | startMagic
  | startVersion

/-- What a step contributed. -/
inductive Obs (L : Type)
  | called
  /-- `write_pos` was stored for this event. -/
  | accepted (e : Event L)
  /-- `event_count` was incremented for this event. -/
  | counted (e : Event L)
  /-- An event was dropped; so many were unread when the producer loaded `read_pos`. -/
  | dropped (unread : ℕ)
  /-- The last field of this event was written to the file. -/
  | wrote (e : Event L)
  /-- A consumer stored `read_pos` and returns these events. -/
  | returned (events : List (Event L))
  /-- `events.reserve` threw. -/
  | threw

/-- The members of the hook, and the mutex. -/
structure Mem (L : Type) extends HookState L where
  fileMutex : Bool

section Exec
variable (text : L → Bytes) (cfg : Config)

/-- Where a call of `record_event` returns to. -/
def Pc.finish : After → Pc L
  | .done => .idle
  | .graphEndFlush =>
    if cfg.output.writeToFile then .lock { closes := false, after := .done } else .idle

/-- After `flush_to_file`, with the lock still held. -/
def Pc.flushed (h : Holder) : Pc L := if h.closes then .fclose h.after else .unlock h.after

/-- The test of the `while` loop of `flush_to_file`. -/
def Pc.flushNext (h : Holder) (currentWrite currentRead : ℕ) : Pc L :=
  if currentRead < currentWrite then .flushField h currentWrite currentRead .type
  else .flushStore h currentRead

/-- The test of the `for` loop of `consume_available_events`. -/
def Pc.copyNext (tail head i : ℕ) (events : List (Event L)) : Pc L :=
  if i < head then .conCopy tail head i events else .conStore tail head events

/-- One shared access. A thread that waits for the lock, or that is idle, has none. -/
def exec : Pc L → Mem L → Option (Mem L × Pc L × List (Obs L))
  | .idle, _ => none
  | .hookActive e k, m => some (m,if m.active then .recActive e k else .idle,[])
  | .recActive e k, m => some (m,if m.active then .recLimit e k else Pc.finish cfg k,[])
  | .recLimit e k, m =>
    some (m,if cfg.instrumentation.maxEvents.toNat ≤ m.eventCount then .stopExchange k
      else .recHead e k,[])
  | .recHead e k, m => some (m,.recTail e k m.writePos,[])
  | .recTail e k head, m =>
    if slot (increment head) = slot m.readPos then
      some (m,.recDrop k (m.writePos - m.readPos),[])
    else some (m,.recSlot e k head,[])
  | .recDrop k unread, m =>
    some ({ m with droppedEvents := increment m.droppedEvents },Pc.finish cfg k,[.dropped unread])
  | .recSlot e k head, m =>
    some ({ m with eventBuffer := Function.update m.eventBuffer (slot head) e },
      .recPublish e k head,[])
  | .recPublish e k head, m =>
    some ({ m with writePos := increment head },.recCount e k,[.accepted e])
  | .recCount e k, m =>
    let newCount := increment m.eventCount
    some ({ m with eventCount := newCount },
      if cfg.output.writeToFile && newCount &&& 0xFFF = 0 then .lock { closes := false, after := k }
      else Pc.finish cfg k,[.counted e])
  | .lock h, m => if m.fileMutex then none else some ({ m with fileMutex := true },.flushFile h,[])
  | .flushFile h, m => some (m,if m.outputFile.isNone then Pc.flushed h else .flushHead h,[])
  | .flushHead h, m => some (m,.flushTail h m.writePos,[])
  | .flushTail h currentWrite, m => some (m,Pc.flushNext h currentWrite m.readPos,[])
  | .flushField h currentWrite currentRead f, m =>
    let e := m.eventBuffer (slot currentRead)
    let m' := { m with toHookState := m.toHookState.fwrite (e.fieldBytes text f) }
    match e.nextField text f with
    | some g => some (m',.flushField h currentWrite currentRead g,[])
    | none => some (m',Pc.flushNext h currentWrite (currentRead + 1),[.wrote e])
  | .flushStore h currentRead, m => some ({ m with readPos := currentRead },Pc.flushed h,[])
  | .fclose k, m => some ({ m with outputFile := none },.unlock k,[])
  | .unlock k, m => some ({ m with fileMutex := false },Pc.finish cfg k,[])
  | .stopExchange k, m =>
    some ({ m with active := false },if m.active then .stopTest k else Pc.finish cfg k,[])
  | .stopTest k, m =>
    some (m,if m.outputFile.isSome then .lock { closes := true, after := k } else Pc.finish cfg k,[])
  | .conActive, m => some (m,if m.active then .conTail else .idle,[])
  | .conTail, m => some (m,.conHead m.readPos,[])
  | .conHead tail, m =>
    let head := m.writePos
    -- `head - tail` in 64 bits
    let available := (head + 2 ^ 64 - tail) % 2 ^ 64
    if available = 0 then some (m,.idle,[])
    else if HookState.maxBatch < available then some (m,.idle,[.threw])
    else some (m,Pc.copyNext tail head tail [],[])
  | .conCopy tail head i events, m =>
    some (m,Pc.copyNext tail head (i + 1) (events ++ [m.eventBuffer (slot i)]),[])
  | .conStore _ head events, m => some ({ m with readPos := head },.idle,[.returned events])
  | .startExchange, m => some ({ m with active := true },if m.active then .idle else .startCount,[])
  | .startCount, m => some ({ m with eventCount := 0 },.startWrite,[])
  | .startWrite, m => some ({ m with writePos := 0 },.startRead,[])
  | .startRead, m => some ({ m with readPos := 0 },.startDropped,[])
  | .startDropped, m =>
    some ({ m with droppedEvents := 0 },if cfg.output.writeToFile then .startOpen else .idle,[])
  | .startOpen, m =>
    some ({ m with toHookState := m.toHookState.fopen cfg.output.filename },.startMagic,[])
  | .startMagic, m => some ({ m with toHookState := m.toHookState.fwrite magic },.startVersion,[])
  | .startVersion, m =>
    some ({ m with toHookState := m.toHookState.fwrite (leBytes 4 formatVersion) },.idle,[])

end Exec

section Places
variable {P : Pc L → Prop} {cfg : Config}

/-- A call of `record_event` returns to an idle thread or to the flush at the graph end. -/
theorem finish_of (k : After) (hidle : P .idle)
    (hlock : P (.lock { closes := false, after := .done })) : P (Pc.finish cfg k) := by
  cases k with
  | done => exact hidle
  | graphEndFlush =>
    unfold Pc.finish
    dsimp only
    split
    · exact hlock
    · exact hidle

theorem flushed_of (h : Holder) (hclose : h.closes = true → P (.fclose h.after))
    (hunlock : ¬h.closes = true → P (.unlock h.after)) : P (Pc.flushed h) := by
  unfold Pc.flushed
  split
  · next hc => exact hclose hc
  · next hc => exact hunlock hc

theorem flushNext_of (h : Holder) {currentWrite currentRead : ℕ}
    (hfield : currentRead < currentWrite → P (.flushField h currentWrite currentRead .type))
    (hstore : currentWrite ≤ currentRead → P (.flushStore h currentRead)) :
    P (Pc.flushNext h currentWrite currentRead) := by
  unfold Pc.flushNext
  split
  · next hlt => exact hfield hlt
  · next hge => exact hstore (Nat.le_of_not_lt hge)

end Places

/-- A call that a thread can make. -/
inductive Call (L : Type)
  | record (e : Event L)
  | hook (e : Event L) (k : After)
  | consume
  | start
  | stop

/-- Where a call begins. -/
def Call.entry (cfg : Config) : Call L → Pc L
  | .record e => .recActive e .done
  | .hook e k => .hookActive e k
  | .consume => .conActive
  | .start => if cfg.hooksEnabled then .startExchange else .idle
  | .stop => .stopExchange .done

/-- The hook, its threads, and what they did so far. -/
structure World (L : Type) where
  mem : Mem L
  pc : ℕ → Pc L
  log : List (ℕ × Obs L)

/-- An idle thread makes a call, or a thread takes its next step. -/
inductive Action (L : Type)
  | call (t : ℕ) (c : Call L)
  | tick (t : ℕ)

/-- The world after a step of one thread. -/
def World.put (w : World L) (t : ℕ) (m : Mem L) (p : Pc L) (os : List (Obs L)) : World L :=
  { mem := m, pc := Function.update w.pc t p, log := w.log ++ os.map (fun o => (t,o)) }

section System
variable (text : L → Bytes) (cfg : Config)

def World.act : Action L → World L → Option (World L)
  | .call t c, w =>
    match w.pc t with
    | .idle => some (w.put t w.mem (c.entry cfg) [.called])
    | _ => none
  | .tick t, w => (exec text cfg (w.pc t) w.mem).map (fun (m,p,os) => w.put t m p os)

/-- The runs that begin in these worlds and in which threads make these calls only. -/
def hookSystem (init : World L → Prop) (may : World L → Action L → Bool) :
    Transition.System (World L) (Action L) where
  init := init
  may w a := may w a = true
  act := World.act text cfg

instance (init : World L → Prop) (may : World L → Action L → Bool) (w : World L) (a : Action L) :
    Decidable ((hookSystem text cfg init may).may w a) :=
  inferInstanceAs (Decidable (may w a = true))

end System

section Contributions

/-- The events whose position was published, in that order. -/
def acceptedIn (obs : List (Obs L)) : List (Event L) :=
  obs.filterMap (fun o => match o with | .accepted e => some e | _ => none)

def wroteIn (obs : List (Obs L)) : List (Event L) :=
  obs.filterMap (fun o => match o with | .wrote e => some e | _ => none)

/-- The batches returned, one after the other. -/
def returnedIn (obs : List (Obs L)) : List (Event L) :=
  obs.flatMap (fun o => match o with | .returned es => es | _ => [])

/-- How many events were unread, for each event that was dropped. -/
def droppedIn (obs : List (Obs L)) : List ℕ :=
  obs.filterMap (fun o => match o with | .dropped n => some n | _ => none)

@[simp] theorem acceptedIn_called : acceptedIn ([.called] : List (Obs L)) = [] := rfl
@[simp] theorem wroteIn_called : wroteIn ([.called] : List (Obs L)) = [] := rfl
@[simp] theorem returnedIn_called : returnedIn ([.called] : List (Obs L)) = [] := rfl
@[simp] theorem droppedIn_called : droppedIn ([.called] : List (Obs L)) = [] := rfl

variable (xs ys : List (Obs L))

@[simp] theorem acceptedIn_append : acceptedIn (xs ++ ys) = acceptedIn xs ++ acceptedIn ys :=
  List.filterMap_append
@[simp] theorem wroteIn_append : wroteIn (xs ++ ys) = wroteIn xs ++ wroteIn ys :=
  List.filterMap_append
@[simp] theorem returnedIn_append : returnedIn (xs ++ ys) = returnedIn xs ++ returnedIn ys :=
  List.flatMap_append
@[simp] theorem droppedIn_append : droppedIn (xs ++ ys) = droppedIn xs ++ droppedIn ys :=
  List.filterMap_append

end Contributions

namespace World

/-- What all threads contributed, in the order of the steps. -/
def obs (w : World L) : List (Obs L) := w.log.map Prod.snd

def accepted (w : World L) : List (Event L) := acceptedIn w.obs
def wrote (w : World L) : List (Event L) := wroteIn w.obs
def returned (w : World L) : List (Event L) := returnedIn w.obs
def dropped (w : World L) : List ℕ := droppedIn w.obs

/-- The slots from the read position to the write position. -/
def unread (w : World L) : List (Event L) :=
  (List.range' w.mem.readPos (w.mem.writePos - w.mem.readPos)).map
    (fun i => w.mem.eventBuffer (slot i))

/-- `start()` was called on an inactive hook whose file is closed, and no call is under way. -/
def started (cfg : Config) (s : HookState L) : World L :=
  { mem := { toHookState := s.start cfg true, fileMutex := false }, pc := fun _ => .idle, log := [] }

/-- The worlds after a successful `start()`. -/
def Started (cfg : Config) (w : World L) : Prop :=
  ∃ s : HookState L, s.active = false ∧ s.outputFile = none ∧ w = started cfg s

section Put
variable (w : World L) (t : ℕ) (m : Mem L) (p : Pc L) (os : List (Obs L))

@[simp] theorem put_mem : (w.put t m p os).mem = m := rfl
@[simp] theorem put_pc : (w.put t m p os).pc t = p := Function.update_self ..
@[simp] theorem put_pc_of_ne {u : ℕ} (h : u ≠ t) : (w.put t m p os).pc u = w.pc u :=
  Function.update_of_ne h ..
theorem put_obs : (w.put t m p os).obs = w.obs ++ os := by simp [put,obs,Function.comp_def]
@[simp] theorem put_accepted : (w.put t m p os).accepted = w.accepted ++ acceptedIn os := by
  rw [accepted,put_obs,acceptedIn_append,accepted]
@[simp] theorem put_wrote : (w.put t m p os).wrote = w.wrote ++ wroteIn os := by
  rw [wrote,put_obs,wroteIn_append,wrote]
@[simp] theorem put_returned : (w.put t m p os).returned = w.returned ++ returnedIn os := by
  rw [returned,put_obs,returnedIn_append,returned]
@[simp] theorem put_dropped : (w.put t m p os).dropped = w.dropped ++ droppedIn os := by
  rw [dropped,put_obs,droppedIn_append,dropped]

end Put

variable {text : L → Bytes} {cfg : Config} {w w' : World L} {t : ℕ}

theorem act_call {c : Call L} (h : act text cfg (.call t c) w = some w') :
    w.pc t = .idle ∧ w' = w.put t w.mem (c.entry cfg) [.called] := by
  simp only [act] at h
  split at h
  · next hidle => exact ⟨hidle,(Option.some.inj h).symm⟩
  · cases h

theorem act_tick (h : act text cfg (.tick t) w = some w') :
    ∃ m p os, exec text cfg (w.pc t) w.mem = some (m,p,os) ∧ w' = w.put t m p os := by
  obtain ⟨⟨m,p,os⟩,hexec,rfl⟩ := Option.map_eq_some_iff.mp h
  exact ⟨m,p,os,hexec,rfl⟩

end World
end GgmlViz
