import GgmlViz.Concurrent.Machine
import Mathlib.Logic.Relation

/-! # A thread that alone moves

The steps of a call, taken without interruption, are the member function as one thread
computes it. So what is proved of sessions in one thread is proved of the machine's runs in
which every call ends before the next one begins.
-/
namespace GgmlViz
open LittleEndian Relation
variable {L : Type} (text : L → Bytes) (cfg : Config)

/-- One step of a thread, with what consumers have returned so far. -/
def SoloStep (a b : Pc L × Mem L × List (Event L)) : Prop :=
  ∃ os, exec text cfg a.1 a.2.1 = some (b.2.1,b.1,os) ∧ b.2.2 = a.2.2 ++ returnedIn os

/-- The steps that lead a thread from one place to another while no other thread moves. -/
abbrev Solo (a b : Pc L × Mem L × List (Event L)) : Prop := ReflTransGen (SoloStep text cfg) a b

/-- What a call does to the hook and what it returns, when no other thread moves. -/
def Call.alone (s : HookState L) : Call L → Option (HookState L × List (Event L))
  | .record e => some (s.recordEvent text cfg e,[])
  | .hook e k =>
    if s.active then
      match k with
      | .done => some (s.recordEvent text cfg e,[])
      | .graphEndFlush => some ((s.recordEvent text cfg e).graphEndFlush text cfg,[])
    else some (s,[])
  | .consume => s.consumeAvailableEvents
  | .start => some (s.start cfg true,[])
  | .stop => some (s.stop text,[])

variable {text cfg} {s : HookState L} {m : Mem L} {ret : List (Event L)}

theorem SoloStep.quiet {p p' : Pc L} {m m' : Mem L} (os : List (Obs L))
    (hexec : exec text cfg p m = some (m',p',os)) (hos : returnedIn os = []) :
    SoloStep text cfg (p,m,ret) (p',m',ret) :=
  ⟨os,hexec,by rw [hos,List.append_nil]⟩

section Flush
variable (h : Holder) (currentWrite : ℕ) {currentRead : ℕ} {e : Event L} {b : Bool}

theorem solo_field {f g : RecordField} (he : s.eventBuffer (slot currentRead) = e)
    (hnext : e.nextField text f = some g) :
    Solo text cfg (.flushField h currentWrite currentRead f,⟨s,b⟩,ret)
      (.flushField h currentWrite currentRead g,⟨s.fwrite (e.fieldBytes text f),b⟩,ret) := by
  refine .single (.quiet [] ?_ rfl)
  simp only [exec,he,hnext]

theorem solo_lastField {f : RecordField} (he : s.eventBuffer (slot currentRead) = e)
    (hnext : e.nextField text f = none) :
    Solo text cfg (.flushField h currentWrite currentRead f,⟨s,b⟩,ret)
      (Pc.flushNext h currentWrite (currentRead + 1),⟨s.fwrite (e.fieldBytes text f),b⟩,ret) := by
  refine .single (.quiet [.wrote e] ?_ rfl)
  simp only [exec,he,hnext]

theorem solo_fwriteEvent (he : s.eventBuffer (slot currentRead) = e) :
    Solo text cfg (.flushField h currentWrite currentRead .type,⟨s,b⟩,ret)
      (Pc.flushNext h currentWrite (currentRead + 1),⟨s.fwriteEvent text e,b⟩,ret) := by
  have hfixed : Solo text cfg (.flushField h currentWrite currentRead .type,⟨s,b⟩,ret)
      (.flushField h currentWrite currentRead .hasLabel,
        ⟨(((s.fwrite (e.fieldBytes text .type)).fwrite (e.fieldBytes text .timestampNs)).fwrite
          (e.fieldBytes text .threadId)).fwrite (e.fieldBytes text .data),b⟩,ret) :=
    (((solo_field h currentWrite he rfl).trans
      (solo_field h currentWrite (by simpa using he) rfl)).trans
      (solo_field h currentWrite (by simpa using he) rfl)).trans
      (solo_field h currentWrite (by simpa using he) rfl)
  refine hfixed.trans ?_
  unfold HookState.fwriteEvent
  cases hl : e.label with
  | none =>
    simp only [Option.isSome_none,Bool.false_eq_true,if_false]
    exact solo_lastField h currentWrite (by simpa using he) (by simp [Event.nextField,hl])
  | some l =>
    simp only [Option.isSome_some,if_true]
    refine (solo_field h currentWrite (g := .labelLen) (by simpa using he)
      (by simp [Event.nextField,hl])).trans ?_
    exact (solo_field h currentWrite (by simpa using he) rfl).trans
      (solo_lastField h currentWrite (by simpa using he) rfl)

/-- The loop, one round for each position that is behind. -/
theorem solo_flushLoop (n : ℕ) (hn : n = currentWrite - currentRead) :
    Solo text cfg (Pc.flushNext h currentWrite currentRead,⟨s,b⟩,ret)
      (.flushStore h (s.flushLoop text n currentRead).2,⟨(s.flushLoop text n currentRead).1,b⟩,ret) := by
  induction n generalizing currentRead s with
  | zero =>
    rw [Pc.flushNext,if_neg (by omega)]
    exact .refl
  | succ n ih =>
    rw [Pc.flushNext,if_pos (by omega)]
    exact (solo_fwriteEvent h currentWrite rfl).trans (ih (by omega))

theorem solo_flushToFile : Solo text cfg (.flushFile h,⟨s,b⟩,ret)
    (Pc.flushed h,⟨s.flushToFile text,b⟩,ret) := by
  unfold HookState.flushToFile
  cases hout : s.outputFile.isNone with
  | true =>
    refine .single (.quiet [] ?_ rfl)
    simp [exec,hout]
  | false =>
    refine .head (b := (.flushHead h,⟨s,b⟩,ret)) (.quiet [] (by simp [exec,hout]) rfl) ?_
    refine .head (b := (.flushTail h s.writePos,⟨s,b⟩,ret)) (.quiet [] rfl rfl) ?_
    refine .head (b := (Pc.flushNext h s.writePos s.readPos,⟨s,b⟩,ret))
      (.quiet [] rfl rfl) ?_
    exact (solo_flushLoop h s.writePos _ rfl).tail (.quiet [] rfl rfl)

end Flush

theorem solo_lockedFlush (k : After) :
    Solo text cfg (.lock { closes := false, after := k },⟨s,false⟩,ret)
      (Pc.finish cfg k,⟨s.flushToFile text,false⟩,ret) :=
  .head (.quiet [] rfl rfl)
    ((solo_flushToFile { closes := false, after := k }).tail (.quiet [] rfl rfl))

theorem solo_stop (k : After) : Solo text cfg (.stopExchange k,⟨s,false⟩,ret)
    (Pc.finish cfg k,⟨s.stop text,false⟩,ret) := by
  cases hactive : s.active with
  | false =>
    refine .single (.quiet [] ?_ rfl)
    have hsame : ({ s with active := false } : HookState L) = s := by rw [← hactive]
    simp [exec,hactive,hsame,HookState.stop]
  | true =>
    refine .head (b := (.stopTest k,⟨{ s with active := false },false⟩,ret))
      (.quiet [] (by simp [exec,hactive]) rfl) ?_
    cases hout : s.outputFile.isSome with
    | false =>
      refine .single (.quiet [] ?_ rfl)
      simp [exec,hout,hactive,HookState.stop]
    | true =>
      have hstop : s.stop text = (HookState.flushToFile text { s with active := false }).fclose := by
        simp [HookState.stop,hactive,hout]
      rw [hstop]
      refine .head (b := (.lock { closes := true, after := k },⟨{ s with active := false },false⟩,ret))
        (.quiet [] (by simp [exec,hout]) rfl) ?_
      let t : HookState L := ({ s with active := false }).flushToFile text
      refine .head (b := (.flushFile { closes := true, after := k },
        ⟨{ s with active := false },true⟩,ret)) (.quiet [] rfl rfl) ?_
      refine (solo_flushToFile { closes := true, after := k }).trans ?_
      refine .head (b := (.unlock k,⟨t.fclose,true⟩,ret)) (.quiet [] rfl rfl) ?_
      exact .single (.quiet [] rfl rfl)

theorem solo_recordEvent (e : Event L) (k : After) :
    Solo text cfg (.recActive e k,⟨s,false⟩,ret)
      (Pc.finish cfg k,⟨s.recordEvent text cfg e,false⟩,ret) := by
  cases hactive : s.active with
  | false =>
    rw [HookState.recordEvent_inactive hactive]
    exact .single (.quiet [] (by simp [exec,hactive]) rfl)
  | true =>
    rw [HookState.recordEvent,if_neg (by simp [hactive])]
    refine .head (b := (.recLimit e k,⟨s,false⟩,ret))
      (.quiet [] (by simp [exec,hactive]) rfl) ?_
    split
    · next hlimit =>
      exact .head (.quiet [] (by simp [exec,hlimit]) rfl) (solo_stop k)
    · next hlimit =>
      refine .head (b := (.recHead e k,⟨s,false⟩,ret))
        (.quiet [] (by simp [exec,hlimit]) rfl) ?_
      refine .head (b := (.recTail e k s.writePos,⟨s,false⟩,ret)) (.quiet [] rfl rfl) ?_
      dsimp only
      split
      · next hfull =>
        refine .head (b := (.recDrop k (s.writePos - s.readPos),⟨s,false⟩,ret))
          (.quiet [] (by simp [exec,hfull]) rfl) ?_
        exact .single (.quiet [.dropped (s.writePos - s.readPos)] rfl rfl)
      · next hroom =>
        refine .head (b := (.recSlot e k s.writePos,⟨s,false⟩,ret))
          (.quiet [] (by simp [exec,hroom]) rfl) ?_
        refine .head (.quiet [] rfl rfl) ?_
        refine .head (.quiet [.accepted e] rfl rfl) ?_
        refine .head (.quiet [.counted e] rfl rfl) ?_
        dsimp only
        split
        · exact solo_lockedFlush k
        · exact .refl

theorem solo_graphEndFlush : Solo text cfg (Pc.finish cfg .graphEndFlush,⟨s,false⟩,ret)
    (.idle,⟨s.graphEndFlush text cfg,false⟩,ret) := by
  unfold Pc.finish HookState.graphEndFlush
  dsimp only
  split
  · exact solo_lockedFlush .done
  · exact .refl

theorem solo_copy (tail head n : ℕ) {i : ℕ} (hn : n = head - i) (events : List (Event L)) :
    Solo text cfg (Pc.copyNext tail head i events,m,ret) (.conStore tail head
      (events ++ (List.range' i n).map (fun j => m.eventBuffer (slot j))),m,ret) := by
  induction n generalizing i events with
  | zero =>
    rw [Pc.copyNext,if_neg (by omega)]
    simpa using ReflTransGen.refl
  | succ n ih =>
    rw [Pc.copyNext,if_pos (by omega)]
    refine .head (.quiet [] rfl rfl) ?_
    have hrest := ih (i := i + 1) (by omega) (events ++ [m.eventBuffer (slot i)])
    simpa [List.range'_succ] using hrest

theorem solo_consume {t : HookState L} {events : List (Event L)} {b : Bool}
    (h : s.consumeAvailableEvents = some (t,events)) :
    Solo text cfg (.conActive,⟨s,b⟩,ret) (.idle,⟨t,b⟩,ret ++ events) := by
  cases hactive : s.active with
  | false =>
    rw [HookState.consumeAvailableEvents,if_pos (by simp [hactive])] at h
    cases h
    rw [List.append_nil]
    exact .single (.quiet [] (by simp [exec,hactive]) rfl)
  | true =>
    refine .head (b := (.conTail,⟨s,b⟩,ret)) (.quiet [] (by simp [exec,hactive]) rfl) ?_
    refine .head (b := (.conHead s.readPos,⟨s,b⟩,ret)) (.quiet [] rfl rfl) ?_
    rw [HookState.consumeAvailableEvents,if_neg (by simp [hactive])] at h
    dsimp only at h
    split at h
    · next hnone =>
      cases h
      rw [List.append_nil]
      exact .single (.quiet [] (by simp only [exec,if_pos hnone]) rfl)
    · next hsome =>
      split at h
      · cases h
      · next hfits =>
        cases h
        let events := (List.range' s.readPos (s.writePos - s.readPos)).map
          (fun i => s.eventBuffer (slot i))
        refine .head (b := (Pc.copyNext s.readPos s.writePos s.readPos [],⟨s,b⟩,ret))
          (.quiet [] (by simp only [exec,if_neg hsome,if_neg hfits]) rfl) ?_
        refine (solo_copy s.readPos s.writePos _ rfl []).tail ?_
        exact ⟨[.returned events],rfl,by simp [returnedIn,events]⟩

theorem solo_start : Solo text cfg (Call.start.entry cfg,⟨s,false⟩,ret)
    (.idle,⟨s.start cfg true,false⟩,ret) := by
  unfold Call.entry
  cases henabled : cfg.hooksEnabled with
  | false =>
    rw [HookState.start_same (Or.inr henabled)]
    exact .refl
  | true =>
    cases hactive : s.active with
    | true =>
      have hset : ({ s with active := true } : HookState L) = s := by rw [← hactive]
      rw [HookState.start_same (Or.inl hactive)]
      exact .single (.quiet [] (by simp [exec,hactive,hset]) rfl)
    | false =>
      rw [HookState.start_eq henabled hactive]
      let t : HookState L := { s with active := true, eventCount := 0, writePos := 0, readPos := 0,
                                      droppedEvents := 0 }
      have hresets : Solo text cfg (.startExchange,⟨s,false⟩,ret)
          (if cfg.output.writeToFile then .startOpen else .idle,⟨t,false⟩,ret) := by
        refine .head (b := (.startCount,⟨{ s with active := true },false⟩,ret))
          (.quiet [] (by simp [exec,hactive]) rfl) ?_
        refine .head (.quiet [] rfl rfl) (.head (.quiet [] rfl rfl) ?_)
        exact .head (.quiet [] rfl rfl) (.single (.quiet [] rfl rfl))
      refine hresets.trans ?_
      cases hfile : cfg.output.writeToFile with
      | false => exact .refl
      | true =>
        refine .head (.quiet [] rfl rfl) (.head (.quiet [] rfl rfl) ?_)
        refine .single (.quiet [] ?_ rfl)
        simp [exec,traceHeader,HookState.fwrite_fwrite,t]

/-- Every call, taken without interruption, ends as its function does. -/
theorem solo_call {c : Call L} {t : HookState L} {events : List (Event L)}
    (h : c.alone text cfg s = some (t,events)) :
    Solo text cfg (c.entry cfg,⟨s,false⟩,ret) (.idle,⟨t,false⟩,ret ++ events) := by
  cases c with
  | record e =>
    cases h
    rw [List.append_nil]
    exact solo_recordEvent e .done
  | hook e k =>
    simp only [Call.alone] at h
    split at h
    · next hactive =>
      have hrecord : Solo text cfg (.hookActive e k,⟨s,false⟩,ret)
          (Pc.finish cfg k,⟨s.recordEvent text cfg e,false⟩,ret) :=
        .head (.quiet [] (by simp [exec,hactive]) rfl) (solo_recordEvent e k)
      cases k with
      | done =>
        cases h
        rw [List.append_nil]
        exact hrecord
      | graphEndFlush =>
        cases h
        rw [List.append_nil]
        exact hrecord.trans solo_graphEndFlush
    · next hinactive =>
      cases h
      rw [List.append_nil]
      exact .single (.quiet [] (by simp [Call.entry,exec,hinactive]) rfl)
  | consume => exact solo_consume h
  | start =>
    cases h
    rw [List.append_nil]
    exact solo_start
  | stop =>
    cases h
    rw [List.append_nil]
    exact solo_stop .done

/-- The ticks of one thread. -/
abbrev Ticks (text : L → Bytes) (cfg : Config) (t : ℕ) : World L → World L → Prop :=
  ReflTransGen (fun w w' => World.act text cfg (.tick t) w = some w')

/-- What a thread does alone it does in every world: the other threads stay where they are. -/
theorem Solo.ticks {w : World L} {t : ℕ} {b : Pc L × Mem L × List (Event L)}
    (h : Solo text cfg (w.pc t,w.mem,w.returned) b) :
    ∃ w', Ticks text cfg t w w' ∧ w'.pc t = b.1 ∧ w'.mem = b.2.1 ∧ w'.returned = b.2.2 ∧
      ∀ u, u ≠ t → w'.pc u = w.pc u := by
  induction h with
  | refl => exact ⟨w,.refl,rfl,rfl,rfl,fun _ _ => rfl⟩
  | @tail b c _ hstep ih =>
    obtain ⟨w₁,hticks,hpc,hmem,hret,hothers⟩ := ih
    obtain ⟨os,hexec,hnext⟩ := hstep
    rw [← hpc,← hmem] at hexec
    refine ⟨w₁.put t c.2.1 c.1 os,hticks.tail ?_,World.put_pc ..,rfl,?_,?_⟩
    · simp [World.act,hexec]
    · rw [World.put_returned,hret,hnext]
    · intro u hu
      rw [World.put_pc_of_ne _ _ _ _ _ hu]
      exact hothers u hu

/-- A call that no other thread interrupts does what its function does in one thread, and
leaves the lock free. -/
theorem call_alone {w : World L} {t : ℕ} {c : Call L} {s : HookState L} {events : List (Event L)}
    (hidle : w.pc t = .idle) (hfree : w.mem.fileMutex = false)
    (h : c.alone text cfg w.mem.toHookState = some (s,events)) :
    ∃ w₁ w', World.act text cfg (.call t c) w = some w₁ ∧ Ticks text cfg t w₁ w' ∧
      w'.mem = ⟨s,false⟩ ∧ w'.pc t = .idle ∧ w'.returned = w.returned ++ events ∧
      ∀ u, u ≠ t → w'.pc u = w.pc u := by
  let w₁ := w.put t w.mem (c.entry cfg) [.called]
  have hmem : w.mem = ⟨w.mem.toHookState,false⟩ := by rw [← hfree]
  have hsolo : Solo text cfg (w₁.pc t,w₁.mem,w₁.returned) (.idle,⟨s,false⟩,w.returned ++ events) := by
    simp only [w₁,World.put_pc,World.put_mem,World.put_returned,returnedIn_called,List.append_nil]
    rw [hmem]
    exact solo_call h
  obtain ⟨w',hticks,hpc,hmem',hret,hothers⟩ := hsolo.ticks
  refine ⟨w₁,w',by simp [World.act,hidle,w₁],hticks,hmem',hpc,hret,?_⟩
  intro u hu
  rw [hothers u hu]
  exact World.put_pc_of_ne _ _ _ _ _ hu

end GgmlViz
