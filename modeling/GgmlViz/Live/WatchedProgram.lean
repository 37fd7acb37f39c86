import GgmlViz.Hook.AutoStart
import GgmlViz.Hook.NestedCalls
import GgmlViz.Live.GrowingFile
import GgmlViz.Foundation.Transition

/-! # A program and its viewer

One process records a program of interposed calls into its trace file, another follows the
file in live mode. The two run at the same time: between any two steps of the program the
file system may have seen any part of what was written, the viewer may look at the file, and
the recorder may be killed.
-/
namespace GgmlViz
open LittleEndian Nesting LiveState Recent

/-- What the recording thread does between two originals. -/
inductive Visit
  | enter (c : ProgramCall)
  | leave (c : ProgramCall)

namespace Visit
variable (cfg : Config)

def run (outputSet : Bool) : Visit → HookState Ptr → HookState Ptr
  | .enter c, s => c.before cfg true outputSet s
  | .leave c, s => c.after cfg s

/-- The callbacks of a visit. -/
def steps : Visit → List HookStep
  | .enter c => c.override.before
  | .leave c => c.override.after

def events (x : Visit) : List (Event Ptr) := HookStep.eventsOf cfg x.steps

end Visit

namespace Program

/-- The visits of a program, in order. -/
def visitList (p : Program) : List Visit := p.visits (fun c => [.enter c]) (fun c => [.leave c])

theorem events_visitList (cfg : Config) (p : Program) :
    p.visitList.flatMap (Visit.events cfg) = p.events cfg := by
  rw [visitList,Calls.flatMap_visits]
  simp only [List.flatMap_singleton]
  rfl

end Program

inductive RecorderStage
  | before
  | recording
  /-- `stop()` writes the last events and closes the file. -/
  | stopping
  | exited
  /-- Ended before `stop()` has closed the file. -/
  | killed
  deriving DecidableEq

namespace RecorderStage

/-- The trace file is open. -/
def writes : RecorderStage → Bool
  | recording | stopping => true
  | _ => false

end RecorderStage

/-- The two processes and the file between them. -/
structure Watching where
  stage : RecorderStage
  hook : HookState Ptr
  /-- The visits so far, and those that are left. -/
  past : List Visit
  todo : List Visit
  /-- What the file system has of the trace file. -/
  disk : Option Bytes
  viewer : LiveState
  /-- A call of `update_live_data` that has looked at the file and not yet read it. -/
  pending : Option FileView

inductive WatchAction
  /-- The recorder starts its hook. -/
  | start
  | visit
  /-- More of what was written reaches the file system. -/
  | write (bs : Bytes)
  /-- The recorder comes to its end, be it in the middle of its program. -/
  | stop (m : Moment)
  | exit
  | kill
  | stat (checkStart now : ℕ) (mtime : ℤ)
  | read

namespace Watching
variable (cfg : TracingConfig) (outputSet : Bool)

def written (w : Watching) : Option Bytes := w.hook.files cfg.output.filename

/-- What the calls have offered to the hook. -/
def offered (w : Watching) : List (Event Ptr) := w.past.flatMap (Visit.events cfg.toConfig)

def act : WatchAction → Watching → Option Watching
  | .start, w =>
    if w.stage = .before then
      some { w with stage := .recording, hook := w.hook.start cfg.toConfig true, disk := some [] }
    else none
  | .visit, w =>
    match w.stage, w.todo with
    | .recording, x :: xs =>
      some { w with hook := x.run cfg.toConfig outputSet w.hook, past := w.past ++ [x], todo := xs }
    | _, _ => none
  | .write bs, w =>
    if w.stage.writes = true ∧ w.disk.getD [] <+: bs ∧ bs <+: (w.written cfg).getD [] then
      some { w with disk := some bs }
    else none
  | .stop m, w =>
    if w.stage = .recording then some { w with stage := .stopping, hook := w.hook.stop m.text }
    else none
  | .exit, w =>
    -- `fclose` has written all
    if w.stage = .stopping then some { w with stage := .exited, disk := w.written cfg } else none
  | .kill, w => if w.stage.writes = true then some { w with stage := .killed } else none
  | .stat checkStart now mtime, w =>
    if w.pending.isNone then
      some { w with pending := some { checkStart, now, mtime, atStat := w.disk, atRead := none } }
    else none
  | .read, w =>
    w.pending.map fun v =>
      { w with
        viewer := w.viewer.updateLiveData (FileView.poll { v with atRead := w.disk })
        pending := none }

end Watching

/-- The program is about to begin, and the viewer is told to follow its trace file. -/
def watchSystem (cfg : TracingConfig) (files : Bytes → Option Bytes) (p : Program)
    (outputSet : Bool) (env : Option Bytes) : Transition.System Watching WatchAction where
  init w := w =
    { stage := .before, hook := HookState.initial files, past := [], todo := p.visitList
      disk := files cfg.output.filename
      viewer := LiveState.start.enableLiveMode cfg.output.filename env
      pending := none }
  may _ _ := True
  act := Watching.act cfg outputSet

section Decoding
variable {es : List (Event Ptr)} {rs : List Bytes}

theorem decoded_records (h : List.Forall₂ IsRecord rs es) :
    (decoded (traceHeader ++ rs.flatten)).map Event.bare = es.map Event.bare := by
  obtain ⟨loaded,hforms,hbare,-⟩ := exists_loaded h
  rw [decoded,openFile_records hforms]
  exact hbare

/-- Any beginning of a trace file holds the first events of it. -/
theorem decoded_beginning (h : List.Forall₂ IsRecord rs es) {bs : Bytes} (hh : HasHeader bs)
    (hbs : bs <+: traceHeader ++ rs.flatten) :
    (decoded bs).map Event.bare <+: es.map Event.bare := by
  have hfirst := decoded_prefix hbs hh
  rw [← decoded_records h]
  exact hfirst.map Event.bare

end Decoding

section Recorder
variable {cfg : TracingConfig} {outputSet : Bool} {s : HookState Ptr}
  {offered : List (Event Ptr)} {name : Bytes}

/-- An active hook runs the callbacks of a visit and nothing else. -/
theorem Visit.run_active (h : s.active = true) (x : Visit) :
    x.run cfg.toConfig outputSet s = HookStep.runAll cfg.toConfig x.steps s := by
  cases x with
  | enter c =>
    have hstarts : c.override.starts outputSet s = false := by simp [Override.starts,h]
    rw [Visit.run,ProgramCall.before,hstarts]
    exact if_pos h
  | leave c => exact if_pos h

/-- A session is kept by a visit. -/
theorem Visit.session (x : Visit) (h : SessionState IsRecord cfg.toConfig offered s)
    (hactive : s.active = true) :
    SessionState IsRecord cfg.toConfig (offered ++ x.events cfg.toConfig)
      (x.run cfg.toConfig outputSet s) := by
  rw [Visit.run_active hactive]
  exact h.runAll cfg.writes x.steps

end Recorder

/-- A program stays within the event limit. -/
def Program.WithinLimit (cfg : TracingConfig) (p : Program) : Prop :=
  (p.events cfg.toConfig).length ≤ cfg.instrumentation.maxEvents.toNat

instance (cfg : TracingConfig) (p : Program) : Decidable (p.WithinLimit cfg) :=
  inferInstanceAs (Decidable (_ ≤ _))

theorem Appended.refl (a : Option Bytes) : Appended a a := fun x hx => ⟨x,hx,List.prefix_refl x⟩

namespace Watching
variable {cfg : TracingConfig} {files : Bytes → Option Bytes} {p : Program} {w : Watching}

/-- What the viewer has read is on the disk, and so is what it found with `stat`. -/
def Follows (w : Watching) : Prop :=
  match w.pending with
  | none => TailInv w.disk w.viewer
  | some v => TailInv v.atStat w.viewer ∧ Appended v.atStat w.disk

theorem Follows.lastRead (h : w.Follows) : Appended w.viewer.lastRead w.disk := by
  unfold Follows at h
  split at h
  · exact h.lastRead
  · exact h.1.lastRead.trans h.2

theorem Follows.shown (h : w.Follows) : w.viewer.shown = w.viewer.seen.rtake maxEvents := by
  unfold Follows at h
  split at h
  · exact h.shown
  · exact h.1.shown

/-- More on the disk does not change that, whatever becomes of the recorder. -/
theorem Follows.grow (h : w.Follows) {w' : Watching} (hviewer : w'.viewer = w.viewer)
    (hpending : w'.pending = w.pending) (hdisk : Appended w.disk w'.disk) : w'.Follows := by
  unfold Follows at h ⊢
  rw [hpending,hviewer]
  split at h
  · exact { h with lastRead := h.lastRead.trans hdisk }
  · exact ⟨h.1,h.2.trans hdisk⟩

/-- The recorder is in its session, and the disk has a part of what was written. -/
inductive Records (cfg : TracingConfig) (files : Bytes → Option Bytes) (w : Watching) : Prop
  | before (hstage : w.stage = .before) (hhook : w.hook = HookState.initial files)
    (hpast : w.past = []) (hdisk : w.disk = none)
  | recording (hstage : w.stage = .recording ∨ w.stage = .killed)
    (hsession : SessionState IsRecord cfg.toConfig (w.offered cfg) w.hook) {bs : Bytes}
    (hdisk : w.disk = some bs) (hwritten : bs <+: (w.written cfg).getD [])
  | stopping (hstage : w.stage = .stopping ∨ w.stage = .killed)
    (hrecorded : Recorded IsRecord cfg.toConfig (w.offered cfg) w.hook) {bs : Bytes}
    (hdisk : w.disk = some bs) (hwritten : bs <+: (w.written cfg).getD [])
  | exited (hstage : w.stage = .exited)
    (hrecorded : Recorded IsRecord cfg.toConfig (w.offered cfg) w.hook)
    (hdisk : w.disk = w.written cfg)

structure Inv (cfg : TracingConfig) (files : Bytes → Option Bytes) (p : Program) (w : Watching) :
    Prop where
  visits : w.past ++ w.todo = p.visitList
  records : w.Records cfg files
  follows : w.Follows

theorem Inv.offered_prefix (h : Inv cfg files p w) : w.offered cfg <+: p.events cfg.toConfig := by
  rw [← Program.events_visitList,← h.visits,List.flatMap_append]
  exact List.prefix_append _ _

theorem Inv.session (h : Inv cfg files p w) (hlimit : p.WithinLimit cfg)
    (hsession : SessionState IsRecord cfg.toConfig (w.offered cfg) w.hook) :
    w.hook.active = true :=
  hsession.active (h.offered_prefix.length_le.trans hlimit)

section Steps
variable {w' : Watching} {outputSet : Bool}

/-- A recorder that is not stopping is in its session. -/
theorem Records.session (h : w.Records cfg files) (hstage : w.stage = .recording) :
    SessionState IsRecord cfg.toConfig (w.offered cfg) w.hook ∧
      ∃ bs, w.disk = some bs ∧ bs <+: (w.written cfg).getD [] := by
  cases h with
  | before hbefore => cases hstage.symm.trans hbefore
  | recording _ hsession hdisk hwritten => exact ⟨hsession,_,hdisk,hwritten⟩
  | stopping hstopping =>
    rcases hstopping with hstopping | hkilled
    · cases hstage.symm.trans hstopping
    · cases hstage.symm.trans hkilled
  | exited hexited => cases hstage.symm.trans hexited

/-- A recorder that is stopping has recorded all. -/
theorem Records.recorded (h : w.Records cfg files) (hstage : w.stage = .stopping) :
    Recorded IsRecord cfg.toConfig (w.offered cfg) w.hook ∧
      ∃ bs, w.disk = some bs ∧ bs <+: (w.written cfg).getD [] := by
  cases h with
  | before hbefore => cases hstage.symm.trans hbefore
  | stopping _ hrecorded hdisk hwritten => exact ⟨hrecorded,_,hdisk,hwritten⟩
  | recording hrecording =>
    rcases hrecording with hrecording | hkilled
    · cases hstage.symm.trans hrecording
    · cases hstage.symm.trans hkilled
  | exited hexited => cases hstage.symm.trans hexited

/-- While the file is open the disk may have any beginning of it, also when the recorder is
killed. -/
theorem Records.still (h : w.Records cfg files) (hwrites : w.stage.writes = true)
    {stage : RecorderStage} (hstage : stage = w.stage ∨ stage = .killed) {bs : Bytes}
    (hbs : bs <+: (w.written cfg).getD []) :
    { w with stage, disk := some bs }.Records cfg files := by
  cases hw : w.stage with
  | recording =>
    rw [hw] at hstage
    exact .recording hstage (h.session hw).1 rfl hbs
  | stopping =>
    rw [hw] at hstage
    exact .stopping hstage (h.recorded hw).1 rfl hbs
  | before | exited | killed =>
    rw [hw] at hwrites
    cases hwrites

theorem Records.exists_disk (h : w.Records cfg files) (hwrites : w.stage.writes = true) :
    ∃ bs, w.disk = some bs ∧ bs <+: (w.written cfg).getD [] := by
  cases hw : w.stage with
  | recording => exact (h.session hw).2
  | stopping => exact (h.recorded hw).2
  | before | exited | killed =>
    rw [hw] at hwrites
    cases hwrites

theorem Inv.start (h : Inv cfg files p w) (hact : act cfg outputSet .start w = some w') :
    Inv cfg files p w' := by
  obtain ⟨hstage,hw'⟩ := Option.ite_none_right_eq_some.mp hact
  cases hw'
  cases h.records with
  | before _ hhook hpast hdisk =>
    have hsession : SessionState IsRecord cfg.toConfig [] (w.hook.start cfg.toConfig true) := by
      rw [hhook]
      exact .inl (recording_start cfg.enabled cfg.writes rfl)
    have hoffered : w.offered cfg = [] := by rw [offered,hpast]; rfl
    exact
      { visits := h.visits
        records := .recording (.inl rfl) (hoffered ▸ hsession) rfl List.nil_prefix
        follows := h.follows.grow rfl rfl (hdisk ▸ Appended.of_none _) }
  | recording hothers | stopping hothers =>
    rcases hothers with hother | hother <;> cases hstage.symm.trans hother
  | exited hexited => cases hstage.symm.trans hexited

theorem Inv.visit (h : Inv cfg files p w) (hlimit : p.WithinLimit cfg)
    (hact : act cfg outputSet .visit w = some w') : Inv cfg files p w' := by
  simp only [act] at hact
  split at hact
  · next x xs hstage htodo =>
    cases hact
    obtain ⟨hsession,bs,hdisk,hwritten⟩ := h.records.session hstage
    have hactive := h.session hlimit hsession
    have hgrows : Grows cfg.output.filename w.hook (x.run cfg.toConfig outputSet w.hook) := by
      rw [Visit.run_active hactive]
      exact grows_runAll x.steps w.hook
    have hoffered : (w.past ++ [x]).flatMap (Visit.events cfg.toConfig) =
        w.offered cfg ++ x.events cfg.toConfig := by
      rw [List.flatMap_append,List.flatMap_singleton]
      rfl
    exact
      { visits := by rw [← h.visits,htodo,List.append_assoc]; rfl
        records := .recording (.inl hstage) (by
          show SessionState _ _ ((w.past ++ [x]).flatMap _) _
          rw [hoffered]
          exact x.session hsession hactive) hdisk (hwritten.trans hgrows)
        follows := h.follows.grow rfl rfl (Appended.refl _) }
  · cases hact

theorem Inv.write (h : Inv cfg files p w) {bs : Bytes}
    (hact : act cfg outputSet (.write bs) w = some w') : Inv cfg files p w' := by
  obtain ⟨⟨hwrites,hmore,hbs⟩,hw'⟩ := Option.ite_none_right_eq_some.mp hact
  cases hw'
  obtain ⟨d,hdisk,-⟩ := h.records.exists_disk hwrites
  rw [hdisk,Option.getD_some] at hmore
  exact
    { visits := h.visits
      records := h.records.still hwrites (.inl rfl) hbs
      follows := h.follows.grow rfl rfl (hdisk ▸ Appended.of_prefix hmore) }

theorem Inv.stop (h : Inv cfg files p w) (hlimit : p.WithinLimit cfg) {m : Moment}
    (hact : act cfg outputSet (.stop m) w = some w') : Inv cfg files p w' := by
  obtain ⟨hstage,hw'⟩ := Option.ite_none_right_eq_some.mp hact
  cases hw'
  obtain ⟨hsession,bs,hdisk,hwritten⟩ := h.records.session hstage
  have hrecorded := hsession.stop (isRecord_encode m)
  rw [List.take_of_length_le (h.offered_prefix.length_le.trans hlimit)] at hrecorded
  have hgrows : Grows cfg.output.filename w.hook (w.hook.stop m.text) := .stop _
  exact
    { visits := h.visits
      records := .stopping (.inl rfl) hrecorded hdisk (hwritten.trans hgrows)
      follows := h.follows.grow rfl rfl (Appended.refl _) }

theorem Inv.exit (h : Inv cfg files p w) (hact : act cfg outputSet .exit w = some w') :
    Inv cfg files p w' := by
  obtain ⟨hstage,hw'⟩ := Option.ite_none_right_eq_some.mp hact
  cases hw'
  obtain ⟨hrecorded,bs,hdisk,hwritten⟩ := h.records.recorded hstage
  obtain ⟨rs,hfile,-⟩ := hrecorded.file
  have hmore : Appended w.disk (w.written cfg) := by
    rw [written,hfile,Option.getD_some] at hwritten
    rw [hdisk,written,hfile]
    exact Appended.of_prefix hwritten
  exact
    { visits := h.visits
      records := .exited rfl hrecorded rfl
      follows := h.follows.grow rfl rfl hmore }

theorem Inv.kill (h : Inv cfg files p w) (hact : act cfg outputSet .kill w = some w') :
    Inv cfg files p w' := by
  obtain ⟨hwrites,hw'⟩ := Option.ite_none_right_eq_some.mp hact
  cases hw'
  obtain ⟨bs,hdisk,hwritten⟩ := h.records.exists_disk hwrites
  exact
    { visits := h.visits
      records := by
        have hstill := h.records.still hwrites (.inr rfl) hwritten
        rwa [← hdisk] at hstill
      follows := h.follows.grow rfl rfl (Appended.refl _) }

/-- The viewer does not touch the recorder. -/
theorem Inv.viewed (h : Inv cfg files p w) {viewer : LiveState} {pending : Option FileView}
    (hfollows : { w with viewer, pending }.Follows) :
    Inv cfg files p { w with viewer, pending } where
  visits := h.visits
  records := by
    cases h.records with
    | before hstage hhook hpast hdisk => exact .before hstage hhook hpast hdisk
    | recording hstage hsession hdisk hwritten => exact .recording hstage hsession hdisk hwritten
    | stopping hstage hrecorded hdisk hwritten => exact .stopping hstage hrecorded hdisk hwritten
    | exited hstage hrecorded hdisk => exact .exited hstage hrecorded hdisk
  follows := hfollows

theorem Inv.stat (h : Inv cfg files p w) {checkStart now : ℕ} {mtime : ℤ}
    (hact : act cfg outputSet (.stat checkStart now mtime) w = some w') : Inv cfg files p w' := by
  obtain ⟨hnone,hw'⟩ := Option.ite_none_right_eq_some.mp hact
  cases hw'
  have hfollows := h.follows
  rw [Follows,Option.isNone_iff_eq_none.mp hnone] at hfollows
  exact h.viewed ⟨hfollows,Appended.refl w.disk⟩

theorem Inv.read (h : Inv cfg files p w) (hact : act cfg outputSet .read w = some w') :
    Inv cfg files p w' := by
  obtain ⟨v,hv,hw'⟩ := Option.map_eq_some_iff.mp hact
  cases hw'
  have hfollows := h.follows
  rw [Follows,hv] at hfollows
  let v' : FileView := { v with atRead := w.disk }
  have hupdate : TailInv w.disk (w.viewer.updateLiveData v'.poll) :=
    hfollows.1.update (v := v') (Appended.refl v.atStat) hfollows.2
  exact h.viewed hupdate

end Steps

theorem inv_reachable {outputSet : Bool} {env : Option Bytes}
    (hnew : files cfg.output.filename = none) (hlimit : p.WithinLimit cfg)
    (h : (watchSystem cfg files p outputSet env).Reachable w) : Inv cfg files p w := by
  refine Transition.System.Reachable.invariant ?_ ?_ h
  · rintro w rfl
    exact
      { visits := rfl
        records := .before rfl rfl rfl hnew
        follows := by
          show TailInv (files cfg.output.filename) _
          rw [hnew]
          exact TailInv.start cfg.output.filename env }
  · intro w a w' hw _ (hact : Watching.act cfg outputSet a w = some w')
    cases a with
    | start => exact hw.start hact
    | visit => exact hw.visit hlimit hact
    | write bs => exact hw.write hact
    | stop m => exact hw.stop hlimit hact
    | exit => exact hw.exit hact
    | kill => exact hw.kill hact
    | stat checkStart now mtime => exact hw.stat hact
    | read => exact hw.read hact

/-- What was written is a trace of the first events that were offered. -/
theorem Inv.disk_records (h : Inv cfg files p w) {d : Bytes} (hd : w.disk = some d) :
    ∃ rs k, d <+: traceHeader ++ rs.flatten ∧
      List.Forall₂ IsRecord rs ((w.offered cfg).take k) := by
  cases h.records with
  | before _ _ _ hdisk => cases hdisk.symm.trans hd
  | recording _ hsession hdisk hwritten =>
    cases hdisk.symm.trans hd
    rcases hsession with hrecording | ⟨-,hrecorded⟩
    · obtain ⟨rs,hw,hrs⟩ := hrecording.file
      refine ⟨rs,_,?_,hrs⟩
      rwa [written,hw.holds] at hwritten
    · obtain ⟨rs,hfile,hrs⟩ := hrecorded.file
      refine ⟨rs,_,?_,hrs⟩
      rwa [written,hfile] at hwritten
  | stopping _ hrecorded hdisk hwritten =>
    cases hdisk.symm.trans hd
    obtain ⟨rs,hfile,hrs⟩ := hrecorded.file
    refine ⟨rs,(w.offered cfg).length,?_,by rwa [List.take_length]⟩
    rwa [written,hfile] at hwritten
  | exited _ hrecorded hdisk =>
    obtain ⟨rs,hfile,hrs⟩ := hrecorded.file
    rw [hdisk,written,hfile] at hd
    cases hd
    exact ⟨rs,(w.offered cfg).length,List.prefix_refl _,by rwa [List.take_length]⟩

/-- The viewer has seen a beginning of what was offered. -/
theorem Inv.seen_prefix (h : Inv cfg files p w) :
    w.viewer.seen.map Event.bare <+: (w.offered cfg).map Event.bare := by
  unfold LiveState.seen
  cases hlast : w.viewer.lastRead with
  | none => exact List.nil_prefix
  | some c =>
    obtain ⟨d,hd,hcd⟩ := h.follows.lastRead c hlast
    obtain ⟨rs,k,hpre,hrs⟩ := h.disk_records hd
    obtain ⟨r,-,hr⟩ := Option.map_eq_some_iff.mp hlast
    have hheader : HasHeader c := hr ▸ r.hasHeader
    have hfirst := decoded_beginning hrs hheader (hcd.trans hpre)
    exact hfirst.trans ((List.take_prefix k _).map Event.bare)

end Watching

/-- A program that records into a new trace file, and a viewer that follows the file: at any time
the viewer shows the last events of some beginning of what the calls have offered, whatever part
of it has reached the file, and whether or not the recorder was killed. Once it has closed the
file and ended, the next check shows the last events of all that was offered. Events are compared
up to their labels. -/
theorem watched_program (cfg : TracingConfig) (files : Bytes → Option Bytes)
    (hnew : files cfg.output.filename = none) (p : Program) (hlimit : p.WithinLimit cfg)
    (outputSet : Bool) (env : Option Bytes) (w : Watching)
    (h : (watchSystem cfg files p outputSet env).Reachable w) :
    w.offered cfg <+: p.events cfg.toConfig ∧
    (∃ es, es <+: w.offered cfg ∧
      w.viewer.shown.map Event.bare = (es.map Event.bare).rtake maxEvents) ∧
    (w.stage = .exited → w.pending = none → ∀ checkStart now mtime,
      let v : FileView := { checkStart, now, mtime, atStat := w.disk, atRead := w.disk }
      w.viewer.ChecksFile v.poll → (w.viewer.updateLiveData v.poll).shown.map Event.bare =
        ((w.offered cfg).map Event.bare).rtake maxEvents) := by
  have hinv := Watching.inv_reachable hnew hlimit h
  refine ⟨hinv.offered_prefix,?_,?_⟩
  · have hseen := hinv.seen_prefix
    refine ⟨(w.offered cfg).take w.viewer.seen.length,List.take_prefix _ _,?_⟩
    rw [hinv.follows.shown,map_rtake,List.map_take,← List.length_map Event.bare,
      ← List.prefix_iff_eq_take.mp hseen]
  · intro hexited hpending checkStart now mtime v hdue
    cases hinv.records with
    | before hstage => cases hstage.symm.trans hexited
    | recording hstages | stopping hstages =>
      rcases hstages with hstage | hstage <;> cases hstage.symm.trans hexited
    | exited _ hrecorded hdisk =>
      obtain ⟨rs,hfile,hrs⟩ := hrecorded.file
      have hd : w.disk = some (traceHeader ++ rs.flatten) := hdisk.trans hfile
      have htail := hinv.follows
      rw [Watching.Follows,hpending,hd] at htail
      rw [htail.check (Appended.refl _) ⟨hd,hd⟩ hdue (hasHeader_traceHeader _),map_rtake,
        decoded_records hrs]

section Run

instance (cfg : TracingConfig) (files : Bytes → Option Bytes) (p : Program) (outputSet : Bool)
    (env : Option Bytes) (w : Watching) (a : WatchAction) :
    Decidable ((watchSystem cfg files p outputSet env).may w a) :=
  inferInstanceAs (Decidable True)

/-- A program of one call on a graph of one node. -/
def oneCall : Program :=
  .call
    { call := .vizBackendGraphCompute 8 (some { ptr := 64, nodes := [16], fits := by decide })
      moments := fun i => momentAt (UInt64.ofNat i) } .done .done

/-- The viewer finds a part of the header, and then the whole trace. -/
theorem watched_program_oneCall : ∃ w,
    (watchSystem defaultTracing (fun _ => none) oneCall true none).Reachable w ∧
      w.viewer.shown = [] ∧ (w.offered defaultTracing).length = 4 ∧
      let v : FileView :=
        { checkStart := 0, now := 400000000, mtime := 5, atStat := w.disk, atRead := w.disk }
      (w.viewer.updateLiveData v.poll).shown.map Event.bare =
        ((w.offered defaultTracing).map Event.bare).rtake maxEvents := by
  let start : Watching :=
    { stage := .before, hook := HookState.initial (fun _ => none), past := []
      todo := oneCall.visitList, disk := none
      viewer := LiveState.start.enableLiveMode defaultTracing.output.filename none
      pending := none }
  have hinit : (watchSystem defaultTracing (fun _ => none) oneCall true none).init start :=
    rfl
  let view (w : Watching) :=
    let v : FileView :=
      { checkStart := 0, now := 400000000, mtime := 5, atStat := w.disk, atRead := w.disk }
    (w.stage,w.pending.isNone,w.viewer.shown.length,(w.offered defaultTracing).length,
      decide (w.viewer.ChecksFile v.poll))
  obtain ⟨w,hw,hview⟩ := Transition.System.Reachable.of_replay hinit
    [.start,.visit,.write (magic.take 6),.stat 0 200000000 5,.visit,.read,.stop (momentAt 9),.exit]
    view (v := (.exited,true,0,4,true)) (by decide +kernel)
  simp only [view,Prod.mk.injEq] at hview
  obtain ⟨hstage,hpending,hshown,hoffered,hdue⟩ := hview
  exact ⟨w,hw,List.length_eq_zero_iff.mp hshown,hoffered,
    (watched_program defaultTracing (fun _ => none) rfl oneCall (by decide) true none w hw).2.2 hstage
      (Option.isNone_iff_eq_none.mp hpending) 0 400000000 5 (of_decide_eq_true hdue)⟩

end Run

end GgmlViz
