import GgmlViz.Live.Following

/-! # Following a file that grows

Another process appends to the monitored file, so a call can find it longer than the call
before did, longer at the read than at `stat`, cut inside a record, or not there yet. The
buffer always shows the last events of the content read last.
-/
namespace GgmlViz
open LittleEndian

/-- What one call finds of the file. -/
structure FileView where
  checkStart : ℕ
  now : ℕ
  mtime : ℤ
  /-- The file when `stat` looks at it, if it is there. -/
  atStat : Option Bytes
  /-- The file when the reader reads it. -/
  atRead : Option Bytes

/-- The call, with the hook disabled. -/
def FileView.poll (v : FileView) : Poll where
  checkStart := v.checkStart
  now := v.now
  hookEvents := none
  fileStat := v.atStat.map (fun bs => { mtime := v.mtime, size := bs.length })
  content := v.atRead

/-- Between these calls and during them the file is only appended to. -/
def OnlyAppended : Option Bytes → List FileView → Prop
  | _, [] => True
  | before, v :: vs =>
    Appended before v.atStat ∧ Appended v.atStat v.atRead ∧ OnlyAppended v.atRead vs

open LiveState

/-- What holds between the calls of a session that follows one growing file. -/
structure TailInv (file : Option Bytes) (s : LiveState) : Prop extends BufferInv s, Caught s where
  live : s.liveMode = true
  shown : s.shown = s.seen.rtake maxEvents
  /-- `last_file_size` is the size of what was there shortly before the last read. -/
  size : ∃ x, x.length = s.lastFileSize ∧ x <+: s.lastRead.getD []
  lastRead : Appended s.lastRead file

namespace TailInv
variable {file : Option Bytes} {s : LiveState} {v : FileView}

theorem start (traceFile : Bytes) (env : Option Bytes) :
    TailInv none (LiveState.start.enableLiveMode traceFile env) where
  toBufferInv := BufferInv.start.enableLiveMode traceFile env
  live := rfl
  held := Or.inr rfl
  count := rfl
  shown := (List.rtake_nil _).symm
  size := ⟨[],rfl,List.nil_prefix⟩
  lastRead := Appended.of_none none

theorem hookAdded_poll (v : FileView) : s.hookAdded v.poll = [] := by
  rw [hookAdded,FileView.poll]
  split <;> rfl

theorem reload (h : TailInv file s) (hstat : Appended file v.atStat)
    (hread : Appended v.atStat v.atRead) {fileStat : FileStat} {r : HeldReader}
    (hr : s.reloadOf v.poll = some (fileStat,r)) :
    TailInv v.atRead (s.updateLiveData v.poll) ∧ v.atRead = some r.content ∧
      (s.updateLiveData v.poll).lastRead = some r.content := by
  obtain ⟨hfile,hopen⟩ := reloadOf_eq_some hr
  have hcontent : v.atRead = some r.content := openTrace_eq_some hopen
  have hlast : Appended s.lastRead (some r.content) := by
    rw [← hcontent]
    exact h.lastRead.trans (hstat.trans hread)
  have hupdate := updateLiveData_of_reload h.short hr
  obtain ⟨hgrow,hidx⟩ := h.startIdx_eq hlast
  have hlastRead := lastRead_reload h.short hr
  have hseen := seen_reload h.short hr
  have hold : s.liveEvents.map (LiveEvent.read (s.made ++ [r])) = s.seen.rtake maxEvents := by
    rw [← h.shown]
    apply List.map_congr_left
    intro e he
    exact LiveEvent.read_append (h.below e he) [r]
  refine ⟨?_,hcontent,hlastRead⟩
  refine
    { toBufferInv := h.toBufferInv.updateLiveData v.poll
      toCaught := h.toCaught.reload h.short hr hlast
      live := ?_, shown := ?_, size := ?_, lastRead := ?_ }
  · rw [hupdate]
    exact h.live
  · rw [hseen,hupdate,LiveState.shown,hookAdded_poll,List.nil_append,Recent.map_rtake,
      List.map_append,hold,read_fileAdded,hidx,Recent.rtake_catchUp hgrow]
  · obtain ⟨bs,hbs,rfl⟩ := Option.map_eq_some_iff.mp hfile
    obtain ⟨y,hy,hpre⟩ := hread bs hbs
    cases hcontent.symm.trans hy
    rw [hlastRead,hupdate]
    exact ⟨bs,rfl,hpre⟩
  · rw [hlastRead,hcontent]
    exact Appended.of_prefix (List.prefix_refl _)

theorem quiet_eq (h : TailInv file s) (hr : s.reloadOf v.poll = none) :
    ∃ check, s.updateLiveData v.poll = { s with lastFileCheck := check } := by
  obtain ⟨check,heq⟩ := updateLiveData_of_none h.short hr
  rw [hookAdded_poll,List.append_nil,Recent.rtake_of_length_le h.short] at heq
  exact ⟨check,heq⟩

theorem quiet (h : TailInv file s) (hstat : Appended file v.atStat)
    (hread : Appended v.atStat v.atRead) (hr : s.reloadOf v.poll = none) :
    TailInv v.atRead (s.updateLiveData v.poll) := by
  obtain ⟨check,heq⟩ := h.quiet_eq hr
  rw [heq]
  exact
    { short := h.short, below := h.below, last := h.last, live := h.live, held := h.held,
      count := h.count, shown := h.shown, size := h.size,
      lastRead := h.lastRead.trans (hstat.trans hread) }

theorem update (h : TailInv file s) (hstat : Appended file v.atStat)
    (hread : Appended v.atStat v.atRead) : TailInv v.atRead (s.updateLiveData v.poll) := by
  cases hr : s.reloadOf v.poll with
  | none => exact h.quiet hstat hread hr
  | some found => exact (h.reload hstat hread hr).1

theorem polls {vs : List FileView} (h : TailInv file s) (hvs : OnlyAppended file vs) :
    ∃ file', TailInv file' (s.polls (vs.map FileView.poll)) ∧
      ∀ v, OnlyAppended file (vs ++ [v]) → Appended file' v.atStat ∧ Appended v.atStat v.atRead := by
  induction vs generalizing file s with
  | nil => exact ⟨file,h,fun v hv => ⟨hv.1,hv.2.1⟩⟩
  | cons w vs ih =>
    obtain ⟨hstat,hread,hvs⟩ := hvs
    obtain ⟨file',hinv,hnext⟩ := ih (h.update hstat hread) hvs
    exact ⟨file',hinv,fun v hv => hnext v hv.2.2⟩

/-- A file that is no longer than it was before the last read was read to its end. -/
theorem lastRead_of_size (h : TailInv file s) {c : Bytes} (hc : Appended file (some c))
    (hsize : c.length ≤ s.lastFileSize) (hh : HasHeader c) : s.lastRead = some c := by
  obtain ⟨x,hx,hpre⟩ := h.size
  cases hlast : s.lastRead with
  | none =>
    rw [hlast,Option.getD_none,List.prefix_nil] at hpre
    have hlen := hh.1
    rw [hpre,List.length_nil] at hx
    omega
  | some d =>
    rw [hlast,Option.getD_some] at hpre
    obtain ⟨y,hy,hdc⟩ := h.lastRead.trans hc d hlast
    cases hy
    have hle := hpre.length_le
    rw [hdc.eq_of_length_le (by omega)]

/-- A check that finds a file with a valid header, and the file does not grow meanwhile,
shows its last events. -/
theorem check (h : TailInv file s) {c : Bytes} (hstat : Appended file (some c))
    (hfile : v.atStat = some c ∧ v.atRead = some c) (hdue : s.ChecksFile v.poll)
    (hh : HasHeader c) : (s.updateLiveData v.poll).shown = (decoded c).rtake maxEvents := by
  obtain ⟨hs,hr⟩ := hfile
  have hread : Appended v.atStat v.atRead := by
    rw [hs,hr]
    exact Appended.of_prefix (List.prefix_refl c)
  rw [← hs] at hstat
  have hinv := h.update hstat hread
  suffices hlast : (s.updateLiveData v.poll).lastRead = some c by
    rw [hinv.shown,LiveState.seen,hlast]
    rfl
  obtain ⟨r,hopen⟩ := openTrace_of_header hh
  cases hfound : s.reloadOf v.poll with
  | some found =>
    obtain ⟨-,hcontent,hlast⟩ := h.reload hstat hread hfound
    rw [hlast,← hcontent,hr]
  | none =>
    have hsize : c.length ≤ s.lastFileSize := by
      by_contra hlt
      rw [reloadOf,if_pos ⟨h.live,hdue⟩,fileReload,FileView.poll,hs,hr,Option.map_some,
        Option.bind_some,if_pos (Or.inr (Nat.lt_of_not_le hlt)),hopen] at hfound
      cases hfound
    obtain ⟨check,heq⟩ := h.quiet_eq hfound
    rw [heq]
    exact h.lastRead_of_size (hs ▸ hstat) hsize hh

end TailInv

/-- A session that follows one file: after every call the buffer shows the last events of the
content read last, and a check that the file does not outrun shows the last events of the
file. -/
theorem growingFile_shown (traceFile : Bytes) (env : Option Bytes) (vs : List FileView)
    (h : OnlyAppended none vs) :
    let s := (LiveState.start.enableLiveMode traceFile env).polls (vs.map FileView.poll)
    s.shown = s.seen.rtake maxEvents ∧
      ∀ v c, OnlyAppended none (vs ++ [v]) → s.ChecksFile v.poll →
        v.atStat = some c → v.atRead = some c → HasHeader c →
        (s.updateLiveData v.poll).shown = (decoded c).rtake maxEvents := by
  obtain ⟨file,hinv,hnext⟩ := (TailInv.start traceFile env).polls h
  refine ⟨hinv.shown,?_⟩
  intro v c hv hdue hstat hread hh
  exact hinv.check (hstat ▸ (hnext v hv).1) ⟨hstat,hread⟩ hdue hh

section Run

/-- A call, so many milliseconds after the first. -/
def viewAt (ms : ℕ) (atStat atRead : Option Bytes) : FileView :=
  { checkStart := 0, now := ms * 1000000, mtime := 5, atStat := atStat, atRead := atRead }

/-- One event and the first byte of the next. -/
def cutFile : Bytes :=
  writeTrace id [⟨.opComputeEnd,7,3,OpData.toData ⟨1,9,16,2⟩,some [0x61]⟩] ++ [2]

/-- The file is not there, then it is empty and gets its header before it is read. -/
def firstViews : List FileView := [viewAt 0 none none,viewAt 200 (some []) (some traceHeader)]

/-- Then a file with one event is there. -/
theorem onlyAppended_cutFile (ms : ℕ) :
    OnlyAppended none (firstViews ++ [viewAt ms (some cutFile) (some cutFile)]) := by
  have hempty : Appended (some []) (some traceHeader) := Appended.of_prefix List.nil_prefix
  have hmore : Appended (some traceHeader) (some cutFile) :=
    Appended.of_prefix ⟨cutFile.drop 12,by decide⟩
  have hsame : Appended (some cutFile) (some cutFile) := Appended.of_prefix (List.prefix_refl _)
  have hnone (b : Option Bytes) : Appended none b := Appended.of_none b
  exact ⟨hnone _,hnone _,hnone _,hempty,hmore,hsame,trivial⟩

theorem growingFile_shown_cut :
    let s := (LiveState.start.enableLiveMode (ascii "a") none).polls
      (firstViews.map FileView.poll)
    (s.updateLiveData (viewAt 400 (some cutFile) (some cutFile)).poll).shown =
      (decoded cutFile).rtake maxEvents := by
  obtain ⟨hnone,hfirst,hnone',hempty,-⟩ := onlyAppended_cutFile 400
  exact (growingFile_shown (ascii "a") none firstViews ⟨hnone,hfirst,hnone',hempty,trivial⟩).2
    (viewAt 400 (some cutFile) (some cutFile)) cutFile (onlyAppended_cutFile 400)
    (by decide +kernel) rfl rfl (by decide)

/-- A call 50 ms after the last check leaves the event unseen. -/
theorem not_growingFile_shown_tooSoon :
    ¬∀ (traceFile : Bytes) (env : Option Bytes) (vs : List FileView) (v : FileView) (c : Bytes),
      OnlyAppended none (vs ++ [v]) → v.atStat = some c → v.atRead = some c → HasHeader c →
      (((LiveState.start.enableLiveMode traceFile env).polls
        (vs.map FileView.poll)).updateLiveData v.poll).shown = (decoded c).rtake maxEvents := by
  intro h
  have hshown := h (ascii "a") none firstViews (viewAt 250 (some cutFile) (some cutFile)) cutFile
    (onlyAppended_cutFile 250) rfl rfl (by decide)
  exact absurd (congrArg List.length hshown) (by decide +kernel)

end Run
end GgmlViz
