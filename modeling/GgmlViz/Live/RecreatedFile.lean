import GgmlViz.Live.Following

/-! # Following a file that was replaced

A new run truncates the monitored file and writes another trace. Live mode tells this from
growth by the number of events alone: it starts over if the new file holds fewer events than
it remembers when it first finds one.
-/
namespace GgmlViz
open LittleEndian LiveState

/-- The event was read from a file. -/
def LiveEvent.fromFile (e : LiveEvent) : Bool :=
  match e.source with
  | .hook => false
  | .file _ => true

namespace LiveState

/-- What a call appends to the buffer. -/
def added (p : Poll) (s : LiveState) : List LiveEvent :=
  s.hookAdded p ++ (s.reloadOf p).elim [] (fun found => s.fileAdded found.2)

/-- What these calls append, trimmed or not. -/
def addedBy : List Poll → LiveState → List LiveEvent
  | [], _ => []
  | p :: ps, s => s.added p ++ addedBy ps (s.updateLiveData p)

/-- The first reload of these calls that finds an event finds fewer than are remembered, or
none is remembered, or no reader is held. -/
def StartsOver : List Poll → LiveState → Prop
  | [], _ => True
  | p :: ps, s =>
    match s.reloadOf p with
    | none => StartsOver ps (s.updateLiveData p)
    | some (_,r) =>
      if r.events = [] then StartsOver ps (s.updateLiveData p)
      else r.events.length < s.lastFileEventCount ∨ s.lastFileEventCount = 0 ∨
        s.liveTraceReader = none

end LiveState

/-- What the readers of these calls read only grows. -/
def ReadsGrow : Option Bytes → List Poll → Prop
  | _, [] => True
  | before, p :: ps => Appended before p.content ∧ ReadsGrow p.content ps

/-- The events of the buffer that were read from files end with all events of the content
read last, copied from readers that were made after the first `n`. -/
def EndsWithNewFile (n : ℕ) (s : LiveState) : Prop :=
  ∃ es, es <:+ s.liveEvents.filter LiveEvent.fromFile ∧
    (∀ e ∈ es, ∃ r, n ≤ r ∧ e.source = .file r) ∧ es.map (LiveEvent.read s.made) = s.seen

section Added
variable {s : LiveState} {p : Poll}

theorem liveEvents_update (hinv : BufferInv s) (p : Poll) :
    (s.updateLiveData p).liveEvents = (s.liveEvents ++ s.added p).rtake maxEvents := by
  cases hr : s.reloadOf p with
  | none =>
    obtain ⟨check,heq⟩ := updateLiveData_of_none hinv.short hr
    rw [heq,added,hr,Option.elim_none,List.append_nil]
  | some found => rw [updateLiveData_of_reload hinv.short hr,added,hr,Option.elim_some]

theorem made_update (hinv : BufferInv s) (p : Poll) :
    (s.updateLiveData p).made = s.made ++ ((s.reloadOf p).map Prod.snd).toList := by
  cases hr : s.reloadOf p with
  | none =>
    obtain ⟨check,heq⟩ := updateLiveData_of_none hinv.short hr
    rw [heq,Option.map_none,Option.toList_none,List.append_nil]
  | some found =>
    rw [updateLiveData_of_reload hinv.short hr]
    rfl

theorem liveEvents_polls (hinv : BufferInv s) (ps : List Poll) :
    (s.polls ps).liveEvents = (s.liveEvents ++ s.addedBy ps).rtake maxEvents := by
  induction ps generalizing s with
  | nil => rw [addedBy,List.append_nil,Recent.rtake_of_length_le hinv.short]; rfl
  | cons p ps ih =>
    rw [addedBy,← List.append_assoc,← Recent.rtake_rtake_append,← liveEvents_update hinv]
    exact ih (hinv.updateLiveData p)

theorem made_polls (hinv : BufferInv s) (ps : List Poll) :
    ∃ more, (s.polls ps).made = s.made ++ more := by
  induction ps generalizing s with
  | nil => exact ⟨[],(List.append_nil _).symm⟩
  | cons p ps ih =>
    obtain ⟨more,hmore⟩ := ih (hinv.updateLiveData p)
    rw [made_update hinv,List.append_assoc] at hmore
    exact ⟨_,hmore⟩

theorem filter_hookAdded (p : Poll) : (s.hookAdded p).filter LiveEvent.fromFile = [] := by
  apply List.filter_eq_nil_iff.mpr
  intro e he
  simp [LiveEvent.fromFile,source_hookAdded p e he]

theorem filter_fileAdded (r : HeldReader) :
    (s.fileAdded r).filter LiveEvent.fromFile = s.fileAdded r := by
  apply List.filter_eq_self.mpr
  intro e he
  simp [LiveEvent.fromFile,source_fileEvents 0 r.events e (List.mem_of_mem_drop he)]

/-- The events of a reload, read after more calls. -/
theorem read_fileAdded_later (hinv : BufferInv s) {fileStat : FileStat} {r : HeldReader}
    (hr : s.reloadOf p = some (fileStat,r)) (ps : List Poll) :
    (s.fileAdded r).map (LiveEvent.read ((s.updateLiveData p).polls ps).made) =
      r.events.drop (s.startIdx r.events.length) := by
  obtain ⟨more,hmore⟩ := made_polls (hinv.updateLiveData p) ps
  rw [made_update hinv,hr,Option.map_some,Option.toList_some] at hmore
  rw [← read_fileAdded,hmore]
  apply List.map_congr_left
  intro e he
  apply LiveEvent.read_append
  rw [List.length_append,List.length_singleton]
  exact below_fileAdded r e he

/-- What is added from files comes from readers that were not there before. -/
theorem source_addedBy (hinv : BufferInv s) (ps : List Poll) :
    ∀ e ∈ (s.addedBy ps).filter LiveEvent.fromFile, ∃ r, s.made.length ≤ r ∧ e.source = .file r := by
  induction ps generalizing s with
  | nil => exact fun e he => absurd he List.not_mem_nil
  | cons p ps ih =>
    intro e he
    rw [addedBy,added,List.filter_append,List.filter_append,filter_hookAdded,List.nil_append] at he
    rcases List.mem_append.mp he with he | he
    · cases hr : s.reloadOf p with
      | none =>
        rw [hr] at he
        exact absurd he List.not_mem_nil
      | some found =>
        rw [hr,Option.elim_some,filter_fileAdded] at he
        exact ⟨_,Nat.le_refl _,source_fileEvents 0 found.2.events e (List.mem_of_mem_drop he)⟩
    · obtain ⟨r,hle,hsource⟩ := ih (hinv.updateLiveData p) e he
      rw [made_update hinv,List.length_append] at hle
      exact ⟨r,by omega,hsource⟩

theorem addedBy_quiet (hr : s.reloadOf p = none) (ps : List Poll) :
    (s.addedBy (p :: ps)).filter LiveEvent.fromFile =
      ((s.updateLiveData p).addedBy ps).filter LiveEvent.fromFile := by
  rw [addedBy,added,hr,Option.elim_none,List.append_nil,List.filter_append,filter_hookAdded,
    List.nil_append]

theorem addedBy_reload {fileStat : FileStat} {r : HeldReader}
    (hr : s.reloadOf p = some (fileStat,r)) (ps : List Poll) :
    (s.addedBy (p :: ps)).filter LiveEvent.fromFile =
      s.fileAdded r ++ ((s.updateLiveData p).addedBy ps).filter LiveEvent.fromFile := by
  rw [addedBy,added,hr,Option.elim_some,List.filter_append,List.filter_append,filter_hookAdded,
    List.nil_append,filter_fileAdded]

end Added

section Reads
variable {s : LiveState} {file : Option Bytes} {ps : List Poll}

/-- The events of files that these calls added are those of the content read last, without
its first `d`. -/
def AddsFrom (d : ℕ) (ps : List Poll) (s : LiveState) : Prop :=
  d ≤ (s.polls ps).seen.length ∧
    ((s.addedBy ps).filter LiveEvent.fromFile).map (LiveEvent.read (s.polls ps).made) =
      (s.polls ps).seen.drop d

theorem AddsFrom.quiet {p : Poll} {d : ℕ} (hr : s.reloadOf p = none)
    (h : AddsFrom d ps (s.updateLiveData p)) : AddsFrom d (p :: ps) s := by
  rw [AddsFrom,addedBy_quiet hr]
  exact h

/-- A reload that adds all but the first `d` of its events, and what goes on from there. -/
theorem AddsFrom.reload (hinv : BufferInv s) {p : Poll} {fileStat : FileStat} {r : HeldReader}
    (hr : s.reloadOf p = some (fileStat,r)) (hidx : s.startIdx r.events.length ≤ r.events.length)
    (hgrow : r.events <+: ((s.updateLiveData p).polls ps).seen)
    (h : AddsFrom r.events.length ps (s.updateLiveData p)) :
    AddsFrom (s.startIdx r.events.length) (p :: ps) s := by
  refine ⟨hidx.trans hgrow.length_le,?_⟩
  rw [addedBy_reload hr,List.map_append]
  have hlater : (s.fileAdded r).map (LiveEvent.read (s.polls (p :: ps)).made) = _ :=
    read_fileAdded_later hinv hr ps
  have hrest : (((s.updateLiveData p).addedBy ps).filter LiveEvent.fromFile).map
      (LiveEvent.read (s.polls (p :: ps)).made) = _ := h.2
  rw [hlater,hrest]
  obtain ⟨more,hmore⟩ := hgrow
  have hseen : (s.polls (p :: ps)).seen = r.events ++ more := hmore.symm
  rw [hseen,← hmore,List.drop_left,List.drop_append_of_le_length hidx]

/-- Once the count is that of the content read last, the calls add what follows. -/
theorem Caught.polls (h : Caught s) (hinv : BufferInv s) (hfile : Appended s.lastRead file)
    (hgrow : ReadsGrow file ps) :
    s.seen <+: (s.polls ps).seen ∧ AddsFrom s.seen.length ps s := by
  induction ps generalizing s file with
  | nil => exact ⟨List.prefix_refl _,Nat.le_refl _,(List.drop_length (l := s.seen)).symm⟩
  | cons p ps ih =>
    obtain ⟨hnow,hgrow⟩ := hgrow
    cases hr : s.reloadOf p with
    | none =>
      have hlast := lastRead_quiet hinv.short hr
      obtain ⟨hlater,hadds⟩ := ih (h.quiet hinv.short hr) (hinv.updateLiveData p)
        (hlast ▸ hfile.trans hnow) hgrow
      rw [seen_quiet hinv.short hr] at hlater hadds
      exact ⟨hlater,hadds.quiet hr⟩
    | some found =>
      obtain ⟨fileStat,r⟩ := found
      have hcontent : p.content = some r.content := openTrace_eq_some (reloadOf_eq_some hr).2
      have hr' : Appended s.lastRead (some r.content) := by
        rw [← hcontent]
        exact hfile.trans hnow
      obtain ⟨hpre,hidx⟩ := h.startIdx_eq hr'
      have hseen := seen_reload hinv.short hr
      have hlast : Appended (s.updateLiveData p).lastRead p.content := by
        rw [lastRead_reload hinv.short hr,hcontent]
        exact Appended.of_prefix (List.prefix_refl _)
      obtain ⟨hlater,hadds⟩ := ih (h.reload hinv.short hr hr') (hinv.updateLiveData p) hlast hgrow
      rw [hseen] at hlater hadds
      rw [← hidx]
      refine ⟨hpre.trans hlater,AddsFrom.reload hinv hr ?_ hlater hadds⟩
      rw [hidx]
      exact hpre.length_le

/-- What the calls add starts with the first event exactly if they start over. -/
theorem addsFrom_startsOver (hinv : BufferInv s) (hgrow : ReadsGrow file ps)
    (hnew : s.made.length < (s.polls ps).made.length ∨ s.seen = []) :
    ∃ d, AddsFrom d ps s ∧ (d = 0 ↔ s.StartsOver ps) := by
  induction ps generalizing s file with
  | nil =>
    have hseen : s.seen = [] := hnew.resolve_left (Nat.lt_irrefl _)
    exact ⟨0,⟨Nat.zero_le _,hseen.symm⟩,iff_of_true rfl trivial⟩
  | cons p ps ih =>
    obtain ⟨-,hgrow⟩ := hgrow
    have hnext := hinv.updateLiveData p
    cases hr : s.reloadOf p with
    | none =>
      have hmade : (s.updateLiveData p).made = s.made := by
        rw [made_update hinv,hr,Option.map_none,Option.toList_none,List.append_nil]
      rw [← seen_quiet hinv.short hr,← hmade] at hnew
      obtain ⟨d,hadds,hd⟩ := ih hnext hgrow hnew
      exact ⟨d,hadds.quiet hr,by rwa [StartsOver,hr]⟩
    | some found =>
      obtain ⟨fileStat,r⟩ := found
      have hseen := seen_reload hinv.short hr
      rw [StartsOver,hr]
      dsimp only
      by_cases hnone : r.events = []
      · rw [if_pos hnone]
        obtain ⟨d,hadds,hd⟩ := ih hnext hgrow (Or.inr (hseen.trans hnone))
        have hempty : s.fileAdded r = [] := by
          rw [fileAdded,eventsOf,hnone,fileEvents,List.drop_nil]
        refine ⟨d,⟨hadds.1,?_⟩,hd⟩
        rw [addedBy_reload hr,hempty,List.nil_append]
        exact hadds.2
      · rw [if_neg hnone]
        have hlast : Appended (s.updateLiveData p).lastRead p.content := by
          rw [lastRead_reload hinv.short hr,openTrace_eq_some (reloadOf_eq_some hr).2]
          exact Appended.of_prefix (List.prefix_refl _)
        obtain ⟨hlater,hadds⟩ := (Caught.of_found hinv.short hr hnone).polls hnext hlast hgrow
        rw [hseen] at hlater hadds
        exact ⟨_,AddsFrom.reload hinv hr (startIdx_le _) hlater hadds,startIdx_eq_zero_iff _⟩

/-- With `d` events left out, all events of the new file are at the end if `d` is 0. -/
theorem AddsFrom.endsWithNewFile_iff (hinv : BufferInv s) {d : ℕ} (h : AddsFrom d ps s)
    (hadded : (s.addedBy ps).length ≤ maxEvents) :
    EndsWithNewFile s.made.length (s.polls ps) ↔ d = 0 := by
  obtain ⟨hd,hread⟩ := h
  have hbuffer : (s.polls ps).liveEvents =
      s.liveEvents.rtake (maxEvents - (s.addedBy ps).length) ++ s.addedBy ps := by
    rw [liveEvents_polls hinv,Recent.rtake_append,Recent.rtake_of_length_le hadded]
  have hlen := congrArg List.length hread
  rw [List.length_map,List.length_drop] at hlen
  rw [EndsWithNewFile,hbuffer,List.filter_append]
  constructor
  · rintro ⟨es,hsuffix,hsource,hes⟩
    have hle : es.length ≤ ((s.addedBy ps).filter LiveEvent.fromFile).length := by
      rcases List.suffix_or_suffix_of_suffix hsuffix (List.suffix_append _ _) with hes | ⟨old,rfl⟩
      · exact hes.length_le
      -- an event before those that were added came from a reader that was there before
      · obtain ⟨rest,hrest⟩ := hsuffix
        rw [← List.append_assoc] at hrest
        have hold := List.append_cancel_right hrest
        cases old with
        | nil => exact Nat.le_refl _
        | cons e old =>
          obtain ⟨r,hr,hsrc⟩ := hsource e List.mem_cons_self
          have hmem : e ∈ s.liveEvents := by
            apply Recent.mem_of_mem_rtake (List.mem_of_mem_filter (p := LiveEvent.fromFile) _)
            · exact maxEvents - (s.addedBy ps).length
            · rw [← hold]
              exact List.mem_append_right _ List.mem_cons_self
          exact absurd ((hinv.below e hmem).source r hsrc) (Nat.not_lt.mpr hr)
    have hlast := congrArg List.length hes
    rw [List.length_map] at hlast
    omega
  · rintro rfl
    exact ⟨_,List.suffix_append _ _,source_addedBy hinv ps,hread⟩

end Reads

/-- From any state of a process: calls that find a file which only grows, at least one of
which reads it, and which add no more events than the buffer holds. All events of the file
are shown at the end if and only if the calls start over. -/
theorem recreatedFile_shown_iff (ops : List LiveOp) (ps : List Poll) (hgrow : ReadsGrow none ps)
    (hread : (after ops).made.length < ((after ops).polls ps).made.length)
    (hadded : ((after ops).addedBy ps).length ≤ maxEvents) :
    EndsWithNewFile (after ops).made.length ((after ops).polls ps) ↔ (after ops).StartsOver ps := by
  have hinv := BufferInv.after ops
  obtain ⟨d,hadds,hd⟩ := addsFrom_startsOver hinv hgrow (Or.inl hread)
  rw [hadds.endsWithNewFile_iff hinv hadded]
  exact hd

section Run

/-- A call so many milliseconds after the first, in which the file has this content. -/
def pollAt (ms : ℕ) (mtime : ℤ) (content : Bytes) : Poll :=
  { checkStart := 0, now := ms * 1000000, hookEvents := none,
    fileStat := some { mtime := mtime, size := content.length }, content := some content }

/-- A file with this many events of one thread. -/
def fileOf (thread : UInt32) (n : ℕ) : Bytes :=
  writeTrace id (List.replicate n ⟨.opComputeEnd,7,thread,OpData.toData ⟨1,9,16,2⟩,none⟩)

/-- A session that has read a file with two events. -/
def oldFile : List LiveOp :=
  [.enable (ascii "a") none,.update (pollAt 0 5 []),.update (pollAt 200 5 (fileOf 1 2))]

/-- The new file has one event when it is first read, and then three. -/
def fewerFirst : List Poll := [pollAt 400 6 (fileOf 2 1),pollAt 600 6 (fileOf 2 3)]

theorem recreatedFile_shown_iff_fewerFirst :
    EndsWithNewFile (after oldFile).made.length ((after oldFile).polls fewerFirst) ↔
      (after oldFile).StartsOver fewerFirst := by
  have hgrow : ReadsGrow none fewerFirst :=
    ⟨Appended.of_none _,Appended.of_prefix ⟨(fileOf 2 3).drop (fileOf 2 1).length,by decide +kernel⟩,
      trivial⟩
  exact recreatedFile_shown_iff oldFile fewerFirst hgrow (by decide +kernel) (by decide +kernel)

/-- The new file has as many events as the old one when it is first read. -/
def sameCount : List Poll := [pollAt 400 6 (fileOf 2 2)]

/-- It is read, and none of its events is shown. -/
theorem not_endsWithNewFile_sameCount : ReadsGrow none sameCount ∧
    (after oldFile).made.length < ((after oldFile).polls sameCount).made.length ∧
    ((after oldFile).addedBy sameCount).length ≤ maxEvents ∧
    ¬EndsWithNewFile (after oldFile).made.length ((after oldFile).polls sameCount) := by
  refine ⟨⟨Appended.of_none _,trivial⟩,by decide +kernel,by decide +kernel,?_⟩
  have hstate : (after oldFile).made.length = 1 ∧
      ((after oldFile).polls sameCount).seen.length = 2 ∧
      ((after oldFile).polls sameCount).liveEvents.map LiveEvent.source = [.file 0,.file 0] := by
    decide +kernel
  obtain ⟨hmade,hseen,hsources⟩ := hstate
  rintro ⟨es,hsuffix,hsource,hes⟩
  have hlen : 0 < es.length := by
    rw [← List.length_map (LiveEvent.read _),hes,hseen]
    decide
  obtain ⟨r,hr,hsrc⟩ := hsource _ (List.getElem_mem hlen)
  have hmem := List.mem_map_of_mem (f := LiveEvent.source)
    (List.mem_of_mem_filter (hsuffix.subset (List.getElem_mem hlen)))
  rw [hsources,hsrc] at hmem
  have hzero : r = 0 := by simpa using hmem
  omega

end Run
end GgmlViz
