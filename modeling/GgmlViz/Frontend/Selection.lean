import GgmlViz.Frontend.AppRuns
import GgmlViz.Live.GrowingFile

/-! # From a click to the inspector

An entry of the timeline that is clicked refers to the event that its timing begins with.
The inspector shows this event, and from then on exactly this entry is highlighted.
-/
namespace GgmlViz
open LittleEndian

/-- The colour of the selected entry. -/
def highlight : UInt32 := imCol32 255 200 100 255

section Colours
variable {F : Type} (fl : FloatArith F) (lt : F → F → Bool) {events : List (Event Bytes)}
variable {first : Event Bytes} {x : TimelineEvent F}

theorem head?_of_ne_nil (h : events ≠ []) : ∃ first, events.head? = some first := by
  cases events with
  | nil => exact absurd rfl h
  | cons first rest => exact ⟨first,rfl⟩

theorem getThreadColor_ne (threadId : Int32) : getThreadColor threadId ≠ highlight := by
  have hall : threadColors.all (fun c => c ≠ highlight) = true := by decide
  exact of_decide_eq_true (List.all_eq_true.mp hall _ (List.get_mem _ _))

/-- No other colour is taken for the highlight. -/
theorem getOperationColor_ne (e : Event Bytes) : getOperationColor e ≠ highlight := by
  unfold getOperationColor
  split
  · decide
  · split
    · exact getThreadColor_ne _
    · decide

theorem color_timelineEventOf (selected : Int32) (t : OpTiming) :
    (timelineEventOf fl selected first events t).color = highlight ↔
      (timelineEventOf fl selected first events t).eventIndex = selected := by
  simp only [timelineEventOf,getEventColor]
  by_cases h : Int32.ofNat t.beginAt = selected
  · simp [h,highlight]
  · simp [h,getOperationColor_ne]

variable [StdSort]

/-- The entries are those of the timings. -/
theorem mem_processEvents (w : TimelineWidget) (hfirst : events.head? = some first) :
    x ∈ (w.processEvents fl lt events).2 ↔
      ∃ t ∈ getOpTimings events, timelineEventOf fl w.selectedEvent first events t = x := by
  rw [← (perm_processEvents fl lt w hfirst).mem_iff,List.mem_map]

/-- One entry is highlighted, when it is one of the timings that is selected. -/
theorem highlighted_processEvents (w : TimelineWidget) (hfirst : events.head? = some first)
    (hlen : events.length < 2^31) {t : OpTiming} (ht : t ∈ getOpTimings events)
    (hsel : w.selectedEvent = Int32.ofNat t.beginAt) :
    (((w.processEvents fl lt events).2.filter (fun y => y.color = highlight)).map
      TimelineEvent.eventIndex) = [w.selectedEvent] := by
  have hperm := perm_processEvents fl lt w hfirst
  have hnodup := (hperm.map TimelineEvent.eventIndex).nodup_iff.mp
    (nodup_eventIndex fl hlen w.selectedEvent first)
  have hmem : w.selectedEvent ∈ (w.processEvents fl lt events).2.map TimelineEvent.eventIndex := by
    rw [hsel,← (hperm.map TimelineEvent.eventIndex).mem_iff,List.map_map]
    exact List.mem_map.mpr ⟨t,ht,rfl⟩
  have hcolor : (w.processEvents fl lt events).2.filter (fun y => y.color = highlight) =
      (w.processEvents fl lt events).2.filter (fun y => y.eventIndex = w.selectedEvent) := by
    apply List.filter_congr
    intro y hy
    obtain ⟨u,-,rfl⟩ := (mem_processEvents fl lt w hfirst).mp hy
    rw [decide_eq_decide]
    exact color_timelineEventOf fl w.selectedEvent u
  calc ((w.processEvents fl lt events).2.filter (fun y => y.color = highlight)).map
        TimelineEvent.eventIndex
      = ((w.processEvents fl lt events).2.map TimelineEvent.eventIndex).filter
          (fun i => i = w.selectedEvent) := by rw [hcolor,List.filter_map]; rfl
    _ = List.replicate 1 w.selectedEvent := by
        rw [List.filter_eq,List.count_eq_one_of_mem hnodup hmem]
    _ = [w.selectedEvent] := rfl

end Colours

section Click

/-- An `int` holds the number of events. -/
theorem selectedOf_ofNat {E : Type} {d : AppData} {es : List E} {n : ℕ} {e : E}
    (hsel : d.selectedEvent = Int32.ofNat n) (hlen : es.length < 2^31) (he : es[n]? = some e) :
    d.selectedOf es = some e := by
  have hn : n < es.length := (List.getElem?_eq_some_iff.mp he).1
  have hint : (Int32.ofNat n).toInt = n := Int32.toInt_ofNat_of_lt (by omega)
  have hsize : (Int32.ofNat es.length).toInt = es.length := Int32.toInt_ofNat_of_lt hlen
  have hselects : d.Selects es.length := by
    rw [AppData.Selects,hsel,Int32.le_iff_toInt_le,Int32.lt_iff_toInt_lt,hint,hsize]
    exact ⟨Int.natCast_nonneg n,by exact_mod_cast hn⟩
  rw [AppData.selectedOf,if_pos hselects,hsel,hint]
  exact he

theorem selectedOf_none {E : Type} {d : AppData} {es : List E} {n : ℕ}
    (hsel : d.selectedEvent = Int32.ofNat n) (hn : n < 2^31) (hlen : es.length < 2^31)
    (hout : es.length ≤ n) : d.selectedOf es = none := by
  have hint : (Int32.ofNat n).toInt = n := Int32.toInt_ofNat_of_lt hn
  have hsize : (Int32.ofNat es.length).toInt = es.length := Int32.toInt_ofNat_of_lt hlen
  have hno : ¬d.Selects es.length := by
    rw [AppData.Selects,hsel,Int32.le_iff_toInt_le,Int32.lt_iff_toInt_lt,hint,hsize]
    omega
  rw [AppData.selectedOf,if_neg hno]

variable [StdSort] {F : Type} {fl : FloatArith F} {lt : F → F → Bool} {app app' : ImGuiApp}
variable {w w' : TimelineWidget} {events : List (Event Bytes)} {k : ℕ}
variable {entries : List (TimelineEvent F)} {x : TimelineEvent F}
open ImGuiApp

/-- The entry that is clicked is that of a timing, and becomes the selection. -/
theorem render_click (h : w.render fl lt events (some k) = (w',entries)) (hx : entries[k]? = some x)
    (hlen : events.length < 2^31) : ∃ t ∈ getOpTimings events, ∃ e, ShowsTiming fl events t e x ∧
      w'.selectedEvent = x.eventIndex ∧ x.eventIndex = Int32.ofNat t.beginAt := by
  unfold TimelineWidget.render at h
  split at h
  · cases h
    cases hx
  · next hne =>
    have hnil : events ≠ [] := fun heq => hne (heq ▸ rfl)
    obtain ⟨first,hfirst⟩ := head?_of_ne_nil hnil
    simp only [Option.bind_some] at h
    split at h
    · next y hy =>
      cases h
      cases hy.symm.trans hx
      obtain ⟨t,ht,rfl⟩ := (mem_processEvents fl lt w hfirst).mp (List.mem_of_getElem? hx)
      obtain ⟨e,hshows⟩ := showsTiming_timelineEventOf fl hfirst hlen w.selectedEvent ht
      exact ⟨t,ht,e,hshows,rfl,rfl⟩
    · next hnone =>
      cases h
      cases hnone.symm.trans hx

theorem render_entries (w : TimelineWidget) (click : Option ℕ) :
    (w.render fl lt events click).2 = (w.processEvents fl lt events).2 := by
  unfold TimelineWidget.render
  split
  · next hnil =>
    rw [List.length_eq_zero_iff.mp hnil]
    rfl
  · dsimp only
    split <;> rfl

/-- What a frame draws of the timeline, and how it leaves the selection. -/
theorem ImGuiApp.FrameSteps.drawn {i : FrameInput} {f : DrawnFrame F} {before after : ImGuiApp}
    (hs : FrameSteps fl lt i app app' f before after)
    (htimeline : f.timeline = some entries) :
    ∃ click r, i.tab = some (.visual click) ∧ app'.data.widgetReader = some r ∧
      app.timelineWidget.render fl lt r.events click = (app'.timelineWidget,entries) ∧
      app'.data.selectedEvent = app'.timelineWidget.selectedEvent ∧
      f.inspected = if app'.inspectorDrawn i = true then app'.data.inspect else .none := by
  have hdone := hs.done.trans (renderErrorPopup_eq i.ok after)
  rcases hs.views with ⟨-,hnone⟩ | ⟨tab,htab,hdata,hview⟩
  · cases hnone.symm.trans htimeline
  · rw [htimeline] at hview
    obtain ⟨click,r,rfl,hr,rfl,hafter⟩ := renderTimelineView_some hview
    rw [hs.leaves.widget] at hafter ⊢
    refine ⟨click,r,htab,?_,?_,?_,?_⟩
    · rw [hdone,hafter]
      exact hr
    · rw [hdone,hafter]
    · rw [hdone,hafter]
    · have hinspected := hs.inspected
      simp only [hdata,true_and] at hinspected
      rw [hdone]
      exact hinspected

end Click

/-- An entry of a loaded trace was clicked in this frame. -/
structure ClickShown [StdSort] {F : Type} (fl : FloatArith F) (lt : F → F → Bool) (r : HeldReader)
    (x : TimelineEvent F) (i : FrameInput) (app : ImGuiApp) (f : DrawnFrame F) : Prop where
  /-- The entry shows a timing, and the inspector, if it is drawn, the event that this begins
  with. -/
  inspected : ∃ t ∈ getOpTimings r.events, ∃ e, ShowsTiming fl r.events t e x ∧
    f.inspected = if app.inspectorDrawn i = true then .loaded e else .none
  selected : app.data.selectedEvent = x.eventIndex
  /-- While this trace is shown, the next frame highlights this entry and no other one. -/
  highlighted : ∀ j app' f' entries, app.renderFrame fl lt j = some (app',f') →
    f'.timeline = some entries → app'.data.live.liveMode = false →
    app'.data.traceReader = some r →
    (entries.filter (fun y => y.color = highlight)).map TimelineEvent.eventIndex = [x.eventIndex]

section Loaded
variable [StdSort] {F : Type} {fl : FloatArith F} {lt : F → F → Bool} {app app' : ImGuiApp}
open ImGuiApp

/-- The sorting keeps as many entries as there are timings. -/
theorem length_processEvents (w : TimelineWidget) (events : List (Event Bytes)) :
    (w.processEvents fl lt events).2.length = (getOpTimings events).length := by
  cases events with
  | nil =>
    rw [getOpTimings,(StdSort.perm _ _).length_eq]
    rfl
  | cons first rest =>
    rw [← (perm_processEvents fl lt w rfl).length_eq,List.length_map]

end Loaded

section Overlapping
open ImGuiApp
attribute [local instance] mergeSorting

end Overlapping

section Live
open LiveState

/-- An entry of the reader of the live file was clicked in this frame: the inspector looks up
its position in the live buffer, which may have dropped the beginning of the file. The labels
in the buffer may be those of a reader that is gone. -/
structure LiveClickShown {F : Type} (fl : FloatArith F) (r : HeldReader) (x : TimelineEvent F)
    (i : FrameInput) (app : ImGuiApp) (f : DrawnFrame F) (t : OpTiming) (e : Event Bytes) :
    Prop where
  shows : ShowsTiming fl r.events t e x
  closed : app.inspectorDrawn i = false → f.inspected = .none
  inspected : app.inspectorDrawn i = true →
    (∃ le, f.inspected = .live le ∧
      (r.events[r.events.length - maxEvents + t.beginAt]?).map Event.bare =
        some le.event.bare) ∨
    f.inspected = .prompt ∧ r.events.length ≤ r.events.length - maxEvents + t.beginAt
  /-- While all events of the file are in the buffer, it is the event of the entry. -/
  clicked : app.inspectorDrawn i = true → r.events.length ≤ maxEvents →
    ∃ le, f.inspected = .live le ∧ le.event.bare = e.bare

variable {r : HeldReader}

theorem seen_of_liveReader {d : AppData} (h : BufferInv d.live) (hr : d.liveReader = some r) :
    d.live.seen = r.events := by
  obtain ⟨n,hn,hmade⟩ := Option.bind_eq_some_iff.mp hr
  have hlast : d.live.made.getLast? = some r := by
    rw [List.getLast?_eq_getElem?,← h.last n hn]
    exact hmade
  rw [LiveState.seen,LiveState.lastRead,hlast,r.events_eq]
  rfl

/-- The event at a position of the buffer, in the file that was read last. -/
theorem getElem?_shown {d : AppData} (h : BufferInv d.live)
    (hshown : d.live.shown = d.live.seen.rtake maxEvents) (hr : d.liveReader = some r) (n : ℕ) :
    (r.events[r.events.length - maxEvents + n]?).map Event.bare =
      (d.live.liveEvents[n]?).map (fun le => le.event.bare) := by
  have hread : (d.live.liveEvents[n]?).map (LiveEvent.read d.live.made) =
      r.events[r.events.length - maxEvents + n]? := by
    rw [← List.getElem?_map,← LiveState.shown,hshown,seen_of_liveReader h hr,List.rtake,
      List.getElem?_drop]
  rw [← hread,Option.map_map]
  rfl

variable [StdSort] {F : Type} {fl : FloatArith F} {lt : F → F → Bool} {app app' : ImGuiApp}
variable {is : List FrameInput} {vs : List FileView} {x : TimelineEvent F}
open ImGuiApp

/-- Frames that load nothing poll the file, and nothing else happens to the live data. -/
theorem live_of_frames (hstays : ∀ i ∈ is, i.Stays) (hinv : AppInv app)
    (hr : (appSystem fl lt).replay is app = some app') :
    app'.data.live = app.data.live.polls (is.map FrameInput.poll) ∧ AppInv app' := by
  induction is generalizing app with
  | nil =>
    cases hr
    exact ⟨rfl,hinv⟩
  | cons i is ih =>
    simp only [Transition.System.replay] at hr
    split at hr
    · obtain ⟨next,hact,hnext⟩ := Option.bind_eq_some_iff.mp hr
      obtain ⟨⟨_,f⟩,hframe,rfl⟩ := Option.map_eq_some_iff.mp hact
      obtain ⟨before,after,hs⟩ := renderFrame_step hinv hframe
      obtain ⟨hlive,hinv'⟩ := ih (fun j hj => hstays j (List.mem_cons_of_mem i hj))
        (hs.appInv hinv) hnext
      rw [hs.live_eq (hstays i List.mem_cons_self)] at hlive
      exact ⟨hlive,hinv'⟩
    · cases hr

end Live

section LiveOverlapping
open ImGuiApp LiveState
attribute [local instance] mergeSorting

end LiveOverlapping
end GgmlViz
