import GgmlViz.Frontend.App

/-! # Runs of the application

A trace is loaded exactly when there is a reader, and never in live mode, so no frame uses a
null pointer. The selection is the last click.
-/
namespace GgmlViz
open LittleEndian

/-- The frontend shows a trace, or live data, or nothing. -/
structure DataInv (d : AppData) : Prop where
  loaded_iff : d.traceLoaded = d.traceReader.isSome
  oneMode : d.live.liveMode = true → d.traceReader = none
  /-- Outside of live mode nothing is left of it. -/
  quiet : d.live.liveMode = false → d.live.liveEvents = [] ∧ d.live.liveFilePath = [] ∧
    d.live.liveTraceReader = none

structure AppInv (app : ImGuiApp) : Prop where
  data : DataInv app.data
  selection : app.data.selectedEvent = -1 ∨
    app.data.selectedEvent = app.timelineWidget.selectedEvent

namespace LiveState

theorem liveMode_checkFile (p : Poll) (s : LiveState) : (s.checkFile p).liveMode = s.liveMode := by
  unfold checkFile
  split
  · rfl
  · split
    · split
      · rfl
      · simp only [reload]
        split <;> rfl
    · rfl

theorem liveMode_updateLiveData (p : Poll) (s : LiveState) :
    (s.updateLiveData p).liveMode = s.liveMode := by
  have hhook : (s.updateFromHook p.hookEvents).liveMode = s.liveMode := by
    unfold updateFromHook
    split
    · rfl
    · split <;> rfl
  unfold updateLiveData
  split
  · rfl
  · dsimp only
    split
    · rw [liveMode_checkFile]
      exact hhook
    · exact hhook

end LiveState

namespace DataInv
variable {d : AppData}

theorem start : DataInv .start where
  loaded_iff := rfl
  oneMode := fun _ => rfl
  quiet := fun _ => ⟨rfl,rfl,rfl⟩

theorem enableLiveMode (h : DataInv d) (hnone : d.traceReader = none) (traceFile : Bytes)
    (env : Option Bytes) : DataInv (d.enableLiveMode traceFile env) where
  loaded_iff := h.loaded_iff
  oneMode := fun _ => hnone
  quiet := nofun

theorem updateLiveData (h : DataInv d) (p : Poll) :
    DataInv { d with live := d.live.updateLiveData p } := by
  by_cases hlive : d.live.liveMode = false
  · have hsame : d.live.updateLiveData p = d.live := by
      rw [LiveState.updateLiveData,if_pos hlive]
    rw [hsame]
    exact h
  · have hmode := LiveState.liveMode_updateLiveData p d.live
    exact
      { loaded_iff := h.loaded_iff
        oneMode := fun hon => h.oneMode (hmode ▸ hon)
        quiet := fun hoff => absurd (hmode ▸ hoff) hlive }

theorem closeTrace (h : DataInv d) : DataInv d.closeTrace where
  loaded_iff := rfl
  oneMode := fun _ => rfl
  quiet := h.quiet

theorem leaveLiveMode (h : DataInv d) :
    DataInv (if d.live.liveMode then d.disableLiveMode else d) ∧
      (if d.live.liveMode then d.disableLiveMode else d).live.liveMode = false := by
  split
  · exact ⟨{ loaded_iff := h.loaded_iff, oneMode := nofun, quiet := fun _ => ⟨rfl,rfl,rfl⟩ },rfl⟩
  · next hoff => exact ⟨h,Bool.eq_false_iff.mpr hoff⟩

theorem loadTraceFile (h : DataInv d) (filename : Bytes) (access : FileAccess) :
    DataInv (d.loadTraceFile filename access).1 := by
  obtain ⟨hd,hoff⟩ := h.leaveLiveMode
  unfold AppData.loadTraceFile
  generalize (if d.live.liveMode then d.disableLiveMode else d) = d' at hd hoff
  dsimp only
  have hfail (e : LoadError) : DataInv (d'.fail filename e).1 := { hd with }
  split
  · exact hfail _
  · split
    · exact hfail _
    · split
      · exact hfail _
      · split
        · exact hfail _
        · split
          · exact hfail _
          · exact
              { loaded_iff := rfl
                oneMode := by
                  intro hon
                  exact absurd (hoff.symm.trans hon) (by decide)
                quiet := hd.quiet }

/-- The status never needs a reader that is not there. -/
theorem menuStatus (h : DataInv d) : ∃ status, d.menuStatus = some status := by
  unfold AppData.menuStatus
  split
  · next hany =>
    split
    · exact ⟨_,rfl⟩
    · next hoff =>
      have hloaded : d.traceReader.isSome = true := by
        rw [← h.loaded_iff]
        simpa [hoff] using hany
      obtain ⟨r,hr⟩ := Option.isSome_iff_exists.mp hloaded
      rw [hr]
      exact ⟨_,rfl⟩
  · exact ⟨_,rfl⟩

theorem withSelected (h : DataInv d) (selected : Int32) :
    DataInv { d with selectedEvent := selected } where
  loaded_iff := h.loaded_iff
  oneMode := h.oneMode
  quiet := h.quiet

end DataInv

/-- Loading keeps the selection or clears it. -/
theorem selectedEvent_loadTraceFile (filename : Bytes) (access : FileAccess) (d : AppData) :
    (d.loadTraceFile filename access).1.selectedEvent = -1 ∨
      (d.loadTraceFile filename access).1.selectedEvent = d.selectedEvent := by
  have hsame : (if d.live.liveMode then d.disableLiveMode else d).selectedEvent =
      d.selectedEvent := by
    split <;> rfl
  unfold AppData.loadTraceFile
  generalize (if d.live.liveMode then d.disableLiveMode else d) = d' at hsame
  dsimp only
  split
  · exact .inr hsame
  · split
    · exact .inr hsame
    · split
      · exact .inr hsame
      · split
        · exact .inr hsame
        · split
          · exact .inr hsame
          · exact .inl rfl

namespace ImGuiApp
variable {app app' : ImGuiApp}

/-- The frame up to the views. -/
def beforeViews (i : FrameInput) (app : ImGuiApp) : Option (ImGuiApp × MenuStatus) :=
  ((app.updateLiveData i.poll).renderMainMenuBar i.menu).map (fun (app,status) =>
    (if app.showFileBrowser then app.renderFileBrowser i.browser else app,status))

/-- The menu changes the data by closing the trace. -/
theorem data_fileMenu (menu : MenuItem → Bool) (app : ImGuiApp) :
    (app.fileMenu menu).data = app.data ∨ (app.fileMenu menu).data = app.data.closeTrace := by
  unfold fileMenu
  dsimp only
  split
  · exact .inr rfl
  · exact .inl rfl

/-- What the polling, the menu and the file browser leave to the views. -/
structure LeavesToViews (app app' : ImGuiApp) : Prop where
  data : DataInv app'.data
  widget : app'.timelineWidget = app.timelineWidget
  selected : app'.data.selectedEvent = -1 ∨ app'.data.selectedEvent = app.data.selectedEvent

theorem LeavesToViews.trans {app'' : ImGuiApp} (h : LeavesToViews app app')
    (h' : LeavesToViews app' app'') : LeavesToViews app app'' where
  data := h'.data
  widget := h'.widget.trans h.widget
  selected := by
    rcases h'.selected with hnone | hsame
    · exact .inl hnone
    · rw [hsame]
      exact h.selected

theorem leavesToViews_renderFileBrowser (h : DataInv app.data) (browser : BrowserInput) :
    LeavesToViews app (app.renderFileBrowser browser) := by
  have hsame : LeavesToViews app app := { data := h, widget := rfl, selected := .inr rfl }
  unfold renderFileBrowser
  split
  · exact hsame
  · exact { hsame with }
  · exact { hsame with }
  · next filePath access =>
    split
    · exact
        { data := h.loadTraceFile filePath access
          widget := rfl
          selected := selectedEvent_loadTraceFile filePath access app.data }
    · exact hsame

theorem leavesToViews_menu (h : DataInv app.data) (menu : MenuItem → Bool) :
    LeavesToViews app ((app.fileMenu menu).viewMenu menu) where
  data := by
    change DataInv (app.fileMenu menu).data
    rcases data_fileMenu menu app with hdata | hdata
    · rw [hdata]
      exact h
    · rw [hdata]
      exact h.closeTrace
  widget := rfl
  selected := by
    change (app.fileMenu menu).data.selectedEvent = -1 ∨ (app.fileMenu menu).data.selectedEvent = _
    rcases data_fileMenu menu app with hdata | hdata <;> rw [hdata] <;> exact .inr rfl

theorem live_renderFileBrowser {i : FrameInput} (hi : i.Stays) (app : ImGuiApp) :
    (app.renderFileBrowser i.browser).data.live = app.data.live := by
  unfold renderFileBrowser
  split
  · rfl
  · rfl
  · rfl
  · next heq => exact absurd heq (hi _ _)

theorem live_fileMenu (menu : MenuItem → Bool) (app : ImGuiApp) :
    (app.fileMenu menu).data.live = app.data.live := by
  rcases data_fileMenu menu app with hdata | hdata
  · rw [hdata]
  · rw [hdata]
    rfl

/-- Up to the views nothing goes wrong. -/
theorem beforeViews_spec (h : DataInv app.data) (i : FrameInput) : ∃ app' status,
    app.beforeViews i = some (app',status) ∧ LeavesToViews app app' ∧
      (i.Stays → app'.data.live = app.data.live.updateLiveData i.poll) := by
  have hupdate := h.updateLiveData i.poll
  have hpolled : LeavesToViews app (app.updateLiveData i.poll) :=
    { data := hupdate, widget := rfl, selected := .inr rfl }
  have hmenu : LeavesToViews (app.updateLiveData i.poll)
      (((app.updateLiveData i.poll).fileMenu i.menu).viewMenu i.menu) :=
    leavesToViews_menu hupdate i.menu
  obtain ⟨status,hstatus⟩ := hmenu.data.menuStatus
  let shown := ((app.updateLiveData i.poll).fileMenu i.menu).viewMenu i.menu
  have hlive : shown.data.live = app.data.live.updateLiveData i.poll :=
    live_fileMenu i.menu (app.updateLiveData i.poll)
  refine ⟨if shown.showFileBrowser then shown.renderFileBrowser i.browser else shown,status,
    ?_,?_,?_⟩
  · rw [beforeViews,renderMainMenuBar,hstatus]
    rfl
  · split
    · exact hpolled.trans (hmenu.trans (leavesToViews_renderFileBrowser hmenu.data i.browser))
    · exact hpolled.trans hmenu
  · intro hi
    split
    · rw [live_renderFileBrowser hi,hlive]
    · exact hlive

/-- Drawing the timeline changes the selection, and only by a click. -/
structure Draws (tab : TimelineTab) (app app' : ImGuiApp) : Prop where
  data : app'.data = { app.data with selectedEvent := app'.data.selectedEvent }
  showTensorInspector : app'.showTensorInspector = app.showTensorInspector
  selection : app'.data.selectedEvent = app'.timelineWidget.selectedEvent ∨
    app'.data.selectedEvent = app.data.selectedEvent ∧
      app'.timelineWidget.selectedEvent = app.timelineWidget.selectedEvent
  noClick : tab.click = none →
    app'.timelineWidget.selectedEvent = app.timelineWidget.selectedEvent

theorem renderErrorPopup_eq (ok : Bool) (app : ImGuiApp) : app.renderErrorPopup ok =
    { app with data :=
        { app.data with errorMessage := (app.renderErrorPopup ok).data.errorMessage } } := by
  unfold renderErrorPopup
  split <;> rfl

variable [StdSort] {F : Type} {fl : FloatArith F} {lt : F → F → Bool}

theorem renderFrame_eq (fl : FloatArith F) (lt : F → F → Bool) (i : FrameInput) (app : ImGuiApp) :
    app.renderFrame fl lt i = (app.beforeViews i).map (fun (app,status) =>
      let (app,timeline,inspected) := app.renderViews fl lt i
      (app.renderErrorPopup i.ok,{ status, timeline, inspected })) := by
  unfold renderFrame beforeViews
  cases (app.updateLiveData i.poll).renderMainMenuBar i.menu with
  | none => rfl
  | some r => rfl

theorem selectedEvent_processEvents (w : TimelineWidget) (events : List (Event Bytes)) :
    (w.processEvents fl lt events).1.selectedEvent = w.selectedEvent := by
  cases events <;> rfl

theorem selectedEvent_render (w : TimelineWidget) (events : List (Event Bytes)) :
    (w.render fl lt events none).1.selectedEvent = w.selectedEvent := by
  unfold TimelineWidget.render
  split
  · rfl
  · exact selectedEvent_processEvents w events

theorem draws_renderTimelineView (fl : FloatArith F) (lt : F → F → Bool) (tab : TimelineTab)
    (app : ImGuiApp) : Draws tab app (app.renderTimelineView fl lt tab).1 := by
  have hsame : Draws tab app app :=
    { data := rfl
      showTensorInspector := rfl
      selection := .inr ⟨rfl,rfl⟩
      noClick := fun _ => rfl }
  unfold renderTimelineView
  split
  · next click =>
    split
    · exact
        { data := rfl
          showTensorInspector := rfl
          selection := .inl rfl
          noClick := by
            rintro rfl
            exact selectedEvent_render app.timelineWidget _ }
    · exact hsame
  · next click =>
    split
    · split
      · exact { data := rfl, showTensorInspector := rfl, selection := .inl rfl, noClick := nofun }
      · exact hsame
    · exact hsame
  · exact hsame

/-- Entries are drawn by the widget, of the reader chosen for it. -/
theorem renderTimelineView_some {tab : TimelineTab} {entries : List (TimelineEvent F)}
    (h : app.renderTimelineView fl lt tab = (app',some entries)) :
    ∃ click r, tab = .visual click ∧ app.data.widgetReader = some r ∧
      entries = (app.timelineWidget.render fl lt r.events click).2 ∧
      app' = { app with
        timelineWidget := (app.timelineWidget.render fl lt r.events click).1
        data := { app.data with
          selectedEvent := (app.timelineWidget.render fl lt r.events click).1.selectedEvent } } := by
  unfold renderTimelineView at h
  split at h
  · next click =>
    split at h
    · next r hr =>
      cases h
      exact ⟨click,r,rfl,hr,rfl,rfl⟩
    · cases h
  · split at h
    · split at h <;> cases h
    · cases h
  · cases h

/-- The window of the inspector is drawn, when there is something to view. -/
def inspectorDrawn (i : FrameInput) (app : ImGuiApp) : Bool :=
  app.showTensorInspector && i.inspectorOpen

/-- What one frame does: the state that the views are drawn in, and the state after them. -/
structure FrameSteps (fl : FloatArith F) (lt : F → F → Bool) (i : FrameInput)
    (app app' : ImGuiApp) (f : DrawnFrame F) (before after : ImGuiApp) : Prop where
  leaves : LeavesToViews app before
  live : i.Stays → before.data.live = app.data.live.updateLiveData i.poll
  views : (after = before ∧ f.timeline = none) ∨ ∃ tab, i.tab = some tab ∧ before.HasData ∧
    before.renderTimelineView fl lt tab = (after,f.timeline)
  inspected : f.inspected =
    if before.HasData ∧ after.inspectorDrawn i = true then after.data.inspect else .none
  done : app' = after.renderErrorPopup i.ok

theorem renderViews_cases (fl : FloatArith F) (lt : F → F → Bool) (i : FrameInput)
    (before : ImGuiApp) : ∃ after timeline inspected,
      before.renderViews fl lt i = (after,timeline,inspected) ∧
      ((after = before ∧ timeline = none) ∨ ∃ tab, i.tab = some tab ∧ before.HasData ∧
        before.renderTimelineView fl lt tab = (after,timeline)) ∧
      inspected =
        if before.HasData ∧ after.inspectorDrawn i = true then after.data.inspect else .none := by
  by_cases hdata : before.HasData
  · simp only [renderViews,hdata,if_true,true_and]
    cases htab : i.tab with
    | none => exact ⟨before,none,_,rfl,.inl ⟨rfl,rfl⟩,rfl⟩
    | some tab =>
      by_cases hshow : before.showTimeline = true
      · simp only [if_pos hshow]
        exact ⟨_,_,_,rfl,.inr ⟨tab,rfl,rfl⟩,rfl⟩
      · simp only [if_neg hshow]
        exact ⟨before,none,_,rfl,.inl ⟨rfl,rfl⟩,rfl⟩
  · simp only [renderViews,hdata,false_and,if_false]
    exact ⟨before,none,.none,rfl,.inl ⟨rfl,rfl⟩,rfl⟩

/-- A frame is drawn, in these steps. -/
theorem renderFrame_steps (fl : FloatArith F) (lt : F → F → Bool) (h : DataInv app.data)
    (i : FrameInput) : ∃ app' f before after, app.renderFrame fl lt i = some (app',f) ∧
      FrameSteps fl lt i app app' f before after := by
  obtain ⟨before,status,hbefore,hleaves,hlive⟩ := beforeViews_spec h i
  obtain ⟨after,timeline,inspected,hviews,htimeline,hinspected⟩ :=
    renderViews_cases fl lt i before
  refine ⟨after.renderErrorPopup i.ok,{ status, timeline, inspected },before,after,?_,?_⟩
  · simp only [renderFrame_eq,hbefore,Option.map_some,hviews]
  · exact
      { leaves := hleaves, live := hlive, views := htimeline, inspected := hinspected, done := rfl }

namespace FrameSteps
variable {i : FrameInput} {f : DrawnFrame F} {before after : ImGuiApp}
variable (hs : FrameSteps fl lt i app app' f before after)
include hs

/-- The views are those of some timeline tab, or there is no click. -/
theorem draws : ∃ tab : TimelineTab, Draws tab before after ∧
    (i.tab = none ∨ i.tab = some tab ∨ tab.click = none) := by
  rcases hs.views with ⟨rfl,-⟩ | ⟨tab,htab,-,hview⟩
  · refine ⟨.opTimings,?_,.inr (.inr rfl)⟩
    exact
      { data := rfl
        showTensorInspector := rfl
        selection := .inr ⟨rfl,rfl⟩
        noClick := fun _ => rfl }
  · have hdraws := draws_renderTimelineView fl lt tab before
    rw [hview] at hdraws
    exact ⟨tab,hdraws,.inr (.inl htab)⟩

/-- Without loading, the live data are those of the poll. -/
theorem live_eq (hi : i.Stays) : app'.data.live = app.data.live.updateLiveData i.poll := by
  obtain ⟨tab,hdraws,-⟩ := hs.draws
  have hdone := hs.done.trans (renderErrorPopup_eq i.ok after)
  have hlive : after.data.live = before.data.live := by rw [hdraws.data]
  rw [hdone,← hs.live hi,← hlive]

theorem appInv (h : AppInv app) : AppInv app' := by
  obtain ⟨tab,hdraws,-⟩ := hs.draws
  have hafter : DataInv after.data := by
    rw [hdraws.data]
    exact hs.leaves.data.withSelected _
  have hdone := hs.done.trans (renderErrorPopup_eq i.ok after)
  rw [hdone]
  exact
    { data := { hafter with }
      selection := by
        change after.data.selectedEvent = -1 ∨
          after.data.selectedEvent = after.timelineWidget.selectedEvent
        rcases hdraws.selection with hsame | ⟨hdata,hwidget⟩
        · exact .inr hsame
        · rw [hdata,hwidget,hs.leaves.widget]
          rcases hs.leaves.selected with hnone | hsame
          · exact .inl hnone
          · rw [hsame]
            exact h.selection }

/-- Without a click the widget keeps its selection. -/
theorem noClick (hno : ∀ tab, i.tab = some tab → tab.click = none) :
    app'.timelineWidget.selectedEvent = app.timelineWidget.selectedEvent := by
  have hdone := hs.done.trans (renderErrorPopup_eq i.ok after)
  rw [hdone,← hs.leaves.widget]
  rcases hs.views with ⟨rfl,-⟩ | ⟨tab,htab,-,hview⟩
  · rfl
  · have hdraws := draws_renderTimelineView fl lt tab before
    rw [hview] at hdraws
    exact hdraws.noClick (hno tab htab)

/-- Where the visual timeline is drawn, its selection is the one of the frontend. -/
theorem synced (hdrawn : f.timeline.isSome) :
    app'.data.selectedEvent = app'.timelineWidget.selectedEvent := by
  have hdone := hs.done.trans (renderErrorPopup_eq i.ok after)
  rw [hdone]
  change after.data.selectedEvent = after.timelineWidget.selectedEvent
  obtain ⟨entries,hentries⟩ := Option.isSome_iff_exists.mp hdrawn
  rcases hs.views with ⟨-,hnone⟩ | ⟨tab,-,-,hview⟩
  · cases hnone.symm.trans hentries
  · rw [hentries] at hview
    obtain ⟨click,r,-,-,-,rfl⟩ := renderTimelineView_some hview
    rfl

end FrameSteps
end ImGuiApp

/-- What is inspected is the selected event of what is shown. -/
structure ShowsSelected {F : Type} (app : ImGuiApp) (f : DrawnFrame F) : Prop where
  live : ∀ e, f.inspected = .live e → app.data.live.liveMode = true ∧
    0 ≤ app.data.selectedEvent ∧
    app.data.live.liveEvents[app.data.selectedEvent.toInt.toNat]? = some e
  loaded : ∀ e, f.inspected = .loaded e → app.data.live.liveMode = false ∧
    0 ≤ app.data.selectedEvent ∧ ∃ r, app.data.traceReader = some r ∧
      r.events[app.data.selectedEvent.toInt.toNat]? = some e

section Runs
open ImGuiApp

theorem selectedOf_eq_some {E : Type} {d : AppData} {events : List E} {e : E}
    (h : d.selectedOf events = some e) :
    0 ≤ d.selectedEvent ∧ events[d.selectedEvent.toInt.toNat]? = some e := by
  unfold AppData.selectedOf at h
  split at h
  · next hsel => exact ⟨hsel.1,h⟩
  · cases h

theorem appInv_startIn (mode : StartMode) : AppInv (.startIn mode) := by
  cases mode with
  | live traceFile env =>
    exact { data := DataInv.start.enableLiveMode rfl traceFile env, selection := .inl rfl }
  | trace traceFile access =>
    have hselected := selectedEvent_loadTraceFile traceFile access .start
    exact
      { data := DataInv.start.loadTraceFile traceFile access
        selection := .inl (hselected.elim id id) }
  | empty => exact { data := .start, selection := .inl rfl }

variable [StdSort] {F : Type} {fl : FloatArith F} {lt : F → F → Bool} {app app' : ImGuiApp}

/-- Where something is inspected, the window shows it. -/
theorem ImGuiApp.FrameSteps.inspected_of_ne {i : FrameInput} {f : DrawnFrame F}
    {before after : ImGuiApp} (hs : FrameSteps fl lt i app app' f before after)
    (hne : f.inspected ≠ .none) : f.inspected = after.data.inspect := by
  have hinspected := hs.inspected
  split at hinspected
  · exact hinspected
  · exact absurd hinspected hne

theorem showsSelected_of_steps {i : FrameInput} {f : DrawnFrame F} {before after : ImGuiApp}
    (hs : FrameSteps fl lt i app app' f before after) : ShowsSelected app' f := by
  have hdone := hs.done.trans (renderErrorPopup_eq i.ok after)
  rw [hdone]
  constructor
  · intro e he
    have hinspect := hs.inspected_of_ne (by rw [he]; nofun)
    rw [he,AppData.inspect] at hinspect
    split at hinspect
    · next hlive =>
      split at hinspect
      · next x hx =>
        cases hinspect
        exact ⟨hlive,selectedOf_eq_some hx⟩
      · cases hinspect
    · split at hinspect
      · cases hinspect
      · split at hinspect <;> cases hinspect
  · intro e he
    have hinspect := hs.inspected_of_ne (by rw [he]; nofun)
    rw [he,AppData.inspect] at hinspect
    split at hinspect
    · split at hinspect <;> cases hinspect
    · next hlive =>
      split at hinspect
      · cases hinspect
      · next r hr =>
        split at hinspect
        · next x hx =>
          cases hinspect
          obtain ⟨hpos,hget⟩ := selectedOf_eq_some hx
          exact ⟨Bool.eq_false_iff.mpr hlive,hpos,r,hr,hget⟩
        · cases hinspect

theorem renderFrame_step (h : AppInv app) {i : FrameInput} {f : DrawnFrame F}
    (hframe : app.renderFrame fl lt i = some (app',f)) :
    ∃ before after, FrameSteps fl lt i app app' f before after := by
  obtain ⟨_,_,before,after,heq,hs⟩ := renderFrame_steps fl lt h.data i
  cases heq.symm.trans hframe
  exact ⟨before,after,hs⟩

theorem appInv_reachable (h : (appSystem fl lt).Reachable app) : AppInv app := by
  apply h.invariant
  · rintro app ⟨mode,rfl⟩
    exact appInv_startIn mode
  · intro app i app' hinv _ hact
    obtain ⟨⟨_,f⟩,hframe,rfl⟩ := Option.map_eq_some_iff.mp hact
    obtain ⟨before,after,hs⟩ := renderFrame_step hinv hframe
    exact hs.appInv hinv

/-- Only a click changes the selection of the timeline: frames without one keep it, whatever
they load, close or leave, and drawing the timeline brings it back. -/
theorem selection_kept (h : (appSystem fl lt).Reachable app) {is : List FrameInput}
    (hno : ∀ i ∈ is, ∀ tab, i.tab = some tab → tab.click = none)
    (hr : (appSystem fl lt).replay is app = some app') :
    app'.timelineWidget.selectedEvent = app.timelineWidget.selectedEvent ∧
      ∀ i app'' f, (∀ tab, i.tab = some tab → tab.click = none) →
        app'.renderFrame fl lt i = some (app'',f) → f.timeline.isSome →
        app''.data.selectedEvent = app.timelineWidget.selectedEvent := by
  have hkept : app'.timelineWidget.selectedEvent = app.timelineWidget.selectedEvent := by
    induction is generalizing app with
    | nil =>
      cases hr
      rfl
    | cons i is ih =>
      simp only [Transition.System.replay] at hr
      split at hr
      · next hmay =>
        obtain ⟨next,hact,hnext⟩ := Option.bind_eq_some_iff.mp hr
        obtain ⟨⟨_,f⟩,hframe,rfl⟩ := Option.map_eq_some_iff.mp hact
        obtain ⟨before,after,hs⟩ := renderFrame_step (appInv_reachable h) hframe
        rw [ih (.step i h hmay hact) (fun j hj => hno j (List.mem_cons_of_mem i hj)) hnext]
        exact hs.noClick (hno i List.mem_cons_self)
      · cases hr
  refine ⟨hkept,?_⟩
  intro i app'' f hi hframe hdrawn
  obtain ⟨before,after,hs⟩ := renderFrame_step (appInv_reachable (h.replay hr)) hframe
  rw [hs.synced hdrawn,hs.noClick hi,hkept]

end Runs

section Examples
open ImGuiApp
attribute [local instance] mergeSorting

/-- A frame in which the user does nothing. -/
def idleFrame : FrameInput where
  poll := { checkStart := 0, now := 0, hookEvents := none, fileStat := none, content := none }
  menu _ := false
  browser := .nothing
  tab := none
  inspectorOpen := true
  ok := false

def overlappingFile : FileAccess := .stable (some (writeTrace id overlapping)) none

def ratLt (a b : ℚ) : Bool := decide (a < b)

/-- A row is selected, the trace is closed and another one is loaded: the selection is back. -/
theorem selection_kept_reload : ∃ (app app' : ImGuiApp) (is : List FrameInput),
    (appSystem ratArith ratLt).replay is app = some app' ∧ is.length = 2 ∧
      app'.data.selectedEvent = 3 ∧
      app'.timelineWidget.selectedEvent = app.timelineWidget.selectedEvent := by
  let S := appSystem ratArith ratLt
  let start := startIn (.trace (ascii "a.ggmlviz") overlappingFile)
  let clicking : List FrameInput := [{ idleFrame with tab := some (.events (some 3)) }]
  let is : List FrameInput :=
    [{ idleFrame with menu := fun m => m = .closeTrace },
      { idleFrame with
        menu := fun m => m = .openTrace
        browser := .open (ascii "b.ggmlviz") overlappingFile
        tab := some (.visual none) }]
  have hclicked : ((S.replay clicking start).map (fun app => app.timelineWidget.selectedEvent)) =
      some 3 := by decide +kernel
  obtain ⟨app,happ,-⟩ := Option.map_eq_some_iff.mp hclicked
  have hloaded : (((S.replay clicking start).bind (S.replay is)).map
      (fun app => app.data.selectedEvent)) = some 3 := by decide +kernel
  obtain ⟨app',happ',hselected⟩ := Option.map_eq_some_iff.mp hloaded
  rw [happ,Option.bind_some] at happ'
  have hreach : S.Reachable app := Transition.System.Reachable.replay (.start ⟨_,rfl⟩) happ
  have hno : ∀ i ∈ is, ∀ tab, i.tab = some tab → tab.click = none := by
    intro i hi tab htab
    rcases List.mem_cons.mp hi with rfl | hi
    · cases htab
    · cases List.mem_singleton.mp hi
      cases htab
      rfl
  exact ⟨app,app',is,happ',rfl,hselected,(selection_kept hreach hno happ').1⟩

end Examples
end GgmlViz
